import DmfOs.Mem.Heap.Layout
import DmfOs.Mem.Page.Order
import DmfOs.Core.Run

/-!
# Conservation of pages by the heap

Over the page back end a request takes the next power of two of pages, but its
header records only the pages asked for, and `free` returns those. The pages of
the initial free list are therefore split at all times into free pages, pages
of live blocks and lost pages, and a request loses none exactly when its page
count is a power of two.
-/

namespace DmfOs

open Memory

/-! ## Blocks made of whole pages -/

/-- The bytes on the listed pages. -/
def pageBytes (P : List Word) : Set Word := {x | pageBase x ∈ P}

theorem span_subset_pageBytes {P : List Word} {p : Word} (hp : p.toNat % 4096 = 0) (hmem : p ∈ P)
    {k : Nat} (hk : k ≤ 4096) : span p k ⊆ pageBytes P := by
  intro x hx
  change pageBase x ∈ P
  rwa [pageBase_of_mem_span hp hk hx]

namespace Block

variable {B C : Block}

/-- The pages that the header of a block records. -/
def pages (B : Block) : List Word := pageRun B.start (B.granted.toNat / 4096)

/-- The recorded region is a non-empty run of usable pages. -/
structure Paged (B : Block) : Prop where
  page : IsPage B.start
  dvd : 4096 ∣ B.granted.toNat
  pos : 0 < B.granted.toNat
  no_wrap : B.start.toNat + B.granted.toNat ≤ 2 ^ 32

theorem Paged.mem_region (h : B.Paged) {x : Word} : x ∈ B.region ↔ pageBase x ∈ B.pages := by
  have hsize : B.granted.toNat = 4096 * (B.granted.toNat / 4096) :=
    (Nat.mul_div_cancel' h.dvd).symm
  rw [region, hsize, pages, mem_span_pageRun h.page.2 (hsize ▸ h.no_wrap)]

theorem Paged.region_eq (h : B.Paged) : B.region = pageBytes B.pages :=
  Set.ext fun _ => h.mem_region

/-- The recorded pages are usable. -/
theorem Paged.isPage (h : B.Paged) {p : Word} (hp : p ∈ B.pages) : IsPage p := by
  have hsize : B.granted.toNat = 4096 * (B.granted.toNat / 4096) :=
    (Nat.mul_div_cancel' h.dvd).symm
  exact isPage_of_mem_pageRun h.page (hsize ▸ h.no_wrap) hp

/-- The recorded pages are different ones. -/
theorem Paged.nodup (h : B.Paged) : B.pages.Nodup := by
  apply nodup_pageRun
  have := h.no_wrap
  have := Nat.div_mul_le_self B.granted.toNat 4096
  omega

/-- Regions of different pages are disjoint. -/
theorem Paged.disjoint_region (hB : B.Paged) (hC : C.Paged) (hd : ∀ p ∈ B.pages, p ∉ C.pages) :
    Disjoint B.region C.region := by
  rw [Set.disjoint_left]
  intro x hx hy
  exact hd _ (hB.mem_region.mp hx) (hC.mem_region.mp hy)

/-- A page outside the block shares no byte with it. -/
theorem Paged.disjoint_page (hB : B.Paged) {p : Word} (hp : IsPage p) (hn : p ∉ B.pages) {k : Nat}
    (hk : k ≤ 4096) : Disjoint (span p k) B.region := by
  rw [Set.disjoint_left]
  intro x hx hy
  rw [hB.mem_region, pageBase_of_mem_span hp.2 hk hx] at hy
  exact hn hy

/-- Stores into a block keep a free list that holds none of its pages. -/
theorem Paged.freeList_frame (hB : B.Paged) {s : PageState} {L : List Word} (h : s.FreeList L)
    (hn : ∀ p ∈ L, p ∉ B.pages) {m : Memory} (hw : WritesIn B.region s.mem m) :
    PageState.FreeList { s with mem := m } L :=
  h.frame hw fun p hp => hB.disjoint_page (h.pages p hp) (hn p hp) (by decide)

/-- The link words of the pages of a block lie in its region. -/
theorem Paged.linkWords_subset (hB : B.Paged) : linkWords B.pages ⊆ B.region := by
  rintro x ⟨p, hp, hx⟩
  have hsize : B.granted.toNat = 4096 * (B.granted.toNat / 4096) :=
    (Nat.mul_div_cancel' hB.dvd).symm
  rw [region, hsize]
  exact span_page_subset hB.page.2 (hsize ▸ hB.no_wrap) hp (by decide) hx

end Block

/-- What a client does next. -/
inductive PageHeapOp where
  | memalign (alignment size : Word)
  | free (ptr : Word)
  /-- Store a byte into a block. -/
  | write (addr : Word) (v : Byte)

/-- The heap over the page back end and its live blocks. -/
structure PageHeapWorld where
  heap : Heap
  live : List Block

namespace PageHeapWorld

/-- What the clients are allowed to do: requests are for a power of two and do
not wrap their padded size, a pointer is freed while its block is live, and a
store hits the user bytes of a live block. -/
def Allowed (w : PageHeapWorld) : PageHeapOp → Prop
  | .memalign alignment size =>
    IsPow2 alignment ∧ Heap.blockBytes alignment size pageSize < 2 ^ 32
  | .free ptr => ∃ B ∈ w.live, B.ptr = ptr
  | .write addr _ => ∃ B ∈ w.live, addr ∈ B.userArea

/-- One successful operation, with any fuel that lets it return. -/
inductive Step (w : PageHeapWorld) : PageHeapOp → PageHeapWorld → Prop
  | memalign {alignment size p q : Word} {h h' : Heap} (fuel : Nat) :
      w.heap.backEnd fuel alignment size = some (q, h) → q ≠ 0 →
      w.heap.memalign fuel alignment size = some (p, h') →
      Step w (.memalign alignment size)
        ⟨h', ⟨alignment, size, p, q, w.heap.blkSize alignment size⟩ :: w.live⟩
  | free {B : Block} {ptr : Word} {h : Heap} (fuel : Nat) : B ∈ w.live → B.ptr = ptr →
      w.heap.free fuel ptr = some h →
      Step w (.free ptr) ⟨h, w.live.erase B⟩
  | write {addr : Word} {v : Byte} :
      Step w (.write addr v) { w with heap := w.heap.withMem (w.heap.mem.storeByte addr v) }

/-- An operation that the clients are allowed. -/
def LegalStep (w : PageHeapWorld) (op : PageHeapOp) (w' : PageHeapWorld) : Prop :=
  w.Allowed op ∧ w.Step op w'

/-- The number of pages that `page_memalign` computes for a request of `memalign`. -/
def pageCount (alignment size : Word) : Word :=
  alignWord (alignWord (Heap.paddedSize alignment size + metadataExtra) pageSize) pageSize >>>
    pageShift

/-- The page count of a request is a power of two. -/
def Exact : PageHeapOp → Prop
  | .memalign alignment size => isPowerOf2 (pageCount alignment size) = true
  | .free _ => True
  | .write _ _ => True

/-- The pages `L₀` are the free ones, those of live blocks and the lost ones. -/
structure Accounted (L₀ : List Word) (w : PageHeapWorld) (L lost : List Word) : Prop where
  ops_eq : w.heap.ops = .page
  freeList : w.heap.page.FreeList L
  live : LiveBlocks w.heap.mem w.live
  paged : ∀ B ∈ w.live, B.Paged
  perm : (L ++ (w.live.flatMap Block.pages ++ lost)).Perm L₀

variable {L₀ L lost : List Word} {w w' : PageHeapWorld} {B : Block}

/-- A free page is in no live block. -/
theorem Accounted.free_not_live (h : w.Accounted L₀ L lost) (hnd : L₀.Nodup) {p : Word}
    (hp : p ∈ L) (hB : B ∈ w.live) : p ∉ B.pages := by
  have hall := h.perm.nodup_iff.mpr hnd
  intro hpB
  have hlive : p ∈ w.live.flatMap Block.pages ++ lost :=
    List.mem_append_left _ (List.mem_flatMap.mpr ⟨B, hB, hpB⟩)
  exact (List.nodup_append.mp hall).2.2 p hp p hlive rfl

/-- Stores into a live block miss the free pages. -/
theorem Accounted.disjoint_links (h : w.Accounted L₀ L lost) (hnd : L₀.Nodup) {p : Word}
    (hp : p ∈ L) (hB : B ∈ w.live) {k : Nat} (hk : k ≤ 4096) : Disjoint (span p k) B.region :=
  (h.paged B hB).disjoint_page (h.freeList.pages p hp) (h.free_not_live hnd hp hB) hk

/-- A client that writes into its block keeps the account. -/
theorem Accounted.write (h : w.Accounted L₀ L lost) (hnd : L₀.Nodup) (hB : B ∈ w.live)
    {addr : Word} (ha : addr ∈ B.userArea) (v : Byte) :
    Accounted L₀ { w with heap := w.heap.withMem (w.heap.mem.storeByte addr v) } L lost := by
  refine ⟨h.ops_eq, h.freeList.frame (writesIn_storeByte _ addr v) fun p hp => ?_,
    h.live.write hB ha v, h.paged, h.perm⟩
  have hplaced := h.live.placed B hB
  have hreg : ({addr} : Set Word) ⊆ B.region :=
    Set.singleton_subset_iff.mpr (hplaced.area_subset (hplaced.userArea_subset ha))
  exact (h.disjoint_links hnd hp hB (by decide)).mono_right hreg

/-- Freeing a live block returns, stores into its region only and puts exactly the
recorded pages back. -/
theorem Accounted.free (h : w.Accounted L₀ L lost) (hnd : L₀.Nodup) (hB : B ∈ w.live) :
    ∃ s, (∀ fuel, w.heap.free fuel B.ptr =
        if B.granted.toNat / 4096 ≤ fuel then some { w.heap with page := s } else none) ∧
      WritesIn B.region w.heap.mem s.mem ∧
      Accounted L₀ ⟨{ w.heap with page := s }, w.live.erase B⟩ (B.pages ++ L) lost := by
  have hpaged := h.paged B hB
  have hsize : B.granted.toNat = 4096 * (B.granted.toNat / 4096) :=
    (Nat.mul_div_cancel' hpaged.dvd).symm
  have hpos := hpaged.pos
  have hfresh : ∀ x ∈ B.pages, x ∉ L := fun x hx hL => h.free_not_live hnd hL hB hx
  obtain ⟨s, hs, hlist, hwrites⟩ := h.freeList.freePages (by omega) hsize
    (fun x hx => hpaged.isPage hx) hfresh
  have hperm := List.perm_cons_erase hB
  have hregion := hwrites.mono hpaged.linkWords_subset
  refine ⟨s, fun fuel => ?_, hregion, h.ops_eq, hlist, ?_, ?_, ?_⟩
  · have hhead := h.live.headed B hB
    rw [Heap.free, h.ops_eq]
    simp only [hhead.start_eq, hhead.granted_eq, PageState.pageFree, hs fuel, h.ops_eq]
    split_ifs <;> rfl
  · exact h.live.remove hperm hregion
  · exact fun C hC => h.paged C (List.mem_of_mem_erase hC)
  · refine List.Perm.trans ?_ h.perm
    have hpages := (hperm.flatMap_right Block.pages).count_eq
    rw [List.perm_iff_count]
    intro x
    simp only [List.count_append, hpages, List.flatMap_cons]
    omega

/-- Over the page back end the size of a block is a whole number of pages. -/
theorem toNat_blkSize_page {h : Heap} (hops : h.ops = .page) {alignment size : Word}
    (hbytes : Heap.blockBytes alignment size pageSize < 2 ^ 32) :
    (h.blkSize alignment size).toNat = Heap.blockBytes alignment size pageSize ∧
      4096 ∣ (h.blkSize alignment size).toNat ∧ 0 < (h.blkSize alignment size).toNat := by
  have hmin : h.alignMin = pageSize := by rw [Heap.alignMin, hops]
  have hpow : IsPow2 pageSize := ⟨12, rfl⟩
  have hsize : (h.blkSize alignment size).toNat = Heap.blockBytes alignment size pageSize := by
    rw [Heap.toNat_blkSize (hmin ▸ hpow) (hmin ▸ hbytes), hmin]
  have hle := Heap.le_blockBytes alignment size hpow
  refine ⟨hsize, ?_, by omega⟩
  rw [hsize]
  exact dvd_alignUp _ _

/-- In a region of whole pages the user pointer does not wrap: it leaves at least four bytes
of the region behind it. -/
theorem userPtr_lt_of_pages {alignment size q : Word} {n : Nat} (hpow : IsPow2 alignment)
    (hq : q.toNat % 4096 = 0) (hdvd : 4096 ∣ n)
    (hle : Heap.paddedBytes alignment size + 8 ≤ n) (hend : q.toNat + n ≤ 2 ^ 32) :
    alignUp (q.toNat + 8) (Heap.userAlign alignment).toNat < 2 ^ 32 := by
  have hua := Heap.isPow2_userAlign hpow
  have h4 : IsPow2 4 := ⟨2, rfl⟩
  have hup := alignUp_add_le (d := 4) hua.pos (show 4 ∣ q.toNat + 8 by omega)
    (h4.dvd_of_le hua (Heap.four_le_userAlign alignment))
  rw [Heap.paddedBytes] at hle
  rw [Heap.userAlign] at hup ⊢
  split_ifs at hle hup ⊢
  · change alignUp (q.toNat + 8) 4 + 4 ≤ q.toNat + 8 + 4 at hup
    change alignUp (q.toNat + 8) 4 < 2 ^ 32
    omega
  · omega

/-- What the back end served: the recorded pages and the rest behind them. -/
theorem Accounted.served (h : w.Accounted L₀ L lost) {alignment size q : Word} {h₁ : Heap}
    {fuel : Nat} (ha : w.Allowed (.memalign alignment size))
    (hback : w.heap.backEnd fuel alignment size = some (q, h₁)) (hq : q ≠ 0) :
    ∃ A C rest, L = A ++ ((w.heap.block alignment size q).pages ++ rest) ++ C ∧
      h₁ = { w.heap with page := w.heap.page.unlink A C } ∧
      (w.heap.page.unlink A C).FreeList (A ++ C) ∧
      (w.heap.block alignment size q).Paged ∧ (w.heap.block alignment size q).Placed ∧
      (rest = [] ↔ Exact (.memalign alignment size)) := by
  obtain ⟨hpow, hbytes⟩ := ha
  have hmin : w.heap.alignMin = pageSize := by rw [Heap.alignMin, h.ops_eq]
  have hpowMin : IsPow2 pageSize := ⟨12, rfl⟩
  obtain ⟨hsize, hdvd, hpos⟩ := toNat_blkSize_page h.ops_eq hbytes
  have hne : w.heap.blkSize alignment size ≠ 0 := by bv_omega
  -- the answer comes from `page_memalign`
  obtain ⟨s, hs, rfl⟩ := Heap.backEnd_page h.ops_eq hback
  obtain ⟨A, C, rest, hL, rfl, hlist, hpage, hrest⟩ := h.freeList.pageMemalign hne hdvd hs hq
  have husable : ∀ x ∈ pageRun q ((w.heap.blkSize alignment size).toNat / 4096), IsPage x := by
    intro x hx
    exact h.freeList.pages x (by rw [hL]; simp [hx])
  have hfit := pageRun_no_wrap husable
  have hend : q.toNat + (w.heap.blkSize alignment size).toNat ≤ 2 ^ 32 := by omega
  refine ⟨A, C, rest, hL, rfl, hlist, ⟨hpage, hdvd, hpos, hend⟩, ?_, ?_⟩
  · have hq4 : 4 ∣ q.toNat := by
      have := hpage.2
      omega
    have hle := Heap.le_blockBytes alignment size hpowMin
    refine Heap.block_placed hpow (hmin ▸ hpowMin) (hmin ▸ hbytes) hq4 (hmin ▸ hsize ▸ hend) ?_
    exact userPtr_lt_of_pages hpow hpage.2 hdvd (hsize ▸ hle) hend
  · rw [hrest, Exact, pageCount, Heap.blkSize, hmin]

/-- A served request keeps the account; it loses the rest. -/
theorem Accounted.memalign (h : w.Accounted L₀ L lost) (hnd : L₀.Nodup)
    {alignment size p q : Word} {h₁ h₂ : Heap} {fuel : Nat}
    (ha : w.Allowed (.memalign alignment size))
    (hback : w.heap.backEnd fuel alignment size = some (q, h₁)) (hq : q ≠ 0)
    (hcall : w.heap.memalign fuel alignment size = some (p, h₂)) :
    ∃ L' rest, Accounted L₀
        ⟨h₂, ⟨alignment, size, p, q, w.heap.blkSize alignment size⟩ :: w.live⟩ L' (rest ++ lost) ∧
      (rest = [] ↔ Exact (.memalign alignment size)) := by
  obtain ⟨A, C, rest, hL, rfl, hlist, hpaged, hplaced, hexact⟩ := h.served ha hback hq
  obtain ⟨rfl, m, rfl, hwrites, hheaded⟩ := Heap.memalign_served hback hplaced hcall
  change ∃ L' rest, Accounted L₀ ⟨_, w.heap.block alignment size q :: w.live⟩ L' _ ∧ _
  have hLnd := h.freeList.nodup
  have hsub : ∀ x ∈ (w.heap.block alignment size q).pages, x ∈ L := fun x hx => by
    rw [hL]
    simp [hx]
  have hsubA : ∀ x ∈ A, x ∈ L := fun x hx => by
    rw [hL]
    simp [hx]
  refine ⟨A ++ C, rest, ⟨h.ops_eq, ?_, ?_, ?_, ?_⟩, hexact⟩
  · -- the header lies in the pages that left the list
    refine hpaged.freeList_frame hlist (fun x hx hxp => ?_) (hwrites.mono hplaced.area_subset)
    rw [hL] at hLnd
    grind
  · have hlive : LiveBlocks (w.heap.page.unlink A C).mem w.live := by
      refine h.live.frame (PageState.unlink_writesIn _ A C) fun D hD => ?_
      rw [Set.disjoint_right]
      rintro x ⟨y, hy, hx⟩
      exact Set.disjoint_left.mp (h.disjoint_links hnd (hsubA y hy) hD (by decide)) hx
    refine hlive.cons hplaced (fun D hD => ?_) hwrites hheaded
    exact hpaged.disjoint_region (h.paged D hD) fun x hx => h.free_not_live hnd (hsub x hx) hD
  · exact List.forall_mem_cons.mpr ⟨hpaged, h.paged⟩
  · refine List.Perm.trans ?_ h.perm
    rw [List.perm_iff_count]
    intro x
    simp only [hL, List.count_append, List.flatMap_cons]
    omega

/-! ## Stores outside the account -/

theorem Accounted.mem_free (h : w.Accounted L₀ L lost) {p : Word} (hp : p ∈ L) : p ∈ L₀ :=
  h.perm.mem_iff.mp (List.mem_append_left _ hp)

/-- Live blocks lie on the pages of the account. -/
theorem Accounted.region_subset (h : w.Accounted L₀ L lost) (hB : B ∈ w.live) :
    B.region ⊆ pageBytes L₀ := by
  intro x hx
  rw [(h.paged B hB).mem_region] at hx
  refine h.perm.mem_iff.mp (List.mem_append_right _ (List.mem_append_left _ ?_))
  exact List.mem_flatMap.mpr ⟨B, hB, hx⟩

/-- A served request stores on the pages of the account only. -/
theorem Accounted.memalign_writesIn (h : w.Accounted L₀ L lost) {alignment size p q : Word}
    {h₁ h₂ : Heap} {fuel : Nat} (ha : w.Allowed (.memalign alignment size))
    (hback : w.heap.backEnd fuel alignment size = some (q, h₁)) (hq : q ≠ 0)
    (hcall : w.heap.memalign fuel alignment size = some (p, h₂)) :
    ∃ s, h₂ = { w.heap with page := s } ∧ WritesIn (pageBytes L₀) w.heap.mem s.mem := by
  obtain ⟨A, C, rest, hL, rfl, -, hpaged, hplaced, -⟩ := h.served ha hback hq
  obtain ⟨-, m, rfl, hwrites, -⟩ := Heap.memalign_served hback hplaced hcall
  have hfree {x : Word} (hx : x ∈ A ++ ((w.heap.block alignment size q).pages ++ rest) ++ C) :
      x ∈ L₀ := h.mem_free (hL ▸ hx)
  refine ⟨_, rfl, ((PageState.unlink_writesIn _ A C).mono ?_).trans
    ((hwrites.mono hplaced.area_subset).mono ?_)⟩
  · rintro x ⟨y, hy, hx⟩
    have hyL : y ∈ L := by
      rw [hL]
      simp [hy]
    exact span_subset_pageBytes (h.freeList.pages y hyL).2 (h.mem_free hyL) (by decide) hx
  · intro x hx
    rw [hpaged.mem_region] at hx
    exact hfree (by simp [hx])

/-- Stores elsewhere keep the account. -/
theorem Accounted.frame (h : w.Accounted L₀ L lost) {h' : Heap} (hops : h'.ops = .page)
    (hlist : h'.page.freelist = w.heap.page.freelist) {S : Set Word}
    (hw : WritesIn S w.heap.mem h'.mem) (hd : Disjoint S (pageBytes L₀)) :
    Accounted L₀ ⟨h', w.live⟩ L lost := by
  refine ⟨hops, ⟨?_, h.freeList.pages⟩, h.live.frame hw fun B hB => ?_, h.paged, h.perm⟩
  · rw [hlist]
    refine h.freeList.linked.congr fun p hp => hw.load32_eq (hd.symm.mono_left ?_)
    exact span_subset_pageBytes (h.freeList.pages p hp).2 (h.mem_free hp) (by decide)
  · exact hd.symm.mono_left (h.region_subset hB)

/-- A block of whole pages that are not in the account joins it. -/
theorem Accounted.adopt (h : w.Accounted L₀ L lost) (hpaged : B.Paged) (hplaced : B.Placed)
    (hhead : B.Headed w.heap.mem) (hd : Disjoint B.region (pageBytes L₀)) :
    Accounted (B.pages ++ L₀) ⟨w.heap, B :: w.live⟩ L lost := by
  refine ⟨h.ops_eq, h.freeList, ⟨?_, ?_, ?_⟩, ?_, ?_⟩
  · exact List.forall_mem_cons.mpr ⟨hplaced, h.live.placed⟩
  · exact List.pairwise_cons.mpr ⟨fun C hC => hd.mono_right (h.region_subset hC), h.live.apart⟩
  · exact List.forall_mem_cons.mpr ⟨hhead, h.live.headed⟩
  · exact List.forall_mem_cons.mpr ⟨hpaged, h.paged⟩
  · rw [List.flatMap_cons, List.append_assoc]
    exact List.Perm.trans (List.perm_append_comm_assoc ..) (h.perm.append_left _)

/-- The pages of the account stay different ones when a block joins it. -/
theorem nodup_adopt (hnd : L₀.Nodup) (hpaged : B.Paged) (hd : Disjoint B.region (pageBytes L₀)) :
    (B.pages ++ L₀).Nodup := by
  rw [List.nodup_append]
  refine ⟨hpaged.nodup, hnd, ?_⟩
  rintro p hp _ hp' rfl
  have hbase := pageBase_of_aligned (hpaged.isPage hp).2
  refine Set.disjoint_left.mp hd (hpaged.mem_region.mpr ?_) (show pageBase p ∈ L₀ from ?_)
  · rwa [hbase]
  · rwa [hbase]

/-- Along a run the pages stay accounted for, and none is lost while all requests
have a page count that is a power of two. -/
theorem reach_accounted {h : Heap} (hops : h.ops = .page) (hlist : h.page.FreeList L₀)
    {ops : List PageHeapOp} (hr : Reach LegalStep ⟨h, []⟩ ops w) :
    ∃ L lost, w.Accounted L₀ L lost ∧ (lost = [] ↔ ∀ op ∈ ops, Exact op) := by
  have hnd := hlist.nodup
  induction hr with
  | nil =>
    exact ⟨L₀, [], ⟨hops, hlist, .nil _, by simp, by simp⟩, by simp⟩
  | @snoc ops t u op _ hs ih =>
    obtain ⟨L, lost, hacc, hlost⟩ := ih
    obtain ⟨ha, hs⟩ := hs
    have hsplit : (∀ x ∈ ops ++ [op], Exact x) ↔ lost = [] ∧ Exact op := by
      rw [hlost]
      simp [or_imp, forall_and]
    cases hs with
    | @memalign alignment size p q h₁ h₂ fuel hback hq hcall =>
      obtain ⟨L', rest, hacc', hrest⟩ := hacc.memalign hnd ha hback hq hcall
      refine ⟨L', rest ++ lost, hacc', ?_⟩
      rw [hsplit, List.append_eq_nil_iff, hrest, and_comm]
    | @free B ptr h₁ fuel hB hptr hcall =>
      subst hptr
      obtain ⟨s, hfree, -, hacc'⟩ := hacc.free hnd hB
      rw [hfree fuel] at hcall
      split_ifs at hcall
      obtain rfl := Option.some.inj hcall
      exact ⟨B.pages ++ L, lost, hacc', by rw [hsplit, Exact, and_true]⟩
    | @write addr v =>
      obtain ⟨B, hB, haddr⟩ := ha
      exact ⟨L, lost, hacc.write hnd hB haddr v, by rw [hsplit, Exact, and_true]⟩

/-- In every run over the page back end `free` returns for every live block, and
once all blocks are freed the free pages are the initial ones if and only if
the page count of every request was a power of two. -/
theorem reach_conserves_iff {h : Heap} (hops : h.ops = .page) (hlist : h.page.FreeList L₀)
    {ops : List PageHeapOp} (hr : Reach LegalStep ⟨h, []⟩ ops w) :
    (∀ B ∈ w.live, ∃ w', w.Step (.free B.ptr) w') ∧
      (w.live = [] → ∃ L, w.heap.page.FreeList L ∧
        ((∀ p, p ∈ L ↔ p ∈ L₀) ↔ ∀ op ∈ ops, Exact op)) := by
  have hnd := hlist.nodup
  obtain ⟨L, lost, hacc, hlost⟩ := reach_accounted hops hlist hr
  constructor
  · intro B hB
    obtain ⟨s, hfree, _⟩ := hacc.free hnd hB
    exact ⟨_, .free _ hB rfl ((hfree _).trans (if_pos le_rfl))⟩
  · intro hlive
    refine ⟨L, hacc.freeList, ?_⟩
    have hperm : (L ++ lost).Perm L₀ := by
      have := hacc.perm
      simpa [hlive] using this
    rw [← hlost]
    constructor
    · -- a lost page was free initially and is not free any more
      intro hsame
      cases lost with
      | nil => rfl
      | cons x lost =>
        have hx : x ∈ L := (hsame x).mpr (hperm.mem_iff.mp (by simp))
        have hLnd := hperm.nodup_iff.mpr hnd
        exact absurd rfl ((List.nodup_append.mp hLnd).2.2 x hx x (by simp))
    · rintro rfl p
      rw [List.append_nil] at hperm
      exact hperm.mem_iff

/-- Four free pages in a row. -/
def fourPages : Heap :=
  ⟨⟨((((⟨fun _ => 0, []⟩ : Memory).store32 0x400000 0x401000).store32 0x401000 0x402000).store32
    0x402000 0x403000), 0x400000⟩, .initial, .page⟩

theorem fourPages_freeList :
    fourPages.page.FreeList [0x400000, 0x401000, 0x402000, 0x403000] :=
  ⟨by decide, by simp [IsPage]⟩

/-- A block of one page is conserved. -/
theorem reach_conserves_iff_one_page : ∃ w, Reach LegalStep ⟨fourPages, []⟩
    [.memalign 4 56, .free 0x400008] w ∧ ∃ L, w.heap.page.FreeList L ∧
      ((∀ p, p ∈ L ↔ p ∈ [0x400000, 0x401000, 0x402000, 0x403000]) ↔
        ∀ op ∈ [.memalign 4 56, .free 0x400008], Exact op) := by
  have htake : LegalStep ⟨fourPages, []⟩ (.memalign 4 56) _ :=
    ⟨⟨⟨2, rfl⟩, by decide⟩, .memalign 5 rfl (by decide) rfl⟩
  have hrun := Reach.snoc (i := PageHeapOp.free 0x400008) (Reach.nil.snoc htake)
    ⟨⟨_, List.mem_cons_self .., rfl⟩, .free 1 (List.mem_cons_self ..) rfl rfl⟩
  refine ⟨_, hrun, (reach_conserves_iff rfl fourPages_freeList hrun).2 ?_⟩
  simp

/-- A block of three pages takes four, and freeing it gives back three. -/
theorem three_pages_lose_one : ∃ h₁ h₂, fourPages.malloc 5 12280 = some (0x400008, h₁) ∧
    h₁.free 3 0x400008 = some h₂ ∧
      fourPages.page.FreeList [0x400000, 0x401000, 0x402000, 0x403000] ∧
      h₂.page.FreeList [0x400000, 0x401000, 0x402000] := by
  refine ⟨_, _, rfl, rfl, fourPages_freeList, ?_, by simp [IsPage]⟩
  decide +kernel

end PageHeapWorld

end DmfOs
