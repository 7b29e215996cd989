import DmfOs.Mem.Heap.Early
import DmfOs.Mem.Heap.Conserve

/-!
# Switching the back end

`free` hands a block to the back end that is installed, not to the one that
granted it. Each back end has memory of its own: the early one the rest of its
pool and the blocks it granted, the page one the pages of its account. Before
the switch `free` does nothing; after it a block of the early back end is given
to the page allocator as it is, which goes well exactly for whole pages.
-/

namespace DmfOs

open Memory

/-- The bytes of the pool that are not granted yet. -/
def PhysState.pool (s : PhysState) : Set Word :=
  {x | s.base.toNat ≤ x.toNat ∧ x.toNat < s.top.toNat}

/-- What a client or the kernel does next. -/
inductive SwitchOp where
  | memalign (alignment size : Word)
  | setMinimumAlignment (align : Word)
  | pageAllocOpsEnable
  | free (B : Block)
  /-- Store a byte into a block. -/
  | write (addr : Word) (v : Byte)

/-- The heap and its live blocks, by the back end that granted them. -/
structure SwitchWorld where
  heap : Heap
  early : List Block
  paged : List Block

namespace SwitchWorld

/-- The live blocks of either back end. -/
def live (w : SwitchWorld) : List Block := w.early ++ w.paged

/-- What the clients are allowed to do: alignments are powers of two, a block is
freed while it is live, and a store hits the user bytes of a live block. -/
def Allowed (w : SwitchWorld) : SwitchOp → Prop
  | .memalign alignment _ => IsPow2 alignment
  | .setMinimumAlignment align => IsPow2 align ∧ 4 ≤ align.toNat
  | .pageAllocOpsEnable => True
  | .free B => B ∈ w.live
  | .write addr _ => ∃ B ∈ w.live, addr ∈ B.userArea

/-- The world after the installed back end granted a block. -/
def grant (w : SwitchWorld) (h : Heap) (B : Block) : SwitchWorld :=
  match w.heap.ops with
  | .early => ⟨h, B :: w.early, w.paged⟩
  | .page => ⟨h, w.early, B :: w.paged⟩

/-- One operation, with any fuel that lets it return; requests are served. -/
inductive Step (w : SwitchWorld) : SwitchOp → SwitchWorld → Prop
  | memalign {alignment size p q : Word} {h h' : Heap} (fuel : Nat) :
      w.heap.backEnd fuel alignment size = some (q, h) → q ≠ 0 →
      w.heap.memalign fuel alignment size = some (p, h') →
      Step w (.memalign alignment size)
        (w.grant h' ⟨alignment, size, p, q, w.heap.blkSize alignment size⟩)
  | setMinimumAlignment {align : Word} :
      Step w (.setMinimumAlignment align)
        { w with heap.phys := w.heap.phys.physAllocSetMinimumAlignment align }
  | pageAllocOpsEnable :
      Step w .pageAllocOpsEnable { w with heap := w.heap.pageAllocOpsEnable }
  | free {B : Block} {h : Heap} (fuel : Nat) : w.heap.free fuel B.ptr = some h →
      Step w (.free B) ⟨h, w.early.erase B, w.paged.erase B⟩
  | write {addr : Word} {v : Byte} :
      Step w (.write addr v) { w with heap := w.heap.withMem (w.heap.mem.storeByte addr v) }

/-- An operation that the clients are allowed. -/
def LegalStep (w : SwitchWorld) (op : SwitchOp) (w' : SwitchWorld) : Prop :=
  w.Allowed op ∧ w.Step op w'

/-! ## The property and its condition -/

/-- The free list is the well-formed list `L` of pages, and no memory of a live block or
of the pool is on it. -/
structure CleanList (w : SwitchWorld) (L : List Word) : Prop where
  freeList : w.heap.page.FreeList L
  apart : L.Pairwise fun p q => Disjoint (span p 4096) (span q 4096)
  live : ∀ p ∈ L, ∀ B ∈ w.live, Disjoint (span p 4096) B.region
  pool : ∀ p ∈ L, Disjoint (span p 4096) w.heap.phys.pool

/-- The operation returns if it frees a live block, and leaves a clean free list. -/
structure Keeps (w : SwitchWorld) (op : SwitchOp) : Prop where
  returns : ∀ B, op = .free B → w.Allowed op → ∃ w', w.Step op w'
  clean : ∀ w', w.LegalStep op w' → ∃ L, w'.CleanList L

/-- The request wraps neither its padded size nor, in the early back end, the padding of
the bump pointer. -/
def NoWrap (w : SwitchWorld) : SwitchOp → Prop
  | .memalign alignment size =>
    Heap.blockBytes alignment size w.heap.alignMin < 2 ^ 32 ∧
      (w.heap.ops = .early →
        w.heap.phys.need (w.heap.blkSize alignment size) (w.heap.blkAlign alignment) < 2 ^ 32)
  | _ => True

/-- A block of the early back end that is freed after the switch is made of whole pages. -/
def WholePages (w : SwitchWorld) : SwitchOp → Prop
  | .free B =>
    w.heap.ops = .page → B ∈ w.early → 4096 ∣ B.start.toNat ∧ 4096 ∣ B.granted.toNat
  | _ => True

/-! ## The memory of each back end -/

/-- The memory of the early back end: the rest of the pool and its live blocks. -/
def earlyArea (w : SwitchWorld) : Set Word :=
  {x | x ∈ w.heap.phys.pool ∨ ∃ B ∈ w.early, x ∈ B.region}

/-- The early blocks are stacked, the pages are accounted for, and the memory of the two
back ends is apart. -/
structure Coherent (b e : Nat) (L₀ L lost : List Word) (w : SwitchWorld) : Prop where
  stacked : EarlyWorld.Stacked b e ⟨{ w.heap with ops := .early }, w.early⟩
  account : PageHeapWorld.Accounted L₀ ⟨{ w.heap with ops := .page }, w.paged⟩ L lost
  nodup : L₀.Nodup
  unused : w.heap.ops = .early → w.paged = []
  start_ne : ∀ B ∈ w.early, B.start ≠ 0
  apart : Disjoint w.earlyArea (pageBytes L₀)

variable {b e : Nat} {L₀ L lost : List Word} {w w' : SwitchWorld} {B : Block} {h₁ h₂ : Heap}
  {alignment size p q : Word} {fuel : Nat}

theorem region_subset_earlyArea (hB : B ∈ w.early) : B.region ⊆ w.earlyArea :=
  fun _ hx => Or.inr ⟨B, hB, hx⟩

/-- The early blocks are apart from the pages of the account. -/
theorem Coherent.disjoint_region (h : w.Coherent b e L₀ L lost) (hB : B ∈ w.early) :
    Disjoint B.region (pageBytes L₀) := h.apart.mono_left (region_subset_earlyArea hB)

/-- No block is from both back ends. -/
theorem Coherent.not_paged (h : w.Coherent b e L₀ L lost) (hB : B ∈ w.early) : B ∉ w.paged := by
  intro hP
  have hpaged := h.account.paged B hP
  have hstart : B.start ∈ B.region := by
    have := hpaged.pos
    simpa [Block.region, mem_span] using this
  exact Set.disjoint_left.mp (h.disjoint_region hB) hstart (h.account.region_subset hP hstart)

/-- Before the switch the early blocks are those of a world of the early back end. -/
theorem Coherent.stackedHeap (h : w.Coherent b e L₀ L lost) (hops : w.heap.ops = .early) :
    EarlyWorld.Stacked b e ⟨w.heap, w.early⟩ := by
  have hheap : ({ w.heap with ops := .early } : Heap) = w.heap := by rw [← hops]
  exact hheap ▸ h.stacked

/-- After the switch the other blocks are those of a world of the page back end. -/
theorem Coherent.accountedHeap (h : w.Coherent b e L₀ L lost) (hops : w.heap.ops = .page) :
    PageHeapWorld.Accounted L₀ ⟨w.heap, w.paged⟩ L lost := by
  have hheap : ({ w.heap with ops := .page } : Heap) = w.heap := by rw [← hops]
  exact hheap ▸ h.account

theorem unused_of_page {h : Heap} {P : List Block} (hops : h.ops = .page) :
    h.ops = .early → P = [] := fun hearly => absurd (hops.symm.trans hearly) (by decide)

/-- While the two back ends keep apart the free list is clean. -/
theorem Coherent.clean (h : w.Coherent b e L₀ L lost) : w.CleanList L := by
  have hlist := h.account.freeList
  have hbytes (p : Word) (hp : p ∈ L) : span p 4096 ⊆ pageBytes L₀ :=
    span_subset_pageBytes (hlist.pages p hp).2 (h.account.mem_free hp) le_rfl
  refine ⟨hlist, ?_, fun p hp B hB => ?_, fun p hp => ?_⟩
  · refine hlist.nodup.imp_of_mem fun {p q} hp hq hne => ?_
    rw [Set.disjoint_left]
    intro x hx hy
    have hxp := pageBase_of_mem_span (hlist.pages p hp).2 le_rfl hx
    have hxq := pageBase_of_mem_span (hlist.pages q hq).2 le_rfl hy
    exact hne (hxp.symm.trans hxq)
  · rcases List.mem_append.mp hB with hB | hB
    · exact ((h.disjoint_region hB).mono_right (hbytes p hp)).symm
    · exact h.account.disjoint_links h.nodup hp hB le_rfl
  · exact (h.apart.mono (fun _ hx => Or.inl hx) (hbytes p hp)).symm

/-! ## What one operation keeps -/

/-- Early operations leave less to the early back end, as long as its blocks come from the
old pool or were there. -/
theorem earlyArea_mono {h : Heap} {E P : List Block} (hpool : h.phys.pool ⊆ w.heap.phys.pool)
    (hE : ∀ B ∈ E, B ∈ w.early ∨ B.region ⊆ w.heap.phys.pool) :
    (⟨h, E, P⟩ : SwitchWorld).earlyArea ⊆ w.earlyArea := by
  rintro x (hx | ⟨B, hB, hx⟩)
  · exact Or.inl (hpool hx)
  · rcases hE B hB with hB | hB
    · exact Or.inr ⟨B, hB, hx⟩
    · exact Or.inl (hB hx)

/-- A request that the early back end does not answer with NULL is granted. -/
theorem granted_of_ne {h : Heap} (hops : h.ops = .early)
    (hback : h.backEnd fuel alignment size = some (q, h₁)) (hq : q ≠ 0) :
    (h.phys.physAllocAlignedSafe (h.blkSize alignment size) (h.blkAlign alignment) true).1 ≠
      invalidPhysAddr := by
  intro hrefused
  rw [Heap.backEnd_early hops, Option.some.injEq, Prod.mk.injEq] at hback
  refine hq (hback.1.symm.trans ?_)
  simp only [PhysState.earlyMemalign, if_pos hrefused]

/-- A request served by the early back end takes memory from the pool. -/
theorem Coherent.memalign_early (h : w.Coherent b e L₀ L lost) (he : e < 2 ^ 32)
    (hops : w.heap.ops = .early) (hpow : IsPow2 alignment)
    (hn : w.NoWrap (.memalign alignment size))
    (hback : w.heap.backEnd fuel alignment size = some (q, h₁)) (hq : q ≠ 0)
    (hcall : w.heap.memalign fuel alignment size = some (p, h₂)) :
    Coherent b e L₀ L lost
      (w.grant h₂ ⟨alignment, size, p, q, w.heap.blkSize alignment size⟩) := by
  have hst := h.stackedHeap hops
  have ha : EarlyWorld.Allowed ⟨w.heap, w.early⟩ (.memalign alignment size) :=
    ⟨hpow, hn.1, hn.2 hops, granted_of_ne hops hback hq⟩
  obtain ⟨hplaced, hbase, s, rfl, hs, hse, htop, -⟩ := hst.granted he ha hback
  have hnew := hst.memalign he ha hback hcall
  obtain ⟨m, rfl, hw⟩ := hst.memalign_writesIn he ha hback hcall
  have hte := hst.top_eq
  change w.heap.phys.top.toNat = e at hte
  change w.heap.phys.base.toNat ≤ q.toNat at hbase
  change s.base.toNat = q.toNat + (w.heap.blkSize alignment size).toNat at hs
  -- the region comes from the pool, and the pool shrinks
  have hregion : (w.heap.block alignment size q).region ⊆ w.heap.phys.pool := by
    intro x hx
    rw [hplaced.mem_region] at hx
    change q.toNat ≤ x.toNat ∧ x.toNat < q.toNat + (w.heap.blkSize alignment size).toNat at hx
    constructor <;> omega
  have hpool : s.pool ⊆ w.heap.phys.pool := by
    rintro x ⟨hx, hx'⟩
    rw [htop] at hx'
    exact ⟨by omega, hx'⟩
  have hgrant (B : Block) : w.grant ({ w.heap with phys := s }.withMem m) B =
      ⟨{ w.heap with phys := s }.withMem m, B :: w.early, w.paged⟩ := by
    simp only [grant, hops]
  rw [hgrant]
  constructor
  · exact hnew.frame rfl rfl (.refl ∅ _) fun _ _ => Set.disjoint_empty _
  · refine h.account.frame rfl rfl hw ?_
    exact h.apart.mono_left fun x hx => Or.inl (hregion hx)
  · exact h.nodup
  · exact h.unused
  · exact List.forall_mem_cons.mpr ⟨hq, h.start_ne⟩
  · refine h.apart.mono_left (earlyArea_mono hpool ?_)
    exact List.forall_mem_cons.mpr ⟨Or.inr hregion, fun B hB => Or.inl hB⟩

/-- A request served by the page back end takes pages from the account. -/
theorem Coherent.memalign_page (h : w.Coherent b e L₀ L lost) (hops : w.heap.ops = .page)
    (hpow : IsPow2 alignment) (hn : w.NoWrap (.memalign alignment size))
    (hback : w.heap.backEnd fuel alignment size = some (q, h₁)) (hq : q ≠ 0)
    (hcall : w.heap.memalign fuel alignment size = some (p, h₂)) :
    ∃ L' lost', Coherent b e L₀ L' lost'
      (w.grant h₂ ⟨alignment, size, p, q, w.heap.blkSize alignment size⟩) := by
  have hacc := h.accountedHeap hops
  have ha : PageHeapWorld.Allowed ⟨w.heap, w.paged⟩ (.memalign alignment size) := by
    refine ⟨hpow, ?_⟩
    have hbytes := hn.1
    rwa [Heap.alignMin, hops] at hbytes
  obtain ⟨L', rest, hnew, -⟩ := hacc.memalign h.nodup ha hback hq hcall
  obtain ⟨s, rfl, hw⟩ := hacc.memalign_writesIn ha hback hq hcall
  have hgrant (B : Block) : w.grant { w.heap with page := s } B =
      ⟨{ w.heap with page := s }, w.early, B :: w.paged⟩ := by
    simp only [grant, hops]
  rw [hgrant]
  refine ⟨L', rest ++ lost, ?_⟩
  constructor
  · exact h.stacked.frame rfl rfl hw fun B hB => h.disjoint_region hB
  · exact hnew.frame rfl rfl (.refl ∅ _) (Set.empty_disjoint _)
  · exact h.nodup
  · exact unused_of_page hops
  · exact h.start_ne
  · exact h.apart

/-- Before the switch `free` returns and does nothing. -/
theorem Coherent.free_unused (h : w.Coherent b e L₀ L lost) (hops : w.heap.ops = .early)
    (hB : B ∈ w.live) :
    Coherent b e L₀ L lost ⟨w.heap, w.early.erase B, w.paged.erase B⟩ := by
  have hpaged := h.unused hops
  have hE : B ∈ w.early := by simpa [live, hpaged] using hB
  rw [hpaged, List.erase_nil, ← hpaged]
  constructor
  · exact h.stacked.remove (List.perm_cons_erase hE) rfl rfl (.refl _ _)
  · exact h.account
  · exact h.nodup
  · exact h.unused
  · exact fun C hC => h.start_ne C (List.mem_of_mem_erase hC)
  · exact h.apart.mono_left
      (earlyArea_mono subset_rfl fun C hC => Or.inl (List.mem_of_mem_erase hC))

/-- After the switch a block of the page back end goes back to it. -/
theorem Coherent.free_paged (h : w.Coherent b e L₀ L lost) (hops : w.heap.ops = .page)
    (hB : B ∈ w.paged) :
    ∃ h', (∃ n, ∀ fuel, w.heap.free fuel B.ptr = if n ≤ fuel then some h' else none) ∧
      Coherent b e L₀ (B.pages ++ L) lost ⟨h', w.early.erase B, w.paged.erase B⟩ := by
  have hacc := h.accountedHeap hops
  obtain ⟨s, hs, hw, hnew⟩ := hacc.free h.nodup hB
  refine ⟨_, ⟨_, hs⟩, ?_⟩
  rw [List.erase_of_not_mem fun hE => h.not_paged hE hB]
  have hregion : B.region ⊆ pageBytes L₀ := hacc.region_subset hB
  constructor
  · exact h.stacked.frame rfl rfl hw fun C hC => (h.disjoint_region hC).mono_right hregion
  · exact hnew.frame rfl rfl (.refl ∅ _) (Set.empty_disjoint _)
  · exact h.nodup
  · exact unused_of_page hops
  · exact h.start_ne
  · exact h.apart

/-- A live early block of whole pages. -/
theorem Coherent.wholePages (h : w.Coherent b e L₀ L lost) (hB : B ∈ w.early)
    (hwhole : 4096 ∣ B.start.toNat ∧ 4096 ∣ B.granted.toNat) : B.Paged := by
  have hplaced := h.stacked.live.placed B hB
  have := hplaced.header
  have := hplaced.fits
  refine ⟨⟨h.start_ne B hB, Nat.mod_eq_zero_of_dvd hwhole.1⟩, hwhole.2, by omega,
    hplaced.no_wrap⟩

/-- The region of a live early block is apart from what else the early back end has. -/
theorem Coherent.disjoint_rest (h : w.Coherent b e L₀ L lost) (hB : B ∈ w.early)
    (page : PageState) (P : List Block) :
    Disjoint (⟨{ w.heap with page := page }, w.early.erase B, P⟩ : SwitchWorld).earlyArea
      B.region := by
  have hapart := (List.perm_cons_erase hB).pairwise h.stacked.live.apart fun hd => hd.symm
  have hplaced := h.stacked.live.placed B hB
  rw [Set.disjoint_left]
  rintro x (hx | ⟨C, hC, hx⟩) hxB
  · -- granted regions end at the base of the pool
    rw [hplaced.mem_region] at hxB
    have hbelow : B.start.toNat + B.granted.toNat ≤ w.heap.phys.base.toNat :=
      (h.stacked.below B hB).2
    exact absurd hx.1 (by change ¬ w.heap.phys.base.toNat ≤ x.toNat; omega)
  · exact Set.disjoint_left.mp ((List.pairwise_cons.mp hapart).1 C hC) hxB hx

/-- After the switch an early block of whole pages joins the account and goes to the page
back end. -/
theorem Coherent.free_whole (h : w.Coherent b e L₀ L lost) (hops : w.heap.ops = .page)
    (hB : B ∈ w.early) (hwhole : 4096 ∣ B.start.toNat ∧ 4096 ∣ B.granted.toNat) :
    ∃ h', (∃ n, ∀ fuel, w.heap.free fuel B.ptr = if n ≤ fuel then some h' else none) ∧
      Coherent b e (B.pages ++ L₀) (B.pages ++ L) lost
        ⟨h', w.early.erase B, w.paged.erase B⟩ := by
  have hacc := h.accountedHeap hops
  have hpaged := h.wholePages hB hwhole
  have hd := h.disjoint_region hB
  have hnd := PageHeapWorld.nodup_adopt h.nodup hpaged hd
  obtain ⟨s, hs, hw, hnew⟩ := (hacc.adopt hpaged (h.stacked.live.placed B hB)
    (h.stacked.live.headed B hB) hd).free hnd (List.mem_cons_self ..)
  rw [List.erase_cons_head] at hnew
  refine ⟨_, ⟨_, hs⟩, ?_⟩
  rw [List.erase_of_not_mem (h.not_paged hB)]
  constructor
  · exact h.stacked.remove (List.perm_cons_erase hB) rfl rfl hw
  · exact hnew.frame rfl rfl (.refl ∅ _) (Set.empty_disjoint _)
  · exact hnd
  · exact unused_of_page hops
  · exact fun C hC => h.start_ne C (List.mem_of_mem_erase hC)
  · have hold := h.apart.mono_left (earlyArea_mono (w := w) (P := w.paged)
      (h := { w.heap with page := s }) subset_rfl
      fun C (hC : C ∈ w.early.erase B) => Or.inl (List.mem_of_mem_erase hC))
    have hrest := h.disjoint_rest hB s w.paged
    rw [hpaged.region_eq] at hrest
    rw [Set.disjoint_left] at hold hrest ⊢
    intro x hx hxp
    rcases List.mem_append.mp (show pageBase x ∈ B.pages ++ L₀ from hxp) with hxp | hxp
    · exact hrest hx hxp
    · exact hold hx hxp

/-- Whenever early blocks of whole pages only are freed after the switch, `free` returns. -/
theorem Coherent.free (h : w.Coherent b e L₀ L lost) (hB : B ∈ w.live)
    (hwhole : w.WholePages (.free B)) :
    ∃ h', (∃ n, ∀ fuel, w.heap.free fuel B.ptr = if n ≤ fuel then some h' else none) ∧
      ∃ L₀ L, Coherent b e L₀ L lost ⟨h', w.early.erase B, w.paged.erase B⟩ := by
  cases hops : w.heap.ops with
  | early =>
    refine ⟨w.heap, ⟨0, fun fuel => ?_⟩, L₀, L, h.free_unused hops hB⟩
    rw [Heap.free, hops, if_pos (Nat.zero_le _)]
  | page =>
    rcases List.mem_append.mp hB with hE | hP
    · obtain ⟨h', hfree, hnew⟩ := h.free_whole hops hE (hwhole hops hE)
      exact ⟨h', hfree, _, _, hnew⟩
    · obtain ⟨h', hfree, hnew⟩ := h.free_paged hops hP
      exact ⟨h', hfree, _, _, hnew⟩

/-- A store into the user bytes of a live block stays in the memory of its back end. -/
theorem Coherent.write (h : w.Coherent b e L₀ L lost) (hB : B ∈ w.live) {addr : Word}
    (ha : addr ∈ B.userArea) (v : Byte) :
    Coherent b e L₀ L lost { w with heap := w.heap.withMem (w.heap.mem.storeByte addr v) } := by
  have hw := writesIn_storeByte w.heap.mem addr v
  have hmem {C : Block} (hC : C.Placed) (hx : addr ∈ C.userArea) : ({addr} : Set Word) ⊆ C.region :=
    Set.singleton_subset_iff.mpr (hC.area_subset (hC.userArea_subset hx))
  rcases List.mem_append.mp hB with hE | hP
  · have hreg := hmem (h.stacked.live.placed B hE) ha
    refine ⟨?_, ?_, h.nodup, h.unused, h.start_ne, h.apart⟩
    · exact ⟨rfl, h.stacked.top_eq, h.stacked.base_le, h.stacked.alignMin, h.stacked.below,
        h.stacked.live.write hE ha v⟩
    · exact h.account.frame rfl rfl hw ((h.disjoint_region hE).mono_left hreg)
  · have hreg := (hmem (h.account.live.placed B hP) ha).trans (h.account.region_subset hP)
    refine ⟨?_, ?_, h.nodup, h.unused, h.start_ne, h.apart⟩
    · exact h.stacked.frame rfl rfl hw fun C hC => (h.disjoint_region hC).mono_right hreg
    · exact h.account.write h.nodup hP ha v

/-- Every allowed operation that meets the conditions keeps the two back ends apart. -/
theorem Coherent.step (h : w.Coherent b e L₀ L lost) (he : e < 2 ^ 32) {op : SwitchOp}
    (hn : w.NoWrap op) (hwhole : w.WholePages op) (hs : w.LegalStep op w') :
    ∃ L₀ L lost, w'.Coherent b e L₀ L lost := by
  obtain ⟨ha, hs⟩ := hs
  cases hs with
  | @memalign alignment size p q h₁ h₂ fuel hback hq hcall =>
    cases hops : w.heap.ops with
    | early => exact ⟨L₀, L, lost, h.memalign_early he hops ha hn hback hq hcall⟩
    | page => exact ⟨L₀, h.memalign_page hops ha hn hback hq hcall⟩
  | @setMinimumAlignment align =>
    refine ⟨L₀, L, lost, ?_, ?_, h.nodup, h.unused, h.start_ne, h.apart⟩
    · exact ⟨rfl, h.stacked.top_eq, h.stacked.base_le, ha, h.stacked.below, h.stacked.live⟩
    · exact h.account.frame rfl rfl (.refl ∅ _) (Set.empty_disjoint _)
  | pageAllocOpsEnable =>
    exact ⟨L₀, L, lost, h.stacked, h.account, h.nodup, unused_of_page rfl, h.start_ne, h.apart⟩
  | @free B h₁ fuel hfree =>
    obtain ⟨h', ⟨n, hall⟩, L₀', L', hnew⟩ := h.free ha hwhole
    rw [hall fuel] at hfree
    split_ifs at hfree
    obtain rfl := Option.some.inj hfree
    exact ⟨L₀', L', lost, hnew⟩
  | @write addr v =>
    obtain ⟨B, hB, haddr⟩ := ha
    exact ⟨L₀, L, lost, h.write hB haddr v⟩

/-- Under the conditions an operation returns and leaves a clean list. -/
theorem Coherent.keeps (h : w.Coherent b e L₀ L lost) (he : e < 2 ^ 32) {op : SwitchOp}
    (hn : w.NoWrap op) (hwhole : w.WholePages op) : w.Keeps op := by
  constructor
  · rintro B rfl hB
    obtain ⟨h', ⟨n, hall⟩, -⟩ := h.free hB hwhole
    exact ⟨_, .free n ((hall n).trans (if_pos le_rfl))⟩
  · intro w' hs
    obtain ⟨_, L', _, hnew⟩ := h.step he hn hwhole hs
    exact ⟨L', hnew.clean⟩

/-- An early block that is no whole number of pages does not go back well: `free` does not
return, or an address that is no page heads the free list. -/
theorem Coherent.wholePages_of_keeps (h : w.Coherent b e L₀ L lost) {op : SwitchOp}
    (hk : w.Keeps op) : w.WholePages op := by
  cases op with
  | free B =>
    intro hops hB
    have hlive : B ∈ w.live := List.mem_append_left _ hB
    obtain ⟨w', hs⟩ := hk.returns B rfl hlive
    obtain ⟨L', hclean⟩ := hk.clean w' ⟨hlive, hs⟩
    have hhead : B.Headed w.heap.mem := h.stacked.live.headed B hB
    have hplaced := h.stacked.live.placed B hB
    have hne : B.granted ≠ 0 := by
      have := hplaced.header
      have := hplaced.fits
      bv_omega
    cases hs with
    | free fuel hfree =>
      simp only [Heap.free, hops, hhead.start_eq, hhead.granted_eq, PageState.pageFree] at hfree
      obtain ⟨s, hs, rfl⟩ := Option.map_eq_some_iff.mp hfree
      constructor
      · -- the start of the region heads a list of pages
        have hstart := hclean.freeList.linked.head_eq
        change s.freelist = _ at hstart
        rw [PageState.freePages_freelist hne hs] at hstart
        cases L' with
        | nil => exact absurd hstart (h.start_ne B hB)
        | cons x L' =>
          have hx := hclean.freeList.pages x (List.mem_cons_self ..)
          rw [hstart]
          exact Nat.dvd_of_mod_eq_zero hx.2
      · by_contra hdvd
        rw [PageState.freePages_none hdvd] at hs
        cases hs
  | _ => trivial

/-! ## Whole runs -/

/-- The world right after `phys_alloc_init`, with no live block. -/
def start (h : Heap) (baseAddr size : Word) : SwitchWorld :=
  ⟨{ h with phys := h.phys.physAllocInit baseAddr size }, [], []⟩

/-- From a well-formed free list outside the pool, along the requests of a run that do not
wrap every `free` returns and the free list stays clean if and only if the early blocks
that are freed after the switch are made of whole pages. -/
theorem along_keeps_iff {h : Heap} (hpow : IsPow2 h.phys.alignMin)
    (hfour : 4 ≤ h.phys.alignMin.toNat) (hlist : h.page.FreeList L) {baseAddr size : Word}
    (hfit : baseAddr.toNat + size.toNat < 2 ^ 32)
    (hout : ∀ p ∈ L, Disjoint (span p 4096) (span baseAddr size.toNat)) (ops : List SwitchOp) :
    Along LegalStep (fun w op => w.NoWrap op ∧ w.Keeps op) (start h baseAddr size) ops ↔
      Along LegalStep (fun w op => w.NoWrap op ∧ w.WholePages op) (start h baseAddr size)
        ops := by
  have htop : (baseAddr + size).toNat = baseAddr.toNat + size.toNat := by bv_omega
  have hstart : (start h baseAddr size).Coherent baseAddr.toNat (baseAddr.toNat + size.toNat)
      L L [] := by
    refine ⟨⟨rfl, htop, ⟨le_rfl, Nat.le_add_right _ _⟩, ⟨hpow, hfour⟩, by simp [start], .nil _⟩,
      ⟨rfl, hlist, .nil _, by simp [start], by simp [start]⟩, hlist.nodup, fun _ => rfl,
      by simp [start], ?_⟩
    rw [Set.disjoint_left]
    rintro x (⟨hx, hx'⟩ | ⟨B, hB, -⟩) hxL
    · have hal := (hlist.pages _ hxL).2
      refine Set.disjoint_left.mp (hout _ hxL) ?_ ((mem_span_iff hfit.le).mpr ⟨hx, htop ▸ hx'⟩)
      have := (pageBase x).isLt
      rw [mem_span_iff (by omega), toNat_pageBase]
      omega
    · exact absurd hB (List.not_mem_nil)
  refine along_iff (fun w => ∃ L₀ L lost, w.Coherent baseAddr.toNat
    (baseAddr.toNat + size.toNat) L₀ L lost) ⟨L, L, [], hstart⟩ ?_ ?_
  · rintro w op ⟨L₀, L, lost, hw⟩
    refine and_congr_right fun hn => ?_
    exact ⟨hw.wholePages_of_keeps, hw.keeps hfit hn⟩
  · rintro w op w' ⟨L₀, L, lost, hw⟩ ⟨hn, hwhole⟩ hs
    exact hw.step hfit hn hwhole hs

/-- The heap of the kernel image over zeroed memory. -/
def image : Heap := .initial ⟨fun _ => 0, []⟩

/-- The block that a first request for 56 bytes gets from the pool of `mem_init`. -/
def firstBlock : Block := ⟨4, 56, 0x300008, 0x300000, 64⟩

/-- The block that it gets when the minimum alignment is a page. -/
def pageBlock : Block := ⟨4, 56, 0x300008, 0x300000, 4096⟩

/-- A first block that crosses the switch: with 64 bytes it meets neither side, with a whole page
it meets both, and the run comes to its end. -/
theorem along_keeps_iff_blocks :
    ¬ Along LegalStep (fun w op => w.NoWrap op ∧ w.Keeps op) (start image 0x300000 0x7ce0000)
        [.memalign 4 56, .pageAllocOpsEnable, .free firstBlock] ∧
      Along LegalStep (fun w op => w.NoWrap op ∧ w.Keeps op) (start image 0x300000 0x7ce0000)
        [.setMinimumAlignment 4096, .memalign 4 56, .pageAllocOpsEnable, .free pageBlock] ∧
      ∃ w, Reach LegalStep (start image 0x300000 0x7ce0000)
        [.setMinimumAlignment 4096, .memalign 4 56, .pageAllocOpsEnable, .free pageBlock] w := by
  have hlist : image.page.FreeList [0x200000] := ⟨by decide, by simp [IsPage]⟩
  have hout : ∀ p ∈ [(0x200000 : Word)],
      Disjoint (span p 4096) (span 0x300000 (0x7ce0000 : Word).toNat) := by
    rw [List.forall_mem_singleton]
    exact disjoint_span_of_le (by decide) (by decide)
  have hiff (ops : List SwitchOp) :
      Along LegalStep (fun w op => w.NoWrap op ∧ w.Keeps op) (start image 0x300000 0x7ce0000) ops ↔
        Along LegalStep (fun w op => w.NoWrap op ∧ w.WholePages op)
          (start image 0x300000 0x7ce0000) ops :=
    along_keeps_iff ⟨6, rfl⟩ (by decide) hlist (by decide) hout ops
  rw [hiff, hiff]
  refine ⟨fun h => ?_, ?_, ?_⟩
  · have hserved : LegalStep (start image 0x300000 0x7ce0000) (.memalign 4 56) _ :=
      ⟨⟨2, rfl⟩, .memalign 0 rfl (by decide) rfl⟩
    have hwhole := ((h.2 _ hserved).2 _ ⟨trivial, .pageAllocOpsEnable⟩).1.2
    obtain ⟨-, hgranted⟩ := hwhole rfl (List.mem_cons_self ..)
    exact absurd hgranted (by decide)
  · refine ⟨⟨trivial, trivial⟩, ?_⟩
    rintro _ ⟨-, ⟨⟩⟩
    refine ⟨⟨⟨by decide, fun _ => by decide⟩, trivial⟩, fun _ _ => ?_⟩
    refine ⟨⟨trivial, trivial⟩, fun _ _ => ?_⟩
    exact ⟨⟨trivial, fun _ _ => ⟨⟨0x300, rfl⟩, ⟨1, rfl⟩⟩⟩, fun _ _ => trivial⟩
  · have hset : LegalStep (start image 0x300000 0x7ce0000) (.setMinimumAlignment 4096) _ :=
      ⟨⟨⟨12, rfl⟩, by decide⟩, .setMinimumAlignment⟩
    have hserved := (Reach.snoc .nil hset).snoc (i := SwitchOp.memalign 4 56)
      ⟨⟨2, rfl⟩, .memalign 0 rfl (by decide) rfl⟩
    have hswitched := hserved.snoc (i := SwitchOp.pageAllocOpsEnable)
      ⟨trivial, .pageAllocOpsEnable⟩
    exact ⟨_, hswitched.snoc (i := SwitchOp.free pageBlock)
      ⟨List.mem_cons_self .., .free 1 rfl⟩⟩

/-- Freed after the switch, the 64 bytes of the first block are no whole page: `free` does not
return. -/
theorem not_along_keeps_first_block :
    ¬ Along LegalStep Keeps (start image 0x300000 0x7ce0000)
      [.memalign 4 56, .pageAllocOpsEnable, .free firstBlock] := by
  intro h
  have hserved : LegalStep (start image 0x300000 0x7ce0000) (.memalign 4 56) _ :=
    ⟨⟨2, rfl⟩, .memalign 0 rfl (by decide) rfl⟩
  have hkeeps := ((h.2 _ hserved).2 _ ⟨trivial, .pageAllocOpsEnable⟩).1
  obtain ⟨w', hs⟩ := hkeeps.returns firstBlock rfl (List.mem_cons_self ..)
  cases hs with
  | free fuel hfree =>
    obtain ⟨s, hs, -⟩ := Option.map_eq_some_iff.mp hfree
    rw [PageState.pageFree, PageState.freePages_none (by decide)] at hs
    cases hs

end SwitchWorld

end DmfOs
