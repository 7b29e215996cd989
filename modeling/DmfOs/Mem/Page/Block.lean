import DmfOs.Mem.Page.State
import DmfOs.Core.Linked

/-!
# Pages and contiguous page runs

`IsPage` is a usable page address, and `pageRun p n` lists `n` pages from `p`
on. A run of usable pages does not wrap, so its pages are an interval and its
bytes are one span. `FreeList` relates the allocator to the list of free pages
that its links spell out.
-/

namespace DmfOs

/-- A non-null page-aligned address. -/
def IsPage (p : Word) : Prop := p ≠ 0 ∧ p.toNat % 4096 = 0

/-- The `n` page addresses from `p` on. -/
def pageRun (p : Word) (n : Nat) : List Word :=
  (List.range n).map fun i => p + pageSize * BitVec.ofNat 32 i

@[simp] theorem pageRun_zero (p : Word) : pageRun p 0 = [] := rfl

@[simp] theorem length_pageRun (p : Word) (n : Nat) : (pageRun p n).length = n := by
  simp [pageRun]

theorem pageRun_succ (p : Word) (n : Nat) :
    pageRun p (n + 1) = pageRun p n ++ [p + pageSize * BitVec.ofNat 32 n] := by
  simp [pageRun, List.range_succ]

theorem pageRun_one (p : Word) : pageRun p 1 = [p] := by
  simp [pageRun]

/-- The end of a run from its second page. -/
theorem add_pageSize (p : Word) (k : Nat) :
    p + pageSize + pageSize * BitVec.ofNat 32 k = p + pageSize * BitVec.ofNat 32 (k + 1) := by
  simp only [pageSize]
  bv_omega

/-- A run starts with its first page. -/
theorem pageRun_succ_cons (p : Word) (n : Nat) :
    pageRun p (n + 1) = p :: pageRun (p + pageSize) n := by
  rw [pageRun, List.range_succ_eq_map, List.map_cons, List.map_map, pageRun]
  refine congrArg₂ _ (by simp) (List.map_congr_left fun i _ => ?_)
  exact (add_pageSize p i).symm

theorem pageRun_add (p : Word) (n k : Nat) :
    pageRun p (n + k) = pageRun p n ++ pageRun (p + pageSize * BitVec.ofNat 32 n) k := by
  induction k with
  | zero => simp
  | succ k ih =>
    rw [← Nat.add_assoc, pageRun_succ, ih, pageRun_succ, List.append_assoc]
    refine congrArg _ (congrArg _ (congrArg (· :: []) ?_))
    simp only [pageSize]
    bv_omega

theorem mem_pageRun {p x : Word} {n : Nat} :
    x ∈ pageRun p n ↔ ∃ i < n, p + pageSize * BitVec.ofNat 32 i = x := by
  simp [pageRun]

theorem pageRun_subset (p : Word) {k n : Nat} (h : k ≤ n) : pageRun p k ⊆ pageRun p n := by
  intro x hx
  obtain ⟨i, hi, he⟩ := mem_pageRun.mp hx
  exact mem_pageRun.mpr ⟨i, by omega, he⟩

/-- The `i`-th page of a run that does not wrap. -/
theorem toNat_page {p : Word} {n i : Nat} (h : p.toNat + 4096 * n ≤ 2 ^ 32) (hi : i < n) :
    (p + pageSize * BitVec.ofNat 32 i).toNat = p.toNat + 4096 * i := by
  simp only [pageSize]
  bv_omega

/-- The pages of a run that does not wrap are the pages of an interval. -/
theorem mem_pageRun_iff {p x : Word} {n : Nat} (hp : p.toNat % 4096 = 0)
    (h : p.toNat + 4096 * n ≤ 2 ^ 32) :
    x ∈ pageRun p n ↔
      x.toNat % 4096 = 0 ∧ p.toNat ≤ x.toNat ∧ x.toNat < p.toNat + 4096 * n := by
  rw [mem_pageRun]
  constructor
  · rintro ⟨i, hi, rfl⟩
    rw [toNat_page h hi]
    omega
  · rintro ⟨hx, hle, hlt⟩
    refine ⟨(x.toNat - p.toNat) / 4096, by omega, BitVec.eq_of_toNat_eq ?_⟩
    rw [toNat_page h (by omega)]
    omega

/-- A run of non-null pages does not wrap. -/
theorem pageRun_no_wrap {p : Word} {n : Nat} (hp : ∀ x ∈ pageRun p n, IsPage x) :
    p.toNat + 4096 * n ≤ 2 ^ 32 := by
  by_contra hw
  have hn : 0 < n := by
    have := p.isLt
    omega
  have h0 : IsPage p := hp p (mem_pageRun.mpr ⟨0, hn, by simp⟩)
  -- the page at which the run would pass the end of the address space
  have hi : (2 ^ 32 - p.toNat) / 4096 < n := by omega
  refine (hp _ (mem_pageRun.mpr ⟨_, hi, rfl⟩)).1 (BitVec.eq_of_toNat_eq ?_)
  have := h0.2
  simp only [pageSize]
  bv_omega

/-- A run that does not wrap repeats no page. -/
theorem nodup_pageRun {p : Word} {n : Nat} (h : p.toNat + 4096 * n ≤ 2 ^ 32) :
    (pageRun p n).Nodup := by
  refine List.nodup_range.map_on fun i hi j hj he => ?_
  have hnat := congrArg BitVec.toNat he
  rw [toNat_page h (List.mem_range.mp hi), toNat_page h (List.mem_range.mp hj)] at hnat
  omega

/-- Page addresses of a run that does not wrap are usable when the first one is. -/
theorem isPage_of_mem_pageRun {p x : Word} {n : Nat} (hp : IsPage p)
    (h : p.toNat + 4096 * n ≤ 2 ^ 32) (hx : x ∈ pageRun p n) : IsPage x := by
  obtain ⟨hal, hle, _⟩ := (mem_pageRun_iff hp.2 h).mp hx
  have := hp.1
  refine ⟨?_, hal⟩
  bv_omega

/-- Every byte of a page run lies in its span. -/
theorem span_page_subset {p x : Word} {n : Nat} (hp : p.toNat % 4096 = 0)
    (h : p.toNat + 4096 * n ≤ 2 ^ 32) (hx : x ∈ pageRun p n) {k : Nat} (hk : k ≤ 4096) :
    Memory.span x k ⊆ Memory.span p (4096 * n) := by
  obtain ⟨hal, hle, hlt⟩ := (mem_pageRun_iff hp h).mp hx
  intro y hy
  rw [Memory.mem_span_iff (by omega)] at hy
  rw [Memory.mem_span_iff h]
  omega

/-- The page that an address lies on. -/
def pageBase (x : Word) : Word := BitVec.ofNat 32 (x.toNat / 4096 * 4096)

theorem toNat_pageBase (x : Word) : (pageBase x).toNat = x.toNat / 4096 * 4096 := by
  have := x.isLt
  rw [pageBase, BitVec.toNat_ofNat, Nat.mod_eq_of_lt (by omega)]

/-- The bytes of a page lie on it. -/
theorem pageBase_of_mem_span {p x : Word} (hp : p.toNat % 4096 = 0) {k : Nat} (hk : k ≤ 4096)
    (hx : x ∈ Memory.span p k) : pageBase x = p := by
  have := p.isLt
  rw [Memory.mem_span_iff (by omega)] at hx
  apply BitVec.eq_of_toNat_eq
  rw [toNat_pageBase]
  omega

/-- A page lies on itself. -/
theorem pageBase_of_aligned {p : Word} (hp : p.toNat % 4096 = 0) : pageBase p = p :=
  pageBase_of_mem_span hp (show 1 ≤ 4096 by decide) (by simp [Memory.mem_span])

/-- The span of a page run holds the bytes on its pages. -/
theorem mem_span_pageRun {p x : Word} {n : Nat} (hp : p.toNat % 4096 = 0)
    (h : p.toNat + 4096 * n ≤ 2 ^ 32) :
    x ∈ Memory.span p (4096 * n) ↔ pageBase x ∈ pageRun p n := by
  rw [Memory.mem_span_iff h, mem_pageRun_iff hp h, toNat_pageBase]
  omega

/-- Pages are word-aligned, so their link words are apart. -/
theorem disjoint_pageLinks {p q : Word} (hp : p.toNat % 4096 = 0) (hq : q.toNat % 4096 = 0)
    (hne : p ≠ q) : Disjoint (Memory.span p 4) (Memory.span q 4) :=
  Memory.disjoint_span_words (by omega) (by omega) hne

/-- The pages of a run are aligned like the first one, wrapping included. -/
theorem toNat_page_mod {p : Word} (hp : p.toNat % 4096 = 0) (i : Nat) :
    (p + pageSize * BitVec.ofNat 32 i).toNat % 4096 = 0 := by
  simp only [pageSize]
  bv_omega

/-- Links from page to page of a run, and on from its end. -/
theorem linked_pageRun {next : Word → Word} {p : Word} {n : Nat} {L : List Word}
    (hne : ∀ x ∈ pageRun p n, x ≠ 0)
    (hnext : ∀ i < n, next (p + pageSize * BitVec.ofNat 32 i) =
      p + pageSize * BitVec.ofNat 32 (i + 1))
    (hL : Linked next 0 (p + pageSize * BitVec.ofNat 32 n) L) :
    Linked next 0 p (pageRun p n ++ L) := by
  induction n generalizing p with
  | zero => simpa using hL
  | succ n ih =>
    rw [pageRun_succ_cons, List.forall_mem_cons] at hne
    rw [pageRun_succ_cons]
    refine Linked.cons ?_ hne.1
    have hfirst : next p = p + pageSize := by simpa using hnext 0 (by omega)
    rw [hfirst]
    refine ih hne.2 (fun i hi => ?_) ?_
    · rw [add_pageSize, add_pageSize]
      exact hnext (i + 1) (by omega)
    · rwa [add_pageSize]

namespace PageState

/-- The links from `freelist` on spell out the free pages `L`. -/
structure FreeList (s : PageState) (L : List Word) : Prop where
  /-- Each free page links to the next one. -/
  linked : Linked s.mem.load32 0 s.freelist L
  /-- Every free page is a usable page. -/
  pages : ∀ p ∈ L, IsPage p

variable {s : PageState} {L A B : List Word} {p : Word}

/-- The free list repeats no page. -/
theorem FreeList.nodup (h : s.FreeList L) : L.Nodup := h.linked.nodup

/-- Stores that miss the link words keep the free list. -/
theorem FreeList.frame {m : Memory} {S : Set Word} (h : s.FreeList L)
    (hw : Memory.WritesIn S s.mem m) (hd : ∀ p ∈ L, Disjoint (Memory.span p 4) S) :
    FreeList { s with mem := m } L :=
  ⟨h.linked.congr fun p hp => hw.load32_eq (hd p hp), h.pages⟩

/-- Linking a fresh page in front of the list. -/
theorem FreeList.push (h : s.FreeList L) (hp : IsPage p) (hn : p ∉ L) :
    (freePage p s).FreeList (p :: L) := by
  refine ⟨⟨rfl, hp.1, ?_⟩, List.forall_mem_cons.mpr ⟨hp, h.pages⟩⟩
  change Linked (s.mem.store32 p s.freelist).load32 0 ((s.mem.store32 p s.freelist).load32 p) L
  rw [Memory.load32_store32_self]
  refine h.linked.congr fun q hq => ?_
  have hne : q ≠ p := fun he => hn (he ▸ hq)
  exact (Memory.writesIn_store32 _ _ _).load32_eq (disjoint_pageLinks (h.pages q hq).2 hp.2 hne)

end PageState

end DmfOs
