import DmfOs.Mem.Heap.State
import DmfOs.Mem.Phys.Log
import DmfOs.Mem.Page.Complete

/-!
# Calls that break an assertion

`assert` and `assert_msg` print and go on, so a call with a bad argument runs
the body like any other. Over a well-formed free list, what the body then does
to the allocators is nothing exactly under the conditions below; a size that is
no whole number of pages keeps `free_pages` from ever returning.
-/

namespace DmfOs

open Memory

/-- A call of an allocator function that asserts its arguments. -/
inductive AllocatorCall where
  | freePages (mem size : Word)
  | allocPages (order : Word)
  | earlyMemalign (alignment size : Word)
  | setMinimumAlignment (align : Word)
  deriving DecidableEq, Repr

namespace AllocatorCall

/-- The asserted condition of the call. -/
def Asserted : AllocatorCall → Prop
  | freePages mem size =>
    mem % pageSize = 0 ∧ size % pageSize = 0 ∧ (size = 0 ∨ mem = -size ∨ mem + size > mem)
  | allocPages order => order < 4 * 8
  | earlyMemalign alignment _ => alignment ≠ 0 ∧ alignment &&& (alignment - 1) = 0
  | setMinimumAlignment align => align ≠ 0 ∧ align &&& (align - 1) = 0

/-- The state after the call, when it returns. -/
def run (fuel : Nat) : AllocatorCall → Heap → Option Heap
  | freePages mem size, h => (h.page.freePages fuel mem size).map fun page =>
    { h with page := page }
  | allocPages order, h => (h.page.allocPages fuel order).map fun (_, page) =>
    { h with page := page }
  | earlyMemalign alignment size, h =>
    some { h with phys := (h.phys.earlyMemalign alignment size).2 }
  | setMinimumAlignment align, h =>
    some { h with phys := h.phys.physAllocSetMinimumAlignment align }

/-- Free list, links, pool, log and minimum alignment are as they were. -/
structure Same (L : List Word) (h h' : Heap) : Prop where
  freelist : h'.page.freelist = h.page.freelist
  links : ∀ p ∈ L, h'.mem.load32 p = h.mem.load32 p
  pool : h'.phys.base = h.phys.base ∧ h'.phys.top = h.phys.top
  log : h'.phys.regions = h.phys.regions ∧ h'.phys.nrRegions = h.phys.nrRegions
  alignMin : h'.phys.alignMin = h.phys.alignMin

/-- The call ends and leaves the allocators over the free list `L` alone. -/
def Harmless (L : List Word) (h : Heap) (c : AllocatorCall) : Prop :=
  ∃ fuel h', c.run fuel h = some h' ∧ Same L h h'

/-- When a call that breaks its assertion is harmless: it clears a list that is empty, it frees
what is exactly the list up to the end of the address space, it finds no run, it is refused or
takes nothing with the log full, it sets the alignment that is set already. -/
def HarmlessWhen (L : List Word) (h : Heap) : AllocatorCall → Prop
  | freePages mem size =>
    size = 0 ∧ L = [] ∨
      size ≠ 0 ∧ mem % pageSize = 0 ∧ size % pageSize = 0 ∧
        L = pageRun mem ((2 ^ 32 - mem.toNat) / 4096)
  | allocPages order =>
    ¬ (order.toNat % 32 < 20 ∧ InReach (2 ^ (order.toNat % 32)) L)
  | earlyMemalign alignment size =>
    h.phys.top - h.phys.base < h.phys.taken size alignment ∨
      physAllocNrRegions ≤ h.phys.nrRegions ∧ h.phys.taken size alignment = 0
  | setMinimumAlignment align => align = h.phys.alignMin

variable {L : List Word} {h : Heap} {mem size align : Word}

/-- A call that returns the same state is harmless. -/
theorem Same.refl (L : List Word) (h : Heap) : Same L h h :=
  ⟨rfl, fun _ _ => rfl, ⟨rfl, rfl⟩, ⟨rfl, rfl⟩, rfl⟩

/-- The same free list is still spelled out. -/
theorem Same.linked {h' : Heap} (hs : Same L h h') (hL : h.page.FreeList L) :
    Linked h'.page.mem.load32 0 h'.page.freelist L := by
  rw [hs.freelist]
  exact hL.linked.congr hs.links

theorem mod_pageSize (x : Word) : x % pageSize = 0 ↔ x.toNat % 4096 = 0 := by
  rw [← BitVec.toNat_inj, BitVec.toNat_umod]
  rfl

/-- The head of a free list is NULL exactly for the empty list. -/
theorem freelist_eq_zero (hL : h.page.FreeList L) : h.page.freelist = 0 ↔ L = [] := by
  rw [hL.linked.head_eq]
  cases L with
  | nil => exact iff_of_true rfl rfl
  | cons x L => exact iff_of_false (hL.pages x (by simp)).1 (by simp)

/-- The head of a free list is page-aligned. -/
theorem freelist_aligned (hL : h.page.FreeList L) : h.page.freelist.toNat % 4096 = 0 := by
  rw [hL.linked.head_eq]
  cases L with
  | nil => rfl
  | cons x L => exact (hL.pages x (by simp)).2

/-- Pages that run over the end of the address space are freed harmlessly exactly when those
in front of it are the free list already. -/
theorem freePages_harmless_of_overflow (hL : h.page.FreeList L) (hmem : mem.toNat % 4096 = 0)
    (hsize : size.toNat % 4096 = 0) (hover : 2 ^ 32 < mem.toNat + size.toNat) :
    Harmless L h (freePages mem size) ↔ L = pageRun mem ((2 ^ 32 - mem.toNat) / 4096) := by
  have hlt := mem.isLt
  have hlt' := size.isLt
  obtain ⟨k, hk⟩ := Nat.exists_eq_add_one.mpr (show 0 < size.toNat / 4096 by omega)
  obtain ⟨s', hcall, hhead, hlinks, -, -⟩ := PageState.freePages_run h.page hmem
    (show size.toNat = 4096 * (k + 1) by omega)
  generalize hj : (2 ^ 32 - mem.toNat) / 4096 = j
  -- the pages below the end of the address space link up to NULL
  have hrun : Linked s'.mem.load32 0 mem (pageRun mem j) := by
    have hfit : mem.toNat + 4096 * j ≤ 2 ^ 32 := by omega
    have hend : mem + pageSize * BitVec.ofNat 32 j = 0 := by
      simp only [pageSize]
      bv_omega
    rw [← List.append_nil (pageRun mem j)]
    refine linked_pageRun (fun x hx => ?_) (fun i hi => hlinks i (by omega)) hend
    have hpage : IsPage mem := ⟨by bv_omega, hmem⟩
    exact (isPage_of_mem_pageRun hpage hfit hx).1
  constructor
  · rintro ⟨fuel, h', hr, hsame⟩
    obtain ⟨page, hpage, rfl⟩ := Option.map_eq_some_iff.mp hr
    rw [hcall fuel] at hpage
    split_ifs at hpage
    obtain rfl := Option.some.inj hpage
    exact Linked.unique (hhead ▸ hsame.linked hL) hrun
  · rintro rfl
    have hhead' : s'.freelist = h.page.freelist :=
      hhead.trans (hrun.head_eq.trans hL.linked.head_eq.symm)
    exact ⟨k + 1, { h with page := s' }, by simp [run, hcall],
      ⟨hhead', hL.linked.next_eq hrun, ⟨rfl, rfl⟩, ⟨rfl, rfl⟩, rfl⟩⟩

/-- `free_pages` with arguments that break its assertions. -/
theorem freePages_harmless_iff (hL : h.page.FreeList L) (hv : ¬ (freePages mem size).Asserted) :
    Harmless L h (freePages mem size) ↔ HarmlessWhen L h (freePages mem size) := by
  rw [Asserted, mod_pageSize, mod_pageSize] at hv
  rw [HarmlessWhen, mod_pageSize, mod_pageSize]
  by_cases hzero : size = 0
  · subst hzero
    -- the whole list is dropped
    rw [← freelist_eq_zero hL]
    constructor
    · rintro ⟨fuel, h', hr, hsame⟩
      simp only [run, PageState.freePages, ite_true, Option.map_some, Option.some.injEq] at hr
      subst hr
      exact Or.inl ⟨rfl, hsame.freelist.symm⟩
    · rintro (⟨-, hnull⟩ | ⟨hne, -⟩)
      · refine ⟨0, _, rfl, ⟨hnull.symm, fun _ _ => rfl, ⟨rfl, rfl⟩, ⟨rfl, rfl⟩, rfl⟩⟩
      · exact absurd rfl hne
  · by_cases hsize : size.toNat % 4096 = 0
    · by_cases hmem : mem.toNat % 4096 = 0
      · have hover : 2 ^ 32 < mem.toNat + size.toNat := by
          by_contra hle
          refine hv ⟨hmem, hsize, Or.inr ?_⟩
          bv_omega
        rw [freePages_harmless_of_overflow hL hmem hsize hover]
        simp only [hzero, hmem, hsize, false_and, false_or, ne_eq, not_false_eq_true, true_and]
      · -- the list now starts at an address that is no page
        refine iff_of_false ?_
          (by simp only [hzero, hmem, false_and, and_false, or_self, not_false_eq_true])
        rintro ⟨fuel, h', hr, hsame⟩
        obtain ⟨page, hpage, rfl⟩ := Option.map_eq_some_iff.mp hr
        have hhead := PageState.freePages_freelist hzero hpage
        have hal := freelist_aligned hL
        rw [← hsame.freelist] at hal
        exact hmem (hhead ▸ hal)
    · -- the linking loop runs past its end
      refine iff_of_false ?_
        (by simp only [hzero, hsize, false_and, and_false, or_self, not_false_eq_true])
      rintro ⟨fuel, h', hr, -⟩
      rw [run, PageState.freePages_none fun hd => hsize (Nat.mod_eq_zero_of_dvd hd)] at hr
      cases hr

/-- `alloc_pages` is harmless exactly when it finds no run. -/
theorem allocPages_harmless_iff (hL : h.page.FreeList L) (order : Word) :
    Harmless L h (allocPages order) ↔ HarmlessWhen L h (allocPages order) := by
  rw [HarmlessWhen, ← PageState.toNat_orderPages]
  constructor
  · rintro ⟨fuel, h', hr, hsame⟩ ⟨hlt, hreach⟩
    obtain ⟨⟨p, page⟩, hpage, rfl⟩ := Option.map_eq_some_iff.mp hr
    have hp := (hL.allocPages_ne_null hlt hpage).mpr hreach
    cases (hL.allocPages order fuel).2 p page hpage with
    | refused => exact hp rfl
    | @served p A B split _ _ _ rest =>
      -- the list would be both the old one and the one without the run
      have hlen := congrArg List.length (Linked.unique rest.linked (hsame.linked hL))
      have hpos := PageState.orderPages_pos order
      simp only [split, List.length_append, length_pageRun] at hlen
      omega
  · intro hnone
    obtain ⟨⟨p, page⟩, hpage⟩ := (hL.allocPages order (L.length + 1)).1 (Nat.lt_succ_self _)
    refine ⟨L.length + 1, { h with page := page }, by rw [run, hpage, Option.map_some], ?_⟩
    cases (hL.allocPages order _).2 p page hpage with
    | refused => exact .refl L h
    | @served p A B split isPage order_lt _ _ =>
      exact absurd ⟨order_lt, (hL.allocPages_ne_null order_lt hpage).mp isPage.1⟩ hnone

/-- `early_memalign` is harmless exactly when it is refused, or takes nothing with the log full. -/
theorem earlyMemalign_harmless_iff (L : List Word) (h : Heap) (align size : Word) :
    Harmless L h (earlyMemalign align size) ↔ HarmlessWhen L h (earlyMemalign align size) := by
  rw [HarmlessWhen]
  by_cases hrefused : h.phys.top - h.phys.base < h.phys.taken size align
  · refine iff_of_true ⟨0, h, ?_, .refl L h⟩ (Or.inl hrefused)
    rw [run, PhysState.earlyMemalign_eq, if_pos hrefused]
  · have hrun (fuel : Nat) : (earlyMemalign align size).run fuel h =
        some { h with phys := h.phys.grant size align } := by
      rw [run, PhysState.earlyMemalign_eq, if_neg hrefused]
    constructor
    · rintro ⟨fuel, h', hr, hsame⟩
      obtain rfl := Option.some.inj ((hrun fuel).symm.trans hr)
      have hbase := hsame.pool.1
      have hlog := hsame.log.2
      simp only [PhysState.grant_base] at hbase
      simp only [PhysState.grant, PhysState.log_nrRegions] at hlog
      refine Or.inr ⟨?_, by bv_omega⟩
      by_contra hroom
      rw [if_pos (by omega)] at hlog
      omega
    · rintro (hr | ⟨hfull, hnone⟩)
      · exact absurd hr hrefused
      refine ⟨0, _, hrun 0, rfl, fun _ _ => rfl, ⟨?_, PhysState.grant_top _ _ _⟩, ⟨?_, ?_⟩,
        PhysState.grant_alignMin _ _ _⟩
      · simp only [PhysState.grant_base, hnone]
        bv_omega
      · simp only [PhysState.grant, PhysState.log_regions]
        exact if_neg (by omega)
      · simp only [PhysState.grant, PhysState.log_nrRegions]
        exact if_neg (by omega)

/-- Over a free list, a call that breaks its assertion ends and leaves the allocators alone if
and only if its case of `HarmlessWhen` holds. -/
theorem harmless_iff (hL : h.page.FreeList L) {c : AllocatorCall} (hv : ¬ c.Asserted) :
    Harmless L h c ↔ HarmlessWhen L h c := by
  cases c with
  | freePages mem size => exact freePages_harmless_iff hL hv
  | allocPages order => exact allocPages_harmless_iff hL order
  | earlyMemalign alignment size => exact earlyMemalign_harmless_iff L h alignment size
  | setMinimumAlignment align =>
    constructor
    · rintro ⟨fuel, h', hr, hsame⟩
      obtain rfl := Option.some.inj hr
      exact hsame.alignMin
    · intro he
      exact ⟨0, _, rfl, ⟨rfl, fun _ _ => rfl, ⟨rfl, rfl⟩, ⟨rfl, rfl⟩, he⟩⟩

/-- The heap of the kernel image has the free page at the static head of its list. -/
theorem initial_freeList :
    (Heap.initial ⟨fun _ => 0, []⟩).page.FreeList [0x200000] := ⟨by decide, by simp [IsPage]⟩

/-- Over a list of one page, a request of order 33 finds no pair and is harmless, but one of
order 32 takes the page, and freeing nothing drops it. -/
theorem harmless_iff_one_page :
    Harmless [0x200000] (.initial ⟨fun _ => 0, []⟩) (allocPages 33) ∧
      ¬ Harmless [0x200000] (.initial ⟨fun _ => 0, []⟩) (allocPages 32) ∧
      ¬ Harmless [0x200000] (.initial ⟨fun _ => 0, []⟩) (freePages 0x300001 0) := by
  have horder (k : Nat) (hk : 32 ≤ (BitVec.ofNat 32 k).toNat) :
      ¬ (allocPages (.ofNat 32 k)).Asserted := by
    rw [Asserted, BitVec.lt_def]
    exact hk.not_gt
  have hmem : ¬ (freePages 0x300001 0).Asserted := by
    rw [Asserted]
    decide
  refine ⟨(harmless_iff initial_freeList (horder 33 (by decide))).mpr ?_,
    mt (harmless_iff initial_freeList (horder 32 (by decide))).mp ?_,
    mt (harmless_iff initial_freeList hmem).mp ?_⟩
  · rintro ⟨-, A, p, B, hsplit, -⟩
    have hlen : [0x200000].length = (A ++ pageRun p 2 ++ B).length := congrArg List.length hsplit
    simp only [List.length_append, length_pageRun, List.length_singleton] at hlen
    omega
  · have hnone : Behind 1 0 [] := .none fun _ _ m _ hi => absurd hi.short (by
      have := hi.pos
      omega)
    exact fun hno => hno ⟨by decide, [], 0x200000, [], rfl, ⟨0x200, rfl⟩, 0, .zero, hnone⟩
  · rintro (⟨-, hnil⟩ | ⟨hne, -⟩)
    · cases hnil
    · exact hne rfl

/-- A size of two bytes keeps `free_pages` from returning. -/
theorem not_harmless :
    ¬ ∀ (L : List Word) (h : Heap) (c : AllocatorCall), h.page.FreeList L → ¬ c.Asserted →
      Harmless L h c := by
  intro hall
  have hv : ¬ (freePages 0x300000 2).Asserted := by
    rw [Asserted]
    decide
  obtain ⟨fuel, h', hr, -⟩ := hall _ _ (freePages 0x300000 2) initial_freeList hv
  rw [run, PageState.freePages_none (by decide)] at hr
  cases hr

end AllocatorCall

end DmfOs
