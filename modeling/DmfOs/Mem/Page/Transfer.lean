import DmfOs.Mem.Page.Scan

/-!
# What the page allocator moves

Each operation is described once, by the pages that it moves between the free
list and its caller: `alloc_pages` cuts an aligned run out of the list or
leaves everything alone, `free_pages` puts a run in front. Stores only ever hit
link words of pages that are free before or after the operation.
-/

namespace DmfOs

/-- The link words of the listed pages. -/
def linkWords (P : List Word) : Set Word := {x | ∃ p ∈ P, x ∈ Memory.span p 4}

theorem linkWords_mono {P Q : List Word} (h : P ⊆ Q) : linkWords P ⊆ linkWords Q :=
  fun _ ⟨p, hp, hx⟩ => ⟨p, h hp, hx⟩

theorem span_subset_linkWords {P : List Word} {p : Word} (hp : p ∈ P) :
    Memory.span p 4 ⊆ linkWords P := fun _ hx => ⟨p, hp, hx⟩

/-- The link word that joins the pages of `A` to what follows them: none for an empty list,
which `freelist` stands for. -/
def jointWord (A : List Word) : Set Word := {x | ∃ p, A.getLast? = some p ∧ x ∈ Memory.span p 4}

/-- The joint is one of the link words. -/
theorem jointWord_subset (A : List Word) : jointWord A ⊆ linkWords A :=
  fun _ ⟨p, hp, hx⟩ => ⟨p, List.mem_of_getLast? hp, hx⟩

/-- The link word of a page is apart from the links of other pages. -/
theorem disjoint_linkWords {P : List Word} {p : Word} (hp : p.toNat % 4096 = 0)
    (hP : ∀ q ∈ P, q.toNat % 4096 = 0) (hn : p ∉ P) :
    Disjoint (Memory.span p 4) (linkWords P) := by
  rw [Set.disjoint_left]
  rintro x hx ⟨q, hq, hxq⟩
  have hne : p ≠ q := fun he => hn (he ▸ hq)
  exact Set.disjoint_left.mp (disjoint_pageLinks hp (hP q hq) hne) hx hxq

namespace PageState

variable {s s' : PageState} {L A B R : List Word} {order p mem size : Word}

/-! ## `alloc_pages` -/

theorem toNat_orderPages (order : Word) : (orderPages order).toNat = 2 ^ (order.toNat % 32) := by
  have : order.toNat % 32 < 32 := Nat.mod_lt _ (by decide)
  rw [orderPages, BitVec.toNat_shiftLeft, BitVec.toNat_ofNat, Nat.shiftLeft_eq,
    Nat.mod_eq_of_lt (show 1 < 2 ^ 32 by decide), Nat.one_mul,
    Nat.mod_eq_of_lt (Nat.pow_lt_pow_right (by decide) this)]

theorem orderPages_pos (order : Word) : 0 < (orderPages order).toNat := by
  rw [toNat_orderPages]
  exact Nat.two_pow_pos _

/-- Below order 20 the mask tests the natural alignment of the block. -/
theorem and_orderMask_eq_zero (ho : order.toNat % 32 < 20) (p : Word) :
    p &&& orderMask order = 0 ↔ 4096 * (orderPages order).toNat ∣ p.toNat := by
  have hlt : 2 ^ (order.toNat % 32) * 2 ^ 12 < 2 ^ 32 := by
    rw [← pow_add]
    exact Nat.pow_lt_pow_right (by decide) (by omega)
  have hbytes : (orderPages order <<< pageShift).toNat = 2 ^ (order.toNat % 32) * 2 ^ 12 := by
    rw [BitVec.toNat_shiftLeft, toNat_orderPages, Nat.shiftLeft_eq, pageShift,
      Nat.mod_eq_of_lt hlt]
  have hp : IsPow2 (orderPages order <<< pageShift) :=
    ⟨order.toNat % 32 + 12, by rw [hbytes, pow_add]⟩
  rw [← BitVec.toNat_inj, orderMask, toNat_and_pred hp, hbytes, toNat_orderPages,
    Nat.mul_comm 4096]
  exact (Nat.dvd_iff_mod_eq_zero ..).symm

/-- From order 20 on the mask is all ones, so no page passes it. -/
theorem and_orderMask_ne_zero (ho : 20 ≤ order.toNat % 32) (hp : p ≠ 0) :
    p &&& orderMask order ≠ 0 := by
  have hzero : orderPages order <<< pageShift = 0 := by
    apply BitVec.eq_of_toNat_eq
    rw [BitVec.toNat_shiftLeft, toNat_orderPages, Nat.shiftLeft_eq, pageShift, ← pow_add]
    exact Nat.mod_eq_zero_of_dvd (Nat.pow_dvd_pow 2 (by omega))
  rw [orderMask, hzero, show (0 - 1 : Word) = BitVec.allOnes 32 from rfl, BitVec.and_allOnes]
  exact hp

/-- Splicing out a middle segment keeps a free list. -/
theorem FreeList.unlink (h : s.FreeList (A ++ R ++ B)) : (s.unlink A B).FreeList (A ++ B) := by
  have hsub : ∀ q ∈ A ++ B, IsPage q := fun q hq => h.pages q (by
    rcases List.mem_append.mp hq with hq | hq <;> simp [hq])
  have hB : Linked s.mem.load32 0 (B.headD 0) B := h.linked.drop
  refine ⟨?_, hsub⟩
  rcases List.eq_nil_or_concat A with rfl | ⟨A, q, rfl⟩
  · exact hB
  · have hq : IsPage q := hsub q (by simp)
    have hnd := h.nodup
    simp only [List.concat_eq_append, List.append_assoc, List.cons_append, List.nil_append] at *
    rw [PageState.unlink, if_pos (by simpa using hq.1)]
    simp only [List.getLastD_concat]
    -- every other page keeps its link
    have hkeep (y : Word) (hy : IsPage y) (hne : y ≠ q) :
        (s.mem.store32 q (B.headD 0)).load32 y = s.mem.load32 y :=
      (Memory.writesIn_store32 _ _ _).load32_eq (disjoint_pageLinks hy.2 hq.2 hne)
    refine h.linked.redirect ?_ fun y hy => hkeep y (hsub y (by simp [hy])) ?_
    · rw [Memory.load32_store32_self]
      refine hB.congr fun y hy => hkeep y (hsub y (by simp [hy])) ?_
      rintro rfl
      grind
    · rintro rfl
      grind

/-- Splicing stores at most into the link that joins the two parts. -/
theorem unlink_joint (s : PageState) (A B : List Word) :
    Memory.WritesIn (jointWord A) s.mem (s.unlink A B).mem := by
  rcases List.eq_nil_or_concat A with rfl | ⟨A, q, rfl⟩
  · exact .refl _ _
  · rw [PageState.unlink]
    split_ifs
    · refine (Memory.writesIn_store32 _ _ _).mono fun x hx => ?_
      simp only [List.concat_eq_append, List.getLastD_concat] at hx
      exact ⟨q, by simp, hx⟩
    · exact .refl _ _

/-- Splicing stores at most into the link words in front of the segment. -/
theorem unlink_writesIn (s : PageState) (A B : List Word) :
    Memory.WritesIn (linkWords A) s.mem (s.unlink A B).mem :=
  (unlink_joint s A B).mono (jointWord_subset A)

/-- The pages around a segment are none of the segment. -/
theorem FreeList.not_mem_segment (h : s.FreeList (A ++ R ++ B)) (hx : p ∈ A ++ B) : p ∉ R := by
  have hnd := h.nodup
  simp only [List.nodup_append, List.mem_append] at hnd hx
  intro hp
  rcases hx with hx | hx
  · exact hnd.1.2.2 p hx p hp rfl
  · exact hnd.2.2 p (Or.inr hp) p hx rfl

/-- What `alloc_pages` returns from the free list `L`: nothing and no change, or
a naturally aligned run that it cuts out. -/
inductive AllocPagesResult (s : PageState) (L : List Word) (order : Word) :
    Word → PageState → Prop
  /-- No run was found. -/
  | refused : AllocPagesResult s L order 0 s
  /-- The run at `p` was cut out between `A` and `B`. -/
  | served {p : Word} {A B : List Word}
      (split : L = A ++ pageRun p (orderPages order).toNat ++ B) (page : IsPage p)
      (order_lt : order.toNat % 32 < 20) (aligned : 4096 * (orderPages order).toNat ∣ p.toNat)
      (rest : (s.unlink A B).FreeList (A ++ B)) :
      AllocPagesResult s L order p (s.unlink A B)

/-- `alloc_pages` ends on a free list, and moves a run or nothing. -/
theorem FreeList.allocPages (h : s.FreeList L) (order : Word) (fuel : Nat) :
    (L.length < fuel → ∃ r, allocPages fuel order s = some r) ∧
      ∀ p s', allocPages fuel order s = some (p, s') → AllocPagesResult s L order p s' := by
  have hstart : Tracks (orderMask order) ((orderPages order).toNat - 1) []
      ⟨0, s.freelist, 0, 0, 0, 0⟩ := Or.inl rfl
  obtain ⟨hend, hres⟩ := allocPagesLoop_spec (orderPages_pos order) h.linked rfl hstart fuel
  refine ⟨hend, fun p s' hr => ?_⟩
  rcases hres _ hr with he | ⟨A, B, hL, hal, he⟩
  · obtain ⟨rfl, rfl⟩ := Prod.mk.inj he
    exact .refused
  · rw [List.nil_append] at hL
    have hmem : p ∈ pageRun p (orderPages order).toNat :=
      mem_pageRun.mpr ⟨0, orderPages_pos order, by simp⟩
    have hpage : IsPage p := h.pages p (by rw [hL]; simp [hmem])
    have hlt : order.toNat % 32 < 20 := by
      by_contra hge
      exact and_orderMask_ne_zero (by omega) hpage.1 hal
    subst he
    exact .served hL hpage hlt ((and_orderMask_eq_zero hlt p).mp hal) (FreeList.unlink (hL ▸ h))

/-- `page_memalign` answers NULL with its state unchanged, or a page, whatever the links are. -/
theorem pageMemalign_answer {fuel : Nat} {alignment : Word}
    (h : pageMemalign fuel alignment size s = some (p, s')) : p = 0 ∧ s' = s ∨ IsPage p := by
  rw [pageMemalign] at h
  by_cases hsize : size = 0
  · simp only [if_pos hsize] at h
    obtain ⟨rfl, rfl⟩ := Prod.mk.inj (Option.some.inj h)
    exact Or.inl ⟨rfl, rfl⟩
  · simp only [if_neg hsize] at h
    have hne (order : Word) : orderPages order ≠ 0 := by
      have := orderPages_pos order
      bv_omega
    refine (allocPagesLoop_answer (hne _) (fun hrun => absurd rfl hrun) h).imp_right ?_
    rintro ⟨hp, hal⟩
    refine ⟨hp, Nat.mod_eq_zero_of_dvd ?_⟩
    have hlt := lt_of_not_ge fun hge => and_orderMask_ne_zero hge hp hal
    exact (Nat.dvd_mul_right ..).trans ((and_orderMask_eq_zero hlt p).mp hal)

/-! ## `free_pages` -/

/-- The linking loop ends on every run of aligned pages that is shorter than the address space,
wrapping or not: it links each page to the next one and returns the last. -/
theorem freePagesLoop_run {k : Nat} (hk : k < 2 ^ 20) (hp : p.toNat % 4096 = 0) (m : Memory) :
    ∃ m', (∀ fuel, freePagesLoop (p + pageSize * BitVec.ofNat 32 (k + 1)) fuel p m =
        if k + 1 ≤ fuel then some (p + pageSize * BitVec.ofNat 32 k, m') else none) ∧
      (∀ i < k, m'.load32 (p + pageSize * BitVec.ofNat 32 i) =
        p + pageSize * BitVec.ofNat 32 (i + 1)) ∧
      Memory.WritesIn (linkWords (pageRun p k)) m m' := by
  induction k generalizing p m with
  | zero =>
    refine ⟨m, fun fuel => ?_, by simp, .refl _ _⟩
    cases fuel with
    | zero => rfl
    | succ fuel => simp [freePagesLoop]
  | succ k ih =>
    have hnext : (p + pageSize).toNat % 4096 = 0 := by simpa using toNat_page_mod hp 1
    obtain ⟨m', hloop, hlinks, hwrites⟩ :=
      ih (by omega) hnext (m.store32 p (p + pageSize))
    simp only [add_pageSize] at hloop hlinks
    refine ⟨m', fun fuel => ?_, fun i hi => ?_, ?_⟩
    · have hne : p + pageSize ≠ p + pageSize * BitVec.ofNat 32 (k + 1 + 1) := by
        simp only [pageSize]
        bv_omega
      cases fuel with
      | zero => rfl
      | succ fuel =>
        rw [freePagesLoop, if_pos hne, hloop fuel]
        simp only [Nat.add_le_add_iff_right]
    · cases i with
      | zero =>
        -- later stores hit later pages only, so `p` still links to the next page
        have hnp : p ∉ pageRun (p + pageSize) k := by
          rw [mem_pageRun]
          rintro ⟨i, hi, he⟩
          rw [add_pageSize] at he
          simp only [pageSize] at he
          bv_omega
        have hals : ∀ x ∈ pageRun (p + pageSize) k, x.toNat % 4096 = 0 := by
          intro x hx
          obtain ⟨i, -, rfl⟩ := mem_pageRun.mp hx
          exact toNat_page_mod hnext i
        have hkept := hwrites.load32_eq (disjoint_linkWords hp hals hnp)
        rw [Memory.load32_store32_self] at hkept
        simpa using hkept
      | succ i => exact hlinks i (by omega)
    · rw [pageRun_succ_cons]
      exact ((Memory.writesIn_store32 _ _ _).mono (span_subset_linkWords (by simp))).trans
        (hwrites.mono (linkWords_mono (by simp)))

/-- What `free_pages` does with aligned pages, wrapping or not: it ends, links each page to the
next one and the last one to the old list. -/
theorem freePages_run (s : PageState) {k : Nat} (hal : mem.toNat % 4096 = 0)
    (hsize : size.toNat = 4096 * (k + 1)) :
    ∃ s', (∀ fuel, freePages fuel mem size s = if k + 1 ≤ fuel then some s' else none) ∧
      s'.freelist = mem ∧
      (∀ i < k, s'.mem.load32 (mem + pageSize * BitVec.ofNat 32 i) =
        mem + pageSize * BitVec.ofNat 32 (i + 1)) ∧
      s'.mem.load32 (mem + pageSize * BitVec.ofNat 32 k) = s.freelist ∧
      Memory.WritesIn (linkWords (pageRun mem (k + 1))) s.mem s'.mem := by
  have hk : k < 2 ^ 20 := by
    have := size.isLt
    omega
  obtain ⟨m', hloop, hlinks, hwrites⟩ := freePagesLoop_run hk hal s.mem
  refine ⟨⟨m'.store32 (mem + pageSize * BitVec.ofNat 32 k) s.freelist, mem⟩, fun fuel => ?_, rfl,
    fun i hi => ?_, Memory.load32_store32_self _ _ _, ?_⟩
  · have hne : size ≠ 0 := by bv_omega
    have hend : mem + size = mem + pageSize * BitVec.ofNat 32 (k + 1) := by
      simp only [pageSize]
      bv_omega
    rw [freePages, if_neg hne, hend]
    simp only [hloop fuel]
    split_ifs <;> rfl
  · rw [← hlinks i hi]
    refine (Memory.writesIn_store32 _ _ _).load32_eq
      (disjoint_pageLinks (toNat_page_mod hal i) (toNat_page_mod hal k) ?_)
    simp only [pageSize]
    bv_omega
  · refine (hwrites.mono (linkWords_mono (pageRun_subset mem (Nat.le_succ k)))).trans ?_
    exact (Memory.writesIn_store32 _ _ _).mono
      (span_subset_linkWords (mem_pageRun.mpr ⟨k, Nat.lt_succ_self k, rfl⟩))

/-- `free_pages` ends on a run of fresh pages and puts it in front of the list. -/
theorem FreeList.freePages (h : s.FreeList L) {k : Nat} (hk : 0 < k)
    (hsize : size.toNat = 4096 * k) (hp : ∀ x ∈ pageRun mem k, IsPage x)
    (hfresh : ∀ x ∈ pageRun mem k, x ∉ L) :
    ∃ s', (∀ fuel, freePages fuel mem size s = if k ≤ fuel then some s' else none) ∧
      s'.FreeList (pageRun mem k ++ L) ∧
      Memory.WritesIn (linkWords (pageRun mem k)) s.mem s'.mem := by
  obtain ⟨k, rfl⟩ := Nat.exists_eq_add_one.mpr hk
  have hmem : IsPage mem := hp mem (mem_pageRun.mpr ⟨0, by omega, by simp⟩)
  obtain ⟨s', hcall, hhead, hlinks, hlast, hwrites⟩ := freePages_run s hmem.2 hsize
  refine ⟨s', hcall, ⟨?_, ?_⟩, hwrites⟩
  · rw [pageRun_succ, List.forall_mem_append, List.forall_mem_singleton] at hp hfresh
    rw [hhead, pageRun_succ, List.append_assoc]
    refine linked_pageRun (fun x hx => (hp.1 x hx).1) hlinks (Linked.cons ?_ hp.2.1)
    rw [hlast]
    -- the stores hit the pages of the run, not those of the list
    refine h.linked.congr fun x hx => hwrites.load32_eq
      (disjoint_linkWords (h.pages x hx).2 (fun q hq => ?_) fun hxr => ?_)
    · obtain ⟨i, -, rfl⟩ := mem_pageRun.mp hq
      exact toNat_page_mod hmem.2 i
    · rw [pageRun_succ, List.mem_append, List.mem_singleton] at hxr
      rcases hxr with hxr | rfl
      · exact hfresh.1 x hxr hx
      · exact hfresh.2 hx
  · exact List.forall_mem_append.mpr ⟨hp, h.pages⟩

/-- The linking loop never meets an end that is no whole number of pages away. -/
theorem freePagesLoop_none {endAddr : Word} {m : Memory}
    (h : ¬ 4096 ∣ (endAddr - mem).toNat) (fuel : Nat) :
    freePagesLoop endAddr fuel mem m = none := by
  induction fuel generalizing mem m with
  | zero => rfl
  | succ fuel ih =>
    have hne : mem + pageSize ≠ endAddr := by
      simp only [pageSize]
      bv_omega
    rw [freePagesLoop, if_pos hne]
    apply ih
    simp only [pageSize]
    bv_omega

/-- `free_pages` does not return on a size that is no whole number of pages. -/
theorem freePages_none (h : ¬ 4096 ∣ size.toNat) (fuel : Nat) :
    freePages fuel mem size s = none := by
  have hne : size ≠ 0 := by
    rintro rfl
    exact h (dvd_zero _)
  have hdist : mem + size - mem = size := by bv_omega
  simp only [freePages, if_neg hne, Option.map_eq_none_iff]
  exact freePagesLoop_none (by rwa [hdist]) fuel

/-- What `free_pages` is given becomes the head of the list. -/
theorem freePages_freelist {fuel : Nat} (hne : size ≠ 0)
    (hr : freePages fuel mem size s = some s') : s'.freelist = mem := by
  simp only [freePages, if_neg hne] at hr
  obtain ⟨_, _, rfl⟩ := Option.map_eq_some_iff.mp hr
  rfl

end PageState

end DmfOs
