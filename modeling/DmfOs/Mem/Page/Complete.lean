import DmfOs.Mem.Page.Transfer
import Mathlib.Algebra.Group.Nat.Even

/-!
# Which runs the scan finds

The node that breaks a candidate is passed by without being tried as a start
of its own. A run of the requested length is therefore seen exactly when the
candidates broken directly in front of it come in an even number: each second
one of them is passed by. `Behind` counts these, and `InReach` says that a list
holds a run behind an even number of them.
-/

namespace DmfOs

variable {n m m' k k' : Nat} {p q q' x : Word} {A A' B P L : List Word}

/-! ## Incomplete runs -/

/-- From `q`, where `n` pages could start, only `m` consecutive ones are there. -/
structure Incomplete (n : Nat) (q : Word) (m : Nat) : Prop where
  pos : 0 < m
  short : m < n
  aligned : 4096 * n ∣ q.toNat

/-- The list ends in `k` incomplete runs that stand directly one behind another. -/
inductive Behind (n : Nat) : Nat → List Word → Prop
  /-- No incomplete run ends the list. -/
  | none {A : List Word} (h : ∀ A' q m, A = A' ++ pageRun q m → ¬ Incomplete n q m) :
      Behind n 0 A
  /-- One more incomplete run. -/
  | incomplete {k : Nat} {A : List Word} {q : Word} {m : Nat} (hi : Incomplete n q m)
      (h : Behind n k A) : Behind n (k + 1) (A ++ pageRun q m)

/-- An even number of incomplete runs ends the list. -/
def EvenBehind (n : Nat) (A : List Word) : Prop := ∃ k, Even k ∧ Behind n k A

/-- The list holds `n` consecutive pages of which the first is naturally aligned. -/
def HasRun (n : Nat) (L : List Word) : Prop :=
  ∃ A p B, L = A ++ pageRun p n ++ B ∧ 4096 * n ∣ p.toNat

/-- The list holds such a run behind an even number of incomplete ones. -/
def InReach (n : Nat) (L : List Word) : Prop :=
  ∃ A p B, L = A ++ pageRun p n ++ B ∧ 4096 * n ∣ p.toNat ∧ EvenBehind n A

/-- A naturally aligned block does not wrap. -/
theorem toNat_page_of_dvd (hd : 4096 * n ∣ 2 ^ 32) (hq : 4096 * n ∣ q.toNat) {i : Nat}
    (hi : i < n) : (q + pageSize * BitVec.ofNat 32 i).toNat = q.toNat + 4096 * i := by
  have := q.isLt
  have hle : 4096 * n ≤ 2 ^ 32 - q.toNat := Nat.le_of_dvd (by omega) (Nat.dvd_sub hd hq)
  exact toNat_page (by omega) hi

/-- The last page of a run at the end of a list. -/
theorem snoc_eq_append_pageRun {i : Nat} (h : P ++ [x] = A ++ pageRun q (i + 1)) :
    P = A ++ pageRun q i ∧ x = q + pageSize * BitVec.ofNat 32 i := by
  rw [pageRun_succ, ← List.append_assoc] at h
  obtain ⟨hP, hx⟩ := List.append_inj' h rfl
  exact ⟨hP, List.singleton_inj.mp hx⟩

/-- A list ends in one run at most that is short of the requested length. -/
theorem Incomplete.unique (hd : 4096 * n ∣ 2 ^ 32) (hi : Incomplete n q m)
    (hi' : Incomplete n q' m') (h : A ++ pageRun q m = A' ++ pageRun q' m') :
    A = A' ∧ q = q' ∧ m = m' := by
  obtain ⟨i, rfl⟩ := Nat.exists_eq_add_one.mpr hi.pos
  obtain ⟨j, rfl⟩ := Nat.exists_eq_add_one.mpr hi'.pos
  have hlt := hi.short
  have hlt' := hi'.short
  -- the last page determines the block and the place in it
  have hlast : q + pageSize * BitVec.ofNat 32 i = q' + pageSize * BitVec.ofNat 32 j := by
    rw [pageRun_succ q, ← List.append_assoc] at h
    exact (snoc_eq_append_pageRun h).2
  have hnat := congrArg BitVec.toNat hlast
  rw [toNat_page_of_dvd hd hi.aligned (by omega), toNat_page_of_dvd hd hi'.aligned (by omega)]
    at hnat
  have hij : i = j := by
    have hmod := congrArg (· % (4096 * n)) hnat
    simp only [Nat.add_mod, Nat.mod_eq_zero_of_dvd hi.aligned,
      Nat.mod_eq_zero_of_dvd hi'.aligned, Nat.zero_add, Nat.mod_mod] at hmod
    rw [Nat.mod_eq_of_lt (by omega), Nat.mod_eq_of_lt (by omega)] at hmod
    omega
  obtain rfl := hij
  obtain rfl : q = q' := BitVec.eq_of_toNat_eq (by omega)
  exact ⟨List.append_cancel_right h, rfl, rfl⟩

/-- In front of an incomplete run there is one fewer. -/
theorem Behind.of_append (hd : 4096 * n ∣ 2 ^ 32) (hi : Incomplete n q m)
    (h : Behind n k (A ++ pageRun q m)) : ∃ j, k = j + 1 ∧ Behind n j A := by
  generalize hP : A ++ pageRun q m = P at h
  cases h with
  | none hno => exact absurd hi (hno A q m hP.symm)
  | @incomplete j A' q' m' hi' h' =>
    obtain ⟨rfl, -, -⟩ := hi.unique hd hi' hP
    exact ⟨j, rfl, h'⟩

/-- The list determines the number. -/
theorem Behind.unique (hd : 4096 * n ∣ 2 ^ 32) (h : Behind n k P) (h' : Behind n k' P) :
    k = k' := by
  induction h generalizing k' with
  | none hno =>
    cases h' with
    | none _ => rfl
    | @incomplete j A q m hi _ => exact absurd hi (hno A q m rfl)
  | incomplete hi _ ih =>
    obtain ⟨j, rfl, hj⟩ := h'.of_append hd hi
    rw [ih hj]

/-- In front of an incomplete run the parity is the other one. -/
theorem not_evenBehind_append (hd : 4096 * n ∣ 2 ^ 32) (hi : Incomplete n q m)
    (h : EvenBehind n A) : ¬ EvenBehind n (A ++ pageRun q m) := by
  rintro ⟨k', hk', h'⟩
  obtain ⟨k, hk, hA⟩ := h
  obtain rfl := (Behind.incomplete hi hA).unique hd h'
  exact (Nat.even_add_one.mp hk') hk

/-- An incomplete run that ends in a page which is no start was there without it. -/
theorem Incomplete.of_snoc (hi : Incomplete n q m) (hx : ¬ 4096 * n ∣ x.toNat)
    (h : P ++ [x] = A ++ pageRun q m) :
    ∃ i, m = i + 1 ∧ P = A ++ pageRun q i ∧ x = q + pageSize * BitVec.ofNat 32 i ∧
      Incomplete n q i := by
  obtain ⟨i, rfl⟩ := Nat.exists_eq_add_one.mpr hi.pos
  obtain ⟨hP, rfl⟩ := snoc_eq_append_pageRun h
  refine ⟨i, rfl, hP, rfl, Nat.pos_of_ne_zero ?_, by have := hi.short; omega, hi.aligned⟩
  rintro rfl
  exact hx (by simpa using hi.aligned)

/-- A page that is no start, passed by, leaves the parity even. -/
theorem EvenBehind.pass (hd : 4096 * n ∣ 2 ^ 32) (h : EvenBehind n P)
    (hx : ¬ 4096 * n ∣ x.toNat) : EvenBehind n (P ++ [x]) := by
  by_cases hend : ∃ A q m, P ++ [x] = A ++ pageRun q m ∧ Incomplete n q m
  · -- it goes on with the incomplete run at the end
    obtain ⟨A, q, m, hPx, hi⟩ := hend
    obtain ⟨i, rfl, rfl, -, hi'⟩ := hi.of_snoc hx hPx
    obtain ⟨k, hk, hP⟩ := h
    obtain ⟨j, rfl, hj⟩ := hP.of_append hd hi'
    rw [hPx]
    exact ⟨j + 1, hk, .incomplete hi hj⟩
  · exact ⟨0, Even.zero, .none fun A q m hPx hi => hend ⟨A, q, m, hPx, hi⟩⟩

/-- The page that breaks an incomplete run makes the parity even again: either it ends
in no incomplete run, or in one of its own. -/
theorem EvenBehind.abandon (hd : 4096 * n ∣ 2 ^ 32) (h : EvenBehind n A) (hi : Incomplete n q m)
    (hx : x ≠ q + pageSize * BitVec.ofNat 32 m) : EvenBehind n (A ++ pageRun q m ++ [x]) := by
  by_cases hal : 4096 * n ∣ x.toNat
  · obtain ⟨k, hk, hA⟩ := h
    have hone : Incomplete n x 1 :=
      ⟨by decide, by have := hi.pos; have := hi.short; omega, hal⟩
    refine ⟨k + 2, Nat.even_add.mpr (iff_of_true hk even_two), ?_⟩
    rw [← pageRun_one]
    exact .incomplete hone (.incomplete hi hA)
  · refine ⟨0, Even.zero, .none fun A' q' m' hPx hi' => ?_⟩
    obtain ⟨i, rfl, hP, hxi, hi''⟩ := hi'.of_snoc hal hPx
    obtain ⟨-, rfl, rfl⟩ := hi.unique hd hi'' hP
    exact hx hxi

/-! ## The scan -/

namespace PageState

variable {s : PageState} {order prev next : Word} {v : ScanVars} {C : List Word}

/-- The blocks of an order below 20 divide the address space. -/
theorem orderPages_dvd (ho : order.toNat % 32 < 20) :
    4096 * (orderPages order).toNat ∣ 2 ^ 32 := by
  rw [toNat_orderPages, show 4096 = 2 ^ 12 from rfl, ← pow_add]
  exact Nat.pow_dvd_pow 2 (by omega)

/-- Behind the visited nodes either no run is open and the parity is even, or it was even
in front of the open run. -/
def EvenTracks (order : Word) (P : List Word) (v : ScanVars) : Prop :=
  (v.run = 0 ∧ EvenBehind (orderPages order).toNat P) ∨
    ∃ A k, 0 < k ∧ k < (orderPages order).toNat ∧ OpenRun (orderMask order) P v A k ∧
      EvenBehind (orderPages order).toNat A

/-- An open run that is short of the requested length is an incomplete one. -/
theorem OpenRun.incomplete (ho : order.toNat % 32 < 20) {A : List Word} {k : Nat}
    (h : OpenRun (orderMask order) P v A k) (hk : 0 < k) (hlt : k < (orderPages order).toNat) :
    Incomplete (orderPages order).toNat v.runStart k :=
  ⟨hk, hlt, (and_orderMask_eq_zero ho _).mp h.aligned⟩

/-- A node leaves the parity even, unless it completes a run. -/
theorem EvenTracks.track (ho : order.toNat % 32 < 20) (ht : EvenTracks order P v)
    (hprev : prev = P.getLastD 0) (x next : Word) :
    EvenTracks order (P ++ [x]) (v.track (orderMask order) prev x next) ∨
      ∃ A, OpenRun (orderMask order) (P ++ [x]) (v.track (orderMask order) prev x next) A
        (orderPages order).toNat ∧ EvenBehind (orderPages order).toNat A := by
  have hn := (orderPages order).isLt
  rcases ht with ⟨h0, hev⟩ | ⟨A, k, hk, hlt, hop, hev⟩
  · by_cases hal : x &&& orderMask order = 0
    · have hstart := OpenRun.start next h0 hal hprev
      rcases Nat.lt_or_eq_of_le (orderPages_pos order) with hone | hone
      · exact Or.inl (Or.inr ⟨P, 1, by decide, hone, hstart, hev⟩)
      · rw [← hone]
        exact Or.inr ⟨P, hstart, hone ▸ hev⟩
    · refine Or.inl (Or.inl ⟨ScanVars.track_pass _ _ h0 hal, hev.pass (orderPages_dvd ho) ?_⟩)
      rwa [← and_orderMask_eq_zero ho]
  · have hrun : v.run ≠ 0 := hop.run_ne_zero hk (by omega)
    by_cases hnext : x = v.runNextPa
    · have hext := hop.extend prev next hrun hnext
      rcases Nat.lt_or_eq_of_le (Nat.succ_le_of_lt hlt) with hmore | hfull
      · exact Or.inl (Or.inr ⟨A, k + 1, by omega, hmore, hext, hev⟩)
      · exact Or.inr ⟨A, hfull ▸ hext, hev⟩
    · refine Or.inl (Or.inl ⟨ScanVars.track_abandon _ _ _ hrun hnext, ?_⟩)
      rw [hop.visited]
      exact hev.abandon (orderPages_dvd ho) (hop.incomplete ho hk hlt) (hop.next_eq ▸ hnext)

/-- While the parity is even no run of the requested length is open. -/
theorem EvenTracks.run_ne (ht : EvenTracks order P v) : v.run ≠ orderPages order := by
  have hn := (orderPages order).isLt
  have hpos := orderPages_pos order
  rcases ht with ⟨h0, -⟩ | ⟨A, k, hk, hlt, hop, -⟩
  · rw [h0]
    bv_omega
  · rw [hop.run_eq]
    bv_omega

theorem OpenRun.run_full {A : List Word}
    (h : OpenRun (orderMask order) P v A (orderPages order).toNat) : v.run = orderPages order := by
  rw [h.run_eq, BitVec.ofNat_toNat, BitVec.setWidth_eq]

/-- The last page of a run in reach completes it. -/
theorem EvenTracks.complete (ho : order.toNat % 32 < 20) (ht : EvenTracks order P v)
    (hprev : prev = P.getLastD 0) (hP : P ++ [x] = A ++ pageRun p (orderPages order).toNat)
    (hp : 4096 * (orderPages order).toNat ∣ p.toNat)
    (hev : EvenBehind (orderPages order).toNat A) :
    (v.track (orderMask order) prev x next).run = orderPages order := by
  have hn := (orderPages order).isLt
  obtain ⟨i, hi⟩ := Nat.exists_eq_add_one.mpr (orderPages_pos order)
  obtain ⟨hPi, hx⟩ := snoc_eq_append_pageRun (hi ▸ hP)
  refine OpenRun.run_full (P := P ++ [x]) (A := A) ?_
  rcases Nat.eq_zero_or_pos i with rfl | hpos
  · -- a single page starts and completes the run
    have hPA : P = A := by simpa using hPi
    have hxp : x = p := by simpa using hx
    rcases ht with ⟨h0, -⟩ | ⟨B, k, hk, hlt, -, -⟩
    · rw [hi, ← hPA]
      exact .start next h0 ((and_orderMask_eq_zero ho _).mpr (hxp ▸ hp)) hprev
    · omega
  · have hinc : Incomplete (orderPages order).toNat p i := ⟨hpos, by omega, hp⟩
    rcases ht with ⟨-, hevP⟩ | ⟨B, k, hk, hlt, hop, -⟩
    · exact absurd (hPi ▸ hevP) (not_evenBehind_append (orderPages_dvd ho) hinc hev)
    · -- the open run is the one that the page completes
      obtain ⟨rfl, hstart, rfl⟩ := (hop.incomplete ho hk hlt).unique (orderPages_dvd ho) hinc
        (hop.visited.symm.trans hPi)
      rw [hi]
      exact hop.extend prev next (hop.run_ne_zero hk (by omega)) (by rw [hop.next_eq, hstart, hx])

/-- A node that completes no run brings none in reach. -/
theorem EvenTracks.inReach_snoc (ho : order.toNat % 32 < 20) (ht : EvenTracks order P v)
    (hprev : prev = P.getLastD 0)
    (hrun : (v.track (orderMask order) prev x next).run ≠ orderPages order)
    (h : InReach (orderPages order).toNat (P ++ [x])) :
    InReach (orderPages order).toNat P := by
  obtain ⟨A, p, B, hP, hp, hev⟩ := h
  rcases List.eq_nil_or_concat B with rfl | ⟨B, y, rfl⟩
  · rw [List.append_nil] at hP
    exact absurd (ht.complete ho hprev hP hp hev) hrun
  · rw [List.concat_eq_append, ← List.append_assoc] at hP
    exact ⟨A, p, B, (List.append_inj' hP rfl).1, hp, hev⟩

/-- The scan from any node on returns a run exactly when one is in reach. -/
theorem allocPagesLoop_inReach (ho : order.toNat % 32 < 20)
    (hC : Linked s.mem.load32 0 v.next C) (hcurr : v.curr = P.getLastD 0)
    (hpages : ∀ q ∈ P ++ C, IsPage q) (ht : EvenTracks order P v)
    (hP : ¬ InReach (orderPages order).toNat P) {fuel : Nat} {r : Word × PageState}
    (hr : allocPagesLoop (orderPages order) (orderMask order) fuel v s = some r) :
    r.1 ≠ 0 ↔ InReach (orderPages order).toNat (P ++ C) := by
  induction C generalizing P v fuel with
  | nil =>
    cases fuel with
    | zero => cases hr
    | succ fuel =>
      rw [allocPagesLoop_end hC, Option.some.injEq] at hr
      rw [← hr, List.append_nil]
      exact iff_of_false (fun h => h rfl) hP
  | cons x C ih =>
    obtain ⟨hx, hne, hC⟩ := hC
    cases fuel with
    | zero => cases hr
    | succ fuel =>
      rw [allocPagesLoop_node hx hne] at hr
      dsimp only at hr
      obtain ⟨htn, htc⟩ := ScanVars.track_next v (orderMask order) v.curr x (s.mem.load32 x)
      rw [← List.singleton_append, ← List.append_assoc] at hpages ⊢
      rcases ht.track ho hcurr x (s.mem.load32 x) with ht' | ⟨A, hop, hev⟩
      · rw [if_neg ht'.run_ne] at hr
        refine ih (by rw [htn]; exact hC) (by rw [htc]; simp) hpages ht' ?_ hr
        exact fun h => hP (ht.inReach_snoc ho hcurr ht'.run_ne h)
      · rw [if_pos hop.run_full, Option.some.injEq] at hr
        generalize v.track (orderMask order) v.curr x (s.mem.load32 x) = u at hop hr
        have hstart : u.runStart ∈ P ++ [x] := by
          rw [hop.visited]
          exact List.mem_append_right _ (mem_pageRun.mpr ⟨0, orderPages_pos order, by simp⟩)
        rw [← hr]
        refine iff_of_true (hpages _ (List.mem_append_left _ hstart)).1
          ⟨A, u.runStart, C, by rw [← hop.visited], ?_, hev⟩
        exact (and_orderMask_eq_zero ho _).mp hop.aligned

/-- `alloc_pages` returns a run exactly when one is in reach. -/
theorem FreeList.allocPages_ne_null (h : s.FreeList L) (ho : order.toNat % 32 < 20)
    {fuel : Nat} {s' : PageState} (hr : PageState.allocPages fuel order s = some (p, s')) :
    p ≠ 0 ↔ InReach (orderPages order).toNat L := by
  refine allocPagesLoop_inReach (P := []) ho h.linked rfl (by simpa using h.pages)
    (Or.inl ⟨rfl, 0, Even.zero, .none fun A q m hA hi => ?_⟩) ?_ hr
  · have := congrArg List.length hA
    have := hi.pos
    simp only [List.length_nil, List.length_append, length_pageRun] at *
    omega
  · rintro ⟨A, p, B, hA, -⟩
    have := congrArg List.length hA
    have := orderPages_pos order
    simp only [List.length_nil, List.length_append, length_pageRun] at *
    omega

/-- On every free list a run that is there is returned if and only if, when there is one, one
is in reach: behind an even number of incomplete runs. -/
theorem FreeList.allocPages_complete_iff (h : s.FreeList L) (ho : order.toNat < 20) :
    (HasRun (orderPages order).toNat L →
        ∃ fuel p s', PageState.allocPages fuel order s = some (p, s') ∧ p ≠ 0) ↔
      (HasRun (orderPages order).toNat L → InReach (orderPages order).toNat L) := by
  have ho' : order.toNat % 32 < 20 := by omega
  refine imp_congr_right fun _ => ⟨?_, fun hreach => ?_⟩
  · rintro ⟨fuel, p, s', hr, hp⟩
    exact (h.allocPages_ne_null ho' hr).mp hp
  · obtain ⟨⟨p, s'⟩, hr⟩ := (h.allocPages order (L.length + 1)).1 (Nat.lt_succ_self _)
    exact ⟨L.length + 1, p, s', hr, (h.allocPages_ne_null ho' hr).mpr hreach⟩

/-- Three free pages, the last two of them an aligned pair, behind a single page. -/
def brokenPair : PageState where
  mem := ((Memory.store32 ⟨fun _ => 0, []⟩ 0x200000 0x204000).store32 0x204000 0x205000).store32
    0x205000 0
  freelist := 0x200000

theorem brokenPair_freeList : brokenPair.FreeList [0x200000, 0x204000, 0x205000] :=
  ⟨by decide, by simp [IsPage]⟩

/-- The pair without the page in front of it. -/
theorem allocPages_complete_iff_pair :
    (HasRun (orderPages 1).toNat [0x204000, 0x205000] →
        ∃ fuel p s', allocPages fuel 1 { brokenPair with freelist := 0x204000 } = some (p, s') ∧
          p ≠ 0) ↔
      (HasRun (orderPages 1).toNat [0x204000, 0x205000] →
        InReach (orderPages 1).toNat [0x204000, 0x205000]) :=
  FreeList.allocPages_complete_iff ⟨by decide, by simp [IsPage]⟩ (by decide)

/-- The page `0x204000` breaks the candidate `0x200000` and is not tried itself. -/
theorem not_allocPages_complete :
    ¬ ∀ (s : PageState) (L : List Word) (order : Word), s.FreeList L → order.toNat < 20 →
      HasRun (orderPages order).toNat L →
      ∃ fuel p s', allocPages fuel order s = some (p, s') ∧ p ≠ 0 := by
  intro hall
  obtain ⟨fuel, p, s', hr, hp⟩ := hall brokenPair _ 1 brokenPair_freeList (by decide)
    ⟨[0x200000], 0x204000, [], by decide, by decide⟩
  have hnull : allocPages 4 1 brokenPair = some (0, brokenPair) := rfl
  match fuel with
  | 0 | 1 | 2 | 3 => cases hr
  | fuel + 4 =>
    have he : allocPages (fuel + 4) 1 brokenPair = some (0, brokenPair) := rfl
    exact hp (Prod.mk.inj (Option.some.inj (hr.symm.trans he))).1

end PageState

end DmfOs
