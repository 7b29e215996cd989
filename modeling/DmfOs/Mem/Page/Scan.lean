import DmfOs.Mem.Page.Block

/-!
# The scan of `alloc_pages`

The scan follows the free list once and keeps the run that ends at the current
node. `OpenRun` relates its run variables to the nodes visited so far: the run
is a suffix of them, and `runPrev` is the node in front of it. A completed run
is therefore a contiguous segment of the list, which one link store removes.
-/

namespace DmfOs

namespace PageState

variable {n alignMask : Word} {v : ScanVars} {s : PageState} {L P A B C : List Word}

/-- The last `k` visited nodes form a run that starts at an aligned page. -/
structure OpenRun (alignMask : Word) (P : List Word) (v : ScanVars) (A : List Word) (k : Nat) :
    Prop where
  run_eq : v.run = BitVec.ofNat 32 k
  visited : P = A ++ pageRun v.runStart k
  aligned : v.runStart &&& alignMask = 0
  prev_eq : v.runPrev = A.getLastD 0
  next_eq : v.runNextPa = v.runStart + pageSize * BitVec.ofNat 32 k

/-- Either no run is open, or the run variables describe one of at most `limit` pages. -/
def Tracks (alignMask : Word) (limit : Nat) (P : List Word) (v : ScanVars) : Prop :=
  v.run = 0 ∨ ∃ A k, 0 < k ∧ k ≤ limit ∧ OpenRun alignMask P v A k

variable {prev curr : Word} {k : Nat}

/-- With no run open, an aligned node starts one. -/
theorem OpenRun.start (next : Word) (h0 : v.run = 0) (hal : curr &&& alignMask = 0)
    (hprev : prev = P.getLastD 0) :
    OpenRun alignMask (P ++ [curr]) (v.track alignMask prev curr next) P 1 := by
  simp only [ScanVars.track, h0, ite_true, if_pos hal]
  exact ⟨rfl, by rw [pageRun_one], hal, hprev, by simp⟩

/-- With no run open, another node is passed by. -/
theorem ScanVars.track_pass (prev next : Word) (h0 : v.run = 0) (hal : curr &&& alignMask ≠ 0) :
    (v.track alignMask prev curr next).run = 0 := by
  simp only [ScanVars.track, h0, ite_true, if_neg hal]

/-- The next page extends the open run. -/
theorem OpenRun.extend (prev next : Word) (ho : OpenRun alignMask P v A k) (hrun : v.run ≠ 0)
    (hnext : curr = v.runNextPa) :
    OpenRun alignMask (P ++ [curr]) (v.track alignMask prev curr next) A (k + 1) := by
  simp only [ScanVars.track, if_neg hrun, if_pos hnext]
  refine ⟨?_, ?_, ho.aligned, ho.prev_eq, ?_⟩
  · rw [ho.run_eq]
    bv_omega
  · rw [pageRun_succ, ← ho.next_eq, ← hnext, ← List.append_assoc, ← ho.visited]
  · rw [ho.next_eq]
    simp only [pageSize]
    bv_omega

/-- Another node abandons the open run. -/
theorem ScanVars.track_abandon (alignMask prev next : Word) (hrun : v.run ≠ 0)
    (hnext : curr ≠ v.runNextPa) :
    (v.track alignMask prev curr next).run = 0 := by
  simp only [ScanVars.track, if_neg hrun, if_neg hnext]

/-- A run of at least one page is open. -/
theorem OpenRun.run_ne_zero (ho : OpenRun alignMask P v A k) (hk : 0 < k) (hlt : k < 2 ^ 32) :
    v.run ≠ 0 := by
  rw [ho.run_eq]
  bv_omega

/-- One node starts, extends or abandons the run. -/
theorem Tracks.track {limit : Nat} (ht : Tracks alignMask limit P v)
    (hl : limit + 1 < 2 ^ 32) (hprev : prev = P.getLastD 0) (curr next : Word) :
    Tracks alignMask (limit + 1) (P ++ [curr]) (v.track alignMask prev curr next) := by
  rcases ht with h0 | ⟨A, k, hk, hkl, ho⟩
  · by_cases hal : curr &&& alignMask = 0
    · exact Or.inr ⟨P, 1, by decide, by omega, .start next h0 hal hprev⟩
    · exact Or.inl (ScanVars.track_pass _ _ h0 hal)
  · have hrun : v.run ≠ 0 := ho.run_ne_zero hk (by omega)
    by_cases hnext : curr = v.runNextPa
    · exact Or.inr ⟨A, k + 1, by omega, by omega, ho.extend prev next hrun hnext⟩
    · exact Or.inl (ScanVars.track_abandon _ _ _ hrun hnext)

/-- The node that follows is not touched by the run variables. -/
theorem ScanVars.track_next (v : ScanVars) (alignMask prev curr next : Word) :
    (v.track alignMask prev curr next).next = next ∧
      (v.track alignMask prev curr next).curr = curr := by
  simp only [ScanVars.track]
  split_ifs <;> exact ⟨rfl, rfl⟩

/-- A run of the requested length ends the visited nodes. -/
theorem Tracks.full (hn : 0 < n.toNat) (ht : Tracks alignMask n.toNat P v) (hrun : v.run = n) :
    ∃ A, OpenRun alignMask P v A n.toNat := by
  rcases ht with h0 | ⟨A, k, _, hk, ho⟩
  · rw [h0] at hrun
    rw [← hrun] at hn
    exact absurd hn (Nat.lt_irrefl 0)
  · have hkn : k = n.toNat := by
      have := n.isLt
      rw [← hrun, ho.run_eq, BitVec.toNat_ofNat, Nat.mod_eq_of_lt (by omega)]
    exact ⟨A, hkn ▸ ho⟩

/-- A run of another length is shorter than requested. -/
theorem Tracks.unfinished (ht : Tracks alignMask n.toNat P v) (hrun : v.run ≠ n) :
    Tracks alignMask (n.toNat - 1) P v := by
  rcases ht with h0 | ⟨A, k, hk, hkn, ho⟩
  · exact Or.inl h0
  · refine Or.inr ⟨A, k, hk, ?_, ho⟩
    have hne : k ≠ n.toNat := by
      rintro rfl
      exact hrun (by rw [ho.run_eq, BitVec.ofNat_toNat, BitVec.setWidth_eq])
    omega

/-- The single store that splices out what lies between `A` and `B`. -/
def unlink (s : PageState) (A B : List Word) : PageState :=
  if A.getLastD 0 ≠ 0 then { s with mem := s.mem.store32 (A.getLastD 0) (B.headD 0) }
  else { s with freelist := B.headD 0 }

/-- What a scan over `L` can return: nothing, or a run cut out of the list. -/
def ScanResult (n alignMask : Word) (s : PageState) (L : List Word) (r : Word × PageState) :
    Prop :=
  r = (0, s) ∨ ∃ A B, L = A ++ pageRun r.1 n.toNat ++ B ∧ r.1 &&& alignMask = 0 ∧
    r.2 = s.unlink A B

/-- At the end of the list the scan returns NULL. -/
theorem allocPagesLoop_end (hnext : v.next = 0) (fuel : Nat) :
    allocPagesLoop n alignMask (fuel + 1) v s = some (0, s) := by
  rw [allocPagesLoop, if_pos hnext]

/-- At a node the scan unlinks a completed run or goes on. -/
theorem allocPagesLoop_node {x : Word} (hnext : v.next = x) (hx : x ≠ 0) (fuel : Nat) :
    allocPagesLoop n alignMask (fuel + 1) v s =
      let u := v.track alignMask v.curr x (s.mem.load32 x)
      if u.run = n then
        some (u.runStart,
          if u.runPrev ≠ 0 then { s with mem := s.mem.store32 u.runPrev (s.mem.load32 x) }
          else { s with freelist := s.mem.load32 x })
      else allocPagesLoop n alignMask fuel u s := by
  subst hnext
  rw [allocPagesLoop, if_neg hx]

/-- The scan from any node on ends after the rest of the list and cuts out a run. -/
theorem allocPagesLoop_spec (hn : 0 < n.toNat) (hC : Linked s.mem.load32 0 v.next C)
    (hcurr : v.curr = P.getLastD 0) (ht : Tracks alignMask (n.toNat - 1) P v) (fuel : Nat) :
    (C.length < fuel → ∃ r, allocPagesLoop n alignMask fuel v s = some r) ∧
      ∀ r, allocPagesLoop n alignMask fuel v s = some r →
        ScanResult n alignMask s (P ++ C) r := by
  induction C generalizing P v fuel with
  | nil =>
    cases fuel with
    | zero => exact ⟨by simp, by simp [allocPagesLoop]⟩
    | succ fuel =>
      have he : allocPagesLoop n alignMask (fuel + 1) v s = some (0, s) :=
        allocPagesLoop_end hC fuel
      exact ⟨fun _ => ⟨_, he⟩, fun r hr => Or.inl (Option.some.inj (hr.symm.trans he))⟩
  | cons x C ih =>
    obtain ⟨hx, hne, hC⟩ := hC
    cases fuel with
    | zero => exact ⟨by simp, by simp [allocPagesLoop]⟩
    | succ fuel =>
      -- the run variables after this node
      have ht' := ht.track (by omega) hcurr x (s.mem.load32 x)
      rw [Nat.sub_add_cancel hn] at ht'
      obtain ⟨htn, htc⟩ := ScanVars.track_next v alignMask v.curr x (s.mem.load32 x)
      rw [allocPagesLoop_node hx hne]
      dsimp only
      generalize v.track alignMask v.curr x (s.mem.load32 x) = u at ht' htn htc ⊢
      by_cases hrun : u.run = n
      · refine ⟨fun _ => ⟨_, if_pos hrun⟩, fun r hr => Or.inr ?_⟩
        rw [if_pos hrun, Option.some.injEq] at hr
        obtain ⟨A, ho⟩ := ht'.full hn hrun
        subst r
        refine ⟨A, C, ?_, ho.aligned, ?_⟩
        · rw [← ho.visited, List.append_assoc]
          rfl
        · rw [unlink, ← ho.prev_eq, hC.head_eq]
      · simp only [if_neg hrun]
        have hih := ih (P := P ++ [x]) (v := u) (by rw [htn]; exact hC)
          (by rw [htc]; simp) (ht'.unfinished hrun) fuel
        refine ⟨fun hf => hih.1 (by simpa using hf), fun r hr => ?_⟩
        simpa using hih.2 r hr

/-! ## Answers on any links -/

/-- A run that is being followed starts at an aligned node. -/
theorem ScanVars.track_runStart (hrun : v.run ≠ 0 → v.runStart ≠ 0 ∧ v.runStart &&& alignMask = 0)
    {curr : Word} (hcurr : curr ≠ 0) (prev next : Word)
    (h : (v.track alignMask prev curr next).run ≠ 0) :
    (v.track alignMask prev curr next).runStart ≠ 0 ∧
      (v.track alignMask prev curr next).runStart &&& alignMask = 0 := by
  simp only [ScanVars.track] at h ⊢
  split_ifs at h ⊢ with h0 hal
  · exact ⟨hcurr, hal⟩
  · exact absurd h0 h
  · exact hrun h0
  · exact absurd rfl h

/-- Whatever the links are, the scan returns NULL without having unlinked anything, or an
aligned node. -/
theorem allocPagesLoop_answer {fuel : Nat} {p : Word} {s' : PageState} (hn : n ≠ 0)
    (hrun : v.run ≠ 0 → v.runStart ≠ 0 ∧ v.runStart &&& alignMask = 0)
    (h : allocPagesLoop n alignMask fuel v s = some (p, s')) :
    p = 0 ∧ s' = s ∨ p ≠ 0 ∧ p &&& alignMask = 0 := by
  induction fuel generalizing v with
  | zero => cases h
  | succ fuel ih =>
    by_cases hnext : v.next = 0
    · rw [allocPagesLoop_end hnext] at h
      obtain ⟨rfl, rfl⟩ := Prod.mk.inj (Option.some.inj h)
      exact Or.inl ⟨rfl, rfl⟩
    · rw [allocPagesLoop_node rfl hnext] at h
      have hstart (ht : (v.track alignMask v.curr v.next (s.mem.load32 v.next)).run ≠ 0) :=
        ScanVars.track_runStart hrun hnext _ _ ht
      by_cases hfull : (v.track alignMask v.curr v.next (s.mem.load32 v.next)).run = n
      · simp only [if_pos hfull] at h
        obtain ⟨rfl, -⟩ := Prod.mk.inj (Option.some.inj h)
        exact Or.inr (hstart (hfull ▸ hn))
      · simp only [if_neg hfull] at h
        exact ih hstart h

end PageState

end DmfOs
