import DmfOs.Vm.Run

/-!
# Progress of resumed exits

`exit_handler` resumes the guest after every exit that is no hypercall and no
EPT violation, but only some of its cases move the guest's instruction pointer
or page directory. An exit that the guest itself caused is resumed with progress
exactly when its reason is one of those.
-/

namespace DmfOs.Vm

variable {s : Vm} {o : EntryOutcome}

/-- The basic exit reason. -/
def basicReason (s : Vm) : Word := s.fields .exiReason &&& 0xffff

/-- An exit that the guest caused: no external interrupt, no NMI and no window for
one of them. -/
structure GuestExit (s : Vm) : Prop where
  current : s.current = true
  instLen : 1 ≤ (s.fields .exiInstLen).toNat ∧ (s.fields .exiInstLen).toNat ≤ 15
  notExtint : basicReason s ≠ 1
  notWindow : basicReason s ≠ 7 ∧ basicReason s ≠ 8
  notNmi : ¬ (basicReason s = 0 ∧ (s.fields .exiIntrInfo >>> 8) &&& 7 = 2)

/-- The guest continues elsewhere or in another address space. -/
def Moved (s s' : Vm) : Prop :=
  s'.fields .guestRip ≠ s.fields .guestRip ∨ s'.fields .guestCr3 ≠ s.fields .guestCr3

/-- An exit caused by the guest is resumed with progress only, and a triple fault not at all. -/
def ExitProgresses (s : Vm) : Prop :=
  GuestExit s → (s.exitHandler.1 = .resume → Moved s s.exitHandler.2) ∧
    (basicReason s = 2 → s.exitHandler.1 ≠ .resume)

/-- A reason whose case moves the guest or ends the run. -/
def HasCase (s : Vm) : Prop :=
  exitReason s ∈ [10, 12, 14, 18, 28, 29, 48] ∨
    exitReason s = 0 ∧ exitVector s = 14 ∧ s.fields .guestCr3 ≠ s.cr3

/-- An exit caused by the guest has such a reason. -/
def ExitHasCase (s : Vm) : Prop := GuestExit s → HasCase s

/-- A round whose VM exit the guest caused goes on with progress only, and after a
triple fault not at all. -/
def RoundProgresses (s : Vm) : EntryOutcome → Prop
  | .exit e => GuestExit (s.atExitHandler (.exit e)) →
      ((s.vmxRunBody (.exit e)).1 = .again →
        Moved (s.atExitHandler (.exit e)) (s.vmxRunBody (.exit e)).2) ∧
      (basicReason (s.atExitHandler (.exit e)) = 2 → (s.vmxRunBody (.exit e)).1 ≠ .again)
  | _ => True

/-- A VM exit of the round that the guest caused has a reason with such a case. -/
def RoundHasCase (s : Vm) : EntryOutcome → Prop
  | .exit e => ExitHasCase (s.atExitHandler (.exit e))
  | _ => True

theorem exitReason_of_basicReason (s : Vm) : exitReason s = basicReason s &&& 0xff := by
  rw [exitReason, basicReason, BitVec.and_assoc]
  rfl

/-- A triple fault has no case of its own. -/
theorem HasCase.not_tripleFault (h : HasCase s) : basicReason s ≠ 2 := by
  intro h2
  have hr : exitReason s = 2 := by rw [exitReason_of_basicReason, h2]; rfl
  rcases h with hmem | ⟨h0, _⟩
  · rw [hr] at hmem
    exact absurd hmem (by decide)
  · exact absurd (hr.symm.trans h0) (by decide)

/-- The instruction pointer moves for the reasons that advance it. -/
theorem ripAdvance_ne_zero_iff {reason instLen : Word} (hlen : 1 ≤ instLen.toNat) :
    ripAdvance reason instLen ≠ 0 ↔ reason ∈ [10, 12, 14, 28, 29] := by
  have hne : instLen ≠ 0 := by
    rintro rfl
    exact absurd hlen (by decide)
  simp only [ripAdvance, List.mem_cons, List.not_mem_nil, or_false]
  split_ifs with h10 h12 hlen'
  · exact iff_of_true (by decide) (.inl h10)
  · exact iff_of_true (by decide) (.inr (.inl h12))
  · exact iff_of_true hne (.inr (.inr hlen'))
  · refine iff_of_false (fun h => h rfl) ?_
    rintro (h | h | h)
    · exact h10 h
    · exact h12 h
    · exact hlen' h

/-- A resumed exit moves the guest exactly when its reason has a case. -/
theorem moved_iff_of_resumed (hg : GuestExit s) (hcall : exitReason s ≠ 18)
    (hept : exitReason s ≠ 48) : Moved s s.exitHandler.2 ↔ HasCase s := by
  obtain ⟨_, hrip, hcr3⟩ := exitHandler_resumed hg.current hcall hept
  have hadv : s.exitHandler.2.fields .guestRip ≠ s.fields .guestRip ↔
      exitReason s ∈ [10, 12, 14, 28, 29] := by
    rw [hrip, ← ripAdvance_ne_zero_iff hg.instLen.1]
    exact not_congr BitVec.add_right_eq_self
  have hdir : s.exitHandler.2.fields .guestCr3 ≠ s.fields .guestCr3 ↔
      exitReason s = 0 ∧ exitVector s = 14 ∧ s.fields .guestCr3 ≠ s.cr3 := by
    rw [hcr3]
    by_cases hpf : exitReason s = 0 ∧ exitVector s = 14
    · simp [hpf, ne_comm]
    · rw [if_neg hpf]
      exact iff_of_false (fun hne => hne rfl) fun hc => hpf ⟨hc.1, hc.2.1⟩
  rw [Moved, HasCase, hadv, hdir]
  refine or_congr_left ?_
  simp only [List.mem_cons, List.not_mem_nil, or_false, hcall, hept, false_or]

/-- A hypercall moves the instruction pointer. -/
theorem moved_of_hypercall (h : s.current = true) (hr : exitReason s = 18) :
    Moved s s.exitHandler.2 := by
  obtain ⟨_, hrip⟩ := exitHandler_hypercall h hr
  refine .inl fun heq => ?_
  rw [hrip] at heq
  bv_omega

/-- `exit_handler` resumes an exit with progress, and never a triple fault, exactly
when the exit has a case. -/
theorem exitProgresses_iff (s : Vm) : ExitProgresses s ↔ ExitHasCase s := by
  refine forall_congr' fun hg => ?_
  by_cases hcall : exitReason s = 18
  · have hcase : HasCase s := .inl (by rw [hcall]; decide)
    exact iff_of_true ⟨fun _ => moved_of_hypercall hg.current hcall,
      fun h2 => absurd h2 hcase.not_tripleFault⟩ hcase
  by_cases hept : exitReason s = 48
  · have hcase : HasCase s := .inl (by rw [hept]; decide)
    refine iff_of_true ⟨fun hres => ?_, fun h2 => absurd h2 hcase.not_tripleFault⟩ hcase
    rw [exitHandler_ept hg.current hept] at hres
    cases hres
  have hres := (exitHandler_resumed hg.current hcall hept).1
  have hiff := moved_iff_of_resumed hg hcall hept
  constructor
  · intro hp
    exact hiff.mp (hp.1 hres)
  · intro hcase
    exact ⟨fun _ => hiff.mpr hcase, fun h2 => absurd h2 hcase.not_tripleFault⟩

/-! ## Rounds of the loop -/

/-- The switch of `vmx_run` writes no field. -/
theorem dispatch_fields (s : Vm) (ret : HandlerRet) (entered : Bool) (failure : VmentryFailure) :
    (s.dispatch ret entered failure).2.fields = s.fields := by
  have hleave (t : Vm) : (t.leaveLoop entered failure).2.fields = t.fields := by
    cases entered with
    | true => simp only [leaveLoop, ite_true, printVmexitInfo, printf_fields]
    | false =>
      simp only [leaveLoop, Bool.false_eq_true, ite_false, printVmentryFailureInfo]
      split_ifs <;> simp only [printf_fields]
  cases ret with
  | start => exact hleave _
  | exit => exact hleave s
  | vmexit => rfl
  | resume => rfl
  | vmabort => rfl
  | vmskip => rfl

/-- The loop goes on after a resumed exit and after a skipping hypercall. -/
theorem dispatch_again_iff (s : Vm) (ret : HandlerRet) (entered : Bool)
    (failure : VmentryFailure) :
    (s.dispatch ret entered failure).1 = .again ↔ ret = .resume ∨ ret = .vmskip := by
  cases ret <;> simp [dispatch, leaveLoop]

/-- What a round does after a VM exit. -/
theorem vmxRunBody_exit {e : VmExit} (h : (s.atExitHandler (.exit e)).current = true) :
    ((s.vmxRunBody (.exit e)).1 = .again ↔
        (s.atExitHandler (.exit e)).exitHandler.1 = .resume ∨
          (s.atExitHandler (.exit e)).exitHandler.1 = .vmskip) ∧
      (s.vmxRunBody (.exit e)).2.fields = (s.atExitHandler (.exit e)).exitHandler.2.fields := by
  have hadmits : EntryOutcome.Admits s (.exit e) :=
    (roundEntry_spec s (.exit e)).1.symm.trans h
  have hentered : (s.roundEntry (.exit e)).1 = true :=
    (roundEntry_fst hadmits).mpr e.entered
  rw [vmxRunBody_entered hentered]
  exact ⟨dispatch_again_iff _ _ _ _, dispatch_fields _ _ _ _⟩

/-- A round goes on with progress after an exit, and never after a triple fault,
exactly when the exit has a case. -/
theorem roundProgresses_iff (s : Vm) (o : EntryOutcome) :
    RoundProgresses s o ↔ RoundHasCase s o := by
  cases o with
  | early f => exact Iff.rfl
  | late f => exact Iff.rfl
  | exit e =>
    refine forall_congr' fun hg => ?_
    obtain ⟨hagain, hfields⟩ := vmxRunBody_exit hg.current
    have hmoved : Moved (s.atExitHandler (.exit e)) (s.vmxRunBody (.exit e)).2 ↔
        Moved (s.atExitHandler (.exit e)) (s.atExitHandler (.exit e)).exitHandler.2 := by
      rw [Moved, Moved, hfields]
    simp only [hagain, hmoved, ne_eq]
    generalize s.atExitHandler (.exit e) = t at hg
    by_cases hcall : exitReason t = 18
    · have hcase : HasCase t := .inl (by rw [hcall]; decide)
      exact iff_of_true ⟨fun _ => moved_of_hypercall hg.current hcall,
        fun h2 => absurd h2 hcase.not_tripleFault⟩ hcase
    -- without a hypercall the loop goes on exactly when the exit is resumed
    have hskip : t.exitHandler.1 ≠ .vmskip := by
      by_cases hept : exitReason t = 48
      · rw [exitHandler_ept hg.current hept]
        decide
      · rw [(exitHandler_resumed hg.current hcall hept).1]
        decide
    have hiff := exitProgresses_iff t
    simp only [ExitProgresses, ExitHasCase, hg, true_implies] at hiff
    simpa only [or_iff_left hskip, ne_eq] using hiff

/-- Exits that the guest caused are resumed with progress, in every state and along
every run of the loop from it, if and only if their reason has a case that moves the
guest or ends the run. -/
theorem progresses_iff_hasCase (s : Vm) (os : List EntryOutcome) :
    (ExitProgresses s ↔ ExitHasCase s) ∧
      (Along Rounds RoundProgresses s os ↔ Along Rounds RoundHasCase s os) := by
  refine ⟨exitProgresses_iff s, ?_⟩
  exact along_iff (fun _ => True) trivial (fun t o _ => roundProgresses_iff t o)
    fun _ _ _ _ _ _ => trivial

/-- A triple fault is resumed where it happened. -/
theorem not_exitProgresses_tripleFault :
    ¬ ExitProgresses { initial ⟨fun _ => 0, []⟩ with
      current := true
      fields := fun e => if e = .exiReason then 2 else if e = .exiInstLen then 3 else 0 } := by
  intro h
  have hg : GuestExit { initial ⟨fun _ => 0, []⟩ with
      current := true
      fields := fun e => if e = .exiReason then 2 else if e = .exiInstLen then 3 else 0 } :=
    ⟨rfl, by decide, by decide, by decide, by decide⟩
  refine (h hg).2 rfl ?_
  exact (exitHandler_resumed rfl (by decide) (by decide)).1

end DmfOs.Vm
