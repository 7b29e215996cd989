import DmfOs.Vm.View

/-!
# The hypercall protocol

The guest stores a number in `hypercall_field` and executes VMCALL; the host decides
by the field and clears it. The abstract protocol remembers the number of the call in
progress and gives each VMCALL one verdict. The host follows it on whole runs, with
the number reduced to the bits of `HYPERCALL_MASK`.
-/

namespace DmfOs

/-- `HYPERCALL_BIT`. -/
def hypercallBit : Word := 1 <<< 12

/-- `hypercall` up to its VMCALL, run by the guest with the number in `edi`. -/
def Vm.hypercall (s : Vm) : Vm :=
  let actualNo := s.gpr.edi
  let val := (actualNo &&& hypercallMask) ||| hypercallBit
  ({ s with hypercallField := val }).printf "hypercall: %d\n" [.num actualNo]

/-- What the guest does between an entry and the next exit: it may begin a call of
`hypercall`, of which the VMCALL is the exit or comes after further exits. -/
structure GuestStep where
  calls : Option Word
  exit : VmExit

namespace GuestStep

/-- The hypercall field when the guest leaves. -/
def storedField (s : Vm) : Option Word → Word
  | some n => ({ s with gpr.edi := n } : Vm).hypercall.hypercallField
  | none => s.hypercallField

/-- The exit is a VMCALL. -/
def IsVmcall (g : GuestStep) : Prop := g.exit.fields .exiReason &&& 0xff = vmxVmcall

instance (g : GuestStep) : Decidable g.IsVmcall := inferInstanceAs (Decidable (_ = _))

/-- The guest writes the field in `hypercall` only, and leaves with a VMCALL or an
exit that is resumed. -/
structure Possible (g : GuestStep) (s : Vm) : Prop where
  field : g.exit.hypercallField = storedField s g.calls
  reason : g.exit.fields .exiReason &&& 0xff ≠ 48

/-- The number of the call in progress at the exit. -/
def passed (g : GuestStep) (pending : Option Word) : Option Word := g.calls.or pending

end GuestStep

/-- The verdict that a VMCALL asks for; without a call of `hypercall` it is invalid. -/
def Verdict.asked (number : Word → Verdict) : Option Word → Verdict
  | some n => number n
  | none => .invalid

/-- The number of a call in progress and the verdicts so far, latest first. -/
structure Protocol where
  pending : Option Word
  verdicts : List Verdict

namespace Protocol

/-- One verdict for each VMCALL, by the number of its call. -/
def step (number : Word → Verdict) (p : Protocol) (g : GuestStep) : Protocol :=
  if g.IsVmcall then ⟨none, .asked number (g.passed p.pending) :: p.verdicts⟩
  else ⟨g.passed p.pending, p.verdicts⟩

/-- The protocol on what the guest does. -/
def run (number : Word → Verdict) (gs : List GuestStep) : Protocol :=
  gs.foldl (step number) ⟨none, []⟩

theorem run_concat (number : Word → Verdict) (gs : List GuestStep) (g : GuestStep) :
    run number (gs ++ [g]) = (run number gs).step number g := by
  rw [run, List.foldl_append]
  rfl

/-- A round of the loop with what the guest does in it. -/
def GuestRound (t : Flow × Vm) (g : GuestStep) (u : Flow × Vm) : Prop :=
  t.1 = .again ∧ g.Possible t.2 ∧ u = t.2.vmxRunBody (.exit g.exit)

/-- The host has given the verdicts of the protocol, each once and in order, and acts
by them: after an exit or an abort the guest is finished, after anything but a skip the
loop ends, and every VMCALL is left behind. -/
structure Follows (number : Word → Verdict) (s₀ : Vm) (gs : List GuestStep) (u : Flow × Vm) :
    Prop where
  verdicts : u.2.verdicts = (run number gs).verdicts ++ s₀.verdicts
  finished : u.2.guestFinished = true ↔
    .exit ∈ (run number gs).verdicts ∨ .abort ∈ (run number gs).verdicts
  again : u.1 = .again ↔ ∀ v ∈ (run number gs).verdicts, v = .skip
  behind : ∀ t g, GuestRound t g u → g.IsVmcall →
    u.2.fields .guestRip = g.exit.fields .guestRip + 3

/-- The verdict on a number as `handle_hypercall` reads it. -/
def masked (n : Word) : Verdict := .ofNumber (n &&& hypercallMask)

/-! ## One round -/

variable {s s₀ : Vm} {g : GuestStep} {gs : List GuestStep} {t u : Flow × Vm}

/-- The marker bit is lost again, and so are the higher bits of the number. -/
theorem storedField_masked (s : Vm) (n : Word) :
    GuestStep.storedField s (some n) &&& hypercallMask = n &&& hypercallMask := by
  have hbit : hypercallBit &&& hypercallMask = 0 := by decide
  change ((n &&& hypercallMask) ||| hypercallBit) &&& hypercallMask = n &&& hypercallMask
  rw [BitVec.and_or_distrib_right, hbit, BitVec.and_assoc, BitVec.and_self]
  exact BitVec.or_zero

/-- What the round of a VM exit makes of the view. -/
theorem round_exit (hcur : s.current = true) (e : VmExit) :
    s.vmxRunBody (.exit e) = (s.atExitHandler (.exit e)).exitHandler.2.dispatch
        (s.atExitHandler (.exit e)).exitHandler.1 true (s.roundEntry (.exit e)).2.1 ∧
      (s.atExitHandler (.exit e)).hypercallField = e.hypercallField ∧
      (s.atExitHandler (.exit e)).guestFinished = s.guestFinished ∧
      (s.atExitHandler (.exit e)).verdicts = s.verdicts := by
  have hview := Vm.view_roundEntry s (.exit e)
  exact ⟨Vm.vmxRunBody_entered ((Vm.roundEntry_fst (o := .exit e) hcur).mpr e.entered),
    congrArg View.hypercallField hview, congrArg View.guestFinished hview,
    congrArg View.verdicts hview⟩

theorem isHypercall_atExitHandler (hcur : s.current = true) (e : VmExit) :
    (s.atExitHandler (.exit e)).isHypercall = true ↔
      e.fields .exiReason &&& 0xff = vmxVmcall := by
  rw [Vm.isHypercall_iff ((Vm.atExitHandler_current _ _).trans hcur), Vm.exitReason,
    Vm.atExitHandler_exit _ _ (by decide)]
  rfl

/-- A VMCALL gets one verdict, by the field, which is cleared. -/
theorem round_vmcall (hcur : s.current = true) {e : VmExit}
    (hcall : e.fields .exiReason &&& 0xff = vmxVmcall) :
    let v := Verdict.ofNumber (e.hypercallField &&& hypercallMask)
    ((s.vmxRunBody (.exit e)).1 = .again ↔ v = .skip) ∧
      (s.vmxRunBody (.exit e)).2.verdicts = v :: s.verdicts ∧
      (s.vmxRunBody (.exit e)).2.hypercallField = 0 ∧
      (s.vmxRunBody (.exit e)).2.guestFinished = (v.finishes || s.guestFinished) := by
  intro v
  obtain ⟨hbody, hfield, hfinished, hverdicts⟩ := round_exit hcur e
  obtain ⟨hret, hview⟩ := Vm.exitHandler_verdict ((isHypercall_atExitHandler hcur e).mpr hcall)
  rw [hfield] at hret hview
  rw [hverdicts] at hview
  have hdispatch := Vm.view_dispatch (s.atExitHandler (.exit e)).exitHandler.2
    (s.atExitHandler (.exit e)).exitHandler.1 true (s.roundEntry (.exit e)).2.1
  have hguest : (s.atExitHandler (.exit e)).exitHandler.2.guestFinished = s.guestFinished :=
    (congrArg View.guestFinished hview).trans hfinished
  rw [hview, hguest, hret, Verdict.finishes_ret] at hdispatch
  rw [hbody, hret]
  refine ⟨?_, congrArg View.verdicts hdispatch, congrArg View.hypercallField hdispatch,
    congrArg View.guestFinished hdispatch⟩
  rw [Vm.dispatch_again_iff]
  change v.ret = .resume ∨ v.ret = .vmskip ↔ v = .skip
  cases v <;> decide

/-- Any other exit is resumed without a verdict. -/
theorem round_resumed (hcur : s.current = true) {e : VmExit}
    (hcall : e.fields .exiReason &&& 0xff ≠ vmxVmcall) (hept : e.fields .exiReason &&& 0xff ≠ 48) :
    (s.vmxRunBody (.exit e)).1 = .again ∧
      (s.vmxRunBody (.exit e)).2.verdicts = s.verdicts ∧
      (s.vmxRunBody (.exit e)).2.hypercallField = e.hypercallField ∧
      (s.vmxRunBody (.exit e)).2.guestFinished = s.guestFinished := by
  obtain ⟨hbody, hfield, hfinished, hverdicts⟩ := round_exit hcur e
  have hno := mt (isHypercall_atExitHandler hcur e).mp hcall
  have hcur' : (s.atExitHandler (.exit e)).current = true :=
    (Vm.atExitHandler_current _ _).trans hcur
  have hreason : Vm.exitReason (s.atExitHandler (.exit e)) = e.fields .exiReason &&& 0xff := by
    rw [Vm.exitReason, Vm.atExitHandler_exit _ _ (by decide)]
  have hret := (Vm.exitHandler_resumed hcur' (hreason ▸ hcall) (hreason ▸ hept)).1
  have hview := Vm.view_exitHandler hno
  rw [hbody, hret]
  exact ⟨rfl, (congrArg View.verdicts hview).trans hverdicts,
    (congrArg View.hypercallField hview).trans hfield,
    (congrArg View.guestFinished hview).trans hfinished⟩

/-- The guest goes on after its VMCALL. -/
theorem behind_of_current (hcur : u.2.current = true) (t : Flow × Vm) (g : GuestStep)
    (hr : GuestRound t g u) (hcall : g.IsVmcall) :
    u.2.fields .guestRip = g.exit.fields .guestRip + 3 := by
  obtain ⟨_, _, rfl⟩ := hr
  rw [(Vm.vmxRunBody_vmx t.2 (.exit g.exit)).1] at hcur
  have hat := (Vm.atExitHandler_current t.2 (.exit g.exit)).trans hcur
  have hreason : Vm.exitReason (t.2.atExitHandler (.exit g.exit)) = 18 := by
    rw [Vm.exitReason, Vm.atExitHandler_exit _ _ (by decide)]
    exact hcall
  rw [(Vm.vmxRunBody_exit hat).2, (Vm.exitHandler_hypercall hat hreason).2,
    Vm.atExitHandler_exit _ _ (by decide)]

/-! ## Whole runs -/

/-- What connects the host with the protocol between two rounds. -/
structure Tracks (s₀ : Vm) (gs : List GuestStep) (u : Flow × Vm) : Prop
    extends Follows masked s₀ gs u where
  current : u.2.current = true
  field : u.2.hypercallField &&& hypercallMask =
    ((run masked gs).pending.getD 0) &&& hypercallMask

/-- The verdict by the field is the one that the protocol asks for. -/
theorem Tracks.asked (h : Tracks s₀ gs t) (hp : g.Possible t.2) :
    (Verdict.ofNumber (g.exit.hypercallField &&& hypercallMask) =
        .asked masked (g.passed (run masked gs).pending)) ∧
      g.exit.hypercallField &&& hypercallMask =
        ((g.passed (run masked gs).pending).getD 0) &&& hypercallMask := by
  have hfield : g.exit.hypercallField &&& hypercallMask =
      ((g.passed (run masked gs).pending).getD 0) &&& hypercallMask := by
    rw [hp.field, GuestStep.passed]
    cases g.calls with
    | some n => exact storedField_masked t.2 n
    | none => exact h.field
  refine ⟨?_, hfield⟩
  rw [hfield]
  cases g.passed (run masked gs).pending with
  | some n => rfl
  | none => rfl

/-- A round keeps the host on the protocol. -/
theorem Tracks.round (h : Tracks s₀ gs t) (hr : GuestRound t g u) : Tracks s₀ (gs ++ [g]) u := by
  obtain ⟨hagain, hp, rfl⟩ := hr
  have hskips := h.again.mp hagain
  obtain ⟨hasked, hfield⟩ := h.asked hp
  have hcur := (Vm.vmxRunBody_vmx t.2 (.exit g.exit)).1.trans h.current
  have hbehind := behind_of_current hcur
  by_cases hcall : g.IsVmcall
  · obtain ⟨hflow, hverdicts, hzero, hfinished⟩ := round_vmcall h.current hcall
    rw [hasked] at hflow hverdicts hfinished
    have hrun : run masked (gs ++ [g]) = ⟨none,
        .asked masked (g.passed (run masked gs).pending) :: (run masked gs).verdicts⟩ := by
      rw [run_concat, step, if_pos hcall]
    generalize Verdict.asked masked (g.passed (run masked gs).pending) = v at *
    refine ⟨⟨?_, ?_, ?_, hbehind⟩, hcur, ?_⟩
    · rw [hrun, hverdicts, h.verdicts]
      rfl
    · rw [hrun, hfinished, Bool.or_eq_true, h.finished]
      cases v <;> simp [Verdict.finishes]
    · rw [hrun, hflow, List.forall_mem_cons, and_iff_left hskips]
    · rw [hrun, hzero]
      rfl
  · obtain ⟨hflow, hverdicts, hstored, hfinished⟩ := round_resumed h.current hcall hp.reason
    have hrun : run masked (gs ++ [g]) =
        ⟨g.passed (run masked gs).pending, (run masked gs).verdicts⟩ := by
      rw [run_concat, step, if_neg hcall]
    refine ⟨⟨?_, ?_, ?_, hbehind⟩, hcur, ?_⟩
    · rw [hrun, hverdicts, h.verdicts]
    · rw [hrun, hfinished, h.finished]
    · rw [hrun, hflow]
      exact iff_of_true rfl hskips
    · rw [hrun, hstored, hfield]

/-- Over every run of the loop, started with the hypercall field and the finished flag
at 0, the host follows the protocol with the number reduced to its low 12 bits. -/
theorem follows_masked (hcur : s₀.current = true) (hfield : s₀.hypercallField = 0)
    (hunfinished : s₀.guestFinished = false)
    (h : Reach GuestRound (.again, s₀) gs u) : Follows masked s₀ gs u := by
  have htracks : Tracks s₀ gs u := by
    induction h with
    | nil =>
      refine ⟨⟨rfl, ?_, ?_, behind_of_current hcur⟩, hcur, ?_⟩
      · simp [hunfinished, run]
      · simp [run]
      · rw [hfield]
        rfl
    | snoc _ hr ih => exact ih.round hr
  exact htracks.toFollows

/-- A call of `hypercall` that leaves with its VMCALL. -/
def callStep (n : Word) : GuestStep where
  calls := some n
  exit := ⟨⟨0, 0, 0, 0, 0, 0, n⟩, fun e => if e = .exiReason then 18 else 0, 0, ⟨fun _ => 0, []⟩,
    (n &&& hypercallMask) ||| hypercallBit, by decide⟩

theorem guestRound_callStep (s : Vm) (n : Word) :
    GuestRound (.again, s) (callStep n) (s.vmxRunBody (.exit (callStep n).exit)) :=
  ⟨rfl, ⟨rfl, by change (18 : Word) &&& 0xff ≠ 48; decide⟩, rfl⟩

/-- A VMCALL outside `hypercall`, with the field as the host left it. -/
def vmcallStep : GuestStep where
  calls := none
  exit := ⟨⟨0, 0, 0, 0, 0, 0, 0⟩, fun e => if e = .exiReason then 18 else 0, 0, ⟨fun _ => 0, []⟩,
    0, by decide⟩

/-- A call with 3 is skipped, and the VMCALL after it does not replay the number. -/
theorem follows_masked_replay :
    let s : Vm := { Vm.initial ⟨fun _ => 0, []⟩ with current := true }
    let t := s.vmxRunBody (.exit (callStep 3).exit)
    let u := t.2.vmxRunBody (.exit vmcallStep.exit)
    Reach GuestRound (.again, s) [callStep 3, vmcallStep] u ∧
      Follows masked s [callStep 3, vmcallStep] u ∧ u.2.verdicts = [.invalid, .skip] := by
  intro s t u
  obtain ⟨hagain, -, hfield, -⟩ := round_vmcall (s := s) rfl (e := (callStep 3).exit) rfl
  have hbare : GuestRound t vmcallStep u :=
    ⟨hagain.mpr rfl, ⟨hfield.symm, by change (18 : Word) &&& 0xff ≠ 48; decide⟩, rfl⟩
  have hrun := (Reach.snoc .nil (guestRound_callStep s 3)).snoc hbare
  have hfollows := follows_masked rfl rfl rfl hrun
  exact ⟨hrun, hfollows, hfollows.verdicts⟩

/-- The number 0x1001 is taken for 1, and the guest is finished. -/
theorem not_follows_0x1001 :
    let s : Vm := { Vm.initial ⟨fun _ => 0, []⟩ with current := true }
    let u := s.vmxRunBody (.exit (callStep 0x1001).exit)
    Reach GuestRound (.again, s) [callStep 0x1001] u ∧
      ¬ Follows Verdict.ofNumber s [callStep 0x1001] u := by
  intro s u
  refine ⟨.snoc .nil (guestRound_callStep s 0x1001), fun hfollows => ?_⟩
  obtain ⟨_, _, _, hfinished⟩ := round_vmcall (s := s) rfl (e := (callStep 0x1001).exit) rfl
  have hverdicts : (run Verdict.ofNumber [callStep 0x1001]).verdicts = [.invalid] := by decide
  have hguest := hfollows.finished.mp hfinished
  rw [hverdicts] at hguest
  exact absurd hguest (by decide)

end Protocol

end DmfOs
