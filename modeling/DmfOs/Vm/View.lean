import DmfOs.Vm.Progress

/-!
# What the host keeps for the guest

The saved registers, the hypercall field and the finished flag, together with the
verdicts on hypercalls that were printed. A handler of a resumed exit changes none
of them, and a hypercall changes the field and adds one verdict.
-/

namespace DmfOs

/-- The host's decision on a VMCALL. -/
inductive Verdict where
  | exit
  | abort
  | skip
  | invalid
  deriving DecidableEq, Repr

/-- The verdict that a format of `handle_hypercall` reports. -/
def verdictOf (fmt : String) : Option Verdict :=
  if fmt = "hypercall: VMEXIT\n" then some .exit
  else if fmt = "hypercall: VMABORT\n" then some .abort
  else if fmt = "hypercall: VMSKIP\n" then some .skip
  else if fmt = "ERROR : Invalid hypercall number : %d\n" then some .invalid
  else none

/-- The verdict that an event reports. -/
def Event.verdict : Event → Option Verdict
  | printf fmt _ => verdictOf fmt
  | _ => none

namespace Verdict

/-- The verdict on a number. -/
def ofNumber (n : Word) : Verdict :=
  if n = hypercallVmexit then .exit
  else if n = hypercallVmabort then .abort
  else if n = hypercallVmskip then .skip
  else .invalid

/-- What `handle_hypercall` returns for a verdict. -/
def ret : Verdict → HandlerRet
  | exit => .vmexit
  | abort => .vmabort
  | skip => .vmskip
  | invalid => .exit

/-- The guest is done after this verdict. -/
def finishes : Verdict → Bool
  | exit | abort => true
  | skip | invalid => false

end Verdict

/-- What the host keeps for the guest. -/
structure View where
  gpr : Gpr
  saved : Gpr
  guestFinished : Bool
  hypercallField : Word
  verdicts : List Verdict

/-- `vmx_run` sets `guest_finished` for these results of a handler. -/
def HandlerRet.finishes : HandlerRet → Bool
  | vmexit | vmabort => true
  | _ => false

theorem Verdict.finishes_ret (v : Verdict) : v.ret.finishes = v.finishes := by
  cases v <;> rfl

namespace Vm

/-- The verdicts so far, latest first. -/
def verdicts (s : Vm) : List Verdict := s.trace.filterMap Event.verdict

/-- The part of the state that is kept for the guest. -/
def view (s : Vm) : View :=
  ⟨s.gpr, s.regs.gpr, s.guestFinished, s.hypercallField, s.verdicts⟩

variable {s : Vm}

/-- Output that is no verdict changes nothing. -/
theorem view_printf (s : Vm) {fmt : String} (args : List PrintArg) (h : verdictOf fmt = none) :
    (s.printf fmt args).view = s.view := by
  have hv : (s.printf fmt args).verdicts = s.verdicts := List.filterMap_cons_none h
  simp only [view, hv]
  rfl

theorem view_vmwrite (s : Vm) (enc : Encoding) (val : Word) :
    (s.vmwrite enc val).view = s.view := by
  rw [vmwrite]
  split_ifs <;> rfl

theorem view_vmcsWrite (s : Vm) (enc : Encoding) (val : Word) :
    (s.vmcsWrite enc val).view = s.view := by
  rw [vmcsWrite]
  split_ifs
  · exact view_vmwrite s enc val
  · exact (view_printf _ _ (by decide)).trans (view_vmwrite s enc val)

theorem view_printVmexitInfo (s : Vm) : s.printVmexitInfo.view = s.view := by
  unfold printVmexitInfo
  dsimp only
  iterate 7 refine (view_printf _ _ (by decide)).trans ?_
  rfl

theorem view_printVmentryFailureInfo (s : Vm) (failure : VmentryFailure) :
    (s.printVmentryFailureInfo failure).view = s.view := by
  unfold printVmentryFailureInfo
  dsimp only
  split_ifs
  all_goals
    repeat refine (view_printf _ _ (by decide)).trans ?_
    rfl

theorem view_leaveLoop (s : Vm) (entered : Bool) (failure : VmentryFailure) :
    (s.leaveLoop entered failure).2.view = s.view := by
  cases entered with
  | true => exact view_printVmexitInfo s
  | false => exact view_printVmentryFailureInfo s failure

/-- The switch of `vmx_run` sets the finished flag at most. -/
theorem view_dispatch (s : Vm) (ret : HandlerRet) (entered : Bool) (failure : VmentryFailure) :
    (s.dispatch ret entered failure).2.view =
      { s.view with guestFinished := ret.finishes || s.guestFinished } := by
  cases ret with
  | start => exact (view_leaveLoop _ _ _).trans (view_printf s _ (by decide))
  | vmexit => exact view_printf { s with guestFinished := true } _ (by decide)
  | exit => exact view_leaveLoop s entered failure
  | resume => rfl
  | vmabort => exact view_printf { s with guestFinished := true } _ (by decide)
  | vmskip => exact view_printf s _ (by decide)

theorem view_handleException (s : Vm) (guestEip : Word) :
    (s.handleException guestEip).view = s.view := by
  rw [handleException]
  by_cases hv : s.vmcsRead .exiIntrInfo &&& 0xff = 14
  · rw [if_pos hv, view_vmcsWrite, view_printf _ _ (by decide), view_printf _ _ (by decide)]
  · rw [if_neg hv, view_printf _ _ (by decide)]

theorem view_handleCr3Access (s : Vm) (guestEip : Word) :
    (s.handleCr3Access guestEip).view = s.view := by
  rw [handleCr3Access]
  by_cases ht : (s.vmcsRead .exiQualification >>> 4) &&& 1 = 1
  · rw [if_pos ht, view_printf _ _ (by decide), view_vmcsWrite, view_printf _ _ (by decide)]
  · rw [if_neg ht, view_vmcsWrite, view_printf _ _ (by decide)]

/-- The cases of the switch of `exit_handler` keep everything. -/
theorem view_exitSwitch (s : Vm) (reason guestEip : Word) :
    (s.exitSwitch reason guestEip).view = s.view := by
  rw [exitSwitch]
  split_ifs
  · exact view_handleException s guestEip
  · rfl
  · exact view_vmcsWrite _ _ _
  · exact (view_vmcsWrite _ _ _).trans (view_printf _ _ (by decide))
  · exact view_vmcsWrite _ _ _
  · exact view_handleCr3Access s guestEip
  · rfl

/-- The number that `handle_hypercall` finds decides, once, and the field is cleared. -/
theorem handleHypercall_verdict (s : Vm) :
    s.handleHypercall.1 = (Verdict.ofNumber (s.hypercallField &&& hypercallMask)).ret ∧
      s.handleHypercall.2.view = { s.view with
        hypercallField := 0
        verdicts := Verdict.ofNumber (s.hypercallField &&& hypercallMask) :: s.verdicts } := by
  unfold handleHypercall Verdict.ofNumber
  dsimp only
  split_ifs <;> exact ⟨rfl, rfl⟩

theorem view_atHypercall (s : Vm) : s.atHypercall.view = s.view :=
  view_vmcsWrite s.withEflags _ _

/-- `exit_handler` leaves a VMCALL to `handle_hypercall`. -/
theorem exitHandler_verdict (hcall : s.isHypercall = true) :
    s.exitHandler.1 = (Verdict.ofNumber (s.hypercallField &&& hypercallMask)).ret ∧
      s.exitHandler.2.view = { s.view with
        hypercallField := 0
        verdicts := Verdict.ofNumber (s.hypercallField &&& hypercallMask) :: s.verdicts } := by
  have hview := view_atHypercall s
  have hfield : s.atHypercall.hypercallField = s.hypercallField :=
    congrArg View.hypercallField hview
  have hverdicts : s.atHypercall.verdicts = s.verdicts := congrArg View.verdicts hview
  obtain ⟨hret, hpost⟩ := handleHypercall_verdict s.atHypercall
  rw [hfield] at hret
  rw [hview, hfield, hverdicts] at hpost
  rw [exitHandler_of_hypercall hcall]
  exact ⟨hret, (view_vmcsWrite _ _ _).trans hpost⟩

/-- Without a VMCALL `exit_handler` keeps everything. -/
theorem view_exitHandler (hcall : ¬ s.isHypercall = true) : s.exitHandler.2.view = s.view := by
  by_cases hept : s.vmcsRead .exiReason &&& 0xff = 48
  · rw [exitHandler_of_ept hcall hept]
    exact (view_vmcsWrite _ _ _).trans
      ((view_vmcsWrite _ _ _).trans (view_printf s.withEflags _ (by decide)))
  · obtain ⟨t, rfl, hval⟩ := exitHandler_of_resumed hcall hept
    rw [hval]
    exact (view_vmcsWrite _ _ _).trans (view_exitSwitch s.withEflags _ _)

end Vm

/-! ## What an entry does -/

namespace EntryOutcome

/-- The registers after an entry instruction, which found the given ones loaded. -/
def gprAfter (loaded : Gpr) : EntryOutcome → Gpr
  | exit e => e.gpr
  | _ => loaded

/-- The hypercall field after an entry instruction. -/
def fieldAfter (field : Word) : EntryOutcome → Word
  | exit e => e.hypercallField
  | _ => field

/-- What `vmx_enter_guest` leaves in `edi`. -/
def ediAfter : EntryOutcome → Word
  | early f => f.flags
  | _ => Encoding.hostRsp.code

theorem effect_view (instr : EntryInstr) (s : Vm) (o : EntryOutcome) :
    (o.effect instr s).view = { s.view with
      gpr := o.gprAfter s.gpr
      hypercallField := o.fieldAfter s.hypercallField } := by
  cases o with
  | exit e => rfl
  | early f =>
    rw [effect]
    split_ifs
    · exact Vm.view_vmwrite s _ _
    · rfl
  | late f => rfl

end EntryOutcome

namespace Vm

/-- The seven exchanges swap the registers with the saved ones. -/
theorem view_xchgGpr (s : Vm) :
    s.xchgGpr.view = { s.view with gpr := s.view.saved, saved := s.view.gpr } := rfl

theorem view_prepareEntry (s : Vm) :
    s.prepareEntry.view = { s.view with
      gpr := s.regs.gpr
      saved := { s.gpr with edi := Encoding.hostRsp.code } } := by
  let t : Vm := { s with inGuest := true, gpr.edi := Encoding.hostRsp.code }
  have ht : (t.vmwrite .hostRsp t.esp).view = t.view := view_vmwrite t _ _
  have hswap := view_xchgGpr (t.vmwrite .hostRsp t.esp)
  rw [ht] at hswap
  exact hswap

/-- The view right after the entry instruction. -/
theorem view_enter (s : Vm) (o : EntryOutcome) :
    (s.enter o).view = { s.view with
      gpr := o.gprAfter s.view.gpr
      hypercallField := o.fieldAfter s.view.hypercallField } :=
  o.effect_view s.entryInstr (s.emit s.entryEvent)

/-- Two swaps around the entry give the host its registers back, `edi` apart, and
leave the guest's in `regs`. -/
theorem view_vmxEnterGuest (s : Vm) (o : EntryOutcome) :
    (s.vmxEnterGuest o).2.2.view = { s.view with
      gpr := { s.gpr with edi := o.ediAfter }
      saved := o.gprAfter s.regs.gpr
      hypercallField := o.fieldAfter s.hypercallField } := by
  have hswap := view_xchgGpr (s.prepareEntry.enter o)
  rw [view_enter, view_prepareEntry] at hswap
  cases o with
  | exit e => exact hswap
  | late f => exact hswap
  | early f =>
    -- the flags go through `edi` after the second swap
    have hflags : (s.vmxEnterGuest (.early f)).2.2.view =
        { (s.prepareEntry.enter (.early f)).xchgGpr.view with
          gpr.edi := f.flags } := rfl
    rw [hflags, hswap]
    rfl

/-- The view in which a handler of the round is called. -/
theorem view_roundEntry (s : Vm) (o : EntryOutcome) :
    (s.roundEntry o).2.2.view = { s.view with
      gpr := { s.gpr with edi := o.ediAfter }
      saved := o.gprAfter s.regs.gpr
      hypercallField := o.fieldAfter s.hypercallField } := by
  have hprint : (s.printf "Guest in <<<\n" []).view = s.view := view_printf s [] (by decide)
  have hentry := view_vmxEnterGuest (s.printf "Guest in <<<\n" []) o
  rw [hprint] at hentry
  exact hentry

end Vm

end DmfOs
