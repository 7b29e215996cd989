import DmfOs.Vm.Exit
import DmfOs.Core.Run

/-!
# Entering the guest

`vmx_enter_guest` and the loop of `vmx_run`. What the processor does with an
entry instruction is an outcome: a VM exit after a successful entry, an early
failure that falls through to the next instruction, or a late failure that
continues at `HOST_RIP` like a VM exit does.
-/

namespace DmfOs

/-- `X86_EFLAGS_CF`. -/
def x86EflagsCf : Word := 0x00000001

/-- `X86_EFLAGS_ZF`. -/
def x86EflagsZf : Word := 0x00000040

/-- `VMX_ENTRY_FAILURE`. -/
def vmxEntryFailure : Word := 1 <<< 31

/-- `VMX_ENTRY_FLAGS`: the flags CF, PF, AF, ZF, SF and OF. -/
def vmxEntryFlags : Word :=
  x86EflagsCf ||| 0x00000004 ||| 0x00000010 ||| x86EflagsZf ||| 0x00000080 ||| 0x00000800

/-- `VMX_FAIL_STATE`. -/
def vmxFailState : Word := 33

/-- `VMX_FAIL_MSR`. -/
def vmxFailMsr : Word := 34

/-- `VMX_FAIL_MCHECK`. -/
def vmxFailMcheck : Word := 41

/-- The guest ran, and this is what it and the VM exit left behind. -/
structure VmExit where
  gpr : Gpr
  fields : Encoding → Word
  cr2 : Word
  mem : Memory
  hypercallField : Word
  /-- The entry succeeded. -/
  entered : fields .exiReason &&& vmxEntryFailure = 0

/-- The entry instruction fell through. -/
structure EarlyFailure where
  flags : Word
  instError : Word
  /-- The instruction reports its failure. -/
  failed : flags &&& (x86EflagsCf ||| x86EflagsZf) ≠ 0

/-- Loading the guest state failed. -/
structure LateFailure where
  reason : Word
  qualification : Word
  /-- The exit reason says that this is no VM exit. -/
  failed : reason &&& vmxEntryFailure ≠ 0

/-- What the processor does with an entry instruction. -/
inductive EntryOutcome where
  | exit (e : VmExit)
  | early (f : EarlyFailure)
  | late (f : LateFailure)

/-- `struct vmentry_failure`. -/
structure VmentryFailure where
  vmlaunch : Bool
  instr : EntryInstr
  early : Bool
  /-- Written by an early failure only and read after one only. -/
  flags : Word
  deriving DecidableEq, Repr

/-- Whether the loop of `vmx_run` goes on. -/
inductive Flow where
  | again
  | finished
  deriving DecidableEq, Repr

namespace EntryOutcome

/-- The guest was entered. -/
def Succeeds : EntryOutcome → Prop
  | exit _ => True
  | early _ => False
  | late _ => False

/-- Only an early failure is possible without a current structure. -/
def Admits (s : Vm) : EntryOutcome → Prop
  | early _ => True
  | _ => s.current = true

/-- A VM exit and a late failure load the host state. -/
def loadHost (s : Vm) : Vm :=
  { s with
    cr0 := s.fields .hostCr0
    cr3 := s.fields .hostCr3
    cr4 := s.fields .hostCr4
    esp := s.fields .hostRsp }

/-- The effect of the entry instruction. Only a successful VMLAUNCH changes the
launch state, and a late failure keeps all fields but the two about the exit. -/
def effect (instr : EntryInstr) (s : Vm) : EntryOutcome → Vm
  | exit e =>
    { loadHost s with
      gpr := e.gpr
      fields := fun enc => if enc.WrittenByExit then e.fields enc else s.fields enc
      cr2 := e.cr2
      mem := e.mem
      hypercallField := e.hypercallField
      launchState := match instr with
        | .vmlaunch => .launched
        | .vmresume => s.launchState }
  | early f => if f.flags &&& x86EflagsZf ≠ 0 then s.vmwrite .vmxInstError f.instError else s
  | late f =>
    { loadHost s with
      fields := fun enc =>
        if enc = .exiReason then f.reason
        else if enc = .exiQualification then f.qualification
        else s.fields enc }

end EntryOutcome

namespace Vm

/-- The instruction that `vmx_enter_guest` chooses. -/
def entryInstr (s : Vm) : EntryInstr := if s.launched then .vmresume else .vmlaunch

/-- The launch state and the instruction that an entry is made with. -/
def entryEvent (s : Vm) : Event :=
  .enter s.entryInstr (if s.current then some s.launchState else none)

/-- `vmx_enter_guest` up to the entry instruction. -/
def prepareEntry (s : Vm) : Vm :=
  let s := { s with inGuest := true, gpr.edi := Encoding.hostRsp.code }
  let s := s.vmwrite .hostRsp s.esp
  s.xchgGpr

/-- The entry instruction itself, with its outcome. -/
def enter (s : Vm) (o : EntryOutcome) : Vm :=
  let s := s.emit s.entryEvent
  o.effect s.entryInstr s

/-- `vmx_enter_guest`. The flags after an early failure pass through `edi`. -/
def vmxEnterGuest (s : Vm) (o : EntryOutcome) : Bool × VmentryFailure × Vm :=
  let s := s.prepareEntry
  let s := s.enter o
  let s := s.xchgGpr
  let (early, flags, s) := match o with
    | .early f => (true, f.flags, { s with gpr.edi := f.flags })
    | _ => (false, 0, s)
  let s := { s with inGuest := false }
  let failure := ⟨!s.launched, s.entryInstr, early, flags⟩
  let failEarly := false
  let reason := s.vmcsRead .exiReason
  (!failEarly && decide (reason &&& vmxEntryFailure = 0), failure, s)

/-- `print_vmentry_failure_info`. -/
def printVmentryFailureInfo (s : Vm) (failure : VmentryFailure) : Vm :=
  if failure.early then
    let s := s.printf "Early %s failure: \n" [.str failure.instr.mnemonic]
    let flags := failure.flags &&& vmxEntryFlags
    if flags = x86EflagsCf then s.printf "current-VMCS pointer is not valid.\n" []
    else if flags = x86EflagsZf then
      s.printf "error number is %x. See Intel 30.4.\n" [.num (s.vmcsRead .vmxInstError)]
    else s.printf "unexpected flags %x!\n" [.num failure.flags]
  else
    let reason := s.vmcsRead .exiReason
    let qual := s.vmcsRead .exiQualification
    let s := s.printf "Non-early %s failure (reason=%#x, qual=%#x):\n"
      [.str failure.instr.mnemonic, .num reason, .num qual]
    let basic := reason &&& 0xff
    let s :=
      if basic = vmxFailState then s.printf "invalid guest state\n" []
      else if basic = vmxFailMsr then s.printf "MSR loading\n" []
      else if basic = vmxFailMcheck then s.printf "machine-check event\n" []
      else s.printf "unexpected basic exit reason %x\n" [.num basic]
    let s :=
      if reason &&& vmxEntryFailure = 0 then s.printf "    VMX_ENTRY_FAILURE BIT NOT SET!\n" []
      else s
    if reason &&& 0x7fff0000 ≠ 0 then s.printf "    RESERVED BITS SET!\n" [] else s

/-- `entry_failure_handler`. -/
def entryFailureHandler (s : Vm) : HandlerRet × Vm := (.exit, s.printVmexitInfo)

/-- The report on leaving the loop without a verdict of the guest. -/
def leaveLoop (s : Vm) (entered : Bool) (failure : VmentryFailure) : Flow × Vm :=
  (.finished, if entered then s.printVmexitInfo else s.printVmentryFailureInfo failure)

/-- The switch of `vmx_run` on what the handler returned. -/
def dispatch (s : Vm) (ret : HandlerRet) (entered : Bool) (failure : VmentryFailure) : Flow × Vm :=
  match ret with
  | .resume => (.again, s)
  | .vmexit => (.finished, ({ s with guestFinished := true }).printf "Guest exited normally\n" [])
  | .vmabort => (.finished, ({ s with guestFinished := true }).printf "Guest aborted!\n" [])
  | .vmskip => (.again, s.printf "Guest skipped - continue running\n" [])
  | .exit => s.leaveLoop entered failure
  | .start =>
    let s := s.printf "ERROR : Invalid %s_handler return val %d\n"
      [.str (if entered then "exit" else "entry_failure"), .num ret.code]
    s.leaveLoop entered failure

/-- One round of the loop of `vmx_run`. -/
def vmxRunBody (s : Vm) (o : EntryOutcome) : Flow × Vm :=
  let s := s.printf "Guest in <<<\n" []
  let (entered, failure, s) := s.vmxEnterGuest o
  let (ret, s) :=
    if entered then (({ s with launched := true }).emit .exitHandler).exitHandler
    else (s.emit .entryFailureHandler).entryFailureHandler
  s.dispatch ret entered failure

/-- `vmx_run` on the outcomes of its entries; without a result when they end before
the loop does. -/
def vmxRun : List EntryOutcome → Vm → Option Vm
  | [], _ => none
  | o :: os, s => match s.vmxRunBody o with
    | (.again, s') => vmxRun os s'
    | (.finished, s') => some s'

end Vm

/-! ## What entering does -/

namespace EntryOutcome

variable {o : EntryOutcome} {s : Vm}

/-- The launch state after an entry. -/
def stateAfter (instr : EntryInstr) (state : LaunchState) : EntryOutcome → LaunchState
  | exit _ => match instr with
    | .vmlaunch => .launched
    | .vmresume => state
  | _ => state

/-- The exit reason after an entry. -/
def reasonAfter (stale : Word) : EntryOutcome → Word
  | exit e => e.fields .exiReason
  | early _ => stale
  | late f => f.reason

/-- The entry instruction changes the launch state only, as far as VMX is concerned. -/
theorem effect_spec (instr : EntryInstr) (s : Vm) (o : EntryOutcome) :
    (o.effect instr s).current = s.current ∧ (o.effect instr s).launched = s.launched ∧
      (o.effect instr s).trace = s.trace ∧
      (o.effect instr s).launchState = o.stateAfter instr s.launchState := by
  cases o with
  | exit e => exact ⟨rfl, rfl, rfl, rfl⟩
  | early f =>
    rw [effect]
    split_ifs
    · have hk := Vm.kept_vmwrite s .vmxInstError f.instError
      exact ⟨hk.current, hk.launched, Vm.vmwrite_trace s _ _, hk.launchState⟩
    · exact ⟨rfl, rfl, rfl, rfl⟩
  | late f => exact ⟨rfl, rfl, rfl, rfl⟩

/-- The exit reason that is read after an entry. -/
theorem effect_reason (instr : EntryInstr) (h : o.Admits s) :
    (o.effect instr s).vmcsRead .exiReason = o.reasonAfter (s.vmcsRead .exiReason) := by
  cases o with
  | exit e =>
    rw [Vm.vmcsRead_eq _ _ ((effect_spec instr s (exit e)).1.trans h)]
    have hw : Encoding.exiReason.WrittenByExit := by decide
    simp only [effect, if_pos hw, reasonAfter]
  | early f =>
    rw [effect]
    split_ifs
    · exact Vm.vmcsRead_vmwrite s _ _ (by decide)
    · rfl
  | late f =>
    rw [Vm.vmcsRead_eq _ _ ((effect_spec instr s (late f)).1.trans h), effect]
    simp only [ite_true, reasonAfter]

/-- The reason after a successful entry has bit 31 clear, after a late failure set. -/
theorem reasonAfter_iff (stale : Word) :
    o.reasonAfter stale &&& vmxEntryFailure = 0 ↔
      match o with
      | exit _ => True
      | early _ => stale &&& vmxEntryFailure = 0
      | late _ => False := by
  cases o with
  | exit e => exact iff_true_intro e.entered
  | early f => exact Iff.rfl
  | late f => exact iff_false_intro f.failed

end EntryOutcome

namespace Vm

variable {s : Vm} {o : EntryOutcome}

theorem kept_prepareEntry (s : Vm) : Kept s s.prepareEntry := by
  have hedi : Kept s { s with inGuest := true, gpr.edi := Encoding.hostRsp.code } :=
    ⟨.of_trace_eq rfl rfl rfl rfl, rfl⟩
  have hxchg (t : Vm) : Kept t t.xchgGpr := ⟨.of_trace_eq rfl rfl rfl rfl, rfl⟩
  exact (hedi.trans (kept_vmwrite _ _ _)).trans (hxchg _)

theorem prepareEntry_trace (s : Vm) : s.prepareEntry.trace = s.trace :=
  vmwrite_trace { s with inGuest := true, gpr.edi := Encoding.hostRsp.code } _ _

/-- The fields that are not `HOST_RSP` are read as before. -/
theorem vmcsRead_prepareEntry (s : Vm) {e : Encoding} (hne : e ≠ .hostRsp) :
    s.prepareEntry.vmcsRead e = s.vmcsRead e :=
  vmcsRead_vmwrite { s with inGuest := true, gpr.edi := Encoding.hostRsp.code } _ _ hne

theorem prepareEntry_fields (s : Vm) {e : Encoding} (hne : e ≠ .hostRsp) :
    s.prepareEntry.fields e = s.fields e :=
  vmwrite_fields_ne { s with inGuest := true, gpr.edi := Encoding.hostRsp.code } _ _ hne

/-- What an entry is made with is not touched by its preparation. -/
theorem prepareEntry_entryEvent (s : Vm) :
    s.prepareEntry.entryInstr = s.entryInstr ∧ s.prepareEntry.entryEvent = s.entryEvent := by
  have hk := kept_prepareEntry s
  simp only [entryEvent, entryInstr, hk.launched, hk.current, hk.launchState, and_self]

/-- The entry is recorded and has the effect of its outcome. -/
theorem enter_spec (s : Vm) (o : EntryOutcome) :
    (s.enter o).current = s.current ∧ (s.enter o).launched = s.launched ∧
      (s.enter o).trace = s.entryEvent :: s.trace ∧
      (s.enter o).launchState = o.stateAfter s.entryInstr s.launchState :=
  EntryOutcome.effect_spec s.entryInstr (s.emit s.entryEvent) o

/-- After the entry instruction only registers and `in_guest` change. -/
theorem vmxEnterGuest_enter (s : Vm) (o : EntryOutcome) :
    let t := s.prepareEntry.enter o
    (s.vmxEnterGuest o).2.2.current = t.current ∧ (s.vmxEnterGuest o).2.2.launched = t.launched ∧
      (s.vmxEnterGuest o).2.2.trace = t.trace ∧
      (s.vmxEnterGuest o).2.2.launchState = t.launchState ∧
      (s.vmxEnterGuest o).2.2.fields = t.fields ∧
      (s.vmxEnterGuest o).1 = decide (t.vmcsRead .exiReason &&& vmxEntryFailure = 0) := by
  cases o <;> exact ⟨rfl, rfl, rfl, rfl, rfl, rfl⟩

/-- `vmx_enter_guest` adds the entry to the trace and has the effect of its outcome. -/
theorem vmxEnterGuest_spec (s : Vm) (o : EntryOutcome) :
    (s.vmxEnterGuest o).2.2.current = s.current ∧ (s.vmxEnterGuest o).2.2.launched = s.launched ∧
      (s.vmxEnterGuest o).2.2.trace = s.entryEvent :: s.trace ∧
      (s.vmxEnterGuest o).2.2.launchState = o.stateAfter s.entryInstr s.launchState := by
  have hk := kept_prepareEntry s
  obtain ⟨hinstr, hevent⟩ := prepareEntry_entryEvent s
  obtain ⟨hc, hl, ht, hs⟩ := enter_spec s.prepareEntry o
  obtain ⟨hc', hl', ht', hs', _⟩ := vmxEnterGuest_enter s o
  refine ⟨hc'.trans (hc.trans hk.current), hl'.trans (hl.trans hk.launched), ?_, ?_⟩
  · rw [ht', ht, hevent, prepareEntry_trace]
  · rw [hs', hs, hinstr, hk.launchState]

/-- `vmx_enter_guest` reports success by bit 31 of the exit reason that it finds. -/
theorem vmxEnterGuest_fst (h : o.Admits s) :
    (s.vmxEnterGuest o).1 = true ↔
      o.reasonAfter (s.vmcsRead .exiReason) &&& vmxEntryFailure = 0 := by
  obtain ⟨_, _, _, _, _, hb⟩ := vmxEnterGuest_enter s o
  have hadmits : o.Admits (s.prepareEntry.emit s.prepareEntry.entryEvent) := by
    cases o with
    | early f => trivial
    | exit e => exact (kept_prepareEntry s).current.trans h
    | late f => exact (kept_prepareEntry s).current.trans h
  have hreason : (s.prepareEntry.enter o).vmcsRead .exiReason =
      o.reasonAfter (s.vmcsRead .exiReason) := by
    rw [enter, EntryOutcome.effect_reason _ hadmits]
    exact congrArg o.reasonAfter (vmcsRead_prepareEntry s (by decide))
  rw [hb, hreason, decide_eq_true_iff]

/-! ## One round of the loop -/

/-- A round after which the loop goes on. -/
def Rounds (s : Vm) (o : EntryOutcome) (s' : Vm) : Prop :=
  o.Admits s ∧ s.vmxRunBody o = (.again, s')

theorem kept_printVmentryFailureInfo (s : Vm) (failure : VmentryFailure) :
    Kept s (s.printVmentryFailureInfo failure) := by
  unfold printVmentryFailureInfo
  dsimp only
  split_ifs
  all_goals
    repeat apply Kept.printf
    exact .refl s

theorem kept_dispatch (s : Vm) (ret : HandlerRet) (entered : Bool) (failure : VmentryFailure) :
    Kept s (s.dispatch ret entered failure).2 := by
  have hleave (t : Vm) : Kept t (t.leaveLoop entered failure).2 := by
    cases entered with
    | true => exact kept_printVmexitInfo t
    | false => exact kept_printVmentryFailureInfo t failure
  have hfinished : Kept s { s with guestFinished := true } := ⟨.of_trace_eq rfl rfl rfl rfl, rfl⟩
  cases ret with
  | start => exact (kept_printf s _ _).trans (hleave _)
  | vmexit => exact hfinished.printf _ _
  | exit => exact hleave s
  | resume => exact .refl s
  | vmabort => exact hfinished.printf _ _
  | vmskip => exact kept_printf s _ _

/-- The entry of a round. -/
def roundEntry (s : Vm) (o : EntryOutcome) : Bool × VmentryFailure × Vm :=
  (s.printf "Guest in <<<\n" []).vmxEnterGuest o

theorem roundEntry_spec (s : Vm) (o : EntryOutcome) :
    (s.roundEntry o).2.2.current = s.current ∧ (s.roundEntry o).2.2.launched = s.launched ∧
      (s.roundEntry o).2.2.trace = s.entryEvent :: .printf "Guest in <<<\n" [] :: s.trace ∧
      (s.roundEntry o).2.2.launchState = o.stateAfter s.entryInstr s.launchState :=
  vmxEnterGuest_spec (s.printf "Guest in <<<\n" []) o

theorem roundEntry_fst (h : o.Admits s) :
    (s.roundEntry o).1 = true ↔
      o.reasonAfter (s.vmcsRead .exiReason) &&& vmxEntryFailure = 0 := by
  refine vmxEnterGuest_fst (s := s.printf "Guest in <<<\n" []) ?_
  cases o with
  | early f => trivial
  | exit e => exact h
  | late f => exact h

/-- The state in which `exit_handler` is called. -/
def atExitHandler (s : Vm) (o : EntryOutcome) : Vm :=
  ({ (s.roundEntry o).2.2 with launched := true }).emit .exitHandler

theorem atExitHandler_current (s : Vm) (o : EntryOutcome) :
    (s.atExitHandler o).current = s.current := (roundEntry_spec s o).1

/-- `exit_handler` finds what the VM exit wrote. -/
theorem atExitHandler_exit (s : Vm) (e : VmExit) {enc : Encoding} (hw : enc.WrittenByExit) :
    (s.atExitHandler (.exit e)).fields enc = e.fields enc := by
  have hfields := (vmxEnterGuest_enter (s.printf "Guest in <<<\n" []) (.exit e)).2.2.2.2.1
  exact (congrFun hfields enc).trans (if_pos hw)

/-- After an early failure that is taken for a success `exit_handler` finds the old fields. -/
theorem atExitHandler_early (s : Vm) (f : EarlyFailure) {enc : Encoding} (hrsp : enc ≠ .hostRsp)
    (herr : enc ≠ .vmxInstError) : (s.atExitHandler (.early f)).fields enc = s.fields enc := by
  have hfields := (vmxEnterGuest_enter (s.printf "Guest in <<<\n" []) (.early f)).2.2.2.2.1
  have hprepare := prepareEntry_fields (s.printf "Guest in <<<\n" []) hrsp
  refine (congrFun hfields enc).trans (Eq.trans ?_ hprepare)
  rw [enter, EntryOutcome.effect]
  split_ifs
  · exact vmwrite_fields_ne _ _ _ herr
  · rfl

/-- The state in which `entry_failure_handler` is called. -/
def atFailureHandler (s : Vm) (o : EntryOutcome) : Vm :=
  (s.roundEntry o).2.2.emit .entryFailureHandler

/-- A round after an entry that is taken for a success. -/
theorem vmxRunBody_entered (h : (s.roundEntry o).1 = true) :
    s.vmxRunBody o = (s.atExitHandler o).exitHandler.2.dispatch (s.atExitHandler o).exitHandler.1
      true (s.roundEntry o).2.1 := by
  rw [roundEntry] at h
  simp only [vmxRunBody, h, ite_true, atExitHandler, roundEntry]

/-- A round after an entry that is taken for a failure. -/
theorem vmxRunBody_failed (h : (s.roundEntry o).1 = false) :
    s.vmxRunBody o = (.finished, (s.atFailureHandler o).printVmexitInfo.printVmentryFailureInfo
      (s.roundEntry o).2.1) := by
  rw [roundEntry] at h
  simp only [vmxRunBody, h, Bool.false_eq_true, ite_false, atFailureHandler, entryFailureHandler,
    dispatch, leaveLoop, roundEntry]

/-- Handling an exit prints and writes fields. -/
theorem kept_vmxRunBody_entered (h : (s.roundEntry o).1 = true) :
    Kept (s.atExitHandler o) (s.vmxRunBody o).2 := by
  rw [vmxRunBody_entered h]
  exact (kept_exitHandler _).trans (kept_dispatch _ _ _ _)

/-- Handling a failed entry prints. -/
theorem kept_vmxRunBody_failed (h : (s.roundEntry o).1 = false) :
    Kept (s.atFailureHandler o) (s.vmxRunBody o).2 := by
  rw [vmxRunBody_failed h]
  exact (kept_printVmexitInfo _).trans (kept_printVmentryFailureInfo _ _)

/-- What a round does as far as VMX is concerned: the launched flag is set when the
entry is taken for a success, while the launch state follows the outcome. -/
theorem vmxRunBody_vmx (s : Vm) (o : EntryOutcome) :
    (s.vmxRunBody o).2.current = s.current ∧
      ((s.vmxRunBody o).2.launched = true ↔ (s.roundEntry o).1 = true ∨ s.launched = true) ∧
      (s.vmxRunBody o).2.launchState = o.stateAfter s.entryInstr s.launchState := by
  obtain ⟨hc, hl, _, hs⟩ := roundEntry_spec s o
  cases h : (s.roundEntry o).1 with
  | true =>
    have hk := kept_vmxRunBody_entered h
    exact ⟨hk.current.trans hc, iff_of_true hk.launched (.inl rfl), hk.launchState.trans hs⟩
  | false =>
    have hk := kept_vmxRunBody_failed h
    refine ⟨hk.current.trans hc, ?_, hk.launchState.trans hs⟩
    rw [hk.launched, atFailureHandler, emit_launched, hl]
    simp

/-- The handler that a round calls. -/
def handlerEvent (entered : Bool) : Event := if entered then .exitHandler else .entryFailureHandler

/-- The events of a round: one entry, one handler and output. -/
theorem vmxRunBody_trace (s : Vm) (o : EntryOutcome) :
    ∃ es, (∀ e ∈ es, e.IsPrintf) ∧ (s.vmxRunBody o).2.trace =
      es ++ handlerEvent (s.roundEntry o).1 :: s.entryEvent :: .printf "Guest in <<<\n" [] ::
        s.trace := by
  obtain ⟨_, _, ht, _⟩ := roundEntry_spec s o
  cases h : (s.roundEntry o).1 with
  | true =>
    obtain ⟨es, hes, hp⟩ := (kept_vmxRunBody_entered h).trace
    exact ⟨es, hp, hes.trans (congrArg (es ++ .exitHandler :: ·) ht)⟩
  | false =>
    obtain ⟨es, hes, hp⟩ := (kept_vmxRunBody_failed h).trace
    exact ⟨es, hp, hes.trans (congrArg (es ++ .entryFailureHandler :: ·) ht)⟩

end Vm

end DmfOs
