import DmfOs.Vm.Encoding
import DmfOs.Core.Memory

/-!
# The state of the hypervisor

The registers and the VMX state of the processor together with the static
variables of `vm.c`. There is one control structure; it may be current or not,
and the processor remembers whether it was launched. What the program reports,
calls and enters is recorded as a trace of events.
-/

namespace DmfOs

/-- The general registers that are switched, in the order of `struct regs`. -/
structure Gpr where
  eax : Word
  ebx : Word
  ecx : Word
  edx : Word
  ebp : Word
  esi : Word
  edi : Word
  deriving DecidableEq, Repr

/-- `struct regs`. -/
structure Regs where
  gpr : Gpr
  eflags : Word
  deriving DecidableEq, Repr

/-- The launch state of a control structure. -/
inductive LaunchState where
  | clear
  | launched
  deriving DecidableEq, Repr

/-- The instruction that enters the guest. -/
inductive EntryInstr where
  | vmlaunch
  | vmresume
  deriving DecidableEq, Repr

/-- The mnemonic that `vmentry_failure.instr` points to. -/
def EntryInstr.mnemonic : EntryInstr → String
  | vmlaunch => "vmlaunch"
  | vmresume => "vmresume"

/-- An argument of `printf`. -/
inductive PrintArg where
  | num (w : Word)
  | str (s : String)
  deriving DecidableEq, Repr

/-- What the program does visibly. -/
inductive Event where
  | printf (fmt : String) (args : List PrintArg)
  /-- An entry instruction on the current structure, of which the launch state is given. -/
  | enter (instr : EntryInstr) (state : Option LaunchState)
  | exitHandler
  | entryFailureHandler
  deriving DecidableEq, Repr

/-- An event that only prints. -/
def Event.IsPrintf : Event → Prop
  | printf _ _ => True
  | _ => False

/-- An IA-32 capability register split as `union vmx_ctrl_msr` does. -/
structure VmxCtrlMsr where
  set : Word
  clr : Word
  deriving DecidableEq, Repr

/-- The processor, its VMX state and the variables of `vm.c`. -/
structure Vm where
  gpr : Gpr
  esp : Word
  cr0 : Word
  cr2 : Word
  cr3 : Word
  cr4 : Word
  /-- `ecx` as CPUID leaf 1 returns it. -/
  cpuidEcx : Word
  msr : Word → BitVec 64
  mem : Memory
  /-- Whether the structure at `vmcs` is current. -/
  current : Bool
  launchState : LaunchState
  /-- The fields of the structure. -/
  fields : Encoding → Word
  /-- What a failing VMREAD leaves in its uninitialised destination. -/
  junk : Encoding → Word
  regs : Regs
  launched : Bool
  guestFinished : Bool
  inGuest : Bool
  hypercallField : Word
  basic : BitVec 64
  ctrlPinRev : VmxCtrlMsr
  ctrlExitRev : VmxCtrlMsr
  ctrlEnterRev : VmxCtrlMsr
  ctrlCpuRev0 : VmxCtrlMsr
  ctrlCpuRev1 : VmxCtrlMsr
  eptVpid : BitVec 64
  ctrlPin : Word
  ctrlExit : Word
  ctrlEnter : Word
  ctrlCpu0 : Word
  ctrlCpu1 : Word
  /-- Everything done so far, latest first. -/
  trace : List Event

namespace Vm

/-- The variables of `vm.c` before it first runs, on a processor whose registers and
control structure are all zero. -/
def initial (m : Memory) : Vm where
  gpr := ⟨0, 0, 0, 0, 0, 0, 0⟩
  esp := 0
  cr0 := 0
  cr2 := 0
  cr3 := 0
  cr4 := 0
  cpuidEcx := 0
  msr := fun _ => 0
  mem := m
  current := false
  launchState := .clear
  fields := fun _ => 0
  junk := fun _ => 0
  regs := ⟨⟨0, 0, 0, 0, 0, 0, 0⟩, 0⟩
  launched := false
  guestFinished := false
  inGuest := false
  hypercallField := 0
  basic := 0
  ctrlPinRev := ⟨0, 0⟩
  ctrlExitRev := ⟨0, 0⟩
  ctrlEnterRev := ⟨0, 0⟩
  ctrlCpuRev0 := ⟨0, 0⟩
  ctrlCpuRev1 := ⟨0, 0⟩
  eptVpid := 0
  ctrlPin := 0
  ctrlExit := 0
  ctrlEnter := 0
  ctrlCpu0 := 0
  ctrlCpu1 := 0
  trace := []

/-- Record an event. -/
def emit (s : Vm) (e : Event) : Vm := { s with trace := e :: s.trace }

/-- `printf`. -/
def printf (s : Vm) (fmt : String) (args : List PrintArg) : Vm := s.emit (.printf fmt args)

/-- `vmcs_read`; without a current structure VMREAD fails and the variable stays as it was. -/
def vmcsRead (s : Vm) (enc : Encoding) : Word := if s.current then s.fields enc else s.junk enc

/-- The effect of VMWRITE. -/
def vmwrite (s : Vm) (enc : Encoding) (val : Word) : Vm :=
  if s.current then { s with fields := fun e => if e = enc then val else s.fields e } else s

/-- `vmcs_write`; no caller uses its result. -/
def vmcsWrite (s : Vm) (enc : Encoding) (val : Word) : Vm :=
  let s' := s.vmwrite enc val
  if s.current then s' else s'.printf "vmcs write wrong\n" []

/-- `SAVE_GPR_C` and `LOAD_GPR_C`: seven exchanges with the words of `regs`. -/
def xchgGpr (s : Vm) : Vm :=
  let s := { s with gpr.eax := s.regs.gpr.eax, regs.gpr.eax := s.gpr.eax }
  let s := { s with gpr.ebx := s.regs.gpr.ebx, regs.gpr.ebx := s.gpr.ebx }
  let s := { s with gpr.ecx := s.regs.gpr.ecx, regs.gpr.ecx := s.gpr.ecx }
  let s := { s with gpr.edx := s.regs.gpr.edx, regs.gpr.edx := s.gpr.edx }
  let s := { s with gpr.ebp := s.regs.gpr.ebp, regs.gpr.ebp := s.gpr.ebp }
  let s := { s with gpr.esi := s.regs.gpr.esi, regs.gpr.esi := s.gpr.esi }
  { s with gpr.edi := s.regs.gpr.edi, regs.gpr.edi := s.gpr.edi }

/-! ## Frames of the primitives -/

section Frames

variable (s : Vm) (e : Event) (fmt : String) (args : List PrintArg) (enc : Encoding) (val : Word)

@[simp] theorem emit_trace : (s.emit e).trace = e :: s.trace := rfl
@[simp] theorem emit_launched : (s.emit e).launched = s.launched := rfl

@[simp] theorem printf_trace : (s.printf fmt args).trace = .printf fmt args :: s.trace := rfl
@[simp] theorem printf_current : (s.printf fmt args).current = s.current := rfl
@[simp] theorem printf_fields : (s.printf fmt args).fields = s.fields := rfl
@[simp] theorem printf_cr3 : (s.printf fmt args).cr3 = s.cr3 := rfl

/-- A write to the current structure replaces one field and nothing else. -/
theorem vmcsWrite_eq (h : s.current = true) :
    s.vmcsWrite enc val = { s with fields := fun e => if e = enc then val else s.fields e } := by
  simp only [vmcsWrite, vmwrite, h, ite_true]

@[simp] theorem vmcsWrite_current : (s.vmcsWrite enc val).current = s.current := by
  rw [vmcsWrite, vmwrite]
  split_ifs <;> rfl

/-- The fields after a write to the current structure. -/
theorem vmcsWrite_fields (h : s.current = true) (e : Encoding) :
    (s.vmcsWrite enc val).fields e = if e = enc then val else s.fields e := by
  rw [vmcsWrite_eq s enc val h]

/-- VMWRITE leaves the other fields alone, whether it succeeds or not. -/
theorem vmwrite_fields_ne {e : Encoding} (hne : e ≠ enc) :
    (s.vmwrite enc val).fields e = s.fields e := by
  rw [vmwrite]
  split_ifs
  · exact if_neg hne
  · rfl

theorem vmcsWrite_fields_ne {e : Encoding} (hne : e ≠ enc) :
    (s.vmcsWrite enc val).fields e = s.fields e := by
  rw [vmcsWrite]
  split_ifs
  · exact vmwrite_fields_ne s enc val hne
  · exact vmwrite_fields_ne s enc val hne

theorem vmwrite_trace : (s.vmwrite enc val).trace = s.trace := by
  rw [vmwrite]
  split_ifs <;> rfl

/-- Reading another field gives the same after VMWRITE. -/
theorem vmcsRead_vmwrite {e : Encoding} (hne : e ≠ enc) :
    (s.vmwrite enc val).vmcsRead e = s.vmcsRead e := by
  unfold vmwrite vmcsRead
  split_ifs
  · exact if_neg hne
  · rfl

theorem vmcsRead_eq (h : s.current = true) : s.vmcsRead enc = s.fields enc := if_pos h

end Frames

/-! ## Steps that leave VMX alone -/

/-- The events from `s` to `s'`. -/
def since (s s' : Vm) : List Event := s'.trace.take (s'.trace.length - s.trace.length)

theorem since_eq {s s' : Vm} {es : List Event} (h : s'.trace = es ++ s.trace) :
    since s s' = es := by
  rw [since, h, List.length_append, Nat.add_sub_cancel, List.take_left]

/-- Only output happens from `s` to `s'`. -/
def Prints (s s' : Vm) : Prop := ∃ es, s'.trace = es ++ s.trace ∧ ∀ e ∈ es, e.IsPrintf

theorem Prints.of_trace_eq {s s' : Vm} (h : s'.trace = s.trace) : Prints s s' :=
  ⟨[], h, by simp⟩

theorem Prints.trans {s₁ s₂ s₃ : Vm} (h : Prints s₁ s₂) (h' : Prints s₂ s₃) : Prints s₁ s₃ := by
  obtain ⟨es, hes, hp⟩ := h
  obtain ⟨es', hes', hp'⟩ := h'
  refine ⟨es' ++ es, by rw [hes', hes, List.append_assoc], fun e he => ?_⟩
  rcases List.mem_append.mp he with he | he
  · exact hp' e he
  · exact hp e he

/-- No VMX instruction but VMREAD and VMWRITE is executed from `s` to `s'`, the
launched flag stays and the only events are output. -/
structure Quiet (s s' : Vm) : Prop where
  current : s'.current = s.current
  launched : s'.launched = s.launched
  launchState : s'.launchState = s.launchState
  trace : Prints s s'

/-- A quiet step that also leaves the memory alone. -/
structure Kept (s s' : Vm) : Prop extends Quiet s s' where
  mem : s'.mem = s.mem

theorem Quiet.of_trace_eq {s s' : Vm} (hc : s'.current = s.current) (hl : s'.launched = s.launched)
    (hs : s'.launchState = s.launchState) (ht : s'.trace = s.trace) : Quiet s s' :=
  ⟨hc, hl, hs, .of_trace_eq ht⟩

theorem Quiet.refl (s : Vm) : Quiet s s := .of_trace_eq rfl rfl rfl rfl

theorem Quiet.trans {s₁ s₂ s₃ : Vm} (h : Quiet s₁ s₂) (h' : Quiet s₂ s₃) : Quiet s₁ s₃ :=
  ⟨h'.current.trans h.current, h'.launched.trans h.launched, h'.launchState.trans h.launchState,
    h.trace.trans h'.trace⟩

theorem Kept.refl (s : Vm) : Kept s s := ⟨.refl s, rfl⟩

theorem Kept.trans {s₁ s₂ s₃ : Vm} (h : Kept s₁ s₂) (h' : Kept s₂ s₃) : Kept s₁ s₃ :=
  ⟨h.toQuiet.trans h'.toQuiet, h'.mem.trans h.mem⟩

theorem kept_printf (s : Vm) (fmt : String) (args : List PrintArg) : Kept s (s.printf fmt args) :=
  ⟨⟨rfl, rfl, rfl, [.printf fmt args], rfl, by simp [Event.IsPrintf]⟩, rfl⟩

theorem Kept.printf {s s' : Vm} (h : Kept s s') (fmt : String) (args : List PrintArg) :
    Kept s (s'.printf fmt args) := h.trans (kept_printf s' fmt args)

theorem Quiet.printf {s s' : Vm} (h : Quiet s s') (fmt : String) (args : List PrintArg) :
    Quiet s (s'.printf fmt args) := h.trans (kept_printf s' fmt args).toQuiet

theorem kept_vmwrite (s : Vm) (enc : Encoding) (val : Word) : Kept s (s.vmwrite enc val) := by
  rw [vmwrite]
  split_ifs
  · exact ⟨.of_trace_eq rfl rfl rfl rfl, rfl⟩
  · exact .refl s

theorem kept_vmcsWrite (s : Vm) (enc : Encoding) (val : Word) : Kept s (s.vmcsWrite enc val) := by
  rw [vmcsWrite]
  split_ifs
  · exact kept_vmwrite s enc val
  · exact (kept_vmwrite s enc val).printf _ _

end Vm

end DmfOs
