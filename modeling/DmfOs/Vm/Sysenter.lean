import DmfOs.Vm.View

/-!
# System calls of the guest

SYSENTER in the guest runs `entry_sysenter` on the stack for system calls. The
registers are exchanged with `regs` before the call of `vm_syscall_handler` and
again after it. The first exchange brings the host's registers back, so that the
mask, the move and the call act on these and not on the guest's.
-/

namespace DmfOs

/-- What a C function leaves in the registers that it does not preserve. -/
structure Scratch where
  eax : Word
  ecx : Word
  edx : Word
  deriving DecidableEq, Repr

/-- The registers after the call of a C function. -/
def Gpr.afterCall (g : Gpr) (left : Scratch) : Gpr :=
  { g with eax := left.eax, ecx := left.ecx, edx := left.edx }

/-- The word that a push stores below the stack leaves the top of the stack alone. -/
theorem Memory.load32_push (m : Memory) (esp val : Word) :
    (m.store32 (esp - 4) val).load32 (esp - 4 + 4) = m.load32 esp := by
  have hdisj : Disjoint (Memory.span esp 4) (Memory.span (esp - 4) 4) := by
    rw [Set.disjoint_left]
    intro x hx hy
    rw [Memory.mem_span] at hx hy
    bv_omega
  rw [BitVec.sub_add_cancel]
  exact (writesIn_store32 m (esp - 4) val).load32_eq hdisj

namespace Vm

/-- `vm_syscall_handler`. -/
def vmSyscallHandler (s : Vm) (no : Word) (left : Scratch) : Vm :=
  let s := s.printf "no: %x\n" [.num no]
  { s with gpr := s.gpr.afterCall left }

/-- `call vm_syscall_handler`, with the address that it pushes. The function finds its
argument above that address. -/
def callVmSyscallHandler (s : Vm) (ret : Word) (left : Scratch) : Vm :=
  let s := { s with esp := s.esp - 4, mem := s.mem.store32 (s.esp - 4) ret }
  let s := s.vmSyscallHandler (s.mem.load32 (s.esp + 4)) left
  { s with esp := s.esp + 4 }

/-- `entry_sysenter` up to its last instruction, VMRESUME. -/
def entrySysenter (s : Vm) (ret : Word) (left : Scratch) : Vm :=
  let s := s.xchgGpr
  let s := { s with gpr.eax := s.gpr.eax &&& 0xf }
  let s := { s with gpr.edi := s.gpr.eax }
  let s := s.callVmSyscallHandler ret left
  s.xchgGpr

/-- The handler is called for the guest's `eax`, and both register files survive. -/
structure KeepsSysenter (s s' : Vm) : Prop where
  argument : s'.trace = .printf "no: %x\n" [.num (s.gpr.eax &&& 0xf)] :: s.trace
  guest : s'.gpr = s.gpr
  host : s'.regs.gpr = s.regs.gpr

/-- The top of the stack happens to hold the argument, and the host's registers the
values that the path leaves in them. -/
structure SysenterFits (s : Vm) (left : Scratch) : Prop where
  argument : s.mem.load32 s.esp = s.gpr.eax &&& 0xf
  eax : left.eax = s.regs.gpr.eax
  ecx : left.ecx = s.regs.gpr.ecx
  edx : left.edx = s.regs.gpr.edx
  edi : s.regs.gpr.eax &&& 0xf = s.regs.gpr.edi

variable (s : Vm) (ret : Word) (left : Scratch)

/-- The call prints the word on top of the stack. -/
theorem callVmSyscallHandler_trace : (s.callVmSyscallHandler ret left).trace =
    .printf "no: %x\n" [.num (s.mem.load32 s.esp)] :: s.trace := by
  rw [← Memory.load32_push s.mem s.esp ret]
  rfl

theorem entrySysenter_trace : (s.entrySysenter ret left).trace =
    .printf "no: %x\n" [.num (s.mem.load32 s.esp)] :: s.trace := by
  unfold entrySysenter
  exact callVmSyscallHandler_trace _ ret left

/-- The guest's registers wait in `regs` meanwhile. -/
theorem entrySysenter_gpr : (s.entrySysenter ret left).gpr = s.gpr := rfl

/-- What the path does to the host's registers. -/
theorem entrySysenter_saved : (s.entrySysenter ret left).regs.gpr =
    { s.regs.gpr.afterCall left with edi := s.regs.gpr.eax &&& 0xf } := rfl

/-- A system call of the guest is served and leaves both register files alone if and only
if everything fits already. -/
theorem keepsSysenter_iff :
    KeepsSysenter s (s.entrySysenter ret left) ↔ SysenterFits s left := by
  constructor
  · rintro ⟨harg, -, hhost⟩
    rw [entrySysenter_trace] at harg
    rw [entrySysenter_saved, Gpr.afterCall] at hhost
    injection harg with hevent
    injection hevent with _ hargs
    injection hargs with hnum
    injection hnum with hword
    exact ⟨hword, congrArg Gpr.eax hhost, congrArg Gpr.ecx hhost, congrArg Gpr.edx hhost,
      congrArg Gpr.edi hhost⟩
  · rintro ⟨harg, heax, hecx, hedx, hedi⟩
    refine ⟨by rw [entrySysenter_trace, harg], entrySysenter_gpr s ret left, ?_⟩
    rw [entrySysenter_saved, Gpr.afterCall, heax, hecx, hedx, hedi]

/-- `vmx_enter_guest` leaves the encoding of `HOST_RSP` in the host's `edi`, and no system
call of the guest keeps it. -/
theorem not_keepsSysenter_of_prepared (h : s.regs.gpr.edi = Encoding.hostRsp.code) :
    ¬ KeepsSysenter s (s.entrySysenter ret left) := by
  rintro ⟨-, -, hhost⟩
  have hedi : s.regs.gpr.eax &&& 0xf = Encoding.hostRsp.code :=
    (congrArg Gpr.edi hhost).trans h
  have hle : (s.regs.gpr.eax &&& 0xf).toNat ≤ 0xf := by
    rw [BitVec.toNat_and]
    exact Nat.and_le_right
  rw [hedi] at hle
  exact absurd hle (by decide)

/-- The first system call of a guest that was entered with zero registers. -/
theorem not_keepsSysenter :
    ¬ ∀ (s : Vm) (ret : Word) (left : Scratch), KeepsSysenter s (s.entrySysenter ret left) := by
  intro hall
  have hedi : (initial ⟨fun _ => 0, []⟩).prepareEntry.regs.gpr.edi = Encoding.hostRsp.code :=
    congrArg (fun v : View => v.saved.edi) (view_prepareEntry _)
  exact not_keepsSysenter_of_prepared _ 0 ⟨0, 0, 0⟩ hedi (hall _ _ _)

end Vm

end DmfOs
