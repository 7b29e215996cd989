import DmfOs.Vm.State

/-!
# Handling of VM exits

`exit_handler` of `vm.c` with the handlers of hypercalls and of the single exit
reasons, and the reports that `vmx_run` prints. What a resumed exit does to the
guest's instruction pointer and page directory is stated once, for all exit
reasons.
-/

namespace DmfOs

/-- What a handler tells `vmx_run` to do. -/
inductive HandlerRet where
  | start
  | vmexit
  | exit
  | resume
  | vmabort
  | vmskip
  deriving DecidableEq, Repr

/-- The values of `VMX_START` to `VMX_VMSKIP`. -/
def HandlerRet.code : HandlerRet → Word
  | start => 0
  | vmexit => 1
  | exit => 2
  | resume => 3
  | vmabort => 4
  | vmskip => 5

/-- `VMX_VMCALL`. -/
def vmxVmcall : Word := 18

/-- `HYPERCALL_MASK`. -/
def hypercallMask : Word := 0xfff

/-- `HYPERCALL_VMEXIT`. -/
def hypercallVmexit : Word := 1

/-- `HYPERCALL_VMABORT`. -/
def hypercallVmabort : Word := 2

/-- `HYPERCALL_VMSKIP`. -/
def hypercallVmskip : Word := 3

namespace Vm

/-- `print_vmexit_info`. -/
def printVmexitInfo (s : Vm) : Vm :=
  let reason := s.vmcsRead .exiReason &&& 0xff
  let exitQual := s.vmcsRead .exiQualification
  let guestEip := s.vmcsRead .guestRip
  let guestEsp := s.vmcsRead .guestRsp
  let s := s.printf "VMEXIT info:\n" []
  let s := s.printf "    vmexit reason = %d\n" [.num reason]
  let s := s.printf "    exit qualification = %#x\n" [.num exitQual]
  let s := s.printf "    Bit 31 of reason = %x" [.num ((s.vmcsRead .exiReason >>> 31) &&& 1)]
  let s := s.printf "    guest_eip = %#x\n" [.num guestEip]
  let s := s.printf "    EAX=%#x    EBX=%#x    ECX=%#x    EDX=%#x"
    [.num s.regs.gpr.eax, .num s.regs.gpr.ebx, .num s.regs.gpr.ecx, .num s.regs.gpr.edx]
  s.printf "    ESP=%#x    EBP=%#x    ESI=%#x    EDI=%#x"
    [.num guestEsp, .num s.regs.gpr.ebp, .num s.regs.gpr.esi, .num s.regs.gpr.edi]

/-- `is_hypercall`. -/
def isHypercall (s : Vm) : Bool :=
  let reason := s.vmcsRead .exiReason &&& 0xff
  reason == vmxVmcall

/-- `handle_hypercall`. -/
def handleHypercall (s : Vm) : HandlerRet × Vm :=
  let hypercallNo := s.hypercallField &&& hypercallMask
  let s := { s with hypercallField := 0 }
  if hypercallNo = hypercallVmexit then (.vmexit, s.printf "hypercall: VMEXIT\n" [])
  else if hypercallNo = hypercallVmabort then (.vmabort, s.printf "hypercall: VMABORT\n" [])
  else if hypercallNo = hypercallVmskip then (.vmskip, s.printf "hypercall: VMSKIP\n" [])
  else (.exit, s.printf "ERROR : Invalid hypercall number : %d\n" [.num hypercallNo])

/-- The case of exceptions and NMIs. -/
def handleException (s : Vm) (guestEip : Word) : Vm :=
  let intrInfo := s.vmcsRead .exiIntrInfo
  let vector := intrInfo &&& 0xff
  let instLen := s.vmcsRead .exiInstLen
  let cr2 := s.cr2
  let s := s.printf "EXCEPTION: vector=%d CR2=%#x RIP=%#x inst_len=%d\n"
    [.num vector, .num cr2, .num guestEip, .num instLen]
  if vector = 14 then
    let s := s.printf "PAGE FAULT: Attempted write to read-only page at %#x\n" [.num cr2]
    s.vmcsWrite .guestCr3 s.cr3
  else s

/-- The case of an access to CR3. -/
def handleCr3Access (s : Vm) (guestEip : Word) : Vm :=
  let instLen := s.vmcsRead .exiInstLen
  let qual := s.vmcsRead .exiQualification
  let accessType := (qual >>> 4) &&& 1
  let s := s.printf "CR3 ACCESS: type=%s qual=%#x inst_len=%d RIP=%#x\n"
    [.str (if accessType ≠ 0 then "write" else "read"), .num qual, .num instLen, .num guestEip]
  let s := s.vmcsWrite .guestRip (guestEip + instLen)
  if accessType = 1 then s.printf " - CR3 write detected, restoring CR3\n" [] else s

/-- The case of an EPT violation, which returns from the handler itself. -/
def handleEptViolation (s : Vm) (guestEip : Word) : Vm :=
  let gpa := s.vmcsRead .guestPhysicalAddress
  let instLen := s.vmcsRead .entInstLen
  let s := s.printf "EPT VIOLATION: GPA=%#x RIP=%#x" [.num gpa, .num guestEip]
  let s := s.vmcsWrite .guestRip (guestEip + instLen)
  s.vmcsWrite .guestRflags s.regs.eflags

/-- The cases of the switch that fall out of it. -/
def exitSwitch (s : Vm) (reason guestEip : Word) : Vm :=
  if reason = 0 then s.handleException guestEip
  else if reason = 1 then s
  else if reason = 10 then s.vmcsWrite .guestRip (guestEip + 2)
  else if reason = 12 then
    let s := s.printf "HLT VMEXIT: RIP=%#x\n" [.num guestEip]
    s.vmcsWrite .guestRip (guestEip + 1)
  else if reason = 14 then
    let instLen := s.vmcsRead .exiInstLen
    s.vmcsWrite .guestRip (guestEip + instLen)
  else if reason = 28 ∨ reason = 29 then s.handleCr3Access guestEip
  else s

/-- `exit_handler`. -/
def exitHandler (s : Vm) : HandlerRet × Vm :=
  let reason := s.vmcsRead .exiReason &&& 0xff
  let guestEip := s.vmcsRead .guestRip
  let s := { s with regs.eflags := s.vmcsRead .guestRflags }
  if s.isHypercall then
    let s := s.vmcsWrite .guestRip (guestEip + 3)
    let (ret, s) := s.handleHypercall
    (ret, s.vmcsWrite .guestRflags s.regs.eflags)
  else if reason = 48 then (.vmexit, s.handleEptViolation guestEip)
  else
    let s := s.exitSwitch reason guestEip
    (.resume, s.vmcsWrite .guestRflags s.regs.eflags)

/-! ## What the handler does to the guest -/

variable {s : Vm} {reason guestEip : Word}

/-- The exit reason as the handler reads it. -/
def exitReason (s : Vm) : Word := s.fields .exiReason &&& 0xff

/-- The exception vector as the handler reads it. -/
def exitVector (s : Vm) : Word := s.fields .exiIntrInfo &&& 0xff

/-- How far the handler moves the instruction pointer for a reason it resumes. -/
def ripAdvance (reason instLen : Word) : Word :=
  if reason = 10 then 2
  else if reason = 12 then 1
  else if reason = 14 ∨ reason = 28 ∨ reason = 29 then instLen
  else 0

theorem kept_printVmexitInfo (s : Vm) : Kept s s.printVmexitInfo := by
  unfold printVmexitInfo
  dsimp only
  iterate 7 apply Kept.printf
  exact .refl s

theorem kept_handleHypercall (s : Vm) : Kept s s.handleHypercall.2 := by
  have hfield : Kept s { s with hypercallField := 0 } := ⟨.of_trace_eq rfl rfl rfl rfl, rfl⟩
  rw [handleHypercall]
  split_ifs <;> exact hfield.trans (kept_printf _ _ _)

theorem kept_handleException (s : Vm) (guestEip : Word) :
    Kept s (s.handleException guestEip) := by
  rw [handleException]
  dsimp only
  split_ifs
  · exact ((kept_printf s _ _).trans (kept_printf _ _ _)).trans (kept_vmcsWrite _ _ _)
  · exact kept_printf s _ _

theorem kept_handleCr3Access (s : Vm) (guestEip : Word) :
    Kept s (s.handleCr3Access guestEip) := by
  rw [handleCr3Access]
  by_cases ht : (s.vmcsRead .exiQualification >>> 4) &&& 1 = 1
  · rw [if_pos ht]
    exact ((kept_printf s _ _).trans (kept_vmcsWrite _ _ _)).trans (kept_printf _ _ _)
  · rw [if_neg ht]
    exact (kept_printf s _ _).trans (kept_vmcsWrite _ _ _)

theorem kept_exitSwitch (s : Vm) (reason guestEip : Word) :
    Kept s (s.exitSwitch reason guestEip) := by
  rw [exitSwitch]
  split_ifs
  · exact kept_handleException s guestEip
  · exact .refl s
  · exact kept_vmcsWrite s _ _
  · exact (kept_printf s _ _).trans (kept_vmcsWrite _ _ _)
  · exact kept_vmcsWrite s _ _
  · exact kept_handleCr3Access s guestEip
  · exact .refl s

/-- `exit_handler` prints and writes fields. -/
theorem kept_exitHandler (s : Vm) : Kept s s.exitHandler.2 := by
  have heflags : Kept s { s with regs.eflags := s.vmcsRead .guestRflags } :=
    ⟨.of_trace_eq rfl rfl rfl rfl, rfl⟩
  rw [exitHandler]
  dsimp only
  split_ifs
  · exact ((heflags.trans (kept_vmcsWrite _ _ _)).trans (kept_handleHypercall _)).trans
      (kept_vmcsWrite _ _ _)
  · exact ((heflags.trans (kept_printf _ _ _)).trans (kept_vmcsWrite _ _ _)).trans
      (kept_vmcsWrite _ _ _)
  · exact (heflags.trans (kept_exitSwitch _ _ _)).trans (kept_vmcsWrite _ _ _)

theorem exitVector_eq (h : s.current = true) :
    s.vmcsRead .exiIntrInfo &&& 0xff = exitVector s := by
  rw [vmcsRead_eq s _ h, exitVector]

theorem exitReason_eq (h : s.current = true) :
    s.vmcsRead .exiReason &&& 0xff = exitReason s := by
  rw [vmcsRead_eq s _ h, exitReason]

/-- An exception changes `GUEST_CR3` for a page fault and no other field. -/
theorem handleException_fields (h : s.current = true) (guestEip : Word) (e : Encoding) :
    (s.handleException guestEip).fields e =
      if exitVector s = 14 ∧ e = .guestCr3 then s.cr3 else s.fields e := by
  simp only [handleException, exitVector_eq h]
  by_cases hv : exitVector s = 14
  · rw [if_pos hv, vmcsWrite_fields _ _ _ (by simpa using h)]
    simp only [hv, true_and, printf_cr3, printf_fields]
  · have hno : ¬ (exitVector s = 14 ∧ e = .guestCr3) := fun hc => hv hc.1
    rw [if_neg hv, if_neg hno]
    rfl

/-- An access to CR3 moves the instruction pointer and changes no other field. -/
theorem handleCr3Access_fields (h : s.current = true) (guestEip : Word) (e : Encoding) :
    (s.handleCr3Access guestEip).fields e =
      if e = .guestRip then guestEip + s.fields .exiInstLen else s.fields e := by
  simp only [handleCr3Access, vmcsRead_eq s _ h]
  by_cases ht : (s.fields .exiQualification >>> 4) &&& 1 = 1
  · rw [if_pos ht, printf_fields, vmcsWrite_fields _ _ _ (by simpa using h)]
    rfl
  · rw [if_neg ht, vmcsWrite_fields _ _ _ (by simpa using h)]
    rfl

/-- The fields after the switch: the page directory moves for a page fault, the
instruction pointer for the reasons that advance it. -/
theorem exitSwitch_fields (h : s.current = true) (reason : Word) :
    (s.exitSwitch reason (s.fields .guestRip)).fields .guestRip =
        s.fields .guestRip + ripAdvance reason (s.fields .exiInstLen) ∧
      (s.exitSwitch reason (s.fields .guestRip)).fields .guestCr3 =
        if reason = 0 ∧ exitVector s = 14 then s.cr3 else s.fields .guestCr3 := by
  by_cases h0 : reason = 0
  · subst h0
    simp only [exitSwitch, ite_true, handleException_fields h, true_and, and_true]
    simp [ripAdvance]
  have hcr3 : ¬ (reason = 0 ∧ exitVector s = 14) := fun hc => h0 hc.1
  simp only [exitSwitch, ripAdvance, if_neg h0, if_neg hcr3]
  by_cases h1 : reason = 1
  · subst h1
    simp
  simp only [if_neg h1]
  by_cases h10 : reason = 10
  · simp [h10, vmcsWrite_fields, h]
  simp only [if_neg h10]
  by_cases h12 : reason = 12
  · simp [h12, vmcsWrite_fields, h]
  simp only [if_neg h12]
  by_cases h14 : reason = 14
  · simp [h14, vmcsWrite_fields, h, vmcsRead_eq s _ h]
  simp only [h14, false_or, ite_false]
  by_cases hcr : reason = 28 ∨ reason = 29
  · rw [if_pos hcr, if_pos hcr, handleCr3Access_fields h, handleCr3Access_fields h]
    simp
  · rw [if_neg hcr, if_neg hcr]
    simp

theorem isHypercall_iff (h : s.current = true) : s.isHypercall = true ↔ exitReason s = 18 := by
  rw [isHypercall, exitReason_eq h, vmxVmcall, beq_iff_eq]

/-- The state in which the handler has saved the guest's flags. -/
def withEflags (s : Vm) : Vm := { s with regs.eflags := s.vmcsRead .guestRflags }

/-- The state in which a hypercall is handled. -/
def atHypercall (s : Vm) : Vm := s.withEflags.vmcsWrite .guestRip (s.vmcsRead .guestRip + 3)

/-- The handler of a VMCALL. -/
theorem exitHandler_of_hypercall (hcall : s.isHypercall = true) :
    s.exitHandler = (s.atHypercall.handleHypercall.1,
      s.atHypercall.handleHypercall.2.vmcsWrite .guestRflags
        s.atHypercall.handleHypercall.2.regs.eflags) := by
  rw [exitHandler]
  exact if_pos hcall

/-- The handler of an EPT violation. -/
theorem exitHandler_of_ept (hcall : ¬ s.isHypercall = true)
    (hept : s.vmcsRead .exiReason &&& 0xff = 48) :
    s.exitHandler = (.vmexit, s.withEflags.handleEptViolation (s.vmcsRead .guestRip)) := by
  rw [exitHandler]
  exact (if_neg hcall).trans (if_pos hept)

/-- The handler of every other exit. -/
theorem exitHandler_of_resumed (hcall : ¬ s.isHypercall = true)
    (hept : s.vmcsRead .exiReason &&& 0xff ≠ 48) :
    ∃ t, t = s.withEflags.exitSwitch (s.vmcsRead .exiReason &&& 0xff) (s.vmcsRead .guestRip) ∧
      s.exitHandler = (.resume, t.vmcsWrite .guestRflags t.regs.eflags) := by
  refine ⟨_, rfl, ?_⟩
  rw [exitHandler]
  exact (if_neg hcall).trans (if_neg hept)

/-- A hypercall is never resumed, and its instruction pointer moves by 3. -/
theorem exitHandler_hypercall (h : s.current = true) (hr : exitReason s = 18) :
    s.exitHandler.1 ≠ .resume ∧
      s.exitHandler.2.fields .guestRip = s.fields .guestRip + 3 := by
  have hkept := kept_handleHypercall s.atHypercall
  have ht : s.atHypercall.current = true := (kept_vmcsWrite _ _ _).current.trans h
  have hfields : s.atHypercall.handleHypercall.2.fields = s.atHypercall.fields := by
    rw [handleHypercall]
    split_ifs <;> rfl
  rw [exitHandler_of_hypercall ((isHypercall_iff h).mpr hr)]
  constructor
  · rw [handleHypercall]
    split_ifs <;> simp
  · rw [vmcsWrite_fields _ _ _ (hkept.current.trans ht), if_neg (by decide), hfields]
    change (s.withEflags.vmcsWrite .guestRip _).fields .guestRip = _
    rw [vmcsWrite_fields s.withEflags _ _ h, if_pos rfl, vmcsRead_eq s _ h]

/-- An exit for another reason is no hypercall. -/
theorem not_isHypercall (h : s.current = true) (hr : exitReason s ≠ 18) :
    ¬ s.isHypercall = true := fun hc => hr ((isHypercall_iff h).mp hc)

/-- An EPT violation ends the run. -/
theorem exitHandler_ept (h : s.current = true) (hr : exitReason s = 48) :
    s.exitHandler.1 = .vmexit := by
  have hcall : ¬ s.isHypercall = true := not_isHypercall h (by rw [hr]; decide)
  rw [exitHandler_of_ept hcall ((exitReason_eq h).trans hr)]

/-- Every other exit is resumed, with the effect of the switch. -/
theorem exitHandler_resumed (h : s.current = true) (hr : exitReason s ≠ 18)
    (hept : exitReason s ≠ 48) :
    s.exitHandler.1 = .resume ∧
      s.exitHandler.2.fields .guestRip =
        s.fields .guestRip + ripAdvance (exitReason s) (s.fields .exiInstLen) ∧
      s.exitHandler.2.fields .guestCr3 =
        if exitReason s = 0 ∧ exitVector s = 14 then s.cr3 else s.fields .guestCr3 := by
  obtain ⟨t, ht, hval⟩ := exitHandler_of_resumed (not_isHypercall h hr)
    (by rwa [exitReason_eq h])
  rw [exitReason_eq h, vmcsRead_eq s _ h] at ht
  obtain ⟨hrip, hcr3⟩ := exitSwitch_fields (s := s.withEflags) h (exitReason s)
  have hkept := kept_exitSwitch s.withEflags (exitReason s) (s.fields .guestRip)
  have hcur : t.current = true := by
    rw [ht]
    exact hkept.current.trans h
  rw [hval]
  refine ⟨rfl, ?_, ?_⟩
  · rw [vmcsWrite_fields _ _ _ hcur, if_neg (by decide), ht]
    exact hrip
  · rw [vmcsWrite_fields _ _ _ hcur, if_neg (by decide), ht]
    exact hcr3

end Vm

end DmfOs
