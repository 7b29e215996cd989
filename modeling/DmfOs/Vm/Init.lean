import DmfOs.Vm.Run
import DmfOs.Paging.Tables

/-!
# Switching VMX on and off

`virt_enable` before and after its call of `vmx_run`: the checks for VMX, the
regions of VMXON and of the control structure, and the initial content of the
structure. The results of the VMX instructions are parameters.
-/

namespace DmfOs

/-- Addresses of objects and code that the control structure refers to. -/
structure Image where
  gdtTable : Word
  idtTable : Word
  entrySysenter : Word
  vmxReturn : Word
  guestEntry : Word
  guestStack : Word
  guestSyscallStack : Word
  guestPageDir : Word
  guestPageTable : Word
  deriving DecidableEq, Repr

/-- How the VMX instructions of one call of `virt_enable` end up to its call of
`vmx_run`: whether they succeed, what the loaded structure then holds, and the
value that `clear_ptrld` leaves as its result without returning one. -/
structure EnableResults where
  vmxon : Bool
  vmclear : Bool
  vmptrld : Bool
  fields : Encoding → Word
  eax : Word

/-- The halves of a capability register. -/
def VmxCtrlMsr.ofVal (v : BitVec 64) : VmxCtrlMsr := ⟨v.setWidth 32, (v >>> 32).setWidth 32⟩

/-- `MSR_IA32_FEATURE_CONTROL`. -/
def msrIa32FeatureControl : Word := 0x3a

/-- `MSR_IA32_VMX_BASIC`. -/
def msrIa32VmxBasic : Word := 0x480

/-- `MSR_IA32_VMX_PINBASED_CTLS`. -/
def msrIa32VmxPinbasedCtls : Word := 0x481

/-- `MSR_IA32_VMX_PROCBASED_CTLS`. -/
def msrIa32VmxProcbasedCtls : Word := 0x482

/-- `MSR_IA32_VMX_EXIT_CTLS`. -/
def msrIa32VmxExitCtls : Word := 0x483

/-- `MSR_IA32_VMX_ENTRY_CTLS`. -/
def msrIa32VmxEntryCtls : Word := 0x484

/-- `MSR_IA32_VMX_CR0_FIXED0`. -/
def msrIa32VmxCr0Fixed0 : Word := 0x486

/-- `MSR_IA32_VMX_CR0_FIXED1`. -/
def msrIa32VmxCr0Fixed1 : Word := 0x487

/-- `MSR_IA32_VMX_CR4_FIXED0`. -/
def msrIa32VmxCr4Fixed0 : Word := 0x488

/-- `MSR_IA32_VMX_CR4_FIXED1`. -/
def msrIa32VmxCr4Fixed1 : Word := 0x489

/-- `MSR_IA32_VMX_PROCBASED_CTLS2`. -/
def msrIa32VmxProcbasedCtls2 : Word := 0x48b

/-- `MSR_IA32_VMX_EPT_VPID_CAP`. -/
def msrIa32VmxEptVpidCap : Word := 0x48c

/-- `MSR_IA32_VMX_TRUE_PIN`. -/
def msrIa32VmxTruePin : Word := 0x48d

/-- `MSR_IA32_VMX_TRUE_PROC`. -/
def msrIa32VmxTrueProc : Word := 0x48e

/-- `MSR_IA32_VMX_TRUE_EXIT`. -/
def msrIa32VmxTrueExit : Word := 0x48f

/-- `MSR_IA32_VMX_TRUE_ENTRY`. -/
def msrIa32VmxTrueEntry : Word := 0x490

/-- `KERNEL_CODE_SEG`. -/
def kernelCodeSeg : Word := 1 * 8

/-- `KERNEL_DATA_SEG`. -/
def kernelDataSeg : Word := 2 * 8

/-- The address of `vmxon_region`. -/
def vmxonRegion : Word := 0x201000

/-- The address of `vmcs`. -/
def vmcsRegion : Word := 0x202000

/-- `CPU_SECONDARY`. -/
def cpuSecondary : Word := 1 <<< 31

/-- `CPU_EPT` and `CPU_VPID`. -/
def cpuEptVpid : Word := (1 <<< 1) ||| (1 <<< 5)

/-- `PIN_NMI` and `PIN_VIRT_NMI`. -/
def pinNmis : Word := (1 <<< 3) ||| (1 <<< 5)

/-- `CPU_IO` and `CPU_IO_BITMAP`. -/
def cpuIos : Word := (1 <<< 24) ||| (1 <<< 25)

/-- `CPU_CR3_LOAD` and `CPU_CR3_STORE`. -/
def cpuCr3 : Word := (1 <<< 15) ||| (1 <<< 16)

/-- `CPU_HLT`. -/
def cpuHlt : Word := 1 <<< 7

/-- `X86_CR4_VMXE`. -/
def x86Cr4Vmxe : Word := 0x2000

/-- `X86_CR4_PCIDE`, with the value that the source gives it. -/
def x86Cr4Pcide : Word := 0x20000

/-- `X86_CR0_PE`. -/
def x86Cr0Pe : Word := 1

/-- `X86_CR0_WP`. -/
def x86Cr0Wp : Word := 0x10000

/-- `X86_CR0_PG`. -/
def x86Cr0Pg : Word := 0x80000000

namespace Vm

/-- `is_vmx_supported`. -/
def isVmxSupported (s : Vm) : Bool × Vm :=
  let ecx := s.cpuidEcx
  let s := s.printf "ecx: %x\n" [.num ecx]
  if ecx &&& (1 <<< 5) ≠ 0 then
    let s := s.printf "This cpu support vt\n" []
    let mdCheck := (s.msr msrIa32FeatureControl).setWidth 32
    if mdCheck &&& 0x5 = 0x5 then (true, s.printf "VMX enabled and locked by BIOS\n" [])
    else if mdCheck &&& 0x1 ≠ 0 then
      (false, s.printf "ERROR: VMX locked out by BIOS without enabled\n" [])
    else (true, { s with msr := fun i => if i = msrIa32FeatureControl then 0x5 else s.msr i })
  else (false, s.printf "This cpu don't support vt\n" [])

/-- `init_vmx`. -/
def initVmx (s : Vm) : Vm :=
  let s := { s with mem := memset vmxonRegion 0 4096 s.mem }
  let fixCr0Set := (s.msr msrIa32VmxCr0Fixed0).setWidth 32
  let fixCr0Clr := (s.msr msrIa32VmxCr0Fixed1).setWidth 32
  let fixCr4Set := (s.msr msrIa32VmxCr4Fixed0).setWidth 32
  let fixCr4Clr := (s.msr msrIa32VmxCr4Fixed1).setWidth 32
  let s := { s with basic := s.msr msrIa32VmxBasic }
  let s := { s with
    cr0 := (s.cr0 &&& fixCr0Clr) ||| fixCr0Set
    cr4 := (s.cr4 &&& fixCr4Clr) ||| fixCr4Set ||| x86Cr4Vmxe }
  { s with mem := s.mem.store32 vmxonRegion (s.basic.setWidth 32) }

/-- `vmx_on`, true on failure. VMXON leaves no structure current. -/
def vmxOn (s : Vm) (r : EnableResults) : Bool × Vm :=
  if r.vmxon then (false, { s with current := false }) else (true, s)

/-- `vmcs_clear`, true on failure. -/
def vmcsClear (s : Vm) (r : EnableResults) : Bool × Vm :=
  if r.vmclear then (false, { s with current := false, launchState := .clear }) else (true, s)

/-- `make_vmcs_current`, true on failure. -/
def makeVmcsCurrent (s : Vm) (r : EnableResults) : Bool × Vm :=
  if r.vmptrld then (false, { s with current := true, fields := r.fields }) else (true, s)

/-- `clear_ptrld`. The revision has 31 bits in the header of the structure. -/
def clearPtrld (s : Vm) (r : EnableResults) : Word × Vm :=
  let s := { s with mem := memset vmcsRegion 0 4096 s.mem }
  let s := { s with mem := s.mem.store32 vmcsRegion (s.basic.setWidth 32 &&& 0x7fffffff) }
  let (failed, s) := s.vmcsClear r
  if failed then (1, s.printf "%s : vmcs_clear error\n" [.str "clear_ptrld"])
  else
    let (failed, s) := s.makeVmcsCurrent r
    if failed then (1, s.printf "%s : make_vmcs_current error\n" [.str "clear_ptrld"])
    else (r.eax, s)

/-- A sequence of `vmcs_write`. -/
def vmcsWrites (s : Vm) (ws : List (Encoding × Word)) : Vm :=
  ws.foldl (fun s w => s.vmcsWrite w.1 w.2) s

/-- `init_page_table_test`. -/
def initPageTableTest (s : Vm) : Vm :=
  let s := s.printf "Page table test: Guest will write to read-only code segment\n" []
  let s := s.printf "Test address (code segment): %#x\n" [.num testReadonlyAddr]
  s.printf "CR0.WP is enabled in guest\n" []

/-- The secondary controls in `init_vmcs_ctrl`. -/
def initSecondaryCtrl (s : Vm) : Vm :=
  if s.ctrlCpuRev0.set &&& cpuSecondary ≠ 0 then
    let s := { s with ctrlCpu1 := (s.ctrlCpu1 ||| s.ctrlCpuRev1.set) &&& s.ctrlCpuRev1.clr }
    s.vmcsWrite .cpuExecCtrl1 s.ctrlCpu1
  else s

/-- `init_vmcs_ctrl`. -/
def initVmcsCtrl (s : Vm) : Vm :=
  let s := s.vmcsWrites [(.pinControls, s.ctrlPin), (.cpuExecCtrl0, s.ctrlCpu0)]
  let s := s.initSecondaryCtrl
  let s := s.vmcsWrites [(.cr3TargetCount, 0), (.excBitmap, 0xffffffff)]
  s.printf "EXC_BITMAP set to %#x\n" [.num 0xffffffff]

/-- `init_vmcs_host`. -/
def initVmcsHost (s : Vm) (img : Image) : Vm :=
  s.vmcsWrites [
    (.entControls, s.ctrlEnter), (.exiControls, s.ctrlExit),
    (.hostCr0, s.cr0), (.hostCr3, s.cr3), (.hostCr4, s.cr4),
    (.hostSysenterEip, img.entrySysenter), (.hostSysenterCs, kernelCodeSeg),
    (.hostSelCs, kernelCodeSeg), (.hostSelSs, kernelDataSeg), (.hostSelDs, kernelDataSeg),
    (.hostSelEs, kernelDataSeg), (.hostSelFs, kernelDataSeg), (.hostSelGs, kernelDataSeg),
    (.hostSelTr, 0x80), (.hostBaseTr, 0x9000 + 0x80),
    (.hostBaseGdtr, img.gdtTable), (.hostBaseIdtr, img.idtTable),
    (.hostBaseFs, 0), (.hostBaseGs, 0),
    (.pfErrorMask, 0), (.pfErrorMatch, 0),
    (.vmcsLinkPtr, 0xffffffff), (.vmcsLinkPtrHi, 0xffffffff),
    (.hostRip, img.vmxReturn)]

/-- `setup_guest_page_tables`. -/
def setupGuestPageTables (s : Vm) (img : Image) : Word × Vm :=
  let s := s.printf "Setting up guest page tables...\n" []
  let (dir, m) := DmfOs.setupGuestPageTables img.guestPageDir img.guestPageTable s.mem
  let testPageIdx := testReadonlyAddr >>> 12
  let s := { s with mem := m }
  let s := s.printf "Guest page directory at %#x\n" [.num img.guestPageDir]
  let s := s.printf "Guest page table at %#x\n" [.num img.guestPageTable]
  let s := s.printf "Test page %#x (index %d) set to READ-ONLY\n"
    [.num (testPageIdx <<< 12), .num testPageIdx]
  (dir, s)

/-- `init_vmcs_guest`. -/
def initVmcsGuest (s : Vm) (img : Image) : Vm :=
  let guestCr0 := s.cr0
  let (guestCr3, s) := s.setupGuestPageTables img
  let guestCr4 := s.cr4 &&& ~~~x86Cr4Pcide
  let guestCr0 := if guestCr0 &&& x86Cr0Pg ≠ 0 then guestCr0 ||| x86Cr0Pe else guestCr0
  let guestCr0 := guestCr0 ||| x86Cr0Wp
  s.vmcsWrites [
    (.guestCr0, guestCr0), (.guestCr3, guestCr3), (.guestCr4, guestCr4),
    (.guestSelCs, kernelCodeSeg), (.guestBaseCs, 0), (.guestLimitCs, 0xffffffff),
    (.guestArCs, 0xc09b),
    (.guestSelSs, kernelDataSeg), (.guestBaseSs, 0), (.guestLimitSs, 0xffffffff),
    (.guestArSs, 0xc093),
    (.guestSelDs, kernelDataSeg), (.guestBaseDs, 0), (.guestLimitDs, 0xffffffff),
    (.guestArDs, 0xc093),
    (.guestSelEs, kernelDataSeg), (.guestBaseEs, 0), (.guestLimitEs, 0xffffffff),
    (.guestArEs, 0xc093),
    (.guestSelFs, kernelDataSeg), (.guestBaseFs, 0), (.guestLimitFs, 0xffffffff),
    (.guestArFs, 0xc093),
    (.guestSelGs, kernelDataSeg), (.guestBaseGs, 0), (.guestLimitGs, 0xffffffff),
    (.guestArGs, 0xc093),
    (.guestSelLdtr, 0), (.guestBaseLdtr, 0), (.guestLimitLdtr, 0xffff), (.guestArLdtr, 0x82),
    (.guestSelTr, 0x80), (.guestBaseTr, 0x9000 + 0x80), (.guestLimitTr, 0xffff),
    (.guestArTr, 0x8b),
    (.guestSysenterCs, kernelCodeSeg), (.guestSysenterEsp, img.guestSyscallStack + 4096),
    (.guestSysenterEip, img.entrySysenter), (.guestDr7, 0),
    (.guestBaseGdtr, img.gdtTable), (.guestBaseIdtr, img.idtTable),
    (.guestLimitGdtr, 0x7ff), (.guestLimitIdtr, 0x7ff),
    (.guestRip, img.guestEntry), (.guestRsp, img.guestStack + 4096), (.guestRflags, 0x2),
    (.guestActvState, 0), (.guestIntrState, 0)]

/-- The capabilities and controls in `vmcs_init`. -/
def vmcsControls (s : Vm) : Vm :=
  let ctrl := s.basic.getLsbD 55
  let s := { s with
    ctrlPinRev := .ofVal (s.msr (if ctrl then msrIa32VmxTruePin else msrIa32VmxPinbasedCtls)) }
  let s := { s with
    ctrlExitRev := .ofVal (s.msr (if ctrl then msrIa32VmxTrueExit else msrIa32VmxExitCtls)) }
  let s := { s with
    ctrlEnterRev := .ofVal (s.msr (if ctrl then msrIa32VmxTrueEntry else msrIa32VmxEntryCtls)) }
  let s := { s with
    ctrlCpuRev0 := .ofVal (s.msr (if ctrl then msrIa32VmxTrueProc else msrIa32VmxProcbasedCtls)) }
  let s := { s with
    ctrlCpuRev1 :=
      if s.ctrlCpuRev0.clr &&& cpuSecondary ≠ 0 then .ofVal (s.msr msrIa32VmxProcbasedCtls2)
      else .ofVal 0 }
  let s := { s with
    eptVpid := if s.ctrlCpuRev1.clr &&& cpuEptVpid ≠ 0 then s.msr msrIa32VmxEptVpidCap else 0 }
  let s := { s with
    ctrlPin := s.ctrlPin ||| pinNmis
    ctrlExit := 0
    ctrlEnter := 0
    ctrlCpu0 := (s.ctrlCpu0 &&& ~~~cpuIos) ||| cpuCr3 ||| cpuHlt
    ctrlCpu1 := 0 }
  { s with
    ctrlPin := (s.ctrlPin ||| s.ctrlPinRev.set) &&& s.ctrlPinRev.clr
    ctrlEnter := (s.ctrlEnter ||| s.ctrlEnterRev.set) &&& s.ctrlEnterRev.clr
    ctrlExit := (s.ctrlExit ||| s.ctrlExitRev.set) &&& s.ctrlExitRev.clr
    ctrlCpu0 := (s.ctrlCpu0 ||| s.ctrlCpuRev0.set) &&& s.ctrlCpuRev0.clr }

/-- `vmcs_init`. -/
def vmcsInit (s : Vm) (img : Image) : Vm :=
  let s := s.vmcsControls
  let s := s.initPageTableTest
  let s := s.initVmcsCtrl
  let s := s.initVmcsHost img
  s.initVmcsGuest img

/-- `virt_enable` between VMXON and its call of `vmx_run`. -/
def prepareVmcs (s : Vm) (img : Image) (r : EnableResults) : Vm :=
  let (ret, s) := s.clearPtrld r
  let s :=
    if ret ≠ 0 then s.printf "Error: %s : vmclear vmptrld failed\n" [.str "virt_enable"] else s
  s.vmcsInit img

/-- `virt_enable` up to its call of `vmx_run`; false when it returns before. -/
def virtEnableBegin (s : Vm) (img : Image) (r : EnableResults) : Bool × Vm :=
  let (supported, s) := s.isVmxSupported
  if !supported then (false, s.printf "vmx is not support\n" [])
  else
    let s := s.initVmx
    let (failed, s) := s.vmxOn r
    if failed then (false, s.printf "Error: %s : vmxon failed\n" [.str "virt_enable"])
    else (true, s.prepareVmcs img r)

/-- `virt_enable` after its call of `vmx_run`, with the success of VMXOFF. -/
def virtEnableEnd (s : Vm) (vmxoff : Bool) : Vm :=
  if vmxoff then ({ s with current := false }).printf "vmx test finished\n" []
  else s.printf "Error: %s : vmxoff failed\n" [.str "virt_enable"]

/-- `virt_enable`, without a result when the outcomes end before `vmx_run` returns. -/
def virtEnable (s : Vm) (img : Image) (r : EnableResults) (os : List EntryOutcome)
    (vmxoff : Bool) : Option Vm :=
  match s.virtEnableBegin img r with
  | (false, s) => some s
  | (true, s) => (vmxRun os s).map (·.virtEnableEnd vmxoff)

/-! ## What initialising leaves alone -/

/-- Initialising the structure writes fields and prints. -/
theorem quiet_vmcsWrites (s : Vm) (ws : List (Encoding × Word)) : Quiet s (s.vmcsWrites ws) := by
  induction ws generalizing s with
  | nil => exact .refl s
  | cons w ws ih => exact (kept_vmcsWrite s w.1 w.2).toQuiet.trans (ih _)

theorem quiet_initSecondaryCtrl (s : Vm) : Quiet s s.initSecondaryCtrl := by
  have hctrl (w : Word) : Quiet s { s with ctrlCpu1 := w } := .of_trace_eq rfl rfl rfl rfl
  rw [initSecondaryCtrl]
  split_ifs
  · exact (hctrl _).trans (kept_vmcsWrite _ _ _).toQuiet
  · exact .refl s

theorem quiet_initVmcsCtrl (s : Vm) : Quiet s s.initVmcsCtrl :=
  (((quiet_vmcsWrites s _).trans (quiet_initSecondaryCtrl _)).trans
    (quiet_vmcsWrites _ _)).printf _ _

theorem quiet_setupGuestPageTables (s : Vm) (img : Image) :
    Quiet s (s.setupGuestPageTables img).2 := by
  have hmem (t : Vm) (m : Memory) : Quiet t { t with mem := m } := .of_trace_eq rfl rfl rfl rfl
  exact (((((Quiet.refl s).printf _ _).trans (hmem _ _)).printf _ _).printf _ _).printf _ _

theorem quiet_initVmcsGuest (s : Vm) (img : Image) : Quiet s (s.initVmcsGuest img) :=
  (quiet_setupGuestPageTables s img).trans (quiet_vmcsWrites _ _)

theorem quiet_vmcsInit (s : Vm) (img : Image) : Quiet s (s.vmcsInit img) := by
  have hcontrols : Quiet s s.vmcsControls := .of_trace_eq rfl rfl rfl rfl
  have htest (t : Vm) : Quiet t t.initPageTableTest :=
    (((Quiet.refl t).printf _ _).printf _ _).printf _ _
  exact (((hcontrols.trans (htest _)).trans (quiet_initVmcsCtrl _)).trans
    (quiet_vmcsWrites _ _)).trans (quiet_initVmcsGuest _ img)

/-- Fields that are not written keep their value. -/
theorem vmcsWrites_fields {e : Encoding} (s : Vm) {ws : List (Encoding × Word)}
    (h : e ∉ ws.map Prod.fst) : (s.vmcsWrites ws).fields e = s.fields e := by
  induction ws generalizing s with
  | nil => rfl
  | cons w ws ih =>
    rw [List.map_cons, List.mem_cons, not_or] at h
    exact (ih (s.vmcsWrite w.1 w.2) h.2).trans (vmcsWrite_fields_ne s w.1 w.2 h.1)

theorem initSecondaryCtrl_fields (s : Vm) {e : Encoding} (he : e ≠ .cpuExecCtrl1) :
    s.initSecondaryCtrl.fields e = s.fields e := by
  rw [initSecondaryCtrl]
  split_ifs
  · exact vmcsWrite_fields_ne _ _ _ he
  · rfl

/-- The exit reason of a new structure is not initialised. -/
theorem vmcsInit_exiReason (s : Vm) (img : Image) :
    (s.vmcsInit img).fields .exiReason = s.fields .exiReason := by
  have hctrl (t : Vm) : t.initVmcsCtrl.fields .exiReason = t.fields .exiReason := by
    rw [initVmcsCtrl, printf_fields, vmcsWrites_fields _ (by simp),
      initSecondaryCtrl_fields _ (by decide), vmcsWrites_fields _ (by simp)]
  have hhost (t : Vm) : (t.initVmcsHost img).fields .exiReason = t.fields .exiReason := by
    rw [initVmcsHost, vmcsWrites_fields _ (by simp)]
  have hguest (t : Vm) : (t.initVmcsGuest img).fields .exiReason = t.fields .exiReason := by
    rw [initVmcsGuest, vmcsWrites_fields _ (by simp)]
    rfl
  rw [vmcsInit, hguest, hhost, hctrl]
  rfl

theorem quiet_isVmxSupported (s : Vm) : Quiet s s.isVmxSupported.2 := by
  have hmsr (t : Vm) (f : Word → BitVec 64) : Quiet t { t with msr := f } :=
    .of_trace_eq rfl rfl rfl rfl
  have hcpu (fmt : String) : Quiet s ((s.printf "ecx: %x\n" [.num s.cpuidEcx]).printf fmt []) :=
    ((Quiet.refl s).printf _ _).printf _ _
  rw [isVmxSupported]
  dsimp only
  split_ifs
  · exact (hcpu _).printf _ _
  · exact (hcpu _).printf _ _
  · exact (hcpu _).trans (hmsr _ _)
  · exact hcpu _

theorem quiet_initVmx (s : Vm) : Quiet s s.initVmx := .of_trace_eq rfl rfl rfl rfl

/-- What `clear_ptrld` does to the structure when its instructions end as given. -/
theorem clearPtrld_spec (s : Vm) (r : EnableResults) :
    Prints s (s.clearPtrld r).2 ∧ (s.clearPtrld r).2.launched = s.launched ∧
      (s.clearPtrld r).2.current = (if r.vmclear then r.vmptrld else s.current) ∧
      (s.clearPtrld r).2.launchState = (if r.vmclear then .clear else s.launchState) ∧
      (r.vmclear = true → r.vmptrld = true → (s.clearPtrld r).2.fields = r.fields) := by
  have hprints (fmt : String) (args : List PrintArg) (t : Vm) (ht : t.trace = s.trace) :
      Prints s (t.printf fmt args) :=
    (Prints.of_trace_eq ht).trans (kept_printf t fmt args).trace
  cases hc : r.vmclear with
  | false =>
    simp only [clearPtrld, vmcsClear, hc, Bool.false_eq_true, ite_false, ite_true]
    exact ⟨hprints _ _ _ rfl, rfl, rfl, rfl, fun h => h.elim⟩
  | true =>
    cases hp : r.vmptrld with
    | false =>
      simp only [clearPtrld, vmcsClear, makeVmcsCurrent, hc, hp, Bool.false_eq_true, ite_false,
        ite_true]
      exact ⟨hprints _ _ _ rfl, rfl, rfl, rfl, fun _ h => h.elim⟩
    | true =>
      simp only [clearPtrld, vmcsClear, makeVmcsCurrent, hc, hp, Bool.false_eq_true, ite_false,
        ite_true, implies_true, and_true]
      exact .of_trace_eq rfl

/-- Between VMXON and `vmx_run` the structure is made current when VMCLEAR and VMPTRLD
succeed; the launched flag is not touched. -/
theorem prepareVmcs_spec (s : Vm) (img : Image) (r : EnableResults) :
    Prints s (s.prepareVmcs img r) ∧ (s.prepareVmcs img r).launched = s.launched ∧
      (s.prepareVmcs img r).current = (if r.vmclear then r.vmptrld else s.current) ∧
      (s.prepareVmcs img r).launchState = (if r.vmclear then .clear else s.launchState) ∧
      (r.vmclear = true → r.vmptrld = true →
        (s.prepareVmcs img r).fields .exiReason = r.fields .exiReason) := by
  obtain ⟨hp, hl, hc, hst, hf⟩ := clearPtrld_spec s r
  have hreport (ret : Word) (t : Vm) : Quiet t (if ret ≠ 0 then
      t.printf "Error: %s : vmclear vmptrld failed\n" [.str "virt_enable"] else t) := by
    split_ifs
    · exact (Quiet.refl t).printf _ _
    · exact .refl t
  have hfields (ret : Word) (t : Vm) : (if ret ≠ 0 then
      t.printf "Error: %s : vmclear vmptrld failed\n" [.str "virt_enable"] else t).fields =
        t.fields := by
    split_ifs <;> rfl
  have hq : Quiet (s.clearPtrld r).2 (s.prepareVmcs img r) :=
    (hreport _ _).trans (quiet_vmcsInit _ img)
  refine ⟨hp.trans hq.trace, hq.launched.trans hl, hq.current.trans hc,
    hq.launchState.trans hst, fun hclear hptrld => ?_⟩
  rw [prepareVmcs, vmcsInit_exiReason, hfields, hf hclear hptrld]

/-- `virt_enable` reaches `vmx_run` when VMX is supported and VMXON succeeds. -/
theorem virtEnableBegin_fst (s : Vm) (img : Image) (r : EnableResults) :
    (s.virtEnableBegin img r).1 = true ↔ s.isVmxSupported.1 = true ∧ r.vmxon = true := by
  cases hs : s.isVmxSupported.1 with
  | false => simp [virtEnableBegin, hs]
  | true => cases hon : r.vmxon <;> simp [virtEnableBegin, hs, vmxOn, hon]

/-- What `virt_enable` does before it reaches `vmx_run`. -/
theorem virtEnableBegin_spec (s : Vm) (img : Image) (r : EnableResults) :
    Prints s (s.virtEnableBegin img r).2 ∧
      ((s.virtEnableBegin img r).1 = true →
        (s.virtEnableBegin img r).2.launched = s.launched ∧
        (s.virtEnableBegin img r).2.current = (r.vmclear && r.vmptrld) ∧
        (s.virtEnableBegin img r).2.launchState = (if r.vmclear then .clear else s.launchState) ∧
        (r.vmclear = true → r.vmptrld = true →
          (s.virtEnableBegin img r).2.fields .exiReason = r.fields .exiReason)) := by
  have hsupp := quiet_isVmxSupported s
  have hinit := hsupp.trans (quiet_initVmx _)
  cases hs : s.isVmxSupported.1 with
  | false =>
    simp only [virtEnableBegin, hs, Bool.not_false, ite_true, Bool.false_eq_true, false_implies,
      and_true]
    exact (hsupp.printf _ _).trace
  | true =>
    generalize hu : s.isVmxSupported.2.initVmx = u at hinit
    cases hon : r.vmxon with
    | false =>
      simp only [virtEnableBegin, hs, hu, vmxOn, hon, Bool.not_true, Bool.false_eq_true, ite_false,
        ite_true, false_implies, and_true]
      exact (hinit.printf _ _).trace
    | true =>
      obtain ⟨hp, hl, hc, hst, hf⟩ := prepareVmcs_spec { u with current := false } img r
      have hcur : Prints s { u with current := false } := hinit.trace.trans (.of_trace_eq rfl)
      simp only [virtEnableBegin, hs, hu, vmxOn, hon, Bool.not_true, Bool.false_eq_true, ite_false,
        ite_true, true_implies]
      refine ⟨hcur.trans hp, hl.trans hinit.launched, ?_, ?_, hf⟩
      · rw [hc]
        cases r.vmclear <;> rfl
      · rw [hst, hinit.launchState]

end Vm

end DmfOs
