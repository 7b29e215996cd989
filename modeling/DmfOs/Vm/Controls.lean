import DmfOs.Core.Mask
import DmfOs.Vm.TaskRegister

/-!
# Controls within the capabilities

A capability register tells which bits of a control must be set and which may be.
`init_vmx` adjusts the control registers and `vmcs_init` the controls, of which two
are kept in variables from call to call. Every call writes the same words, and these
are within the capabilities.
-/

namespace DmfOs

/-- The capabilities for the five controls. -/
structure CtrlMsrs where
  pin : VmxCtrlMsr
  exit : VmxCtrlMsr
  enter : VmxCtrlMsr
  cpu0 : VmxCtrlMsr
  cpu1 : VmxCtrlMsr

namespace VmxCtrlMsr

/-- Every bit that must be set may be set. -/
def Sound (m : VmxCtrlMsr) : Prop := Incl m.set m.clr

/-- A word has all bits that must be set and only bits that may be set. -/
def Admits (m : VmxCtrlMsr) (w : Word) : Prop := Within m.set m.clr w

/-- The adjustment of a request in `vmcs_init`. -/
def adjust (m : VmxCtrlMsr) (w : Word) : Word := (w ||| m.set) &&& m.clr

instance (m : VmxCtrlMsr) : Decidable m.Sound := inferInstanceAs (Decidable (Incl m.set m.clr))

theorem Sound.admits_adjust {m : VmxCtrlMsr} (h : m.Sound) (w : Word) : m.Admits (m.adjust w) :=
  within_or_and h w

/-- An adjusted request has no bit beyond the request and those that must be set. -/
theorem adjust_incl (m : VmxCtrlMsr) (w : Word) : Incl (m.adjust w) (w ||| m.set) :=
  and_incl_left _ _

/-- A word that holds no more than an adjusted request adds nothing to the request. -/
theorem adjust_or {m : VmxCtrlMsr} {w x : Word} (h : Incl w (x ||| m.set)) :
    m.adjust (w ||| x) = m.adjust x := by
  rw [adjust, adjust, or_eq_of_incl h]

end VmxCtrlMsr

namespace Vm

/-- The capability registers that `vmcs_init` consults. -/
def ctrlMsrs (s : Vm) : CtrlMsrs :=
  let ctrl := (s.msr msrIa32VmxBasic).getLsbD 55
  { pin := .ofVal (s.msr (if ctrl then msrIa32VmxTruePin else msrIa32VmxPinbasedCtls))
    exit := .ofVal (s.msr (if ctrl then msrIa32VmxTrueExit else msrIa32VmxExitCtls))
    enter := .ofVal (s.msr (if ctrl then msrIa32VmxTrueEntry else msrIa32VmxEntryCtls))
    cpu0 := .ofVal (s.msr (if ctrl then msrIa32VmxTrueProc else msrIa32VmxProcbasedCtls))
    cpu1 := .ofVal (s.msr msrIa32VmxProcbasedCtls2) }

/-- The fixed bits of CR0. -/
def cr0Fixed (s : Vm) : VmxCtrlMsr :=
  ⟨(s.msr msrIa32VmxCr0Fixed0).setWidth 32, (s.msr msrIa32VmxCr0Fixed1).setWidth 32⟩

/-- The fixed bits of CR4. -/
def cr4Fixed (s : Vm) : VmxCtrlMsr :=
  ⟨(s.msr msrIa32VmxCr4Fixed0).setWidth 32, (s.msr msrIa32VmxCr4Fixed1).setWidth 32⟩

/-- Capabilities of a processor on which VMX can be used. The register of the secondary
controls exists only if these may be activated. -/
structure Capable (s : Vm) : Prop where
  pin : s.ctrlMsrs.pin.Sound
  exit : s.ctrlMsrs.exit.Sound
  enter : s.ctrlMsrs.enter.Sound
  cpu0 : s.ctrlMsrs.cpu0.Sound
  cpu1 : s.ctrlMsrs.cpu0.clr &&& cpuSecondary ≠ 0 → s.ctrlMsrs.cpu1.Sound
  cr0 : s.cr0Fixed.Sound
  cr4 : s.cr4Fixed.Sound
  pe : Incl x86Cr0Pe s.cr0Fixed.clr
  wp : Incl x86Cr0Wp s.cr0Fixed.clr
  vmxe : Incl x86Cr4Vmxe s.cr4Fixed.clr
  pcide : s.cr4Fixed.set &&& x86Cr4Pcide = 0

/-- What `vmcs_init` makes of the fields of a current structure. -/
def initFields (s : Vm) (img : Image) (f : Encoding → Word) : Encoding → Word :=
  ({ s with current := true, fields := f }.vmcsInit img).fields

/-- `vmcs_init` writes a word to a field, whatever the structure holds. -/
def Writes (s : Vm) (img : Image) (e : Encoding) (w : Word) : Prop := ∀ f, s.initFields img f e = w

/-- `vmcs_init` does not write a field, whatever the structure holds. -/
def Leaves (s : Vm) (img : Image) (e : Encoding) : Prop := ∀ f, s.initFields img f e = f e

/-! ## What the words are computed from -/

/-- The part of the state that decides on the words of the control structure. -/
structure CtrlView where
  msr : Word → BitVec 64
  basic : BitVec 64
  cr0 : Word
  cr3 : Word
  cr4 : Word
  ctrlCpuRev0 : VmxCtrlMsr
  ctrlCpuRev1 : VmxCtrlMsr
  ctrlPin : Word
  ctrlExit : Word
  ctrlEnter : Word
  ctrlCpu0 : Word

/-- The part of the state that decides on the words of the control structure. -/
def ctrlView (s : Vm) : CtrlView :=
  ⟨s.msr, s.basic, s.cr0, s.cr3, s.cr4, s.ctrlCpuRev0, s.ctrlCpuRev1, s.ctrlPin, s.ctrlExit,
    s.ctrlEnter, s.ctrlCpu0⟩

theorem ctrlView_vmcsWrite (s : Vm) (enc : Encoding) (val : Word) :
    (s.vmcsWrite enc val).ctrlView = s.ctrlView := by
  rw [vmcsWrite, vmwrite]
  split_ifs <;> rfl

/-- Writing the structure changes none of them. -/
theorem ctrlView_vmcsWrites (s : Vm) (ws : List (Encoding × Word)) :
    (s.vmcsWrites ws).ctrlView = s.ctrlView := by
  induction ws generalizing s with
  | nil => rfl
  | cons w ws ih => exact (ih (s.vmcsWrite w.1 w.2)).trans (ctrlView_vmcsWrite s w.1 w.2)

theorem ctrlView_initSecondaryCtrl (s : Vm) : s.initSecondaryCtrl.ctrlView = s.ctrlView := by
  rw [initSecondaryCtrl]
  split_ifs
  · rw [ctrlView_vmcsWrite]
    rfl
  · rfl

theorem ctrlView_initVmcsCtrl (s : Vm) : s.initVmcsCtrl.ctrlView = s.ctrlView := by
  rw [initVmcsCtrl]
  exact (ctrlView_vmcsWrites _ _).trans
    ((ctrlView_initSecondaryCtrl _).trans (ctrlView_vmcsWrites _ _))

/-- Setting up the page tables of the guest stores to memory and prints. -/
theorem setupGuestPageTables_eq (s : Vm) (img : Image) : ∃ m trace,
    s.setupGuestPageTables img = (img.guestPageDir, { s with mem := m, trace := trace }) := by
  have hdir (m : Memory) :
      (DmfOs.setupGuestPageTables img.guestPageDir img.guestPageTable m).1 = img.guestPageDir := by
    rw [DmfOs.setupGuestPageTables]
  unfold setupGuestPageTables
  generalize DmfOs.setupGuestPageTables img.guestPageDir img.guestPageTable = tables at *
  dsimp only
  rw [hdir]
  unfold printf emit
  exact ⟨_, _, rfl⟩

/-- The page table test prints. -/
theorem initPageTableTest_eq (s : Vm) : ∃ trace,
    s.initPageTableTest = { s with trace := trace } := by
  unfold initPageTableTest printf emit
  exact ⟨_, rfl⟩

/-- `vmcs_init` computes all words before it writes the first one. -/
theorem ctrlView_vmcsInit (s : Vm) (img : Image) :
    (s.vmcsInit img).ctrlView = s.vmcsControls.ctrlView := by
  have htest (t : Vm) : t.initPageTableTest.ctrlView = t.ctrlView := by
    obtain ⟨trace, htrace⟩ := initPageTableTest_eq t
    rw [htrace]
    rfl
  rw [vmcsInit]
  generalize hu : (s.vmcsControls.initPageTableTest.initVmcsCtrl.initVmcsHost img) = u
  obtain ⟨m, trace, heq⟩ := setupGuestPageTables_eq u img
  have htables : ({ u with mem := m, trace := trace } : Vm).ctrlView = u.ctrlView := rfl
  rw [initVmcsGuest, heq, ctrlView_vmcsWrites, htables, ← hu, initVmcsHost, ctrlView_vmcsWrites,
    ctrlView_initVmcsCtrl, htest]

/-- Two states with current structures that agree on all words and fields. -/
structure Alike (s t : Vm) : Prop where
  left : s.current = true
  right : t.current = true
  fields : s.fields = t.fields
  view : s.ctrlView = t.ctrlView
  ctrlCpu1 : s.ctrlCpu1 = t.ctrlCpu1

theorem vmcsWrites_ctrlCpu1 (s : Vm) (ws : List (Encoding × Word)) :
    (s.vmcsWrites ws).ctrlCpu1 = s.ctrlCpu1 := by
  induction ws generalizing s with
  | nil => rfl
  | cons w ws ih =>
    refine (ih (s.vmcsWrite w.1 w.2)).trans ?_
    rw [vmcsWrite, vmwrite]
    split_ifs <;> rfl

namespace Alike

variable {s t : Vm}

theorem vmcsWrites (h : Alike s t) {ws ws' : List (Encoding × Word)} (hws : ws = ws') :
    Alike (s.vmcsWrites ws) (t.vmcsWrites ws') where
  left := (quiet_vmcsWrites s ws).current.trans h.left
  right := (quiet_vmcsWrites t ws').current.trans h.right
  fields := by
    ext1 e
    rw [vmcsWrites_fields_eq h.left, vmcsWrites_fields_eq h.right, h.fields, hws]
  view := by rw [ctrlView_vmcsWrites, ctrlView_vmcsWrites, h.view]
  ctrlCpu1 := by rw [vmcsWrites_ctrlCpu1, vmcsWrites_ctrlCpu1, h.ctrlCpu1]

theorem vmcsWrite (h : Alike s t) (enc : Encoding) {val val' : Word} (hval : val = val') :
    Alike (s.vmcsWrite enc val) (t.vmcsWrite enc val') :=
  h.vmcsWrites (congrArg (fun v => [(enc, v)]) hval)

theorem initSecondaryCtrl (h : Alike s t) : Alike s.initSecondaryCtrl t.initSecondaryCtrl := by
  have hrev0 : s.ctrlCpuRev0 = t.ctrlCpuRev0 := congrArg CtrlView.ctrlCpuRev0 h.view
  have hrev1 : s.ctrlCpuRev1 = t.ctrlCpuRev1 := congrArg CtrlView.ctrlCpuRev1 h.view
  have hval : (s.ctrlCpu1 ||| s.ctrlCpuRev1.set) &&& s.ctrlCpuRev1.clr =
      (t.ctrlCpu1 ||| t.ctrlCpuRev1.set) &&& t.ctrlCpuRev1.clr := by rw [h.ctrlCpu1, hrev1]
  rw [Vm.initSecondaryCtrl, Vm.initSecondaryCtrl]
  split_ifs with hs ht ht
  · have hset : Alike
        { s with ctrlCpu1 := (s.ctrlCpu1 ||| s.ctrlCpuRev1.set) &&& s.ctrlCpuRev1.clr }
        { t with ctrlCpu1 := (t.ctrlCpu1 ||| t.ctrlCpuRev1.set) &&& t.ctrlCpuRev1.clr } :=
      ⟨h.left, h.right, h.fields, h.view, hval⟩
    exact hset.vmcsWrite _ hval
  · exact absurd (hrev0 ▸ hs) ht
  · exact absurd (hrev0 ▸ ht) hs
  · exact h

theorem initVmcsCtrl (h : Alike s t) : Alike s.initVmcsCtrl t.initVmcsCtrl := by
  have hpin : s.ctrlPin = t.ctrlPin := congrArg CtrlView.ctrlPin h.view
  have hcpu0 : s.ctrlCpu0 = t.ctrlCpu0 := congrArg CtrlView.ctrlCpu0 h.view
  rw [Vm.initVmcsCtrl, Vm.initVmcsCtrl, hpin, hcpu0]
  obtain ⟨hl, hr, hf, hv, hc⟩ := ((h.vmcsWrites rfl).initSecondaryCtrl).vmcsWrites rfl
  exact ⟨hl, hr, hf, hv, hc⟩

theorem initVmcsHost (h : Alike s t) (img : Image) :
    Alike (s.initVmcsHost img) (t.initVmcsHost img) := by
  have henter : s.ctrlEnter = t.ctrlEnter := congrArg CtrlView.ctrlEnter h.view
  have hexit : s.ctrlExit = t.ctrlExit := congrArg CtrlView.ctrlExit h.view
  have hcr0 : s.cr0 = t.cr0 := congrArg CtrlView.cr0 h.view
  have hcr3 : s.cr3 = t.cr3 := congrArg CtrlView.cr3 h.view
  have hcr4 : s.cr4 = t.cr4 := congrArg CtrlView.cr4 h.view
  rw [Vm.initVmcsHost, Vm.initVmcsHost, henter, hexit, hcr0, hcr3, hcr4]
  exact h.vmcsWrites rfl

theorem initVmcsGuest (h : Alike s t) (img : Image) :
    Alike (s.initVmcsGuest img) (t.initVmcsGuest img) := by
  have hcr0 : s.cr0 = t.cr0 := congrArg CtrlView.cr0 h.view
  have hcr4 : s.cr4 = t.cr4 := congrArg CtrlView.cr4 h.view
  obtain ⟨m, trace, hs⟩ := setupGuestPageTables_eq s img
  obtain ⟨m', trace', ht⟩ := setupGuestPageTables_eq t img
  rw [Vm.initVmcsGuest, Vm.initVmcsGuest, hs, ht]
  have htables : Alike { s with mem := m, trace := trace } { t with mem := m', trace := trace' } :=
    ⟨h.left, h.right, h.fields, h.view, h.ctrlCpu1⟩
  refine htables.vmcsWrites ?_
  dsimp only
  rw [hcr0, hcr4]

/-- States that agree once `vmcs_init` has computed its words agree at its end. -/
theorem vmcsInit (h : Alike s.vmcsControls t.vmcsControls) (img : Image) :
    Alike (s.vmcsInit img) (t.vmcsInit img) := by
  have htest : Alike s.vmcsControls.initPageTableTest t.vmcsControls.initPageTableTest :=
    ⟨h.left, h.right, h.fields, h.view, h.ctrlCpu1⟩
  exact (htest.initVmcsCtrl.initVmcsHost img).initVmcsGuest img

end Alike

/-! ## The words of one call -/

/-- What `init_vmcs_ctrl` writes to the controls. -/
theorem initVmcsCtrl_fields {s : Vm} (h : s.current = true) :
    s.initVmcsCtrl.fields .pinControls = s.ctrlPin ∧
      s.initVmcsCtrl.fields .cpuExecCtrl0 = s.ctrlCpu0 ∧
      s.initVmcsCtrl.fields .cpuExecCtrl1 =
        if s.ctrlCpuRev0.set &&& cpuSecondary ≠ 0 then
          (s.ctrlCpu1 ||| s.ctrlCpuRev1.set) &&& s.ctrlCpuRev1.clr
        else s.fields .cpuExecCtrl1 := by
  let u := s.vmcsWrites [(.pinControls, s.ctrlPin), (.cpuExecCtrl0, s.ctrlCpu0)]
  have hcur : u.current = true := (quiet_vmcsWrites s _).current.trans h
  have hview : u.ctrlView = s.ctrlView := ctrlView_vmcsWrites s _
  have hrev0 : u.ctrlCpuRev0 = s.ctrlCpuRev0 := congrArg CtrlView.ctrlCpuRev0 hview
  have hrev1 : u.ctrlCpuRev1 = s.ctrlCpuRev1 := congrArg CtrlView.ctrlCpuRev1 hview
  have hcpu1 : u.ctrlCpu1 = s.ctrlCpu1 := vmcsWrites_ctrlCpu1 s _
  have hold : u.fields .cpuExecCtrl1 = s.fields .cpuExecCtrl1 := vmcsWrites_fields s (by simp)
  have hrest {e : Encoding} (he : e ∉ [Encoding.cr3TargetCount, .excBitmap]) :
      s.initVmcsCtrl.fields e = u.initSecondaryCtrl.fields e := vmcsWrites_fields _ he
  refine ⟨?_, ?_, ?_⟩
  · rw [hrest (by decide), initSecondaryCtrl_fields _ (by decide)]
    exact vmcsWrites_fields_eq h _ _
  · rw [hrest (by decide), initSecondaryCtrl_fields _ (by decide)]
    exact vmcsWrites_fields_eq h _ _
  · rw [hrest (by decide), initSecondaryCtrl, hrev0]
    split_ifs
    · rw [vmcsWrite_fields _ _ _ (by exact hcur), if_pos rfl, ← hrev1, ← hcpu1]
    · exact hold

/-- What `init_vmcs_host` writes to the controls and leaves of them. -/
theorem initVmcsHost_fields {s : Vm} (h : s.current = true) (img : Image) {e : Encoding} :
    (s.initVmcsHost img).fields .entControls = s.ctrlEnter ∧
      (s.initVmcsHost img).fields .exiControls = s.ctrlExit ∧
      (s.initVmcsHost img).fields .hostCr0 = s.cr0 ∧
      (s.initVmcsHost img).fields .hostCr4 = s.cr4 ∧
      (e ∈ [Encoding.pinControls, .cpuExecCtrl0, .cpuExecCtrl1] →
        (s.initVmcsHost img).fields e = s.fields e) := by
  refine ⟨vmcsWrites_fields_eq h _ _, vmcsWrites_fields_eq h _ _, vmcsWrites_fields_eq h _ _,
    vmcsWrites_fields_eq h _ _, fun he => vmcsWrites_fields s ?_⟩
  simp only [List.mem_cons, List.not_mem_nil, or_false] at he
  rcases he with rfl | rfl | rfl <;> simp

/-- What `init_vmcs_guest` writes to the control registers and leaves of the controls. -/
theorem initVmcsGuest_fields {s : Vm} (h : s.current = true) (img : Image) {e : Encoding} :
    (s.initVmcsGuest img).fields .guestCr0 =
        (if s.cr0 &&& x86Cr0Pg ≠ 0 then s.cr0 ||| x86Cr0Pe else s.cr0) ||| x86Cr0Wp ∧
      (s.initVmcsGuest img).fields .guestCr4 = s.cr4 &&& ~~~x86Cr4Pcide ∧
      (e ∈ [Encoding.pinControls, .cpuExecCtrl0, .cpuExecCtrl1, .entControls, .exiControls,
        .hostCr0, .hostCr4] → (s.initVmcsGuest img).fields e = s.fields e) := by
  obtain ⟨m, trace, hs⟩ := setupGuestPageTables_eq s img
  rw [initVmcsGuest, hs]
  refine ⟨vmcsWrites_fields_eq (by exact h) _ _, vmcsWrites_fields_eq (by exact h) _ _,
    fun he => vmcsWrites_fields _ ?_⟩
  simp only [List.mem_cons, List.not_mem_nil, or_false] at he
  rcases he with rfl | rfl | rfl | rfl | rfl | rfl | rfl <;> simp

/-- The words that `vmcs_init` leaves in fields that were `old`. -/
structure InitWords (v : CtrlView) (old f : Encoding → Word) : Prop where
  pin : f .pinControls = v.ctrlPin
  enter : f .entControls = v.ctrlEnter
  exit : f .exiControls = v.ctrlExit
  cpu0 : f .cpuExecCtrl0 = v.ctrlCpu0
  cpu1 : f .cpuExecCtrl1 =
    if v.ctrlCpuRev0.set &&& cpuSecondary ≠ 0 then v.ctrlCpuRev1.adjust 0 else old .cpuExecCtrl1
  hostCr0 : f .hostCr0 = v.cr0
  hostCr4 : f .hostCr4 = v.cr4
  guestCr0 : f .guestCr0 =
    (if v.cr0 &&& x86Cr0Pg ≠ 0 then v.cr0 ||| x86Cr0Pe else v.cr0) ||| x86Cr0Wp
  guestCr4 : f .guestCr4 = v.cr4 &&& ~~~x86Cr4Pcide

/-- The three parts of `vmcs_init` after each other. -/
theorem initWords_parts {s : Vm} (h : s.current = true) (hcpu1 : s.ctrlCpu1 = 0) (img : Image) :
    InitWords s.ctrlView s.fields
      ((s.initVmcsCtrl.initVmcsHost img).initVmcsGuest img).fields := by
  have hviewC : s.initVmcsCtrl.ctrlView = s.ctrlView := ctrlView_initVmcsCtrl s
  have hcurC : s.initVmcsCtrl.current = true := (quiet_initVmcsCtrl s).current.trans h
  obtain ⟨hpin, hcpu0, hsecondary⟩ := initVmcsCtrl_fields h
  rw [hcpu1] at hsecondary
  generalize s.initVmcsCtrl = u at *
  have hviewH : (u.initVmcsHost img).ctrlView = s.ctrlView :=
    (ctrlView_vmcsWrites u _).trans hviewC
  have hquiet : Quiet u (u.initVmcsHost img) := quiet_vmcsWrites u _
  have hcurH := hquiet.current.trans hcurC
  obtain ⟨henter, hexit, hhostCr0, hhostCr4, -⟩ := initVmcsHost_fields hcurC img
    (e := .pinControls)
  have hkeepH {e : Encoding} := (initVmcsHost_fields hcurC img (e := e)).2.2.2.2
  generalize u.initVmcsHost img = v at *
  obtain ⟨hguestCr0, hguestCr4, -⟩ := initVmcsGuest_fields hcurH img (e := .pinControls)
  have hkeepG {e : Encoding} := (initVmcsGuest_fields hcurH img (e := e)).2.2
  have hcr0 : v.cr0 = s.cr0 := congrArg CtrlView.cr0 hviewH
  have hcr4 : v.cr4 = s.cr4 := congrArg CtrlView.cr4 hviewH
  rw [hcr0] at hguestCr0
  rw [hcr4] at hguestCr4
  exact {
    pin := (hkeepG (by decide)).trans ((hkeepH (by decide)).trans hpin)
    enter := (hkeepG (by decide)).trans (henter.trans (congrArg CtrlView.ctrlEnter hviewC))
    exit := (hkeepG (by decide)).trans (hexit.trans (congrArg CtrlView.ctrlExit hviewC))
    cpu0 := (hkeepG (by decide)).trans ((hkeepH (by decide)).trans hcpu0)
    cpu1 := (hkeepG (by decide)).trans ((hkeepH (by decide)).trans hsecondary)
    hostCr0 := (hkeepG (by decide)).trans (hhostCr0.trans (congrArg CtrlView.cr0 hviewC))
    hostCr4 := (hkeepG (by decide)).trans (hhostCr4.trans (congrArg CtrlView.cr4 hviewC))
    guestCr0 := hguestCr0
    guestCr4 := hguestCr4 }

theorem initWords {s : Vm} (h : s.current = true) (img : Image) :
    InitWords s.vmcsControls.ctrlView s.fields (s.vmcsInit img).fields := by
  have hcur : s.vmcsControls.current = true := h
  have hcpu1 : s.vmcsControls.ctrlCpu1 = 0 := rfl
  have hfields : s.vmcsControls.fields = s.fields := rfl
  rw [vmcsInit, ← hfields]
  generalize s.vmcsControls = t at *
  obtain ⟨trace, htest⟩ := initPageTableTest_eq t
  rw [htest]
  exact initWords_parts (s := { t with trace := trace }) hcur hcpu1 img

/-! ## Repeated calls -/

/-- What the words of every call after `init_vmx` are computed from. -/
def ctrlWords (s : Vm) : CtrlView where
  msr := s.msr
  basic := s.msr msrIa32VmxBasic
  cr0 := s.initVmx.cr0
  cr3 := s.cr3
  cr4 := s.initVmx.cr4
  ctrlCpuRev0 := s.ctrlMsrs.cpu0
  ctrlCpuRev1 := if s.ctrlMsrs.cpu0.clr &&& cpuSecondary ≠ 0 then s.ctrlMsrs.cpu1 else .ofVal 0
  ctrlPin := s.ctrlMsrs.pin.adjust pinNmis
  ctrlExit := s.ctrlMsrs.exit.adjust 0
  ctrlEnter := s.ctrlMsrs.enter.adjust 0
  ctrlCpu0 := s.ctrlMsrs.cpu0.adjust (cpuCr3 ||| cpuHlt)

/-- What holds after `init_vmx` and before every call of `vmcs_init`: the variables that
are kept hold no bit beyond what the next call asks for. -/
structure Prepared (s t : Vm) : Prop where
  msr : t.msr = s.msr
  basic : t.basic = s.msr msrIa32VmxBasic
  cr0 : t.cr0 = s.initVmx.cr0
  cr3 : t.cr3 = s.cr3
  cr4 : t.cr4 = s.initVmx.cr4
  pin : Incl t.ctrlPin (pinNmis ||| s.ctrlMsrs.pin.set)
  cpu0 : Incl t.ctrlCpu0 (cpuCr3 ||| cpuHlt ||| s.ctrlMsrs.cpu0.set)

namespace Prepared

variable {s t t' : Vm}

/-- The first call finds the variables as the program starts with them. -/
theorem initVmx (hpin : s.ctrlPin = 0) (hcpu0 : s.ctrlCpu0 = 0) : Prepared s s.initVmx where
  msr := rfl
  basic := rfl
  cr0 := rfl
  cr3 := rfl
  cr4 := rfl
  pin := by
    have hzero : s.initVmx.ctrlPin = 0 := hpin
    rw [hzero]
    exact zero_incl _
  cpu0 := by
    have hzero : s.initVmx.ctrlCpu0 = 0 := hcpu0
    rw [hzero]
    exact zero_incl _

/-- The capabilities that a call reads. -/
theorem revs (h : Prepared s t) :
    t.vmcsControls.ctrlPinRev = s.ctrlMsrs.pin ∧ t.vmcsControls.ctrlExitRev = s.ctrlMsrs.exit ∧
      t.vmcsControls.ctrlEnterRev = s.ctrlMsrs.enter ∧
      t.vmcsControls.ctrlCpuRev0 = s.ctrlMsrs.cpu0 ∧
      t.vmcsControls.ctrlCpuRev1 =
        if s.ctrlMsrs.cpu0.clr &&& cpuSecondary ≠ 0 then s.ctrlMsrs.cpu1 else .ofVal 0 := by
  simp only [vmcsControls, h.msr, h.basic, ctrlMsrs, true_and]
  rfl

/-- A call adjusts the same requests each time. -/
theorem view (h : Prepared s t) : t.vmcsControls.ctrlView = s.ctrlWords := by
  obtain ⟨hpin, hexit, henter, hcpu0, hcpu1⟩ := h.revs
  have hios : Incl (t.ctrlCpu0 &&& ~~~cpuIos) (cpuCr3 ||| cpuHlt ||| s.ctrlMsrs.cpu0.set) :=
    (and_incl_left _ _).trans h.cpu0
  have hctrlPin : t.vmcsControls.ctrlPin = s.ctrlMsrs.pin.adjust pinNmis := by
    have hval : t.vmcsControls.ctrlPin =
        t.vmcsControls.ctrlPinRev.adjust (t.ctrlPin ||| pinNmis) := rfl
    rw [hval, hpin, VmxCtrlMsr.adjust_or h.pin]
  have hctrlExit : t.vmcsControls.ctrlExit = s.ctrlMsrs.exit.adjust 0 := by
    have hval : t.vmcsControls.ctrlExit = t.vmcsControls.ctrlExitRev.adjust 0 := rfl
    rw [hval, hexit]
  have hctrlEnter : t.vmcsControls.ctrlEnter = s.ctrlMsrs.enter.adjust 0 := by
    have hval : t.vmcsControls.ctrlEnter = t.vmcsControls.ctrlEnterRev.adjust 0 := rfl
    rw [hval, henter]
  have hctrlCpu0 :
      t.vmcsControls.ctrlCpu0 = s.ctrlMsrs.cpu0.adjust (cpuCr3 ||| cpuHlt) := by
    have hval : t.vmcsControls.ctrlCpu0 = t.vmcsControls.ctrlCpuRev0.adjust
        ((t.ctrlCpu0 &&& ~~~cpuIos) ||| cpuCr3 ||| cpuHlt) := rfl
    rw [hval, hcpu0, BitVec.or_assoc _ cpuCr3, VmxCtrlMsr.adjust_or hios]
  have hmsr : t.vmcsControls.msr = s.msr := h.msr
  have hbasic : t.vmcsControls.basic = s.msr msrIa32VmxBasic := h.basic
  have hcr0 : t.vmcsControls.cr0 = s.initVmx.cr0 := h.cr0
  have hcr3 : t.vmcsControls.cr3 = s.cr3 := h.cr3
  have hcr4 : t.vmcsControls.cr4 = s.initVmx.cr4 := h.cr4
  rw [ctrlView, ctrlWords, hmsr, hbasic, hcr0, hcr3, hcr4, hcpu0, hcpu1, hctrlPin, hctrlExit,
    hctrlEnter, hctrlCpu0]

/-- A call leaves the variables as the next one needs them. -/
theorem vmcsInit (h : Prepared s t) (img : Image) : Prepared s (t.vmcsInit img) := by
  have hview := (ctrlView_vmcsInit t img).trans h.view
  generalize t.vmcsInit img = u at *
  have hctrlPin : u.ctrlPin = s.ctrlMsrs.pin.adjust pinNmis := congrArg CtrlView.ctrlPin hview
  have hctrlCpu0 : u.ctrlCpu0 = s.ctrlMsrs.cpu0.adjust (cpuCr3 ||| cpuHlt) :=
    congrArg CtrlView.ctrlCpu0 hview
  exact {
    msr := congrArg CtrlView.msr hview
    basic := congrArg CtrlView.basic hview
    cr0 := congrArg CtrlView.cr0 hview
    cr3 := congrArg CtrlView.cr3 hview
    cr4 := congrArg CtrlView.cr4 hview
    pin := by
      rw [hctrlPin]
      exact VmxCtrlMsr.adjust_incl _ _
    cpu0 := by
      rw [hctrlCpu0]
      exact VmxCtrlMsr.adjust_incl _ _ }

/-- Any number of calls do so. -/
theorem calls (h : Prepared s t) (imgs : List Image) : Prepared s (imgs.foldl Vm.vmcsInit t) := by
  induction imgs generalizing t with
  | nil => exact h
  | cons img imgs ih =>
    rw [List.foldl_cons]
    exact ih (h.vmcsInit img)

/-- Two calls on structures with the same fields write the same words. -/
theorem alike (h : Prepared s t) (h' : Prepared s t') (hc : t.current = true)
    (hc' : t'.current = true) (hf : t.fields = t'.fields) :
    Alike t.vmcsControls t'.vmcsControls :=
  ⟨hc, hc', hf, h.view.trans h'.view.symm, rfl⟩

/-- The structure that is current plays no part. -/
theorem load (h : Prepared s t) (f : Encoding → Word) :
    Prepared s { t with current := true, fields := f } :=
  ⟨h.msr, h.basic, h.cr0, h.cr3, h.cr4, h.pin, h.cpu0⟩

end Prepared

/-- What a call of `vmcs_init` writes respects the capabilities, grants the requests as far
as these allow, and is what the first call after `init_vmx` writes. -/
structure RespectsCaps (s t : Vm) (img : Image) : Prop where
  pin : ∃ w, t.Writes img .pinControls w ∧ s.ctrlMsrs.pin.Admits w ∧
    w &&& pinNmis = s.ctrlMsrs.pin.clr &&& pinNmis
  enter : ∃ w, t.Writes img .entControls w ∧ s.ctrlMsrs.enter.Admits w
  exit : ∃ w, t.Writes img .exiControls w ∧ s.ctrlMsrs.exit.Admits w
  cpu : ∃ w, t.Writes img .cpuExecCtrl0 w ∧ s.ctrlMsrs.cpu0.Admits w ∧
    w &&& (cpuCr3 ||| cpuHlt) = s.ctrlMsrs.cpu0.clr &&& (cpuCr3 ||| cpuHlt) ∧
    w &&& cpuIos = s.ctrlMsrs.cpu0.set &&& cpuIos ∧
    (w &&& cpuSecondary ≠ 0 → ∃ w', t.Writes img .cpuExecCtrl1 w' ∧ s.ctrlMsrs.cpu1.Admits w') ∧
    (w &&& cpuSecondary = 0 → t.Leaves img .cpuExecCtrl1)
  hostCr0 : ∃ w, t.Writes img .hostCr0 w ∧ s.cr0Fixed.Admits w
  hostCr4 : ∃ w, t.Writes img .hostCr4 w ∧ s.cr4Fixed.Admits w
  guestCr0 : ∃ w, t.Writes img .guestCr0 w ∧ s.cr0Fixed.Admits w
  guestCr4 : ∃ w, t.Writes img .guestCr4 w ∧ s.cr4Fixed.Admits w
  repeated : t.initFields img = s.initVmx.initFields img

namespace Capable

variable {s t : Vm}

/-- `init_vmx` brings CR0 within its fixed bits. -/
theorem initVmx_cr0 (hc : Capable s) : s.cr0Fixed.Admits s.initVmx.cr0 := within_and_or hc.cr0 s.cr0

/-- `init_vmx` brings CR4 within its fixed bits. -/
theorem initVmx_cr4 (hc : Capable s) : s.cr4Fixed.Admits s.initVmx.cr4 :=
  (within_and_or hc.cr4 s.cr4).or hc.vmxe

/-- The bits that the guest's CR0 gets in addition may be set. -/
theorem guestCr0 (hc : Capable s) {w : Word} (hw : s.cr0Fixed.Admits w) :
    s.cr0Fixed.Admits ((if w &&& x86Cr0Pg ≠ 0 then w ||| x86Cr0Pe else w) ||| x86Cr0Wp) := by
  split_ifs
  · exact (hw.or hc.pe).or hc.wp
  · exact hw.or hc.wp

end Capable

/-- A call writes the words of `ctrlWords`. -/
theorem Prepared.words {s t : Vm} (h : Prepared s t) (img : Image) (f : Encoding → Word) :
    InitWords s.ctrlWords f (t.initFields img f) := by
  rw [← (h.load f).view]
  exact initWords rfl img

/-- The secondary controls are written in the calls that activate them. -/
theorem Prepared.secondary {s t : Vm} (h : Prepared s t) (hc : Capable s) (img : Image) :
    (s.ctrlMsrs.cpu0.set &&& cpuSecondary ≠ 0 →
      t.Writes img .cpuExecCtrl1 (s.ctrlMsrs.cpu1.adjust 0) ∧ s.ctrlMsrs.cpu1.Sound) ∧
    (s.ctrlMsrs.cpu0.set &&& cpuSecondary = 0 → t.Leaves img .cpuExecCtrl1) := by
  refine ⟨fun hset => ?_, fun hset f => ?_⟩
  · have hclr : s.ctrlMsrs.cpu0.clr &&& cpuSecondary ≠ 0 := fun h0 =>
      hset (Incl.and_eq_zero hc.cpu0 h0)
    refine ⟨fun f => ?_, hc.cpu1 hclr⟩
    have hrev1 : s.ctrlWords.ctrlCpuRev1 = s.ctrlMsrs.cpu1 := if_pos hclr
    rw [(h.words img f).cpu1, hrev1]
    exact if_pos hset
  · rw [(h.words img f).cpu1]
    exact if_neg (not_not.mpr hset)

/-- After `init_vmx`, every call of `vmcs_init` writes the same words, and these are within
the capabilities. -/
theorem respectsCaps_calls {s : Vm} (hc : Capable s) (hpin : s.ctrlPin = 0)
    (hcpu0 : s.ctrlCpu0 = 0) (imgs : List Image) (img : Image) :
    RespectsCaps s (imgs.foldl vmcsInit s.initVmx) img := by
  have hfirst := Prepared.initVmx hpin hcpu0
  have hcall := hfirst.calls imgs
  generalize imgs.foldl vmcsInit s.initVmx = t at hcall
  have hwords := hcall.words img
  have hsecondary : s.ctrlMsrs.cpu0.adjust (cpuCr3 ||| cpuHlt) &&& cpuSecondary =
      s.ctrlMsrs.cpu0.set &&& cpuSecondary := forced_of_and_eq_zero hc.cpu0 (by decide)
  obtain ⟨hwrites, hleaves⟩ := hcall.secondary hc img
  exact {
    pin := ⟨_, fun f => (hwords f).pin, hc.pin.admits_adjust _, requested_of_incl (.refl _)⟩
    enter := ⟨_, fun f => (hwords f).enter, hc.enter.admits_adjust _⟩
    exit := ⟨_, fun f => (hwords f).exit, hc.exit.admits_adjust _⟩
    cpu := by
      refine ⟨_, fun f => (hwords f).cpu0, hc.cpu0.admits_adjust _, requested_of_incl (.refl _),
        forced_of_and_eq_zero hc.cpu0 (by decide), fun hset => ?_, fun hset => ?_⟩
      · obtain ⟨hw, hsound⟩ := hwrites (hsecondary ▸ hset)
        exact ⟨_, hw, hsound.admits_adjust 0⟩
      · exact hleaves (hsecondary ▸ hset)
    hostCr0 := ⟨_, fun f => (hwords f).hostCr0, hc.initVmx_cr0⟩
    hostCr4 := ⟨_, fun f => (hwords f).hostCr4, hc.initVmx_cr4⟩
    guestCr0 := ⟨_, fun f => (hwords f).guestCr0, hc.guestCr0 hc.initVmx_cr0⟩
    guestCr4 := ⟨_, fun f => (hwords f).guestCr4, hc.initVmx_cr4.and_not hc.pcide⟩
    repeated := by
      ext1 f
      exact (((hcall.load f).alike (hfirst.load f) rfl rfl rfl).vmcsInit img).fields }

/-- A processor without the second set of capability registers. -/
def oldCpu : Vm :=
  { initial ⟨fun _ => 0, []⟩ with
    msr := fun i =>
      if i = msrIa32VmxPinbasedCtls then 0x0000007f00000016
      else if i = msrIa32VmxProcbasedCtls then 0xfff9fffe0401e172
      else if i = msrIa32VmxExitCtls then 0x00036fff00036dff
      else if i = msrIa32VmxEntryCtls then 0x000011ff000011ff
      else if i = msrIa32VmxCr0Fixed0 then 0x80000021
      else if i = msrIa32VmxCr0Fixed1 then 0xffffffff
      else if i = msrIa32VmxCr4Fixed0 then 0x2000
      else if i = msrIa32VmxCr4Fixed1 then 0x27ff
      else 0 }

/-- The second call on such a processor. -/
theorem respectsCaps_calls_second :
    let img : Image := ⟨0x9000, 0xb000, 0, 0, 0, 0, 0, 0x10a000, 0x10b000⟩
    RespectsCaps oldCpu ([img].foldl vmcsInit oldCpu.initVmx) img := by
  intro img
  have hc : Capable oldCpu := {
    pin := by decide
    exit := by decide
    enter := by decide
    cpu0 := by decide
    cpu1 := by decide
    cr0 := by decide
    cr4 := by decide
    pe := by decide
    wp := by decide
    vmxe := by decide
    pcide := by decide }
  exact respectsCaps_calls hc rfl rfl [img] img

end Vm

end DmfOs
