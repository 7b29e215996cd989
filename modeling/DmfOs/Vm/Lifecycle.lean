import DmfOs.Vm.Init

/-!
# The order of the VMX instructions

`virt_enable` with a log of the VMX instructions that it executes. Every call that
passes VMXON ends with VMXOFF. The fields are written and the guest is entered
whether or not VMCLEAR and VMPTRLD succeeded, and the result of `clear_ptrld` is what
the compiled code leaves in `eax`.
-/

namespace DmfOs

/-- What a call of `virt_enable` does with VMX, with the success of the instructions
whose failure it reports. -/
inductive VmxAction where
  | vmxon (ok : Bool)
  | vmclear (ok : Bool)
  | vmptrld (ok : Bool)
  /-- The VMWRITEs of `vmcs_init`. -/
  | vmcsInit
  /-- An entry, with the VMWRITEs before it and in the handler of its exit. -/
  | entry (instr : EntryInstr)
  | vmxoff (ok : Bool)
  deriving DecidableEq, Repr

/-- The action works on the current control structure. -/
def VmxAction.UsesVmcs : VmxAction → Prop
  | vmcsInit | entry _ => True
  | _ => False

namespace Vm

/-- `clear_ptrld` with its actions. -/
def clearPtrldLogged (s : Vm) (r : EnableResults) : (Word × Vm) × List VmxAction :=
  let s := { s with mem := memset vmcsRegion 0 4096 s.mem }
  let s := { s with mem := s.mem.store32 vmcsRegion (s.basic.setWidth 32 &&& 0x7fffffff) }
  let log := [.vmclear r.vmclear]
  let (failed, s) := s.vmcsClear r
  if failed then ((1, s.printf "%s : vmcs_clear error\n" [.str "clear_ptrld"]), log)
  else
    let log := log ++ [.vmptrld r.vmptrld]
    let (failed, s) := s.makeVmcsCurrent r
    if failed then ((1, s.printf "%s : make_vmcs_current error\n" [.str "clear_ptrld"]), log)
    else ((r.eax, s), log)

/-- `vmx_run` with its actions. -/
def vmxRunLogged : List EntryOutcome → Vm → Option Vm × List VmxAction
  | [], _ => (none, [])
  | o :: os, s => match s.vmxRunBody o with
    | (.again, s') =>
      let (res, log) := vmxRunLogged os s'
      (res, .entry s.entryInstr :: log)
    | (.finished, s') => (some s', [.entry s.entryInstr])

/-- `virt_enable` with its actions. -/
def virtEnableLogged (s : Vm) (img : Image) (r : EnableResults) (os : List EntryOutcome)
    (vmxoff : Bool) : Option Vm × List VmxAction :=
  let (supported, s) := s.isVmxSupported
  if !supported then (some (s.printf "vmx is not support\n" []), [])
  else
    let s := s.initVmx
    let log := [.vmxon r.vmxon]
    let (failed, s) := s.vmxOn r
    if failed then
      (some (s.printf "Error: %s : vmxon failed\n" [.str "virt_enable"]), log)
    else
      let ((ret, s), log') := s.clearPtrldLogged r
      let log := log ++ log'
      let s :=
        if ret ≠ 0 then s.printf "Error: %s : vmclear vmptrld failed\n" [.str "virt_enable"]
        else s
      let s := s.vmcsInit img
      let log := log ++ [.vmcsInit]
      match vmxRunLogged os s with
      | (none, log') => (none, log ++ log')
      | (some s, log') => (some (s.virtEnableEnd vmxoff), log ++ log' ++ [.vmxoff vmxoff])

variable {s : Vm} {img : Image} {r : EnableResults} {os : List EntryOutcome} {vmxoff : Bool}

/-! ## The log belongs to the calls -/

theorem clearPtrldLogged_fst (s : Vm) (r : EnableResults) :
    (s.clearPtrldLogged r).1 = s.clearPtrld r := by
  unfold clearPtrldLogged clearPtrld
  dsimp only
  split_ifs <;> rfl

theorem vmxRunLogged_fst (os : List EntryOutcome) (s : Vm) :
    (vmxRunLogged os s).1 = vmxRun os s := by
  induction os generalizing s with
  | nil => rfl
  | cons o os ih =>
    rw [vmxRunLogged, vmxRun]
    cases s.vmxRunBody o with
    | mk flow t =>
      cases flow with
      | again => exact ih t
      | finished => rfl

/-- The actions of the loop are entries. -/
theorem mem_vmxRunLogged {a : VmxAction} (h : a ∈ (vmxRunLogged os s).2) :
    ∃ instr, a = .entry instr := by
  induction os generalizing s with
  | nil => cases h
  | cons o os ih =>
    rw [vmxRunLogged] at h
    cases hbody : s.vmxRunBody o with
    | mk flow t =>
      rw [hbody] at h
      cases flow with
      | again =>
        rcases List.mem_cons.mp h with rfl | h
        · exact ⟨_, rfl⟩
        · exact ih h
      | finished =>
        rcases List.mem_singleton.mp h with rfl
        exact ⟨_, rfl⟩

/-- The log changes nothing. -/
theorem virtEnableLogged_fst (s : Vm) (img : Image) (r : EnableResults) (os : List EntryOutcome)
    (vmxoff : Bool) :
    (s.virtEnableLogged img r os vmxoff).1 = s.virtEnable img r os vmxoff := by
  cases hs : s.isVmxSupported.1 with
  | false => simp [virtEnableLogged, virtEnable, virtEnableBegin, hs]
  | true =>
    cases hon : r.vmxon with
    | false => simp [virtEnableLogged, virtEnable, virtEnableBegin, hs, vmxOn, hon]
    | true =>
      simp only [virtEnableLogged, virtEnable, virtEnableBegin, hs, vmxOn, hon, prepareVmcs,
        Bool.not_true, Bool.false_eq_true, ite_false, ite_true, clearPtrldLogged_fst]
      rw [← vmxRunLogged_fst]
      cases vmxRunLogged os _ with
      | mk res log => cases res <;> rfl

/-- VMCLEAR is executed, and VMPTRLD if it succeeds. -/
theorem clearPtrldLogged_snd (s : Vm) (r : EnableResults) :
    (s.clearPtrldLogged r).2 =
      .vmclear r.vmclear :: if r.vmclear = true then [.vmptrld r.vmptrld] else [] := by
  cases hc : r.vmclear with
  | false => simp [clearPtrldLogged, vmcsClear, hc]
  | true => cases hp : r.vmptrld <;> simp [clearPtrldLogged, vmcsClear, makeVmcsCurrent, hc, hp]

/-- The result of `clear_ptrld` is 1 after a failure and what is left in `eax` otherwise. -/
theorem clearPtrld_fst (s : Vm) (r : EnableResults) :
    (s.clearPtrld r).1 = if r.vmclear = true ∧ r.vmptrld = true then r.eax else 1 := by
  cases hc : r.vmclear with
  | false => simp [clearPtrld, vmcsClear, hc]
  | true => cases hp : r.vmptrld <;> simp [clearPtrld, vmcsClear, makeVmcsCurrent, hc, hp]

/-- A call that does not pass VMXON does nothing else with VMX. -/
theorem log_refused (h : ¬ (s.isVmxSupported.1 = true ∧ r.vmxon = true)) :
    ∀ a ∈ (s.virtEnableLogged img r os vmxoff).2, a = .vmxon false := by
  cases hs : s.isVmxSupported.1 with
  | false => simp [virtEnableLogged, hs]
  | true =>
    cases hon : r.vmxon with
    | false => simp [virtEnableLogged, hs, vmxOn, hon]
    | true => exact absurd ⟨hs, hon⟩ h

/-- A call that passes VMXON executes VMCLEAR, perhaps VMPTRLD, the writes, the entries
of the loop, and VMXOFF when it returns. -/
theorem log_enabled (img : Image) (os : List EntryOutcome) (vmxoff : Bool)
    (hs : s.isVmxSupported.1 = true) (hon : r.vmxon = true) :
    ∃ entries, (∀ a ∈ entries, ∃ instr, a = .entry instr) ∧
      (s.virtEnableLogged img r os vmxoff).2 =
        .vmxon true :: .vmclear r.vmclear ::
          (if r.vmclear = true then [.vmptrld r.vmptrld] else []) ++ .vmcsInit :: entries ++
          if (s.virtEnableLogged img r os vmxoff).1.isSome then [.vmxoff vmxoff] else [] := by
  simp only [virtEnableLogged, hs, vmxOn, hon, Bool.not_true, Bool.false_eq_true, ite_false,
    ite_true, clearPtrldLogged_snd]
  generalize vmcsInit _ img = t
  refine ⟨(vmxRunLogged os t).2, fun a ha => mem_vmxRunLogged ha, ?_⟩
  cases vmxRunLogged os t with
  | mk res log => cases res <;> simp

/-! ## The discipline -/

/-- The result of `clear_ptrld` tells whether its instructions succeeded, the control
structure is used only after VMXON, VMCLEAR and VMPTRLD, and a call that passes VMXON
and returns executed VMXOFF last. -/
structure Disciplined (s : Vm) (img : Image) (r : EnableResults) (os : List EntryOutcome)
    (vmxoff : Bool) : Prop where
  result : s.isVmxSupported.1 = true → r.vmxon = true →
    ∀ t : Vm, (t.clearPtrld r).1 = 0 ↔ r.vmclear = true ∧ r.vmptrld = true
  ordered : ∀ before a after,
    (s.virtEnableLogged img r os vmxoff).2 = before ++ a :: after → a.UsesVmcs →
      .vmxon true ∈ before ∧ .vmclear true ∈ before ∧ .vmptrld true ∈ before
  off : .vmxon true ∈ (s.virtEnableLogged img r os vmxoff).2 →
    (s.virtEnable img r os vmxoff).isSome = true →
      (s.virtEnableLogged img r os vmxoff).2.getLast? = some (.vmxoff vmxoff)

/-- The call does not pass VMXON, or VMCLEAR and VMPTRLD succeed and leave 0 in `eax`. -/
def Orderly (s : Vm) (r : EnableResults) : Prop :=
  s.isVmxSupported.1 = true → r.vmxon = true →
    r.vmclear = true ∧ r.vmptrld = true ∧ r.eax = 0

/-- The writes come after what was executed before them. -/
theorem Disciplined.orderly (h : Disciplined s img r os vmxoff) : Orderly s r := by
  intro hs hon
  obtain ⟨entries, _, hlog⟩ := log_enabled img os vmxoff hs hon
  have hsplit : (s.virtEnableLogged img r os vmxoff).2 =
      (.vmxon true :: .vmclear r.vmclear ::
        if r.vmclear = true then [.vmptrld r.vmptrld] else []) ++ .vmcsInit :: (entries ++
          if (s.virtEnableLogged img r os vmxoff).1.isSome then [.vmxoff vmxoff] else []) := by
    rw [hlog]
    simp only [List.cons_append, List.append_assoc]
  obtain ⟨_, hclear, hptrld⟩ := h.ordered _ _ _ hsplit trivial
  have hc : r.vmclear = true := by
    cases hc : r.vmclear with
    | true => rfl
    | false => simp [hc] at hclear
  have hp : r.vmptrld = true := by
    cases hp : r.vmptrld with
    | true => rfl
    | false => simp [hc, hp] at hptrld
  refine ⟨hc, hp, ?_⟩
  have hres := (h.result hs hon s).mpr ⟨hc, hp⟩
  rwa [clearPtrld_fst, if_pos ⟨hc, hp⟩] at hres

/-- The actions on the structure in a call that passes VMXON come after VMXON, VMCLEAR
and VMPTRLD. -/
theorem ordered_of_orderly (h : Orderly s r) {before after : List VmxAction} {a : VmxAction}
    (hlog : (s.virtEnableLogged img r os vmxoff).2 = before ++ a :: after) (ha : a.UsesVmcs) :
    .vmxon true ∈ before ∧ .vmclear true ∈ before ∧ .vmptrld true ∈ before := by
  by_cases hpass : s.isVmxSupported.1 = true ∧ r.vmxon = true
  · obtain ⟨hc, hp, _⟩ := h hpass.1 hpass.2
    obtain ⟨entries, _, henabled⟩ := log_enabled img os vmxoff hpass.1 hpass.2
    rw [hc, hp, if_pos rfl, hlog] at henabled
    -- none of the first three actions uses the structure
    rcases before with _ | ⟨b₁, _ | ⟨b₂, _ | ⟨b₃, before⟩⟩⟩
    · cases henabled
      exact ha.elim
    · cases henabled
      exact ha.elim
    · cases henabled
      exact ha.elim
    · simp only [List.cons_append, List.cons.injEq] at henabled
      obtain ⟨rfl, rfl, rfl, _⟩ := henabled
      simp
  · have hmem : a ∈ (s.virtEnableLogged img r os vmxoff).2 := by
      rw [hlog]
      simp
    rw [log_refused hpass a hmem] at ha
    exact ha.elim

/-- A call that passes VMXON and returns executes VMXOFF last. -/
theorem vmxoff_last (hon : .vmxon true ∈ (s.virtEnableLogged img r os vmxoff).2)
    (hret : (s.virtEnable img r os vmxoff).isSome = true) :
    (s.virtEnableLogged img r os vmxoff).2.getLast? = some (.vmxoff vmxoff) := by
  by_cases hpass : s.isVmxSupported.1 = true ∧ r.vmxon = true
  · obtain ⟨entries, _, hlog⟩ := log_enabled img os vmxoff hpass.1 hpass.2
    rw [← virtEnableLogged_fst] at hret
    rw [hlog, if_pos hret, List.getLast?_concat]
  · cases log_refused hpass _ hon

/-- A call of `virt_enable` keeps to the discipline, whatever its entries do, if and only
if it does not pass VMXON or its VMCLEAR and VMPTRLD succeed and leave 0 in `eax`. -/
theorem disciplined_iff_orderly (s : Vm) (img : Image) (r : EnableResults)
    (os : List EntryOutcome) (vmxoff : Bool) : Disciplined s img r os vmxoff ↔ Orderly s r := by
  refine ⟨Disciplined.orderly, fun h => ⟨fun hs hon t => ?_, fun _ _ _ => ordered_of_orderly h,
    vmxoff_last⟩⟩
  obtain ⟨hc, hp, heax⟩ := h hs hon
  rw [clearPtrld_fst, if_pos ⟨hc, hp⟩]
  exact iff_of_true heax ⟨hc, hp⟩

/-- After a VMCLEAR that fails the fields are written and VMLAUNCH is attempted. -/
theorem not_disciplined_vmclear :
    ¬ Disciplined { initial ⟨fun _ => 0, []⟩ with cpuidEcx := 1 <<< 5 }
      ⟨0, 0, 0, 0, 0, 0, 0, 0x10a000, 0x10b000⟩ ⟨true, false, true, fun _ => 0, 0⟩
      [.early ⟨x86EflagsCf, 0, by decide⟩] true := by
  intro h
  obtain ⟨hclear, _⟩ := h.orderly (by decide) rfl
  cases hclear

end Vm

end DmfOs
