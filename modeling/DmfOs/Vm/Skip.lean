import DmfOs.Vm.Progress

/-!
# Lengths of skipped instructions

The processor stores the length of the exiting instruction in `EXI_INST_LEN`.
Only some cases of `exit_handler` use it: a VMCALL, CPUID or HLT is skipped by
the length of its shortest encoding, and an EPT violation by `ENT_INST_LEN`, the
length for an event that is injected on entry.
-/

namespace DmfOs.Vm

variable {s : Vm}

/-- The reasons for which the handler writes the instruction pointer. -/
def skipReasons : List Word := [10, 12, 14, 18, 28, 29, 48]

/-- The guest continues right after the instruction that exited. -/
def SkipsExactly (s : Vm) : Prop :=
  s.exitHandler.2.fields .guestRip = s.fields .guestRip + s.fields .exiInstLen

/-- The length that the handler takes for the instruction is its own. -/
def TakesLength (s : Vm) : Prop :=
  (exitReason s = 18 → s.fields .exiInstLen = 3) ∧ (exitReason s = 10 → s.fields .exiInstLen = 2) ∧
    (exitReason s = 12 → s.fields .exiInstLen = 1) ∧
    (exitReason s = 48 → s.fields .entInstLen = s.fields .exiInstLen)

/-- An EPT violation moves the instruction pointer by `ENT_INST_LEN`. -/
theorem exitHandler_ept_rip (h : s.current = true) (hr : exitReason s = 48) :
    s.exitHandler.2.fields .guestRip = s.fields .guestRip + s.fields .entInstLen := by
  have hcall : ¬ s.isHypercall = true := not_isHypercall h (by rw [hr]; decide)
  have hread (enc : Encoding) : s.withEflags.vmcsRead enc = s.fields enc := vmcsRead_eq _ _ h
  rw [exitHandler_of_ept hcall ((exitReason_eq h).trans hr), handleEptViolation, vmcsRead_eq s _ h,
    hread, hread, vmcsWrite_fields_ne _ _ _ (by decide)]
  exact (vmcsWrite_fields _ _ _ (by exact h) _).trans (if_pos rfl)

/-- For any other reason the instruction pointer stays. -/
theorem exitHandler_rip_of_not_mem (h : s.current = true) (hr : exitReason s ∉ skipReasons) :
    s.exitHandler.2.fields .guestRip = s.fields .guestRip := by
  simp only [skipReasons, List.mem_cons, List.not_mem_nil, or_false, not_or] at hr
  obtain ⟨h10, h12, h14, h18, h28, h29, h48⟩ := hr
  have hlen : ¬ (exitReason s = 14 ∨ exitReason s = 28 ∨ exitReason s = 29) := by
    simp only [h14, h28, h29, or_self, not_false_iff]
  rw [(exitHandler_resumed h h18 h48).2.1, ripAdvance, if_neg h10, if_neg h12, if_neg hlen]
  exact BitVec.add_zero _

/-- A skipped instruction is skipped exactly if and only if the length taken for it is its own. -/
theorem skipsExactly_iff (h : s.current = true) (hr : exitReason s ∈ skipReasons) :
    SkipsExactly s ↔ TakesLength s := by
  rw [SkipsExactly, TakesLength]
  by_cases hcall : exitReason s = 18
  · rw [(exitHandler_hypercall h hcall).2, hcall, BitVec.add_right_inj]
    simp [eq_comm]
  by_cases hept : exitReason s = 48
  · rw [exitHandler_ept_rip h hept, hept, BitVec.add_right_inj]
    simp
  rw [(exitHandler_resumed h hcall hept).2.1, BitVec.add_right_inj, ripAdvance]
  simp only [skipReasons, List.mem_cons, List.not_mem_nil, or_false, hcall, hept, false_or] at hr
  rcases hr with hr | hr | hr | hr | hr
  · simp [hr, eq_comm]
  · simp [hr, eq_comm]
  · simp [hr]
  · simp [hr]
  · simp [hr]

/-- An exit for the given reason from an instruction of the given length. -/
def exitOf (reason instLen : Word) : Vm :=
  { initial ⟨fun _ => 0, []⟩ with
    current := true
    fields := fun e => if e = .exiReason then reason else if e = .exiInstLen then instLen else 0 }

/-- A plain CPUID is skipped by its two bytes. -/
theorem skipsExactly_iff_cpuid : SkipsExactly (exitOf 10 2) ↔ TakesLength (exitOf 10 2) :=
  skipsExactly_iff rfl (by decide)

/-- A CPUID with a prefix has three bytes, of which two are skipped. -/
theorem not_skipsExactly :
    ¬ ∀ s : Vm, s.current = true → 1 ≤ (s.fields .exiInstLen).toNat →
      (s.fields .exiInstLen).toNat ≤ 15 → exitReason s ∈ skipReasons → SkipsExactly s := by
  intro hall
  have hskip := hall (exitOf 10 3) rfl (by decide) (by decide) (by decide)
  obtain ⟨_, hrip, _⟩ := exitHandler_resumed (s := exitOf 10 3) rfl (by decide) (by decide)
  rw [SkipsExactly, hrip] at hskip
  exact absurd hskip (by decide)

end DmfOs.Vm
