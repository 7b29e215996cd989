import DmfOs.Vm.Init

/-!
# The task register

`task_init` of `task.c` splits the addresses of the task states over the descriptors
of the GDT, from which LTR takes the base of the task register. The two routines that
initialise the control structure write the selector of the descriptor with a base of
their own: the address of the descriptor instead of the one it holds.
-/

namespace DmfOs

/-- `gdt_table_t`. -/
structure GdtEntry where
  limitLow : BitVec 16
  baseLow : BitVec 16
  baseMiddle : BitVec 8
  access : BitVec 8
  granularity : BitVec 8
  baseHigh : BitVec 8
  deriving DecidableEq, Repr

/-- The table `gdt_table`. -/
abbrev Gdt := Fin 256 → GdtEntry

/-- The addresses of the task states of `task.c`. -/
structure TaskStates where
  task0Tss : Word
  task1Tss : Word
  kernelTss : Word

/-- `KERNEL_TSS`. -/
def kernelTssSel : Word := 16 * 8

/-- `KERNEL_START_ADDR`. -/
def kernelStartAddr : Word := 0x100000

namespace GdtEntry

/-- The base address that the processor puts together from a descriptor. -/
def base (e : GdtEntry) : Word :=
  .ofNat 32 (e.baseHigh.toNat * 2 ^ 24 + e.baseMiddle.toNat * 2 ^ 16 + e.baseLow.toNat)

/-- The descriptor that `task_init` writes for a task state. -/
def ofTss (limitLow : BitVec 16) (access : BitVec 8) (tss : Word) : GdtEntry where
  limitLow := limitLow
  baseLow := (tss &&& 0xffff).setWidth 16
  baseMiddle := ((tss >>> 16) &&& 0xff).setWidth 8
  access := access
  granularity := 0x0
  baseHigh := ((tss >>> 24) &&& 0xff).setWidth 8

/-- The parts of an address make up the address. -/
theorem base_ofTss (limitLow : BitVec 16) (access : BitVec 8) (tss : Word) :
    (ofTss limitLow access tss).base = tss := by
  have hlow : (tss &&& 0xffff).toNat = tss.toNat % 2 ^ 16 := by
    rw [BitVec.toNat_and]
    exact Nat.and_two_pow_sub_one_eq_mod tss.toNat 16
  have hbyte (w : Word) : (w &&& 0xff).toNat = w.toNat % 2 ^ 8 := by
    rw [BitVec.toNat_and]
    exact Nat.and_two_pow_sub_one_eq_mod w.toNat 8
  apply BitVec.eq_of_toNat_eq
  simp only [base, ofTss, BitVec.toNat_setWidth, hlow, hbyte, BitVec.toNat_ushiftRight,
    Nat.shiftRight_eq_div_pow, BitVec.toNat_ofNat]
  have := tss.isLt
  omega

end GdtEntry

namespace Gdt

/-- `task_init`. -/
def taskInit (tss : TaskStates) (gdt : Gdt) : Gdt :=
  let gdt := Function.update gdt 5 (.ofTss 0x86 0xe9 tss.task0Tss)
  let gdt := Function.update gdt 6 (.ofTss 0x86 0xe9 tss.task1Tss)
  Function.update gdt 16 (.ofTss 0xffff 0b10001001 tss.kernelTss)

/-- The descriptor that a selector of the GDT names. -/
def select (gdt : Gdt) (sel : Word) : GdtEntry := gdt (Fin.ofNat 256 (sel.toNat / 8))

/-- What LTR loads in `init_as.S` is the address of `kernel_tss`. -/
theorem base_select_kernelTss (tss : TaskStates) (gdt : Gdt) :
    ((gdt.taskInit tss).select kernelTssSel).base = tss.kernelTss :=
  GdtEntry.base_ofTss _ _ _

end Gdt

namespace Vm

variable {s : Vm}

/-- The last write to a field of the current structure stays. -/
theorem vmcsWrites_fields_eq (h : s.current = true) (ws : List (Encoding × Word)) (e : Encoding) :
    (s.vmcsWrites ws).fields e =
      ws.foldl (fun val w => if e = w.1 then w.2 else val) (s.fields e) := by
  induction ws generalizing s with
  | nil => rfl
  | cons w ws ih =>
    rw [vmcsWrites, List.foldl_cons, List.foldl_cons, ← vmcsWrite_fields s w.1 w.2 h e]
    exact ih ((vmcsWrite_current s w.1 w.2).trans h)

/-- The selector and the base that `init_vmcs_host` writes for the task register. -/
theorem initVmcsHost_tr (h : s.current = true) (img : Image) :
    (s.initVmcsHost img).fields .hostSelTr = kernelTssSel ∧
      (s.initVmcsHost img).fields .hostBaseTr = 0x9080 :=
  ⟨vmcsWrites_fields_eq h _ _, vmcsWrites_fields_eq h _ _⟩

/-- The selector and the base that `init_vmcs_guest` writes for the task register. -/
theorem initVmcsGuest_tr (h : s.current = true) (img : Image) :
    (s.initVmcsGuest img).fields .guestSelTr = kernelTssSel ∧
      (s.initVmcsGuest img).fields .guestBaseTr = 0x9080 := by
  have hcur := (quiet_setupGuestPageTables s img).current.trans h
  exact ⟨vmcsWrites_fields_eq hcur _ _, vmcsWrites_fields_eq hcur _ _⟩

/-- The bases in the host and the guest state agree with the descriptors that their
selectors name, and these hold the address of `kernel_tss`. -/
structure TrAgrees (s : Vm) (img : Image) (gdt : Gdt) (kernelTss : Word) : Prop where
  host : (s.initVmcsHost img).fields .hostBaseTr =
    (gdt.select ((s.initVmcsHost img).fields .hostSelTr)).base
  guest : (s.initVmcsGuest img).fields .guestBaseTr =
    (gdt.select ((s.initVmcsGuest img).fields .guestSelTr)).base
  tss : (gdt.select ((s.initVmcsHost img).fields .hostSelTr)).base = kernelTss ∧
    (gdt.select ((s.initVmcsGuest img).fields .guestSelTr)).base = kernelTss

/-- The bases could only agree for a `kernel_tss` in place of its own descriptor. -/
theorem TrAgrees.kernelTss_eq {img : Image} {gdt : Gdt} (tss : TaskStates)
    (h : s.current = true) (ha : TrAgrees s img (gdt.taskInit tss) tss.kernelTss) :
    tss.kernelTss = 0x9080 := by
  obtain ⟨_, hbase⟩ := initVmcsHost_tr h img
  rw [← ha.tss.1, ← ha.host, hbase]

/-- Wherever the kernel puts `kernel_tss`, the descriptors hold its address while the
host and the guest state have another base. -/
theorem not_trAgrees (h : s.current = true) (img : Image) (gdt : Gdt) (tss : TaskStates)
    (hstart : kernelStartAddr ≤ tss.kernelTss) :
    ¬ TrAgrees s img (gdt.taskInit tss) tss.kernelTss ∧
      (s.initVmcsHost img).fields .hostBaseTr ≠ tss.kernelTss ∧
      (s.initVmcsGuest img).fields .guestBaseTr ≠ tss.kernelTss := by
  have hne : tss.kernelTss ≠ 0x9080 := by
    intro heq
    rw [heq] at hstart
    exact absurd hstart (by decide)
  refine ⟨fun ha => hne (ha.kernelTss_eq tss h), ?_, ?_⟩
  · rw [(initVmcsHost_tr h img).2]
    exact hne.symm
  · rw [(initVmcsGuest_tr h img).2]
    exact hne.symm

/-- An empty descriptor. -/
def nullEntry : GdtEntry := ⟨0, 0, 0, 0, 0, 0⟩

/-- The kernel with `kernel_tss` at 0x105000. -/
theorem not_trAgrees_0x105000 :
    let s : Vm := { initial ⟨fun _ => 0, []⟩ with current := true }
    let gdt := Gdt.taskInit ⟨0x104000, 0x104800, 0x105000⟩ fun _ => nullEntry
    let img : Image := ⟨0x9000, 0xb000, 0, 0, 0, 0, 0, 0x10a000, 0x10b000⟩
    ¬ TrAgrees s img gdt 0x105000 ∧ (s.initVmcsHost img).fields .hostBaseTr ≠ 0x105000 ∧
      (s.initVmcsGuest img).fields .guestBaseTr ≠ 0x105000 :=
  not_trAgrees rfl _ _ ⟨0x104000, 0x104800, 0x105000⟩ (by decide)

/-- Right at the start of the kernel the bases do not agree either. -/
theorem trDiffers_0x100000 :
    ¬ TrAgrees { initial ⟨fun _ => 0, []⟩ with current := true }
      ⟨0x9000, 0xb000, 0, 0, 0, 0, 0, 0x10a000, 0x10b000⟩
      (Gdt.taskInit ⟨0x104000, 0x104800, 0x100000⟩ fun _ => nullEntry) 0x100000 := fun h =>
  absurd (h.kernelTss_eq ⟨0x104000, 0x104800, 0x100000⟩ rfl) (by decide)

end Vm

end DmfOs
