import DmfOs.Cpu.Descriptor

/-!
# The interrupt table

The gates that `irq.c` writes. A gate keeps the bits that have no name, which are zero in
the table of `os.c`.
-/

namespace DmfOs

/-- `idt_entry_t`, with the bits that have no name. -/
structure IdtEntry where
  offset0 : BitVec 16
  selector : Selector
  ist : BitVec 3
  pad : BitVec 5
  type : BitVec 4
  zero : BitVec 1
  dpl : BitVec 2
  p : BitVec 1
  offset1 : BitVec 16
  deriving DecidableEq, Repr

/-- The table, by the vectors of the interrupts. -/
abbrev Idt := Byte → IdtEntry

/-- The address of the handler. -/
def IdtEntry.offset (e : IdtEntry) : Word := e.offset1 ++ e.offset0

/-- A gate through which the processor takes an interrupt with interrupts off. -/
def IdtEntry.isInterruptGate (e : IdtEntry) : Bool := e.type = 0xe ∧ e.zero = 0 ∧ e.p = 1

/-- A gate of the kernel for a handler. -/
structure IdtEntry.LeadsTo (e : IdtEntry) (handler : Word) : Prop where
  gate : e.isInterruptGate = true
  selector : e.selector = kernelCodeSeg.setWidth 16
  offset : e.offset = handler

namespace Idt

/-- The table of `os.c`. -/
def os : Idt := fun _ => ⟨0, 0, 0, 0, 0, 0, 0, 0, 0⟩

/-- `set_idt_entry`. -/
def setIdtEntry (vec : Byte) (addr : Word) (selector : Selector) (dpl : Word) (idt : Idt) : Idt :=
  Function.update idt vec { idt vec with
    offset0 := addr.setWidth 16
    selector := selector
    ist := 0
    type := 0xe
    dpl := dpl.setWidth 2
    p := 1
    offset1 := (addr >>> 16).setWidth 16 }

/-- `set_idt_dpl`. -/
def setIdtDpl (vec : Byte) (dpl : BitVec 16) (idt : Idt) : Idt :=
  Function.update idt vec { idt vec with dpl := dpl.setWidth 2 }

/-- `set_idt_sel`. -/
def setIdtSel (vec : Byte) (sel : Selector) (idt : Idt) : Idt :=
  Function.update idt vec { idt vec with selector := sel }

variable {idt : Idt} {vec : Byte} {addr dpl : Word} {selector : Selector}

/-- The processor finds the handler that was set. -/
theorem offset_setIdtEntry : (idt.setIdtEntry vec addr selector dpl vec).offset = addr := by
  rw [setIdtEntry, Function.update_self, IdtEntry.offset]
  exact append_halves addr

/-- In a table whose unnamed bits are zero the entry is a gate. -/
theorem isInterruptGate_setIdtEntry (hzero : (idt vec).zero = 0) :
    (idt.setIdtEntry vec addr selector dpl vec).isInterruptGate = true := by
  rw [setIdtEntry, Function.update_self, IdtEntry.isInterruptGate, hzero]
  rfl

/-- The gate that `irq_init` sets. -/
theorem leadsTo_setIdtEntry (hzero : (idt vec).zero = 0) :
    (idt.setIdtEntry vec addr (kernelCodeSeg.setWidth 16) dpl vec).LeadsTo addr :=
  ⟨isInterruptGate_setIdtEntry hzero, by rw [setIdtEntry, Function.update_self],
    offset_setIdtEntry⟩

/-- The two other setters undo nothing: a gate set in parts is the gate set at once. -/
theorem setIdtSel_setIdtDpl_setIdtEntry (sel' : Selector) (dpl' : BitVec 16) :
    ((idt.setIdtEntry vec addr selector dpl).setIdtDpl vec dpl').setIdtSel vec sel' =
      idt.setIdtEntry vec addr sel' (dpl'.setWidth 32) := by
  have hdpl : (dpl'.setWidth 32).setWidth 2 = dpl'.setWidth 2 := by
    rw [BitVec.setWidth_setWidth_of_le _ (by decide)]
  simp only [setIdtSel, setIdtDpl, setIdtEntry, Function.update_idem, Function.update_self, hdpl]

end Idt

end DmfOs
