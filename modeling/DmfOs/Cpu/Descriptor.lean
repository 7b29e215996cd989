import DmfOs.Vm.TaskRegister

/-!
# Descriptors

The GDT as the kernel leaves it: the segments of `os.c`, the call gate that `init_syscall`
copies over an entry, and the task states of `task_init`. The processor reads the same
eight bytes as a segment, as a gate or as a task state, by the type in their access byte.
-/

namespace DmfOs

/-- A selector. -/
abbrev Selector := BitVec 16

/-- `APP_CODE_SEG`. -/
def appCodeSeg : Selector := (3 * 8) ||| 3

/-- `APP_DATA_SEG`. -/
def appDataSeg : Selector := (4 * 8) ||| 3

/-- `TASK_0_TSS`. -/
def task0TssSel : Selector := 5 * 8

/-- `TASK_1_TSS`. -/
def task1TssSel : Selector := 6 * 8

/-- The privilege level that a selector asks for. -/
def rpl (sel : Selector) : Nat := (sel &&& 3).toNat

namespace GdtEntry

variable (e : GdtEntry)

/-- The type. -/
def type : BitVec 4 := e.access.extractLsb' 0 4

/-- Code or data, not a gate or a task state. -/
def isSegment : Bool := e.access.getLsbD 4

/-- The descriptor privilege level. -/
def dpl : Nat := (e.access.extractLsb' 5 2).toNat

/-- The present bit. -/
def present : Bool := e.access.getLsbD 7

/-- The limit, without its upper bits, which the tables of the kernel leave zero for task
states. -/
def limit : Nat := e.limitLow.toNat

/-- The offset of a gate. -/
def offset : Word := (e.baseHigh ++ e.granularity) ++ e.limitLow

/-- The selector of a gate. -/
def selector : Selector := e.baseLow

/-- The number of words that a gate copies. -/
def paramCount : Nat := (e.baseMiddle.extractLsb' 0 5).toNat

end GdtEntry

/-- `syscall_des_t`, with the bits that have no name. -/
structure SyscallDes where
  offset0 : BitVec 16
  sellector : BitVec 16
  paramCount : BitVec 5
  pad : BitVec 3
  type : BitVec 4
  zero : BitVec 1
  dpl : BitVec 2
  p : BitVec 1
  offset1 : BitVec 16
  deriving DecidableEq, Repr

namespace SyscallDes

/-- The bytes of a gate as an entry of the GDT, which is what `memcpy` makes of them. -/
def toEntry (d : SyscallDes) : GdtEntry where
  limitLow := d.offset0
  baseLow := d.sellector
  baseMiddle := d.pad ++ d.paramCount
  access := d.p ++ d.dpl ++ d.zero ++ d.type
  granularity := d.offset1.extractLsb' 0 8
  baseHigh := d.offset1.extractLsb' 8 8

/-- What `init_syscall` writes into `syscall_des`, which starts as zeros. -/
def ofHandler (syscallHandler : Word) : SyscallDes where
  offset0 := syscallHandler.setWidth 16
  offset1 := (syscallHandler >>> 16).setWidth 16
  sellector := kernelCodeSeg.setWidth 16
  paramCount := 3
  pad := 0
  type := 0b1100
  zero := 0
  dpl := 3
  p := 1

variable (d : SyscallDes)

/-- The processor finds the offset again. -/
theorem offset_toEntry : d.toEntry.offset = d.offset1 ++ d.offset0 := by
  have hhigh : d.offset1.extractLsb' 8 8 ++ d.offset1.extractLsb' 0 8 = d.offset1 :=
    (Memory.append_byte d.offset1 (show 8 = 0 + 8 from rfl)).trans BitVec.extractLsb'_eq_self
  exact congrArg (· ++ d.offset0) hhigh

theorem paramCount_toEntry : d.toEntry.paramCount = d.paramCount.toNat :=
  congrArg BitVec.toNat BitVec.extractLsb'_append_eq_right

theorem type_toEntry : d.toEntry.type = d.type := BitVec.extractLsb'_append_eq_right

/-- The access byte, bit by bit. -/
theorem access_toEntry (i : Nat) :
    d.toEntry.access.getLsbD i =
      if i < 4 then d.type.getLsbD i
      else if i - 4 < 1 then d.zero.getLsbD (i - 4)
      else if i - 4 - 1 < 2 then d.dpl.getLsbD (i - 4 - 1)
      else d.p.getLsbD (i - 4 - 1 - 2) := by
  have happend : d.toEntry.access.getLsbD i =
      (d.p ++ d.dpl ++ d.zero ++ d.type).getLsbD i := rfl
  rw [happend, BitVec.getLsbD_append, BitVec.getLsbD_append, BitVec.getLsbD_append]

theorem dpl_toEntry : d.toEntry.dpl = d.dpl.toNat := by
  have hbits : d.toEntry.access.extractLsb' 5 2 = d.dpl := by
    refine BitVec.eq_of_getLsbD_eq fun i hi => ?_
    have hsub : 5 + i - 4 - 1 = i := by omega
    rw [BitVec.getLsbD_extractLsb', decide_eq_true hi, Bool.true_and, access_toEntry,
      if_neg (by omega), if_neg (by omega), hsub, if_pos hi]
  rw [GdtEntry.dpl, hbits]

theorem present_toEntry : d.toEntry.present = d.p.getLsbD 0 := access_toEntry d 7

theorem isSegment_toEntry : d.toEntry.isSegment = d.zero.getLsbD 0 := access_toEntry d 4

end SyscallDes

/-- Two halves of a word. -/
theorem append_halves (v : Word) : (v >>> 16).setWidth 16 ++ v.setWidth 16 = v := by
  refine BitVec.eq_of_getLsbD_eq fun i hi => ?_
  rw [BitVec.getLsbD_append]
  split_ifs with hlow
  · simp [hlow]
  · have hhigh : i - 16 < 16 := by omega
    simp only [BitVec.getLsbD_setWidth, BitVec.getLsbD_ushiftRight, hhigh, decide_true,
      Bool.true_and]
    congr 1
    omega

namespace Gdt

/-- The table of `os.c`. -/
def os : Gdt := fun i =>
  if i.val = 1 then ⟨0xffff, 0x0000, 0x0, 0x9a, 0xcf, 0x00⟩
  else if i.val = 2 then ⟨0xffff, 0x0000, 0x0, 0x92, 0xcf, 0x00⟩
  else if i.val = 3 then ⟨0xffff, 0x0000, 0x0, 0xfa, 0xcf, 0x00⟩
  else if i.val = 4 then ⟨0xffff, 0x0000, 0x0, 0xf3, 0xcf, 0x00⟩
  else ⟨0, 0, 0, 0, 0, 0⟩

/-- `init_syscall`. -/
def initSyscall (syscallHandler : Word) (gdt : Gdt) : Gdt := fun i =>
  if i.val = 7 then (SyscallDes.ofHandler syscallHandler).toEntry else gdt i

/-- What `init` leaves of the table: `init_syscall`, then `task_init`. -/
def init (syscallHandler : Word) (tss : TaskStates) : Gdt :=
  (os.initSyscall syscallHandler).taskInit tss

/-- The entry that a selector names. -/
def entry (gdt : Gdt) (sel : Selector) : GdtEntry := gdt.select (sel.setWidth 32)

/-- The segments of the kernel. -/
structure Flat (gdt : Gdt) : Prop where
  code : gdt 1 = os 1
  data : gdt 2 = os 2

/-- The entries that a system call goes through. -/
structure Gated (gdt : Gdt) (syscallHandler : Word) : Prop extends gdt.Flat where
  gate : gdt 7 = (SyscallDes.ofHandler syscallHandler).toEntry

/-- `task_init` does not touch them. -/
theorem gated_init (syscallHandler : Word) (tss : TaskStates) :
    (init syscallHandler tss).Gated syscallHandler := by
  have hkeep (i : Fin 256) (h5 : i ≠ 5) (h6 : i ≠ 6) (h16 : i ≠ 16) :
      init syscallHandler tss i = os.initSyscall syscallHandler i := by
    rw [init, taskInit, Function.update_of_ne h16, Function.update_of_ne h6,
      Function.update_of_ne h5]
  refine ⟨⟨?_, ?_⟩, ?_⟩
  · exact (hkeep 1 (by decide) (by decide) (by decide)).trans (if_neg (by decide))
  · exact (hkeep 2 (by decide) (by decide) (by decide)).trans (if_neg (by decide))
  · exact (hkeep 7 (by decide) (by decide) (by decide)).trans (if_pos rfl)

end Gdt

end DmfOs
