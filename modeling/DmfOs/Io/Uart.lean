import DmfOs.Core.Align
import DmfOs.Core.Memory
import Mathlib.Logic.Relation

/-!
# The transmitter of the UART

The device at port `0x3f8` as the driver of `io.c` sees it: five registers to write, the
divisor latch behind two of them, the line control and the line status to read. A byte
waits in the holding register, or in the queue that replaces it when the FIFO is on, moves
to the shift register, and is then on the line. The device moves bytes at its own pace.
-/

namespace DmfOs

/-- The registers that keep what is written to them. -/
structure UartRegs where
  dll : Byte
  dlm : Byte
  ier : Byte
  lcr : Byte
  fcr : Byte
  mcr : Byte
  deriving DecidableEq, Repr

/-- The UART. -/
structure Uart extends UartRegs where
  /-- The bits of the line status that the receiver sets. -/
  rx : Byte
  /-- What waits for the shift register. -/
  fifo : List Byte
  shift : Option Byte
  /-- What was on the line so far. -/
  line : List Byte
  deriving DecidableEq, Repr

/-- The divisor latch is in the place of the registers 0 and 1. -/
def UartRegs.dlab (r : UartRegs) : Bool := r.lcr.getLsbD 7

/-- A write to the register at a distance from the base port. -/
def UartRegs.outb (r : UartRegs) (reg : Fin 5) (v : Byte) : UartRegs :=
  match reg with
  | 0 => if r.dlab then { r with dll := v } else r
  | 1 => if r.dlab then { r with dlm := v } else { r with ier := v }
  | 2 => { r with fcr := v }
  | 3 => { r with lcr := v }
  | 4 => { r with mcr := v }

namespace Uart

variable {u u' u₀ : Uart} {v : Byte} {cs : List Byte}

/-- A byte for the transmitter. Without FIFO it replaces the one that waits, and a FIFO
that is full drops it. -/
def transmit (u : Uart) (v : Byte) : List Byte :=
  if u.fcr.getLsbD 0 then if u.fifo.length < 16 then u.fifo ++ [v] else u.fifo else [v]

/-- What waits after a write to the FIFO control: nothing when the FIFO goes on or off or
is reset. -/
def resetFifo (u : Uart) (v : Byte) : List Byte :=
  if v.getLsbD 0 = u.fcr.getLsbD 0 ∧ ¬(v.getLsbD 0 ∧ v.getLsbD 2) then u.fifo else []

/-- `outb` to one of the ports of the UART. -/
def outb (u : Uart) (reg : Fin 5) (v : Byte) : Uart :=
  { u with
    toUartRegs := u.toUartRegs.outb reg v
    fifo :=
      match reg with
      | 0 => if u.dlab then u.fifo else u.transmit v
      | 2 => u.resetFifo v
      | _ => u.fifo }

/-- The line status: bit 5 while nothing waits, bit 6 while nothing is left to send. -/
def lsr (u : Uart) : Byte :=
  (u.rx &&& 0x9f) ||| (if u.fifo = [] then 0x20 else 0) |||
    (if u.fifo = [] ∧ u.shift = none then 0x40 else 0)

/-- What the device does by itself. -/
inductive Acts : Uart → Uart → Prop
  /-- The next byte moves to the shift register. -/
  | load {u : Uart} {v : Byte} {cs : List Byte} : u.shift = none → u.fifo = v :: cs →
      Acts u { u with shift := some v, fifo := cs }
  /-- The byte in the shift register is on the line. -/
  | send {u : Uart} {v : Byte} : u.shift = some v →
      Acts u { u with shift := none, line := u.line ++ [v] }
  /-- The receiver has news. -/
  | receive (u : Uart) (v : Byte) : Acts u { u with rx := v }

/-- What was given to the transmitter and not lost: what was on the line, and what is still
to come. -/
def sent (u : Uart) : List Byte := u.line ++ u.shift.toList ++ u.fifo

/-- Bit 5 of the status says that nothing waits. -/
theorem lsr_and (u : Uart) : u.lsr &&& 0x20 ≠ 0 ↔ u.fifo = [] := by
  have hbit : (u.lsr &&& 0x20).getLsbD 5 = u.lsr.getLsbD 5 := by
    rw [BitVec.getLsbD_and]
    simp
  have hrest : u.lsr &&& 0x20 ≠ 0 ↔ u.lsr.getLsbD 5 = true := by
    rw [← hbit]
    generalize hx : u.lsr &&& 0x20 = x
    have hmask : x = x &&& 0x20 := by rw [← hx, BitVec.and_assoc, BitVec.and_self]
    clear hbit hx
    revert hmask
    revert x
    decide
  rw [hrest, lsr]
  split_ifs <;> simp_all

/-- The device does not touch the registers. -/
theorem Acts.regs (h : Acts u u') : u'.toUartRegs = u.toUartRegs := by
  cases h <;> rfl

/-- The device loses nothing and adds nothing. -/
theorem Acts.sent (h : Acts u u') : u'.sent = u.sent := by
  cases h with
  | load hs hf => simp [Uart.sent, hs, hf]
  | send hs => simp [Uart.sent, hs]
  | receive => rfl

theorem Acts.fifo (h : Acts u u') (hf : u.fifo = []) : u'.fifo = [] := by
  cases h with
  | load _ hcs => exact absurd (hf.symm.trans hcs) (List.cons_ne_nil _ _).symm
  | send _ => exact hf
  | receive => exact hf

/-- A byte that is written when nothing waits comes last. -/
theorem sent_outb_thr (hf : u.fifo = []) (hd : u.dlab = false) (v : Byte) :
    (u.outb 0 v).sent = u.sent ++ [v] := by
  have hq : u.transmit v = [v] := by
    rw [transmit, hf]
    split_ifs <;> simp_all
  simp [outb, sent, hd, hq, hf]

/-- A write to another register, or to the latch, adds nothing; one to the FIFO control may
take away what waits. -/
theorem sent_outb_le {reg : Fin 5} (h : reg = 0 → u.dlab = true) (v : Byte) :
    (u.outb reg v).sent <+: u.sent := by
  have hfifo : (u.outb reg v).fifo = u.fifo ∨ (u.outb reg v).fifo = [] := by
    match reg with
    | 0 => exact .inl (if_pos (h rfl))
    | 1 | 3 | 4 => exact .inl rfl
    | 2 =>
      simp only [outb, resetFifo]
      split_ifs
      · exact .inl rfl
      · exact .inr rfl
  have hrest : (u.outb reg v).sent = u.line ++ u.shift.toList ++ (u.outb reg v).fifo := rfl
  rw [hrest]
  rcases hfifo with hf | hf <;> rw [hf]
  · exact List.prefix_refl _
  · rw [List.append_nil]
    exact List.prefix_append _ _

/-- The registers that `serial_init` leaves: 115200 baud, 8 bits, no parity, one stop bit,
no interrupts, no FIFO, RTS and DTR on. -/
def ready : UartRegs where
  dll := 0x01
  dlm := 0x00
  ier := 0x00
  lcr := 0x03
  fcr := 0x00
  mcr := 0x03

/-- The transmitter got a text and lost none of it. What came before the text is part of
what was there in `u₀`. -/
def Carries (u₀ : Uart) (text : List Byte) (u : Uart) : Prop :=
  ∃ before, before <+: u₀.sent ∧ u.sent = before ++ text

theorem carries_nil (u : Uart) : Carries u [] u := ⟨u.sent, List.prefix_refl _, by simp⟩

theorem Carries.acts (h : Carries u₀ cs u) (ha : Acts u u') : Carries u₀ cs u' := by
  obtain ⟨before, hpre, hsent⟩ := h
  exact ⟨before, hpre, ha.sent.trans hsent⟩

theorem Carries.outb_thr (h : Carries u₀ cs u) (hf : u.fifo = []) (hd : u.dlab = false)
    (v : Byte) : Carries u₀ (cs ++ [v]) (u.outb 0 v) := by
  obtain ⟨before, hpre, hsent⟩ := h
  exact ⟨before, hpre, by rw [sent_outb_thr hf hd, hsent, List.append_assoc]⟩

/-- Before the text begins, the registers may be written. -/
theorem Carries.outb_nil {reg : Fin 5} (h : Carries u₀ [] u) (hd : reg = 0 → u.dlab = true)
    (v : Byte) : Carries u₀ [] (u.outb reg v) := by
  obtain ⟨before, hpre, hsent⟩ := h
  rw [List.append_nil] at hsent
  refine ⟨_, ?_, (List.append_nil _).symm⟩
  exact (sent_outb_le hd v).trans (hsent ▸ hpre)

/-! ## The device gets along -/

open Relation

/-- The byte in the shift register can be sent. -/
theorem exists_shift (u : Uart) : ∃ u', ReflTransGen Acts u u' ∧ u'.shift = none ∧
    u'.fifo = u.fifo := by
  rcases hs : u.shift with _ | v
  · exact ⟨u, .refl, hs, rfl⟩
  · exact ⟨_, .single (.send hs), rfl, rfl⟩

/-- The device can send everything. -/
theorem exists_drained (u : Uart) : ∃ u', ReflTransGen Acts u u' ∧ u'.shift = none ∧
    u'.fifo = [] := by
  generalize hcs : u.fifo = cs
  induction cs generalizing u with
  | nil =>
    obtain ⟨u', hu, hs, hf⟩ := u.exists_shift
    exact ⟨u', hu, hs, hf.trans hcs⟩
  | cons v cs ih =>
    obtain ⟨u', hu, hs, hf⟩ := u.exists_shift
    obtain ⟨u'', hu', hend⟩ := ih { u' with shift := some v, fifo := cs } rfl
    exact ⟨u'', (hu.tail (.load hs (hf.trans hcs))).trans hu', hend⟩

end Uart

end DmfOs
