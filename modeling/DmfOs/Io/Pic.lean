import DmfOs.Cpu.Idt
import DmfOs.Core.Run

/-!
# The interrupt controllers

`irq_init` of `irq.c` programs the two controllers, which take their initialisation one
byte at a time, and opens the line of the timer alone. It means to set the timer as well,
but passes the port of `outb` for the byte and the byte for the port.
-/

namespace DmfOs

/-- What a controller takes the next byte on its second port for. -/
inductive PicPhase where
  | ready
  | icw2
  | icw3
  | icw4
  deriving DecidableEq, Repr

/-- A controller. A request stays until the processor takes it. -/
structure Pic where
  phase : PicPhase
  /-- Whether ICW1 said that there is no other controller. -/
  single : Bool
  /-- Whether ICW1 said that an ICW4 follows. -/
  needIcw4 : Bool
  /-- The vector of the first line. -/
  offset : Byte
  cascade : Byte
  mode : Byte
  imr : Byte
  irr : Byte
  isr : Byte
  deriving DecidableEq, Repr

namespace Pic

/-- A byte on the first port: ICW1, with which the controller starts afresh, or an end of
interrupt. Rotation of the priorities is left out. -/
def command (v : Byte) (p : Pic) : Pic :=
  if v.getLsbD 4 then
    { p with
      phase := .icw2
      single := v.getLsbD 1
      needIcw4 := v.getLsbD 0
      mode := if v.getLsbD 0 then p.mode else 0
      imr := 0
      irr := 0
      isr := 0 }
  else if v.getLsbD 3 then p
  else if v.extractLsb' 5 3 = 0b001 then { p with isr := p.isr &&& (p.isr - 1) }
  else if v.extractLsb' 5 3 = 0b011 then { p with isr := p.isr &&& ~~~((1 : Byte) <<< (v &&& 7)) }
  else p

/-- A byte on the second port. -/
def data (v : Byte) (p : Pic) : Pic :=
  let last := if p.needIcw4 then .icw4 else .ready
  match p.phase with
  | .ready => { p with imr := v }
  | .icw2 => { p with offset := v &&& 0xf8, phase := if p.single then last else .icw3 }
  | .icw3 => { p with cascade := v, phase := last }
  | .icw4 => { p with mode := v, phase := .ready }

/-- A line that the controller would report: requested, open, and with no line under way of
its priority or a higher one. -/
def isReady (p : Pic) (n : Nat) : Bool :=
  p.phase = .ready && p.irr.getLsbD n && !p.imr.getLsbD n &&
    (List.range (n + 1)).all fun k => !p.isr.getLsbD k

/-- The line that it reports. -/
def next (p : Pic) : Option Nat := (List.range 8).find? p.isReady

/-- The bit of a line. -/
def line (n : Nat) : Byte := (1 : Byte) <<< n

/-- A request. -/
def raise (n : Nat) (p : Pic) : Pic := { p with irr := p.irr ||| line n }

/-- The processor takes the interrupt of a line. -/
def take (n : Nat) (p : Pic) : Pic :=
  { p with
    irr := p.irr &&& ~~~line n
    isr := if p.mode.getLsbD 1 then p.isr else p.isr ||| line n }

/-- The vector of a line. -/
def vector (p : Pic) (n : Nat) : Byte := p.offset + .ofNat 8 n

end Pic

/-- The devices that `irq_init` writes to, and the interrupt table. -/
structure Irq where
  pic0 : Pic
  pic1 : Pic
  /-- The writes that reached the timer, by port. -/
  pit : List (BitVec 16 × Byte)
  idt : Idt

namespace Irq

/-- `outb`. -/
def outb (port : BitVec 16) (v : Byte) (s : Irq) : Irq :=
  if port = 0x20 then { s with pic0 := s.pic0.command v }
  else if port = 0x21 then { s with pic0 := s.pic0.data v }
  else if port = 0xa0 then { s with pic1 := s.pic1.command v }
  else if port = 0xa1 then { s with pic1 := s.pic1.data v }
  else if 0x40 ≤ port ∧ port ≤ 0x43 then { s with pit := s.pit ++ [(port, v)] }
  else s

/-- `irq_init`. -/
def irqInit (timerInt : Word) (s : Irq) : Irq :=
  let s := s.outb 0x20 (0x10 ||| 0x01)
  let s := s.outb 0x21 0x20
  let s := s.outb 0x21 (1 <<< 2)
  let s := s.outb 0x21 0x01
  let s := s.outb 0xa0 (0x10 ||| 0x01)
  let s := s.outb 0xa1 (0x20 + 8)
  let s := s.outb 0xa1 2
  let s := s.outb 0xa1 0x01
  let s := s.outb 0x21 0xfe
  let s := s.outb 0xa1 0xff
  let tmo : Word := 1193180 / 1
  let s := s.outb 0x36 0x43
  let s := s.outb ((tmo.setWidth 8).setWidth 16) 0x40
  let s := s.outb ((tmo.sshiftRight 8).setWidth 16) 0x40
  { s with idt := s.idt.setIdtEntry 0x20 timerInt (kernelCodeSeg.setWidth 16) 0 }

/-- The first controller with the request of the second one on its third line. -/
def cascaded (s : Irq) : Pic :=
  { s.pic0 with
    irr := if s.pic1.next.isSome then s.pic0.irr ||| Pic.line 2 else s.pic0.irr &&& ~~~Pic.line 2 }

/-- The vector that the processor gets. -/
def accept (s : Irq) : Option (Byte × Irq) :=
  let pic0 := s.cascaded
  match pic0.next with
  | none => none
  | some n =>
    if pic0.cascade.getLsbD n then
      match s.pic1.next with
      | none => none
      | some k => some (s.pic1.vector k, { s with pic0 := pic0.take n, pic1 := s.pic1.take k })
    else some (pic0.vector n, { s with pic0 := pic0.take n })

/-- A device requests an interrupt on one of the sixteen lines. -/
def raise (n : Nat) (s : Irq) : Irq :=
  if n < 8 then { s with pic0 := s.pic0.raise n } else { s with pic1 := s.pic1.raise (n - 8) }

end Irq

/-- What happens at the controllers after `irq_init`. -/
inductive IrqEvent where
  /-- A device requests an interrupt. -/
  | raise (n : Nat)
  /-- The processor takes an interrupt. -/
  | accept (v : Byte)
  /-- `timer_int` writes its end of interrupt. -/
  | eoi
  deriving DecidableEq, Repr

namespace Irq

/-- One event. -/
inductive Step : Irq → IrqEvent → Irq → Prop
  | raise (s : Irq) (n : Nat) : Step s (.raise n) (s.raise n)
  | accept {s s' : Irq} {v : Byte} : s.accept = some (v, s') → Step s (.accept v) s'
  | eoi (s : Irq) : Step s .eoi (s.outb 0x20 0x20)

end Irq

namespace Pic

variable {p : Pic} {n k : Nat}

/-! ## What a controller reports -/

theorem isReady_of_masked (h : p.imr.getLsbD n = true) : p.isReady n = false := by
  rw [isReady, h, Bool.not_true, Bool.and_false, Bool.false_and]

/-- A controller with all lines closed reports nothing. -/
theorem next_of_imr_eq_allOnes (h : p.imr = 0xff) : p.next = none := by
  refine List.find?_eq_none.mpr fun n hn => ?_
  have hbit : p.imr.getLsbD n = true := by
    have hones : ∀ k ∈ List.range 8, (0xff : Byte).getLsbD k = true := by decide
    rw [h]
    exact hones n hn
  rw [isReady_of_masked hbit]
  exact Bool.false_ne_true

/-- With only the first line open, only that one is reported. -/
theorem next_of_imr_eq (h : p.imr = 0xfe) :
    p.next = if p.isReady 0 then some 0 else none := by
  have hrange : List.range 8 = 0 :: [1, 2, 3, 4, 5, 6, 7] := rfl
  have hrest : [1, 2, 3, 4, 5, 6, 7].find? p.isReady = none := by
    refine List.find?_eq_none.mpr fun n hn => ?_
    have hones : ∀ k ∈ [1, 2, 3, 4, 5, 6, 7], (0xfe : Byte).getLsbD k = true := by decide
    rw [isReady_of_masked (by rw [h]; exact hones n hn)]
    exact Bool.false_ne_true
  rw [next, hrange, List.find?_cons, hrest]
  cases p.isReady 0 <;> rfl

/-- The first line has the highest priority. -/
theorem isReady_zero (hphase : p.phase = .ready) (himr : p.imr = 0xfe) :
    p.isReady 0 = (p.irr.getLsbD 0 && !p.isr.getLsbD 0) := by
  rw [isReady, hphase, himr]
  simp [List.range_succ]

theorem getLsbD_raise (n : Nat) (p : Pic) :
    (p.raise n).irr.getLsbD 0 = (p.irr.getLsbD 0 || n == 0) := by
  have hbit : (line n).getLsbD 0 = (n == 0) := by
    cases n with
    | zero => rfl
    | succ n => simp [line]
  rw [raise, BitVec.getLsbD_or, hbit]

end Pic

namespace IrqEvent

/-- Whether the timer has a request that the processor has not taken. -/
def requested (b : Bool) : IrqEvent → Bool
  | raise n => b || n == 0
  | accept _ => false
  | eoi => b

/-- Whether an interrupt was taken whose end was not written. -/
def underWay (b : Bool) : IrqEvent → Bool
  | raise _ => b
  | accept _ => true
  | eoi => false

end IrqEvent

namespace Irq

variable {s s' : Irq} {r u : Bool} {timerInt : Word} {is : List IrqEvent}

/-- The controllers as `irq_init` programs them, with a request of the timer and an interrupt
under way or not. -/
structure Programmed (r u : Bool) (s : Irq) : Prop where
  phase : s.pic0.phase = .ready
  offset : s.pic0.offset = 0x20
  cascade : s.pic0.cascade = 1 <<< 2
  mode : s.pic0.mode = 1
  imr : s.pic0.imr = 0xfe
  irr : s.pic0.irr.getLsbD 0 = r
  isr : s.pic0.isr = if u then 1 else 0
  /-- The lines of the second controller stay closed. -/
  closed : s.pic1.imr = 0xff

/-- Whatever state the controllers are in, half way through another initialisation even. -/
theorem programmed_irqInit (timerInt : Word) (s : Irq) :
    (s.irqInit timerInt).Programmed false false := by
  have hirr : (s.irqInit timerInt).pic0.irr = 0 := rfl
  exact ⟨rfl, rfl, rfl, rfl, rfl, by rw [hirr]; rfl, rfl, rfl⟩

/-- No byte reaches the timer. -/
theorem pit_irqInit (timerInt : Word) (s : Irq) : (s.irqInit timerInt).pit = s.pit := rfl

theorem idt_irqInit (timerInt : Word) (s : Irq) : (s.irqInit timerInt).idt =
    s.idt.setIdtEntry 0x20 timerInt (kernelCodeSeg.setWidth 16) 0 := rfl

/-! ## The events after it -/

/-- The request line of the second controller stays low. -/
theorem Programmed.cascaded_eq (h : s.Programmed r u) :
    s.cascaded = { s.pic0 with irr := s.pic0.irr &&& ~~~Pic.line 2 } := by
  rw [cascaded, Pic.next_of_imr_eq_allOnes h.closed]
  rfl

/-- Only the timer is reported, when it has a request and no interrupt is under way. -/
theorem Programmed.next_cascaded (h : s.Programmed r u) :
    s.cascaded.next = if r && !u then some 0 else none := by
  have hphase : s.cascaded.phase = .ready := h.phase
  have himr : s.cascaded.imr = 0xfe := h.imr
  have hisr : s.cascaded.isr = if u then 1 else 0 := h.isr
  have hirr : s.cascaded.irr.getLsbD 0 = r := by
    have hline : (~~~Pic.line 2).getLsbD 0 = true := rfl
    rw [h.cascaded_eq, BitVec.getLsbD_and, hline, Bool.and_true, h.irr]
  have hunder : (if u then (1 : Byte) else 0).getLsbD 0 = u := by cases u <;> rfl
  rw [Pic.next_of_imr_eq himr, Pic.isReady_zero hphase himr, hirr, hisr, hunder]

/-- What the processor gets is the vector of the timer. -/
theorem Programmed.accept_eq (h : s.Programmed r u) :
    s.accept = if r && !u then some (0x20, { s with pic0 := s.cascaded.take 0 }) else none := by
  have hcascade : s.cascaded.cascade.getLsbD 0 = false := by
    have heq : s.cascaded.cascade = 1 <<< 2 := h.cascade
    rw [heq]
    decide
  have hvector : s.cascaded.vector 0 = 0x20 := by
    have heq : s.cascaded.offset = 0x20 := h.offset
    rw [Pic.vector, heq]
    rfl
  rw [accept, h.next_cascaded]
  cases r && !u
  · rfl
  · simp only [if_true]
    rw [hcascade, hvector]
    rfl

/-- Each event changes the request and the interrupt under way as its name says. -/
theorem Programmed.step (h : s.Programmed r u) {i : IrqEvent} (hs : Step s i s') :
    s'.Programmed (IrqEvent.requested r i) (IrqEvent.underWay u i) := by
  cases hs with
  | raise n =>
    rw [raise]
    split_ifs with hn
    · refine ⟨h.phase, h.offset, h.cascade, h.mode, h.imr, ?_, h.isr, h.closed⟩
      exact (Pic.getLsbD_raise n s.pic0).trans (by rw [h.irr]; rfl)
    · have hzero : (n == 0) = false := beq_false_of_ne (by omega)
      refine ⟨h.phase, h.offset, h.cascade, h.mode, h.imr, ?_, h.isr, h.closed⟩
      rw [h.irr, IrqEvent.requested, hzero, Bool.or_false]
  | accept ha =>
    rw [h.accept_eq] at ha
    split_ifs at ha with hready
    obtain ⟨-, rfl⟩ := Prod.mk.inj (Option.some.inj ha)
    have hu : u = false := by simpa using (Bool.and_eq_true_iff.mp hready).2
    have hmode : s.cascaded.mode.getLsbD 1 = false := by
      have heq : s.cascaded.mode = 1 := h.mode
      rw [heq]
      rfl
    have hisr : s.cascaded.isr = 0 := by
      have heq : s.cascaded.isr = if u then 1 else 0 := h.isr
      rw [heq, hu]
      rfl
    refine ⟨h.phase, h.offset, h.cascade, h.mode, h.imr, ?_, ?_, h.closed⟩
    · have hline : (~~~Pic.line 0).getLsbD 0 = false := rfl
      rw [Pic.take, BitVec.getLsbD_and, hline, Bool.and_false]
      rfl
    · rw [Pic.take, hmode, hisr]
      rfl
  | eoi =>
    have hpic : (s.outb 0x20 0x20).pic0 = { s.pic0 with isr := s.pic0.isr &&& (s.pic0.isr - 1) } :=
      rfl
    refine ⟨h.phase, h.offset, h.cascade, h.mode, h.imr, h.irr, ?_, h.closed⟩
    rw [hpic, h.isr]
    cases u <;> rfl

theorem Step.pit_eq {i : IrqEvent} (hs : Step s i s') (h : s.Programmed r u) :
    s'.pit = s.pit ∧ s'.idt = s.idt := by
  cases hs with
  | raise n =>
    rw [Irq.raise]
    split_ifs <;> exact ⟨rfl, rfl⟩
  | accept ha =>
    rw [h.accept_eq] at ha
    split_ifs at ha
    obtain ⟨-, rfl⟩ := Prod.mk.inj (Option.some.inj ha)
    exact ⟨rfl, rfl⟩
  | eoi => exact ⟨rfl, rfl⟩

/-- The state after a run follows from its events, and so does each interrupt on the way. -/
theorem Programmed.reach (h : s.Programmed r u) (hr : Reach Step s is s') :
    s'.Programmed (is.foldl IrqEvent.requested r) (is.foldl IrqEvent.underWay u) ∧
      s'.pit = s.pit ∧ s'.idt = s.idt ∧
      ∀ is' v js, is = is' ++ .accept v :: js →
        v = 0x20 ∧ is'.foldl IrqEvent.requested r = true ∧
          is'.foldl IrqEvent.underWay u = false := by
  induction hr with
  | nil => exact ⟨h, rfl, rfl, fun is' v js hnil => by simp at hnil⟩
  | @snoc is t s' i hr hs ih =>
    obtain ⟨hprog, hpit, hidt, haccepts⟩ := ih
    obtain ⟨hpit', hidt'⟩ := hs.pit_eq hprog
    refine ⟨?_, hpit'.trans hpit, hidt'.trans hidt, fun is' v js heq => ?_⟩
    · rw [List.foldl_append, List.foldl_append]
      exact hprog.step hs
    · rcases List.eq_nil_or_concat js with rfl | ⟨js', j, rfl⟩
      · -- the interrupt is the last event
        obtain ⟨rfl, hlast⟩ := List.append_inj' heq rfl
        obtain rfl : i = .accept v := by simpa using hlast
        cases hs with
        | accept ha =>
          rw [hprog.accept_eq] at ha
          split_ifs at ha with hready
          obtain ⟨hv, -⟩ := Prod.mk.inj (Option.some.inj ha)
          obtain ⟨hreq, hidle⟩ := Bool.and_eq_true_iff.mp hready
          exact ⟨hv.symm, hreq, by simpa using hidle⟩
      · have hsplit : is ++ [i] = (is' ++ .accept v :: js') ++ [j] := by
          rw [heq, List.concat_eq_append, List.append_assoc, List.cons_append]
        exact haccepts is' v js' (List.append_inj' hsplit rfl).1

/-- After `irq_init` the processor gets no vector but that of the timer, whose gate leads to
`timer_int`, takes it once for each end of interrupt, and loses no request; the timer itself
was not set. -/
theorem irqInit_delivers {timerInt : Word} (hr : Reach Step (s.irqInit timerInt) is s') :
    (∀ is' v js, is = is' ++ .accept v :: js →
      v = 0x20 ∧ is'.foldl IrqEvent.requested false = true ∧
        is'.foldl IrqEvent.underWay false = false) ∧
    ((∃ v t, s'.accept = some (v, t)) ↔
      is.foldl IrqEvent.requested false = true ∧ is.foldl IrqEvent.underWay false = false) ∧
    (s'.idt 0x20).offset = timerInt ∧
    (∀ vec ≠ 0x20, s'.idt vec = s.idt vec) ∧ s'.pit = s.pit := by
  obtain ⟨hprog, hpit, hidt, haccepts⟩ := (programmed_irqInit timerInt s).reach hr
  rw [idt_irqInit] at hidt
  refine ⟨haccepts, ?_, ?_, fun vec hvec => ?_, hpit⟩
  · rw [hprog.accept_eq]
    split_ifs with hready
    · exact ⟨fun _ => by simpa using hready, fun _ => ⟨_, _, rfl⟩⟩
    · refine ⟨fun ⟨v, t, hnone⟩ => ?_, fun hready' => absurd ?_ hready⟩
      · cases hnone
      · simpa using hready'
  · rw [hidt]
    exact Idt.offset_setIdtEntry
  · rw [hidt, Idt.setIdtEntry, Function.update_of_ne hvec]

/-- Controllers left half way through an initialisation. -/
def halfWay : Irq :=
  ⟨⟨.icw3, true, false, 0x08, 0, 2, 0, 0xff, 0xff⟩, ⟨.icw4, true, true, 0x70, 2, 1, 0, 0xff, 1⟩,
    [], .os⟩

/-- The first tick after `irq_init`. -/
def firstTick : Irq :=
  let s := (halfWay.irqInit 0x100200).raise 0
  { s with pic0 := s.cascaded.take 0 }

theorem reach_firstTick :
    Reach Step (halfWay.irqInit 0x100200) ([] ++ [.raise 0] ++ [.accept 0x20]) firstTick := by
  have hraise := Step.raise (halfWay.irqInit 0x100200) 0
  have hprog := (programmed_irqInit 0x100200 halfWay).step hraise
  exact (Reach.snoc .nil hraise).snoc (.accept (hprog.accept_eq.trans (if_pos rfl)))

theorem irqInit_delivers_firstTick :
    (∀ is' v js, [.raise 0] ++ [.accept 0x20] = is' ++ .accept v :: js →
      v = 0x20 ∧ is'.foldl IrqEvent.requested false = true ∧
        is'.foldl IrqEvent.underWay false = false) ∧
    ((∃ v t, firstTick.accept = some (v, t)) ↔
      [.raise 0, .accept 0x20].foldl IrqEvent.requested false = true ∧
        [.raise 0, .accept 0x20].foldl IrqEvent.underWay false = false) ∧
    (firstTick.idt 0x20).offset = 0x100200 ∧
    (∀ vec ≠ 0x20, firstTick.idt vec = halfWay.idt vec) ∧ firstTick.pit = halfWay.pit :=
  irqInit_delivers reach_firstTick

end Irq

end DmfOs
