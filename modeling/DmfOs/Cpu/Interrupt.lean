import DmfOs.Cpu.Idt
import DmfOs.Cpu.State

/-!
# Interrupts

How the processor takes an interrupt through a gate and returns from it, and what
`timer_int` of `irq_as.S` saves and restores in between.
-/

namespace DmfOs

open Memory

/-- The flags behind an interrupt gate: no interrupts, no single steps, no nested task. -/
def gateFlags (flags : Word) : Word := flags &&& ~~~0x34300

theorem gateFlags_nested (flags : Word) : (gateFlags flags).getLsbD 14 = false := by
  have hmask : (~~~0x34300 : Word).getLsbD 14 = false := by decide
  rw [gateFlags, BitVec.getLsbD_and, hmask, Bool.and_false]

namespace Context

/-- What an interrupt of this context leaves on the stack of its handler. -/
def interruptStack (x : Context) : List Word :=
  [x.eip, x.cs.setWidth 32, x.eflags] ++
    if 0 < rpl x.cs then [x.esp, x.ss.setWidth 32] else []

/-- What `timer_int` saves of it, with the stack pointer that `pusha` saw. -/
def savedWords (x : Context) (sp : Word) : List Word :=
  [x.edi, x.esi, x.ebp, sp, x.ebx, x.edx, x.ecx, x.eax, x.gs.setWidth 32, x.fs.setWidth 32,
    x.es.setWidth 32, x.ds.setWidth 32]

end Context

namespace Cpu

variable {c h : Cpu} {x : Context} {ws : List Word}

/-- The processor takes an interrupt; nothing where it faults. -/
def interrupt (e : IdtEntry) (c : Cpu) : Option Cpu :=
  let code := c.gdt.entry e.selector
  if ¬e.isInterruptGate ∨ ¬code.isSegment ∨ ¬code.type.getLsbD 3 ∨ ¬code.present ∨
      c.cpl < code.dpl then none
  else
    let inner : Bool := code.type.getLsbD 2 = false ∧ code.dpl < c.cpl
    let k := if inner then c.onStackOf code.dpl else c
    if inner && !isStack c.gdt code.dpl k.ctx.ss then none
    else
      let cs := (e.selector &&& ~~~3) ||| .ofNat 16 (if inner then code.dpl else c.cpl)
      let k := k.pushAll ((if inner then [c.ctx.ss.setWidth 32, c.ctx.esp] else []) ++
        [c.ctx.eflags, c.ctx.cs.setWidth 32, c.ctx.eip])
      some { k with ctx := { k.ctx with
        cs := cs, eip := e.offset, eflags := gateFlags c.ctx.eflags } }

/-- `iret` from level 0; nothing where the processor faults or returns to another task. -/
def iret (c : Cpu) : Option Cpu :=
  let eip := c.mem.load32 c.ctx.esp
  let cs : Selector := (c.mem.load32 (c.ctx.esp + 4)).setWidth 16
  let eflags := c.mem.load32 (c.ctx.esp + 8)
  if c.cpl ≠ 0 ∨ c.ctx.eflags.getLsbD 14 ∨ eflags.getLsbD 17 ∨ ¬isCode c.gdt cs then none
  else if 0 < rpl cs then
    let esp := c.mem.load32 (c.ctx.esp + 12)
    let ss : Selector := (c.mem.load32 (c.ctx.esp + 16)).setWidth 16
    let seg := outer c.gdt (rpl cs)
    if isStack c.gdt (rpl cs) ss then
      some { c with ctx := { c.ctx with
        eip := eip, cs := cs, eflags := eflags, esp := esp, ss := ss
        ds := seg c.ctx.ds, es := seg c.ctx.es, fs := seg c.ctx.fs, gs := seg c.ctx.gs } }
    else none
  else some { c with ctx := { c.ctx with
    eip := eip, cs := cs, eflags := eflags, esp := c.ctx.esp + 12 } }

/-- The pushes of `timer_int`. -/
def saveAll (c : Cpu) : Cpu :=
  (c.pushAll [c.ctx.ds.setWidth 32, c.ctx.es.setWidth 32, c.ctx.fs.setWidth 32,
    c.ctx.gs.setWidth 32]).pusha

/-- A segment register taken from the stack. -/
def popSegment (set : Selector → Context → Context) (c : Cpu) : Option Cpu :=
  if isData c.gdt c.cpl c.topSelector then
    some ({ c with ctx := set c.topSelector c.ctx }.dropWords 1)
  else none

/-- The pops of `timer_int`. -/
def restoreAll (c : Cpu) : Option Cpu := do
  let c := c.popa
  let c ← c.popSegment fun sel x => { x with gs := sel }
  let c ← c.popSegment fun sel x => { x with fs := sel }
  let c ← c.popSegment fun sel x => { x with es := sel }
  c.popSegment fun sel x => { x with ds := sel }

/-! ## Taking an interrupt -/

/-- The handler of an interrupt is entered on the stack of the kernel. -/
structure Interrupted (c : Cpu) (handler : Word) (h : Cpu) : Prop where
  stack : h.HasStack c.ctx.interruptStack
  esp : h.ctx.esp = c.kernelTop - .ofNat 32 (4 * c.ctx.interruptStack.length)
  regs : h.ctx = { c.ctx with
    eip := handler
    cs := kernelCodeSeg.setWidth 16
    eflags := gateFlags c.ctx.eflags
    esp := h.ctx.esp
    ss := h.ctx.ss }
  ss : h.ctx.ss = if 0 < c.cpl then kernelDataSeg.setWidth 16 else c.ctx.ss
  tables : h.gdt = c.gdt ∧ h.tr = c.tr ∧ h.cr3 = c.cr3
  writes : WritesIn (span (c.kernelTop - .ofNat 32 (4 * c.ctx.interruptStack.length))
    (4 * c.ctx.interruptStack.length)) c.mem h.mem

/-- The stack on which an interrupt is taken. -/
def onKernelStack (c : Cpu) : Cpu := if 0 < c.cpl then c.onStackOf 0 else c

theorem onKernelStack_eq (c : Cpu) :
    c.onKernelStack = { c with ctx := { c.ctx with
      esp := c.kernelTop
      ss := if 0 < c.cpl then (c.mem.load32 (c.tssBase + 8)).setWidth 16 else c.ctx.ss } } := by
  rw [onKernelStack, kernelTop]
  split_ifs <;> rfl

/-- What an interrupt pushes, in order. -/
theorem interruptStack_reverse (x : Context) :
    (if 0 < rpl x.cs then [x.ss.setWidth 32, x.esp] else []) ++
      [x.eflags, x.cs.setWidth 32, x.eip] = x.interruptStack.reverse := by
  rw [Context.interruptStack]
  split_ifs <;> rfl

/-- The handler, once it is clear on which stack. -/
theorem interrupted_pushAll (handler : Word)
    (hss : 0 < c.cpl → c.mem.load32 (c.tssBase + 8) = kernelDataSeg)
    (hroom : 4 * c.ctx.interruptStack.length ≤ c.kernelTop.toNat) {k : Cpu}
    (hk : k = c.onKernelStack.pushAll c.ctx.interruptStack.reverse) :
    c.Interrupted handler { k with ctx := { k.ctx with
      cs := kernelCodeSeg.setWidth 16, eip := handler, eflags := gateFlags c.ctx.eflags } } := by
  have hon := onKernelStack_eq c
  have hlen : c.ctx.interruptStack.reverse.length = c.ctx.interruptStack.length :=
    List.length_reverse
  have hesp : c.onKernelStack.ctx.esp = c.kernelTop := by rw [hon]
  have hmem : c.onKernelStack.mem = c.mem := by rw [hon]
  have hroom' : 4 * c.ctx.interruptStack.reverse.length ≤ c.onKernelStack.ctx.esp.toNat := by
    rw [hlen, hesp]
    exact hroom
  have hstack := HasStack.pushAll c.ctx.interruptStack.reverse
    (StackAt.nil c.onKernelStack.mem c.onKernelStack.ctx.esp) hroom'
  have hwrites := writesIn_pushAll c.onKernelStack c.ctx.interruptStack.reverse hroom'
  have hctx := ctx_pushAll c.onKernelStack c.ctx.interruptStack.reverse
  have htables := tables_pushAll c.onKernelStack c.ctx.interruptStack.reverse
  rw [List.reverse_reverse, List.append_nil, ← hk] at hstack
  rw [hlen, hesp, hmem, ← hk] at hwrites
  rw [hlen, hesp, ← hk, hon] at hctx
  rw [← hk, hon] at htables
  have hss' : (if 0 < c.cpl then (c.mem.load32 (c.tssBase + 8)).setWidth 16 else c.ctx.ss) =
      if 0 < c.cpl then kernelDataSeg.setWidth 16 else c.ctx.ss := by
    split_ifs with hpos
    · rw [hss hpos]
    · rfl
  rw [hss'] at hctx
  refine ⟨hstack, ?_, ?_, ?_, htables, hwrites⟩ <;> rw [hctx]

/-- What the gate of the timer does. -/
theorem interrupt_eq {e : IdtEntry} {handler : Word} (hflat : c.gdt.Flat)
    (he : e.LeadsTo handler) (hss : 0 < c.cpl → c.mem.load32 (c.tssBase + 8) = kernelDataSeg)
    (hroom : 4 * c.ctx.interruptStack.length ≤ c.kernelTop.toNat) :
    ∃ h, c.interrupt e = some h ∧ c.Interrupted handler h := by
  refine ⟨_, ?_, interrupted_pushAll handler hss hroom rfl⟩
  have hcode : c.gdt.entry (kernelCodeSeg.setWidth 16) = Gdt.os 1 := hflat.code
  have hdpl : (Gdt.os 1).dpl = 0 := by decide
  have hcond : ¬(¬e.isInterruptGate = true ∨ ¬(Gdt.os 1).isSegment = true ∨
      ¬(Gdt.os 1).type.getLsbD 3 = true ∨ ¬(Gdt.os 1).present = true ∨ c.cpl < 0) := by
    have hseg : (Gdt.os 1).isSegment = true ∧ (Gdt.os 1).type.getLsbD 3 = true ∧
        (Gdt.os 1).present = true := by decide
    simp [he.gate, hseg]
  have hconf : (Gdt.os 1).type.getLsbD 2 = false := by decide
  have hinner : decide ((Gdt.os 1).type.getLsbD 2 = false ∧ 0 < c.cpl) = decide (0 < c.cpl) :=
    decide_eq_decide.mpr (and_iff_right hconf)
  rw [interrupt]
  dsimp only
  rw [he.selector, he.offset, hcode, hdpl, if_neg hcond, hinner, ← interruptStack_reverse]
  rcases Nat.eq_zero_or_pos c.cpl with hzero | hpos
  · have hnot : ¬0 < rpl c.ctx.cs := hzero.not_gt
    have hon : c.onKernelStack = c := if_neg hnot
    rw [hon, if_neg hnot, hzero]
    rfl
  · have hon : c.onKernelStack = c.onStackOf 0 := if_pos hpos
    have hstack : isStack c.gdt 0 (c.onStackOf 0).ctx.ss = true := by
      rw [ss_onStackOf, hss hpos]
      exact isStack_kernel hflat
    have hlevel : 0 < rpl c.ctx.cs := hpos
    rw [hon, if_pos hlevel, decide_eq_true hpos]
    simp only [if_true]
    rw [hstack]
    rfl

/-! ## Returning from it -/

/-- A return to the context whose words lie on the stack, once the other registers are back. -/
theorem HasStack.iret_eq (hs : c.HasStack x.interruptStack) (hcpl : c.cpl = 0)
    (hnested : c.ctx.eflags.getLsbD 14 = false) (hvm : x.eflags.getLsbD 17 = false)
    (hvalid : x.valid c.gdt = true)
    (hregs : c.ctx = { x with
      eip := c.ctx.eip, cs := c.ctx.cs, eflags := c.ctx.eflags, esp := c.ctx.esp, ss := c.ctx.ss })
    (hsame : rpl x.cs = 0 → x.esp = c.ctx.esp + 12 ∧ x.ss = c.ctx.ss) :
    c.iret = some { c with ctx := x } := by
  have hcs16 : (x.cs.setWidth 32).setWidth 16 = x.cs := by simp
  have hss16 : (x.ss.setWidth 32).setWidth 16 = x.ss := by simp
  have heip : c.mem.load32 c.ctx.esp = x.eip := StackAt.head hs
  have hcs : c.mem.load32 (c.ctx.esp + 4) = x.cs.setWidth 32 :=
    hs.load (k := 1) rfl rfl
  have heflags : c.mem.load32 (c.ctx.esp + 8) = x.eflags := hs.load (k := 2) rfl rfl
  have hcond : ¬(c.cpl ≠ 0 ∨ c.ctx.eflags.getLsbD 14 = true ∨ x.eflags.getLsbD 17 = true ∨
      ¬isCode c.gdt x.cs = true) := by
    rw [hcpl, hnested, hvm, Context.valid.code hvalid]
    decide
  rw [iret]
  dsimp only
  rw [heip, hcs, heflags, hcs16, if_neg hcond]
  rcases Nat.eq_zero_or_pos (rpl x.cs) with hzero | hpos
  · obtain ⟨hesp, hss⟩ := hsame hzero
    rw [if_neg hzero.not_gt, ← hesp]
    rw [hregs, ← hss]
  · -- the stack of the context lies behind
    have hlist : x.interruptStack =
        [x.eip, x.cs.setWidth 32, x.eflags, x.esp, x.ss.setWidth 32] := by
      rw [Context.interruptStack, if_pos hpos]
      rfl
    rw [hlist] at hs
    have hesp : c.mem.load32 (c.ctx.esp + 12) = x.esp := hs.load (k := 3) rfl rfl
    have hss : c.mem.load32 (c.ctx.esp + 16) = x.ss.setWidth 32 := hs.load (k := 4) rfl rfl
    have hseg (sel : Selector) (hsel : sel ∈ [x.ds, x.es, x.fs, x.gs]) :
        outer c.gdt (rpl x.cs) sel = sel := outer_eq_self (Context.valid.data hvalid sel hsel)
    rw [if_pos hpos, hesp, hss, hss16, if_pos (Context.valid.stack hvalid), hregs]
    dsimp only
    rw [hseg x.ds (by simp), hseg x.es (by simp), hseg x.fs (by simp), hseg x.gs (by simp)]

/-! ## What the handler saves -/

theorem saveAll_eq (c : Cpu) :
    c.saveAll = c.pushAll (c.ctx.savedWords (c.ctx.esp - 16)).reverse := by
  have hesp : c.ctx.esp - 4 - 4 - 4 - 4 = c.ctx.esp - 16 := by bv_omega
  have hsegs : (c.ctx.savedWords (c.ctx.esp - 16)).reverse = [c.ctx.ds.setWidth 32,
      c.ctx.es.setWidth 32, c.ctx.fs.setWidth 32, c.ctx.gs.setWidth 32] ++ [c.ctx.eax, c.ctx.ecx,
      c.ctx.edx, c.ctx.ebx, c.ctx.esp - 16, c.ctx.ebp, c.ctx.esi, c.ctx.edi] := rfl
  rw [hsegs, pushAll_append, saveAll, pusha, ← hesp]
  rfl

/-- The pushes of `timer_int`. -/
theorem HasStack.saveAll (hs : c.HasStack ws) (hroom : 48 ≤ c.ctx.esp.toNat) :
    c.saveAll.HasStack (c.ctx.savedWords (c.ctx.esp - 16) ++ ws) ∧
      c.saveAll.ctx = { c.ctx with esp := c.ctx.esp - 48 } ∧
      (c.saveAll.gdt = c.gdt ∧ c.saveAll.tr = c.tr ∧ c.saveAll.cr3 = c.cr3) ∧
      WritesIn (span (c.ctx.esp - 48) 48) c.mem c.saveAll.mem := by
  have hlen : (c.ctx.savedWords (c.ctx.esp - 16)).reverse.length = 12 := rfl
  have hstack := hs.pushAll (c.ctx.savedWords (c.ctx.esp - 16)).reverse (by omega)
  have hctx := ctx_pushAll c (c.ctx.savedWords (c.ctx.esp - 16)).reverse
  have hwrites := writesIn_pushAll c (c.ctx.savedWords (c.ctx.esp - 16)).reverse (by omega)
  have htables := tables_pushAll c (c.ctx.savedWords (c.ctx.esp - 16)).reverse
  rw [List.reverse_reverse] at hstack
  rw [hlen] at hctx hwrites
  rw [saveAll_eq]
  exact ⟨hstack, hctx, htables, hwrites⟩

/-- A segment register taken from the stack. -/
theorem HasStack.popSegment_eq {sel : Selector} (set : Selector → Context → Context)
    (hs : c.HasStack (sel.setWidth 32 :: ws)) (hdata : isData c.gdt c.cpl sel = true)
    (hesp : (set sel c.ctx).esp = c.ctx.esp) :
    ∃ c', c.popSegment set = some c' ∧ c'.HasStack ws ∧
      c' = { c with ctx := { set sel c.ctx with esp := c.ctx.esp + 4 } } := by
  have htop : c.topSelector = sel := by
    have hword : c.mem.load32 c.ctx.esp = sel.setWidth 32 := StackAt.head hs
    rw [topSelector, hword]
    simp
  refine ⟨{ c with ctx := { set sel c.ctx with esp := c.ctx.esp + 4 } }, ?_, StackAt.tail hs, rfl⟩
  rw [popSegment, htop, if_pos hdata, Cpu.dropWords, hesp]
  rfl

/-- The registers that `timer_int` saved, taken from the stack again. -/
theorem HasStack.restoreAll_eq {sp : Word} (hs : c.HasStack (x.savedWords sp ++ ws))
    (hdata : ∀ sel ∈ [x.ds, x.es, x.fs, x.gs], isData c.gdt c.cpl sel = true) :
    ∃ c', c.restoreAll = some c' ∧ c'.HasStack ws ∧
      c' = { c with ctx := { x with
        eip := c.ctx.eip, eflags := c.ctx.eflags, cs := c.ctx.cs, ss := c.ctx.ss
        esp := c.ctx.esp + 48 } } := by
  have hgprs : c.HasStack (x.edi :: x.esi :: x.ebp :: sp :: x.ebx :: x.edx :: x.ecx :: x.eax ::
      ([x.gs.setWidth 32, x.fs.setWidth 32, x.es.setWidth 32, x.ds.setWidth 32] ++ ws)) := hs
  have hpopa := hgprs.popa
  have hsegs : c.popa.HasStack ([x.gs.setWidth 32, x.fs.setWidth 32, x.es.setWidth 32,
      x.ds.setWidth 32] ++ ws) := by
    rw [hpopa]
    exact hs.dropWords [x.edi, x.esi, x.ebp, sp, x.ebx, x.edx, x.ecx, x.eax] (n := 8) rfl
  have hgdt : c.popa.gdt = c.gdt := rfl
  have hcpl : c.popa.cpl = c.cpl := rfl
  obtain ⟨c₁, heq₁, hs₁, rfl⟩ := hsegs.popSegment_eq (fun sel x => { x with gs := sel })
    (hdata x.gs (by simp)) rfl
  obtain ⟨c₂, heq₂, hs₂, rfl⟩ := hs₁.popSegment_eq (fun sel x => { x with fs := sel })
    (hdata x.fs (by simp)) rfl
  obtain ⟨c₃, heq₃, hs₃, rfl⟩ := hs₂.popSegment_eq (fun sel x => { x with es := sel })
    (hdata x.es (by simp)) rfl
  obtain ⟨c₄, heq₄, hs₄, rfl⟩ := hs₃.popSegment_eq (fun sel x => { x with ds := sel })
    (hdata x.ds (by simp)) rfl
  refine ⟨_, ?_, hs₄, ?_⟩
  · rw [restoreAll]
    dsimp only [Option.bind_eq_bind]
    rw [heq₁, Option.bind_some, heq₂, Option.bind_some, heq₃, Option.bind_some, heq₄]
  · have hesp : c.ctx.esp + .ofNat 32 (4 * 8) + 4 + 4 + 4 + 4 = c.ctx.esp + 48 := by bv_omega
    rw [← hesp, hpopa]

end Cpu

end DmfOs
