import DmfOs.Core.Stack
import DmfOs.Cpu.Descriptor

/-!
# The processor

The registers that a task state holds, the stack instructions, and the far calls and
returns through a call gate. A call from privilege level 3 goes on the stack that the task
state names, with the words that the gate says copied to it; a return there drops them from
both stacks.
-/

namespace DmfOs

open Memory

/-- What a task state saves. While an instruction runs, `eip` is that of the next one. -/
structure Context where
  eip : Word
  eflags : Word
  eax : Word
  ecx : Word
  edx : Word
  ebx : Word
  esp : Word
  ebp : Word
  esi : Word
  edi : Word
  es : Selector
  cs : Selector
  ss : Selector
  ds : Selector
  fs : Selector
  gs : Selector
  deriving DecidableEq, Repr

/-! ## Segments -/

/-- The selector of a code segment for its level. -/
def isCode (gdt : Gdt) (sel : Selector) : Bool :=
  let e := gdt.entry sel
  e.isSegment && e.type.getLsbD 3 && e.present &&
    if e.type.getLsbD 2 then e.dpl ≤ rpl sel else e.dpl = rpl sel

/-- The selector of a stack for a level: a segment of this level that can be written. -/
def isStack (gdt : Gdt) (cpl : Nat) (sel : Selector) : Bool :=
  let e := gdt.entry sel
  e.isSegment && !e.type.getLsbD 3 && e.type.getLsbD 1 && e.present &&
    (4 ≤ sel.toNat ∧ rpl sel = cpl ∧ e.dpl = cpl)

/-- The selector of a segment that can be read at a level, or of none. -/
def isData (gdt : Gdt) (cpl : Nat) (sel : Selector) : Bool :=
  let e := gdt.entry sel
  sel.toNat < 4 || (e.isSegment && (!e.type.getLsbD 3 || e.type.getLsbD 1) && e.present &&
    ((e.type.getLsbD 3 && e.type.getLsbD 2) || max cpl (rpl sel) ≤ e.dpl))

/-- A segment register after a return to an outer level: a selector of a segment that is
not for that level is emptied. -/
def outer (gdt : Gdt) (cpl : Nat) (sel : Selector) : Selector :=
  let e := gdt.entry sel
  if 4 ≤ sel.toNat ∧ ¬(e.type.getLsbD 3 ∧ e.type.getLsbD 2) ∧ e.dpl < cpl then 0 else sel

/-- The segments that a level may use stay. -/
theorem outer_eq_self {gdt : Gdt} {cpl : Nat} {sel : Selector} (h : isData gdt cpl sel = true) :
    outer gdt cpl sel = sel := by
  rw [isData] at h
  refine if_neg fun ⟨hsel, hconf, hdpl⟩ => ?_
  have hnull : ¬sel.toNat < 4 := by omega
  simp only [hnull, decide_false, Bool.false_or, Bool.and_eq_true, Bool.or_eq_true,
    decide_eq_true_eq] at h
  rcases h.2 with h | h
  · exact hconf h
  · omega

/-- A segment that an outer level may use, an inner level may use. -/
theorem isData_mono {gdt : Gdt} {cpl cpl' : Nat} {sel : Selector} (h : isData gdt cpl sel = true)
    (hle : cpl' ≤ cpl) : isData gdt cpl' sel = true := by
  rw [isData] at h ⊢
  simp only [Bool.or_eq_true, Bool.and_eq_true, decide_eq_true_eq] at h ⊢
  refine h.imp_right fun ⟨hseg, hlevel⟩ => ⟨hseg, hlevel.imp_right fun hmax => ?_⟩
  omega

/-- The lowest part of a register, after it alone was replaced. -/
theorem setWidth_replace {n : Nat} (hn : n ≤ 32) {mask : Word}
    (hmask : ∀ i < n, mask.getLsbD i = false) (v : Word) (w : BitVec n) :
    ((v &&& mask) ||| w.setWidth 32).setWidth n = w := by
  refine BitVec.eq_of_getLsbD_eq fun i hi => ?_
  have hlow : i < 32 := by omega
  rw [BitVec.getLsbD_setWidth, BitVec.getLsbD_or, BitVec.getLsbD_and, hmask i hi,
    BitVec.getLsbD_setWidth, decide_eq_true hi, decide_eq_true hlow]
  simp

/-- The lower half. -/
theorem setWidth_replace_half (v : Word) (sel : Selector) :
    ((v &&& 0xffff0000) ||| sel.setWidth 32).setWidth 16 = sel :=
  setWidth_replace (by decide) (by decide) v sel

/-- The lower half replaced by the data segment of the kernel. -/
theorem setWidth_kernelDataSeg (eax : Word) :
    ((eax &&& 0xffff0000) ||| kernelDataSeg).setWidth 16 =
      (kernelDataSeg.setWidth 16 : Selector) :=
  setWidth_replace_half eax (kernelDataSeg.setWidth 16)

/-- The lowest byte. -/
theorem setWidth_replace_byte (v : Word) (b : Byte) :
    ((v &&& 0xffffff00) ||| b.setWidth 32).setWidth 8 = b :=
  setWidth_replace (by decide) (by decide) v b

/-- The stack of the kernel. -/
theorem isStack_kernel {gdt : Gdt} (h : gdt.Flat) :
    isStack gdt 0 (kernelDataSeg.setWidth 16) = true := by
  have hdata : gdt.entry (kernelDataSeg.setWidth 16) = Gdt.os 2 := h.data
  rw [isStack, hdata]
  decide

namespace Context

/-- All segment registers hold what they may hold at the level of the code segment. -/
def valid (gdt : Gdt) (x : Context) : Bool :=
  isCode gdt x.cs && isStack gdt (rpl x.cs) x.ss &&
    [x.ds, x.es, x.fs, x.gs].all (isData gdt (rpl x.cs))

variable {gdt : Gdt} {x : Context}

theorem valid.code (h : x.valid gdt = true) : isCode gdt x.cs = true :=
  (Bool.and_eq_true_iff.mp (Bool.and_eq_true_iff.mp h).1).1

theorem valid.stack (h : x.valid gdt = true) : isStack gdt (rpl x.cs) x.ss = true :=
  (Bool.and_eq_true_iff.mp (Bool.and_eq_true_iff.mp h).1).2

theorem valid.data (h : x.valid gdt = true) :
    ∀ sel ∈ [x.ds, x.es, x.fs, x.gs], isData gdt (rpl x.cs) sel = true :=
  List.all_eq_true.mp (Bool.and_eq_true_iff.mp h).2

end Context

/-- The processor and the memory. -/
structure Cpu where
  ctx : Context
  mem : Memory
  gdt : Gdt
  /-- The selector in the task register. -/
  tr : Selector
  cr3 : Word

namespace Cpu

variable {c : Cpu} {vs ws : List Word} {v : Word}

/-- The current privilege level. -/
def cpl (c : Cpu) : Nat := rpl c.ctx.cs

/-- The base of the current task state. -/
def tssBase (c : Cpu) : Word := (c.gdt.entry c.tr).base

/-! ## The stack -/

/-- `push`. -/
def push (c : Cpu) (v : Word) : Cpu :=
  { c with
    ctx := { c.ctx with esp := c.ctx.esp - 4 }
    mem := c.mem.store32 (c.ctx.esp - 4) v }

/-- Several pushes. -/
def pushAll (c : Cpu) : List Word → Cpu
  | [] => c
  | v :: vs => (c.push v).pushAll vs

/-- `pusha`. -/
def pusha (c : Cpu) : Cpu :=
  c.pushAll [c.ctx.eax, c.ctx.ecx, c.ctx.edx, c.ctx.ebx, c.ctx.esp, c.ctx.ebp, c.ctx.esi,
    c.ctx.edi]

/-- `popa`. The stack pointer among the words is passed over. -/
def popa (c : Cpu) : Cpu :=
  let word (k : Nat) := c.mem.load32 (c.ctx.esp + .ofNat 32 (4 * k))
  { c with
    ctx := { c.ctx with
      edi := word 0
      esi := word 1
      ebp := word 2
      ebx := word 4
      edx := word 5
      ecx := word 6
      eax := word 7
      esp := c.ctx.esp + .ofNat 32 (4 * 8) } }

/-- The selector on top of the stack. -/
def topSelector (c : Cpu) : Selector := (c.mem.load32 c.ctx.esp).setWidth 16

/-- The stack pointer moved up by some words. -/
def dropWords (c : Cpu) (n : Nat) : Cpu :=
  { c with ctx := { c.ctx with esp := c.ctx.esp + .ofNat 32 (4 * n) } }

/-- The stack of the processor is this list. -/
def HasStack (c : Cpu) (ws : List Word) : Prop := StackAt c.mem c.ctx.esp ws

theorem ctx_push (c : Cpu) (v : Word) :
    (c.push v).ctx = { c.ctx with esp := c.ctx.esp - 4 } := rfl

@[simp] theorem mem_pushAll (c : Cpu) (vs : List Word) :
    (c.pushAll vs).mem = c.mem.pushes c.ctx.esp vs := by
  induction vs generalizing c with
  | nil => rfl
  | cons v vs ih => exact ih _

/-- Pushes change the stack pointer and no other register. -/
theorem ctx_pushAll (c : Cpu) (vs : List Word) :
    (c.pushAll vs).ctx = { c.ctx with esp := c.ctx.esp - .ofNat 32 (4 * vs.length) } := by
  induction vs generalizing c with
  | nil =>
    have haddr : c.ctx.esp - .ofNat 32 (4 * 0) = c.ctx.esp := by simp
    rw [List.length_nil, haddr, pushAll]
  | cons v vs ih =>
    have haddr : c.ctx.esp - 4 - .ofNat 32 (4 * vs.length) =
        c.ctx.esp - .ofNat 32 (4 * (v :: vs).length) := by
      rw [List.length_cons]
      bv_omega
    rw [← haddr]
    exact ih (c.push v)

/-- The tables stay. -/
theorem tables_pushAll (c : Cpu) (vs : List Word) :
    (c.pushAll vs).gdt = c.gdt ∧ (c.pushAll vs).tr = c.tr ∧ (c.pushAll vs).cr3 = c.cr3 := by
  induction vs generalizing c with
  | nil => exact ⟨rfl, rfl, rfl⟩
  | cons v vs ih => exact ih _

/-- Pushes write below the stack pointer. -/
theorem writesIn_pushAll (c : Cpu) (vs : List Word) (hroom : 4 * vs.length ≤ c.ctx.esp.toNat) :
    WritesIn (span (c.ctx.esp - .ofNat 32 (4 * vs.length)) (4 * vs.length)) c.mem
      (c.pushAll vs).mem := by
  rw [mem_pushAll]
  exact StackAt.writesIn_pushes _ hroom

theorem tssBase_pushAll (c : Cpu) (vs : List Word) : (c.pushAll vs).tssBase = c.tssBase := by
  obtain ⟨hgdt, htr, -⟩ := tables_pushAll c vs
  rw [tssBase, tssBase, hgdt, htr]

theorem pushAll_append (c : Cpu) (vs ws : List Word) :
    c.pushAll (vs ++ ws) = (c.pushAll vs).pushAll ws := by
  induction vs generalizing c with
  | nil => rfl
  | cons v vs ih => exact ih _

theorem HasStack.pushAll (vs : List Word) (h : c.HasStack ws)
    (hroom : 4 * vs.length ≤ c.ctx.esp.toNat) :
    (c.pushAll vs).HasStack (vs.reverse ++ ws) := by
  rw [HasStack, mem_pushAll, ctx_pushAll]
  exact StackAt.pushes h hroom

theorem HasStack.push (h : c.HasStack ws) (hroom : 4 ≤ c.ctx.esp.toNat) (v : Word) :
    (c.push v).HasStack (v :: ws) := StackAt.push h hroom v

/-- A word of the stack. -/
theorem HasStack.load (h : c.HasStack ws) {a : Word} {k : Nat}
    (ha : a = c.ctx.esp + .ofNat 32 (4 * k)) (hk : ws[k]? = some v) : c.mem.load32 a = v := by
  obtain ⟨hlt, hv⟩ := List.getElem?_eq_some_iff.mp hk
  rw [ha, h.words k hlt, hv]

/-- A word of the stack pushed again. -/
theorem HasStack.pushLoad (h : c.HasStack ws) (hroom : 4 ≤ c.ctx.esp.toNat) {a : Word} {k : Nat}
    (ha : a = c.ctx.esp + .ofNat 32 (4 * k)) (hk : ws[k]? = some v) :
    (c.push (c.mem.load32 a)).HasStack (v :: ws) := by
  rw [h.load ha hk]
  exact h.push hroom v

/-- Words taken from the stack. -/
theorem HasStack.dropWords (vs : List Word) (h : c.HasStack (vs ++ ws)) {n : Nat}
    (hn : vs.length = n) :
    (c.dropWords n).HasStack ws := by
  subst hn
  exact StackAt.drop vs h

/-- What `popa` finds where `pusha` put it. -/
theorem HasStack.popa {edi esi ebp sp ebx edx ecx eax : Word}
    (h : c.HasStack (edi :: esi :: ebp :: sp :: ebx :: edx :: ecx :: eax :: ws)) :
    c.popa = { c with
      ctx := { c.ctx with
        edi := edi
        esi := esi
        ebp := ebp
        ebx := ebx
        edx := edx
        ecx := ecx
        eax := eax
        esp := c.ctx.esp + .ofNat 32 (4 * 8) } } := by
  have hword (k : Nat) (hk : k < 8 + ws.length) := h.words k (by
    simp only [List.length_cons]
    omega)
  simp only [Cpu.popa, hword 0 (by omega), hword 1 (by omega), hword 2 (by omega),
    hword 4 (by omega), hword 5 (by omega), hword 6 (by omega), hword 7 (by omega)]
  rfl

/-! ## Far calls and returns -/

/-- On at another address. -/
def goto (c : Cpu) (cs : Selector) (eip : Word) : Cpu :=
  { c with ctx := { c.ctx with cs := cs, eip := eip } }

/-- A call on the same stack. -/
def callSame (c : Cpu) (cs : Selector) (eip : Word) : Cpu :=
  (c.pushAll [c.ctx.cs.setWidth 32, c.ctx.eip]).goto cs eip

/-- The stack that the task state names for a level. -/
def onStackOf (c : Cpu) (dpl : Nat) : Cpu :=
  { c with
    ctx := { c.ctx with
      esp := c.mem.load32 (c.tssBase + .ofNat 32 (4 + 8 * dpl))
      ss := (c.mem.load32 (c.tssBase + .ofNat 32 (8 + 8 * dpl))).setWidth 16 } }

theorem ss_onStackOf (c : Cpu) :
    (c.onStackOf 0).ctx.ss = (c.mem.load32 (c.tssBase + 8)).setWidth 16 := rfl

/-- Where the processor starts on the stack of the kernel. -/
def kernelTop (c : Cpu) : Word :=
  if 0 < c.cpl then c.mem.load32 (c.tssBase + 4) else c.ctx.esp

/-- A call on the stack of an inner level, with `n` words from the old one. -/
def callInner (c : Cpu) (dpl n : Nat) (cs : Selector) (eip : Word) : Cpu :=
  let params := (List.range n).map fun k => c.mem.load32 (c.ctx.esp + .ofNat 32 (4 * k))
  ((c.onStackOf dpl).pushAll ([c.ctx.ss.setWidth 32, c.ctx.esp] ++ params.reverse ++
    [c.ctx.cs.setWidth 32, c.ctx.eip])).goto cs eip

/-- A far call to a selector that names a call gate; nothing where the processor faults. -/
def farCall (c : Cpu) (sel : Selector) : Option Cpu :=
  let gate := c.gdt.entry sel
  let code := c.gdt.entry gate.selector
  if gate.isSegment ∨ gate.type ≠ 0b1100 ∨ ¬gate.present ∨ gate.dpl < max c.cpl (rpl sel) then none
  else if ¬code.isSegment ∨ ¬code.type.getLsbD 3 ∨ ¬code.present ∨ c.cpl < code.dpl then none
  else
    let cs := (gate.selector &&& ~~~3) ||| .ofNat 16 code.dpl
    if code.type.getLsbD 2 = false ∧ code.dpl < c.cpl then
      if isStack c.gdt code.dpl (c.onStackOf code.dpl).ctx.ss then
        some (c.callInner code.dpl gate.paramCount cs gate.offset)
      else none
    else some (c.callSame cs gate.offset)

/-- `retf`, which drops `n` words behind the address from the stack, and after a return to
an outer level from its stack. The segments that it returns to were in use before. -/
def retf (c : Cpu) (n : Nat) : Option Cpu :=
  let eip := c.mem.load32 c.ctx.esp
  let cs : Selector := (c.mem.load32 (c.ctx.esp + 4)).setWidth 16
  let c := c.dropWords (2 + n)
  if rpl cs < c.cpl then none
  else if c.cpl < rpl cs then
    let esp := c.mem.load32 c.ctx.esp
    let ss : Selector := (c.mem.load32 (c.ctx.esp + 4)).setWidth 16
    let seg := outer c.gdt (rpl cs)
    some { c with ctx := { c.ctx with
      eip := eip, cs := cs, ss := ss, esp := esp + .ofNat 32 (4 * n)
      ds := seg c.ctx.ds, es := seg c.ctx.es, fs := seg c.ctx.fs, gs := seg c.ctx.gs } }
  else some { c with ctx := { c.ctx with eip := eip, cs := cs } }

/-- A return on the same stack. -/
theorem HasStack.retf_same {eip cs : Word} {ws : List Word} (h : c.HasStack (eip :: cs :: ws))
    (hcpl : rpl (cs.setWidth 16) = c.cpl) (n : Nat) :
    c.retf n = some { c with ctx := { c.ctx with
      eip := eip, cs := cs.setWidth 16, esp := c.ctx.esp + .ofNat 32 (4 * (2 + n)) } } := by
  have heip : c.mem.load32 c.ctx.esp = eip := StackAt.head h
  have hcs : c.mem.load32 (c.ctx.esp + 4) = cs := StackAt.head (StackAt.tail h)
  have hcpl' : (c.dropWords (2 + n)).cpl = c.cpl := rfl
  rw [retf]
  dsimp only
  rw [heip, hcs, hcpl', if_neg (by omega), if_neg (by omega)]
  rfl

/-- A return to an outer level, to the stack that lies behind the words that are dropped. -/
theorem HasStack.retf_outer {eip cs esp ss : Word} (vs : List Word) {ws : List Word}
    (h : c.HasStack (eip :: cs :: (vs ++ esp :: ss :: ws)))
    (hcpl : c.cpl < rpl (cs.setWidth 16)) {n : Nat} (hn : vs.length = n) :
    c.retf n = some { c with ctx := { c.ctx with
      eip := eip
      cs := cs.setWidth 16
      ss := ss.setWidth 16
      esp := esp + .ofNat 32 (4 * n)
      ds := outer c.gdt (rpl (cs.setWidth 16)) c.ctx.ds
      es := outer c.gdt (rpl (cs.setWidth 16)) c.ctx.es
      fs := outer c.gdt (rpl (cs.setWidth 16)) c.ctx.fs
      gs := outer c.gdt (rpl (cs.setWidth 16)) c.ctx.gs } } := by
  have heip : c.mem.load32 c.ctx.esp = eip := StackAt.head h
  have hcs : c.mem.load32 (c.ctx.esp + 4) = cs := StackAt.head (StackAt.tail h)
  have hcpl' : (c.dropWords (2 + n)).cpl = c.cpl := rfl
  have hlen : (eip :: cs :: vs).length = 2 + n := by
    rw [List.length_cons, List.length_cons, hn]
    omega
  have hold := HasStack.dropWords (eip :: cs :: vs) h hlen
  have hesp : (c.dropWords (2 + n)).mem.load32 (c.dropWords (2 + n)).ctx.esp = esp :=
    StackAt.head hold
  have hss : (c.dropWords (2 + n)).mem.load32 ((c.dropWords (2 + n)).ctx.esp + 4) = ss :=
    StackAt.head (StackAt.tail hold)
  rw [retf]
  dsimp only
  rw [heip, hcs, hcpl', if_neg (by omega), if_pos hcpl, hesp, hss]
  rfl

end Cpu

end DmfOs
