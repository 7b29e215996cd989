import DmfOs.Cpu.State

/-!
# Task states

A task state in memory, and the far jump by which the processor leaves one task for
another: it stores the registers in the state of the old task and loads those of the new
one. A bit in the type of a descriptor says which task is the current one.
-/

namespace DmfOs

open Memory

namespace Context

variable {m : Memory} {a : Word} {x : Context}

/-- The registers as they lie in a `tss_t`, from `eip` on. -/
def words (x : Context) : List Word :=
  [x.eip, x.eflags, x.eax, x.ecx, x.edx, x.ebx, x.esp, x.ebp, x.esi, x.edi,
    x.es.setWidth 32, x.cs.setWidth 32, x.ss.setWidth 32, x.ds.setWidth 32, x.fs.setWidth 32,
    x.gs.setWidth 32]

/-- The registers that lie there. -/
def load (m : Memory) (a : Word) : Context :=
  let word (k : Nat) := m.load32 (a + .ofNat 32 (4 * k))
  let sel (k : Nat) : Selector := (word k).setWidth 16
  { eip := word 0, eflags := word 1, eax := word 2, ecx := word 3, edx := word 4, ebx := word 5
    esp := word 6, ebp := word 7, esi := word 8, edi := word 9, es := sel 10, cs := sel 11
    ss := sel 12, ds := sel 13, fs := sel 14, gs := sel 15 }

/-- What was stored is loaded. -/
theorem load_eq (h : StackAt m a x.words) : load m a = x := by
  have hsel (sel : Selector) : (sel.setWidth 32).setWidth 16 = sel := by simp
  have hword (k : Nat) (hk : k < 16) : m.load32 (a + .ofNat 32 (4 * k)) = x.words[k] :=
    h.words k hk
  simp only [load, hword 0 (by decide), hword 1 (by decide), hword 2 (by decide),
    hword 3 (by decide), hword 4 (by decide), hword 5 (by decide), hword 6 (by decide),
    hword 7 (by decide), hword 8 (by decide), hword 9 (by decide), hword 10 (by decide),
    hword 11 (by decide), hword 12 (by decide), hword 13 (by decide), hword 14 (by decide),
    hword 15 (by decide)]
  simp only [words, List.getElem_cons_zero, List.getElem_cons_succ, hsel]

end Context

/-- The type of the state of the current task, or of another one. -/
def GdtEntry.setBusy (b : Bool) (e : GdtEntry) : GdtEntry :=
  { e with access := if b then e.access ||| 2 else e.access &&& ~~~2 }

/-- An available state is none of the segments. -/
theorem GdtEntry.available_ofTss (limit : BitVec 16) {access : Byte} (tss : Word)
    (haccess : access ∈ [0x89, 0xe9]) :
    (ofTss limit access tss).isSegment = false ∧ (ofTss limit access tss).type = 0b1001 ∧
      (ofTss limit access tss).present = true := by
  have hbits : ∀ b ∈ ([0x89, 0xe9] : List Byte), b.getLsbD 4 = false ∧
      b.extractLsb' 0 4 = 0b1001 ∧ b.getLsbD 7 = true := by decide
  exact hbits access haccess

namespace Gdt

/-- The bit set or cleared in the entry that a selector names. -/
def setBusy (sel : Selector) (b : Bool) (gdt : Gdt) : Gdt := fun i =>
  if i.val = sel.toNat / 8 % 256 then (gdt i).setBusy b else gdt i

variable {gdt : Gdt} {sel sel' : Selector} {b : Bool}

theorem entry_setBusy (gdt : Gdt) (sel sel' : Selector) (b : Bool) :
    (gdt.setBusy sel b).entry sel' =
      if sel'.toNat / 8 % 256 = sel.toNat / 8 % 256 then (gdt.entry sel').setBusy b
      else gdt.entry sel' := by
  have hindex : (Fin.ofNat 256 ((sel'.setWidth 32).toNat / 8)).val = sel'.toNat / 8 % 256 := by
    have hwidth : (sel'.setWidth 32).toNat = sel'.toNat := by
      rw [BitVec.toNat_setWidth]
      omega
    rw [hwidth]
    rfl
  rw [entry, select, setBusy, hindex]
  rfl

/-- The bit is none of those of a segment. -/
theorem isSegment_setBusy (b : Bool) (e : GdtEntry) : (e.setBusy b).isSegment = e.isSegment := by
  cases b
  · have hmask : (~~~(2 : Byte)).getLsbD 4 = true := rfl
    exact (BitVec.getLsbD_and ..).trans (by rw [hmask, Bool.and_true]; rfl)
  · have hbit : (2 : Byte).getLsbD 4 = false := rfl
    exact (BitVec.getLsbD_or ..).trans (by rw [hbit, Bool.or_false]; rfl)

/-- The entry of another selector stays, and so does that of a segment. -/
theorem entry_setBusy_cases (hsys : (gdt.entry sel).isSegment = false) (sel' : Selector)
    (b : Bool) :
    (gdt.setBusy sel b).entry sel' = gdt.entry sel' ∨
      (gdt.entry sel').isSegment = false ∧
        ((gdt.setBusy sel b).entry sel').isSegment = false := by
  rw [entry_setBusy]
  split_ifs with hindex
  · right
    have hsame : gdt.entry sel' = gdt.entry sel := by
      have hvalue (s : Selector) : (s.setWidth 32).toNat = s.toNat := by
        rw [BitVec.toNat_setWidth]
        omega
      refine congrArg gdt (Fin.ext ?_)
      rw [hvalue, hvalue]
      exact hindex
    rw [isSegment_setBusy, hsame]
    exact ⟨hsys, hsys⟩
  · exact Or.inl rfl

end Gdt

/-- What a context may hold does not depend on which task is the current one. -/
theorem Context.valid_setBusy {gdt : Gdt} {sel : Selector}
    (hsys : (gdt.entry sel).isSegment = false) (b : Bool) (x : Context) :
    x.valid (gdt.setBusy sel b) = x.valid gdt := by
  have hcode (s : Selector) : isCode (gdt.setBusy sel b) s = isCode gdt s := by
    rw [isCode, isCode]
    rcases Gdt.entry_setBusy_cases hsys s b with h | ⟨h, h'⟩
    · rw [h]
    · simp only [h, h', Bool.false_and]
  have hstack (s : Selector) (n : Nat) :
      isStack (gdt.setBusy sel b) n s = isStack gdt n s := by
    rw [isStack, isStack]
    rcases Gdt.entry_setBusy_cases hsys s b with h | ⟨h, h'⟩
    · rw [h]
    · simp only [h, h', Bool.false_and]
  have hdata (n : Nat) : isData (gdt.setBusy sel b) n = isData gdt n := by
    funext s
    rw [isData, isData]
    rcases Gdt.entry_setBusy_cases hsys s b with h | ⟨h, h'⟩
    · rw [h]
    · simp only [h, h', Bool.false_and]
  rw [valid, valid, hcode, hstack, hdata]

namespace Cpu

/-- A far jump to a selector that names a task state; nothing where the processor faults. -/
def jumpTask (sel : Selector) (c : Cpu) : Option Cpu :=
  let e := c.gdt.entry sel
  if e.isSegment ∨ e.type ≠ 0b1001 ∨ ¬e.present ∨ e.dpl < max c.cpl (rpl sel) ∨ e.limit < 103
  then none
  else
    let mem := c.mem.storeWords (c.tssBase + 32) c.ctx.words
    let gdt := (c.gdt.setBusy c.tr false).setBusy sel true
    let ctx := Context.load mem (e.base + 32)
    if ctx.valid gdt then
      some { ctx := ctx, mem := mem, gdt := gdt, tr := sel, cr3 := mem.load32 (e.base + 28) }
    else none

end Cpu

end DmfOs
