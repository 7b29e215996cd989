import DmfOs.Cpu.State

/-!
# The system call

`sys_show` of `io.c` pushes its arguments and calls through the gate, from the kernel or
from a task at level 3. `syscall_handler` of `syscall_as.S` saves the registers, pushes the
arguments again for the C function, and restores everything before it returns. The C
function is any that keeps to its calling convention.
-/

namespace DmfOs

open Memory

/-- A C function of up to three arguments, from its entry to behind its return, under the
calling convention: it drops its return address, keeps `ebx`, `ebp`, `esi`, `edi` and the
segments, and writes its frame, its arguments and its own data. -/
structure Cdecl where
  run : Cpu → Cpu
  /-- How deep its frame is. -/
  depth : Nat
  data : Set Word
  esp : ∀ c, (run c).ctx.esp = c.ctx.esp + 4
  saved : ∀ c, (run c).ctx.ebx = c.ctx.ebx ∧ (run c).ctx.ebp = c.ctx.ebp ∧
    (run c).ctx.esi = c.ctx.esi ∧ (run c).ctx.edi = c.ctx.edi
  segments : ∀ c, (run c).ctx.es = c.ctx.es ∧ (run c).ctx.cs = c.ctx.cs ∧
    (run c).ctx.ss = c.ctx.ss ∧ (run c).ctx.ds = c.ctx.ds ∧
    (run c).ctx.fs = c.ctx.fs ∧ (run c).ctx.gs = c.ctx.gs
  tables : ∀ c, (run c).gdt = c.gdt ∧ (run c).tr = c.tr ∧ (run c).cr3 = c.cr3
  writes : ∀ c, WritesIn (span (c.ctx.esp - .ofNat 32 depth) (depth + 16) ∪ data)
    c.mem (run c).mem

namespace Cpu

variable {f : Cdecl} {c e : Cpu} {ret eip id str color handler : Word} {rest : List Word}

/-- `syscall_handler`, up to the entry of the C function, with the address it returns to. -/
def handlerEnter (ret : Word) (c : Cpu) : Cpu :=
  let c := c.push (c.ctx.ds.setWidth 32)
  let c := c.pusha
  let c := { c with ctx := { c.ctx with eax := (c.ctx.eax &&& 0xffff0000) ||| kernelDataSeg } }
  let c := { c with ctx := { c.ctx with ds := c.ctx.eax.setWidth 16 } }
  let c := { c with ctx := { c.ctx with ebp := c.ctx.esp } }
  let c := c.push (c.mem.load32 (c.ctx.ebp + 13 * 4))
  let c := c.push (c.mem.load32 (c.ctx.ebp + 12 * 4))
  let c := c.push (c.mem.load32 (c.ctx.ebp + 11 * 4))
  c.push ret

/-- `syscall_handler` behind the call of the C function, up to the return. -/
def handlerRestore (c : Cpu) : Cpu :=
  let c := c.dropWords 3
  let c := c.popa
  let c := { c with ctx := { c.ctx with ds := c.topSelector } }
  c.dropWords 1

/-- The assembly of `sys_show`, with the handler. -/
def sysShow (f : Cdecl) (ret str color : Word) (c : Cpu) : Option Cpu :=
  match (((c.push color).push str).push 2).farCall (7 * 8) with
  | none => none
  | some c => (f.run (c.handlerEnter ret)).handlerRestore.retf 3

/-! ## The handler -/

/-- The registers that `pusha` saves, as they lie on the stack. -/
def gprWords (c : Cpu) : List Word :=
  [c.ctx.edi, c.ctx.esi, c.ctx.ebp, c.ctx.esp - 4, c.ctx.ebx, c.ctx.edx, c.ctx.ecx, c.ctx.eax]

/-- The last pushes of the handler: the words 11 to 13 of the stack, last one first, and the
return address. -/
theorem HasStack.pushArgs (ret : Word) {ws : List Word} (h : c.HasStack ws)
    (hebp : c.ctx.ebp = c.ctx.esp)
    (hroom : 16 ≤ c.ctx.esp.toNat) (hid : ws[11]? = some id) (hstr : ws[12]? = some str)
    (hcolor : ws[13]? = some color) :
    let c := c.push (c.mem.load32 (c.ctx.ebp + 13 * 4))
    let c := c.push (c.mem.load32 (c.ctx.ebp + 12 * 4))
    let c := c.push (c.mem.load32 (c.ctx.ebp + 11 * 4))
    (c.push ret).HasStack (ret :: id :: str :: color :: ws) := by
  intro c₁ c₂ c₃
  have hesp₁ : c₁.ctx.esp = c.ctx.esp - 4 := rfl
  have hesp₂ : c₂.ctx.esp = c.ctx.esp - 4 - 4 := rfl
  have hesp₃ : c₃.ctx.esp = c.ctx.esp - 4 - 4 - 4 := rfl
  -- `ebp` stays, so each push finds its word one place further
  have hebp₁ : c₁.ctx.ebp + 12 * 4 = c₁.ctx.esp + .ofNat 32 (4 * 13) := by
    rw [show c₁.ctx.ebp = c.ctx.esp from hebp, hesp₁]
    bv_omega
  have hebp₂ : c₂.ctx.ebp + 11 * 4 = c₂.ctx.esp + .ofNat 32 (4 * 13) := by
    rw [show c₂.ctx.ebp = c.ctx.esp from hebp, hesp₂]
    bv_omega
  have h₁ : c₁.HasStack (color :: ws) := h.pushLoad (by omega) (by rw [hebp]; rfl) hcolor
  have h₂ : c₂.HasStack (str :: color :: ws) := h₁.pushLoad (by bv_omega) hebp₁ hstr
  have h₃ : c₃.HasStack (id :: str :: color :: ws) := h₂.pushLoad (by bv_omega) hebp₂ hid
  exact h₃.push (by bv_omega) ret

/-- The C function finds its arguments, and below them is what the handler saved. -/
theorem HasStack.handlerEnter (ret : Word)
    (h : c.HasStack (eip :: cs :: id :: str :: color :: rest)) (hroom : 52 ≤ c.ctx.esp.toNat) :
    (c.handlerEnter ret).HasStack (ret :: id :: str :: color :: (c.gprWords ++
      c.ctx.ds.setWidth 32 :: eip :: cs :: id :: str :: color :: rest)) := by
  have hds := h.push (by omega) (c.ctx.ds.setWidth 32)
  have hesp : (c.push (c.ctx.ds.setWidth 32)).ctx.esp.toNat = c.ctx.esp.toNat - 4 := by
    rw [show (c.push (c.ctx.ds.setWidth 32)).ctx.esp = c.ctx.esp - 4 from rfl]
    bv_omega
  have hgprs : (c.push (c.ctx.ds.setWidth 32)).pusha.HasStack (c.gprWords ++
      c.ctx.ds.setWidth 32 :: eip :: cs :: id :: str :: color :: rest) :=
    hds.pushAll _ (by rw [hesp]; show 32 ≤ _; omega)
  have hesp' : (c.push (c.ctx.ds.setWidth 32)).pusha.ctx.esp.toNat = c.ctx.esp.toNat - 36 := by
    rw [pusha, ctx_pushAll]
    show (c.ctx.esp - 4 - 32).toNat = _
    bv_omega
  generalize hw : (c.push (c.ctx.ds.setWidth 32)).pusha = c' at hgprs hesp'
  let c'' : Cpu :=
    { c' with
      ctx := { c'.ctx with
        eax := (c'.ctx.eax &&& 0xffff0000) ||| kernelDataSeg
        ds := ((c'.ctx.eax &&& 0xffff0000) ||| kernelDataSeg).setWidth 16
        ebp := c'.ctx.esp } }
  have hargs : c''.HasStack (c.gprWords ++ c.ctx.ds.setWidth 32 :: eip :: cs :: id :: str ::
      color :: rest) := hgprs
  have hroom' : 16 ≤ c''.ctx.esp.toNat := by
    rw [show c''.ctx.esp = c'.ctx.esp from rfl]
    omega
  have hend := hargs.pushArgs ret rfl hroom' rfl rfl rfl
  rw [Cpu.handlerEnter, hw]
  exact hend

/-- The handler runs on the data segment of the kernel, with its frame in `ebp`. -/
theorem ctx_handlerEnter (ret : Word) (c : Cpu) :
    (c.handlerEnter ret).ctx = { c.ctx with
      eax := (c.ctx.eax &&& 0xffff0000) ||| kernelDataSeg
      ds := kernelDataSeg.setWidth 16
      ebp := c.ctx.esp - 36
      esp := c.ctx.esp - 52 } := by
  have hsaved : (c.push (c.ctx.ds.setWidth 32)).pusha.ctx =
      { c.ctx with esp := c.ctx.esp - 36 } := by
    have hesp : c.ctx.esp - 4 - .ofNat 32 (4 * 8) = c.ctx.esp - 36 := by bv_omega
    rw [← hesp]
    exact ctx_pushAll _ _
  have hesp : c.ctx.esp - 36 - 4 - 4 - 4 - 4 = c.ctx.esp - 52 := by bv_omega
  rw [handlerEnter]
  generalize (c.push (c.ctx.ds.setWidth 32)).pusha = c' at hsaved
  simp only [ctx_push, hsaved, hesp, setWidth_kernelDataSeg]

theorem tables_handlerEnter (ret : Word) (c : Cpu) :
    (c.handlerEnter ret).gdt = c.gdt ∧ (c.handlerEnter ret).tr = c.tr ∧
      (c.handlerEnter ret).cr3 = c.cr3 := by
  have hsaved := tables_pushAll (c.push (c.ctx.ds.setWidth 32)) [c.ctx.eax, c.ctx.ecx, c.ctx.edx,
    c.ctx.ebx, c.ctx.esp - 4, c.ctx.ebp, c.ctx.esi, c.ctx.edi]
  have hpusha : (c.push (c.ctx.ds.setWidth 32)).pusha = (c.push (c.ctx.ds.setWidth 32)).pushAll
      [c.ctx.eax, c.ctx.ecx, c.ctx.edx, c.ctx.ebx, c.ctx.esp - 4, c.ctx.ebp, c.ctx.esi,
        c.ctx.edi] := rfl
  rw [← hpusha] at hsaved
  rw [handlerEnter]
  generalize (c.push (c.ctx.ds.setWidth 32)).pusha = c' at hsaved
  exact hsaved

theorem writesIn_handlerEnter (ret : Word) {c : Cpu} (hroom : 52 ≤ c.ctx.esp.toNat) :
    WritesIn (span (c.ctx.esp - 52) 52) c.mem (c.handlerEnter ret).mem := by
  obtain ⟨vs, hlen, hmem⟩ : ∃ vs : List Word, vs.length = 13 ∧
      (c.handlerEnter ret).mem = c.mem.pushes c.ctx.esp vs :=
    ⟨[_, _, _, _, _, _, _, _, _, _, _, _, _], rfl, rfl⟩
  have hwrites : WritesIn (span (c.ctx.esp - .ofNat 32 (4 * vs.length)) (4 * vs.length)) c.mem
      (c.mem.pushes c.ctx.esp vs) := StackAt.writesIn_pushes _ (by omega)
  rw [hlen] at hwrites
  rw [hmem]
  exact hwrites

/-- The handler restores what it finds. -/
theorem handlerRestore_eq {edi esi ebp sp ebx edx ecx eax ds : Word}
    (h : (c.dropWords 3).HasStack
      (edi :: esi :: ebp :: sp :: ebx :: edx :: ecx :: eax :: ds :: rest)) :
    c.handlerRestore.HasStack rest ∧
      c.handlerRestore = { c with
        ctx := { c.ctx with
          edi := edi
          esi := esi
          ebp := ebp
          ebx := ebx
          edx := edx
          ecx := ecx
          eax := eax
          ds := ds.setWidth 16
          esp := c.ctx.esp + 48 } } := by
  have hstack := h.dropWords [edi, esi, ebp, sp, ebx, edx, ecx, eax] (n := 8) rfl
  have hpopa := h.popa
  have hds : ((c.dropWords 3).dropWords 8).mem.load32 ((c.dropWords 3).dropWords 8).ctx.esp = ds :=
    StackAt.head hstack
  have hesp : c.ctx.esp + 12 + 32 + 4 = c.ctx.esp + 48 := by bv_omega
  have heq : c.handlerRestore = { c with
      ctx := { c.ctx with
        edi := edi
        esi := esi
        ebp := ebp
        ebx := ebx
        edx := edx
        ecx := ecx
        eax := eax
        ds := ds.setWidth 16
        esp := c.ctx.esp + 48 } } := by
    rw [handlerRestore, hpopa, ← hds, ← hesp]
    rfl
  refine ⟨?_, heq⟩
  have htail := hstack.dropWords [ds] (n := 1) rfl
  rw [heq, HasStack, ← hesp]
  exact htail

/-- What the handler saves is there when the C function returns. -/
theorem HasStack.run (f : Cdecl) {ws : List Word} (h : c.HasStack (ret :: id :: str :: color :: ws))
    (hroom : f.depth ≤ c.ctx.esp.toNat)
    (hapart : Disjoint (span (c.ctx.esp + 16) (4 * ws.length)) f.data) :
    ((f.run c).dropWords 3).HasStack ws := by
  have hsaved : StackAt c.mem (c.ctx.esp + 16) ws := StackAt.drop [ret, id, str, color] h
  have hfits := StackAt.fits h
  simp only [List.length_cons] at hfits
  have hframe : Disjoint (span (c.ctx.esp - .ofNat 32 f.depth) (f.depth + 16))
      (span (c.ctx.esp + 16) (4 * ws.length)) := by
    rcases Nat.eq_zero_or_pos ws.length with hws | hws
    · have hempty : span (c.ctx.esp + 16) (4 * ws.length) = ∅ := by
        rw [hws]
        exact Set.eq_empty_of_forall_notMem fun x hx => absurd hx (Nat.not_lt_zero _)
      rw [hempty]
      exact Set.disjoint_empty _
    · have hlow : (c.ctx.esp - .ofNat 32 f.depth).toNat = c.ctx.esp.toNat - f.depth := by
        have hlt := c.ctx.esp.isLt
        bv_omega
      have hhigh : (c.ctx.esp + 16).toNat = c.ctx.esp.toNat + 16 := by bv_omega
      exact disjoint_span_of_le (by omega) (by omega)
  have hkept := hsaved.frame (f.writes c) (hframe.symm.union_right hapart)
  have hesp : (f.run c).ctx.esp + .ofNat 32 (4 * 3) = c.ctx.esp + 16 := by
    rw [f.esp]
    bv_omega
  rw [← hesp] at hkept
  exact hkept

/-- The handler with the C function, from its entry to its return, changes no register but the
flags. -/
theorem HasStack.handled (f : Cdecl) (ret : Word) {h : Cpu}
    (hs : h.HasStack (eip :: cs :: id :: str :: color :: rest))
    (hroom : 52 + f.depth ≤ h.ctx.esp.toNat)
    (hapart : Disjoint (span (h.ctx.esp - 36) (4 * (14 + rest.length))) f.data) :
    let r := f.run (h.handlerEnter ret)
    r.handlerRestore.HasStack (eip :: cs :: id :: str :: color :: rest) ∧
      r.handlerRestore =
        { r with ctx := { h.ctx with eip := r.ctx.eip, eflags := r.ctx.eflags } } := by
  have henter := hs.handlerEnter ret (by omega)
  have hesp : (h.handlerEnter ret).ctx.esp = h.ctx.esp - 52 := by rw [ctx_handlerEnter]
  have hroom' : f.depth ≤ (h.handlerEnter ret).ctx.esp.toNat := by
    rw [hesp]
    bv_omega
  have hsaved : (h.handlerEnter ret).ctx.esp + 16 = h.ctx.esp - 36 := by
    rw [hesp]
    bv_omega
  have hlen :
      (h.gprWords ++ h.ctx.ds.setWidth 32 :: eip :: cs :: id :: str :: color :: rest).length =
      14 + rest.length := by
    rw [List.length_append]
    simp only [gprWords, List.length_cons, List.length_nil]
    omega
  have hrun := henter.run f hroom' (by rw [hsaved, hlen]; exact hapart)
  obtain ⟨hstack, heq⟩ := handlerRestore_eq hrun
  refine ⟨hstack, ?_⟩
  obtain ⟨hes, hcs, hss, -, hfs, hgs⟩ := f.segments (h.handlerEnter ret)
  rw [ctx_handlerEnter] at hes hcs hss hfs hgs
  dsimp only at hes hcs hss hfs hgs
  have hback : (f.run (h.handlerEnter ret)).ctx.esp + 48 = h.ctx.esp := by
    rw [f.esp, hesp]
    bv_omega
  have hds : (h.ctx.ds.setWidth 32).setWidth 16 = h.ctx.ds := by simp
  generalize f.run (h.handlerEnter ret) = r at *
  rw [heq, hback, hds]
  simp only [hes, hcs, hss, hfs, hgs]

/-! ## The gate -/

/-- What the gate of `init_syscall` does to a call. -/
theorem farCall_gate (hg : c.gdt.Gated handler) (hcpl : c.cpl ≤ 3)
    (hss : 0 < c.cpl → (c.onStackOf 0).ctx.ss = kernelDataSeg.setWidth 16) :
    c.farCall (7 * 8) = some (
      if 0 < c.cpl then c.callInner 0 3 (kernelCodeSeg.setWidth 16) handler
      else c.callSame (kernelCodeSeg.setWidth 16) handler) := by
  have hentry : c.gdt.entry (7 * 8) = (SyscallDes.ofHandler handler).toEntry := hg.gate
  have hsel : (SyscallDes.ofHandler handler).toEntry.selector = kernelCodeSeg.setWidth 16 := rfl
  have hcode : c.gdt.entry (kernelCodeSeg.setWidth 16) = Gdt.os 1 := hg.code
  have hoffset : (SyscallDes.ofHandler handler).toEntry.offset = handler :=
    (SyscallDes.offset_toEntry _).trans (append_halves handler)
  have hcount : (SyscallDes.ofHandler handler).toEntry.paramCount = 3 :=
    SyscallDes.paramCount_toEntry _
  have hgate : ¬((SyscallDes.ofHandler handler).toEntry.isSegment = true ∨
      (SyscallDes.ofHandler handler).toEntry.type ≠ 0b1100 ∨
      ¬(SyscallDes.ofHandler handler).toEntry.present = true ∨
      (SyscallDes.ofHandler handler).toEntry.dpl < max c.cpl (rpl (7 * 8))) := by
    have hp : (SyscallDes.ofHandler handler).p = 1 := rfl
    have hzero : (SyscallDes.ofHandler handler).zero = 0 := rfl
    have htype : (SyscallDes.ofHandler handler).type = 0b1100 := rfl
    have hdpl : (SyscallDes.ofHandler handler).dpl.toNat = 3 := rfl
    have hrpl : rpl (7 * 8) = 0 := rfl
    rw [SyscallDes.isSegment_toEntry, SyscallDes.type_toEntry, SyscallDes.present_toEntry,
      SyscallDes.dpl_toEntry, hp, hzero, htype, hdpl, hrpl]
    simpa using hcpl
  have hsegment : ¬(¬(Gdt.os 1).isSegment = true ∨ ¬(Gdt.os 1).type.getLsbD 3 = true ∨
      ¬(Gdt.os 1).present = true ∨ c.cpl < (Gdt.os 1).dpl) := by
    have hdpl : (Gdt.os 1).dpl = 0 := by decide
    have hrest : (Gdt.os 1).isSegment = true ∧ (Gdt.os 1).type.getLsbD 3 = true ∧
        (Gdt.os 1).present = true := by decide
    simp [hdpl, hrest]
  have hinner : (Gdt.os 1).type.getLsbD 2 = false ∧ (Gdt.os 1).dpl < c.cpl ↔ 0 < c.cpl := by
    have hdpl : (Gdt.os 1).dpl = 0 := by decide
    have hconf : (Gdt.os 1).type.getLsbD 2 = false := by decide
    rw [hdpl, hconf]
    exact and_iff_right rfl
  have hcs : (kernelCodeSeg.setWidth 16 &&& ~~~3) ||| .ofNat 16 (Gdt.os 1).dpl =
      (kernelCodeSeg.setWidth 16 : Selector) := by decide
  have hdpl : (Gdt.os 1).dpl = 0 := by decide
  have hstack := isStack_kernel hg.toFlat
  rw [farCall, hentry]
  dsimp only
  rw [if_neg hgate, hsel, hcode, if_neg hsegment, hoffset, hcount, hcs, hdpl]
  rw [hdpl] at hinner
  rcases Nat.eq_zero_or_pos c.cpl with hzero | hpos
  · have hnot : ¬0 < c.cpl := hzero.not_gt
    rw [if_neg (mt hinner.mp hnot), if_neg hnot]
  · rw [if_pos (hinner.mpr hpos), if_pos hpos, hss hpos, if_pos hstack]

/-! ## The whole call -/

/-- What lies on the stack of the kernel when the handler starts: the arguments, the return
address, and the old stack of a task. -/
def gateBytes (c : Cpu) : Nat := if 0 < c.cpl then 28 else 20

/-- What a call writes: the arguments, the stack of the kernel, and what the C function
writes. -/
def scratch (f : Cdecl) (c : Cpu) : Set Word :=
  span (c.ctx.esp - 12) 12 ∪
    (span (c.kernelTop - .ofNat 32 (c.gateBytes + 52 + f.depth)) (c.gateBytes + 52 + f.depth) ∪
      f.data)

/-- The stacks have room for the call, and nothing else that is written lies on what it
saves. -/
structure CanCall (f : Cdecl) (c : Cpu) : Prop where
  level : c.cpl = 0 ∨ c.cpl = 3
  room : c.gateBytes + 52 + f.depth ≤ c.kernelTop.toNat
  args : 12 ≤ c.ctx.esp.toNat
  data : Disjoint (span (c.kernelTop - .ofNat 32 (c.gateBytes + 36)) (c.gateBytes + 36)) f.data
  /-- The task state of a task names a stack of the kernel, and stays. -/
  ss0 : 0 < c.cpl → c.mem.load32 (c.tssBase + 8) = kernelDataSeg
  tss : 0 < c.cpl → Disjoint (span (c.tssBase + 4) 8) (c.scratch f)
  /-- The segments of a task are segments that it may use. -/
  segments : 0 < c.cpl → ∀ sel ∈ [c.ctx.ds, c.ctx.es, c.ctx.fs, c.ctx.gs],
    isData c.gdt 3 sel = true

/-- What the handler finds behind the arguments. -/
def oldStack (c : Cpu) : List Word :=
  if 0 < c.cpl then [c.ctx.esp - 12, c.ctx.ss.setWidth 32] else []

/-- The handler is entered on the stack of the kernel. -/
structure Enters (c : Cpu) (str color : Word) (h : Cpu) : Prop where
  stack : h.HasStack (c.ctx.eip :: c.ctx.cs.setWidth 32 :: 2 :: str :: color :: c.oldStack)
  esp : h.ctx.esp = c.kernelTop - .ofNat 32 c.gateBytes
  regs : h.ctx = { c.ctx with
    eip := h.ctx.eip, esp := h.ctx.esp, ss := h.ctx.ss, cs := kernelCodeSeg.setWidth 16 }
  ss : c.cpl = 0 → h.ctx.ss = c.ctx.ss
  tables : h.gdt = c.gdt ∧ h.tr = c.tr ∧ h.cr3 = c.cr3
  writes : WritesIn (span (c.ctx.esp - 12) 12 ∪
    span (c.kernelTop - .ofNat 32 c.gateBytes) c.gateBytes) c.mem h.mem

/-- The arguments of `sys_show` on its stack. -/
theorem hasStack_args (str color : Word) {c : Cpu} (hroom : 12 ≤ c.ctx.esp.toNat) :
    (c.pushAll [color, str, 2]).HasStack [2, str, color] :=
  HasStack.pushAll _ (StackAt.nil _ _) hroom

theorem cpl_pushAll (c : Cpu) (vs : List Word) : (c.pushAll vs).cpl = c.cpl := by
  rw [cpl, cpl, ctx_pushAll]

/-- A call from the kernel. -/
theorem enters_callSame (handler : Word) (hcpl : c.cpl = 0) (hroom : 20 ≤ c.ctx.esp.toNat) :
    c.Enters str color
      ((c.pushAll [color, str, 2]).callSame (kernelCodeSeg.setWidth 16) handler) := by
  have hold : c.oldStack = [] := by rw [oldStack, hcpl]; rfl
  have htop : c.kernelTop = c.ctx.esp := by rw [kernelTop, hcpl]; rfl
  have hbytes : c.gateBytes = 20 := by rw [gateBytes, hcpl]; rfl
  have hpushes : (c.pushAll [color, str, 2]).pushAll [c.ctx.cs.setWidth 32, c.ctx.eip] =
      c.pushAll [color, str, 2, c.ctx.cs.setWidth 32, c.ctx.eip] :=
    (pushAll_append c [color, str, 2] _).symm
  have hcall : (c.pushAll [color, str, 2]).callSame (kernelCodeSeg.setWidth 16) handler =
      (c.pushAll [color, str, 2, c.ctx.cs.setWidth 32, c.ctx.eip]).goto
        (kernelCodeSeg.setWidth 16) handler := by
    rw [← hpushes]
    rfl
  have hstack : (c.pushAll [color, str, 2, c.ctx.cs.setWidth 32, c.ctx.eip]).HasStack
      [c.ctx.eip, c.ctx.cs.setWidth 32, 2, str, color] :=
    HasStack.pushAll _ (StackAt.nil _ _) hroom
  have hwrites := writesIn_pushAll c [color, str, 2, c.ctx.cs.setWidth 32, c.ctx.eip] hroom
  rw [hcall]
  refine ⟨?_, ?_, ?_, fun _ => ?_, tables_pushAll c _, ?_⟩
  · rw [hold]
    exact hstack
  · rw [htop, hbytes]
    exact congrArg Context.esp (ctx_pushAll c _)
  · rw [goto, ctx_pushAll]
  · rw [goto, ctx_pushAll]
  · rw [htop, hbytes]
    exact hwrites.mono Set.subset_union_right

/-- A call from a task. -/
theorem enters_callInner (handler : Word) (hcpl : 0 < c.cpl) (huser : 12 ≤ c.ctx.esp.toNat)
    (hapart : Disjoint (span (c.tssBase + 4) 4) (span (c.ctx.esp - 12) 12))
    (hroom : 28 ≤ c.kernelTop.toNat) :
    c.Enters str color
      ((c.pushAll [color, str, 2]).callInner 0 3 (kernelCodeSeg.setWidth 16) handler) := by
  have hold : c.oldStack = [c.ctx.esp - 12, c.ctx.ss.setWidth 32] := by rw [oldStack, if_pos hcpl]
  have htop : c.kernelTop = c.mem.load32 (c.tssBase + 4) := by rw [kernelTop, if_pos hcpl]
  have hbytes : c.gateBytes = 28 := by rw [gateBytes, if_pos hcpl]
  have hargs := hasStack_args str color huser
  have hwrites := writesIn_pushAll c [color, str, 2] huser
  have hesp : (c.pushAll [color, str, 2]).ctx = { c.ctx with esp := c.ctx.esp - 12 } :=
    ctx_pushAll c _
  obtain ⟨hgdt, htr, hcr3⟩ := tables_pushAll c [color, str, 2]
  have hbase : (c.pushAll [color, str, 2]).tssBase = c.tssBase := by rw [tssBase, hgdt, htr]; rfl
  generalize c.pushAll [color, str, 2] = c₃ at *
  have hparams : ((List.range 3).map fun k => c₃.mem.load32 (c₃.ctx.esp + .ofNat 32 (4 * k))) =
      [2, str, color] := by
    have hword (k : Nat) (hk : k < 3) := hargs.words k hk
    rw [show List.range 3 = [0, 1, 2] from rfl, List.map_cons, List.map_cons, List.map_cons,
      List.map_nil, hword 0 (by decide), hword 1 (by decide), hword 2 (by decide)]
    rfl
  -- the arguments do not change where the stack of the kernel is
  have hesp0 : (c₃.onStackOf 0).ctx.esp = c.kernelTop := by
    have hkeep : c₃.mem.load32 (c.tssBase + 4) = c.mem.load32 (c.tssBase + 4) :=
      hwrites.load32_eq hapart
    rw [htop, ← hkeep, ← hbase]
    rfl
  have hcall : c₃.callInner 0 3 (kernelCodeSeg.setWidth 16) handler =
      ((c₃.onStackOf 0).pushAll [c.ctx.ss.setWidth 32, c.ctx.esp - 12, color, str, 2,
        c.ctx.cs.setWidth 32, c.ctx.eip]).goto (kernelCodeSeg.setWidth 16) handler := by
    rw [callInner, hparams, hesp]
    rfl
  have hlen : 4 * 7 ≤ (c₃.onStackOf 0).ctx.esp.toNat := by
    rw [hesp0]
    exact hroom
  have hstack := HasStack.pushAll (c := c₃.onStackOf 0)
    [c.ctx.ss.setWidth 32, c.ctx.esp - 12, color, str, 2, c.ctx.cs.setWidth 32, c.ctx.eip]
    (StackAt.nil _ _) hlen
  have hcalled := writesIn_pushAll (c₃.onStackOf 0)
    [c.ctx.ss.setWidth 32, c.ctx.esp - 12, color, str, 2, c.ctx.cs.setWidth 32, c.ctx.eip] hlen
  rw [hesp0] at hcalled
  rw [hcall]
  refine ⟨?_, ?_, ?_, fun h0 => absurd h0 hcpl.ne', ?_, ?_⟩
  · rw [hold]
    exact hstack
  · rw [hbytes, ← hesp0]
    exact congrArg Context.esp (ctx_pushAll (c₃.onStackOf 0) _)
  · have hctx := ctx_pushAll (c₃.onStackOf 0) [c.ctx.ss.setWidth 32, c.ctx.esp - 12, color, str, 2,
      c.ctx.cs.setWidth 32, c.ctx.eip]
    have hinner : (c₃.onStackOf 0).ctx = { c.ctx with
        esp := (c₃.onStackOf 0).ctx.esp, ss := (c₃.onStackOf 0).ctx.ss } := by
      rw [onStackOf, hesp]
    generalize (c₃.onStackOf 0).ctx.esp = esp at hctx hinner
    generalize (c₃.onStackOf 0).ctx.ss = ss at hinner
    rw [hinner] at hctx
    rw [goto, hctx]
  · rw [← hgdt, ← htr, ← hcr3]
    exact tables_pushAll (c₃.onStackOf 0) _
  · rw [hbytes]
    exact (hwrites.mono Set.subset_union_left).trans (hcalled.mono Set.subset_union_right)

/-- The gate leads to the handler. -/
theorem CanCall.enters (hg : c.gdt.Gated handler) (h : c.CanCall f) (str color : Word) :
    ∃ c', (((c.push color).push str).push 2).farCall (7 * 8) = some c' ∧ c.Enters str color c' := by
  have hcpl : (((c.push color).push str).push 2).cpl = c.cpl := cpl_pushAll c [color, str, 2]
  have hgdt := (tables_pushAll c [color, str, 2]).1
  have hle : (((c.push color).push str).push 2).cpl ≤ 3 := by
    rw [hcpl]
    rcases h.level with hl | hl <;> omega
  have hgated : (c.pushAll [color, str, 2]).gdt.Gated handler := by rwa [hgdt]
  have hss : 0 < (((c.push color).push str).push 2).cpl →
      ((((c.push color).push str).push 2).onStackOf 0).ctx.ss = kernelDataSeg.setWidth 16 := by
    intro hpos
    rw [hcpl] at hpos
    have haddr : c.tssBase + 8 = c.tssBase + 4 + .ofNat 32 4 := by bv_omega
    have hapart : Disjoint (span (c.tssBase + 8) 4) (span (c.ctx.esp - 12) 12) := by
      rw [haddr]
      exact (h.tss hpos).mono (span_add_subset _ (by omega)) Set.subset_union_left
    have hkeep := (writesIn_pushAll c [color, str, 2] h.args).load32_eq hapart
    have hbase : (((c.push color).push str).push 2).tssBase = c.tssBase :=
      tssBase_pushAll c [color, str, 2]
    rw [ss_onStackOf, hbase, ← h.ss0 hpos]
    exact congrArg (BitVec.setWidth 16) hkeep
  refine ⟨_, farCall_gate hgated hle hss, ?_⟩
  have hroom := h.room
  rw [hcpl]
  rcases h.level with hl | hl
  · have htop : c.kernelTop = c.ctx.esp := by rw [kernelTop, hl]; rfl
    have hbytes : c.gateBytes = 20 := by rw [gateBytes, hl]; rfl
    rw [htop, hbytes] at hroom
    rw [if_neg (by omega)]
    exact enters_callSame handler hl (by omega)
  · have hpos : 0 < c.cpl := by omega
    have hbytes : c.gateBytes = 28 := by rw [gateBytes, if_pos hpos]
    rw [hbytes] at hroom
    rw [if_pos hpos]
    exact enters_callInner handler hpos h.args
      ((h.tss hpos).mono (span_mono _ (by omega)) Set.subset_union_left) (by omega)

/-- The C function is called by the kernel, with its arguments, on the stack of the kernel. -/
structure Calls (c : Cpu) (ret str color : Word) (e : Cpu) : Prop where
  level : e.cpl = 0
  ds : e.ctx.ds = kernelDataSeg.setWidth 16
  esp : e.ctx.esp = c.kernelTop - .ofNat 32 (c.gateBytes + 52)
  args : StackAt e.mem e.ctx.esp [ret, 2, str, color]
  tables : e.gdt = c.gdt ∧ e.tr = c.tr ∧ e.cr3 = c.cr3
  writes : WritesIn (span (c.ctx.esp - 12) 12 ∪
    span (c.kernelTop - .ofNat 32 (c.gateBytes + 52)) (c.gateBytes + 52)) c.mem e.mem

/-- The caller behind a call in which the C function was entered at `e`. -/
def served (f : Cdecl) (c e : Cpu) : Cpu :=
  { c with
    ctx := { c.ctx with eflags := (f.run e).ctx.eflags }
    mem := (f.run e).mem }

theorem length_oldStack (c : Cpu) : 4 * (14 + c.oldStack.length) = c.gateBytes + 36 := by
  rw [oldStack, gateBytes]
  split_ifs <;> rfl

theorem Enters.cpl {h : Cpu} (he : c.Enters str color h) : h.cpl = 0 := by
  have hcs : h.ctx.cs = kernelCodeSeg.setWidth 16 := congrArg Context.cs he.regs
  rw [Cpu.cpl, hcs]
  decide

/-- What the handler writes on entry. -/
theorem Enters.calls {h : Cpu} (he : c.Enters str color h)
    (hroom : c.gateBytes + 52 ≤ c.kernelTop.toNat) :
    c.Calls ret str color (h.handlerEnter ret) := by
  have hlow : (c.kernelTop - .ofNat 32 c.gateBytes).toNat = c.kernelTop.toNat - c.gateBytes := by
    have hlt := c.kernelTop.isLt
    bv_omega
  have hesp : 52 ≤ h.ctx.esp.toNat := by
    rw [he.esp, hlow]
    omega
  have hctx := ctx_handlerEnter ret h
  have hbase : h.ctx.esp - 52 = c.kernelTop - .ofNat 32 (c.gateBytes + 52) := by
    rw [he.esp]
    bv_omega
  have hgate : c.kernelTop - .ofNat 32 c.gateBytes =
      c.kernelTop - .ofNat 32 (c.gateBytes + 52) + .ofNat 32 52 := by bv_omega
  have hpushes := writesIn_handlerEnter ret hesp
  have hargs := he.stack.handlerEnter ret hesp
  obtain ⟨hgdt, htr, hcr3⟩ := tables_handlerEnter ret h
  rw [hbase] at hpushes
  generalize h.handlerEnter ret = e at *
  refine ⟨?_, ?_, ?_, ?_, ?_, ?_⟩
  · have hcpl := he.cpl
    rw [Cpu.cpl] at hcpl ⊢
    rw [hctx]
    exact hcpl
  · rw [hctx]
  · rw [hctx]
    exact hbase
  · exact StackAt.take [ret, 2, str, color] hargs
  · rw [hgdt, htr, hcr3]
    exact he.tables
  · refine (he.writes.mono (Set.union_subset_union_right _ ?_)).trans
      (hpushes.mono (Set.Subset.trans (span_mono _ (by omega)) Set.subset_union_right))
    rw [hgate]
    exact span_add_subset _ (by omega)

/-- One call returns to its caller, whose registers stay but for the flags. -/
theorem CanCall.sysShow_eq (hg : c.gdt.Gated handler) (h : c.CanCall f) (ret str color : Word) :
    ∃ e, c.Calls ret str color e ∧ c.sysShow f ret str color = some (c.served f e) := by
  obtain ⟨h', hcall, he⟩ := h.enters hg str color
  have hroom := h.room
  refine ⟨h'.handlerEnter ret, he.calls (by omega), ?_⟩
  have hlow : h'.ctx.esp.toNat = c.kernelTop.toNat - c.gateBytes := by
    have hlt := c.kernelTop.isLt
    rw [he.esp]
    bv_omega
  have hsaved : h'.ctx.esp - 36 = c.kernelTop - .ofNat 32 (c.gateBytes + 36) := by
    rw [he.esp]
    bv_omega
  have hapart : Disjoint (span (h'.ctx.esp - 36) (4 * (14 + c.oldStack.length))) f.data := by
    rw [hsaved, length_oldStack]
    exact h.data
  obtain ⟨hstack, heq⟩ := he.stack.handled f ret (by omega) hapart
  obtain ⟨hgdt, htr, hcr3⟩ := f.tables (h'.handlerEnter ret)
  obtain ⟨hgdt', htr', hcr3'⟩ := he.tables
  have hcs : (c.ctx.cs.setWidth 32).setWidth 16 = c.ctx.cs := by simp
  have hss : (c.ctx.ss.setWidth 32).setWidth 16 = c.ctx.ss := by simp
  have hcpl : (f.run (h'.handlerEnter ret)).handlerRestore.cpl = 0 := by
    have hcpl' := he.cpl
    rw [Cpu.cpl] at hcpl' ⊢
    rw [heq]
    exact hcpl'
  obtain ⟨hgdt'', htr'', hcr3''⟩ := tables_handlerEnter ret h'
  rw [hgdt'', hgdt'] at hgdt
  rw [htr'', htr'] at htr
  rw [hcr3'', hcr3'] at hcr3
  rw [sysShow, hcall, served]
  dsimp only
  generalize f.run (h'.handlerEnter ret) = r at *
  have hregs := he.regs
  rcases h.level with hl | hl
  · -- the return stays on the stack of the kernel
    have hold : c.oldStack = [] := by rw [oldStack, hl]; rfl
    have htop : c.kernelTop = c.ctx.esp := by rw [kernelTop, hl]; rfl
    have hbytes : c.gateBytes = 20 := by rw [gateBytes, hl]; rfl
    have hesp : h'.ctx.esp + .ofNat 32 (4 * (2 + 3)) = c.ctx.esp := by
      rw [he.esp, htop, hbytes]
      bv_omega
    have hback : rpl ((c.ctx.cs.setWidth 32).setWidth 16) = r.handlerRestore.cpl := by
      rw [hcs, hcpl]
      exact hl
    rw [he.ss hl] at hregs
    rw [hstack.retf_same hback, heq, hcs]
    generalize h'.ctx.eip = eip at hregs
    generalize h'.ctx.esp = esp at hregs hesp
    rw [hregs, hgdt, htr, hcr3]
    dsimp only
    rw [hesp]
  · -- the return goes back to the stack of the task
    have hpos : 0 < c.cpl := by omega
    have hold : c.oldStack = [c.ctx.esp - 12, c.ctx.ss.setWidth 32] := by
      rw [oldStack, if_pos hpos]
    have hesp : c.ctx.esp - 12 + .ofNat 32 (4 * 3) = c.ctx.esp := by bv_omega
    have hrpl : rpl ((c.ctx.cs.setWidth 32).setWidth 16) = 3 := by
      rw [hcs]
      exact hl
    rw [hold] at hstack
    have hret := hstack.retf_outer [2, str, color] (n := 3) (by rw [hcpl, hrpl]; decide) rfl
    rw [hret, heq, hrpl, hcs, hss, hesp]
    generalize h'.ctx.eip = eip at hregs
    generalize h'.ctx.esp = esp at hregs
    generalize h'.ctx.ss = ss at hregs
    rw [hregs, hgdt, htr, hcr3]
    dsimp only
    have hseg (sel : Selector) (hsel : sel ∈ [c.ctx.ds, c.ctx.es, c.ctx.fs, c.ctx.gs]) :
        outer c.gdt 3 sel = sel := outer_eq_self (h.segments hpos sel hsel)
    rw [hseg c.ctx.ds (by simp), hseg c.ctx.es (by simp), hseg c.ctx.fs (by simp),
      hseg c.ctx.gs (by simp)]

/-! ## Several calls -/

/-- The C function, and the call before it, write what a call may write. -/
theorem Calls.writesIn (f : Cdecl) (he : c.Calls ret str color e) :
    WritesIn (c.scratch f) c.mem (c.served f e).mem := by
  have hstack : c.kernelTop - .ofNat 32 (c.gateBytes + 52) =
      c.kernelTop - .ofNat 32 (c.gateBytes + 52 + f.depth) + .ofNat 32 f.depth := by bv_omega
  have hframe : e.ctx.esp - .ofNat 32 f.depth =
      c.kernelTop - .ofNat 32 (c.gateBytes + 52 + f.depth) := by
    rw [he.esp]
    bv_omega
  have hcall := he.writes
  have hrun := f.writes e
  rw [hstack] at hcall
  rw [hframe] at hrun
  refine (hcall.mono (Set.union_subset_union_right _ ?_)).trans (hrun.mono ?_)
  · exact Set.Subset.trans (span_add_subset _ (by omega)) Set.subset_union_left
  · exact Set.Subset.trans (Set.union_subset_union_left _ (span_mono _ (by omega)))
      Set.subset_union_right

/-- The next call finds what this one found. -/
theorem CanCall.served (h : c.CanCall f) (he : c.Calls ret str color e) :
    (c.served f e).CanCall f ∧ (c.served f e).scratch f = c.scratch f := by
  have hcpl : (c.served f e).cpl = c.cpl := rfl
  have hbytes : (c.served f e).gateBytes = c.gateBytes := by rw [gateBytes, gateBytes, hcpl]
  have hkeep (hpos : 0 < c.cpl) {a : Word} (ha : span a 4 ⊆ span (c.tssBase + 4) 8) :
      (c.served f e).mem.load32 a = c.mem.load32 a :=
    (he.writesIn f).load32_eq ((h.tss hpos).mono_left ha)
  have htop : (c.served f e).kernelTop = c.kernelTop := by
    rw [kernelTop, kernelTop, hcpl]
    split_ifs with hpos
    · exact hkeep hpos (span_mono _ (by omega))
    · rfl
  have hscratch : (c.served f e).scratch f = c.scratch f := by
    rw [scratch, scratch, htop, hbytes]
    rfl
  refine ⟨⟨h.level, ?_, h.args, ?_, fun hpos => ?_, fun hpos => ?_, h.segments⟩, hscratch⟩
  · rw [htop, hbytes]
    exact h.room
  · rw [htop, hbytes]
    exact h.data
  · have haddr : c.tssBase + 8 = c.tssBase + 4 + .ofNat 32 4 := by bv_omega
    have hss0 : span (c.tssBase + 8) 4 ⊆ span (c.tssBase + 4) 8 := by
      rw [haddr]
      exact span_add_subset _ (by omega)
    exact (hkeep hpos hss0).trans (h.ss0 hpos)
  · rw [hscratch]
    exact h.tss hpos

/-- A program that shows several strings, each with its colour. -/
def sysShows (f : Cdecl) (ret : Word) : List (Word × Word) → Cpu → Option Cpu
  | [], c => some c
  | a :: l, c => (c.sysShow f ret a.1 a.2).bind (sysShows f ret l)

/-- The C function runs for each string, and between the runs nothing happens. -/
inductive ServesAll (f : Cdecl) (ret : Word) : List (Word × Word) → Cpu → Cpu → Prop
  | nil (c : Cpu) : ServesAll f ret [] c c
  | cons {c e c' : Cpu} {a : Word × Word} {l : List (Word × Word)} :
      c.Calls ret a.1 a.2 e → ServesAll f ret l (c.served f e) c' → ServesAll f ret (a :: l) c c'

/-- Every call of `sys_show` returns, from the kernel as from a task, whatever the C function
does with the registers that a call may change. -/
theorem sysShows_returns (hg : c.gdt.Gated handler) (h : c.CanCall f) (ret : Word)
    (l : List (Word × Word)) :
    ∃ c', sysShows f ret l c = some c' ∧ ServesAll f ret l c c' ∧
      c'.ctx = { c.ctx with eflags := c'.ctx.eflags } ∧
      WritesIn (c.scratch f) c.mem c'.mem := by
  induction l generalizing c with
  | nil => exact ⟨c, rfl, .nil c, rfl, .refl _ _⟩
  | cons a l ih =>
    obtain ⟨e, hcalls, heq⟩ := h.sysShow_eq hg ret a.1 a.2
    obtain ⟨hnext, hscratch⟩ := h.served hcalls
    obtain ⟨c', hrest, hserves, hctx, hwrites⟩ := ih (c := c.served f e) hg hnext
    rw [hscratch] at hwrites
    refine ⟨c', ?_, .cons hcalls hserves, ?_, (hcalls.writesIn f).trans hwrites⟩
    · rw [sysShows, heq]
      exact hrest
    · rw [hctx]
      rfl

/-- A C function that draws one cell and spoils the registers that it may. -/
def drawsCell : Cdecl where
  run c := { c with
    ctx := { c.ctx with eax := 0, ecx := 1, edx := 2, eflags := 0x46, esp := c.ctx.esp + 4 }
    mem := c.mem.store16 0xb8000 0x0278 }
  depth := 0
  data := span 0xb8000 2
  esp _ := rfl
  saved _ := ⟨rfl, rfl, rfl, rfl⟩
  segments _ := ⟨rfl, rfl, rfl, rfl, rfl, rfl⟩
  tables _ := ⟨rfl, rfl, rfl⟩
  writes c := (writesIn_store16 c.mem _ _).mono Set.subset_union_right

/-- The first task, with a task state that names the stack at `0x105000`. -/
def inTask0 : Cpu where
  ctx := ⟨0x100040, 0x202, 0xa, 0xc, 0xd, 0xb, 0x203000, 1, 2, 3, appDataSeg, appCodeSeg,
    appDataSeg, appDataSeg, appDataSeg, appDataSeg⟩
  mem := ⟨fun a => if a = 0x104005 then 0x50 else if a = 0x104006 then 0x10
    else if a = 0x104008 then 0x10 else 0, []⟩
  gdt := .init 0x100200 ⟨0x104000, 0x106000, 0x108000⟩
  tr := task0TssSel
  cr3 := 0xa000

theorem canCall_inTask0 : inTask0.CanCall drawsCell := by
  have hcpl : inTask0.cpl = 3 := by decide
  have hbase : inTask0.tssBase = 0x104000 := by decide
  have htop : inTask0.kernelTop = 0x105000 := by decide
  have hbytes : inTask0.gateBytes = 28 := by decide
  have hdata : drawsCell.data = span 0xb8000 2 := rfl
  have hdepth : drawsCell.depth = 0 := rfl
  have hseg : isData inTask0.gdt 3 appDataSeg = true := by decide
  refine ⟨Or.inr hcpl, ?_, by decide, ?_, fun _ => by decide, fun _ => ?_, fun _ => ?_⟩
  · rw [hbytes, htop, hdepth]
    decide
  · rw [hbytes, htop, hdata]
    exact (disjoint_span_of_le (by decide) (by decide)).symm
  · rw [scratch, hbase, htop, hbytes, hdata, hdepth]
    exact (disjoint_span_of_le (by decide) (by decide)).union_right
      ((disjoint_span_of_le (by decide) (by decide)).union_right
        (disjoint_span_of_le (by decide) (by decide)).symm)
  · exact List.forall_mem_cons.mpr ⟨hseg, List.forall_mem_cons.mpr ⟨hseg,
      List.forall_mem_cons.mpr ⟨hseg, List.forall_mem_singleton.mpr hseg⟩⟩⟩

/-- Two calls of the first task. -/
theorem sysShows_returns_inTask0 :
    ∃ c', sysShows drawsCell 0x100220 [(0x101000, 2), (0x101010, 2)] inTask0 = some c' ∧
      ServesAll drawsCell 0x100220 [(0x101000, 2), (0x101010, 2)] inTask0 c' ∧
      c'.ctx = { inTask0.ctx with eflags := c'.ctx.eflags } ∧
      WritesIn (inTask0.scratch drawsCell) inTask0.mem c'.mem :=
  sysShows_returns (Gdt.gated_init _ _) canCall_inTask0 _ _

end Cpu

end DmfOs
