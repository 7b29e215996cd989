import DmfOs.Cpu.Sched

/-!
# The first task

The task states as `task.c` has them, and `to_task_0` of `init_as.S`, which makes the first
task the current one and returns to level 3 as if from an interrupt. It stands behind an
endless jump of `_start`; what is proved here is what happens once that jump is gone.
-/

namespace DmfOs

open Memory

namespace TaskImage

variable (img : TaskImage) (t : Task)

/-- The registers with which a task starts. -/
def first (t : Task) : Context where
  eip := img.entry t
  eflags := 0x202
  eax := 0xa
  ecx := 0xc
  edx := 0xd
  ebx := 0xb
  esp := img.stackDpl3 t + 4096
  ebp := 1
  esi := 2
  edi := 3
  es := appDataSeg
  cs := appCodeSeg
  ss := appDataSeg
  ds := appDataSeg
  fs := appDataSeg
  gs := appDataSeg

/-- `task0_tss` and `task1_tss`. -/
def tssWords (t : Task) : List Word :=
  [0, img.stackDpl1 t + 4096, kernelDataSeg, 0, 0, 0, 0,
    0xa000, img.entry t, 0x202, 0xa, 0xc, 0xd, 0xb,
    img.stackDpl3 t + 4096, 1, 2, 3,
    appDataSeg.setWidth 32, appCodeSeg.setWidth 32, appDataSeg.setWidth 32,
    appDataSeg.setWidth 32, appDataSeg.setWidth 32, appDataSeg.setWidth 32, 0, 0]

/-- The registers lie behind the stacks and the page directory. -/
theorem tssWords_eq : img.tssWords t =
    [0, img.esp0 t, kernelDataSeg, 0, 0, 0, 0, 0xa000] ++ ((img.first t).words ++ [0, 0]) := rfl

end TaskImage

namespace Cpu

/-- `ltr`; nothing where the processor faults. -/
def ltr (sel : Selector) (c : Cpu) : Option Cpu :=
  let e := c.gdt.entry sel
  if e.isSegment ∨ e.type ≠ 0b1001 ∨ ¬e.present then none
  else some { c with gdt := c.gdt.setBusy sel true, tr := sel }

/-- A value in the lower half of `eax`. -/
def movAx (sel : Selector) (c : Cpu) : Cpu :=
  { c with ctx := { c.ctx with eax := (c.ctx.eax &&& 0xffff0000) ||| sel.setWidth 32 } }

/-- `ax`. -/
def ax (c : Cpu) : Selector := c.ctx.eax.setWidth 16

/-- A selector in the registers for data; nothing where the processor faults. -/
def useData (sel : Selector) (c : Cpu) : Option Cpu :=
  if isData c.gdt c.cpl sel then
    some { c with ctx := { c.ctx with ds := sel, es := sel, gs := sel, fs := sel } }
  else none

/-- `to_task_0`. -/
def toTask0 (img : TaskImage) (toDpl3 : Word) (c : Cpu) : Option Cpu := do
  let c := c.movAx task0TssSel
  let c ← c.ltr c.ax
  let c := c.movAx appDataSeg
  let c ← c.useData c.ax
  (c.pushAll [appDataSeg.setWidth 32, img.stackDpl3 .task0 + 4096, 0x202,
    appCodeSeg.setWidth 32, toDpl3]).iret

end Cpu

/-- The processor before `to_task_0`, on a stack of its own. -/
structure TaskLayout.Booted (L : TaskLayout) (c : Cpu) : Prop where
  gdt : c.gdt = L.gdt
  cr3 : c.cr3 = 0xa000
  cpl : c.cpl = 0
  nested : c.ctx.eflags.getLsbD 14 = false
  states : ∀ t, StackAt c.mem (L.tss t) (L.tssWords t)
  var : c.mem.load32 L.taskTss = task0TssSel.setWidth 32
  room : 20 ≤ c.ctx.esp.toNat
  stack : ∀ t, Disjoint (span L.taskTss 4 ∪ L.area t) (span (c.ctx.esp - 20) 20)

/-! ## The start -/

/-- The state of a task that is not the current one may be loaded. -/
theorem Cpu.ltr_eq {c : Cpu} {sel : Selector} {limit : BitVec 16} {access : Byte} {tss : Word}
    (hentry : c.gdt.entry sel = .ofTss limit access tss)
    (haccess : access ∈ [0x89, 0xe9]) :
    c.ltr sel = some { c with gdt := c.gdt.setBusy sel true, tr := sel } := by
  obtain ⟨hsys, htype, hpresent⟩ := GdtEntry.available_ofTss limit tss haccess
  have hcond : ¬((GdtEntry.ofTss limit access tss).isSegment = true ∨
      (GdtEntry.ofTss limit access tss).type ≠ 0b1001 ∨
      ¬(GdtEntry.ofTss limit access tss).present = true) := by
    rw [hsys, htype, hpresent]
    decide
  rw [ltr, hentry, if_neg hcond]

namespace TaskImage

variable (img : TaskImage)

/-- `_start` loads the state of the kernel before. -/
theorem ltr_kernelTss {c : Cpu} (hgdt : c.gdt = .init img.syscallHandler img.states) :
    c.ltr (kernelTssSel.setWidth 16) =
      some { c with gdt := img.gdt, tr := kernelTssSel.setWidth 16 } := by
  have hentry : c.gdt.entry (kernelTssSel.setWidth 16) =
      .ofTss 0xffff 0x89 img.states.kernelTss := by
    rw [hgdt]
    rfl
  rw [Cpu.ltr_eq hentry (by decide), hgdt]
  rfl

/-- The segments of the tasks. -/
theorem valid_app {x : Context} (hcs : x.cs = appCodeSeg) (hss : x.ss = appDataSeg)
    (hdata : x.ds = appDataSeg ∧ x.es = appDataSeg ∧ x.fs = appDataSeg ∧ x.gs = appDataSeg) :
    x.valid img.gdt = true := by
  have hcode : img.gdt.entry appCodeSeg = Gdt.os 3 := rfl
  have hentry : img.gdt.entry appDataSeg = Gdt.os 4 := rfl
  obtain ⟨hds, hes, hfs, hgs⟩ := hdata
  rw [Context.valid, hcs, hss, hds, hes, hfs, hgs]
  simp only [List.all_cons, List.all_nil, isCode, isStack, isData, hcode, hentry]
  decide

end TaskImage

namespace TaskLayout

variable {L : TaskLayout} {c : Cpu} {toDpl3 : Word} {x : Context} {t : Task}

/-- A task at level 3 with interrupts on can be interrupted. -/
theorem interruptible_app (hcs : x.cs = appCodeSeg) (hss : x.ss = appDataSeg)
    (hdata : x.ds = appDataSeg ∧ x.es = appDataSeg ∧ x.fs = appDataSeg ∧ x.gs = appDataSeg)
    (heflags : x.eflags = 0x202) : L.Interruptible t x := by
  refine ⟨L.valid_app hcs hss hdata, by rw [heflags]; decide, by rw [heflags]; decide,
    fun hzero => ?_⟩
  rw [hcs] at hzero
  exact absurd hzero (by decide)

/-- What `to_task_0` leaves in the registers. -/
def started (L : TaskLayout) (toDpl3 : Word) (x : Context) : Context :=
  { x with
    eip := toDpl3, eflags := 0x202, esp := L.stackDpl3 .task0 + 4096
    eax := (((x.eax &&& 0xffff0000) ||| task0TssSel.setWidth 32) &&& 0xffff0000) |||
      appDataSeg.setWidth 32
    es := appDataSeg, cs := appCodeSeg, ss := appDataSeg, ds := appDataSeg, fs := appDataSeg
    gs := appDataSeg }

/-- The words of the stack that `to_task_0` returns from. -/
theorem interruptStack_started (L : TaskLayout) (toDpl3 : Word) (x : Context) :
    (L.started toDpl3 x).interruptStack = [toDpl3, appCodeSeg.setWidth 32, 0x202,
      L.stackDpl3 .task0 + 4096, appDataSeg.setWidth 32] := by
  have hlevel : 0 < rpl (L.started toDpl3 x).cs := show 0 < rpl appCodeSeg by decide
  rw [Context.interruptStack, if_pos hlevel]
  rfl

/-- What `to_task_0` does before it pushes. -/
theorem Booted.load (h : L.Booted c) :
    ∃ k : Cpu, ((c.movAx task0TssSel).ltr (c.movAx task0TssSel).ax).bind
        (fun c => (c.movAx appDataSeg).useData (c.movAx appDataSeg).ax) = some k ∧
      k.ctx = { L.started 0 c.ctx with
        eip := c.ctx.eip, eflags := c.ctx.eflags, esp := c.ctx.esp, cs := c.ctx.cs
        ss := c.ctx.ss } ∧
      k.mem = c.mem ∧ k.gdt = L.busy .task0 ∧ k.tr = task0TssSel ∧ k.cr3 = 0xa000 := by
  have hentry : (c.movAx task0TssSel).gdt.entry task0TssSel = .ofTss 0x86 0xe9 (L.tss .task0) := by
    have hgdt : (c.movAx task0TssSel).gdt = L.gdt := h.gdt
    rw [hgdt]
    exact L.entry_sel .task0
  have hbusy : (c.movAx task0TssSel).gdt.setBusy task0TssSel true = L.busy .task0 :=
    congrArg (Gdt.setBusy task0TssSel true) h.gdt
  have hax (k : Cpu) (sel : Selector) : (k.movAx sel).ax = sel :=
    setWidth_replace_half k.ctx.eax sel
  have hvalid : (L.first .task0).valid (L.busy .task0) = true := by
    rw [L.valid_busy]
    exact L.valid_app rfl rfl ⟨rfl, rfl, rfl, rfl⟩
  have hdata : isData (L.busy .task0) 0 appDataSeg = true :=
    isData_mono (Context.valid.data hvalid appDataSeg (List.mem_cons_self ..)) (Nat.zero_le _)
  have hcpl : rpl c.ctx.cs = 0 := h.cpl
  rw [hax, Cpu.ltr_eq hentry (by decide), Option.bind_some, hax, Cpu.useData, hbusy]
  refine ⟨_, if_pos ?_, rfl, rfl, rfl, rfl, h.cr3⟩
  show isData (L.busy .task0) (rpl c.ctx.cs) appDataSeg = true
  rw [hcpl, hdata]

/-- `to_task_0` comes to level 3 with the first task running and the second one waiting. -/
theorem Booted.toTask0_eq (h : L.Booted c) (toDpl3 : Word) :
    ∃ c', c.toTask0 L.toTaskImage toDpl3 = some c' ∧ c'.ctx = L.started toDpl3 c.ctx ∧
      L.Running .task0 c' ∧ L.Suspended c'.mem .task1 (L.first .task1) := by
  obtain ⟨k, hload, hctx, hmem, hgdt, htr, hcr3⟩ := h.load
  obtain ⟨c₁, hltr, hdata⟩ := Option.bind_eq_some_iff.mp hload
  have hesp : k.ctx.esp = c.ctx.esp := by rw [hctx]
  have hroom : 4 * (L.started toDpl3 c.ctx).interruptStack.reverse.length ≤ k.ctx.esp.toNat := by
    rw [hesp, interruptStack_started]
    exact h.room
  have hlist : (L.started toDpl3 c.ctx).interruptStack.reverse = [appDataSeg.setWidth 32,
      L.stackDpl3 .task0 + 4096, 0x202, appCodeSeg.setWidth 32, toDpl3] := by
    rw [interruptStack_started]
    rfl
  have hstack := Cpu.HasStack.pushAll _ (StackAt.nil k.mem k.ctx.esp) hroom
  have hwrites : WritesIn (span (c.ctx.esp - 20) 20) c.mem
      (k.pushAll (L.started toDpl3 c.ctx).interruptStack.reverse).mem := by
    have hpushes := Cpu.writesIn_pushAll k _ hroom
    rw [hmem, hesp] at hpushes
    rw [interruptStack_started] at hpushes ⊢
    exact hpushes
  have hctx' := Cpu.ctx_pushAll k (L.started toDpl3 c.ctx).interruptStack.reverse
  have htables := Cpu.tables_pushAll k (L.started toDpl3 c.ctx).interruptStack.reverse
  rw [List.reverse_reverse, List.append_nil] at hstack
  rw [hgdt, htr, hcr3] at htables
  have heq : c.toTask0 L.toTaskImage toDpl3 =
      (k.pushAll (L.started toDpl3 c.ctx).interruptStack.reverse).iret := by
    rw [Cpu.toTask0, hlist]
    dsimp only [Option.bind_eq_bind]
    rw [hltr, Option.bind_some, hdata, Option.bind_some]
  rw [heq]
  generalize k.pushAll (L.started toDpl3 c.ctx).interruptStack.reverse = k' at *
  obtain ⟨hgdt', htr', hcr3'⟩ := htables
  -- the return to level 3
  have hx : L.Interruptible .task0 (L.started toDpl3 c.ctx) :=
    interruptible_app rfl rfl ⟨rfl, rfl, rfl, rfl⟩ rfl
  have hcpl : k'.cpl = 0 := by
    rw [Cpu.cpl, hctx', hctx]
    exact h.cpl
  have hnested : k'.ctx.eflags.getLsbD 14 = false := by
    rw [hctx', hctx]
    exact h.nested
  have hvalid : (L.started toDpl3 c.ctx).valid k'.gdt = true := by
    rw [hgdt', L.valid_busy, hx.valid]
  have hiret := hstack.iret_eq hcpl hnested hx.vm hvalid (by rw [hctx', hctx]; rfl)
    (fun hzero => absurd (show rpl appCodeSeg = 0 from hzero) (by decide))
  -- the states of the tasks are not on this stack
  have happart (t : Task) : Disjoint (L.area t) (span (c.ctx.esp - 20) 20) :=
    (h.stack t).mono_left Set.subset_union_right
  have hheader (u : Task) : Disjoint (span (L.tss u) 32) (span (c.ctx.esp - 20) 20) :=
    (happart u).mono_left (Set.Subset.trans (span_mono _ (by decide)) Set.subset_union_left)
  have hword (u : Task) (i : Nat) {v : Word} (hi : i < 8) (hv : (L.tssWords u)[i]? = some v) :
      k'.mem.load32 (L.tss u + .ofNat 32 (4 * i)) = v := by
    obtain ⟨hlt, hv⟩ := List.getElem?_eq_some_iff.mp hv
    rw [load32_tss hwrites hheader u (by omega), (h.states u).words i hlt, hv]
  refine ⟨_, hiret, rfl, ?_, ?_⟩
  · exact {
      gdt := hgdt'
      tr := htr'
      cr3 := hcr3'
      var := (hwrites.load32_eq ((h.stack .task0).mono_left Set.subset_union_left)).trans h.var
      esp0 := fun u => hword u 1 (by decide) rfl
      ss0 := fun u => hword u 2 (by decide) rfl
      page := fun u => hword u 7 (by decide) rfl
      interruptible := hx }
  · have hwords := (h.states .task1).frame hwrites
      ((happart .task1).mono_left Set.subset_union_left)
    rw [L.tssWords_eq] at hwords
    exact .fresh (interruptible_app rfl rfl ⟨rfl, rfl, rfl, rfl⟩ rfl)
      (show appCodeSeg ≠ kernelCodeSeg.setWidth 16 by decide)
      (hwords.drop [0, L.esp0 .task1, kernelDataSeg, 0, 0, 0, 0, 0xa000]).take

/-! ## The system from there on -/

/-- The two tasks at the start. -/
def begin (L : TaskLayout) (x : Context) : TwoTasks where
  current := .task0
  ctx := Function.update L.first .task0 x
  due := false

variable {irq : Irq} {c' : Cpu} {s s' : Sys} {is js : List SchedEvent}

/-- After `irq_init` and `to_task_0` the processor holds them. -/
theorem Booted.holds (h : L.Booted c) (hzero : (irq.idt 0x20).zero = 0) (toDpl3 : Word) :
    ∃ c', c.toTask0 L.toTaskImage toDpl3 = some c' ∧
      L.Holds (L.begin c'.ctx) ⟨c', irq.irqInit L.timerInt⟩ := by
  obtain ⟨c', hstart, -, hrunning, hwaiting⟩ := h.toTask0_eq toDpl3
  refine ⟨c', hstart, ?_⟩
  exact {
    running := hrunning
    ctx := by
      show c'.ctx = Function.update L.first .task0 c'.ctx .task0
      rw [Function.update_self]
    waiting := hwaiting
    irq := Irq.programmed_irqInit L.timerInt irq
    gate := by
      show ((irq.irqInit L.timerInt).idt 0x20).LeadsTo L.timerInt
      rw [Irq.idt_irqInit]
      exact Idt.leadsTo_setIdtEntry hzero }

/-- From `to_task_0` on the two tasks take turns, whatever they compute: each tick that is due
comes through, no other does, and neither task sees the ticks in its registers. -/
theorem toTask0_refines (h : L.Booted c) (hzero : (irq.idt 0x20).zero = 0) (toDpl3 : Word) :
    ∃ c', c.toTask0 L.toTaskImage toDpl3 = some c' ∧
      ∀ is s, Reach (Sys.Step L) ⟨c', irq.irqInit L.timerInt⟩ is s →
        s.cpu.tr = (is.foldl SchedEvent.current .task0).sel ∧
        ((∃ s', s.tick L.toTaskImage = some s') ↔ is.foldl SchedEvent.due false = true) ∧
        ∃ a, Reach TwoTasks.Step (L.begin c'.ctx) is a ∧ s.cpu.ctx = a.ctx a.current := by
  obtain ⟨c', hstart, hholds⟩ := h.holds hzero toDpl3
  refine ⟨c', hstart, fun is s hr => ?_⟩
  obtain ⟨a, ha, hs⟩ := hholds.run hr
  have hcurrent : a.current = is.foldl SchedEvent.current .task0 := TwoTasks.current_of_reach ha
  have hdue : a.due = is.foldl SchedEvent.due false := TwoTasks.due_of_reach ha
  refine ⟨hs.running.tr.trans (congrArg Task.sel hcurrent), ?_, a, ha, hs.ctx⟩
  rw [← hdue]
  constructor
  · rintro ⟨s', htick⟩
    by_contra hnot
    rw [hs.tick_eq_none (Bool.eq_false_of_not_eq_true hnot)] at htick
    cases htick
  · intro hdue'
    obtain ⟨s', htick, -⟩ := hs.tick hdue'
    exact ⟨s', htick⟩

/-- A program in which the states and the stacks lie one behind the other. -/
def rows : TaskLayout where
  syscallHandler := 0x100200
  timerInt := 0x100300
  states := ⟨0x104000, 0x106000, 0x108000⟩
  stackDpl1
    | .task0 => 0x105000
    | .task1 => 0x107000
  stackDpl3
    | .task0 => 0x10a000
    | .task1 => 0x10b000
  entry
    | .task0 => 0x100040
    | .task1 => 0x100080
  taskTss := 0x109000
  afterSched := 0x10031a
  afterJump := 0x100440
  frame x := [x.ebp]
  depth := 1
  length_frame _ := rfl
  room := by decide
  tss_fits t := by cases t <;> decide
  stack_fits t := by cases t <;> decide
  tss_stack t := by cases t <;> exact disjoint_span_of_le (by decide) (by decide)
  areas := by
    have hapart {a b : Word} {n k : Nat} (ha : a.toNat + n ≤ 0x106000) (hb : 0x106000 ≤ b.toNat)
        (hk : b.toNat + k ≤ 2 ^ 32) : Disjoint (span a n) (span b k) :=
      disjoint_span_of_le (ha.trans hb) hk
    exact Set.disjoint_union_left.mpr ⟨Set.disjoint_union_right.mpr
        ⟨hapart (by decide) (by decide) (by decide), hapart (by decide) (by decide) (by decide)⟩,
      Set.disjoint_union_right.mpr
        ⟨hapart (by decide) (by decide) (by decide), hapart (by decide) (by decide) (by decide)⟩⟩
  var t := by
    cases t <;> exact (Set.disjoint_union_left.mpr ⟨disjoint_span_of_le (by decide) (by decide),
      disjoint_span_of_le (by decide) (by decide)⟩).symm

/-- The processor before `to_task_0` of it. -/
def inBoot : Cpu where
  ctx := ⟨0x100010, 0x2, 0, 0, 0, 0, 0x7c00, 0, 0, 0, 0x10, 8, 0x10, 0x10, 0x10, 0x10⟩
  mem := (((⟨fun _ => 0, []⟩ : Memory).storeWords 0x104000 (rows.tssWords .task0)).storeWords
    0x106000 (rows.tssWords .task1)).store32 0x109000 0x28
  gdt := rows.gdt
  tr := kernelTssSel.setWidth 16
  cr3 := 0xa000

theorem booted_inBoot : rows.Booted inBoot := by
  have hlen (t : Task) : (rows.tssWords t).length = 26 := rfl
  have hvar := writesIn_store32 (((⟨fun _ => 0, []⟩ : Memory).storeWords 0x104000
    (rows.tssWords .task0)).storeWords 0x106000 (rows.tssWords .task1)) 0x109000 0x28
  have hsecond := StackAt.writesIn_storeWords ((⟨fun _ => 0, []⟩ : Memory).storeWords 0x104000
    (rows.tssWords .task0)) 0x106000 (rows.tssWords .task1)
  refine ⟨rfl, rfl, by decide, by decide, fun t => ?_, load32_store32_self _ _ _, by decide,
    fun t => ?_⟩
  · cases t with
    | task0 =>
      have hfirst : StackAt ((⟨fun _ => 0, []⟩ : Memory).storeWords 0x104000
          (rows.tssWords .task0)) 0x104000 (rows.tssWords .task0) :=
        StackAt.storeWords _ (by rw [hlen]; decide)
      exact (hfirst.frame hsecond (disjoint_span_of_le (by decide) (by decide))).frame hvar
        (disjoint_span_of_le (by decide) (by decide))
    | task1 =>
      exact (StackAt.storeWords _ (by rw [hlen]; decide)).frame hvar
        (disjoint_span_of_le (by decide) (by decide))
  · cases t <;> exact (Set.disjoint_union_right.mpr
      ⟨disjoint_span_of_le (by decide) (by decide), Set.disjoint_union_right.mpr
        ⟨disjoint_span_of_le (by decide) (by decide),
          disjoint_span_of_le (by decide) (by decide)⟩⟩).symm

/-- The first tick of it. -/
theorem toTask0_refines_inBoot :
    ∃ c' s, inBoot.toTask0 rows.toTaskImage 0x100030 = some c' ∧
      Reach (Sys.Step rows) ⟨c', Irq.halfWay.irqInit rows.timerInt⟩
        ([] ++ [.raise 0] ++ [.tick]) s ∧
      s.cpu.tr = task1TssSel ∧ s.cpu.ctx = rows.first .task1 := by
  have hzero : (Irq.halfWay.idt 0x20).zero = 0 := rfl
  obtain ⟨c', hstart, hall⟩ := toTask0_refines booted_inBoot hzero 0x100030
  have hraise := Reach.snoc (R := Sys.Step rows) .nil
    (.raise ⟨c', Irq.halfWay.irqInit rows.timerInt⟩ 0)
  obtain ⟨-, hdue, -⟩ := hall _ _ hraise
  obtain ⟨s, htick⟩ := hdue.mpr rfl
  have hr := hraise.snoc (.tick htick)
  obtain ⟨htr, -, a, ha, hctx⟩ := hall _ _ hr
  have hcurrent : a.current = .task1 := TwoTasks.current_of_reach ha
  refine ⟨c', s, hstart, hr, htr, ?_⟩
  rw [hctx, hcurrent]
  refine TwoTasks.ctx_of_reach (t := .task1) ha fun js x ks heq => ?_
  have hmem : SchedEvent.work x ∈ js ++ .work x :: ks := List.mem_append_cons_self
  rw [← heq] at hmem
  simp at hmem

/-- A task that was stopped at any instruction finds all its registers again when it runs the
next time. -/
theorem toTask0_keepsRegisters (h : L.Booted c) (hzero : (irq.idt 0x20).zero = 0)
    (hstart : c.toTask0 L.toTaskImage toDpl3 = some c')
    (hr : Reach (Sys.Step L) ⟨c', irq.irqInit L.timerInt⟩ is s) (ht : s.cpu.tr = t.sel)
    (hr' : Reach (Sys.Step L) s js s') (hback : js.foldl SchedEvent.current t = t)
    (hidle : ∀ ks x ls, js = ks ++ .work x :: ls → ks.foldl SchedEvent.current t ≠ t) :
    s'.cpu.tr = t.sel ∧ s'.cpu.ctx = s.cpu.ctx := by
  obtain ⟨k, hk, hholds⟩ := h.holds hzero toDpl3
  obtain rfl : c' = k := Option.some.inj (hstart.symm.trans hk)
  obtain ⟨a, -, hs⟩ := hholds.run hr
  obtain rfl : a.current = t := Task.sel_injective (hs.running.tr.symm.trans ht)
  obtain ⟨a', ha', hs'⟩ := hs.run hr'
  have hcurrent : a'.current = a.current := (TwoTasks.current_of_reach ha').trans hback
  refine ⟨hs'.running.tr.trans (congrArg Task.sel hcurrent), ?_⟩
  rw [hs'.ctx, hs.ctx, hcurrent]
  exact TwoTasks.ctx_of_reach ha' hidle

/-- Two ticks after the start of the program above. -/
theorem toTask0_keepsRegisters_inBoot :
    ∃ c' s', inBoot.toTask0 rows.toTaskImage 0x100030 = some c' ∧
      Reach (Sys.Step rows) ⟨c', Irq.halfWay.irqInit rows.timerInt⟩
        [.raise 0, .tick, .raise 0, .tick] s' ∧
      s'.cpu.tr = task0TssSel ∧ s'.cpu.ctx = c'.ctx := by
  have hzero : (Irq.halfWay.idt 0x20).zero = 0 := rfl
  obtain ⟨c', hstart, hholds⟩ := booted_inBoot.holds hzero 0x100030
  obtain ⟨s, hr, hs⟩ := hholds.raise_tick
  obtain ⟨s', hr', -⟩ := hs.raise_tick
  have hall := hr.append hr'
  refine ⟨c', s', hstart, hall, ?_⟩
  refine toTask0_keepsRegisters (t := .task0) booted_inBoot hzero hstart .nil hholds.running.tr hall
    rfl fun js x ks heq => ?_
  have hmem : SchedEvent.work x ∈ js ++ .work x :: ks := List.mem_append_cons_self
  rw [← heq] at hmem
  simp at hmem

end TaskLayout

end DmfOs
