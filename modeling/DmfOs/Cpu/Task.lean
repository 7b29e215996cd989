import DmfOs.Cpu.Interrupt
import DmfOs.Cpu.TaskState
import DmfOs.Io.Pic

/-!
# The tasks

`timer_int` of `irq_as.S` with `task_sched` of `task.c`: each tick of the timer stops the
running task on its stack of the kernel and jumps to the state of the other one, which
goes on where it was stopped, or at its entry.
-/

namespace DmfOs

open Memory

/-- The tasks of `task.c`. -/
inductive Task where
  | task0
  | task1
  deriving DecidableEq, Repr

namespace Task

/-- The task that runs after this one. -/
def other : Task → Task
  | task0 => task1
  | task1 => task0

/-- `TASK_0_TSS` and `TASK_1_TSS`. -/
def sel : Task → Selector
  | task0 => task0TssSel
  | task1 => task1TssSel

@[simp] theorem other_other (t : Task) : t.other.other = t := by cases t <;> rfl

theorem other_ne (t : Task) : t.other ≠ t := by cases t <;> decide

theorem eq_other {t u : Task} (h : u ≠ t) : u = t.other := by
  cases t <;> cases u
  · exact absurd rfl h
  · rfl
  · rfl
  · exact absurd rfl h

theorem sel_injective : Function.Injective sel := by
  intro t u h
  cases t <;> cases u
  · rfl
  · exact absurd h (by decide)
  · exact absurd h (by decide)
  · rfl

end Task

/-- The addresses of the tasks, and what the compiler makes of `task_sched`. -/
structure TaskImage where
  syscallHandler : Word
  timerInt : Word
  states : TaskStates
  /-- `task_0_stack_dpl1` and `task_1_stack_dpl1`. -/
  stackDpl1 : Task → Word
  /-- `task_0_stack_dpl3` and `task_1_stack_dpl3`. -/
  stackDpl3 : Task → Word
  /-- `task_0_entry` and `task_1_entry`. -/
  entry : Task → Word
  /-- The static variable of `task_sched`. -/
  taskTss : Word
  /-- Where `task_sched` returns to. -/
  afterSched : Word
  /-- Where a task that was stopped goes on. -/
  afterJump : Word
  /-- What `task_sched` has on the stack besides the operand of the jump. -/
  frame : Context → List Word
  depth : Nat

namespace TaskImage

variable (img : TaskImage)

/-- `task0_tss` and `task1_tss`. -/
def tss : Task → Word
  | .task0 => img.states.task0Tss
  | .task1 => img.states.task1Tss

/-- The end of the stack on which a task enters the kernel. -/
def esp0 (t : Task) : Word := img.stackDpl1 t + 4096

/-- The state and the stack of a task. -/
def area (t : Task) : Set Word := span (img.tss t) 104 ∪ span (img.stackDpl1 t) 4096

/-- The table once `_start` has loaded the state of the kernel, which stays marked as the
current one. -/
def gdt : Gdt := (Gdt.init img.syscallHandler img.states).setBusy (kernelTssSel.setWidth 16) true

end TaskImage

/-- Objects of a program do not overlap, and the stacks are deep enough. -/
structure TaskLayout extends TaskImage where
  length_frame : ∀ x, (frame x).length = depth
  room : 4 * (20 + depth) ≤ 4096
  tss_fits : ∀ t, (toTaskImage.tss t).toNat + 104 ≤ 2 ^ 32
  stack_fits : ∀ t, (stackDpl1 t).toNat + 4096 < 2 ^ 32
  tss_stack : ∀ t, Disjoint (span (toTaskImage.tss t) 104) (span (stackDpl1 t) 4096)
  areas : Disjoint (toTaskImage.area .task0) (toTaskImage.area .task1)
  var : ∀ t, Disjoint (span taskTss 4) (toTaskImage.area t)

namespace Cpu

/-- The choice of `task_sched`. -/
def chooseTask (img : TaskImage) (c : Cpu) : Cpu :=
  let next : Selector :=
    if c.mem.load32 img.taskTss = task0TssSel.setWidth 32 then task1TssSel else task0TssSel
  { c with mem := c.mem.store32 img.taskTss (next.setWidth 32) }

/-- The array of `ljmp`. -/
def pushOperand (img : TaskImage) (c : Cpu) : Cpu := (c.push (c.mem.load32 img.taskTss)).push 0

/-- `task_sched` up to the jump, with the call of it. -/
def taskSched (img : TaskImage) (c : Cpu) : Option Cpu :=
  let c := c.push img.afterSched
  let c := c.pushAll (img.frame c.ctx)
  let c := (c.chooseTask img).pushOperand img
  let c := { c with ctx := { c.ctx with eip := img.afterJump } }
  c.jumpTask ((c.mem.load32 (c.ctx.esp + 4)).setWidth 16)

/-- `task_sched` behind the jump. -/
def taskSchedReturn (img : TaskImage) (c : Cpu) : Cpu :=
  let c := c.dropWords (2 + img.depth)
  { c with ctx := { c.ctx with eip := c.mem.load32 c.ctx.esp } }.dropWords 1

/-- A byte in the lowest part of `eax`. -/
def movAl (v : Byte) (c : Cpu) : Cpu :=
  { c with ctx := { c.ctx with eax := (c.ctx.eax &&& 0xffffff00) ||| v.setWidth 32 } }

/-- The data segment of the kernel in `ds`, by way of `eax`. -/
def useKernelData (c : Cpu) : Cpu :=
  let c := { c with ctx := { c.ctx with eax := (c.ctx.eax &&& 0xffff0000) ||| kernelDataSeg } }
  { c with ctx := { c.ctx with ds := c.ctx.eax.setWidth 16 } }

/-- What runs after the jump: a task that was stopped goes on to the end of `timer_int`, any
other at once. -/
def resume (img : TaskImage) (c : Cpu) : Option Cpu :=
  if c.ctx.cs = kernelCodeSeg.setWidth 16 ∧ c.ctx.eip = img.afterJump then
    let c := c.taskSchedReturn img
    if c.ctx.eip = img.afterSched then c.restoreAll.bind iret else none
  else some c

end Cpu

/-- The processor and the devices. -/
structure Sys where
  cpu : Cpu
  irq : Irq

namespace Sys

/-- `timer_int`, up to its end in whichever task it is that runs then. -/
def timerInt (img : TaskImage) (s : Sys) : Option Sys := do
  let cpu := s.cpu.saveAll.movAl 0x20
  let irq := s.irq.outb 0x20 (cpu.ctx.eax.setWidth 8)
  let cpu ← cpu.useKernelData.taskSched img
  let cpu ← cpu.resume img
  some ⟨cpu, irq⟩

/-- The processor takes an interrupt of the timer; nothing where there is none, where it is
switched off or where something faults. -/
def tick (img : TaskImage) (s : Sys) : Option Sys :=
  if s.cpu.ctx.eflags.getLsbD 9 then do
    let (v, irq) ← s.irq.accept
    let cpu ← s.cpu.interrupt (irq.idt v)
    if cpu.ctx.eip = img.timerInt then timerInt img ⟨cpu, irq⟩ else none
  else none

end Sys

/-! ## The table -/

namespace TaskImage

variable (img : TaskImage) (t : Task)

/-- The table while a task is the current one. -/
def busy (t : Task) : Gdt := img.gdt.setBusy t.sel true

theorem flat_gdt : img.gdt.Flat := by
  have hflat := (Gdt.gated_init img.syscallHandler img.states).toFlat
  exact ⟨hflat.code, hflat.data⟩

/-- What `task_init` wrote for a task. -/
theorem entry_sel : img.gdt.entry t.sel = .ofTss 0x86 0xe9 (img.tss t) := by
  cases t <;> rfl

theorem isSegment_sel : (img.gdt.entry t.sel).isSegment = false := by
  rw [entry_sel]
  exact (GdtEntry.available_ofTss 0x86 (img.tss t) (by decide)).1

theorem flat_busy : (img.busy t).Flat := by
  have hflat := img.flat_gdt
  cases t <;> exact ⟨hflat.code, hflat.data⟩

theorem valid_busy (x : Context) : x.valid (img.busy t) = x.valid img.gdt :=
  Context.valid_setBusy (img.isSegment_sel t) true x

/-- The state of the other task is not the current one. -/
theorem entry_busy_other :
    (img.busy t).entry t.other.sel = .ofTss 0x86 0xe9 (img.tss t.other) := by
  have hindex : ¬t.other.sel.toNat / 8 % 256 = t.sel.toNat / 8 % 256 := by cases t <;> decide
  rw [busy, Gdt.entry_setBusy, if_neg hindex]
  exact img.entry_sel t.other

theorem base_busy : ((img.busy t).entry t.sel).base = img.tss t := by
  rw [busy, Gdt.entry_setBusy, if_pos rfl, img.entry_sel t]
  exact GdtEntry.base_ofTss _ _ _

/-- The switch from a task to the other one. -/
theorem busy_switch :
    ((img.busy t).setBusy t.sel false).setBusy t.other.sel true = img.busy t.other := by
  have hclear : (img.busy t).setBusy t.sel false = img.gdt := by
    funext i
    rw [busy, Gdt.setBusy, Gdt.setBusy]
    split_ifs with hi
    · have hentry : img.gdt i = .ofTss 0x86 0xe9 (img.tss t) := by
        rw [← img.entry_sel t]
        refine congrArg img.gdt (Fin.ext ?_)
        rw [hi]
        cases t <;> rfl
      have haccess : (0xe9 ||| 2 : Byte) &&& ~~~2 = 0xe9 := by decide
      rw [hentry]
      exact congrArg (fun a => { GdtEntry.ofTss 0x86 0xe9 (img.tss t) with access := a }) haccess
    · rfl
  rw [hclear]
  rfl

end TaskImage

namespace TaskLayout

variable (L : TaskLayout)

theorem disjoint_areas {t u : Task} (h : t ≠ u) : Disjoint (L.area t) (L.area u) := by
  cases t <;> cases u
  · exact absurd rfl h
  · exact L.areas
  · exact L.areas.symm
  · exact absurd rfl h

/-- A part of the state of a task. -/
theorem tss_subset (t : Task) {k n : Nat} (h : k + n ≤ 104) :
    span (L.tss t + .ofNat 32 k) n ⊆ L.area t :=
  Set.Subset.trans (span_add_subset _ h) Set.subset_union_left

/-- A part of the stack of a task. -/
theorem stack_subset (t : Task) {a : Word} {n : Nat}
    (hlow : (L.stackDpl1 t).toNat ≤ a.toNat)
    (hhigh : a.toNat + n ≤ (L.stackDpl1 t).toNat + 4096) :
    span a n ⊆ span (L.stackDpl1 t) 4096 := by
  have hfits := L.stack_fits t
  intro x hx
  rw [mem_span_iff (by omega)] at hx ⊢
  omega

/-- The variable of `task_sched` is not on a stack. -/
theorem disjoint_var_stack (t : Task) :
    Disjoint (span L.taskTss 4) (span (L.stackDpl1 t) 4096) :=
  (L.var t).mono_right Set.subset_union_right

end TaskLayout

namespace Cpu

variable {L : TaskLayout} {t : Task} {c : Cpu} {ws : List Word}

/-- The processor leaves one task and loads the other one. -/
theorem jumpTask_eq {z : Context} {v : Word} (hgdt : c.gdt = L.busy t) (htr : c.tr = t.sel)
    (hcpl : c.cpl ≤ 3) (hz : StackAt c.mem (L.tss t.other + 32) z.words)
    (hvalid : z.valid L.gdt = true) (hcr3 : c.mem.load32 (L.tss t.other + 28) = v) :
    c.jumpTask t.other.sel = some
      { ctx := z
        mem := c.mem.storeWords (L.tss t + 32) c.ctx.words
        gdt := L.busy t.other
        tr := t.other.sel
        cr3 := v } := by
  have hbase : c.tssBase = L.tss t := by rw [tssBase, hgdt, htr, L.base_busy]
  have hentry : c.gdt.entry t.other.sel = .ofTss 0x86 0xe9 (L.tss t.other) := by
    rw [hgdt, L.entry_busy_other]
  have hother : (GdtEntry.ofTss 0x86 0xe9 (L.tss t.other)).base = L.tss t.other :=
    GdtEntry.base_ofTss _ _ _
  have hcond : ¬((GdtEntry.ofTss 0x86 0xe9 (L.tss t.other)).isSegment = true ∨
      (GdtEntry.ofTss 0x86 0xe9 (L.tss t.other)).type ≠ 0b1001 ∨
      ¬(GdtEntry.ofTss 0x86 0xe9 (L.tss t.other)).present = true ∨
      (GdtEntry.ofTss 0x86 0xe9 (L.tss t.other)).dpl < max c.cpl (rpl t.other.sel) ∨
      (GdtEntry.ofTss 0x86 0xe9 (L.tss t.other)).limit < 103) := by
    have hfree : (0xe9 : Byte) ∈ [0x89, 0xe9] := by decide
    obtain ⟨hseg, htype, hpresent⟩ := GdtEntry.available_ofTss 0x86 (L.tss t.other) hfree
    have hdpl : (GdtEntry.ofTss 0x86 0xe9 (L.tss t.other)).dpl = 3 := by
      have haccess : (GdtEntry.ofTss 0x86 0xe9 (L.tss t.other)).access = 0xe9 := rfl
      rw [GdtEntry.dpl, haccess]
      decide
    have hlimit : (GdtEntry.ofTss 0x86 0xe9 (L.tss t.other)).limit = 0x86 := rfl
    have hrpl : rpl t.other.sel = 0 := by cases t <;> rfl
    rw [hseg, htype, hpresent, hdpl, hlimit, hrpl]
    simpa using hcpl
  have hsaved := StackAt.writesIn_storeWords c.mem (L.tss t + 32) c.ctx.words
  have hsave : span (L.tss t + 32) (4 * c.ctx.words.length) ⊆ L.area t :=
    L.tss_subset t (k := 32) (n := 64) (by decide)
  have happart := L.disjoint_areas t.other_ne
  have hstack := hz.frame hsaved (Disjoint.mono
    (L.tss_subset t.other (k := 32) (n := 64) (by decide)) hsave happart)
  have hpage : (c.mem.storeWords (L.tss t + 32) c.ctx.words).load32 (L.tss t.other + 28) = v :=
    (hsaved.load32_eq (Disjoint.mono
      (L.tss_subset t.other (k := 28) (n := 4) (by decide)) hsave happart)).trans hcr3
  have hvalid' : z.valid (L.busy t.other) = true := by rw [L.valid_busy, hvalid]
  rw [jumpTask]
  dsimp only
  rw [hentry, if_neg hcond, hbase, hother, Context.load_eq hstack, hgdt, htr, L.busy_switch,
    if_pos hvalid', hpage]

/-- `task_sched` chooses the other task. -/
theorem chooseTask_eq (hvar : c.mem.load32 L.taskTss = t.sel.setWidth 32) :
    c.chooseTask L.toTaskImage =
      { c with mem := c.mem.store32 L.taskTss (t.other.sel.setWidth 32) } := by
  have hnext : (if (t.sel.setWidth 32 : Word) = task0TssSel.setWidth 32 then task1TssSel
      else task0TssSel) = t.other.sel := by cases t <;> rfl
  rw [chooseTask, hvar, hnext]

/-- What `task_sched` does up to the jump. -/
theorem taskSched_eq (hs : c.HasStack ws)
    (hlow : (L.stackDpl1 t).toNat + 4 * (3 + L.depth) ≤ c.ctx.esp.toNat)
    (hhigh : c.ctx.esp.toNat + 4 * ws.length ≤ (L.stackDpl1 t).toNat + 4096)
    (hvar : c.mem.load32 L.taskTss = t.sel.setWidth 32) :
    ∃ (c' : Cpu) (fr : List Word), c.taskSched L.toTaskImage = c'.jumpTask t.other.sel ∧
      fr.length = L.depth ∧
      c'.HasStack (0 :: t.other.sel.setWidth 32 :: (fr ++ L.afterSched :: ws)) ∧
      c'.ctx = { c.ctx with
        eip := L.afterJump, esp := c.ctx.esp - .ofNat 32 (4 * (3 + L.depth)) } ∧
      c'.mem.load32 L.taskTss = t.other.sel.setWidth 32 ∧
      (c'.gdt = c.gdt ∧ c'.tr = c.tr ∧ c'.cr3 = c.cr3) ∧
      WritesIn (span (L.stackDpl1 t) 4096 ∪ span L.taskTss 4) c.mem c'.mem := by
  have hfits := L.stack_fits t
  have hlt := c.ctx.esp.isLt
  -- the call and the frame
  obtain ⟨vs, hvs, hlen⟩ : ∃ vs, vs = L.afterSched :: L.frame (c.push L.afterSched).ctx ∧
      vs.length = 1 + L.depth := ⟨_, rfl, by rw [List.length_cons, L.length_frame]; omega⟩
  have hs₂ := hs.pushAll vs (by omega)
  have hctx₂ := ctx_pushAll c vs
  have hesp₂ : (c.pushAll vs).ctx.esp.toNat = c.ctx.esp.toNat - 4 * (1 + L.depth) := by
    rw [hctx₂, hlen]
    bv_omega
  have hw₂ : WritesIn (span (L.stackDpl1 t) 4096) c.mem (c.pushAll vs).mem := by
    refine (writesIn_pushAll c vs (by omega)).mono (L.stack_subset t ?_ ?_) <;> rw [hlen] <;>
      bv_omega
  have hvar₂ : (c.pushAll vs).mem.load32 L.taskTss = t.sel.setWidth 32 :=
    (hw₂.load32_eq (L.disjoint_var_stack t)).trans hvar
  have htables₂ := tables_pushAll c vs
  have hcall : (c.push L.afterSched).pushAll (L.frame (c.push L.afterSched).ctx) =
      c.pushAll vs := by
    rw [hvs]
    rfl
  rw [taskSched]
  dsimp only
  rw [hcall]
  generalize c.pushAll vs = c₂ at *
  -- the variable
  have hchoose := chooseTask_eq hvar₂
  have hw₃ := writesIn_store32 c₂.mem L.taskTss (t.other.sel.setWidth 32)
  have hs₃ : (c₂.chooseTask L.toTaskImage).HasStack (vs.reverse ++ ws) := by
    have hlow₂ : (L.stackDpl1 t).toNat ≤ c₂.ctx.esp.toNat := by omega
    have hhigh₂ : c₂.ctx.esp.toNat + 4 * (vs.reverse ++ ws).length ≤
        (L.stackDpl1 t).toNat + 4096 := by
      rw [List.length_append, List.length_reverse]
      omega
    rw [hchoose]
    exact StackAt.frame hs₂ hw₃
      (Disjoint.mono_left (L.stack_subset t hlow₂ hhigh₂) (L.disjoint_var_stack t).symm)
  have hvar₃ : (c₂.chooseTask L.toTaskImage).mem.load32 L.taskTss = t.other.sel.setWidth 32 := by
    rw [hchoose]
    exact load32_store32_self _ _ _
  have hmem₃ : WritesIn (span L.taskTss 4) c₂.mem (c₂.chooseTask L.toTaskImage).mem := by
    rw [hchoose]
    exact hw₃
  have hrest₃ : (c₂.chooseTask L.toTaskImage).ctx = c₂.ctx ∧
      (c₂.chooseTask L.toTaskImage).gdt = c₂.gdt ∧ (c₂.chooseTask L.toTaskImage).tr = c₂.tr ∧
      (c₂.chooseTask L.toTaskImage).cr3 = c₂.cr3 := ⟨rfl, rfl, rfl, rfl⟩
  generalize c₂.chooseTask L.toTaskImage = c₃ at *
  obtain ⟨hctx₃, hgdt₃, htr₃, hcr₃⟩ := hrest₃
  -- the operand of the jump
  have hroom₃ : 4 * [t.other.sel.setWidth 32, (0 : Word)].length ≤ c₃.ctx.esp.toNat := by
    rw [hctx₃]
    show 8 ≤ _
    omega
  have hs₄ := hs₃.pushAll [t.other.sel.setWidth 32, 0] hroom₃
  have hw₄ : WritesIn (span (L.stackDpl1 t) 4096) c₃.mem
      (c₃.pushAll [t.other.sel.setWidth 32, 0]).mem := by
    refine (writesIn_pushAll c₃ _ hroom₃).mono (L.stack_subset t ?_ ?_) <;> rw [hctx₃]
    · show _ ≤ (c₂.ctx.esp - 8).toNat
      bv_omega
    · show (c₂.ctx.esp - 8).toNat + 8 ≤ _
      bv_omega
  have hctx₄ := ctx_pushAll c₃ [t.other.sel.setWidth 32, 0]
  have htables₄ := tables_pushAll c₃ [t.other.sel.setWidth 32, 0]
  have hpush : c₃.pushOperand L.toTaskImage = c₃.pushAll [t.other.sel.setWidth 32, 0] := by
    rw [pushOperand, hvar₃]
    rfl
  rw [hpush]
  generalize c₃.pushAll [t.other.sel.setWidth 32, 0] = c₄ at *
  have hoperand : c₄.mem.load32 (c₄.ctx.esp + 4) = t.other.sel.setWidth 32 :=
    hs₄.load (k := 1) rfl rfl
  have hsel : (t.other.sel.setWidth 32).setWidth 16 = t.other.sel := by simp
  refine ⟨{ c₄ with ctx := { c₄.ctx with eip := L.afterJump } },
    (L.frame (c.push L.afterSched).ctx).reverse, ?_, ?_, ?_, ?_, ?_, ?_, ?_⟩
  · rw [hoperand, hsel]
  · rw [List.length_reverse, L.length_frame]
  · have hlist : vs.reverse ++ ws =
        (L.frame (c.push L.afterSched).ctx).reverse ++ L.afterSched :: ws := by
      rw [hvs, List.reverse_cons, List.append_assoc]
      rfl
    rw [hlist] at hs₄
    exact hs₄
  · have hesp : c.ctx.esp - .ofNat 32 (4 * vs.length) - .ofNat 32 (4 * 2) =
        c.ctx.esp - .ofNat 32 (4 * (3 + L.depth)) := by
      rw [hlen]
      bv_omega
    rw [← hesp, hctx₄, hctx₃, hctx₂]
    rfl
  · exact (hw₄.load32_eq (L.disjoint_var_stack t)).trans hvar₃
  · obtain ⟨hgdt₂, htr₂, hcr₂⟩ := htables₂
    obtain ⟨hgdt₄, htr₄, hcr₄⟩ := htables₄
    exact ⟨(hgdt₄.trans hgdt₃).trans hgdt₂, (htr₄.trans htr₃).trans htr₂,
      (hcr₄.trans hcr₃).trans hcr₂⟩
  · exact ((hw₂.mono Set.subset_union_left).trans (hmem₃.mono Set.subset_union_right)).trans
      (hw₄.mono Set.subset_union_left)

end Cpu

end DmfOs
