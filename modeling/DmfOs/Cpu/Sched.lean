import DmfOs.Cpu.Task

/-!
# Two tasks in turn

What the tick is for: two tasks with registers of their own, of which one runs until the
next tick. The kernel refines this, whatever the tasks compute and wherever a tick finds
them, in their own code or in a system call.
-/

namespace DmfOs

open Memory

/-- Two tasks that take turns. -/
structure TwoTasks where
  current : Task
  ctx : Task → Context
  /-- Whether a tick is due. -/
  due : Bool

/-- What happens from one moment to the next. -/
inductive SchedEvent where
  /-- A device requests an interrupt. -/
  | raise (n : Nat)
  /-- The timer interrupts. -/
  | tick
  /-- The running task computes, and comes to a context. -/
  | work (x : Context)

/-- The task that runs after an event. -/
def SchedEvent.current (t : Task) : SchedEvent → Task
  | tick => t.other
  | raise _ | work _ => t

/-- Whether a tick is due after an event. -/
def SchedEvent.due (b : Bool) : SchedEvent → Bool
  | raise n => b || n == 0
  | tick => false
  | work _ => b

/-- A tick changes which task runs, and nothing that a task can see. -/
inductive TwoTasks.Step : TwoTasks → SchedEvent → TwoTasks → Prop
  | raise (a : TwoTasks) (n : Nat) : Step a (.raise n) { a with due := a.due || n == 0 }
  | tick {a : TwoTasks} : a.due = true →
      Step a .tick { a with current := a.current.other, due := false }
  | work (a : TwoTasks) (x : Context) :
      Step a (.work x) { a with ctx := Function.update a.ctx a.current x }

namespace TwoTasks

variable {a a' : TwoTasks} {i : SchedEvent} {is : List SchedEvent} {t : Task}

theorem Step.current_eq (h : Step a i a') : a'.current = SchedEvent.current a.current i := by
  cases h <;> rfl

theorem Step.due_eq (h : Step a i a') : a'.due = SchedEvent.due a.due i := by
  cases h <;> rfl

/-- An event at which another task runs. -/
theorem Step.ctx_eq (h : Step a i a') (hidle : ∀ x, i = .work x → a.current ≠ t) :
    a'.ctx t = a.ctx t := by
  cases h with
  | raise n => rfl
  | tick hdue => rfl
  | work x => exact Function.update_of_ne (hidle x rfl).symm x a.ctx

/-- The ticks alone say which task runs. -/
theorem current_of_reach (h : Reach Step a is a') :
    a'.current = is.foldl SchedEvent.current a.current := by
  induction h with
  | nil => rfl
  | snoc _ hs ih => rw [hs.current_eq, ih, List.foldl_append, List.foldl_cons, List.foldl_nil]

theorem due_of_reach (h : Reach Step a is a') : a'.due = is.foldl SchedEvent.due a.due := by
  induction h with
  | nil => rfl
  | snoc _ hs ih => rw [hs.due_eq, ih, List.foldl_append, List.foldl_cons, List.foldl_nil]

/-- A task finds its registers again, whatever the other one did. -/
theorem ctx_of_reach (h : Reach Step a is a') (hidle : ∀ js x ks, is = js ++ .work x :: ks →
    js.foldl SchedEvent.current a.current ≠ t) : a'.ctx t = a.ctx t := by
  induction h with
  | nil => rfl
  | @snoc is b b' i hr hs ih =>
    have hlast : ∀ x, i = .work x → b.current ≠ t := by
      intro x hx
      rw [current_of_reach hr]
      exact hidle is x [] (by rw [hx])
    rw [hs.ctx_eq hlast]
    refine ih fun js x ks heq => hidle js x (ks ++ [i]) ?_
    rw [heq, List.append_assoc, List.cons_append]

end TwoTasks

namespace TaskLayout

variable (L : TaskLayout)

/-- Where an interrupt of a task starts on the stack of the kernel. -/
def top (t : Task) (x : Context) : Word := if 0 < rpl x.cs then L.esp0 t else x.esp

/-- A context in which a task can be interrupted: interrupts are on, its segments are valid,
and in the kernel its stack has room. -/
structure Interruptible (t : Task) (x : Context) : Prop where
  valid : x.valid L.gdt = true
  interrupts : x.eflags.getLsbD 9 = true
  vm : x.eflags.getLsbD 17 = false
  stack : rpl x.cs = 0 → (L.stackDpl1 t).toNat + 4 * (18 + L.depth) ≤ x.esp.toNat ∧
    x.esp.toNat ≤ (L.stackDpl1 t).toNat + 4096

/-- What a task must not write: the other one, the state of its own and the variable of
`task_sched`. -/
def kept (t : Task) : Set Word := L.area t.other ∪ (span (L.tss t) 104 ∪ span L.taskTss 4)

/-- A task computes. -/
structure Works (t : Task) (c c' : Cpu) : Prop where
  tables : c'.gdt = c.gdt ∧ c'.tr = c.tr ∧ c'.cr3 = c.cr3
  writes : WritesIn (L.kept t)ᶜ c.mem c'.mem
  interruptible : L.Interruptible t c'.ctx

end TaskLayout

/-- What happens to the processor and the devices. -/
inductive Sys.Step (L : TaskLayout) : Sys → SchedEvent → Sys → Prop
  | raise (s : Sys) (n : Nat) : Step L s (.raise n) { s with irq := s.irq.raise n }
  | tick {s s' : Sys} : s.tick L.toTaskImage = some s' → Step L s .tick s'
  | work {s : Sys} {t : Task} {c : Cpu} : s.cpu.tr = t.sel → L.Works t s.cpu c →
      Step L s (.work c.ctx) { s with cpu := c }

/-! ## A task that was stopped -/

namespace TaskLayout

variable {L : TaskLayout} {t : Task} {x y : Context} {m m' : Memory} {S : Set Word}

/-- The stack of a task that was stopped, from the operand of the jump on. -/
def savedStack (L : TaskLayout) (x : Context) (sp sel : Word) (fr : List Word) : List Word :=
  0 :: sel :: (fr ++ L.afterSched :: (x.savedWords sp ++ x.interruptStack))

/-- The context in the kernel in which a task waits that was stopped at another context. -/
structure Stopped (L : TaskLayout) (t : Task) (x y : Context) : Prop where
  eip : y.eip = L.afterJump
  nested : y.eflags.getLsbD 14 = false
  esp : y.esp = L.top t x - .ofNat 32 (4 * (15 + L.depth + x.interruptStack.length))
  cs : y.cs = kernelCodeSeg.setWidth 16
  ss : y.ss = if 0 < rpl x.cs then kernelDataSeg.setWidth 16 else x.ss
  ds : y.ds = kernelDataSeg.setWidth 16
  es : y.es = x.es
  fs : y.fs = x.fs
  gs : y.gs = x.gs

/-- The memory holds a task that does not run: its first context, or what `timer_int` and the
processor saved of it. -/
inductive Suspended (L : TaskLayout) (m : Memory) (t : Task) (x : Context) : Prop
  | fresh (h : L.Interruptible t x) (hcs : x.cs ≠ kernelCodeSeg.setWidth 16)
      (htss : StackAt m (L.tss t + 32) x.words)
  | stopped {y : Context} {sp sel : Word} {fr : List Word} (h : L.Interruptible t x)
      (hy : L.Stopped t x y) (hfr : fr.length = L.depth)
      (htss : StackAt m (L.tss t + 32) y.words)
      (hstack : StackAt m y.esp (L.savedStack x sp sel fr))

theorem Suspended.interruptible (h : L.Suspended m t x) : L.Interruptible t x := by
  cases h with
  | fresh h => exact h
  | stopped h => exact h

theorem length_interruptStack (x : Context) :
    x.interruptStack.length = if 0 < rpl x.cs then 5 else 3 := by
  rw [Context.interruptStack]
  split_ifs <;> rfl

/-- The stack of the kernel has room for all that is saved. -/
theorem Interruptible.room (h : L.Interruptible t x) :
    (L.stackDpl1 t).toNat + 4 * (15 + L.depth + x.interruptStack.length) ≤ (L.top t x).toNat ∧
      (L.top t x).toNat ≤ (L.stackDpl1 t).toNat + 4096 := by
  have hfits := L.stack_fits t
  have hroom := L.room
  rw [length_interruptStack, top]
  split_ifs with hpos
  · have htop : (L.esp0 t).toNat = (L.stackDpl1 t).toNat + 4096 := by
      rw [TaskImage.esp0]
      bv_omega
    omega
  · have hstack := h.stack (by omega)
    omega

theorem length_savedStack {sp sel : Word} {fr : List Word} (hfr : fr.length = L.depth) :
    (L.savedStack x sp sel fr).length = 15 + L.depth + x.interruptStack.length := by
  simp only [savedStack, Context.savedWords, List.length_cons, List.length_append, List.length_nil,
    hfr]
  omega

/-- A stopped task lies on its stack. -/
theorem Stopped.subset (hy : L.Stopped t x y) (h : L.Interruptible t x) :
    span y.esp (4 * (15 + L.depth + x.interruptStack.length)) ⊆ span (L.stackDpl1 t) 4096 := by
  obtain ⟨hlow, hhigh⟩ := h.room
  have hlt := (L.top t x).isLt
  have hesp : y.esp.toNat = (L.top t x).toNat - 4 * (15 + L.depth + x.interruptStack.length) := by
    rw [hy.esp]
    bv_omega
  exact L.stack_subset t (by omega) (by omega)

/-- Stores elsewhere leave a suspended task alone. -/
theorem Suspended.frame (h : L.Suspended m t x) (hw : WritesIn S m m')
    (hd : Disjoint (L.area t) S) : L.Suspended m' t x := by
  have htss {v : Context} (hv : StackAt m (L.tss t + 32) v.words) :
      StackAt m' (L.tss t + 32) v.words :=
    hv.frame hw (hd.mono_left (L.tss_subset t (k := 32) (n := 64) (by decide)))
  cases h with
  | fresh h hcs hv => exact .fresh h hcs (htss hv)
  | stopped h hy hfr hv hs =>
    refine .stopped h hy hfr (htss hv) (hs.frame hw (hd.mono_left ?_))
    rw [length_savedStack hfr]
    exact Set.Subset.trans (hy.subset h) Set.subset_union_right

/-- The selectors of a stopped task may be loaded again. -/
theorem Stopped.valid (hy : L.Stopped t x y) (h : L.Interruptible t x) :
    y.valid L.gdt = true := by
  have hflat : L.gdt.Flat := L.flat_gdt
  have hlevel : rpl y.cs = 0 := by
    rw [hy.cs]
    decide
  have hcode : isCode L.gdt y.cs = true := by
    have hentry : L.gdt.entry (kernelCodeSeg.setWidth 16) = Gdt.os 1 := hflat.code
    rw [hy.cs, isCode, hentry]
    decide
  have hstack : isStack L.gdt 0 y.ss = true := by
    rw [hy.ss]
    split_ifs with hpos
    · exact isStack_kernel hflat
    · have hzero : rpl x.cs = 0 := by omega
      have hx := Context.valid.stack h.valid
      rwa [hzero] at hx
  have hds : isData L.gdt 0 (kernelDataSeg.setWidth 16) = true := by
    have hentry : L.gdt.entry (kernelDataSeg.setWidth 16) = Gdt.os 2 := hflat.data
    rw [isData, hentry]
    decide
  have hdata (sel : Selector) (hsel : sel ∈ [x.ds, x.es, x.fs, x.gs]) :
      isData L.gdt 0 sel = true :=
    isData_mono (Context.valid.data h.valid sel hsel) (Nat.zero_le _)
  rw [Context.valid, hlevel, hcode, hstack, hy.ds, hy.es, hy.fs, hy.gs]
  simp [hds, hdata]

end TaskLayout

namespace Cpu

variable {L : TaskLayout} {t : Task} {c : Cpu} {x y : Context}

/-! ## Going on -/

/-- The return of `task_sched` finds what `timer_int` saved. -/
theorem taskSchedReturn_eq {sp sel : Word} {fr : List Word} (hfr : fr.length = L.depth)
    (hs : c.HasStack (L.savedStack x sp sel fr)) :
    (c.taskSchedReturn L.toTaskImage).HasStack (x.savedWords sp ++ x.interruptStack) ∧
      c.taskSchedReturn L.toTaskImage = { c with ctx := { c.ctx with
        eip := L.afterSched, esp := c.ctx.esp + .ofNat 32 (4 * (3 + L.depth)) } } := by
  have hlen : (0 :: sel :: fr).length = 2 + L.depth := by
    rw [List.length_cons, List.length_cons, hfr]
    omega
  have hret := HasStack.dropWords (0 :: sel :: fr) hs hlen
  have heip : (c.dropWords (2 + L.depth)).mem.load32 (c.dropWords (2 + L.depth)).ctx.esp =
      L.afterSched := StackAt.head hret
  have hesp : c.ctx.esp + .ofNat 32 (4 * (2 + L.depth)) + .ofNat 32 (4 * 1) =
      c.ctx.esp + .ofNat 32 (4 * (3 + L.depth)) := by bv_omega
  have hdrop : ({ c.dropWords (2 + L.depth) with ctx := { (c.dropWords (2 + L.depth)).ctx with
      eip := L.afterSched } } : Cpu).HasStack (L.afterSched :: (x.savedWords sp ++
      x.interruptStack)) := hret
  rw [taskSchedReturn]
  dsimp only
  rw [heip]
  refine ⟨hdrop.dropWords [L.afterSched] rfl, ?_⟩
  rw [← hesp]
  rfl

/-- A stopped task goes on where it was stopped, with all its registers. -/
theorem resume_stopped {sp sel : Word} {fr : List Word} (h : L.Interruptible t x)
    (hy : L.Stopped t x c.ctx) (hfr : fr.length = L.depth) (hgdt : c.gdt = L.busy t)
    (hs : c.HasStack (L.savedStack x sp sel fr)) :
    c.resume L.toTaskImage = some { c with ctx := x } := by
  have hcond : c.ctx.cs = kernelCodeSeg.setWidth 16 ∧ c.ctx.eip = L.afterJump := ⟨hy.cs, hy.eip⟩
  obtain ⟨hstack, heq⟩ := taskSchedReturn_eq hfr hs
  have hcpl : c.cpl = 0 := by
    rw [cpl, hy.cs]
    decide
  have hvalid : x.valid c.gdt = true := by rw [hgdt, L.valid_busy, h.valid]
  have heip : (c.taskSchedReturn L.toTaskImage).ctx.eip = L.afterSched := by rw [heq]
  have hlevel : (c.taskSchedReturn L.toTaskImage).cpl = 0 := by
    rw [heq]
    exact hcpl
  have htable : (c.taskSchedReturn L.toTaskImage).gdt = c.gdt := by rw [heq]
  have hdata : ∀ sel ∈ [x.ds, x.es, x.fs, x.gs], isData (c.taskSchedReturn L.toTaskImage).gdt
      (c.taskSchedReturn L.toTaskImage).cpl sel = true := by
    intro sel hsel
    rw [hlevel, htable]
    exact isData_mono (Context.valid.data hvalid sel hsel) (Nat.zero_le _)
  -- the pops of `timer_int`
  obtain ⟨c', hrestore, hstack', heq'⟩ := hstack.restoreAll_eq hdata
  rw [heq] at heq'
  dsimp only at heq'
  have hsame : rpl x.cs = 0 → x.esp = c'.ctx.esp + 12 ∧ x.ss = c'.ctx.ss := by
    intro hzero
    have hnot : ¬0 < rpl x.cs := hzero.not_gt
    have hesp := hy.esp
    have hss := hy.ss
    rw [if_neg hnot] at hss
    rw [TaskLayout.length_interruptStack, if_neg hnot, TaskLayout.top, if_neg hnot] at hesp
    rw [heq', hss]
    refine ⟨?_, rfl⟩
    dsimp only
    rw [hesp]
    bv_omega
  -- the return from the interrupt
  have hiret := hstack'.iret_eq (by rw [heq']; exact hcpl) (by rw [heq']; exact hy.nested) h.vm
    (by rw [heq']; exact hvalid) (by rw [heq']) hsame
  rw [resume, if_pos hcond]
  dsimp only
  rw [if_pos heip, hrestore, Option.bind_some, hiret, heq']

/-! ## Stopping -/

/-- The context that was interrupted is in the registers that `timer_int` saves. -/
theorem Interrupted.savedWords_eq {k : Cpu} {handler : Word} (hk : c.Interrupted handler k)
    (sp : Word) : k.ctx.savedWords sp = c.ctx.savedWords sp := by
  have hregs := hk.regs
  generalize k.ctx.esp = esp at hregs
  generalize k.ctx.ss = ss at hregs
  rw [hregs]
  rfl

/-- What `timer_int` does before it calls `task_sched`. -/
theorem Interrupted.save {k : Cpu} {handler : Word} (hk : c.Interrupted handler k) (v : Byte)
    (hroom : 48 ≤ k.ctx.esp.toNat) :
    ∃ (k' : Cpu) (eax : Word), (k.saveAll.movAl v).useKernelData = k' ∧
      k'.HasStack (c.ctx.savedWords (k.ctx.esp - 16) ++ c.ctx.interruptStack) ∧
      k'.ctx = { k.ctx with
        eax := eax, ds := kernelDataSeg.setWidth 16, esp := k.ctx.esp - 48 } ∧
      (k'.gdt = c.gdt ∧ k'.tr = c.tr ∧ k'.cr3 = c.cr3) ∧
      WritesIn (span (k.ctx.esp - 48) 48) k.mem k'.mem := by
  obtain ⟨hstack, hctx, htables, hwrites⟩ := hk.stack.saveAll hroom
  rw [hk.tables.1, hk.tables.2.1, hk.tables.2.2] at htables
  rw [hk.savedWords_eq] at hstack
  generalize k.saveAll = k₁ at *
  refine ⟨_, (((k₁.movAl v).ctx.eax &&& 0xffff0000) ||| kernelDataSeg), rfl, hstack, ?_, htables,
    hwrites⟩
  rw [useKernelData, movAl]
  dsimp only
  rw [setWidth_kernelDataSeg, hctx]

end Cpu

/-- The processor while a task runs. -/
structure TaskLayout.Running (L : TaskLayout) (t : Task) (c : Cpu) : Prop where
  gdt : c.gdt = L.busy t
  tr : c.tr = t.sel
  cr3 : c.cr3 = 0xa000
  var : c.mem.load32 L.taskTss = t.sel.setWidth 32
  esp0 : ∀ u, c.mem.load32 (L.tss u + 4) = L.esp0 u
  ss0 : ∀ u, c.mem.load32 (L.tss u + 8) = kernelDataSeg
  page : ∀ u, c.mem.load32 (L.tss u + 28) = 0xa000
  interruptible : L.Interruptible t c.ctx

namespace TaskLayout.Running

variable {L : TaskLayout} {t : Task} {c : Cpu} {e : IdtEntry}

theorem tssBase_eq (h : L.Running t c) : c.tssBase = L.tss t := by
  rw [Cpu.tssBase, h.gdt, h.tr, L.base_busy]

theorem kernelTop_eq (h : L.Running t c) : c.kernelTop = L.top t c.ctx := by
  rw [Cpu.kernelTop, h.tssBase_eq, h.esp0 t, TaskLayout.top]
  rfl

/-- A tick stops the running task on its stack of the kernel, and comes to the jump. -/
theorem stop (h : L.Running t c) (he : e.LeadsTo L.timerInt) (v : Byte) :
    ∃ (k c' : Cpu) (sp : Word) (fr : List Word), c.interrupt e = some k ∧
      k.ctx.eip = L.timerInt ∧
      (k.saveAll.movAl v).useKernelData.taskSched L.toTaskImage = c'.jumpTask t.other.sel ∧
      fr.length = L.depth ∧
      c'.HasStack (L.savedStack c.ctx sp (t.other.sel.setWidth 32) fr) ∧
      L.Stopped t c.ctx c'.ctx ∧ c'.mem.load32 L.taskTss = t.other.sel.setWidth 32 ∧
      (c'.gdt = c.gdt ∧ c'.tr = c.tr ∧ c'.cr3 = c.cr3) ∧
      WritesIn (span (L.stackDpl1 t) 4096 ∪ span L.taskTss 4) c.mem c'.mem := by
  obtain ⟨hlow, hhigh⟩ := h.interruptible.room
  have htop := h.kernelTop_eq
  have hflat : c.gdt.Flat := by rw [h.gdt]; exact L.flat_busy t
  have hss : 0 < c.cpl → c.mem.load32 (c.tssBase + 8) = kernelDataSeg := fun _ => by
    rw [h.tssBase_eq, h.ss0 t]
  obtain ⟨k, hint, hk⟩ := Cpu.interrupt_eq hflat he hss (by rw [htop]; omega)
  have hlt := (L.top t c.ctx).isLt
  have hfits := L.stack_fits t
  have hkesp := hk.esp
  have hkwrites := hk.writes
  rw [htop] at hkesp hkwrites
  have hksp : k.ctx.esp.toNat = (L.top t c.ctx).toNat - 4 * c.ctx.interruptStack.length := by
    rw [hkesp]
    bv_omega
  obtain ⟨k', eax, hsave, hstack, hctx, htables, hwrites⟩ := hk.save v (by omega)
  have hksp' : k'.ctx.esp.toNat =
      (L.top t c.ctx).toNat - 4 * c.ctx.interruptStack.length - 48 := by
    rw [hctx]
    show (k.ctx.esp - 48).toNat = _
    bv_omega
  -- neither the interrupt nor the pushes reach the variable
  have hkin : WritesIn (span (L.stackDpl1 t) 4096) c.mem k.mem := by
    refine hkwrites.mono (L.stack_subset t ?_ ?_)
    · rw [← hkesp]
      omega
    · rw [← hkesp]
      omega
  have hin : WritesIn (span (L.stackDpl1 t) 4096) c.mem k'.mem := by
    refine hkin.trans (hwrites.mono (L.stack_subset t ?_ ?_)) <;> bv_omega
  have hvar : k'.mem.load32 L.taskTss = t.sel.setWidth 32 :=
    (hin.load32_eq (L.disjoint_var_stack t)).trans h.var
  have hlen : (c.ctx.savedWords (k.ctx.esp - 16) ++ c.ctx.interruptStack).length =
      12 + c.ctx.interruptStack.length := List.length_append
  obtain ⟨c', fr, hsched, hfr, hstack', hctx', hvar', htables', hwrites'⟩ :=
    Cpu.taskSched_eq (L := L) (t := t) hstack (by omega) (by rw [hlen]; omega) hvar
  refine ⟨k, c', _, fr, hint, ?_, ?_, hfr, hstack', ?_, hvar', ?_,
    (hin.mono Set.subset_union_left).trans hwrites'⟩
  · rw [hk.regs]
  · rw [hsave]
    exact hsched
  · have hregs := hk.regs
    have hkss := hk.ss
    rw [hkesp, hkss] at hregs
    rw [hregs] at hctx
    rw [hctx] at hctx'
    have hesp : L.top t c.ctx - .ofNat 32 (4 * c.ctx.interruptStack.length) - 48 -
        .ofNat 32 (4 * (3 + L.depth)) =
          L.top t c.ctx - .ofNat 32 (4 * (15 + L.depth + c.ctx.interruptStack.length)) := by
      bv_omega
    rw [hctx']
    exact ⟨rfl, gateFlags_nested _, hesp, rfl, rfl, rfl, rfl, rfl, rfl⟩
  · obtain ⟨hgdt, htr, hcr3⟩ := htables
    obtain ⟨hgdt', htr', hcr3'⟩ := htables'
    exact ⟨hgdt'.trans hgdt, htr'.trans htr, hcr3'.trans hcr3⟩

end TaskLayout.Running

/-! ## Switching -/

namespace TaskLayout

variable {L : TaskLayout} {t : Task} {c : Cpu} {x : Context} {m m' : Memory} {S : Set Word}

/-- The first words of a task state, which nothing writes. -/
theorem load32_tss (hw : WritesIn S m m') (hd : ∀ u, Disjoint (span (L.tss u) 32) S) (u : Task)
    {k : Nat} (hk : k + 4 ≤ 32) :
    m'.load32 (L.tss u + .ofNat 32 k) = m.load32 (L.tss u + .ofNat 32 k) :=
  hw.load32_eq ((hd u).mono_left (span_add_subset _ hk))

/-- The processor goes on with a task where nothing of the states of the tasks was written. -/
theorem Running.of_writes {c' : Cpu} {u : Task} (h : L.Running t c) (hgdt : c'.gdt = L.busy u)
    (htr : c'.tr = u.sel) (hcr3 : c'.cr3 = 0xa000)
    (hvar : c'.mem.load32 L.taskTss = u.sel.setWidth 32) (hw : WritesIn S c.mem c'.mem)
    (hd : ∀ u, Disjoint (span (L.tss u) 32) S) (hx : L.Interruptible u c'.ctx) :
    L.Running u c' where
  gdt := hgdt
  tr := htr
  cr3 := hcr3
  var := hvar
  esp0 u := (load32_tss hw hd u (k := 4) (by decide)).trans (h.esp0 u)
  ss0 u := (load32_tss hw hd u (k := 8) (by decide)).trans (h.ss0 u)
  page u := (load32_tss hw hd u (k := 28) (by decide)).trans (h.page u)
  interruptible := hx

/-- What runs on when the processor has loaded a task that waits. -/
theorem Suspended.resume (h : L.Suspended m t x) :
    ∃ z : Context, StackAt m (L.tss t + 32) z.words ∧ z.valid L.gdt = true ∧
      ∀ {c : Cpu} {S : Set Word}, c.ctx = z → c.gdt = L.busy t → WritesIn S m c.mem →
        Disjoint (L.area t) S → c.resume L.toTaskImage = some { c with ctx := x } := by
  cases h with
  | fresh hx hcs htss =>
    refine ⟨x, htss, hx.valid, fun {c S} hctx hgdt hw hd => ?_⟩
    have hcond : ¬(c.ctx.cs = kernelCodeSeg.setWidth 16 ∧ c.ctx.eip = L.afterJump) := by
      rw [hctx]
      exact fun hk => hcs hk.1
    rw [Cpu.resume, if_neg hcond, ← hctx]
  | @stopped y sp sel fr hx hy hfr htss hstack =>
    refine ⟨y, htss, hy.valid hx, fun {c S} hctx hgdt hw hd => ?_⟩
    have hsub : span y.esp (4 * (L.savedStack x sp sel fr).length) ⊆ L.area t := by
      rw [length_savedStack hfr]
      exact Set.Subset.trans (hy.subset hx) Set.subset_union_right
    have hs : c.HasStack (L.savedStack x sp sel fr) := by
      rw [Cpu.HasStack, hctx]
      exact hstack.frame hw (hd.mono_left hsub)
    exact Cpu.resume_stopped hx (by rw [hctx]; exact hy) hfr hgdt hs

/-- What a tick writes while a task runs. -/
def switched (L : TaskLayout) (t : Task) : Set Word :=
  (span (L.stackDpl1 t) 4096 ∪ span L.taskTss 4) ∪ span (L.tss t + 32) 64

/-- A tick writes nothing of the task that waits. -/
theorem disjoint_area_switched (L : TaskLayout) (t : Task) :
    Disjoint (L.area t.other) (L.switched t) := by
  have happart := L.disjoint_areas t.other_ne
  refine Set.disjoint_union_right.mpr ⟨Set.disjoint_union_right.mpr ⟨?_, ?_⟩, ?_⟩
  · exact happart.mono_right Set.subset_union_right
  · exact (L.var t.other).symm
  · exact happart.mono_right (L.tss_subset t (k := 32) (n := 64) (by decide))

/-- It writes no stack pointer of a task state, and no page directory. -/
theorem disjoint_tss_switched (L : TaskLayout) (t u : Task) :
    Disjoint (span (L.tss u) 32) (L.switched t) := by
  have hsub : span (L.tss u) 32 ⊆ L.area u :=
    Set.Subset.trans (span_mono _ (by decide)) Set.subset_union_left
  by_cases hu : u = t
  · subst hu
    have hfits := L.tss_fits u
    refine Set.disjoint_union_right.mpr ⟨Set.disjoint_union_right.mpr ⟨?_, ?_⟩, ?_⟩
    · exact (L.tss_stack u).mono_left (span_mono _ (by decide))
    · exact ((L.var u).mono_right hsub).symm
    · have hnext : (L.tss u + 32).toNat = (L.tss u).toNat + 32 := by bv_omega
      exact disjoint_span_of_le (by omega) (by omega)
  · have hother := Task.eq_other hu
    rw [hother] at hsub ⊢
    exact (L.disjoint_area_switched t).mono_left hsub

/-- A tick while one task runs and the other one waits exchanges them. -/
theorem Running.switch {e : IdtEntry} (h : L.Running t c) (hx : L.Suspended c.mem t.other x)
    (he : e.LeadsTo L.timerInt) (v : Byte) :
    ∃ k c' : Cpu, c.interrupt e = some k ∧ k.ctx.eip = L.timerInt ∧
      (((k.saveAll.movAl v).useKernelData.taskSched L.toTaskImage).bind
        (Cpu.resume L.toTaskImage)) = some c' ∧
      c'.ctx = x ∧ L.Running t.other c' ∧ L.Suspended c'.mem t c.ctx := by
  obtain ⟨k, c₁, sp, fr, hint, heip, hsched, hfr, hstack, hstop, hvar, htables, hwrites⟩ :=
    h.stop he v
  have hsaved := StackAt.writesIn_storeWords c₁.mem (L.tss t + 32) c₁.ctx.words
  have hwrites₁ : WritesIn (L.switched t) c.mem c₁.mem := hwrites.mono Set.subset_union_left
  have hwrites₂ : WritesIn (L.switched t) c₁.mem
      (c₁.mem.storeWords (L.tss t + 32) c₁.ctx.words) := hsaved.mono Set.subset_union_right
  have hall := hwrites₁.trans hwrites₂
  have happart := L.disjoint_area_switched t
  have hheader := L.disjoint_tss_switched t
  -- the far jump
  obtain ⟨z, hz, hvalid, hresume⟩ := (hx.frame hwrites₁ happart).resume
  have hpage : c₁.mem.load32 (L.tss t.other + 28) = 0xa000 :=
    (load32_tss hwrites₁ hheader t.other (k := 28) (by decide)).trans (h.page t.other)
  have hcpl : c₁.cpl ≤ 3 := by
    rw [Cpu.cpl, hstop.cs]
    decide
  have hjump := Cpu.jumpTask_eq (htables.1.trans h.gdt) (htables.2.1.trans h.tr) hcpl hz hvalid
    hpage
  have hrun := hresume (c := ⟨z, c₁.mem.storeWords (L.tss t + 32) c₁.ctx.words,
    L.busy t.other, t.other.sel, 0xa000⟩) rfl rfl hwrites₂ happart
  refine ⟨k, _, hint, heip, by rw [hsched, hjump, Option.bind_some, hrun], rfl, ?_, ?_⟩
  · have hvar' : (c₁.mem.storeWords (L.tss t + 32) c₁.ctx.words).load32 L.taskTss =
        t.other.sel.setWidth 32 :=
      (hsaved.load32_eq ((L.var t).mono_right
        (L.tss_subset t (k := 32) (n := 64) (by decide)))).trans hvar
    exact h.of_writes rfl rfl rfl hvar' hall hheader hx.interruptible
  · have hfits := L.tss_fits t
    have hlen : c₁.ctx.words.length = 16 := rfl
    have hnext : (L.tss t + 32).toNat + 4 * c₁.ctx.words.length ≤ 2 ^ 32 := by
      rw [hlen]
      bv_omega
    have hlist : (L.savedStack c.ctx sp (t.other.sel.setWidth 32) fr).length =
        15 + L.depth + c.ctx.interruptStack.length := length_savedStack hfr
    refine .stopped h.interruptible hstop hfr (StackAt.storeWords c₁.mem hnext)
      (StackAt.frame hstack hsaved ?_)
    rw [hlist]
    refine (L.tss_stack t).symm.mono (hstop.subset h.interruptible) ?_
    exact span_add_subset (L.tss t) (k := 32) (n := 64) (by decide)

/-- What the running task may do keeps it running and the other one waiting. -/
theorem Works.keeps {c' : Cpu} (hw : L.Works t c c') (h : L.Running t c)
    (hx : L.Suspended c.mem t.other x) :
    L.Running t c' ∧ L.Suspended c'.mem t.other x := by
  obtain ⟨hgdt, htr, hcr3⟩ := hw.tables
  have hheader (u : Task) : Disjoint (span (L.tss u) 32) (L.kept t)ᶜ := by
    refine Set.disjoint_compl_right_iff_subset.mpr ?_
    by_cases hu : u = t
    · subst hu
      exact Set.Subset.trans (Set.Subset.trans (span_mono _ (by decide)) Set.subset_union_left)
        Set.subset_union_right
    · have hother := Task.eq_other hu
      subst hother
      exact Set.Subset.trans (Set.Subset.trans (span_mono _ (by decide)) Set.subset_union_left)
        Set.subset_union_left
  have hvar : Disjoint (span L.taskTss 4) (L.kept t)ᶜ :=
    Set.disjoint_compl_right_iff_subset.mpr
      (Set.Subset.trans Set.subset_union_right Set.subset_union_right)
  have harea : Disjoint (L.area t.other) (L.kept t)ᶜ :=
    Set.disjoint_compl_right_iff_subset.mpr Set.subset_union_left
  exact ⟨h.of_writes (hgdt.trans h.gdt) (htr.trans h.tr) (hcr3.trans h.cr3)
      ((hw.writes.load32_eq hvar).trans h.var) hw.writes hheader hw.interruptible,
    hx.frame hw.writes harea⟩

/-! ## The refinement -/

/-- The processor and the devices hold two tasks. -/
structure Holds (L : TaskLayout) (a : TwoTasks) (s : Sys) : Prop where
  running : L.Running a.current s.cpu
  ctx : s.cpu.ctx = a.ctx a.current
  waiting : L.Suspended s.cpu.mem a.current.other (a.ctx a.current.other)
  irq : s.irq.Programmed a.due false
  gate : (s.irq.idt 0x20).LeadsTo L.timerInt

variable {a a' : TwoTasks} {s s' : Sys} {i : SchedEvent} {is : List SchedEvent}

/-- A tick that is due comes through, and exchanges the tasks. -/
theorem Holds.tick (h : L.Holds a s) (hdue : a.due = true) :
    ∃ s', s.tick L.toTaskImage = some s' ∧
      L.Holds { a with current := a.current.other, due := false } s' := by
  have hprog := h.irq
  rw [hdue] at hprog
  have haccept : s.irq.accept = some (0x20, { s.irq with pic0 := s.irq.cascaded.take 0 }) :=
    hprog.accept_eq
  have hafter := hprog.step (.accept haccept)
  have hkept := (Irq.Step.accept haccept).pit_eq hprog
  generalize ({ s.irq with pic0 := s.irq.cascaded.take 0 } : Irq) = irq at haccept hafter hkept
  have hgate : (irq.idt 0x20).LeadsTo L.timerInt := by
    rw [hkept.2]
    exact h.gate
  obtain ⟨k, c', hint, heip, hrun, hctx, hrunning, hwaiting⟩ :=
    h.running.switch h.waiting hgate 0x20
  obtain ⟨k₁, hsched, hresume⟩ := Option.bind_eq_some_iff.mp hrun
  refine ⟨⟨c', irq.outb 0x20 0x20⟩, ?_, ?_⟩
  · rw [Sys.tick, if_pos h.running.interruptible.interrupts, haccept]
    have heoi : ((k.saveAll.movAl 0x20).ctx.eax.setWidth 8 : Byte) = 0x20 :=
      setWidth_replace_byte k.saveAll.ctx.eax 0x20
    dsimp only [Option.bind_eq_bind]
    rw [Option.bind_some, hint, Option.bind_some, if_pos heip, Sys.timerInt]
    dsimp only [Option.bind_eq_bind]
    rw [heoi, hsched, Option.bind_some, hresume, Option.bind_some]
  · exact {
      running := hrunning
      ctx := hctx
      waiting := by
        show L.Suspended c'.mem a.current.other.other (a.ctx a.current.other.other)
        rw [Task.other_other, ← h.ctx]
        exact hwaiting
      irq := hafter.step (.eoi irq)
      gate := hgate }

/-- Without one, there is none. -/
theorem Holds.tick_eq_none (h : L.Holds a s) (hdue : a.due = false) :
    s.tick L.toTaskImage = none := by
  have haccept : s.irq.accept = none := by
    rw [h.irq.accept_eq, hdue]
    rfl
  rw [Sys.tick, if_pos h.running.interruptible.interrupts, haccept]
  rfl

/-- Each step of the processor is a step of the two tasks. -/
theorem Holds.step (h : L.Holds a s) (hs : Sys.Step L s i s') :
    ∃ a', TwoTasks.Step a i a' ∧ L.Holds a' s' := by
  cases hs with
  | raise n =>
    refine ⟨_, .raise a n, ?_⟩
    have hprog := h.irq.step (.raise s.irq n)
    have hkept := (Irq.Step.raise s.irq n).pit_eq h.irq
    exact {
      running := h.running
      ctx := h.ctx
      waiting := h.waiting
      irq := hprog
      gate := by
        show ((s.irq.raise n).idt 0x20).LeadsTo L.timerInt
        rw [hkept.2]
        exact h.gate }
  | tick ht =>
    cases hdue : a.due with
    | false =>
      rw [h.tick_eq_none hdue] at ht
      cases ht
    | true =>
      obtain ⟨u, hu, hholds⟩ := h.tick hdue
      rw [ht] at hu
      obtain rfl := Option.some.inj hu
      exact ⟨_, .tick hdue, hholds⟩
  | @work t c htr hw =>
    obtain rfl : a.current = t := Task.sel_injective (h.running.tr.symm.trans htr)
    obtain ⟨hrunning, hwaiting⟩ := hw.keeps h.running h.waiting
    refine ⟨_, .work a c.ctx, ?_⟩
    exact {
      running := hrunning
      ctx := by
        show c.ctx = Function.update a.ctx a.current c.ctx a.current
        rw [Function.update_self]
      waiting := by
        show L.Suspended c.mem a.current.other
          (Function.update a.ctx a.current c.ctx a.current.other)
        rw [Function.update_of_ne a.current.other_ne]
        exact hwaiting
      irq := h.irq
      gate := h.gate }

/-- A request of the timer and the tick for it. -/
theorem Holds.raise_tick (h : L.Holds a s) :
    ∃ s', Reach (Sys.Step L) s [.raise 0, .tick] s' ∧
      L.Holds { a with current := a.current.other, due := false } s' := by
  obtain ⟨b, hb, hholds⟩ := h.step (.raise s 0)
  cases hb
  obtain ⟨s', htick, hholds'⟩ := hholds.tick (Bool.or_true _)
  exact ⟨s', (Reach.snoc .nil (.raise s 0)).snoc (.tick htick), hholds'⟩

/-- So is each run. -/
theorem Holds.run (h : L.Holds a s) (hr : Reach (Sys.Step L) s is s') :
    ∃ a', Reach TwoTasks.Step a is a' ∧ L.Holds a' s' := by
  induction hr with
  | nil => exact ⟨a, .nil, h⟩
  | snoc _ hs ih =>
    obtain ⟨b, hb, hholds⟩ := ih
    obtain ⟨b', hb', hholds'⟩ := hholds.step hs
    exact ⟨b', hb.snoc hb', hholds'⟩

end TaskLayout

end DmfOs
