import DmfOs.Vm.Init

/-!
# The launched flag

Calls of `virt_enable` one after the other, each with a VM entry per round of its
loop. The launched flag is set after every entry that is taken for a success and
never reset, while VMCLEAR clears the launch state of the structure and a
successful VMLAUNCH sets it.
-/

namespace DmfOs

/-- The launch state that an entry instruction requires. -/
def EntryInstr.requires : EntryInstr → LaunchState
  | vmlaunch => .clear
  | vmresume => .launched

/-- An entry instruction is issued on a structure in the state that it requires. -/
def Event.EntersRightly : Event → Prop
  | enter instr state => state = some instr.requires
  | _ => True

/-- Past the checks of the launch state only on a current structure in the required state. -/
def EntryOutcome.Legal (s : Vm) : EntryOutcome → Prop
  | early _ => True
  | _ => s.current = true ∧ s.launchState = s.entryInstr.requires

/-- The machine between the rounds: `running` when the loop of `vmx_run` is at its head. -/
structure Host where
  running : Bool
  vm : Vm

/-- What happens to the machine: a call of `virt_enable`, or a round of the loop,
with the success of the VMXOFF that follows the last one. -/
inductive HostLabel where
  | virtEnable (r : EnableResults)
  | entry (o : EntryOutcome) (vmxoff : Bool)

namespace Host

variable {h h' : Host} {img : Image} {ls : List HostLabel}

/-- A step of the machine, when its label applies. -/
def step (img : Image) : Host → HostLabel → Option Host
  | ⟨false, s⟩, .virtEnable r =>
    let (running, s) := s.virtEnableBegin img r
    some ⟨running, s⟩
  | ⟨true, s⟩, .entry o vmxoff => match s.vmxRunBody o with
    | (.again, s) => some ⟨true, s⟩
    | (.finished, s) => some ⟨false, s.virtEnableEnd vmxoff⟩
  | _, _ => none

/-- The relation of its steps. -/
def Takes (img : Image) (h : Host) (l : HostLabel) (h' : Host) : Prop := h.step img l = some h'

/-- The processor obeys the launch state. -/
def Legal (h : Host) : HostLabel → Prop
  | .virtEnable _ => True
  | .entry o _ => o.Legal h.vm

/-- A step that the processor allows. -/
def Step (img : Image) (h : Host) (l : HostLabel) (h' : Host) : Prop :=
  h.Legal l ∧ h.Takes img l h'

/-- The launched flag tells the launch state of the current structure. -/
structure FlagTracks (s : Vm) : Prop where
  current : s.current = true
  launched : s.launched = true ↔ s.launchState = .launched

/-- The flag tracks the state whenever an entry is about to be made, and every entry
so far was made with the right instruction. -/
structure Tracks (h : Host) : Prop where
  flag : h.running = true → FlagTracks h.vm
  entries : ∀ e ∈ h.vm.trace, e.EntersRightly

/-- A call of `virt_enable` that passes VMXON starts with the flag at 0 and gets a
cleared current structure. An entry that fails early on a clear structure finds bit 31
of the exit reason set. -/
def Safe (h : Host) : HostLabel → Prop
  | .virtEnable r => h.vm.isVmxSupported.1 = true → r.vmxon = true →
      h.vm.launched = false ∧ r.vmclear = true ∧ r.vmptrld = true
  | .entry (.early _) _ =>
      h.vm.launchState = .launched ∨ h.vm.vmcsRead .exiReason &&& vmxEntryFailure ≠ 0
  | .entry _ _ => True

/-! ## Calls of `virt_enable` as runs -/

/-- The loop of `vmx_run` and what follows it is a run of the machine. -/
theorem reach_vmxRun {os : List EntryOutcome} {s s' : Vm} (img : Image) (vmxoff : Bool)
    (hrun : s.vmxRun os = some s') :
    ∃ ls, Reach (Takes img) ⟨true, s⟩ ls ⟨false, s'.virtEnableEnd vmxoff⟩ := by
  induction os generalizing s with
  | nil => cases hrun
  | cons o os ih =>
    rw [Vm.vmxRun] at hrun
    cases hbody : s.vmxRunBody o with
    | mk flow t =>
      rw [hbody] at hrun
      cases flow with
      | again =>
        have hstep : Takes img ⟨true, s⟩ (.entry o vmxoff) ⟨true, t⟩ := by
          simp only [Takes, step, hbody]
        obtain ⟨ls, hls⟩ := ih hrun
        exact ⟨_, .cons hstep hls⟩
      | finished =>
        cases hrun
        have hstep : Takes img ⟨true, s⟩ (.entry o vmxoff) ⟨false, s'.virtEnableEnd vmxoff⟩ := by
          simp only [Takes, step, hbody]
        exact ⟨_, .cons hstep .nil⟩

/-- A call of `virt_enable` that returns is a run of the machine. -/
theorem reach_virtEnable {s s' : Vm} {img : Image} {r : EnableResults} {os : List EntryOutcome}
    {vmxoff : Bool} (hcall : s.virtEnable img r os vmxoff = some s') :
    ∃ ls, Reach (Takes img) ⟨false, s⟩ ls ⟨false, s'⟩ := by
  rw [Vm.virtEnable] at hcall
  cases hbegin : s.virtEnableBegin img r with
  | mk running t =>
    rw [hbegin] at hcall
    have hstep : Takes img ⟨false, s⟩ (.virtEnable r) ⟨running, t⟩ := by
      simp only [Takes, step, hbegin]
    cases running with
    | false =>
      cases hcall
      exact ⟨_, .cons hstep .nil⟩
    | true =>
      obtain ⟨u, hrun, rfl⟩ := Option.map_eq_some_iff.mp hcall
      obtain ⟨ls, hls⟩ := reach_vmxRun img vmxoff hrun
      exact ⟨_, .cons hstep hls⟩

/-! ## What steps do to the flag -/

variable {s : Vm} {o : EntryOutcome}

/-- An entry with the flag right is made with the right instruction. -/
theorem FlagTracks.requires (hs : FlagTracks s) : s.launchState = s.entryInstr.requires := by
  have hl := hs.launched
  rw [Vm.entryInstr]
  cases hflag : s.launched with
  | true => exact hl.mp hflag
  | false =>
    cases hst : s.launchState with
    | clear => rfl
    | launched => exact absurd (hflag.symm.trans (hl.mpr hst)) Bool.false_ne_true

theorem FlagTracks.entersRightly (hs : FlagTracks s) : s.entryEvent.EntersRightly := by
  change (if s.current then some s.launchState else none) = some s.entryInstr.requires
  rw [if_pos hs.current, hs.requires]

theorem admits_of_legal (hlegal : o.Legal s) : o.Admits s := by
  cases o with
  | early f => trivial
  | exit e => exact hlegal.1
  | late f => exact hlegal.1

/-- After a round the flag still tracks the state exactly when the round was safe. -/
theorem FlagTracks.vmxRunBody_iff (hs : FlagTracks s) (hlegal : o.Legal s) (running vmxoff : Bool) :
    FlagTracks (s.vmxRunBody o).2 ↔ Safe ⟨running, s⟩ (.entry o vmxoff) := by
  obtain ⟨hc, hl, hst⟩ := Vm.vmxRunBody_vmx s o
  have hentry := Vm.roundEntry_fst (admits_of_legal hlegal)
  rw [EntryOutcome.reasonAfter_iff] at hentry
  rw [hentry] at hl
  have hiff : FlagTracks (s.vmxRunBody o).2 ↔
      ((s.vmxRunBody o).2.launched = true ↔ (s.vmxRunBody o).2.launchState = .launched) :=
    ⟨FlagTracks.launched, fun hf => ⟨hc.trans hs.current, hf⟩⟩
  rw [hiff, hl, hst]
  cases o with
  | exit e =>
    refine iff_of_true (iff_of_true (.inl trivial) ?_) trivial
    have hreq := hs.requires
    cases hi : s.entryInstr with
    | vmlaunch => rfl
    | vmresume => exact hreq.trans (congrArg EntryInstr.requires hi)
  | early f =>
    change (_ ∨ s.launched = true ↔ s.launchState = .launched) ↔ s.launchState = .launched ∨ _
    rw [hs.launched]
    constructor
    · intro hflag
      by_cases hmark : s.vmcsRead .exiReason &&& vmxEntryFailure = 0
      · exact .inl (hflag.mp (.inl hmark))
      · exact .inr hmark
    · rintro (hlaunched | hmark)
      · exact iff_of_true (.inr hlaunched) hlaunched
      · exact or_iff_right hmark
  | late f =>
    refine iff_of_true ?_ trivial
    rw [false_or]
    exact hs.launched

/-- A call of `virt_enable` that reaches the loop makes the flag right exactly when it is safe. -/
theorem flagTracks_virtEnableBegin_iff {r : EnableResults}
    (hrun : (s.virtEnableBegin img r).1 = true) :
    FlagTracks (s.virtEnableBegin img r).2 ↔ Safe ⟨false, s⟩ (.virtEnable r) := by
  obtain ⟨hl, hc, hst, _⟩ := (Vm.virtEnableBegin_spec s img r).2 hrun
  obtain ⟨hsupp, hon⟩ := (Vm.virtEnableBegin_fst s img r).mp hrun
  have hsafe : Safe ⟨false, s⟩ (.virtEnable r) ↔
      s.launched = false ∧ r.vmclear = true ∧ r.vmptrld = true :=
    ⟨fun h => h hsupp hon, fun h _ _ => h⟩
  rw [hsafe]
  constructor
  · rintro ⟨hcur, hflag⟩
    rw [hc, Bool.and_eq_true] at hcur
    rw [hl, hst, if_pos hcur.1] at hflag
    refine ⟨?_, hcur⟩
    cases hla : s.launched with
    | false => rfl
    | true => cases hflag.mp hla
  · rintro ⟨hla, hclear, hptrld⟩
    refine ⟨by rw [hc, hclear, hptrld]; rfl, ?_⟩
    rw [hl, hst, if_pos hclear, hla]
    exact iff_of_false Bool.false_ne_true (by rintro ⟨⟩)

/-! ## What steps do to the trace -/

/-- Output adds no wrong entry. -/
theorem entersRightly_of_prints {s s' : Vm} (h : Vm.Prints s s')
    (hs : ∀ e ∈ s.trace, e.EntersRightly) : ∀ e ∈ s'.trace, e.EntersRightly := by
  obtain ⟨es, hes, hp⟩ := h
  rw [hes]
  intro e he
  rcases List.mem_append.mp he with he | he
  · have hprint := hp e he
    cases e with
    | printf fmt args => trivial
    | enter instr state => exact hprint.elim
    | exitHandler => trivial
    | entryFailureHandler => trivial
  · exact hs e he

/-- A round adds one entry, which is right when the flag is. -/
theorem entersRightly_vmxRunBody (hs : FlagTracks s) (ht : ∀ e ∈ s.trace, e.EntersRightly) :
    ∀ e ∈ (s.vmxRunBody o).2.trace, e.EntersRightly := by
  obtain ⟨es, hp, htrace⟩ := Vm.vmxRunBody_trace s o
  let t : Vm := { s with
    trace := Vm.handlerEvent (s.roundEntry o).1 :: s.entryEvent :: .printf "Guest in <<<\n" [] ::
      s.trace }
  refine entersRightly_of_prints (s := t) ⟨es, htrace, hp⟩ ?_
  intro e he
  rcases List.mem_cons.mp he with rfl | he
  · rw [Vm.handlerEvent]
    split_ifs <;> trivial
  rcases List.mem_cons.mp he with rfl | he
  · exact hs.entersRightly
  rcases List.mem_cons.mp he with rfl | he
  · trivial
  · exact ht e he

theorem prints_virtEnableEnd (s : Vm) (vmxoff : Bool) : Vm.Prints s (s.virtEnableEnd vmxoff) := by
  have hoff : Vm.Prints s { s with current := false } := .of_trace_eq rfl
  cases vmxoff with
  | true => exact hoff.trans (Vm.kept_printf _ _ _).trace
  | false => exact (Vm.kept_printf s _ _).trace

/-- A safe step keeps the flag right. -/
theorem Tracks.step {l : HostLabel} (ht : h.Tracks) (hs : h.Step img l h') (hsafe : h.Safe l) :
    h'.Tracks := by
  obtain ⟨hlegal, htakes⟩ := hs
  obtain ⟨running, s⟩ := h
  cases l with
  | virtEnable r =>
    cases running with
    | true => cases htakes
    | false =>
      have hprints := (Vm.virtEnableBegin_spec s img r).1
      cases htakes
      exact ⟨fun hrun => (flagTracks_virtEnableBegin_iff hrun).mpr hsafe,
        entersRightly_of_prints hprints ht.entries⟩
  | entry o vmxoff =>
    cases running with
    | false => cases htakes
    | true =>
      have hflag : FlagTracks s := ht.flag rfl
      have hflag' := (hflag.vmxRunBody_iff hlegal true vmxoff).mpr hsafe
      have hentries := entersRightly_vmxRunBody (o := o) hflag ht.entries
      rw [Takes, step] at htakes
      cases hbody : s.vmxRunBody o with
      | mk flow t =>
        rw [hbody] at hflag' hentries htakes
        cases flow with
        | again =>
          cases htakes
          exact ⟨fun _ => hflag', hentries⟩
        | finished =>
          cases htakes
          refine ⟨fun hrun => (by cases hrun), ?_⟩
          exact entersRightly_of_prints (prints_virtEnableEnd t vmxoff) hentries

/-- In every run of safe steps the launched flag tracks the launch state whenever an
entry is about to be made, and every entry is made with the instruction that the launch
state requires. -/
theorem reach_tracks (img : Image) (s₀ : Vm) (ht : s₀.trace = [])
    (hr : Reach (fun h l h' => Step img h l h' ∧ Safe h l) ⟨false, s₀⟩ ls h) : h.Tracks := by
  refine Reach.invariant Tracks hr ⟨fun hrun => (by cases hrun), ?_⟩ ?_
  · rw [ht]
    intro e he
    cases he
  · intro h l h' htracks hstep
    exact htracks.step hstep.1 hstep.2

/-! ## Steps that stay in the loop -/

/-- A call of `virt_enable` that reaches the loop. -/
theorem takes_begin {r : EnableResults} (hrun : (s.virtEnableBegin img r).1 = true) :
    Takes img ⟨false, s⟩ (.virtEnable r) ⟨true, (s.virtEnableBegin img r).2⟩ := by
  cases hbegin : s.virtEnableBegin img r with
  | mk running t =>
    rw [hbegin] at hrun
    cases hrun
    simp only [Takes, step, hbegin]

/-- The loop goes on after an entry that is taken for a success and an exit that is resumed. -/
theorem takes_resumed (hentry : (s.roundEntry o).1 = true)
    (hcur : (s.atExitHandler o).current = true) (hcall : Vm.exitReason (s.atExitHandler o) ≠ 18)
    (hept : Vm.exitReason (s.atExitHandler o) ≠ 48) (vmxoff : Bool) :
    Takes img ⟨true, s⟩ (.entry o vmxoff) ⟨true, (s.vmxRunBody o).2⟩ := by
  have hagain : (s.vmxRunBody o).1 = .again := by
    rw [Vm.vmxRunBody_entered hentry, (Vm.exitHandler_resumed hcur hcall hept).1]
    rfl
  cases hbody : s.vmxRunBody o with
  | mk flow t =>
    rw [hbody] at hagain
    cases hagain
    simp only [Takes, step, hbody]

/-- A successful entry from a state with the flag right, before an exit that is resumed. -/
theorem FlagTracks.step_exit (hs : FlagTracks s) (e : VmExit)
    (hcall : e.fields .exiReason &&& 0xff ≠ 18) (hept : e.fields .exiReason &&& 0xff ≠ 48)
    (vmxoff : Bool) :
    Step img ⟨true, s⟩ (.entry (.exit e) vmxoff) ⟨true, (s.vmxRunBody (.exit e)).2⟩ := by
  have hlegal : EntryOutcome.Legal s (.exit e) := ⟨hs.current, hs.requires⟩
  have hreason : Vm.exitReason (s.atExitHandler (.exit e)) = e.fields .exiReason &&& 0xff := by
    rw [Vm.exitReason, Vm.atExitHandler_exit _ _ (by decide)]
  refine ⟨hlegal, takes_resumed ?_ ?_ (hreason ▸ hcall) (hreason ▸ hept) vmxoff⟩
  · exact (Vm.roundEntry_fst (admits_of_legal hlegal)).mpr e.entered
  · exact (Vm.atExitHandler_current _ _).trans hs.current

/-- An early failure over an exit reason with bit 31 clear that `exit_handler` resumes. -/
theorem FlagTracks.step_early (hs : FlagTracks s) (f : EarlyFailure)
    (hclear : s.fields .exiReason &&& vmxEntryFailure = 0) (hcall : Vm.exitReason s ≠ 18)
    (hept : Vm.exitReason s ≠ 48) (vmxoff : Bool) :
    Step img ⟨true, s⟩ (.entry (.early f) vmxoff) ⟨true, (s.vmxRunBody (.early f)).2⟩ := by
  have hlegal : EntryOutcome.Legal s (.early f) := trivial
  have hreason : Vm.exitReason (s.atExitHandler (.early f)) = Vm.exitReason s := by
    rw [Vm.exitReason, Vm.exitReason, Vm.atExitHandler_early _ _ (by decide) (by decide)]
  refine ⟨hlegal, takes_resumed ?_ ?_ (hreason ▸ hcall) (hreason ▸ hept) vmxoff⟩
  · rw [Vm.roundEntry_fst (admits_of_legal hlegal), EntryOutcome.reasonAfter,
      Vm.vmcsRead_eq _ _ hs.current, hclear]
  · exact (Vm.atExitHandler_current _ _).trans hs.current

/-- Such a failure on a clear structure leaves the flag wrong. -/
theorem FlagTracks.not_early (hs : FlagTracks s) (f : EarlyFailure)
    (hzero : s.fields .exiReason &&& vmxEntryFailure = 0) (hclear : s.launchState = .clear) :
    ¬ FlagTracks (s.vmxRunBody (.early f)).2 := by
  rw [hs.vmxRunBody_iff (o := .early f) trivial true true]
  rintro (hlaunched | hmark)
  · cases hclear.symm.trans hlaunched
  · exact hmark ((congrArg (· &&& vmxEntryFailure) (Vm.vmcsRead_eq _ _ hs.current)).trans hzero)

/-! ## The first call of `virt_enable` -/

/-- A processor with VMX, before the program runs. -/
def bootVm : Vm := { Vm.initial ⟨fun _ => 0, []⟩ with cpuidEcx := 1 <<< 5 }

/-- All instructions succeed, and the loaded structure holds zeros. -/
def enabled : EnableResults := ⟨true, true, true, fun _ => 0, 0⟩

/-- The state in which the loop is entered. -/
def firstVm (img : Image) : Vm := (bootVm.virtEnableBegin img enabled).2

/-- A VM exit for CPUID. -/
def cpuidExit : VmExit :=
  ⟨⟨0, 0, 0, 0, 0, 0, 0⟩, fun e => if e = .exiReason then 10 else 0, 0, ⟨fun _ => 0, []⟩, 0,
    by decide⟩

theorem firstVm_reached (img : Image) : (bootVm.virtEnableBegin img enabled).1 = true :=
  (Vm.virtEnableBegin_fst _ _ _).mpr ⟨by decide, rfl⟩

theorem firstVm_tracks (img : Image) : FlagTracks (firstVm img) :=
  (flagTracks_virtEnableBegin_iff (firstVm_reached img)).mpr fun _ _ => ⟨rfl, rfl, rfl⟩

theorem step_first (img : Image) :
    Step img ⟨false, bootVm⟩ (.virtEnable enabled) ⟨true, firstVm img⟩ :=
  ⟨trivial, takes_begin (firstVm_reached img)⟩

/-- The first VMLAUNCH succeeds, the CPUID exit that follows is resumed, and VMRESUME is
next on a launched structure. -/
theorem reach_tracks_cpuid :
    Tracks ⟨true, ((firstVm ⟨0, 0, 0, 0, 0, 0, 0, 0x10a000, 0x10b000⟩).vmxRunBody
      (.exit cpuidExit)).2⟩ :=
  reach_tracks ⟨0, 0, 0, 0, 0, 0, 0, 0x10a000, 0x10b000⟩ bootVm rfl
    (.snoc (.snoc .nil ⟨step_first _, fun _ _ => ⟨rfl, rfl, rfl⟩⟩)
      ⟨(firstVm_tracks _).step_exit cpuidExit (by decide) (by decide) true, trivial⟩)

/-- A first VMLAUNCH that fails early leaves the structure clear, but the exit reason 0 of
the new structure lets the failure pass for an exit, and the flag is set. -/
theorem not_tracks_early_failure :
    ¬ ∀ img s₀ ls h, s₀.trace = [] → s₀.launched = false →
      Reach (Step img) ⟨false, s₀⟩ ls h → h.Tracks := by
  intro hall
  let img : Image := ⟨0, 0, 0, 0, 0, 0, 0, 0x10a000, 0x10b000⟩
  have hs := firstVm_tracks img
  obtain ⟨_, _, hstate, hfields⟩ :=
    (Vm.virtEnableBegin_spec bootVm img enabled).2 (firstVm_reached img)
  have hclear : (firstVm img).launchState = .clear := by
    rw [firstVm, hstate]
    rfl
  have hzero : (firstVm img).fields .exiReason = 0 := by
    rw [firstVm, hfields rfl rfl]
    rfl
  have hstep : Step img ⟨true, firstVm img⟩ (.entry (.early ⟨x86EflagsZf, 7, by decide⟩) true)
      ⟨true, ((firstVm img).vmxRunBody (.early ⟨x86EflagsZf, 7, by decide⟩)).2⟩ :=
    hs.step_early _ (by rw [hzero]; rfl) (by rw [Vm.exitReason, hzero]; decide)
      (by rw [Vm.exitReason, hzero]; decide) true
  have htracks := hall img bootVm _ _ rfl rfl (.snoc (.snoc .nil (step_first img)) hstep)
  exact hs.not_early _ (by rw [hzero]; rfl) hclear (htracks.flag rfl)

end Host

end DmfOs
