import DmfOs.Vm.Run

/-!
# Failed entries

`vmx_enter_guest` decides by the exit reason alone whether the entry succeeded.
A late failure shows there, but an early one leaves the field as it was. So the
loop of `vmx_run` handles every failure as one exactly when no entry fails early
over an exit reason with bit 31 clear.
-/

namespace DmfOs

/-- The heading under which a failed entry is printed. -/
def EntryOutcome.heading : EntryOutcome → String
  | early _ => "Early %s failure: \n"
  | _ => "Non-early %s failure (reason=%#x, qual=%#x):\n"

namespace Vm

variable {s t u : Vm} {o : EntryOutcome}

/-- A round takes the entry for what it was, and handles a failed one as a failure. -/
structure Judged (s : Vm) (o : EntryOutcome) : Prop where
  /-- `vmx_enter_guest` returns true exactly for a success. -/
  entered : (s.roundEntry o).1 = true ↔ o.Succeeds
  exitHandler : .exitHandler ∈ since s (s.vmxRunBody o).2 ↔ o.Succeeds
  /-- The launched flag is set by a success only. -/
  launched : (s.vmxRunBody o).2.launched = true ↔ o.Succeeds ∨ s.launched = true
  failureHandler : .entryFailureHandler ∈ since s (s.vmxRunBody o).2 ↔ ¬ o.Succeeds
  printed : ¬ o.Succeeds → ∃ args, .printf o.heading args ∈ since s (s.vmxRunBody o).2
  ends : ¬ o.Succeeds → (s.vmxRunBody o).1 = .finished

/-- An early failure finds bit 31 of the exit reason set. -/
def Marked (s : Vm) : EntryOutcome → Prop
  | .early _ => s.vmcsRead .exiReason &&& vmxEntryFailure ≠ 0
  | _ => True

/-- The entry is taken for a success when it was one, or failed early without a mark. -/
theorem roundEntry_iff (h : o.Admits s) :
    (s.roundEntry o).1 = true ↔ o.Succeeds ∨ ¬ Marked s o := by
  rw [roundEntry_fst h, EntryOutcome.reasonAfter_iff]
  cases o with
  | exit e => exact iff_of_true trivial (.inl trivial)
  | early f =>
    simp only [EntryOutcome.Succeeds, Marked, false_or, not_not]
  | late f =>
    simp only [EntryOutcome.Succeeds, Marked, not_true_eq_false, or_false]

/-- The events of a round name the handler that was called. -/
theorem handler_mem_since (s : Vm) (o : EntryOutcome) :
    (.exitHandler ∈ since s (s.vmxRunBody o).2 ↔ (s.roundEntry o).1 = true) ∧
      (.entryFailureHandler ∈ since s (s.vmxRunBody o).2 ↔ (s.roundEntry o).1 = false) := by
  obtain ⟨es, hp, htrace⟩ := vmxRunBody_trace s o
  have hsince : since s (s.vmxRunBody o).2 = es ++ [handlerEvent (s.roundEntry o).1, s.entryEvent,
      .printf "Guest in <<<\n" []] :=
    since_eq (by rw [htrace, List.append_assoc]; rfl)
  have hexit : Event.exitHandler ∉ es := fun he => hp _ he
  have hfail : Event.entryFailureHandler ∉ es := fun he => hp _ he
  rw [hsince]
  cases (s.roundEntry o).1 with
  | true => simp [handlerEvent, entryEvent, hexit, hfail]
  | false => simp [handlerEvent, entryEvent, hexit, hfail]

/-- What is printed before further output stays in the trace. -/
theorem printf_mem_since {es : List Event} {fmt : String} {args : List PrintArg}
    (ht : t.trace = es ++ s.trace) (hu : Kept (t.printf fmt args) u) :
    .printf fmt args ∈ since s u := by
  obtain ⟨es', hes', _⟩ := hu.trace
  have htrace : u.trace = (es' ++ .printf fmt args :: es) ++ s.trace := by
    rw [hes', printf_trace, ht, List.append_assoc, List.cons_append]
  rw [since_eq htrace]
  simp

/-- The report of a failure starts with its heading. -/
theorem printVmentryFailureInfo_heading (s : Vm) (failure : VmentryFailure) :
    ∃ args, Kept (s.printf (if failure.early then "Early %s failure: \n"
      else "Non-early %s failure (reason=%#x, qual=%#x):\n") args)
        (s.printVmentryFailureInfo failure) := by
  cases he : failure.early with
  | true =>
    refine ⟨[.str failure.instr.mnemonic], ?_⟩
    simp only [printVmentryFailureInfo, he, ite_true]
    split_ifs <;> exact kept_printf _ _ _
  | false =>
    refine ⟨[.str failure.instr.mnemonic, .num (s.vmcsRead .exiReason),
      .num (s.vmcsRead .exiQualification)], ?_⟩
    simp only [printVmentryFailureInfo, he, Bool.false_eq_true, ite_false]
    -- the lines after the heading only add to the state it leaves
    generalize s.printf "Non-early %s failure (reason=%#x, qual=%#x):\n" _ = t
    split_ifs
    all_goals
      repeat apply Kept.printf
      exact .refl t

/-- A failure that is taken for one is printed and ends the loop. -/
theorem vmxRunBody_failure (h : (s.roundEntry o).1 = false) :
    (∃ args, .printf o.heading args ∈ since s (s.vmxRunBody o).2) ∧
      (s.vmxRunBody o).1 = .finished := by
  rw [vmxRunBody_failed h]
  refine ⟨?_, rfl⟩
  obtain ⟨args, hkept⟩ := printVmentryFailureInfo_heading (s.atFailureHandler o).printVmexitInfo
    (s.roundEntry o).2.1
  obtain ⟨es, hes, _⟩ := (kept_printVmexitInfo (s.atFailureHandler o)).trace
  have htrace : (s.atFailureHandler o).printVmexitInfo.trace =
      (es ++ [.entryFailureHandler, s.entryEvent, .printf "Guest in <<<\n" []]) ++ s.trace := by
    rw [hes, atFailureHandler, emit_trace, (roundEntry_spec s o).2.2.1, List.append_assoc]
    rfl
  have hheading : o.heading = if (s.roundEntry o).2.1.early then "Early %s failure: \n"
      else "Non-early %s failure (reason=%#x, qual=%#x):\n" := by
    cases o <;> rfl
  rw [hheading]
  exact ⟨args, printf_mem_since htrace hkept⟩

/-- A round judges its entry rightly exactly when an early failure is marked. -/
theorem judged_iff (h : o.Admits s) : Judged s o ↔ Marked s o := by
  obtain ⟨hexit, hfail⟩ := handler_mem_since s o
  obtain ⟨_, hlaunched, _⟩ := vmxRunBody_vmx s o
  have hentry := roundEntry_iff h
  constructor
  · intro hj
    by_contra hmark
    have hs : o.Succeeds := hj.entered.mp (hentry.mpr (.inr hmark))
    cases o with
    | exit e => exact hmark trivial
    | early f => exact hs
    | late f => exact hs
  · intro hmark
    have hsucc : (s.roundEntry o).1 = true ↔ o.Succeeds := by
      rw [hentry]
      exact or_iff_left (not_not_intro hmark)
    have hnot : (s.roundEntry o).1 = false ↔ ¬ o.Succeeds := by
      rw [← hsucc, Bool.not_eq_true]
    have hreport (hf : ¬ o.Succeeds) := vmxRunBody_failure (hnot.mpr hf)
    exact ⟨hsucc, hexit.trans hsucc, hlaunched.trans (or_congr_left hsucc), hfail.trans hnot,
      fun hf => (hreport hf).1, fun hf => (hreport hf).2⟩

/-- In a run of the loop every entry is judged rightly if and only if every early
failure happens over an exit reason with bit 31 set. -/
theorem along_judged_iff (s : Vm) (os : List EntryOutcome) :
    Along Rounds (fun s o => o.Admits s → Judged s o) s os ↔
      Along Rounds (fun s o => o.Admits s → Marked s o) s os :=
  along_iff (fun _ => True) trivial
    (fun _ _ _ => forall_congr' fun h => judged_iff h) fun _ _ _ _ _ _ => trivial

/-- A first VMLAUNCH that fails early, on a structure whose exit reason is still 0,
is taken for a success. -/
theorem not_judged_first_vmlaunch :
    ¬ Along Rounds (fun s o => o.Admits s → Judged s o)
      { initial ⟨fun _ => 0, []⟩ with current := true }
      [.early ⟨x86EflagsZf, 7, by decide⟩] := by
  rintro ⟨h, _⟩
  refine (judged_iff ?_).mp (h trivial) rfl
  trivial

end Vm

end DmfOs
