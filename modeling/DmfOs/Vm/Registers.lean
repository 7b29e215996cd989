import DmfOs.Vm.View

/-!
# The general registers across world switches

`SAVE_GPR_C` and `LOAD_GPR_C` swap the registers with the words of `regs`, once
before and once after the entry instruction on every path. The host keeps its
registers except `edi`, and the guest continues with the registers of its last exit,
however many rounds of the loop lie in between.
-/

namespace DmfOs

/-- The host finds its registers again, except for the clobbered `edi`. -/
structure Gpr.KeptBy (g g' : Gpr) : Prop where
  eax : g'.eax = g.eax
  ebx : g'.ebx = g.ebx
  ecx : g'.ecx = g.ecx
  edx : g'.edx = g.edx
  ebp : g'.ebp = g.ebp
  esi : g'.esi = g.esi

/-- The registers at the last exit of the guest, or the given ones if it never ran. -/
def EntryOutcome.lastGpr (g : Gpr) (os : List EntryOutcome) : Gpr :=
  os.foldl (fun g o => o.gprAfter g) g

namespace Vm

variable {s s' : Vm} {o : EntryOutcome} {os : List EntryOutcome}

/-- The state in which the entry instruction of the next round is executed. -/
def atEntry (s : Vm) : Vm := (s.printf "Guest in <<<\n" []).prepareEntry

/-- The guest is entered with the saved registers. -/
theorem atEntry_gpr (s : Vm) : s.atEntry.gpr = s.regs.gpr :=
  congrArg View.gpr (view_prepareEntry (s.printf "Guest in <<<\n" []))

/-- `exit_handler` does not write the saved registers. -/
theorem exitHandler_saved (s : Vm) : s.exitHandler.2.regs.gpr = s.regs.gpr := by
  by_cases hcall : s.isHypercall = true
  · exact congrArg View.saved (exitHandler_verdict hcall).2
  · exact congrArg View.saved (view_exitHandler hcall)

/-- A round saves the registers of its entry. -/
theorem vmxRunBody_saved (s : Vm) (o : EntryOutcome) :
    (s.vmxRunBody o).2.regs.gpr = o.gprAfter s.regs.gpr := by
  have hentry : (s.roundEntry o).2.2.regs.gpr = o.gprAfter s.regs.gpr :=
    congrArg View.saved (view_roundEntry s o)
  cases h : (s.roundEntry o).1 with
  | true =>
    rw [vmxRunBody_entered h]
    have hdispatch := view_dispatch (s.atExitHandler o).exitHandler.2
      (s.atExitHandler o).exitHandler.1 true (s.roundEntry o).2.1
    exact (congrArg View.saved hdispatch).trans ((exitHandler_saved _).trans hentry)
  | false =>
    rw [vmxRunBody_failed h]
    have hprint := (view_printVmentryFailureInfo (s.atFailureHandler o).printVmexitInfo
      (s.roundEntry o).2.1).trans (view_printVmexitInfo _)
    exact (congrArg View.saved hprint).trans hentry

/-- After any number of rounds the saved registers are those of the last exit. -/
theorem saved_of_reach (h : Reach Rounds s os s') :
    s'.regs.gpr = EntryOutcome.lastGpr s.regs.gpr os := by
  induction h with
  | nil => rfl
  | @snoc os t u o _ hs ih =>
    have hbody := vmxRunBody_saved t o
    rw [hs.2] at hbody
    rw [EntryOutcome.lastGpr, List.foldl_append]
    exact hbody.trans (congrArg o.gprAfter ih)

/-- After every number of rounds, the next entry finds the registers of the guest's last
exit, whatever its outcome gives the host its registers back, and `regs` then holds the
registers of the guest at its exit, or unchanged ones if it does not run. -/
theorem gpr_survive (h : Reach Rounds s os s') (o : EntryOutcome) :
    s'.atEntry.gpr = EntryOutcome.lastGpr s.regs.gpr os ∧
      s'.gpr.KeptBy (s'.vmxEnterGuest o).2.2.gpr ∧
      (s'.vmxEnterGuest o).2.2.regs.gpr = o.gprAfter s'.regs.gpr := by
  have hview := view_vmxEnterGuest s' o
  refine ⟨(atEntry_gpr s').trans (saved_of_reach h), ?_, congrArg View.saved hview⟩
  have hgpr : (s'.vmxEnterGuest o).2.2.gpr = { s'.gpr with edi := o.ediAfter } :=
    congrArg View.gpr hview
  rw [hgpr]
  exact ⟨rfl, rfl, rfl, rfl, rfl, rfl⟩

/-- A successful entry and an exit that is resumed make a round. -/
theorem rounds_resumed {e : VmExit} (h : s.current = true)
    (hcall : e.fields .exiReason &&& 0xff ≠ 18) (hept : e.fields .exiReason &&& 0xff ≠ 48) :
    Rounds s (.exit e) (s.vmxRunBody (.exit e)).2 := by
  have hcur : (s.atExitHandler (.exit e)).current = true := (atExitHandler_current _ _).trans h
  have hreason : exitReason (s.atExitHandler (.exit e)) = e.fields .exiReason &&& 0xff := by
    rw [exitReason, atExitHandler_exit _ _ (by decide)]
  have hres := (exitHandler_resumed hcur (hreason ▸ hcall) (hreason ▸ hept)).1
  exact ⟨h, Prod.ext ((vmxRunBody_exit hcur).1.mpr (.inl hres)) rfl⟩

/-- A guest that leaves with CPUID is entered with the registers it left with. -/
theorem gpr_survive_cpuid :
    let e : VmExit := ⟨⟨1, 2, 3, 4, 5, 6, 7⟩, fun e => if e = .exiReason then 10 else 0, 0,
      ⟨fun _ => 0, []⟩, 0, by decide⟩
    let s : Vm := { initial ⟨fun _ => 0, []⟩ with current := true }
    (s.vmxRunBody (.exit e)).2.atEntry.gpr = ⟨1, 2, 3, 4, 5, 6, 7⟩ := by
  intro e s
  have hround : Rounds s (.exit e) (s.vmxRunBody (.exit e)).2 :=
    rounds_resumed rfl (by decide) (by decide)
  exact (gpr_survive (.snoc .nil hround) (.exit e)).1

end Vm

end DmfOs
