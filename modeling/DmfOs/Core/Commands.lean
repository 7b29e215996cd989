import Mathlib.Logic.Relation

/-!
# Commands that share a state with an environment

Code is a list of commands that act on locals of its own and on a shared state; the
environment acts on the shared state between any two of them. A command says what is to
run in its place, so that a wait puts itself back and a test puts in a branch. `Triple`
says what holds at every moment of a run from a precondition and what holds at its end,
and has one rule for each way to compose code.
-/

namespace DmfOs

open Relation

variable {α κ σ : Type*}

/-- Commands, and what else acts on the shared state. -/
structure Machine (α κ σ : Type*) where
  /-- What replaces the command, with the locals and the shared state after it. -/
  exec : α → κ → σ → List α × κ × σ
  env : σ → σ → Prop

/-- Code that is left to run, its locals and the shared state. -/
structure Config (α κ σ : Type*) where
  code : List α
  loc : κ
  shared : σ

namespace Machine

variable {M : Machine α κ σ} {P P' Q Q' R J J' : κ → σ → Prop} {l l' : List α} {a : α}
  {c c' : Config α κ σ} {x : κ} {s s' : σ}

/-- One command, or one step of the environment. -/
inductive Steps (M : Machine α κ σ) : Config α κ σ → Config α κ σ → Prop
  | exec (a : α) (l : List α) (x : κ) (s : σ) :
      Steps M ⟨a :: l, x, s⟩ ⟨(M.exec a x s).1 ++ l, (M.exec a x s).2.1, (M.exec a x s).2.2⟩
  | env (l : List α) (x : κ) {s s' : σ} : M.env s s' → Steps M ⟨l, x, s⟩ ⟨l, x, s'⟩

/-- Any number of steps. -/
abbrev Runs (M : Machine α κ σ) : Config α κ σ → Config α κ σ → Prop := ReflTransGen M.Steps

/-- More code behind does not matter to a step. -/
theorem Steps.append (h : M.Steps c c') (l : List α) :
    M.Steps ⟨c.code ++ l, c.loc, c.shared⟩ ⟨c'.code ++ l, c'.loc, c'.shared⟩ := by
  cases h with
  | exec a l₀ x s =>
    rw [List.cons_append, List.append_assoc]
    exact .exec a (l₀ ++ l) x s
  | env l₀ x he => exact .env _ _ he

theorem Runs.append (h : M.Runs c c') (l : List α) :
    M.Runs ⟨c.code ++ l, c.loc, c.shared⟩ ⟨c'.code ++ l, c'.loc, c'.shared⟩ := by
  induction h with
  | refl => exact .refl
  | tail _ hs ih => exact ih.tail (hs.append l)

/-- A run of code in two parts is in the first part, or has left it for the second. -/
theorem runs_append (h : M.Runs ⟨l ++ l', x, s⟩ c) :
    (∃ r, c.code = r ++ l' ∧ M.Runs ⟨l, x, s⟩ ⟨r, c.loc, c.shared⟩) ∨
      ∃ y t, M.Runs ⟨l, x, s⟩ ⟨[], y, t⟩ ∧ M.Runs ⟨l', y, t⟩ c := by
  induction h with
  | refl => exact .inl ⟨l, rfl, .refl⟩
  | @tail c c' _ hs ih =>
    rcases ih with ⟨r, hcode, hrun⟩ | ⟨y, t, hfst, hsnd⟩
    · cases hs with
      | exec a k y t =>
        cases r with
        | nil =>
          -- the first part has ended, and the step is the first one of the second part
          rw [List.nil_append] at hcode
          subst hcode
          exact .inr ⟨y, t, hrun, .single (.exec a k y t)⟩
        | cons b r =>
          obtain ⟨rfl, rfl⟩ := List.cons.inj hcode
          exact .inl ⟨_, (List.append_assoc ..).symm, hrun.tail (.exec a r y t)⟩
      | env k y he => exact .inl ⟨r, hcode, hrun.tail (.env r y he)⟩
    · exact .inr ⟨y, t, hfst, hsnd.tail hs⟩

/-! ## Rules -/

/-- The environment keeps an assertion. -/
def Stable (M : Machine α κ σ) (P : κ → σ → Prop) : Prop :=
  ∀ x s s', M.env s s' → P x s → P x s'

/-- From `P`, the code keeps `J` at every moment and has `Q` when it ends. -/
def Triple (M : Machine α κ σ) (J P : κ → σ → Prop) (l : List α) (Q : κ → σ → Prop) : Prop :=
  ∀ x s, P x s → ∀ c, M.Runs ⟨l, x, s⟩ c →
    J c.loc c.shared ∧ (c.code = [] → Q c.loc c.shared)

/-- Where no command is left, only the environment steps. -/
theorem Stable.nil (hP : M.Stable P) (hJ : ∀ x s, P x s → J x s) : M.Triple J P [] P := by
  intro x s hp c hrun
  suffices c.code = [] ∧ P c.loc c.shared from ⟨hJ _ _ this.2, fun _ => this.2⟩
  induction hrun with
  | refl => exact ⟨rfl, hp⟩
  | tail _ hs ih =>
    cases hs with
    | exec => exact absurd ih.1 (List.cons_ne_nil _ _)
    | env _ _ he => exact ⟨ih.1, hP _ _ _ he ih.2⟩

theorem Triple.mono (h : M.Triple J P l Q) (hJ : ∀ x s, J x s → J' x s)
    (hP : ∀ x s, P' x s → P x s) (hQ : ∀ x s, Q x s → Q' x s) : M.Triple J' P' l Q' := by
  intro x s hp c hrun
  obtain ⟨hj, hq⟩ := h x s (hP x s hp) c hrun
  exact ⟨hJ _ _ hj, fun hnil => hQ _ _ (hq hnil)⟩

/-- Code after code. -/
theorem Triple.append (h : M.Triple J P l Q) (h' : M.Triple J Q l' R) :
    M.Triple J P (l ++ l') R := by
  intro x s hp c hrun
  rcases runs_append hrun with ⟨r, hcode, hfst⟩ | ⟨y, t, hfst, hsnd⟩
  · obtain ⟨hj, hq⟩ := h x s hp _ hfst
    refine ⟨hj, fun hnil => ?_⟩
    obtain ⟨rfl, rfl⟩ := List.append_eq_nil_iff.mp (hcode.symm.trans hnil)
    exact (h' _ _ (hq rfl) _ .refl).2 rfl
  · exact h' y t ((h x s hp _ hfst).2 rfl) c hsnd

/-- A command either waits in a state that still has the precondition, or leaves a state
from which what replaces it leads on. -/
theorem Triple.command (hP : M.Stable P) (hJ : ∀ x s, P x s → J x s)
    (hexec : ∀ x s, P x s →
      (M.exec a x s).1 = [a] ∧ P (M.exec a x s).2.1 (M.exec a x s).2.2 ∨
        ∃ R : κ → σ → Prop, R (M.exec a x s).2.1 (M.exec a x s).2.2 ∧
          M.Triple J R (M.exec a x s).1 Q) :
    M.Triple J P [a] Q := by
  intro x s hp c hrun
  suffices (c.code = [a] ∧ P c.loc c.shared) ∨
      ∃ (R : κ → σ → Prop) (y : κ) (t : σ) (l : List α), R y t ∧ M.Triple J R l Q ∧
        M.Runs ⟨l, y, t⟩ c by
    rcases this with ⟨hcode, hp'⟩ | ⟨R, y, t, l, hr, htr, hrun'⟩
    · exact ⟨hJ _ _ hp', fun hnil => absurd (hcode.symm.trans hnil) (List.cons_ne_nil _ _)⟩
    · exact htr y t hr c hrun'
  induction hrun with
  | refl => exact .inl ⟨rfl, hp⟩
  | @tail c c' _ hs ih =>
    rcases ih with ⟨hcode, hp'⟩ | ⟨R, y, t, l, hr, htr, hrun'⟩
    · cases hs with
      | exec b k y t =>
        obtain ⟨rfl, rfl⟩ := List.cons.inj hcode
        rcases hexec y t hp' with ⟨hwait, hp''⟩ | ⟨R, hr, htr⟩
        · exact .inl ⟨by rw [hwait, List.append_nil], hp''⟩
        · refine .inr ⟨R, _, _, _, hr, htr, ?_⟩
          rw [List.append_nil]
      | env k y he => exact .inl ⟨hcode, hP _ _ _ he hp'⟩
    · exact .inr ⟨R, y, t, l, hr, htr, hrun'.tail hs⟩

/-- A command that is done in one step. -/
theorem Triple.atom (hP : M.Stable P) (hQ : M.Stable Q) (hPJ : ∀ x s, P x s → J x s)
    (hQJ : ∀ x s, Q x s → J x s)
    (hexec : ∀ x s, P x s →
      (M.exec a x s).1 = [] ∧ Q (M.exec a x s).2.1 (M.exec a x s).2.2) :
    M.Triple J P [a] Q := by
  refine .command hP hPJ fun x s hp => .inr ⟨Q, (hexec x s hp).2, ?_⟩
  rw [(hexec x s hp).1]
  exact hQ.nil hQJ

/-! ## Ends -/

/-- From every state, the code can run to its end. -/
def Ends (M : Machine α κ σ) (l : List α) : Prop :=
  ∀ x s, ∃ y t, M.Runs ⟨l, x, s⟩ ⟨[], y, t⟩

theorem Ends.nil : M.Ends [] := fun x s => ⟨x, s, .refl⟩

theorem Ends.append (h : M.Ends l) (h' : M.Ends l') : M.Ends (l ++ l') := by
  intro x s
  obtain ⟨y, t, hfst⟩ := h x s
  obtain ⟨z, u, hsnd⟩ := h' y t
  exact ⟨z, u, (hfst.append l').trans hsnd⟩

/-- Code ends when each of its commands does. -/
theorem ends_of_forall (h : ∀ a ∈ l, M.Ends [a]) : M.Ends l := by
  induction l with
  | nil => exact .nil
  | cons a l ih =>
    exact (h a List.mem_cons_self).append (ih fun b hb => h b (List.mem_cons_of_mem a hb))

/-- A command ends when what replaces it does. -/
theorem Ends.command (h : ∀ x s, M.Ends (M.exec a x s).1) : M.Ends [a] := by
  intro x s
  obtain ⟨y, t, hrun⟩ := h x s (M.exec a x s).2.1 (M.exec a x s).2.2
  have hstep := Steps.exec (M := M) a [] x s
  rw [List.append_nil] at hstep
  exact ⟨y, t, .head hstep hrun⟩

end Machine

end DmfOs
