import Mathlib.Logic.Function.Iterate
import Mathlib.Order.Basic

/-!
# Runs of a labelled step relation

A run takes one label per step. `Reach` collects the labels of a run and
`Along` states that a condition on state and label holds at every step that a
sequence of labels takes. `along_iff` exchanges two such conditions that agree
wherever the invariant holds, although neither need keep it on its own. For a step that
is a function, `Leads` says that some number of steps leads from a state to another.
-/

namespace DmfOs

variable {σ ι : Type*} {R : σ → ι → σ → Prop} {s s' : σ} {is : List ι}

/-- The states a run from `s` ends in, with the labels it took in order. -/
inductive Reach (R : σ → ι → σ → Prop) (s : σ) : List ι → σ → Prop
  /-- The empty run. -/
  | nil : Reach R s [] s
  /-- One more step. -/
  | snoc {is : List ι} {t u : σ} {i : ι} :
      Reach R s is t → R t i u → Reach R s (is ++ [i]) u

/-- A step before a run. -/
theorem Reach.cons {t u : σ} {i : ι} (hs : R s i t) (h : Reach R t is u) :
    Reach R s (i :: is) u := by
  induction h with
  | nil => exact (Reach.snoc .nil hs : Reach R s ([] ++ [i]) _)
  | snoc _ hs' ih => exact .snoc ih hs'

/-- A run after a run. -/
theorem Reach.append {js : List ι} {t u : σ} (h : Reach R s is t) (h' : Reach R t js u) :
    Reach R s (is ++ js) u := by
  induction h' with
  | nil => rwa [List.append_nil]
  | snoc _ hs ih =>
    rw [← List.append_assoc]
    exact ih.snoc hs

theorem Reach.nil_iff : Reach R s [] s' ↔ s' = s := by
  refine ⟨fun h => ?_, fun h => h ▸ .nil⟩
  generalize hl : ([] : List ι) = l at h
  cases h with
  | nil => rfl
  | snoc _ _ => simp at hl

/-- A run takes its first step first. -/
theorem Reach.cons_iff {i : ι} :
    Reach R s (i :: is) s' ↔ ∃ t, R s i t ∧ Reach R t is s' := by
  refine ⟨fun h => ?_, fun ⟨t, hs, h⟩ => .cons hs h⟩
  generalize hl : i :: is = l at h
  induction h generalizing is with
  | nil => cases hl
  | @snoc js t u j hr hs ih =>
    cases js with
    | nil =>
      obtain ⟨rfl, rfl⟩ := List.cons.inj hl
      cases Reach.nil_iff.mp hr
      exact ⟨u, hs, .nil⟩
    | cons k js =>
      obtain ⟨rfl, rfl⟩ := List.cons.inj hl
      obtain ⟨v, hv, hrun⟩ := ih rfl
      exact ⟨v, hv, .snoc hrun hs⟩

/-- What holds at the start and is kept by every step holds after every run. -/
theorem Reach.invariant (Inv : σ → Prop) (h : Reach R s is s') (h0 : Inv s)
    (hstep : ∀ t i u, Inv t → R t i u → Inv u) : Inv s' := by
  induction h with
  | nil => exact h0
  | snoc _ hs ih => exact hstep _ _ _ ih hs

/-- `P` holds of the state and the label at every step taken along the labels. -/
def Along (R : σ → ι → σ → Prop) (P : σ → ι → Prop) : σ → List ι → Prop
  | _, [] => True
  | s, i :: is => P s i ∧ ∀ s', R s i s' → Along R P s' is

/-- Along labels one after another, the condition holds along the first ones and along
the others wherever the first ones lead. -/
theorem along_append {P : σ → ι → Prop} {js : List ι} :
    Along R P s (is ++ js) ↔ Along R P s is ∧ ∀ t, Reach R s is t → Along R P t js := by
  induction is generalizing s with
  | nil =>
    refine ⟨fun h => ⟨trivial, fun t hr => ?_⟩, fun h => h.2 s .nil⟩
    cases Reach.nil_iff.mp hr
    exact h
  | cons i is ih =>
    simp only [List.cons_append, Along, ih, Reach.cons_iff]
    constructor
    · rintro ⟨hp, h⟩
      exact ⟨⟨hp, fun u hu => (h u hu).1⟩, fun t ⟨u, hu, hr⟩ => (h u hu).2 t hr⟩
    · rintro ⟨⟨hp, h⟩, h'⟩
      exact ⟨hp, fun u hu => ⟨h u hu, fun t hr => h' t ⟨u, hu, hr⟩⟩⟩

/-- Two step conditions that agree under an invariant hold along the same runs,
when a step that satisfies one of them keeps the invariant. -/
theorem along_iff (Inv : σ → Prop) {P C : σ → ι → Prop} (h0 : Inv s)
    (hiff : ∀ t i, Inv t → (P t i ↔ C t i))
    (hstep : ∀ t i u, Inv t → C t i → R t i u → Inv u) :
    Along R P s is ↔ Along R C s is := by
  induction is generalizing s with
  | nil => exact Iff.rfl
  | cons i is ih =>
    simp only [Along, hiff s i h0]
    refine and_congr_right fun hc => forall_congr' fun t => ?_
    exact ⟨fun h hr => (ih (hstep s i t h0 hc hr)).mp (h hr),
      fun h hr => (ih (hstep s i t h0 hc hr)).mpr (h hr)⟩

/-! ## Steps that are functions -/

variable {f : σ → σ} {s₁ s₂ s₃ : σ}

/-- Some number of steps leads from one state to the other. -/
def Leads (f : σ → σ) (s t : σ) : Prop := ∃ n, f^[n] s = t

theorem Leads.refl (f : σ → σ) (s : σ) : Leads f s s := ⟨0, rfl⟩

/-- One step first. -/
theorem Leads.head (h : Leads f s₂ s₃) (hs : f s₁ = s₂) : Leads f s₁ s₃ := by
  obtain ⟨n, hn⟩ := h
  exact ⟨n + 1, by rw [Function.iterate_succ_apply, hs, hn]⟩

theorem Leads.trans (h : Leads f s₁ s₂) (h' : Leads f s₂ s₃) : Leads f s₁ s₃ := by
  obtain ⟨n, rfl⟩ := h
  obtain ⟨k, hk⟩ := h'
  exact ⟨k + n, by rw [Function.iterate_add_apply, hk]⟩

end DmfOs
