import Mathlib.Data.List.Nodup
import Mathlib.Data.List.Basic

/-!
# Singly linked lists through a successor function

`Linked next nil a L` says that following `next` from `a` visits exactly the
nodes of `L` and then ends at `nil`. The successor function is arbitrary: for a
list threaded through memory it is the word loaded from a node. A finite list
visits no node twice, so its links are enough to exclude cycles.
-/

namespace DmfOs

variable {α : Type*} {next next' : α → α} {nil a x : α} {L A B : List α}

/-- From `a` the links visit `L` in order and then end. -/
def Linked (next : α → α) (nil : α) : α → List α → Prop
  | a, [] => a = nil
  | a, x :: L => a = x ∧ x ≠ nil ∧ Linked next nil (next x) L

instance decidableLinked [DecidableEq α] (next : α → α) (nil a : α) (L : List α) :
    Decidable (Linked next nil a L) :=
  match L with
  | [] => inferInstanceAs (Decidable (a = nil))
  | x :: L =>
    have := decidableLinked next nil (next x) L
    inferInstanceAs (Decidable (a = x ∧ x ≠ nil ∧ Linked next nil (next x) L))

/-- The list starts at its first node. -/
theorem Linked.head_eq (h : Linked next nil a L) : a = L.headD nil := by
  cases L with
  | nil => exact h
  | cons x L => exact h.1

/-- The links determine the list. -/
theorem Linked.unique (h : Linked next nil a A) (h' : Linked next nil a B) : A = B := by
  induction A generalizing a B with
  | nil =>
    cases B with
    | nil => rfl
    | cons y B => exact absurd (h'.1.symm.trans h) h'.2.1
  | cons x A ih =>
    cases B with
    | nil => exact absurd (h.1.symm.trans h') h.2.1
    | cons y B =>
      obtain ⟨rfl, _, hA⟩ := h
      obtain ⟨rfl, _, hB⟩ := h'
      rw [ih hA hB]

/-- What follows a node is itself a list. -/
theorem Linked.after (h : Linked next nil a (A ++ x :: B)) : Linked next nil (next x) B := by
  induction A generalizing a with
  | nil => exact h.2.2
  | cons y A ih => exact ih h.2.2

/-- Dropping a prefix leaves the list that starts at the next node. -/
theorem Linked.drop (h : Linked next nil a (A ++ B)) : Linked next nil (B.headD nil) B := by
  induction A generalizing a with
  | nil => exact h.head_eq ▸ h
  | cons x A ih => exact ih h.2.2

/-- Following links for finitely many steps never returns to a node. -/
theorem Linked.nodup (h : Linked next nil a L) : L.Nodup := by
  induction L generalizing a with
  | nil => exact List.nodup_nil
  | cons x L ih =>
    obtain ⟨_, _, hL⟩ := h
    refine List.nodup_cons.mpr ⟨fun hx => ?_, ih hL⟩
    -- a second visit would make the rest of the list a proper part of itself
    obtain ⟨A, B, rfl⟩ := List.append_of_mem hx
    have he := congrArg List.length (hL.unique hL.after)
    simp only [List.length_append, List.length_cons] at he
    omega

/-- Only the links of the visited nodes matter. -/
theorem Linked.congr (h : Linked next nil a L) (hn : ∀ y ∈ L, next' y = next y) :
    Linked next' nil a L := by
  induction L generalizing a with
  | nil => exact h
  | cons x L ih =>
    obtain ⟨hx, hne, hL⟩ := h
    rw [List.forall_mem_cons] at hn
    exact ⟨hx, hne, by rw [hn.1]; exact ih hL hn.2⟩

/-- The list determines the links of its nodes. -/
theorem Linked.next_eq {b : α} (h : Linked next nil a L) (h' : Linked next' nil b L) :
    ∀ x ∈ L, next' x = next x := by
  induction L generalizing a b with
  | nil => simp
  | cons x L ih =>
    obtain ⟨_, _, hL⟩ := h
    obtain ⟨_, _, hL'⟩ := h'
    exact List.forall_mem_cons.mpr ⟨hL'.head_eq.trans hL.head_eq.symm, ih hL hL'⟩

/-- Put a node in front. -/
theorem Linked.cons (h : Linked next nil (next x) L) (hx : x ≠ nil) :
    Linked next nil x (x :: L) := ⟨rfl, hx, h⟩

/-- Redirecting the last link of a prefix splices out what followed it. -/
theorem Linked.redirect {p : α} {C : List α} (h : Linked next nil a (A ++ p :: B))
    (hC : Linked next' nil (next' p) C) (hA : ∀ y ∈ A, next' y = next y) :
    Linked next' nil a (A ++ p :: C) := by
  induction A generalizing a with
  | nil => exact ⟨h.1, h.2.1, hC⟩
  | cons y A ih =>
    obtain ⟨hy, hne, hrest⟩ := h
    rw [List.forall_mem_cons] at hA
    exact ⟨hy, hne, by rw [hA.1]; exact ih hrest hA.2⟩

end DmfOs
