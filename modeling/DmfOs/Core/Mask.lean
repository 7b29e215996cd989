import Mathlib.Order.Basic

/-!
# Masks and fixed bits

A mask is included in another one when all of its bits are set there. A register
with fixed bits has a mask of bits that must be set and one of bits that may be set;
a word is within them when it lies between the two. Programs bring a word within by
adding the first mask and cutting with the second, in either order.
-/

namespace DmfOs

variable {n : ℕ} {a b c w x set clr : BitVec n}

/-- Every bit of `a` is set in `b`. -/
def Incl (a b : BitVec n) : Prop := a &&& b = a

instance (a b : BitVec n) : Decidable (Incl a b) := inferInstanceAs (Decidable (a &&& b = a))

/-- Inclusion bit by bit. -/
theorem incl_iff : Incl a b ↔ ∀ i, a.getLsbD i = true → b.getLsbD i = true := by
  constructor
  · intro h i hi
    have hand : (a &&& b).getLsbD i = true := by rw [h, hi]
    rw [BitVec.getLsbD_and, Bool.and_eq_true] at hand
    exact hand.2
  · intro h
    apply BitVec.eq_of_getLsbD_eq
    intro i _
    rw [BitVec.getLsbD_and]
    cases ha : a.getLsbD i with
    | false => rfl
    | true => rw [h i ha, Bool.and_self]

theorem Incl.refl (a : BitVec n) : Incl a a := BitVec.and_self

theorem Incl.trans (h : Incl a b) (h' : Incl b c) : Incl a c :=
  incl_iff.mpr fun i hi => incl_iff.mp h' i (incl_iff.mp h i hi)

theorem zero_incl (a : BitVec n) : Incl 0 a := BitVec.zero_and

/-- What avoids a mask avoids its parts. -/
theorem Incl.and_eq_zero (h : Incl a b) (hb : b &&& x = 0) : a &&& x = 0 := by
  have hab : a &&& b = a := h
  rw [← hab, BitVec.and_assoc, hb]
  exact BitVec.and_zero

/-- Masks that are included together are so one by one. -/
theorem or_incl_iff : Incl (a ||| b) c ↔ Incl a c ∧ Incl b c := by
  simp only [incl_iff, BitVec.getLsbD_or, Bool.or_eq_true]
  exact ⟨fun h => ⟨fun i hi => h i (.inl hi), fun i hi => h i (.inr hi)⟩,
    fun h i hi => hi.elim (h.1 i) (h.2 i)⟩

/-- A common part is included in both. -/
theorem incl_and_iff : Incl a (b &&& c) ↔ Incl a b ∧ Incl a c := by
  simp only [incl_iff, BitVec.getLsbD_and, Bool.and_eq_true]
  exact ⟨fun h => ⟨fun i hi => (h i hi).1, fun i hi => (h i hi).2⟩,
    fun h i hi => ⟨h.1 i hi, h.2 i hi⟩⟩

theorem incl_or_left (a b : BitVec n) : Incl a (a ||| b) := (or_incl_iff.mp (.refl _)).1

theorem incl_or_right (a b : BitVec n) : Incl b (a ||| b) := (or_incl_iff.mp (.refl _)).2

theorem and_incl_left (a b : BitVec n) : Incl (a &&& b) a := (incl_and_iff.mp (.refl _)).1

theorem and_incl_right (a b : BitVec n) : Incl (a &&& b) b := (incl_and_iff.mp (.refl _)).2

/-- A word within its fixed bits. -/
structure Within (set clr w : BitVec n) : Prop where
  ones : Incl set w
  zeros : Incl w clr

instance (set clr w : BitVec n) : Decidable (Within set clr w) :=
  decidable_of_iff (Incl set w ∧ Incl w clr) ⟨fun h => ⟨h.1, h.2⟩, fun h => ⟨h.1, h.2⟩⟩

/-- Adding before cutting brings any word within. -/
theorem within_or_and (h : Incl set clr) (w : BitVec n) :
    Within set clr ((w ||| set) &&& clr) :=
  ⟨incl_and_iff.mpr ⟨incl_or_right w set, h⟩, and_incl_right _ clr⟩

/-- Cutting before adding brings any word within. -/
theorem within_and_or (h : Incl set clr) (w : BitVec n) :
    Within set clr ((w &&& clr) ||| set) :=
  ⟨incl_or_right _ set, or_incl_iff.mpr ⟨and_incl_right w clr, h⟩⟩

/-- Bits that may be set can be added. -/
theorem Within.or (h : Within set clr w) (hx : Incl x clr) : Within set clr (w ||| x) :=
  ⟨h.ones.trans (incl_or_left w x), or_incl_iff.mpr ⟨h.zeros, hx⟩⟩

/-- Bits that need not be set can be taken away. -/
theorem Within.and_not (h : Within set clr w) (hx : set &&& x = 0) :
    Within set clr (w &&& ~~~x) := by
  have hnot : Incl set (~~~x) := by
    rw [incl_iff]
    intro i hi
    have hand : (set &&& x).getLsbD i = false := hx ▸ BitVec.getLsbD_zero
    have hlt : i < n := BitVec.lt_of_getLsbD hi
    rw [BitVec.getLsbD_and, hi, Bool.true_and] at hand
    rw [BitVec.getLsbD_not, hand, decide_eq_true hlt]
    rfl
  exact ⟨incl_and_iff.mpr ⟨h.ones, hnot⟩, (and_incl_left w _).trans h.zeros⟩

/-- Requested bits are on as far as they may be. -/
theorem requested_of_incl (h : Incl x w) : ((w ||| set) &&& clr) &&& x = clr &&& x := by
  have hor : Incl x (w ||| set) := h.trans (incl_or_left w set)
  rw [BitVec.and_comm (w ||| set), BitVec.and_assoc, BitVec.and_comm (w ||| set) x, hor]

/-- Bits that are not requested are on as far as they must be. -/
theorem forced_of_and_eq_zero (h : Incl set clr) (hx : w &&& x = 0) :
    ((w ||| set) &&& clr) &&& x = set &&& x := by
  apply BitVec.eq_of_getLsbD_eq
  intro i _
  have hwx : (w &&& x).getLsbD i = false := hx ▸ BitVec.getLsbD_zero
  have hset := incl_iff.mp h i
  simp only [BitVec.getLsbD_and, BitVec.getLsbD_or] at hwx ⊢
  cases hs : set.getLsbD i with
  | true => rw [hset hs, Bool.or_true, Bool.true_and]
  | false => rw [Bool.or_false, Bool.and_right_comm, hwx, Bool.false_and, Bool.false_and]

/-- What a request for `x` leaves is no more than a new request for `x` gives. -/
theorem or_eq_of_incl (h : Incl w (x ||| set)) : w ||| x ||| set = x ||| set := by
  apply BitVec.eq_of_getLsbD_eq
  intro i _
  have hw := incl_iff.mp h i
  rw [BitVec.or_assoc, BitVec.getLsbD_or]
  cases hi : w.getLsbD i with
  | true => rw [hw hi, Bool.true_or]
  | false => rw [Bool.false_or]

end DmfOs
