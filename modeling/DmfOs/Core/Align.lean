import Mathlib.Data.Nat.Bitwise
import Mathlib.Tactic.Linarith
import Mathlib.Tactic.Ring

/-!
# Power-of-two alignment of 32-bit words

Rounding up to a power of two is done on machine words by adding a mask and
clearing the low bits. `alignUp` is the exact rounding over the naturals;
`toNat_alignWord` says that the word computation is `alignUp` reduced modulo
`2 ^ 32`, for every word and every power of two, wrapping included.
-/

namespace DmfOs

/-- A machine word of the 32-bit target. -/
abbrev Word := BitVec 32

/-! ## Exact rounding -/

/-- The least multiple of `a` that is at least `x`. -/
def alignUp (x a : Nat) : Nat := (x + (a - 1)) / a * a

theorem le_alignUp (x : Nat) {a : Nat} (ha : 0 < a) : x ≤ alignUp x a := by
  have h := Nat.div_add_mod (x + (a - 1)) a
  have hm := Nat.mod_lt (x + (a - 1)) ha
  rw [alignUp, Nat.mul_comm]
  omega

theorem alignUp_lt (x : Nat) {a : Nat} (ha : 0 < a) : alignUp x a < x + a := by
  have h := Nat.div_mul_le_self (x + (a - 1)) a
  rw [alignUp]
  omega

theorem dvd_alignUp (x a : Nat) : a ∣ alignUp x a := Dvd.intro_left _ rfl

/-- Rounding up stays below every multiple that is already high enough. -/
theorem alignUp_le_of_dvd {x a m : Nat} (ha : 0 < a) (hm : a ∣ m) (hx : x ≤ m) :
    alignUp x a ≤ m := by
  obtain ⟨q, rfl⟩ := hm
  have hq : (x + (a - 1)) / a ≤ q := by
    rw [Nat.div_le_iff_le_mul_add_pred ha]
    omega
  calc alignUp x a ≤ q * a := Nat.mul_le_mul_right a hq
    _ = a * q := Nat.mul_comm q a

/-- A multiple is its own rounding. -/
theorem alignUp_of_dvd {x a : Nat} (ha : 0 < a) (hx : a ∣ x) : alignUp x a = x :=
  Nat.le_antisymm (alignUp_le_of_dvd ha hx le_rfl) (le_alignUp x ha)

/-- Rounding commutes with adding a multiple of the unit. -/
theorem alignUp_add_of_dvd {x a m : Nat} (ha : 0 < a) (hm : a ∣ m) :
    alignUp (x + m) a = alignUp x a + m := by
  obtain ⟨q, rfl⟩ := hm
  rw [alignUp, alignUp, Nat.add_right_comm, Nat.add_mul_div_left _ _ ha, Nat.add_mul,
    Nat.mul_comm q a]

/-- Rounding may be done before or after reducing by a multiple of the unit. -/
theorem alignUp_mod {a m : Nat} (x : Nat) (ha : 0 < a) (hm : a ∣ m) :
    alignUp (x % m) a % m = alignUp x a % m := by
  have hx : alignUp x a = alignUp (x % m) a + m * (x / m) := by
    rw [← alignUp_add_of_dvd ha (hm.mul_right _), Nat.mod_add_div]
  rw [hx, Nat.add_mul_mod_self_left]

/-- Rounding a multiple of `d` to a multiple of `d` adds at most `a - d`. -/
theorem alignUp_add_le {x a d : Nat} (ha : 0 < a) (hdx : d ∣ x) (hda : d ∣ a) :
    alignUp x a + d ≤ x + a := by
  have hlt := alignUp_lt x ha
  have hd : d ∣ x + a - alignUp x a :=
    Nat.dvd_sub (Nat.dvd_add hdx hda) (hda.trans (dvd_alignUp x a))
  have := Nat.le_of_dvd (by omega) hd
  omega

/-! ## Powers of two as words -/

/-- The word is a power of two. -/
def IsPow2 (a : Word) : Prop := a.toNat.isPowerOfTwo

instance (a : Word) : Decidable (IsPow2 a) := inferInstanceAs (Decidable a.toNat.isPowerOfTwo)

theorem IsPow2.exists_lt {a : Word} (h : IsPow2 a) : ∃ k, k < 32 ∧ a.toNat = 2 ^ k := by
  obtain ⟨k, hk⟩ := h
  refine ⟨k, (Nat.pow_lt_pow_iff_right (a := 2) (by decide)).mp ?_, hk⟩
  rw [← hk]
  exact a.isLt

theorem IsPow2.pos {a : Word} (h : IsPow2 a) : 0 < a.toNat := by
  obtain ⟨k, hk⟩ := h
  rw [hk]
  exact Nat.two_pow_pos k

theorem IsPow2.dvd_modulus {a : Word} (h : IsPow2 a) : a.toNat ∣ 2 ^ 32 := by
  obtain ⟨k, hk, he⟩ := h.exists_lt
  rw [he]
  exact Nat.pow_dvd_pow 2 hk.le

/-- A power of two that fits a word is at most half its range. -/
theorem IsPow2.le_half {a : Word} (h : IsPow2 a) : a.toNat ≤ 2 ^ 31 := by
  obtain ⟨k, hk, he⟩ := h.exists_lt
  rw [he]
  exact Nat.pow_le_pow_right (by decide) (by omega)

/-- Of two powers of two the smaller divides the larger. -/
theorem IsPow2.dvd_of_le {a b : Word} (ha : IsPow2 a) (hb : IsPow2 b)
    (hle : a.toNat ≤ b.toNat) : a.toNat ∣ b.toNat := by
  obtain ⟨i, hi⟩ := ha
  obtain ⟨j, hj⟩ := hb
  rw [hi, hj] at hle ⊢
  exact Nat.pow_dvd_pow 2 ((Nat.pow_le_pow_iff_right (by decide)).mp hle)

/-- The single-bit test `a && !(a & (a - 1))` accepts exactly the powers of two. -/
theorem isPow2_iff_and_pred (a : Word) : IsPow2 a ↔ a ≠ 0 ∧ a &&& (a - 1) = 0 := by
  rw [IsPow2, ← Nat.ne_zero_and_sub_one_eq_zero_iff_isPowerOfTwo]
  have hzero : a.toNat ≠ 0 ↔ a ≠ 0 := by bv_omega
  rw [hzero]
  refine and_congr_right fun hne => ?_
  have hp : (a - 1).toNat = a.toNat - 1 := by bv_omega
  rw [← hp, ← BitVec.toNat_and, ← BitVec.toNat_inj]
  rfl

/-! ## Masks -/

/-- `(x + mask) & ~mask`. -/
def alignMask (x mask : Word) : Word := (x + mask) &&& ~~~mask

/-- `x` rounded up to `a`, as words compute it. -/
def alignWord (x a : Word) : Word := alignMask x (a - 1)

/-- The predecessor of a power of two keeps exactly the remainder. -/
theorem toNat_and_pred {a : Word} (h : IsPow2 a) (x : Word) :
    (x &&& (a - 1)).toNat = x.toNat % a.toNat := by
  obtain ⟨k, he⟩ := h
  have hpos := Nat.two_pow_pos k
  have hp : (a - 1).toNat = 2 ^ k - 1 := by
    have := a.isLt
    bv_omega
  rw [BitVec.toNat_and, hp, he, Nat.and_two_pow_sub_one_eq_mod]

/-- High bits of one word and low bits of another do not meet. -/
theorem and_not_and_and (x y m : Word) : (x &&& ~~~m) &&& (y &&& m) = 0 := by
  ext i
  simp only [BitVec.getElem_and, BitVec.getElem_not, BitVec.ofNat_eq_ofNat, BitVec.getElem_zero]
  cases m[i] <;> simp

/-- Clearing the low bits subtracts the remainder. -/
theorem toNat_and_not_pred {a : Word} (h : IsPow2 a) (x : Word) :
    (x &&& ~~~(a - 1)).toNat = x.toNat / a.toNat * a.toNat := by
  have hdisjoint := and_not_and_and x x (a - 1)
  have hjoin : (x &&& ~~~(a - 1)) ||| (x &&& (a - 1)) = x := by
    ext i
    simp only [BitVec.getElem_or, BitVec.getElem_and, BitVec.getElem_not]
    cases x[i] <;> cases (a - 1)[i] <;> rfl
  have hsum := congrArg BitVec.toNat (BitVec.add_eq_or_of_and_eq_zero _ _ hdisjoint)
  rw [hjoin, BitVec.toNat_add_of_and_eq_zero hdisjoint, toNat_and_pred h] at hsum
  have hdiv := Nat.div_add_mod x.toNat a.toNat
  rw [Nat.mul_comm] at hdiv
  omega

/-- The high bits of one word joined with the low bits of another. -/
theorem toNat_join {a : Word} (h : IsPow2 a) (x y : Word) :
    ((x &&& ~~~(a - 1)) ||| (y &&& (a - 1))).toNat =
      x.toNat / a.toNat * a.toNat + y.toNat % a.toNat := by
  have hdisjoint := and_not_and_and x y (a - 1)
  rw [← BitVec.add_eq_or_of_and_eq_zero _ _ hdisjoint, BitVec.toNat_add_of_and_eq_zero hdisjoint,
    toNat_and_not_pred h, toNat_and_pred h]

/-- A shifted word and flags below it. -/
theorem toNat_shiftLeft_or {i f : Word} {k : Nat} (hi : i.toNat * 2 ^ k < 2 ^ 32)
    (hf : f.toNat < 2 ^ k) : ((i <<< k) ||| f).toNat = i.toNat * 2 ^ k + f.toNat := by
  rw [BitVec.toNat_or, BitVec.toNat_shiftLeft, Nat.shiftLeft_eq, Nat.mod_eq_of_lt hi,
    ← Nat.shiftLeft_eq, ← Nat.shiftLeft_add_eq_or_of_lt hf]

/-- The word rounding is the exact rounding modulo the word size. -/
theorem toNat_alignWord {a : Word} (h : IsPow2 a) (x : Word) :
    (alignWord x a).toNat = alignUp x.toNat a.toNat % 2 ^ 32 := by
  have hpos := h.pos
  have hsum : (x + (a - 1)).toNat = (x.toNat + (a.toNat - 1)) % 2 ^ 32 := by bv_omega
  have hle : alignUp x.toNat a.toNat ≤ 2 ^ 32 := alignUp_le_of_dvd hpos h.dvd_modulus x.isLt.le
  rw [alignWord, alignMask, toNat_and_not_pred h, hsum]
  by_cases hw : x.toNat + (a.toNat - 1) < 2 ^ 32
  · have hlt : alignUp x.toNat a.toNat < 2 ^ 32 :=
      lt_of_le_of_lt (Nat.div_mul_le_self _ _) hw
    rw [Nat.mod_eq_of_lt hw, Nat.mod_eq_of_lt hlt, alignUp]
  · -- the sum wraps to less than one unit, and the exact rounding is the modulus
    have hge : 2 ^ 32 ≤ alignUp x.toNat a.toNat := by
      obtain ⟨q, hq⟩ := h.dvd_modulus
      have : q ≤ (x.toNat + (a.toNat - 1)) / a.toNat := by
        rw [Nat.le_div_iff_mul_le hpos, Nat.mul_comm, ← hq]
        omega
      calc 2 ^ 32 = q * a.toNat := by rw [hq, Nat.mul_comm]
        _ ≤ alignUp x.toNat a.toNat := Nat.mul_le_mul_right _ this
    have heq : alignUp x.toNat a.toNat = 2 ^ 32 := Nat.le_antisymm hle hge
    have hx := x.isLt
    have ha := a.isLt
    have hsmall : (x.toNat + (a.toNat - 1)) % 2 ^ 32 < a.toNat := by omega
    rw [heq, Nat.mod_self, Nat.div_eq_of_lt hsmall, Nat.zero_mul]

/-- The padding that the word rounding adds is the exact padding, wrapping included. -/
theorem toNat_alignWord_sub {a : Word} (h : IsPow2 a) (x : Word) :
    (alignWord x a - x).toNat = alignUp x.toNat a.toNat - x.toNat := by
  have hle := le_alignUp x.toNat h.pos
  have hlt := alignUp_lt x.toNat h.pos
  have hmod := toNat_alignWord h x
  have hup : alignUp x.toNat a.toNat ≤ 2 ^ 32 :=
    alignUp_le_of_dvd h.pos h.dvd_modulus x.isLt.le
  have ha := a.isLt
  have hx := x.isLt
  rw [BitVec.toNat_sub, hmod]
  omega

end DmfOs
