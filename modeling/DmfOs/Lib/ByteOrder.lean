import DmfOs.Lib.Compare

/-!
# The order of bytes

`memcmp` takes the difference of the first bytes that differ without a sign, `strncmp` with
one. Both results are compared with the lexicographic order of unsigned bytes.
-/

namespace DmfOs

open Memory

/-- The sign of a result is the order of two lists. -/
structure Orders (ret : Word) (xs ys : List Byte) : Prop where
  neg_iff : ret.toInt < 0 ↔ xs < ys
  pos_iff : 0 < ret.toInt ↔ ys < xs

variable {m : Memory} {a b : Word} {x y : Byte} {xs ys : List Byte} {ret ret' : Word}

/-- Two results for the same lists have the same sign. -/
theorem Orders.sign_eq (h : Orders ret xs ys) (h' : Orders ret' xs ys) :
    ret.toInt.sign = ret'.toInt.sign := by
  have hneg : ret.toInt < 0 ↔ ret'.toInt < 0 := h.neg_iff.trans h'.neg_iff.symm
  have hpos : 0 < ret.toInt ↔ 0 < ret'.toInt := h.pos_iff.trans h'.pos_iff.symm
  rcases lt_trichotomy ret.toInt 0 with hlt | heq | hgt
  · rw [Int.sign_eq_neg_one_of_neg hlt, Int.sign_eq_neg_one_of_neg (hneg.mp hlt)]
  · have heq' : ret'.toInt = 0 := by omega
    rw [heq, heq']
  · rw [Int.sign_eq_one_of_pos hgt, Int.sign_eq_one_of_pos (hpos.mp hgt)]

/-- No difference between no bytes. -/
theorem orders_nil : Orders 0 [] [] := ⟨by simp, by simp⟩

/-- The same byte in front changes nothing. -/
theorem orders_cons_self : Orders ret (x :: xs) (x :: ys) ↔ Orders ret xs ys := by
  have hlt (us vs : List Byte) : x :: us < x :: vs ↔ us < vs := List.cons_lt_cons_self
  constructor
  · rintro ⟨hneg, hpos⟩
    exact ⟨hneg.trans (hlt xs ys), hpos.trans (hlt ys xs)⟩
  · rintro ⟨hneg, hpos⟩
    exact ⟨hneg.trans (hlt xs ys).symm, hpos.trans (hlt ys xs).symm⟩

/-- Different bytes in front decide. -/
theorem orders_cons_of_ne (h : x ≠ y) :
    Orders ret (x :: xs) (y :: ys) ↔
      (ret.toInt < 0 ↔ x.toNat < y.toNat) ∧ (0 < ret.toInt ↔ y.toNat < x.toNat) := by
  have hlt {u v : Byte} {us vs : List Byte} (hne : u ≠ v) :
      u :: us < v :: vs ↔ u.toNat < v.toNat := by
    rw [List.cons_lt_cons_iff, or_iff_left fun hhead => hne hhead.1, BitVec.lt_def]
  constructor
  · rintro ⟨hneg, hpos⟩
    exact ⟨hneg.trans (hlt h), hpos.trans (hlt h.symm)⟩
  · rintro ⟨hneg, hpos⟩
    exact ⟨hneg.trans (hlt h).symm, hpos.trans (hlt h.symm).symm⟩

/-! ## Unsigned bytes -/

/-- The difference of unsigned bytes orders them. -/
theorem toInt_sub_setWidth (x y : Byte) :
    (x.setWidth 32 - y.setWidth 32 : Word).toInt = (x.toNat : Int) - y.toNat := by
  have hx := x.isLt
  have hy := y.isLt
  have hwide (z : Byte) : (z.setWidth 32 : Word).toInt = z.toNat := by
    rw [BitVec.toInt_setWidth, Int.bmod_eq_of_le (by omega) (by omega)]
  rw [BitVec.toInt_sub, hwide, hwide, Int.bmod_eq_of_le (by omega) (by omega)]

/-- `memcmp` gives the lexicographic order. -/
theorem orders_memcmpLoop (m : Memory) (k : Nat) (a b : Word) :
    Orders (memcmpLoop m k a b).1 (m.slice a k) (m.slice b k) := by
  induction k generalizing a b with
  | zero => exact orders_nil
  | succ k ih =>
    rw [slice_succ, slice_succ, memcmpLoop]
    dsimp only
    by_cases heq : m.byte a = m.byte b
    · have hzero : (m.byte a).setWidth 32 - (m.byte b).setWidth 32 = (0 : Word) := by
        rw [heq]
        exact BitVec.sub_self _
      rw [hzero, if_neg (not_not.mpr rfl), heq, orders_cons_self]
      exact ih (a + 1) (b + 1)
    · have hsub := toInt_sub_setWidth (m.byte a) (m.byte b)
      have hne : (m.byte a).toNat ≠ (m.byte b).toNat := fun h => heq (BitVec.eq_of_toNat_eq h)
      have hret : (m.byte a).setWidth 32 - (m.byte b).setWidth 32 ≠ (0 : Word) := by
        intro hzero
        have hsame : (0 : Word).toInt = (m.byte a).toNat - (m.byte b).toNat := hzero ▸ hsub
        have hint : (0 : Word).toInt = 0 := rfl
        omega
      rw [if_pos hret, orders_cons_of_ne heq]
      dsimp only
      rw [hsub]
      constructor <;> omega

/-! ## Signed characters -/

/-- The difference of signed bytes orders them when their top bits agree. -/
theorem sub_signExtend_iff (h : x ≠ y) :
    ((x.signExtend 32 - y.signExtend 32 : Word).toInt < 0 ↔ x.toNat < y.toNat) ∧
      (0 < (x.signExtend 32 - y.signExtend 32 : Word).toInt ↔ y.toNat < x.toNat) ↔
      x.msb = y.msb := by
  have hne : x.toNat ≠ y.toNat := fun heq => h (BitVec.eq_of_toNat_eq heq)
  have hx := x.isLt
  have hy := y.isLt
  have htop : x.msb = y.msb ↔ (128 ≤ x.toNat ↔ 128 ≤ y.toNat) := by
    rw [BitVec.msb_eq_decide, BitVec.msb_eq_decide, decide_eq_decide]
  have hsub : (x.signExtend 32 - y.signExtend 32 : Word).toInt = x.toInt - y.toInt := by
    have hx' := x.toInt_lt
    have hx'' := x.le_toInt
    have hy' := y.toInt_lt
    have hy'' := y.le_toInt
    rw [BitVec.toInt_sub, BitVec.toInt_signExtend_of_le (by decide),
      BitVec.toInt_signExtend_of_le (by decide), Int.bmod_eq_of_le (by omega) (by omega)]
  rw [hsub, htop, BitVec.toInt_eq_toNat_cond, BitVec.toInt_eq_toNat_cond]
  split_ifs <;> omega

/-- Where two ranges first differ, if they do, the top bits of the bytes agree. -/
def TopBitsAgree (m : Memory) (k : Nat) (a b : Word) : Prop :=
  ∀ i < k, m.slice a i = m.slice b i →
    (m.byte (a + .ofNat 32 i)).msb = (m.byte (b + .ofNat 32 i)).msb

/-- The first bytes and the rest. -/
theorem topBitsAgree_succ (k : Nat) :
    TopBitsAgree m (k + 1) a b ↔
      (m.byte a).msb = (m.byte b).msb ∧
        (m.byte a = m.byte b → TopBitsAgree m k (a + 1) (b + 1)) := by
  have hnext (c : Word) (i : Nat) : c + .ofNat 32 (i + 1) = c + 1 + .ofNat 32 i := by bv_omega
  have hstep (i : Nat) : (m.slice a (i + 1) = m.slice b (i + 1) →
      (m.byte (a + .ofNat 32 (i + 1))).msb = (m.byte (b + .ofNat 32 (i + 1))).msb) ↔
      (m.byte a = m.byte b → m.slice (a + 1) i = m.slice (b + 1) i →
        (m.byte (a + 1 + .ofNat 32 i)).msb = (m.byte (b + 1 + .ofNat 32 i)).msb) := by
    rw [slice_succ, slice_succ, List.cons.injEq, hnext, hnext, and_imp]
  rw [TopBitsAgree, Nat.forall_lt_succ_left, BitVec.ofNat_eq_ofNat, BitVec.add_zero,
    BitVec.add_zero]
  simp only [hstep]
  exact and_congr ⟨fun h => h rfl, fun h _ => h⟩
    ⟨fun h heq i hi => h i hi heq, fun h i hi heq => h heq i hi⟩

/-- For bytes without a zero `strncmp` gives the lexicographic order exactly when the top
bits agree. -/
theorem orders_strncmpLoop_iff {k : Nat} (ha : ∀ c ∈ m.slice a k, c ≠ 0) :
    Orders (strncmpLoop m k a b) (m.slice a k) (m.slice b k) ↔ TopBitsAgree m k a b := by
  induction k generalizing a b with
  | zero => exact iff_of_true orders_nil fun i hi => absurd hi (Nat.not_lt_zero i)
  | succ k ih =>
    rw [slice_succ, List.forall_mem_cons] at ha
    rw [slice_succ, slice_succ, strncmpLoop, topBitsAgree_succ]
    by_cases heq : m.byte a = m.byte b
    · have hgo : ¬(m.byte a ≠ m.byte b ∨ m.byte a = 0) := not_or.mpr ⟨not_not.mpr heq, ha.1⟩
      rw [if_neg hgo, heq, orders_cons_self, ih ha.2]
      simp
    · rw [if_pos (.inl heq), orders_cons_of_ne heq, sub_signExtend_iff heq]
      exact (and_iff_left fun h => absurd h heq).symm

/-! ## The two routines -/

/-- The two comparisons have the same sign, and both give the lexicographic order of the
bytes without their signs. -/
structure ComparisonsAgree (m : Memory) (a b n : Word) : Prop where
  sign : (strncmp m a b n).toInt.sign = (memcmp m a b n).1.toInt.sign
  strncmp : Orders (strncmp m a b n) (m.slice a n.toNat) (m.slice b n.toNat)
  memcmp : Orders (memcmp m a b n).1 (m.slice a n.toNat) (m.slice b n.toNat)

/-- For bytes without a zero the comparisons agree exactly when the first bytes that differ
have the same top bit. -/
theorem comparisonsAgree_iff {n : Word} (ha : ∀ c ∈ m.slice a n.toNat, c ≠ 0) :
    ComparisonsAgree m a b n ↔ TopBitsAgree m n.toNat a b := by
  have hmemcmp := orders_memcmpLoop m n.toNat a b
  rw [← orders_strncmpLoop_iff ha]
  exact ⟨fun h => h.strncmp, fun h => ⟨h.sign_eq hmemcmp, h, hmemcmp⟩⟩

/-- Five letters are compared with three. -/
theorem comparisonsAgree_letters :
    ComparisonsAgree lettersMem 0x1fffb 0x1fffd 3 ↔
      TopBitsAgree lettersMem (3 : Word).toNat 0x1fffb 0x1fffd :=
  comparisonsAgree_iff (by decide)

/-- A memory with the byte 0x80 among bytes 0x7f. -/
def topByteMem : Memory := ⟨fun p => if p = 0x1000 then 0x80 else 0x7f, []⟩

/-- The byte 0x80 is above 0x7f for `memcmp` and below it for `strncmp`. -/
theorem not_comparisonsAgree_top :
    (∀ c ∈ topByteMem.slice 0x1000 1, c ≠ 0) ∧ (∀ c ∈ topByteMem.slice 0x2000 1, c ≠ 0) ∧
      ¬ComparisonsAgree topByteMem 0x1000 0x2000 1 :=
  ⟨by decide, by decide, fun h => absurd h.sign (by decide)⟩

end DmfOs
