import DmfOs.Lib.Str

/-!
# Binary digits

`binstr` of `printf.c` writes the 32 digits of a word, highest first, with a mark between
groups of four. Its buffer of 40 bytes holds them with the terminator and nothing more.
-/

namespace DmfOs

open Memory

/-- `BINSTR_SZ`. -/
def binstrSz : Nat := 4 * 8 + 4 * 2

/-- The mark between groups. -/
def mark : Byte := 0x27

/-- The digit of a place. -/
def binDigit (x : Word) (k : Nat) : Byte :=
  if x &&& ((1 : Word) <<< k) ≠ 0 then chr '1' else chr '0'

/-- The loop of `binstr`, with the digits left: `i` is their number taken from 32. -/
def binstrLoop (x : Word) : Nat → Word → Memory → Memory
  | 0, _, m => m
  | k + 1, c, m =>
    let m := m.storeByte c (binDigit x k)
    let c := c + 1
    let i := 32 - k
    if i = 32 then m.storeByte c 0
    else if i % 4 = 0 then binstrLoop x k (c + 1) (m.storeByte c mark)
    else binstrLoop x k c m

/-- `binstr`. -/
def binstr (x out : Word) (m : Memory) : Memory := binstrLoop x 32 out m

/-! ## The text -/

/-- The digits of the lowest places, with their marks. -/
def binText (x : Word) : Nat → List Byte
  | 0 => []
  | k + 1 => binDigit x k :: (if k ≠ 0 ∧ k % 4 = 0 then [mark] else []) ++ binText x k

/-- The digits of a group of four places, highest first. -/
def binGroup (x : Word) (q : Nat) : List Byte :=
  [binDigit x (4 * q + 3), binDigit x (4 * q + 2), binDigit x (4 * q + 1), binDigit x (4 * q)]

/-- The number that a text denotes: marks are passed over. -/
def readBits : Nat → List Byte → Nat
  | acc, [] => acc
  | acc, c :: cs =>
    readBits (if c = mark then acc else 2 * acc + if c = chr '1' then 1 else 0) cs

variable {x c : Word} {m : Memory} {k : Nat}

/-- What the loop stores. -/
theorem binstrLoop_eq (hk : 0 < k) (hle : k ≤ 32) :
    binstrLoop x k c m = m.storeBytes c (binText x k ++ [0]) := by
  induction k generalizing c m with
  | zero => exact absurd hk (lt_irrefl 0)
  | succ k ih =>
    rw [binstrLoop, binText]
    rcases Nat.eq_zero_or_pos k with rfl | hpos
    · rfl
    · have hlast : 32 - k ≠ 32 := by omega
      have hgroup : (32 - k) % 4 = 0 ↔ k ≠ 0 ∧ k % 4 = 0 := by omega
      rw [if_neg hlast, ih hpos (by omega), ih hpos (by omega)]
      by_cases hm : (32 - k) % 4 = 0
      · rw [if_pos hm, if_pos (hgroup.mp hm)]
        rfl
      · rw [if_neg hm, if_neg (fun h => hm (hgroup.mpr h))]
        rfl

/-- The test of a place reads its bit. -/
theorem binDigit_eq (x : Word) (k : Nat) :
    binDigit x k = if x.getLsbD k then chr '1' else chr '0' := by
  have hplace : (1 : Word) <<< k = BitVec.twoPow 32 k := (BitVec.twoPow_eq 32 k).symm
  rw [binDigit, hplace, BitVec.and_twoPow]
  cases hbit : x.getLsbD k with
  | false => simp
  | true =>
    have hk : k < 32 := BitVec.lt_of_getLsbD hbit
    have hne : BitVec.twoPow 32 k ≠ 0#32 := by
      intro h
      have hpos : (BitVec.twoPow 32 k).toNat = 0 := by rw [h]; rfl
      rw [BitVec.toNat_twoPow_of_lt hk] at hpos
      exact absurd hpos (Nat.two_pow_pos k).ne'
    simp [hne]

theorem readBits_append (acc : Nat) (cs ds : List Byte) :
    readBits acc (cs ++ ds) = readBits (readBits acc cs) ds := by
  induction cs generalizing acc with
  | nil => rfl
  | cons c cs ih => exact ih _

theorem readBits_digit (acc : Nat) (x : Word) (k : Nat) (cs : List Byte) :
    readBits acc (binDigit x k :: cs) = readBits (2 * acc + (x.getLsbD k).toNat) cs := by
  have hone : chr '1' ≠ mark := by decide
  have hzero : chr '0' ≠ mark := by decide
  have hne : chr '0' ≠ chr '1' := by decide
  rw [readBits, binDigit_eq]
  cases x.getLsbD k <;> simp [hone, hzero, hne]

/-- The digits of the lowest places are read as the number that they make up. -/
theorem readBits_binText (acc : Nat) (x : Word) (k : Nat) :
    readBits acc (binText x k) = acc * 2 ^ k + x.toNat % 2 ^ k := by
  induction k generalizing acc with
  | zero => simp [binText, readBits, Nat.mod_one]
  | succ k ih =>
    have hmark (acc : Nat) : readBits acc (if k ≠ 0 ∧ k % 4 = 0 then [mark] else []) = acc := by
      split_ifs <;> rfl
    rw [binText, List.cons_append, readBits_digit, readBits_append, hmark, ih,
      Nat.mod_pow_succ, BitVec.getLsbD, Nat.toNat_testBit, Nat.pow_succ]
    ring

/-- Four places at a time. -/
theorem binText_group (x : Word) (q : Nat) :
    binText x (4 * (q + 1)) = binGroup x q ++ (if q ≠ 0 then [mark] else []) ++
      binText x (4 * q) := by
  have h3 : ¬(4 * q + 3 ≠ 0 ∧ (4 * q + 3) % 4 = 0) := by omega
  have h2 : ¬(4 * q + 2 ≠ 0 ∧ (4 * q + 2) % 4 = 0) := by omega
  have h1 : ¬(4 * q + 1 ≠ 0 ∧ (4 * q + 1) % 4 = 0) := by omega
  have h0 : (4 * q ≠ 0 ∧ 4 * q % 4 = 0) ↔ q ≠ 0 := by omega
  rw [Nat.mul_succ, binText, if_neg h3, binText, if_neg h2, binText, if_neg h1, binText,
    binGroup]
  simp only [h0, List.nil_append, List.cons_append]

/-- The text is the groups with a mark between any two. -/
theorem binText_eq_intercalate (x : Word) (q : Nat) :
    binText x (4 * q) = [mark].intercalate ((List.range q).reverse.map (binGroup x)) := by
  induction q with
  | zero => rfl
  | succ q ih =>
    rw [binText_group, ih, List.range_succ, List.reverse_append, List.map_append]
    cases q with
    | zero => simp
    | succ q =>
      rw [List.range_succ, List.reverse_append, List.map_append]
      simp [List.intercalate_cons_cons]

theorem length_binText (x : Word) (k : Nat) : (binText x (k + 1)).length = k + 1 + k / 4 := by
  induction k with
  | zero => rfl
  | succ k ih =>
    rw [binText, List.length_append, List.length_cons, ih]
    split_ifs with hm
    · rw [List.length_singleton]
      omega
    · rw [List.length_nil]
      omega

/-- The buffer holds the text and its terminator, and nothing else is written. -/
theorem slice_binstr (x out : Word) (m : Memory) :
    WritesIn (span out binstrSz) m (binstr x out m) ∧
      (binstr x out m).slice out binstrSz = binText x 32 ++ [0] := by
  have heq : binstr x out m = m.storeBytes out (binText x 32 ++ [0]) :=
    binstrLoop_eq (by decide) le_rfl
  have hlen : (binText x 32 ++ [0]).length = binstrSz := by
    rw [List.length_append, length_binText]
    rfl
  rw [heq, ← hlen]
  exact ⟨writesIn_storeBytes _ _ _, slice_storeBytes m out (by rw [hlen]; decide)⟩

/-- No byte of the text is zero. -/
theorem binText_nonzero (x : Word) (k : Nat) : ∀ c ∈ binText x k, c ≠ 0 := by
  induction k with
  | zero => simp [binText]
  | succ k ih =>
    intro c hc
    rw [binText, List.cons_append, List.mem_cons, List.mem_append] at hc
    rcases hc with rfl | hc | hc
    · rw [binDigit]
      split_ifs <;> decide
    · split_ifs at hc
      · rw [List.mem_singleton.mp hc]
        decide
      · exact absurd hc List.not_mem_nil
    · exact ih c hc

end DmfOs
