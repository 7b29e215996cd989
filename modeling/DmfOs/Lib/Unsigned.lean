import DmfOs.Lib.NumBuf
import DmfOs.Lib.Width

/-!
# Unsigned numbers

`print_unsigned` run on its array, and its text without a width: the canonical numeral of
every number, behind its prefix. A numeral is evaluated by the places of its digits in
`digits`.
-/

namespace DmfOs

/-! ## `print_unsigned` on its array -/

/-- The size of the array. -/
def unsignedBufSize : Nat := 4 * 3 + 3

/-- The buffer of `print_unsigned` before it is turned around. -/
def rawUnsigned (env : PrintfEnv) (n : Word) (base : Base) (props : Strprops) : List Byte :=
  let buf := digitsLoop env n.toNat base
  if buf = [] then [chr '0']
  else if props.alternate && base.1 == 16 then
    if props.pad = chr '0' then buf else buf ++ [chr 'x', chr '0']
  else buf

/-- `print_unsigned` up to the exchanges. -/
def fillUnsigned (env : PrintfEnv) (buf : Int → Byte) (n : Word) (base : Base)
    (props : Strprops) : NumBuf :=
  let b := NumBuf.pushDigits env ⟨buf, 0, [], []⟩ n.toNat base
  if b.p = 0 then b.push (chr '0')
  else if props.alternate && base.1 == 16 then
    if props.pad = chr '0' then b else (b.push (chr 'x')).push (chr '0')
  else b

/-- `print_unsigned` on its array, up to the call of `print_str`. -/
def runUnsigned (env : PrintfEnv) (buf : Int → Byte) (n : Word) (base : Base)
    (props : Strprops) : NumBuf := (fillUnsigned env buf n base props).finish

variable (env : PrintfEnv) (n : Word) (props : Strprops)

theorem holds_fillUnsigned (buf : Int → Byte) (base : Base) :
    (fillUnsigned env buf n base props).Holds (rawUnsigned env n base props) := by
  have hdigits : (NumBuf.pushDigits env ⟨buf, 0, [], []⟩ n.toNat base).Holds
      (digitsLoop env n.toNat base) := (NumBuf.holds_nil buf).pushDigits _ base
  have hprefix := (hdigits.push (chr 'x')).push (chr '0')
  rw [List.append_assoc, List.singleton_append] at hprefix
  simp only [fillUnsigned, rawUnsigned, hdigits.p_eq_zero_iff]
  split_ifs with hnil
  · rw [hnil] at hdigits
    exact hdigits.push (chr '0')
  · exact hdigits
  · exact hprefix
  · exact hdigits

/-- The string that `print_unsigned` leaves in its array. -/
theorem runUnsigned_text (buf : Int → Byte) (base : Base) :
    (runUnsigned env buf n base props).text = finishBuf (rawUnsigned env n base props) :=
  (holds_fillUnsigned env n props buf base).finish_text

/-- It looks up the digits of the number. -/
theorem runUnsigned_lookups (buf : Int → Byte) (base : Base) :
    (runUnsigned env buf n base props).lookups = (lookups n.toNat base).reverse := by
  have hdigits : (NumBuf.pushDigits env ⟨buf, 0, [], []⟩ n.toNat base).lookups =
      (lookups n.toNat base).reverse := by
    rw [NumBuf.pushDigits_lookups, List.append_nil]
  simp only [runUnsigned, NumBuf.finish, NumBuf.turn, NumBuf.store, NumBuf.swaps_lookups,
    fillUnsigned]
  split_ifs <;> exact hdigits

/-! ## The text without a width -/

/-- The prefix of a number. -/
def numPrefix (n : Word) (base : Base) (alternate : Bool) : List Byte :=
  if alternate ∧ base.1 = 16 ∧ n ≠ 0 then [chr '0', chr 'x'] else []

/-- Without a width, the text is the prefix and the numeral. -/
theorem unsignedText_noPad {base : Base} {b : Nat} (hbase : base.1 = b) (hb : 10 ≤ b)
    (hb' : b ≤ 16) (hpad : props.npad = 0) :
    unsignedText env n base props =
      numPrefix n base props.alternate ++ numeral b n.toNat := by
  obtain ⟨_, _⟩ := base
  obtain rfl : _ = (b : Int) := hbase
  have hlen := length_numeral_le hb n.isLt
  have htext {s : CStr} {cs : List Byte} (hs : s.bytes = cs) (hshort : cs.length ≤ 12) :
      strText s props = cs := by
    rw [strText_noPad (by rw [hs]; omega) hpad, hs]
  by_cases hn : n = 0
  · have hloop : digitsLoop env n.toNat ⟨b, by omega⟩ = [] := by
      rw [hn, digitsLoop]
      exact if_pos rfl
    have hplain : numPrefix n ⟨b, by omega⟩ props.alternate = [] := if_neg fun h => h.2.2 hn
    rw [unsignedText, hloop, hplain, hn]
    have hzero : numeral b (0 : Word).toNat = [chr '0'] := by
      rw [numeral, BitVec.ofNat_eq_ofNat, BitVec.toNat_zero, Nat.toDigits_zero]
      rfl
    rw [List.nil_append, hzero]
    exact (if_pos rfl).trans (htext rfl (by decide))
  · have hnat : n.toNat ≠ 0 := fun h0 => hn (BitVec.eq_of_toNat_eq h0)
    have hloop := digitsLoop_natCast env hnat (by omega : 2 ≤ b) hb'
    have hne : (numeral b n.toNat).reverse ≠ [] := by simp [numeral_ne_nil]
    have hwidth : ¬0 < props.npad.toInt := by
      rw [hpad]
      decide
    have hplain := finishBuf_numeral (n := n.toNat) (by omega : 1 < b) hb'
    have hprefixed := finishBuf_prefixed (n := n.toNat) (by omega : 1 < b) hb'
    have hflags : (props.alternate && (b : Int) == 16) = true ↔
        props.alternate = true ∧ (b : Int) = 16 ∧ n ≠ 0 := by
      rw [Bool.and_eq_true, beq_iff_eq, and_iff_left hn]
    simp only [unsignedText, hloop, if_neg hne, if_neg hwidth, numPrefix, hflags]
    split_ifs
    · rw [htext hplain (by omega)]
      rfl
    · refine htext hprefixed ?_
      rw [List.length_append, List.length_cons, List.length_singleton]
      omega
    · rw [List.nil_append]
      exact htext hplain (by omega)

/-! ## The value of a numeral -/

/-- The number with these digits, each of which counts by its place in `digits`. -/
def valueOf (b : Nat) (cs : List Byte) : Nat := cs.foldl (fun acc c => b * acc + digits.idxOf c) 0

/-- The place of a digit. -/
theorem idxOf_digits {d : Nat} (h : d < 16) : digits.idxOf (chr d.digitChar) = d := by
  interval_cases d <;> decide

/-- Evaluating a numeral gives the number back. -/
theorem valueOf_numeral {b : Nat} (hb : 1 < b) (hb' : b ≤ 16) (n : Nat) :
    valueOf b (numeral b n) = n := by
  induction n using Nat.base_induction b hb with
  | single m hm =>
    rw [numeral, Nat.toDigits_of_lt_base hm, List.map_singleton, valueOf, List.foldl_cons,
      List.foldl_nil, idxOf_digits (by omega), Nat.mul_zero, Nat.zero_add]
  | digit m d hd hm ih =>
    rw [numeral, ← Nat.toDigits_append_toDigits hb hm hd, Nat.toDigits_of_lt_base hd,
      List.map_append, List.map_singleton, valueOf, List.foldl_append, ← valueOf, ← numeral, ih,
      List.foldl_cons, List.foldl_nil, idxOf_digits (by omega)]

/-- The first digit of a number other than 0 is not 0. -/
theorem head_numeral {b n : Nat} (hb : 1 < b) (hb' : b ≤ 16) (hn : n ≠ 0) :
    (numeral b n).head? ≠ some (chr '0') := by
  intro hzero
  rw [numeral, List.head?_map, Option.map_eq_some_iff] at hzero
  obtain ⟨c, hc, hchr⟩ := hzero
  obtain ⟨d, hd, rfl⟩ := exists_of_mem_toDigits hb (List.mem_of_head? hc)
  have hplace : d = 0 := by
    rw [← idxOf_digits (by omega : d < 16), hchr]
    rfl
  rw [hplace] at hc
  exact head_toDigits hb hn hc

/-! ## All numbers -/

/-- `print_unsigned` without a width prints the canonical numeral of a number behind its
prefix, turns its array around, back to what it was if done twice, and keeps to its arrays. -/
structure PrintsUnsigned (env : PrintfEnv) (n : Word) (base : Base) (props : Strprops) : Prop where
  text : Emits (fun p => printUnsigned env p n base props)
    (numPrefix n base props.alternate ++ numeral base.1.toNat n.toNat)
  value : valueOf base.1.toNat (numeral base.1.toNat n.toNat) = n.toNat
  zero : n = 0 → numeral base.1.toNat n.toNat = [chr '0']
  noZero : n ≠ 0 → (numeral base.1.toNat n.toNat).head? ≠ some (chr '0')
  mirror : ∀ (b : NumBuf) (cs : List Byte), b.Holds cs →
    b.turn.Holds cs.reverse ∧ b.turn.turn.Holds cs
  lookups : ∀ buf, ∀ i ∈ (runUnsigned env buf n base props).lookups, 0 ≤ i ∧ i < base.1
  stores : ∀ buf, ∀ i ∈ (runUnsigned env buf n base props).stores, 0 ≤ i ∧ i < unsignedBufSize

/-- The buffer fits into the array with its terminator. -/
theorem length_rawUnsigned_le {base : Base} {b : Nat} (hbase : base.1 = b) (hb : 10 ≤ b)
    (hb' : b ≤ 16) : (rawUnsigned env n base props).length ≤ 12 := by
  obtain ⟨_, _⟩ := base
  obtain rfl : _ = (b : Int) := hbase
  have hlen := length_numeral_le hb n.isLt
  have hor := digitsLoop_or_zero env n.toNat (by omega : 2 ≤ b) hb'
  rw [rawUnsigned]
  by_cases hnil : digitsLoop env n.toNat ⟨b, by omega⟩ = []
  · rw [hnil]
    simp
  · rw [if_neg hnil] at hor
    rw [if_neg hnil, hor]
    split_ifs <;> simp <;> omega

/-- In a base from 10 to 16. -/
theorem printsUnsigned_of_le {base : Base} {b : Nat} (hbase : base.1 = b) (hb : 10 ≤ b)
    (hb' : b ≤ 16) (hpad : props.npad = 0) : PrintsUnsigned env n base props where
  text := by
    have hprint : Emits (fun p => printUnsigned env p n base props) _ :=
      emits_printUnsigned n base props
    rw [unsignedText_noPad env n props hbase hb hb' hpad] at hprint
    rwa [hbase]
  value := by
    rw [hbase]
    exact valueOf_numeral (by omega : 1 < b) hb' _
  zero := by
    rintro rfl
    rw [hbase]
    exact congrArg (List.map chr) (Nat.toDigits_zero b)
  noZero hn := by
    rw [hbase]
    exact head_numeral (by omega : 1 < b) hb' fun h0 => hn (BitVec.eq_of_toNat_eq h0)
  mirror b cs h := by
    have hreverse {b : NumBuf} {cs : List Byte} (h : b.Holds cs) : b.turn.Holds cs.reverse := by
      rw [← swapLoop_eq_reverse]
      exact h.turn
    refine ⟨hreverse h, ?_⟩
    rw [← List.reverse_reverse cs]
    exact hreverse (hreverse h)
  lookups buf i hi := by
    rw [runUnsigned_lookups, List.mem_reverse] at hi
    exact lookups_lt_base (Int.natCast_nonneg _) i hi
  stores buf i hi := by
    have hstore := (holds_fillUnsigned env n props buf base).finish_stores i hi
    have hlen := length_rawUnsigned_le env n props hbase hb hb'
    rw [unsignedBufSize]
    omega

/-- In base 10 or 16 and without a width, `print_unsigned` prints every number. -/
theorem printsUnsigned_noPad {base : Base} (hbase : base.1 = 10 ∨ base.1 = 16)
    (hpad : props.npad = 0) : PrintsUnsigned env n base props := by
  rcases hbase with h | h
  · exact printsUnsigned_of_le env n props h (by decide) (by decide) hpad
  · exact printsUnsigned_of_le env n props h (by decide) (by decide) hpad

/-- The number 255 in base 16 with its prefix. -/
theorem printsUnsigned_noPad_ff :
    PrintsUnsigned emptyEnv 255 hexadecimal ⟨chr ' ', 0, true⟩ :=
  printsUnsigned_noPad emptyEnv 255 ⟨chr ' ', 0, true⟩ (.inr rfl) rfl

end DmfOs
