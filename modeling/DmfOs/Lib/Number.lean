import DmfOs.Lib.Printf
import Mathlib.Tactic.IntervalCases

/-!
# Numbers as text

What `print_int` and `print_unsigned` print is compared with `Nat.toDigits`, and read back
with `atol`.
-/

namespace DmfOs

/-! ## Text of numbers -/

/-- The digits of a number, without leading zeros. -/
def numeral (b n : Nat) : List Byte := (Nat.toDigits b n).map chr

/-- The canonical decimal form of an integer. -/
def decimalText (n : Int) : List Byte :=
  (if n < 0 then [chr '-'] else []) ++ numeral 10 n.natAbs

/-- A numeral has no leading zero, except for 0. -/
theorem head_toDigits {b n : Nat} (hb : 1 < b) (hn : n ≠ 0) :
    (Nat.toDigits b n).head? ≠ some '0' := by
  induction n using Nat.base_induction b hb with
  | single m hm => simpa [Nat.toDigits_of_lt_base hm] using hn
  | digit m d hd hm ih =>
    rw [← Nat.toDigits_append_toDigits hb hm hd, List.head?_append,
      Option.or_of_isSome (by simp)]
    exact ih hm.ne'

/-- A digit as a character is an element of `digits`. -/
theorem digit_natCast (env : PrintfEnv) {d : Nat} (h : d < 16) :
    digit env d = chr d.digitChar := by
  have hin : (0 : Int) ≤ d ∧ (d : Int) < 16 := by omega
  rw [digit, if_pos hin, Int.toNat_natCast]
  interval_cases d <;> rfl

/-- The characters of a numeral are digits. -/
theorem exists_of_mem_toDigits {b n : Nat} (hb : 1 < b) {c : Char} (hc : c ∈ Nat.toDigits b n) :
    ∃ d < b, c = d.digitChar := by
  induction n using Nat.base_induction b hb with
  | single m hm =>
    rw [Nat.toDigits_of_lt_base hm, List.mem_singleton] at hc
    exact ⟨m, hm, hc⟩
  | digit m d hd hm ih =>
    rw [← Nat.toDigits_append_toDigits hb hm hd, List.mem_append,
      Nat.toDigits_of_lt_base hd, List.mem_singleton] at hc
    rcases hc with hc | rfl
    · exact ih hc
    · exact ⟨d, hd, rfl⟩

/-- A numeral has no zero byte. -/
theorem numeral_nonzero {b n : Nat} (hb : 1 < b) (hb' : b ≤ 16) : ∀ c ∈ numeral b n, c ≠ 0 := by
  intro c hc
  obtain ⟨x, hx, rfl⟩ := List.mem_map.mp hc
  obtain ⟨d, hd, rfl⟩ := exists_of_mem_toDigits hb hx
  have hd' : d < 16 := by omega
  interval_cases d <;> simp [chr, Nat.digitChar]

theorem numeral_ne_nil (b n : Nat) : numeral b n ≠ [] := by
  simp [numeral]

/-! ## The buffer turned around -/

theorem swapLoop_length (k i : Nat) (buf : List Byte) :
    (swapLoop k i buf).length = buf.length := by
  induction k generalizing i buf with
  | zero => rfl
  | succ k ih => simp [swapLoop, ih]

/-- From index `i` on, the loop exchanges what is left between `i` and the index as far
from the end. -/
theorem swapLoop_getD {k i : Nat} {buf : List Byte} (hk : i + k = buf.length / 2) (j : Nat) :
    (swapLoop k i buf).getD j 0 =
      if i ≤ j ∧ j < buf.length - i then buf.getD (buf.length - 1 - j) 0 else buf.getD j 0 := by
  induction k generalizing i buf with
  | zero =>
    rw [swapLoop]
    split_ifs with hj
    · rw [show buf.length - 1 - j = j by omega]
    · rfl
  | succ k ih =>
    have hset (x y : Byte) (j : Nat) :
        ((buf.set i x).set (buf.length - 1 - i) y).getD j 0 =
          if j = buf.length - 1 - i then y else if j = i then x else buf.getD j 0 := by
      simp only [List.getD_eq_getElem?_getD, List.getElem?_set, List.length_set]
      split_ifs <;> first | rfl | omega
    simp only [swapLoop, List.length_set]
    rw [ih (by simp only [List.length_set]; omega)]
    simp only [List.length_set, hset]
    split_ifs <;> first | rfl | omega | (congr 1; omega)

/-- The loop turns the whole buffer around. -/
theorem swapLoop_eq_reverse (buf : List Byte) : swapLoop (buf.length / 2) 0 buf = buf.reverse := by
  apply List.ext_getElem (by rw [swapLoop_length, List.length_reverse])
  intro j hj hj'
  rw [List.length_reverse] at hj'
  have hget := swapLoop_getD (Nat.zero_add (buf.length / 2)) j
  rw [if_pos (by omega), List.getD_eq_getElem _ _ hj, List.getD_eq_getElem _ _ (by omega)] at hget
  rw [hget, List.getElem_reverse]

/-- A buffer without zeros is turned around as a whole. -/
theorem finishBuf_bytes {buf : List Byte} (h : ∀ c ∈ buf, c ≠ 0) :
    (finishBuf buf).bytes = buf.reverse := by
  rw [finishBuf, CStr.ofBuffer, swapLoop_eq_reverse, List.takeWhile_eq_self_iff]
  intro c hc
  simpa using h c (List.mem_reverse.mp hc)

/-- A numeral turned around comes out the right way. -/
theorem finishBuf_numeral {b n : Nat} (hb : 1 < b) (hb' : b ≤ 16) :
    (finishBuf (numeral b n).reverse).bytes = numeral b n := by
  rw [finishBuf_bytes, List.reverse_reverse]
  intro c hc
  exact numeral_nonzero hb hb' c (List.mem_reverse.mp hc)

/-- So does a numeral with its prefix. -/
theorem finishBuf_prefixed {b n : Nat} (hb : 1 < b) (hb' : b ≤ 16) :
    (finishBuf ((numeral b n).reverse ++ [chr 'x', chr '0'])).bytes =
      [chr '0', chr 'x'] ++ numeral b n := by
  rw [finishBuf_bytes, List.reverse_append, List.reverse_reverse]
  · rfl
  · intro c hc
    rcases List.mem_append.mp hc with hc | hc
    · exact numeral_nonzero hb hb' c (List.mem_reverse.mp hc)
    · simp only [List.mem_cons, List.not_mem_nil, or_false] at hc
      rcases hc with rfl | rfl <;> decide

/-! ## Digits -/

/-- The indices at which the digit loop looks up `digits`. -/
def lookups (n : Int) (base : Base) : List Int :=
  if n = 0 then [] else n.tmod base :: lookups (n.tdiv base) base
termination_by n.natAbs
decreasing_by
  have := base.2
  rw [Int.natAbs_tdiv]
  exact Nat.div_lt_self (by omega) (by omega)

/-- The loop stores what it looks up. -/
theorem digitsLoop_eq_map (env : PrintfEnv) (n : Int) (base : Base) :
    digitsLoop env n base = (lookups n base).map (digit env) := by
  fun_induction lookups n base with
  | case1 => rw [digitsLoop, if_pos rfl, List.map_nil]
  | case2 n hn ih => rw [digitsLoop, if_neg hn, ih, List.map_cons]

/-- No lookup for a number that is not negative leaves the digits below the base. -/
theorem lookups_lt_base {n : Int} {base : Base} (hn : 0 ≤ n) :
    ∀ i ∈ lookups n base, 0 ≤ i ∧ i < base.1 := by
  have hbase : 0 < base.1 := by
    have := base.2
    omega
  fun_induction lookups n base with
  | case1 => simp
  | case2 n _ ih =>
    have hfirst : 0 ≤ n.tmod base.1 ∧ n.tmod base.1 < base.1 :=
      ⟨Int.tmod_nonneg _ hn, Int.tmod_lt_of_pos n hbase⟩
    exact List.forall_mem_cons.mpr ⟨hfirst, ih (Int.tdiv_nonneg hn hbase.le)⟩

/-- The digits of a natural number are stored from the lowest on. -/
theorem digitsLoop_natCast (env : PrintfEnv) {n b : Nat} (hn : n ≠ 0) (hb : 2 ≤ b) (hb' : b ≤ 16) :
    digitsLoop env n ⟨b, by omega⟩ = (numeral b n).reverse := by
  induction n using Nat.base_induction b hb with
  | single m hm =>
    have hzero : (m : Int) ≠ 0 := by omega
    rw [digitsLoop, if_neg hzero]
    dsimp only
    rw [← Int.ofNat_tmod, ← Int.ofNat_tdiv, Nat.mod_eq_of_lt hm, Nat.div_eq_of_lt hm,
      Nat.cast_zero, digitsLoop, if_pos rfl, digit_natCast env (by omega), numeral,
      Nat.toDigits_of_lt_base hm]
    rfl
  | digit m d hd hm ih =>
    have hzero : ((b * m + d : Nat) : Int) ≠ 0 := by
      have := Nat.mul_pos (by omega : 0 < b) hm
      omega
    have hmod : (b * m + d) % b = d := by rw [Nat.mul_add_mod, Nat.mod_eq_of_lt hd]
    have hdiv : (b * m + d) / b = m := by
      rw [Nat.mul_add_div (by omega), Nat.div_eq_of_lt hd, Nat.add_zero]
    rw [digitsLoop, if_neg hzero]
    dsimp only
    rw [← Int.ofNat_tmod, ← Int.ofNat_tdiv, hmod, hdiv, ih hm.ne', digit_natCast env (by omega),
      numeral, numeral, ← Nat.toDigits_append_toDigits hb hm hd, Nat.toDigits_of_lt_base hd]
    simp

/-- The buffer of a natural number before it is turned around. -/
theorem digitsLoop_or_zero (env : PrintfEnv) (n : Nat) {b : Nat} (hb : 2 ≤ b) (hb' : b ≤ 16) :
    (if digitsLoop env n ⟨b, by omega⟩ = [] then [chr '0'] else digitsLoop env n ⟨b, by omega⟩) =
      (numeral b n).reverse := by
  rcases Nat.eq_zero_or_pos n with rfl | hpos
  · rw [Nat.cast_zero, digitsLoop, if_pos rfl, if_pos rfl, numeral, Nat.toDigits_zero]
    rfl
  · rw [digitsLoop_natCast env hpos.ne' hb hb', if_neg]
    simp [numeral_ne_nil]

/-- The negative of every other number than the least `long` is its absolute value. -/
theorem toInt_neg_of_neg {n : Word} (hn : n.toInt < 0) (hmin : n.toInt ≠ -2 ^ 31) :
    (-n).toInt = n.toInt.natAbs := by
  have hle := n.le_toInt
  rw [BitVec.toInt_neg, Int.bmod_eq_of_le (by omega) (by omega)]
  omega

/-- The buffer of `print_int` before it is turned around. -/
def rawInt (env : PrintfEnv) (n : Word) (base : Base) : List Byte :=
  let (s, n) := if n.toInt < 0 then (true, -n) else (false, n)
  let buf := digitsLoop env n.toInt base
  let buf := if s then buf ++ [chr '-'] else buf
  if buf = [] then [chr '0'] else buf

theorem intBuf_eq_finishBuf (env : PrintfEnv) (n : Word) (base : Base) :
    intBuf env n base = finishBuf (rawInt env n base) := rfl

/-- The characters of every number but the least are stored from the last one on. -/
theorem rawInt_decimal (env : PrintfEnv) {n : Word} (hmin : n.toInt ≠ -2 ^ 31) :
    rawInt env n decimal = (decimalText n.toInt).reverse := by
  rw [rawInt, decimalText, List.reverse_append]
  by_cases hneg : n.toInt < 0
  · have hloop : digitsLoop env n.toInt.natAbs decimal = (numeral 10 n.toInt.natAbs).reverse :=
      digitsLoop_natCast env (b := 10) (by omega) (by omega) (by omega)
    simp only [if_pos hneg, toInt_neg_of_neg hneg hmin, hloop, if_true, List.append_eq_nil_iff,
      List.cons_ne_nil, and_false, if_false]
    rfl
  · have habs : n.toInt = n.toInt.natAbs := by omega
    have hloop := digitsLoop_or_zero env n.toInt.natAbs (b := 10) (by omega) (by omega)
    rw [← habs] at hloop
    simp only [if_neg hneg, List.reverse_nil, List.append_nil]
    exact hloop

/-- A decimal form has no zero byte. -/
theorem decimalText_nonzero (n : Int) : ∀ c ∈ decimalText n, c ≠ 0 := by
  intro c hc
  rcases List.mem_append.mp hc with hc | hc
  · split_ifs at hc
    · rw [List.mem_singleton.mp hc]
      decide
    · exact absurd hc List.not_mem_nil
  · exact numeral_nonzero (by omega) (by omega) c hc

/-- `print_int` leaves the decimal form of every number but the least in its buffer. -/
theorem intBuf_bytes (env : PrintfEnv) {n : Word} (hmin : n.toInt ≠ -2 ^ 31) :
    (intBuf env n decimal).bytes = decimalText n.toInt := by
  rw [intBuf_eq_finishBuf, rawInt_decimal env hmin, finishBuf_bytes, List.reverse_reverse]
  intro c hc
  exact decimalText_nonzero _ c (List.mem_reverse.mp hc)

/-! ## Reading numbers -/

/-- A decimal digit as a character. -/
theorem isDigit_digitChar {d : Nat} (h : d < 10) :
    isDigit (chr d.digitChar) = true ∧
      (chr d.digitChar).signExtend 32 - (chr '0').signExtend 32 = .ofNat 32 d := by
  interval_cases d <;> exact ⟨rfl, rfl⟩

/-- All characters are decimal digits. -/
def AllDigits (cs : List Char) : Prop := ∀ c ∈ cs, ∃ d < 10, c = d.digitChar

theorem allDigits_toDigits (n : Nat) : AllDigits (Nat.toDigits 10 n) :=
  fun _ hc => exists_of_mem_toDigits (by omega) hc

theorem allDigits_replicate (k : Nat) : AllDigits (List.replicate k '0') :=
  fun _ hc => ⟨0, by omega, List.eq_of_mem_replicate hc⟩

theorem AllDigits.append {cs cs' : List Char} (h : AllDigits cs) (h' : AllDigits cs') :
    AllDigits (cs ++ cs') := by
  intro c hc
  rcases List.mem_append.mp hc with hc | hc
  · exact h c hc
  · exact h' c hc

theorem AllDigits.isDigit {cs : List Char} (h : AllDigits cs) :
    ∀ c ∈ cs.map chr, isDigit c = true := by
  intro c hc
  obtain ⟨x, hx, rfl⟩ := List.mem_map.mp hc
  obtain ⟨d, hd, rfl⟩ := h x hx
  exact (isDigit_digitChar hd).1

/-- The text does not go on with a digit. -/
def NoDigit (rest : List Byte) : Prop := ∀ c ∈ rest.head?, isDigit c = false

/-- What follows the digits. -/
theorem dropWhile_digits {cs : List Char} (hcs : AllDigits cs) {rest : List Byte}
    (hrest : NoDigit rest) : (cs.map chr ++ rest).dropWhile isDigit = rest := by
  rw [List.dropWhile_append_of_pos hcs.isDigit]
  cases rest with
  | nil => rfl
  | cons c rest => exact List.dropWhile_cons_of_neg (by simp [hrest c rfl])

/-- The accumulator holds the number read so far, modulo the word size. -/
theorem atolLoop_digits {cs : List Char} (hcs : AllDigits cs) {rest : List Byte}
    (hrest : NoDigit rest) (acc : Nat) :
    atolLoop (cs.map chr ++ rest) (.ofNat 32 acc) = .ofNat 32 (Nat.ofDigitChars 10 cs acc) := by
  induction cs generalizing acc with
  | nil =>
    cases rest with
    | nil => rfl
    | cons c rest =>
      have hc : isDigit c = false := hrest c rfl
      simp [atolLoop, hc]
  | cons c cs ih =>
    obtain ⟨⟨d, hd, rfl⟩, hcs'⟩ := List.forall_mem_cons.mp hcs
    obtain ⟨hdigit, hvalue⟩ := isDigit_digitChar hd
    have hacc : BitVec.ofNat 32 acc * 10 + .ofNat 32 d = .ofNat 32 (10 * acc + d) := by
      rw [Nat.mul_comm, BitVec.ofNat_add, BitVec.ofNat_mul]
      rfl
    rw [List.map_cons, List.cons_append, atolLoop, hdigit, hvalue, hacc,
      Nat.ofDigitChars_cons_digitChar_of_lt_ten hd]
    exact ih hcs' _

/-- A number with a minus sign. -/
theorem atol_minus {cs : List Char} (hcs : AllDigits cs) {rest : List Byte}
    (hrest : NoDigit rest) :
    atol (chr '-' :: (cs.map chr ++ rest)) = -.ofNat 32 (Nat.ofDigitChars 10 cs 0) := by
  rw [← atolLoop_digits hcs hrest]
  rfl

/-- A number without a sign. -/
theorem atol_digits {cs : List Char} (hcs : AllDigits cs) (hne : cs ≠ []) {rest : List Byte}
    (hrest : NoDigit rest) :
    atol (cs.map chr ++ rest) = .ofNat 32 (Nat.ofDigitChars 10 cs 0) := by
  rw [← atolLoop_digits hcs hrest]
  cases cs with
  | nil => exact absurd rfl hne
  | cons c cs =>
    obtain ⟨d, hd, rfl⟩ := hcs c List.mem_cons_self
    rw [List.map_cons, List.cons_append]
    generalize cs.map chr ++ rest = tail
    interval_cases d <;> rfl

/-- The decimal form of an integer is read back, also behind leading zeros. -/
theorem atol_decimal (n : Word) (k : Nat) :
    atol ((if n.toInt < 0 then [chr '-'] else []) ++ List.replicate k (chr '0') ++
      numeral 10 n.toInt.natAbs) = n := by
  have hdigits := (allDigits_replicate k).append (allDigits_toDigits n.toInt.natAbs)
  have hend : NoDigit [] := by simp [NoDigit]
  have hvalue : Nat.ofDigitChars 10 (List.replicate k '0' ++ Nat.toDigits 10 n.toInt.natAbs) 0 =
      n.toInt.natAbs := by
    rw [Nat.ofDigitChars_append, Nat.ofDigitChars_replicate_zero, Nat.mul_zero,
      Nat.ofDigitChars_ten_toDigits]
  have htext : List.replicate k (chr '0') ++ numeral 10 n.toInt.natAbs =
      (List.replicate k '0' ++ Nat.toDigits 10 n.toInt.natAbs).map chr ++ [] := by
    rw [List.append_nil, List.map_append, List.map_replicate, numeral]
  rw [List.append_assoc, htext]
  by_cases hneg : n.toInt < 0
  · have habs : n.toInt = -(n.toInt.natAbs : Int) := by omega
    rw [if_pos hneg, List.singleton_append, atol_minus hdigits hend, hvalue,
      ← BitVec.ofInt_natCast, ← BitVec.ofInt_neg, ← habs, BitVec.ofInt_toInt]
  · have habs : n.toInt = n.toInt.natAbs := by omega
    rw [if_neg hneg, List.nil_append, atol_digits hdigits (by simp) hend, hvalue,
      ← BitVec.ofInt_natCast, ← habs, BitVec.ofInt_toInt]

/-! ## Different numbers -/

theorem isDigit_of_mem_numeral {n : Nat} {c : Byte} (hc : c ∈ numeral 10 n) : isDigit c = true :=
  (allDigits_toDigits n).isDigit c hc

/-- A character that is no digit and no sign is in no decimal form. -/
theorem notMem_decimalText {c : Byte} (hdigit : isDigit c = false) (hsign : c ≠ chr '-') (n : Int) :
    c ∉ decimalText n := by
  intro hc
  rcases List.mem_append.mp hc with hc | hc
  · split_ifs at hc
    · exact hsign (List.mem_singleton.mp hc)
    · exact List.not_mem_nil hc
  · rw [isDigit_of_mem_numeral hc] at hdigit
    exact Bool.noConfusion hdigit

theorem numeral_injective : Function.Injective (numeral 10) := by
  intro m n h
  have hback (k : Nat) : (numeral 10 k).map (fun c => Char.ofNat c.toNat) = Nat.toDigits 10 k := by
    rw [numeral, List.map_map]
    refine (List.map_congr_left fun x hx => ?_).trans (List.map_id _)
    obtain ⟨d, hd, rfl⟩ := allDigits_toDigits k x hx
    interval_cases d <;> rfl
  have hdigits : Nat.toDigits 10 m = Nat.toDigits 10 n := by rw [← hback, ← hback, h]
  rw [← Nat.ofDigitChars_ten_toDigits (n := m), hdigits, Nat.ofDigitChars_ten_toDigits]

/-- Different integers have different decimal forms. -/
theorem decimalText_injective : Function.Injective decimalText := by
  intro m n h
  have hminus (k : Nat) : chr '-' ∉ numeral 10 k :=
    fun hc => absurd (isDigit_of_mem_numeral hc) (by decide)
  have hmem (k : Int) : chr '-' ∈ decimalText k ↔ k < 0 := by
    by_cases hk : k < 0
    · simp [decimalText, hk]
    · simp [decimalText, hk, hminus]
  have hsign : m < 0 ↔ n < 0 := by rw [← hmem, ← hmem, h]
  have habs : m.natAbs = n.natAbs := by
    rw [decimalText, decimalText, if_congr hsign rfl rfl] at h
    exact numeral_injective (List.append_cancel_left h)
  omega

/-! ## Padding -/

variable {env : PrintfEnv} {s : CStr}

theorem toInt_strlen (hlen : s.bytes.length < 2 ^ 31) : (strlen s).toInt = s.bytes.length := by
  rw [strlen, BitVec.toInt_ofNat', Int.bmod_eq_of_le (by omega) (by omega)]

/-- The width without the length of the string does not overflow. -/
theorem toInt_sub_strlen (hlen : s.bytes.length < 2 ^ 31) {npad : Word} (hpos : 0 < npad.toInt) :
    (npad - strlen s).toInt = npad.toInt - s.bytes.length := by
  have hlt := npad.toInt_lt
  rw [BitVec.toInt_sub, toInt_strlen hlen, Int.bmod_eq_of_le (by omega) (by omega)]

/-- A negative width and the length of the string do not overflow. -/
theorem toInt_add_strlen (hlen : s.bytes.length < 2 ^ 31) {npad : Word} (hneg : npad.toInt < 0) :
    (npad + strlen s).toInt = npad.toInt + s.bytes.length := by
  have hle := npad.le_toInt
  rw [BitVec.toInt_add, toInt_strlen hlen, Int.bmod_eq_of_le (by omega) (by omega)]

/-- A positive width pads on the left. -/
theorem strText_right (props : Strprops) (hlen : s.bytes.length < 2 ^ 31)
    (hpos : 0 < props.npad.toInt) :
    strText s props =
      List.replicate (props.npad.toInt.toNat - s.bytes.length) props.pad ++ s.bytes := by
  have hsub := toInt_sub_strlen hlen hpos
  have hbefore : padBefore s props = props.npad.toInt.toNat - s.bytes.length := by
    rw [padBefore, if_pos hpos, hsub]
    omega
  have hafter : padAfter s props = 0 := by
    simp only [padAfter, if_pos hpos, hsub]
    by_cases hroom : 0 < props.npad.toInt - s.bytes.length
    · simp only [if_pos hroom]
      exact if_neg (lt_irrefl 0)
    · have hcancel : props.npad - strlen s + strlen s = props.npad := BitVec.sub_add_cancel _ _
      simp only [if_neg hroom, hcancel]
      split_ifs
      · omega
      · rfl
  rw [strText, hbefore, hafter, List.replicate_zero, List.append_nil]

/-- A negative width pads with spaces on the right. -/
theorem strText_left (props : Strprops) (hlen : s.bytes.length < 2 ^ 31)
    (hneg : props.npad.toInt ≤ 0) :
    strText s props =
      s.bytes ++ List.replicate (props.npad.toInt.natAbs - s.bytes.length) (chr ' ') := by
  have hbefore : padBefore s props = 0 := if_neg (by omega)
  have hafter : padAfter s props = props.npad.toInt.natAbs - s.bytes.length := by
    simp only [padAfter, if_neg (by omega : ¬0 < props.npad.toInt)]
    split_ifs with hlt
    · rw [toInt_add_strlen hlen hlt]
      omega
    · omega
  rw [strText, hbefore, hafter, List.replicate_zero, List.nil_append]

/-- Without a width there is no padding. -/
theorem strText_noPad {props : Strprops} (hlen : s.bytes.length < 2 ^ 31) (h : props.npad = 0) :
    strText s props = s.bytes := by
  have hzero : props.npad.toInt = 0 := by
    rw [h]
    rfl
  rw [strText_left props hlen hzero.le, hzero]
  simp

/-- A numeral of a word in base 10 or more has at most ten digits. -/
theorem length_numeral_le {b n : Nat} (hb : 10 ≤ b) (hn : n < 2 ^ 32) :
    (numeral b n).length ≤ 10 := by
  rw [numeral, List.length_map, Nat.length_toDigits_le_iff (by omega) (by omega)]
  calc n < 2 ^ 32 := hn
    _ ≤ 10 ^ 10 := by norm_num
    _ ≤ b ^ 10 := Nat.pow_le_pow_left hb 10

theorem length_decimalText_le (n : Word) : (decimalText n.toInt).length ≤ 11 := by
  have hlt := n.toInt_lt
  have hle := n.le_toInt
  have hlen := length_numeral_le (b := 10) (n := n.toInt.natAbs) le_rfl (by omega)
  rw [decimalText, List.length_append]
  split_ifs
  · rw [List.length_singleton]
    omega
  · rw [List.length_nil]
    omega

/-! ## The least integer -/

/-- The least integer is its own negative, and its first digit is looked up before the
array. -/
theorem lookups_min : -8 ∈ lookups (-2 ^ 31) decimal := by
  rw [lookups, if_neg (by omega)]
  exact List.mem_cons_self

/-- What lies before the array then gets into the text. -/
theorem around_mem_intBuf_min {env : PrintfEnv} (h : ∀ i, env.around i ≠ 0) :
    env.around (-8) ∈ (intBuf env (.ofInt 32 (-2 ^ 31)) decimal).bytes := by
  have hneg : (BitVec.ofInt 32 (-2 ^ 31)).toInt < 0 := by decide
  have hself : (-BitVec.ofInt 32 (-2 ^ 31)).toInt = -2 ^ 31 := by decide
  have hdigit (i : Int) : digit env i ≠ 0 := by
    rw [digit]
    split_ifs with hi
    · obtain ⟨d, rfl⟩ := Int.eq_ofNat_of_zero_le hi.1
      have hd : d < 16 := by omega
      rw [Int.toNat_natCast]
      interval_cases d <;> decide
    · exact h i
  have hraw : rawInt env (.ofInt 32 (-2 ^ 31)) decimal =
      (lookups (-2 ^ 31) decimal).map (digit env) ++ [chr '-'] := by
    simp only [rawInt, if_pos hneg, if_true, hself, digitsLoop_eq_map, List.append_eq_nil_iff,
      List.cons_ne_nil, and_false, if_false]
  rw [intBuf_eq_finishBuf, hraw, finishBuf_bytes]
  · rw [List.mem_reverse]
    exact List.mem_append_left _ (List.mem_map.mpr ⟨-8, lookups_min, rfl⟩)
  · intro c hc
    rcases List.mem_append.mp hc with hc | hc
    · obtain ⟨i, _, rfl⟩ := List.mem_map.mp hc
      exact hdigit i
    · rw [List.mem_singleton.mp hc]
      decide

end DmfOs
