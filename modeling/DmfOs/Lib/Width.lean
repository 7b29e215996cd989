import DmfOs.Lib.Format
import DmfOs.Lib.Number

/-!
# Field widths

How `print_str` justifies a string, how `print_unsigned` fills a field in base 16, where the
prefix goes into the number buffer or, for zeros on the left, straight to the stream, and how
`vsnprintf` fills one with zeros for a decimal number.
-/

namespace DmfOs

variable {env : PrintfEnv} {f : Pstream → Pstream} {cs cs' : List Byte}

/-- What a function adds is determined. -/
theorem Emits.unique (h : Emits f cs) (h' : Emits f cs') : cs = cs' := by
  let p : Pstream := ⟨0, 0, 0, ⟨fun _ => 0, []⟩, []⟩
  have heq : (cs.foldl addchar p).chars = (cs'.foldl addchar p).chars := by rw [← h p, ← h' p]
  rwa [(foldl_addchar_count cs p).1, (foldl_addchar_count cs' p).1] at heq

/-! ## Justification -/

/-- The text is the string in a field of the width: behind pad characters for a positive
width, in front of spaces for a negative one. A string that needs no field stands alone. -/
structure Justifies (s : CStr) (props : Strprops) (cs : List Byte) : Prop where
  length : cs.length = max props.npad.toInt.natAbs s.bytes.length
  right : 0 < props.npad.toInt → ∃ k, cs = List.replicate k props.pad ++ s.bytes
  left : props.npad.toInt < 0 → ∃ k, cs = s.bytes ++ List.replicate k (chr ' ')
  alone : props.npad.toInt.natAbs ≤ s.bytes.length → cs = s.bytes

/-- `print_str` justifies every string whose length is an `int`, for every width. -/
theorem printStr_justifies (s : CStr) (props : Strprops) (hlen : s.bytes.length < 2 ^ 31) :
    ∃ cs, Emits (fun p => printStr p s props) cs ∧ Justifies s props cs := by
  refine ⟨strText s props, emits_printStr s props, ?_⟩
  rcases lt_or_ge 0 props.npad.toInt with hpos | hneg
  · have htext := strText_right props hlen hpos
    refine ⟨?_, fun _ => ⟨_, htext⟩, fun h => absurd h (by omega), fun hshort => ?_⟩
    · rw [htext, List.length_append, List.length_replicate]
      omega
    · have hnone : props.npad.toInt.toNat - s.bytes.length = 0 := by omega
      rw [htext, hnone]
      rfl
  · have htext := strText_left props hlen hneg
    refine ⟨?_, fun h => absurd h (by omega), fun _ => ⟨_, htext⟩, fun hshort => ?_⟩
    · rw [htext, List.length_append, List.length_replicate]
      omega
    · rw [htext, Nat.sub_eq_zero_of_le hshort, List.replicate_zero, List.append_nil]

/-- One letter in a field of three zeros. -/
theorem printStr_justifies_letter :
    ∃ cs, Emits (fun p => printStr p ⟨[chr 'a'], by decide⟩ ⟨chr '0', 3, false⟩) cs ∧
      Justifies ⟨[chr 'a'], by decide⟩ ⟨chr '0', 3, false⟩ cs :=
  printStr_justifies ⟨[chr 'a'], by decide⟩ ⟨chr '0', 3, false⟩ (by decide)

/-! ## The rendering -/

/-- The prefix of a number in base 16; 0 has none. -/
def hexPrefix (n : Word) (alternate : Bool) : List Byte :=
  if alternate ∧ n ≠ 0 then [chr '0', chr 'x'] else []

/-- A number in base 16 without padding. -/
def hexText (n : Word) (alternate : Bool) : List Byte :=
  hexPrefix n alternate ++ numeral 16 n.toNat

/-- The properties with the flags `0` and `#` and a width. -/
def hexProps (zero alternate : Bool) (w : Word) : Strprops :=
  ⟨if zero then chr '0' else chr ' ', w, alternate⟩

/-- The text fills the field: on the right with spaces for a negative width, else on the
left with the pad character, zeros behind the prefix. -/
structure FillsField (n : Word) (zero alternate : Bool) (w : Word) (cs : List Byte) : Prop where
  length : cs.length = max w.toInt.natAbs (hexText n alternate).length
  left : w.toInt ≤ 0 → ∃ k, cs = hexText n alternate ++ List.replicate k (chr ' ')
  right : 0 < w.toInt → ∃ k, cs =
    if zero then hexPrefix n alternate ++ List.replicate k (chr '0') ++ numeral 16 n.toNat
    else List.replicate k (chr ' ') ++ hexText n alternate

theorem length_hexText_le (n : Word) (alternate : Bool) : (hexText n alternate).length ≤ 12 := by
  have hlen := length_numeral_le (b := 16) (by omega) n.isLt
  rw [hexText, hexPrefix, List.length_append]
  split_ifs
  · simp only [List.length_cons, List.length_nil]
    omega
  · rw [List.length_nil]
    omega

/-- The digits of a number other than 0 as they are stored. -/
theorem digitsLoop_hex (env : PrintfEnv) {n : Word} (hn : n ≠ 0) :
    digitsLoop env n.toNat hexadecimal = (numeral 16 n.toNat).reverse := by
  have hnat : n.toNat ≠ 0 := fun h0 => hn (BitVec.eq_of_toNat_eq h0)
  exact digitsLoop_natCast env (b := 16) hnat (by omega) (by omega)

/-- A string that is the whole rendering fills the field, as long as zeros have no prefix
to go behind. -/
theorem fillsField_strText {s : CStr} {n w : Word} {zero alternate : Bool}
    (hs : s.bytes = hexText n alternate) (hzero : zero = true → hexPrefix n alternate = []) :
    FillsField n zero alternate w (strText s (hexProps zero alternate w)) := by
  have hlen := length_hexText_le n alternate
  have hbound : s.bytes.length < 2 ^ 31 := by
    rw [hs]
    omega
  rcases lt_or_ge 0 w.toInt with hpos | hneg
  · have htext := strText_right (hexProps zero alternate w) hbound hpos
    rw [hs] at htext
    refine ⟨?_, fun h => absurd h (by omega),
      fun _ => ⟨w.toInt.toNat - (hexText n alternate).length, htext.trans ?_⟩⟩
    · rw [htext, List.length_append, List.length_replicate]
      simp only [hexProps]
      omega
    · cases zero with
      | false => rfl
      | true =>
        rw [if_pos rfl, hexText, hzero rfl]
        rfl
  · have htext := strText_left (hexProps zero alternate w) hbound hneg
    rw [hs] at htext
    refine ⟨?_, fun _ => ⟨_, htext⟩, fun h => absurd h (by omega)⟩
    rw [htext, List.length_append, List.length_replicate]
    simp only [hexProps]
    omega

/-- The text of a number with zeros behind a prefix that went straight to the stream. -/
def prefixedText (s : CStr) (w : Word) : List Byte :=
  chr '0' :: chr 'x' :: strText s (
    if 0 < w.toInt then hexProps true true (if (w - 2).toInt > 0 then w - 2 else 0)
    else hexProps true true w)

/-- A positive width is corrected for the prefix. -/
theorem prefixedText_right {s : CStr} {w : Word} (hs : s.bytes.length < 2 ^ 31)
    (hpos : 0 < w.toInt) :
    prefixedText s w = [chr '0', chr 'x'] ++
      List.replicate (w.toInt.toNat - 2 - s.bytes.length) (chr '0') ++ s.bytes := by
  have hlt := w.toInt_lt
  have hsub : (w - 2).toInt = w.toInt - 2 := by
    rw [BitVec.toInt_sub]
    exact Int.bmod_eq_of_le (by simp; omega) (by simp; omega)
  rw [prefixedText, if_pos hpos]
  by_cases hroom : (w - 2).toInt > 0
  · have hnat : (w.toInt - 2).toNat = w.toInt.toNat - 2 := by omega
    rw [if_pos hroom, strText_right (hexProps true true (w - 2)) hs hroom]
    simp only [hexProps, hsub, hnat]
    rfl
  · have hnone : w.toInt.toNat - 2 - s.bytes.length = 0 := by omega
    rw [if_neg hroom, strText_noPad hs rfl, hnone]
    rfl

/-- A negative width is not. -/
theorem prefixedText_left {s : CStr} {w : Word} (hs : s.bytes.length < 2 ^ 31)
    (hneg : w.toInt ≤ 0) :
    prefixedText s w = [chr '0', chr 'x'] ++ s.bytes ++
      List.replicate (w.toInt.natAbs - s.bytes.length) (chr ' ') := by
  have hleft : (hexProps true true w).npad.toInt ≤ 0 := hneg
  rw [prefixedText, if_neg (by omega), strText_left (hexProps true true w) hs hleft]
  rfl

/-- With the prefix straight to the stream, a number on the left is followed by as many
spaces as if it had no prefix. -/
theorem fillsField_prefixedText_iff {s : CStr} {n w : Word} (hn : n ≠ 0)
    (hs : s.bytes = numeral 16 n.toNat) :
    FillsField n true true w (prefixedText s w) ↔
      ¬(w.toInt < 0 ∧ (numeral 16 n.toNat).length < w.toInt.natAbs) := by
  have hlen := length_numeral_le (b := 16) (by omega) n.isLt
  have hbound : s.bytes.length < 2 ^ 31 := by
    rw [hs]
    omega
  have hprefix : hexPrefix n true = [chr '0', chr 'x'] := if_pos ⟨rfl, hn⟩
  have hall : (hexText n true).length = 2 + (numeral 16 n.toNat).length := by
    rw [hexText, hprefix, List.length_append]
    rfl
  rcases lt_or_ge 0 w.toInt with hpos | hneg
  · have htext := prefixedText_right hbound hpos
    rw [hs] at htext
    refine iff_of_true ⟨?_, fun h => absurd h (by omega),
      fun _ => ⟨w.toInt.toNat - 2 - (numeral 16 n.toNat).length, ?_⟩⟩ (by omega)
    · rw [htext, hall]
      simp only [List.length_append, List.length_replicate, List.length_cons, List.length_nil]
      omega
    · rw [htext, hprefix, if_pos rfl]
  · have htext := prefixedText_left hbound hneg
    rw [hs, ← hprefix] at htext
    have hcount : (prefixedText s w).length =
        2 + (numeral 16 n.toNat).length + (w.toInt.natAbs - (numeral 16 n.toNat).length) := by
      rw [htext, ← hexText, List.length_append, List.length_replicate, hall]
    constructor
    · rintro h ⟨_, hshort⟩
      have hlength := h.length
      omega
    · intro h
      refine ⟨by omega, fun _ => ⟨_, htext⟩, fun h => absurd h (by omega)⟩

/-! ## All flags -/

/-- What is printed in base 16, with the prefix in the buffer or straight to the stream. -/
theorem unsignedText_hex (env : PrintfEnv) (n w : Word) (zero alternate : Bool) :
    ∃ s : CStr,
      (n ≠ 0 ∧ alternate = true ∧ zero = true ∧ s.bytes = numeral 16 n.toNat ∧
        unsignedText env n hexadecimal (hexProps zero alternate w) = prefixedText s w) ∨
      ((zero = true → hexPrefix n alternate = []) ∧ s.bytes = hexText n alternate ∧
        unsignedText env n hexadecimal (hexProps zero alternate w) =
          strText s (hexProps zero alternate w)) := by
  by_cases hn : n = 0
  · have hempty : hexPrefix n alternate = [] := if_neg fun h => h.2 hn
    refine ⟨finishBuf [chr '0'], .inr ⟨fun _ => hempty, ?_, ?_⟩⟩
    · rw [hexText, hempty, hn]
      rfl
    · have hloop : digitsLoop env n.toNat hexadecimal = [] := by
        rw [hn, digitsLoop]
        exact if_pos rfl
      rw [unsignedText, hloop]
      exact if_pos rfl
  · have hloop := digitsLoop_hex env hn
    have hne : (numeral 16 n.toNat).reverse ≠ [] := by simp [numeral_ne_nil]
    have hbase : (hexadecimal.1 == 16) = true := rfl
    rw [unsignedText, hloop]
    simp only [if_neg hne, hbase, Bool.and_true]
    cases alternate with
    | false =>
      exact ⟨finishBuf (numeral 16 n.toNat).reverse,
        .inr ⟨fun _ => rfl, finishBuf_numeral (by omega) (by omega), rfl⟩⟩
    | true =>
      cases zero with
      | false =>
        refine ⟨finishBuf ((numeral 16 n.toNat).reverse ++ [chr 'x', chr '0']),
          .inr ⟨fun h => absurd h Bool.false_ne_true, ?_, rfl⟩⟩
        rw [finishBuf_prefixed (by omega) (by omega), hexText, hexPrefix, if_pos ⟨rfl, hn⟩]
      | true =>
        exact ⟨finishBuf (numeral 16 n.toNat).reverse,
          .inl ⟨hn, rfl, rfl, finishBuf_numeral (by omega) (by omega), rfl⟩⟩

/-- What is printed fills its field except for a number other than 0 with both flags and a
negative width larger than its number of digits. -/
theorem fillsField_unsignedText_iff (env : PrintfEnv) (n w : Word) (zero alternate : Bool) :
    FillsField n zero alternate w (unsignedText env n hexadecimal (hexProps zero alternate w)) ↔
      ¬(n ≠ 0 ∧ alternate = true ∧ zero = true ∧ w.toInt < 0 ∧
        (numeral 16 n.toNat).length < w.toInt.natAbs) := by
  obtain ⟨s, ⟨hn, rfl, rfl, hs, htext⟩ | ⟨hzero, hs, htext⟩⟩ :=
    unsignedText_hex env n w zero alternate
  · rw [htext, fillsField_prefixedText_iff hn hs]
    exact not_congr ⟨fun h => ⟨hn, rfl, rfl, h⟩, fun ⟨_, _, _, h⟩ => h⟩
  · rw [htext]
    refine iff_of_true (fillsField_strText hs hzero) ?_
    rintro ⟨hn, rfl, rfl, -, -⟩
    have hempty := hzero rfl
    rw [hexPrefix, if_pos ⟨rfl, hn⟩] at hempty
    exact List.cons_ne_nil _ _ hempty

/-- What holds of the text that a function adds. -/
theorem Emits.exists_iff (h : Emits f cs) (P : List Byte → Prop) :
    (∃ cs, Emits f cs ∧ P cs) ↔ P cs :=
  ⟨fun ⟨_, hcs, hp⟩ => h.unique hcs ▸ hp, fun hp => ⟨cs, h, hp⟩⟩

/-- For every number, width and flags, `print_unsigned` in base 16 fills its field, except
that it prints too much for a number other than 0 with both flags and a negative width
larger than its number of digits. -/
theorem printUnsigned_fillsField_iff (env : PrintfEnv) (n w : Word) (zero alternate : Bool) :
    (∃ cs, Emits (fun p => printUnsigned env p n hexadecimal (hexProps zero alternate w)) cs ∧
      FillsField n zero alternate w cs) ↔
    ¬(n ≠ 0 ∧ alternate = true ∧ zero = true ∧ w.toInt < 0 ∧
      (numeral 16 n.toNat).length < w.toInt.natAbs) := by
  rw [(emits_printUnsigned n hexadecimal _).exists_iff (FillsField n zero alternate w)]
  exact fillsField_unsignedText_iff env n w zero alternate

/-- The number 1 with both flags in a field of 20 characters on the left. -/
theorem not_fillsField_left :
    ¬∃ cs, Emits (fun p => printUnsigned emptyEnv p 1 hexadecimal (hexProps true true (-20))) cs ∧
      FillsField 1 true true (-20) cs := by
  rw [(emits_printUnsigned 1 hexadecimal _).exists_iff (FillsField 1 true true (-20)),
    fillsField_unsignedText_iff, not_not]
  have hlen := length_numeral_le (b := 16) (n := (1 : Word).toNat) (by omega) (by simp)
  have hwidth : (-20 : Word).toInt = -20 := by decide
  rw [hwidth]
  exact ⟨by decide, rfl, rfl, by omega, by omega⟩

/-! ## Zeros before a decimal number -/

/-- `fmtnum` reads the digits of a number and leaves what follows them. -/
theorem fmtnum_digits {ds : List Char} (hds : AllDigits ds) (hne : ds ≠ []) {rest : List Byte}
    (hrest : NoDigit rest) :
    fmtnum (ds.map chr ++ rest) = (.ofNat 32 (Nat.ofDigitChars 10 ds 0), rest) := by
  have hall := hds.isDigit
  have hdrop := dropWhile_digits hds hrest
  refine Prod.ext (atol_digits hds hne hrest) ?_
  cases ds with
  | nil => exact absurd rfl hne
  | cons d ds =>
    have hsign : chr d ≠ chr '-' := by
      intro h
      have hdigit := hall (chr d) List.mem_cons_self
      rw [h] at hdigit
      exact absurd hdigit (by decide)
    rw [List.map_cons, List.cons_append] at hdrop ⊢
    rw [fmtnum_snd, if_neg hsign, hdrop]

/-- The format of a decimal number with the flag `0` and a width. -/
def zeroFmt (w : Nat) : CStr where
  bytes := chr '%' :: chr '0' :: (numeral 10 w ++ [chr 'd'])
  nonzero := by
    have hdigits := numeral_nonzero (b := 10) (n := w) (by omega) (by omega)
    simp only [List.forall_mem_cons, List.forall_mem_append]
    exact ⟨by decide, by decide, hdigits, by decide, by simp⟩

/-- It is one conversion, with the width as a word. -/
theorem pieces_zeroFmt (w : Nat) :
    pieces (zeroFmt w).bytes = [.conv ⟨chr 'd', 0, ⟨chr '0', .ofNat 32 w, false⟩, []⟩] := by
  have hend : NoDigit [chr 'd'] := by
    intro c hc
    rw [← Option.some.inj hc]
    rfl
  have hnum := fmtnum_digits (allDigits_toDigits w) Nat.toDigits_ne_nil hend
  have hzero : ¬chr '0' = chr '#' := by decide
  rw [Nat.ofDigitChars_ten_toDigits, ← numeral] at hnum
  rw [zeroFmt, pieces_conv, moreFmt, if_neg hzero, if_pos rfl, hnum, moreFmt]
  exact congrArg (_ :: ·) pieces_nil

/-- What is printed for it. -/
theorem fullOutput_zeroFmt (env : PrintfEnv) (w : Nat) (va : Stream' Word) :
    fullOutput env (zeroFmt w) va =
      strText (intBuf env va.head decimal) ⟨chr '0', .ofNat 32 w, false⟩ := by
  rw [fullOutput_eq_render, pieces_zeroFmt, render, trace, trace, List.flatMap_cons,
    List.flatMap_nil, List.append_nil]
  rfl

/-- A number filled up with zeros between its sign and its digits. -/
structure ZeroPadded (n : Word) (w : Nat) (cs : List Byte) : Prop where
  length : cs.length = max w (decimalText n.toInt).length
  text : ∃ k, cs = (if n.toInt < 0 then [chr '-'] else []) ++ List.replicate k (chr '0') ++
    numeral 10 n.toInt.natAbs
  readBack : atol cs = n

/-- There is no space in a number filled up with zeros. -/
theorem ZeroPadded.space_notMem {n : Word} {w : Nat} {cs : List Byte} (h : ZeroPadded n w cs) :
    chr ' ' ∉ cs := by
  obtain ⟨k, rfl⟩ := h.text
  have hdigits : chr ' ' ∉ numeral 10 n.toInt.natAbs := by
    intro hmem
    exact absurd (isDigit_of_mem_numeral hmem) (by decide)
  have hzeros : chr ' ' ∉ List.replicate k (chr '0') := by
    intro hmem
    exact absurd (List.eq_of_mem_replicate hmem) (by decide)
  have hsign : chr ' ' ∉ if n.toInt < 0 then [chr '-'] else [] := by
    split_ifs <;> decide
  simp only [List.mem_append, hsign, hzeros, hdigits, or_self, not_false_eq_true]

/-- A width that is an `int` puts its zeros in front of the sign. -/
theorem zeroPadded_iff_of_lt {s : CStr} {n : Word} {w : Nat} (hs : s.bytes = decimalText n.toInt)
    (hw : 1 ≤ w) (hint : w < 2 ^ 31) :
    ZeroPadded n w (strText s ⟨chr '0', .ofNat 32 w, false⟩) ↔
      0 ≤ n.toInt ∨ w ≤ (decimalText n.toInt).length := by
  have hlen := length_decimalText_le n
  have hnpad : (BitVec.ofNat 32 w).toInt = w := by
    rw [BitVec.toInt_ofNat', Int.bmod_eq_of_le (by omega) (by omega)]
  have htext := strText_right (s := s) ⟨chr '0', .ofNat 32 w, false⟩ (by rw [hs]; omega)
    (by rw [hnpad]; omega)
  rw [hs] at htext
  simp only [hnpad, Int.toNat_natCast] at htext
  rw [htext]
  have hlength : (List.replicate (w - (decimalText n.toInt).length) (chr '0') ++
      decimalText n.toInt).length = max w (decimalText n.toInt).length := by
    rw [List.length_append, List.length_replicate]
    omega
  rcases lt_or_ge n.toInt 0 with hneg | hpos
  · rcases Nat.lt_or_ge (decimalText n.toInt).length w with hlong | hshort
    · -- the text starts with a zero, and should start with the sign
      refine iff_of_false (fun h => ?_) (by omega)
      obtain ⟨k, hk⟩ := h.text
      obtain ⟨j, hj⟩ : ∃ j, w - (decimalText n.toInt).length = j + 1 :=
        Nat.exists_eq_succ_of_ne_zero (by omega)
      rw [hj, List.replicate_succ, if_pos hneg, List.cons_append] at hk
      exact absurd (List.cons.inj hk).1 (by decide)
    · refine iff_of_true ⟨hlength, ⟨0, ?_⟩, ?_⟩ (.inr hshort)
      · rw [Nat.sub_eq_zero_of_le hshort, List.replicate_zero, List.nil_append, List.append_nil]
        rfl
      · rw [Nat.sub_eq_zero_of_le hshort, List.replicate_zero, List.nil_append]
        simpa [decimalText] using atol_decimal n 0
  · have hsign : (if n.toInt < 0 then [chr '-'] else []) = [] := if_neg (by omega)
    have hplain : decimalText n.toInt = numeral 10 n.toInt.natAbs := by
      rw [decimalText, hsign, List.nil_append]
    refine iff_of_true ⟨hlength, ⟨w - (decimalText n.toInt).length, ?_⟩, ?_⟩ (.inl hpos)
    · rw [hsign, List.nil_append, ← hplain]
    · have hread := atol_decimal n (w - (decimalText n.toInt).length)
      rwa [hsign, List.nil_append, ← hplain] at hread

/-- A width that is no `int` is taken for another one. -/
theorem not_zeroPadded_of_ge {s : CStr} {n : Word} {w : Nat} (hs : s.bytes = decimalText n.toInt)
    (hint : 2 ^ 31 ≤ w) : ¬ZeroPadded n w (strText s ⟨chr '0', .ofNat 32 w, false⟩) := by
  intro h
  have hlen := length_decimalText_le n
  have hbound : s.bytes.length < 2 ^ 31 := by
    rw [hs]
    omega
  have hlt := (BitVec.ofNat 32 w).toInt_lt
  have hle := (BitVec.ofNat 32 w).le_toInt
  have hlength := h.length
  rcases lt_or_ge 0 (BitVec.ofNat 32 w).toInt with hpos | hneg
  · rw [strText_right ⟨chr '0', .ofNat 32 w, false⟩ hbound hpos, hs, List.length_append,
      List.length_replicate] at hlength
    dsimp only at hlength
    omega
  · -- the field has the right size for one width only, and then it ends with spaces
    have hspace := h.space_notMem
    rw [strText_left ⟨chr '0', .ofNat 32 w, false⟩ hbound hneg, hs] at hlength hspace
    rw [List.length_append, List.length_replicate] at hlength
    refine hspace (List.mem_append_right _ (List.mem_replicate.mpr ⟨?_, rfl⟩))
    omega

/-- For a number above the least one, `%0wd` fills the field with zeros between the sign
and the digits exactly when the width is an `int` and there is no sign or no zero. -/
theorem zeroPadded_iff (env : PrintfEnv) {n : Word} (hmin : n.toInt ≠ -2 ^ 31) {w : Nat}
    (hw : 1 ≤ w) (va : Stream' Word) :
    ZeroPadded n w (fullOutput env (zeroFmt w) (.cons n va)) ↔
      w < 2 ^ 31 ∧ (0 ≤ n.toInt ∨ w ≤ (decimalText n.toInt).length) := by
  rw [fullOutput_zeroFmt, Stream'.head_cons]
  have hs := intBuf_bytes env hmin
  rcases Nat.lt_or_ge w (2 ^ 31) with hint | hlarge
  · rw [zeroPadded_iff_of_lt hs hw hint]
    exact (and_iff_right hint).symm
  · exact iff_of_false (not_zeroPadded_of_ge hs hlarge) fun h => absurd h.1 (by omega)

/-- Five in a field of three. -/
theorem zeroPadded_five :
    ZeroPadded 5 3 (fullOutput emptyEnv (zeroFmt 3) (.cons 5 (.const 0))) ↔
      3 < 2 ^ 31 ∧ (0 ≤ (5 : Word).toInt ∨ 3 ≤ (decimalText (5 : Word).toInt).length) :=
  zeroPadded_iff emptyEnv (by decide) (by omega) (.const 0)

/-- Minus five in a field of twenty gets its zeros before the sign. -/
theorem not_zeroPadded_minusFive :
    ¬ZeroPadded (-5) 20 (fullOutput emptyEnv (zeroFmt 20) (.cons (-5) (.const 0))) := by
  have hvalue : (-5 : Word).toInt = -5 := by decide
  have hs := intBuf_bytes emptyEnv (n := -5) (by rw [hvalue]; omega)
  rw [fullOutput_zeroFmt, Stream'.head_cons, zeroPadded_iff_of_lt hs (by omega) (by omega), hvalue]
  have hlen := hvalue ▸ length_decimalText_le (-5)
  omega

end DmfOs
