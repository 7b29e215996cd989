import DmfOs.Lib.Width

/-!
# Numbers in a format

`fmtnum` counts the characters of a number itself and leaves its value to `atol`, which
also passes over blanks and a plus sign. The two differ where such characters come first,
behind the flag `0`.
-/

namespace DmfOs

/-! ## Numbers -/

/-- A number as `fmtnum` counts it: a minus sign or none, and digits or none. -/
structure NumText where
  neg : Bool
  digits : List Char
  allDigits : AllDigits digits

/-- The characters of a number. -/
def NumText.text (t : NumText) : List Byte :=
  (if t.neg then [chr '-'] else []) ++ t.digits.map chr

/-- Its value, which is 0 without digits. -/
def NumText.value (t : NumText) : Int :=
  if t.neg then -(Nat.ofDigitChars 10 t.digits 0 : Int) else Nat.ofDigitChars 10 t.digits 0

/-- What was read at a position of a format is exactly the longest number there, with its
value if that is an `int`. -/
structure ReadsNumber (fmt : List Byte) (t : NumText) (read : Word × List Byte) : Prop where
  split : fmt = t.text ++ read.2
  longest : ∀ u : NumText, u.text <+: fmt → u.text.length ≤ t.text.length
  value : -2 ^ 31 ≤ t.value → t.value < 2 ^ 31 → read.1.toInt = t.value

/-- Blanks, a sign and the digits behind them, where `atol` looks for a number. -/
structure SignedDigits (fmt blanks sign : List Byte) (ds : List Char) (rest : List Byte) :
    Prop where
  split : fmt = blanks ++ sign ++ ds.map chr ++ rest
  blank : ∀ c ∈ blanks, c = chr ' ' ∨ c = chr '\t'
  sign : sign = [] ∨ sign = [chr '-'] ∨ sign = [chr '+']
  digits : AllDigits ds
  ends : NoDigit rest

/-- The position starts with a blank or a plus sign, and the number behind these is not 0
as a word. -/
def Misread (fmt : List Byte) : Prop :=
  ∃ blanks sign ds rest, SignedDigits fmt blanks sign ds rest ∧ (blanks ≠ [] ∨ sign = [chr '+']) ∧
    ¬2 ^ 32 ∣ Nat.ofDigitChars 10 ds 0

/-! ## Digits in front -/

/-- A decimal digit comes from its value. -/
theorem exists_of_isDigit {c : Byte} (h : isDigit c = true) : ∃ d < 10, c = chr d.digitChar := by
  have hrange : 48 ≤ c.toNat ∧ c.toNat ≤ 57 := by
    rw [isDigit, Bool.and_eq_true, BitVec.sle_eq_decide, BitVec.sle_eq_decide,
      decide_eq_true_iff, decide_eq_true_iff] at h
    have hlo : (chr '0').toInt = 48 := by decide
    have hhi : (chr '9').toInt = 57 := by decide
    rw [hlo, hhi, BitVec.toInt_eq_toNat_cond] at h
    have := c.isLt
    split_ifs at h <;> omega
  refine ⟨c.toNat - 48, by omega, BitVec.eq_of_toNat_eq ?_⟩
  generalize hd : c.toNat - 48 = d
  have hlt : d < 10 := by omega
  have hsum : c.toNat = 48 + d := by omega
  rw [hsum]
  interval_cases d <;> rfl

/-- Every text is digits and what follows them. -/
theorem exists_digits (cs : List Byte) :
    ∃ ds rest, cs = ds.map chr ++ rest ∧ AllDigits ds ∧ NoDigit rest := by
  induction cs with
  | nil => exact ⟨[], [], rfl, by simp [AllDigits], by simp [NoDigit]⟩
  | cons c cs ih =>
    by_cases hc : isDigit c = true
    · obtain ⟨d, hd, rfl⟩ := exists_of_isDigit hc
      obtain ⟨ds, rest, rfl, hds, hrest⟩ := ih
      exact ⟨d.digitChar :: ds, rest, rfl, List.forall_mem_cons.mpr ⟨⟨d, hd, rfl⟩, hds⟩, hrest⟩
    · refine ⟨[], c :: cs, rfl, by simp [AllDigits], fun x hx => ?_⟩
      rw [← Option.some.inj hx]
      simpa using hc

/-- No more digits come in front than there are. -/
theorem length_le_of_digits_prefix {ds ds' : List Char} {rest : List Byte} (h : AllDigits ds')
    (hrest : NoDigit rest) (hpre : ds'.map chr <+: ds.map chr ++ rest) :
    ds'.length ≤ ds.length := by
  induction ds generalizing ds' with
  | nil =>
    cases ds' with
    | nil => exact le_rfl
    | cons d ds' =>
      have hdigit := h.isDigit (chr d) List.mem_cons_self
      cases rest with
      | nil => exact absurd hpre (by simp)
      | cons c rest =>
        rw [List.map_cons, List.map_nil, List.nil_append, List.cons_prefix_cons] at hpre
        rw [hpre.1, hrest c rfl] at hdigit
        exact Bool.noConfusion hdigit
  | cons d ds ih =>
    cases ds' with
    | nil => exact Nat.zero_le _
    | cons d' ds' =>
      rw [List.map_cons, List.map_cons, List.cons_append, List.cons_prefix_cons] at hpre
      exact Nat.succ_le_succ (ih (List.forall_mem_cons.mp h).2 hpre.2)

/-- A minus sign is no digit. -/
theorem minus_notMem_digits {ds : List Char} (h : AllDigits ds) : chr '-' ∉ ds.map chr :=
  fun hmem => absurd (h.isDigit _ hmem) (by decide)

/-- A number in front of something else than a digit is the longest one there, if a minus
sign in front belongs to it. -/
theorem NumText.length_le {t u : NumText} {rest : List Byte} (hrest : NoDigit rest)
    (hsign : t.neg = false → ∀ c ∈ (t.text ++ rest).head?, c ≠ chr '-')
    (hpre : u.text <+: t.text ++ rest) : u.text.length ≤ t.text.length := by
  have hdigits := u.allDigits
  rw [NumText.text, NumText.text] at *
  cases ht : t.neg with
  | true =>
    simp only [ht, if_true, List.cons_append, List.nil_append] at hpre ⊢
    cases hu : u.neg with
    | true =>
      simp only [hu, if_true, List.cons_append, List.nil_append, List.cons_prefix_cons] at hpre ⊢
      simpa using length_le_of_digits_prefix hdigits hrest hpre.2
    | false =>
      simp only [hu, Bool.false_eq_true, if_false, List.nil_append] at hpre ⊢
      cases hds : u.digits with
      | nil => simp
      | cons d ds =>
        rw [hds] at hpre hdigits
        rw [List.map_cons, List.cons_prefix_cons] at hpre
        have hmem : chr '-' ∈ (d :: ds).map chr := by simp [hpre.1]
        exact absurd hmem (minus_notMem_digits hdigits)
  | false =>
    simp only [ht, Bool.false_eq_true, if_false, List.nil_append, forall_const] at hpre hsign ⊢
    cases hu : u.neg with
    | true =>
      simp only [hu, if_true, List.cons_append, List.nil_append] at hpre
      obtain ⟨after, hafter⟩ := hpre
      rw [← hafter] at hsign
      exact absurd rfl (hsign (chr '-') rfl)
    | false =>
      simp only [hu, Bool.false_eq_true, if_false, List.nil_append] at hpre ⊢
      simpa using length_le_of_digits_prefix hdigits hrest hpre

/-! ## What `atol` reads -/

/-- Blanks are passed over. -/
theorem atol_blanks {blanks : List Byte} (h : ∀ c ∈ blanks, c = chr ' ' ∨ c = chr '\t')
    (cs : List Byte) : atol (blanks ++ cs) = atol cs := by
  rw [atol, List.dropWhile_append_of_pos fun c hc => decide_eq_true (h c hc)]
  rfl

/-- A number with a plus sign. -/
theorem atol_plus {cs : List Char} (hcs : AllDigits cs) {rest : List Byte}
    (hrest : NoDigit rest) :
    atol (chr '+' :: (cs.map chr ++ rest)) = .ofNat 32 (Nat.ofDigitChars 10 cs 0) := by
  rw [← atolLoop_digits hcs hrest]
  rfl

variable {fmt blanks sign rest : List Byte} {ds : List Char}

/-- A number behind blanks and a sign is read. -/
theorem SignedDigits.atol_eq_zero_iff (h : SignedDigits fmt blanks sign ds rest) (hne : ds ≠ []) :
    atol fmt = 0 ↔ 2 ^ 32 ∣ Nat.ofDigitChars 10 ds 0 := by
  have hzero (v : Nat) : BitVec.ofNat 32 v = 0 ↔ 2 ^ 32 ∣ v := by
    rw [← BitVec.toNat_inj, BitVec.toNat_ofNat, Nat.dvd_iff_mod_eq_zero]
    rfl
  rw [h.split, List.append_assoc, List.append_assoc, atol_blanks h.blank, ← hzero]
  rcases h.sign with hsign | hsign | hsign
  · rw [hsign, List.nil_append, atol_digits h.digits hne h.ends]
  · rw [hsign, List.singleton_append, atol_minus h.digits h.ends]
    exact BitVec.neg_eq_zero_iff
  · rw [hsign, List.singleton_append, atol_plus h.digits h.ends]

/-- Every text is blanks, a sign, digits and what follows them, and is read as 0 when there
are no digits. -/
theorem exists_signedDigits (fmt : List Byte) :
    ∃ blanks sign ds rest, SignedDigits fmt blanks sign ds rest ∧ (ds = [] → atol fmt = 0) := by
  let isBlank : Byte → Bool := fun c => c = chr ' ' ∨ c = chr '\t'
  have hblank : ∀ c ∈ fmt.takeWhile isBlank, c = chr ' ' ∨ c = chr '\t' := by
    intro c hc
    have hp : isBlank c = true := List.mem_takeWhile_imp hc
    exact of_decide_eq_true hp
  have hstop := List.head?_dropWhile_not isBlank fmt
  have hsplit := List.takeWhile_append_dropWhile (p := isBlank) (l := fmt)
  generalize fmt.takeWhile isBlank = blanks at hblank hsplit
  generalize fmt.dropWhile isBlank = tail at hsplit hstop
  have htail : atol fmt = atol tail := by rw [← hsplit, atol_blanks hblank]
  have hsigned {sign : List Byte} {ds : List Char} {rest : List Byte}
      (h : tail = sign ++ (ds.map chr ++ rest)) : fmt = blanks ++ sign ++ ds.map chr ++ rest := by
    rw [← hsplit, h, List.append_assoc, List.append_assoc]
  by_cases hminus : tail.head? = some (chr '-')
  · obtain ⟨cs, rfl⟩ := List.head?_eq_some_iff.mp hminus
    obtain ⟨ds, rest, rfl, hds, hrest⟩ := exists_digits cs
    refine ⟨blanks, [chr '-'], ds, rest,
      ⟨hsigned rfl, hblank, .inr (.inl rfl), hds, hrest⟩, fun hnil => ?_⟩
    rw [htail, atol_minus hds hrest, hnil]
    rfl
  by_cases hplus : tail.head? = some (chr '+')
  · obtain ⟨cs, rfl⟩ := List.head?_eq_some_iff.mp hplus
    obtain ⟨ds, rest, rfl, hds, hrest⟩ := exists_digits cs
    refine ⟨blanks, [chr '+'], ds, rest,
      ⟨hsigned rfl, hblank, .inr (.inr rfl), hds, hrest⟩, fun hnil => ?_⟩
    rw [htail, atol_plus hds hrest, hnil]
    rfl
  · obtain ⟨ds, rest, rfl, hds, hrest⟩ := exists_digits tail
    refine ⟨blanks, [], ds, rest, ⟨hsigned rfl, hblank, .inl rfl, hds, hrest⟩, ?_⟩
    rintro rfl
    rw [List.map_nil, List.nil_append] at htail hstop hminus hplus
    cases rest with
    | nil => exact htail
    | cons c cs =>
      rw [List.head?_cons, Option.some.injEq] at hminus hplus
      have hplain : isBlank c = false := hstop
      have hskip : ¬Skipped c := by
        rintro (h | h | h)
        · exact of_decide_eq_false hplain (.inl h)
        · exact of_decide_eq_false hplain (.inr h)
        · exact hplus h
      have hdigit : isDigit c = false := hrest c rfl
      rw [htail, atol_unsigned hskip hminus, atolLoop, hdigit]
      rfl

/-- What is neither misread nor a number is read as 0. -/
theorem atol_eq_zero {c : Byte} {cs : List Byte} (hdigit : isDigit c = false)
    (hminus : c ≠ chr '-') (h : ¬Misread (c :: cs)) : atol (c :: cs) = 0 := by
  obtain ⟨blanks, sign, ds, rest, hat, hnone⟩ := exists_signedDigits (c :: cs)
  by_cases hne : ds = []
  · exact hnone hne
  refine (hat.atol_eq_zero_iff hne).mpr (not_not.mp fun hv => h ⟨_, _, _, _, hat, ?_, hv⟩)
  refine or_iff_not_imp_left.mpr fun hblanks => ?_
  have hsplit := hat.split
  rw [not_not.mp hblanks, List.nil_append] at hsplit
  rcases hat.sign with hsign | hsign | hsign
  · obtain ⟨d, ds, rfl⟩ := List.exists_cons_of_ne_nil hne
    rw [hsign] at hsplit
    have hhead : c = chr d := (List.cons.inj hsplit).1
    have hd := hat.digits.isDigit (chr d) List.mem_cons_self
    rw [← hhead, hdigit] at hd
    exact Bool.noConfusion hd
  · rw [hsign] at hsplit
    exact absurd (List.cons.inj hsplit).1 hminus
  · exact hsign

/-! ## Every position -/

/-- A position that is misread reads as another number than the empty one in front. -/
theorem Misread.not_reads (h : Misread fmt) (t : NumText) : ¬ReadsNumber fmt t (fmtnum fmt) := by
  rintro ⟨hsplit, -, hvalue⟩
  obtain ⟨blanks, sign, ds, rest, hat, hfirst, hv⟩ := h
  have hne : ds ≠ [] := by
    rintro rfl
    exact hv (dvd_zero _)
  -- the first character is neither a minus sign nor a digit
  have hhead : ∃ c cs, fmt = c :: cs ∧ c ≠ chr '-' ∧ isDigit c = false := by
    have hsplit' := hat.split
    rw [List.append_assoc, List.append_assoc] at hsplit'
    rcases blanks with _ | ⟨c, blanks⟩
    · rw [hfirst.resolve_left (not_not.mpr rfl)] at hsplit'
      exact ⟨_, _, hsplit', by decide, by decide⟩
    · refine ⟨_, _, hsplit', ?_⟩
      rcases hat.blank c List.mem_cons_self with rfl | rfl <;> decide
  obtain ⟨c, cs, rfl, hminus, hdigit⟩ := hhead
  have hempty : t.value = 0 := by
    rw [NumText.text] at hsplit
    cases hneg : t.neg with
    | true =>
      rw [hneg, if_pos rfl] at hsplit
      exact absurd (List.cons.inj hsplit).1 hminus
    | false =>
      rw [hneg] at hsplit
      cases hds : t.digits with
      | nil => simp [NumText.value, hneg, hds]
      | cons d ds' =>
        rw [hds] at hsplit
        have hd := t.allDigits.isDigit (chr d) (by simp [hds])
        rw [← (List.cons.inj hsplit).1, hdigit] at hd
        exact Bool.noConfusion hd
  have hzero : (atol (c :: cs)).toInt = 0 := by
    rw [hempty] at hvalue
    exact hvalue (by omega) (by omega)
  exact hv ((hat.atol_eq_zero_iff hne).mp (BitVec.toInt_inj.mp hzero))

/-- The negative of a number that is no less than the least `int`. -/
theorem toInt_neg_ofNat {v : Nat} (h : v ≤ 2 ^ 31) : (-BitVec.ofNat 32 v).toInt = -(v : Int) := by
  rw [← BitVec.ofInt_natCast, ← BitVec.ofInt_neg, BitVec.toInt_ofInt,
    Int.bmod_eq_of_le (by omega) (by omega)]

/-- A position that is not misread is read right. -/
theorem exists_reads (h : ¬Misread fmt) : ∃ t, ReadsNumber fmt t (fmtnum fmt) := by
  have hbuild {t : NumText} {rest : List Byte} {num : Word} (hrest : NoDigit rest)
      (hsign : t.neg = false → ∀ c ∈ (t.text ++ rest).head?, c ≠ chr '-')
      (hvalue : -2 ^ 31 ≤ t.value → t.value < 2 ^ 31 → num.toInt = t.value) :
      ReadsNumber (t.text ++ rest) t (num, rest) :=
    ⟨rfl, fun _ hpre => t.length_le hrest hsign hpre, hvalue⟩
  cases fmt with
  | nil =>
    refine ⟨⟨false, [], by simp [AllDigits]⟩, rfl, fun u hpre => ?_, fun _ _ => rfl⟩
    rw [List.prefix_nil.mp hpre]
    exact Nat.zero_le _
  | cons f fmt =>
    by_cases hf : f = chr '-'
    · obtain ⟨ds, rest, rfl, hds, hrest⟩ := exists_digits fmt
      have hread : fmtnum (f :: (ds.map chr ++ rest)) =
          (-.ofNat 32 (Nat.ofDigitChars 10 ds 0), rest) := by
        refine Prod.ext ?_ ?_
        · exact hf ▸ atol_minus hds hrest
        · rw [fmtnum_snd, if_pos hf, dropWhile_digits hds hrest]
      refine ⟨⟨true, ds, hds⟩, ?_⟩
      rw [hread, hf]
      refine hbuild (t := ⟨true, ds, hds⟩) hrest (fun h => Bool.noConfusion h) fun hle _ => ?_
      refine toInt_neg_ofNat ?_
      simp only [NumText.value, if_true] at hle
      omega
    · obtain ⟨ds, rest, hcs, hds, hrest⟩ := exists_digits (f :: fmt)
      have hsign : ∀ c ∈ (f :: fmt).head?, c ≠ chr '-' := fun c hc => Option.some.inj hc ▸ hf
      refine ⟨⟨false, ds, hds⟩, ?_⟩
      rw [hcs] at hsign h ⊢
      by_cases hne : ds = []
      · subst hne
        rw [List.map_nil, List.nil_append] at hcs hsign h ⊢
        have hdigit : isDigit f = false := hrest f (by rw [← hcs]; rfl)
        rw [← hcs] at h hrest hsign ⊢
        have hread : fmtnum (f :: fmt) = (0, f :: fmt) := by
          refine Prod.ext (atol_eq_zero hdigit hf h) ?_
          rw [fmtnum_snd, if_neg hf, List.dropWhile_cons_of_neg (by simp [hdigit])]
        rw [hread]
        exact hbuild (t := ⟨false, [], hds⟩) hrest (fun _ => hsign) fun _ _ => rfl
      · rw [fmtnum_digits hds hne hrest]
        refine hbuild (t := ⟨false, ds, hds⟩) hrest (fun _ => hsign) fun _ hlt => ?_
        simp only [NumText.value, Bool.false_eq_true, if_false] at hlt ⊢
        rw [BitVec.toInt_ofNat', Int.bmod_eq_of_le (by omega) (by omega)]

/-- For every position of a format, `fmtnum` counts and reads exactly the longest number
there, unless `atol` finds another one behind blanks or a plus sign. -/
theorem fmtnum_reads_iff (fmt : List Byte) :
    (∃ t, ReadsNumber fmt t (fmtnum fmt)) ↔ ¬Misread fmt :=
  ⟨fun ⟨t, ht⟩ h => h.not_reads t ht, exists_reads⟩

/-- Behind the flag `0` of %0+5d, the 5 is taken for the width and left to be read again. -/
theorem not_fmtnum_reads_plus : ¬∃ t, ReadsNumber ("+5d".toList.map chr) t
    (fmtnum ("+5d".toList.map chr)) := by
  rintro ⟨t, h⟩
  refine Misread.not_reads ⟨[], [chr '+'], ['5'], [chr 'd'],
    ⟨rfl, by simp, .inr (.inr rfl), ?_, ?_⟩, .inr rfl, by decide⟩ t h
  · intro c hc
    exact ⟨5, by omega, List.mem_singleton.mp hc⟩
  · intro c hc
    rw [← Option.some.inj hc]
    decide

end DmfOs
