import DmfOs.Core.Run
import DmfOs.Lib.Printf

/-!
# The format parser step by step

The loop of `vsnprintf` with its jumps to `morefmt`, the loops of `fmtnum` and those of
`atol` as one machine that looks at a single character of the format in each step. The
machine keeps positions, as the code does, and the characters behind the terminator are
there for it to read.
-/

namespace DmfOs

/-- A format in memory: the string, and what lies behind its terminator. -/
structure FmtText where
  fmt : CStr
  behind : Nat → Byte

/-- The character at a position. -/
def FmtText.char (t : FmtText) (i : Nat) : Byte :=
  if i ≤ t.fmt.bytes.length then t.fmt.bytes.getD i 0 else t.behind i

/-- What is read next: the loop condition, the character behind `morefmt`, the sign and the
digits that `fmtnum` counts, and the blanks, the sign and the digits that `atol` reads. -/
inductive Point
  | top
  | moreFmt (nlong : Nat) (props : Strprops)
  | numSign (nlong : Nat) (props : Strprops)
  | numDigits (nlong : Nat) (props : Strprops) (len : Nat)
  | blanks (nlong : Nat) (props : Strprops) (len s : Nat)
  | atolSign (nlong : Nat) (props : Strprops) (len s : Nat)
  | atolDigits (nlong : Nat) (props : Strprops) (len : Nat) (neg : Bool) (acc : Word) (s : Nat)
  | done

/-- The state of the parser, with `fmt` as a position. -/
structure Parser where
  point : Point
  fmt : Nat
  va : Stream' Word
  stream : Pstream

/-- The position that the next step dereferences. -/
def Parser.deref (p : Parser) : Option Nat :=
  match p.point with
  | .top => some p.fmt
  | .moreFmt _ _ => some p.fmt
  | .numSign _ _ => some p.fmt
  | .numDigits _ _ len => some (p.fmt + len)
  | .blanks _ _ _ s => some s
  | .atolSign _ _ _ s => some s
  | .atolDigits _ _ _ _ _ s => some s
  | .done => none

/-- The switch behind `morefmt`. -/
def Parser.switch (env : PrintfEnv) (p : Parser) (nlong : Nat) (props : Strprops) (f : Byte) :
    Parser :=
  if f = 0 then { p with point := .top }
  else if f = chr '#' then
    { p with fmt := p.fmt + 1, point := .moreFmt nlong { props with alternate := true } }
  else if f = chr '0' then
    { p with fmt := p.fmt + 1, point := .numSign nlong { props with pad := chr '0' } }
  else if isDigit f = true ∨ f = chr '-' then { p with point := .numSign nlong props }
  else if f = chr 'l' then { p with fmt := p.fmt + 1, point := .moreFmt (nlong + 1) props }
  else if f = chr 't' ∨ f = chr 'z' then { p with fmt := p.fmt + 1, point := .moreFmt 1 props }
  else
    let (stream, va) := convert env ⟨f, nlong, props, []⟩ p.va p.stream
    ⟨.top, p.fmt + 1, va, stream⟩

/-- A step with the character that was read. -/
def Parser.advance (env : PrintfEnv) (p : Parser) (c : Byte) : Parser :=
  match p.point with
  | .top =>
    if c = 0 then { p with point := .done }
    else if c ≠ chr '%' then { p with fmt := p.fmt + 1, stream := addchar p.stream c }
    else { p with fmt := p.fmt + 1, point := .moreFmt 0 noProps }
  | .moreFmt nlong props => p.switch env nlong props c
  | .numSign nlong props =>
    { p with point := .numDigits nlong props (if c = chr '-' then 1 else 0) }
  | .numDigits nlong props len =>
    if isDigit c then { p with point := .numDigits nlong props (len + 1) }
    else { p with point := .blanks nlong props len p.fmt }
  | .blanks nlong props len s =>
    if c = chr ' ' ∨ c = chr '\t' then { p with point := .blanks nlong props len (s + 1) }
    else { p with point := .atolSign nlong props len s }
  | .atolSign nlong props len s =>
    if c = chr '-' then { p with point := .atolDigits nlong props len true 0 (s + 1) }
    else if c = chr '+' then { p with point := .atolDigits nlong props len false 0 (s + 1) }
    else { p with point := .atolDigits nlong props len false 0 s }
  | .atolDigits nlong props len neg acc s =>
    if c = 0 ∨ !isDigit c then
      { p with
        fmt := p.fmt + len
        point := .moreFmt nlong { props with npad := if neg then -acc else acc } }
    else
      let acc := acc * 10 + (c.signExtend 32 - (chr '0').signExtend 32)
      { p with point := .atolDigits nlong props len neg acc (s + 1) }
  | .done => p

/-- A step of the parser, which reads nothing but the position it dereferences. -/
def parseStep (env : PrintfEnv) (t : FmtText) (p : Parser) : Parser :=
  match p.deref with
  | none => p
  | some i => p.advance env (t.char i)

variable {env : PrintfEnv} {t : FmtText} {p : Parser}

/-! ## Positions -/

/-- Every position of the parser is at most `n`. -/
def Parser.InBounds (n : Nat) (p : Parser) : Prop :=
  match p.point with
  | .top => p.fmt ≤ n
  | .moreFmt _ _ => p.fmt ≤ n
  | .numSign _ _ => p.fmt ≤ n
  | .numDigits _ _ len => p.fmt + len ≤ n
  | .blanks _ _ len s => p.fmt + len ≤ n ∧ s ≤ n
  | .atolSign _ _ len s => p.fmt + len ≤ n ∧ s ≤ n
  | .atolDigits _ _ len _ _ s => p.fmt + len ≤ n ∧ s ≤ n
  | .done => True

/-- What is dereferenced is in bounds. -/
theorem Parser.InBounds.deref_le {n : Nat} (h : p.InBounds n) : ∀ i ∈ p.deref, i ≤ n := by
  intro i hi
  cases hp : p.point <;>
    simp only [InBounds, deref, hp, Option.mem_def, Option.some.injEq, reduceCtorEq] at h hi <;>
    omega

/-- Before a character that is not the terminator there is room for one more position. -/
theorem FmtText.lt_of_char_ne_zero {i : Nat} (hle : i ≤ t.fmt.bytes.length)
    (h : t.char i ≠ 0) : i < t.fmt.bytes.length := by
  by_contra hge
  refine h ?_
  rw [char, if_pos hle, List.getD_eq_default _ _ (by omega)]

/-- The switch stays in bounds. -/
theorem Parser.InBounds.switch {n : Nat} {f : Byte} (h : f ≠ 0 → p.fmt < n) (hle : p.fmt ≤ n)
    (nlong : Nat) (props : Strprops) : (p.switch env nlong props f).InBounds n := by
  unfold Parser.switch
  split_ifs with hzero
  · exact hle
  all_goals
    have hlt := h hzero
    first
      | exact hlt
      | exact hle

/-- A digit is not the terminator. -/
theorem ne_zero_of_isDigit {c : Byte} (h : isDigit c = true) : c ≠ 0 := by
  rintro rfl
  exact absurd h (by decide)

/-- So does every step. -/
theorem Parser.InBounds.step (h : p.InBounds t.fmt.bytes.length) :
    (parseStep env t p).InBounds t.fmt.bytes.length := by
  obtain ⟨point, fmt, va, stream⟩ := p
  cases point with
  | top =>
    simp only [parseStep, deref, advance]
    split_ifs with hzero hpercent
    · trivial
    · exact FmtText.lt_of_char_ne_zero h hzero
    · exact FmtText.lt_of_char_ne_zero h hzero
  | moreFmt nlong props =>
    exact switch (fun hne => FmtText.lt_of_char_ne_zero h hne) h nlong props
  | numSign nlong props =>
    simp only [parseStep, deref, advance]
    split_ifs with hsign
    · have hne : t.char fmt ≠ 0 := by
        rw [hsign]
        decide
      exact FmtText.lt_of_char_ne_zero h hne
    · exact h
  | numDigits nlong props len =>
    simp only [parseStep, deref, advance]
    split_ifs with hdigit
    · exact FmtText.lt_of_char_ne_zero h (ne_zero_of_isDigit hdigit)
    · exact ⟨h, (Nat.le_add_right fmt len).trans h⟩
  | blanks nlong props len s =>
    simp only [parseStep, deref, advance]
    split_ifs with hblank
    · have hne : t.char s ≠ 0 := by
        rcases hblank with hblank | hblank <;> rw [hblank] <;> decide
      exact ⟨h.1, FmtText.lt_of_char_ne_zero h.2 hne⟩
    · exact h
  | atolSign nlong props len s =>
    have hsign (c : Byte) (hc : c ≠ 0) (heq : t.char s = c) : s < t.fmt.bytes.length :=
      FmtText.lt_of_char_ne_zero h.2 (heq ▸ hc)
    simp only [parseStep, deref, advance]
    split_ifs with hminus hplus
    · exact ⟨h.1, hsign _ (by decide) hminus⟩
    · exact ⟨h.1, hsign _ (by decide) hplus⟩
    · exact h
  | atolDigits nlong props len neg acc s =>
    simp only [parseStep, deref, advance]
    by_cases hend : t.char s = 0 ∨ (!isDigit (t.char s)) = true
    · rw [if_pos hend]
      exact h.1
    · rw [if_neg hend]
      exact ⟨h.1, FmtText.lt_of_char_ne_zero h.2 (not_or.mp hend).1⟩
  | done => trivial

/-! ## Progress -/

/-- The rest of the format from a position on. -/
def FmtText.From (t : FmtText) (i : Nat) (cs : List Byte) : Prop :=
  i ≤ t.fmt.bytes.length ∧ t.fmt.bytes.drop i = cs

/-- At the end of the format is its terminator. -/
theorem FmtText.From.nil {i : Nat} (h : t.From i []) : t.char i = 0 := by
  have hlen := List.drop_eq_nil_iff.mp h.2
  rw [char, if_pos h.1, List.getD_eq_default _ _ hlen]

/-- Before the end is a character other than the terminator. -/
theorem FmtText.From.cons {i : Nat} {c : Byte} {cs : List Byte} (h : t.From i (c :: cs)) :
    t.char i = c ∧ c ≠ 0 ∧ t.From (i + 1) cs := by
  have hlt : i < t.fmt.bytes.length := by
    by_contra hge
    rw [FmtText.From, List.drop_eq_nil_of_le (by omega)] at h
    exact List.cons_ne_nil c cs h.2.symm
  have hdrop := h.2
  rw [List.drop_eq_getElem_cons hlt] at hdrop
  obtain ⟨rfl, rfl⟩ := List.cons.inj hdrop
  refine ⟨?_, t.fmt.nonzero _ (List.getElem_mem hlt), hlt, rfl⟩
  rw [char, if_pos h.1, List.getD_eq_getElem _ _ hlt]

/-- One step, with the character that is read. -/
theorem Leads.read {c : Byte} {i : Nat} {q r : Parser} (h : Leads (parseStep env t) q r)
    (hi : p.deref = some i) (hc : t.char i = c) (hq : p.advance env c = q) :
    Leads (parseStep env t) p r := by
  apply h.head
  simp only [parseStep, hi, hc, hq]

variable {cs : List Byte} {fmt s nlong : Nat} {props : Strprops} {va : Stream' Word}
  {stream : Pstream}

/-- The digits that `fmtnum` counts. -/
theorem leads_numDigits (len : Nat) (h : t.From (fmt + len) cs) :
    Leads (parseStep env t) ⟨.numDigits nlong props len, fmt, va, stream⟩
      ⟨.blanks nlong props (len + (cs.takeWhile isDigit).length) fmt, fmt, va, stream⟩ := by
  induction cs generalizing len with
  | nil => exact (Leads.refl _ _).read rfl h.nil rfl
  | cons c cs ih =>
    obtain ⟨hc, _, hrest⟩ := h.cons
    by_cases hdigit : isDigit c = true
    · have hnext := ih (len + 1) hrest
      rw [List.takeWhile_cons_of_pos hdigit, List.length_cons, Nat.add_comm _ 1, ← Nat.add_assoc]
      exact hnext.read rfl hc (if_pos hdigit)
    · rw [List.takeWhile_cons_of_neg hdigit]
      exact (Leads.refl _ _).read rfl hc (if_neg hdigit)

/-- The blanks that `atol` passes over. -/
theorem leads_blanks {len : Nat} (h : t.From s cs) :
    ∃ s', t.From s' (cs.dropWhile fun c => c = chr ' ' ∨ c = chr '\t') ∧
      Leads (parseStep env t) ⟨.blanks nlong props len s, fmt, va, stream⟩
        ⟨.atolSign nlong props len s', fmt, va, stream⟩ := by
  induction cs generalizing s with
  | nil => exact ⟨s, h, (Leads.refl _ _).read rfl h.nil rfl⟩
  | cons c cs ih =>
    obtain ⟨hc, _, hrest⟩ := h.cons
    by_cases hblank : c = chr ' ' ∨ c = chr '\t'
    · obtain ⟨s', hs', hnext⟩ := ih hrest
      rw [List.dropWhile_cons_of_pos (by simpa using hblank)]
      exact ⟨s', hs', hnext.read rfl hc (if_pos hblank)⟩
    · rw [List.dropWhile_cons_of_neg (by simpa using hblank)]
      exact ⟨s, h, (Leads.refl _ _).read rfl hc (if_neg hblank)⟩

/-- The digits that `atol` reads. -/
theorem leads_atolDigits {len : Nat} (h : t.From s cs) (neg : Bool) (acc : Word) :
    Leads (parseStep env t) ⟨.atolDigits nlong props len neg acc s, fmt, va, stream⟩
      ⟨.moreFmt nlong { props with npad := if neg then -atolLoop cs acc else atolLoop cs acc },
        fmt + len, va, stream⟩ := by
  induction cs generalizing s acc with
  | nil =>
    rw [atolLoop]
    exact (Leads.refl _ _).read rfl h.nil rfl
  | cons c cs ih =>
    obtain ⟨hc, hne, hrest⟩ := h.cons
    by_cases hdigit : isDigit c = true
    · have hgo : ¬(c = 0 ∨ (!isDigit c) = true) := not_or.mpr ⟨hne, by simp [hdigit]⟩
      have hloop : ¬(!isDigit c) = true := by simp [hdigit]
      rw [atolLoop, if_neg hloop]
      exact (ih hrest _).read rfl hc (if_neg hgo)
    · have hstop : (!isDigit c) = true := by simpa using hdigit
      rw [atolLoop, if_pos hstop]
      exact (Leads.refl _ _).read rfl hc (if_pos (.inr hstop))

/-- `atol`, after which `fmt` is advanced. -/
theorem leads_atol {len : Nat} (h : t.From s cs) :
    Leads (parseStep env t) ⟨.blanks nlong props len s, fmt, va, stream⟩
      ⟨.moreFmt nlong { props with npad := atol cs }, fmt + len, va, stream⟩ := by
  obtain ⟨s', hs', hblanks⟩ := leads_blanks h
  refine hblanks.trans ?_
  rw [atol]
  generalize cs.dropWhile _ = ds at hs'
  cases ds with
  | nil => exact (leads_atolDigits hs' false 0).read rfl hs'.nil rfl
  | cons c ds =>
    obtain ⟨hc, _, hrest⟩ := hs'.cons
    by_cases hminus : c = chr '-'
    · simp only [if_pos hminus]
      exact (leads_atolDigits hrest true 0).read rfl hc (if_pos hminus)
    · by_cases hplus : c = chr '+'
      · simp only [if_neg hminus, if_pos hplus]
        exact (leads_atolDigits hrest false 0).read rfl hc ((if_neg hminus).trans (if_pos hplus))
      · simp only [if_neg hminus, if_neg hplus]
        exact (leads_atolDigits hs' false 0).read rfl hc ((if_neg hminus).trans (if_neg hplus))

/-- The digits behind a sign, or without one, and the number that `atol` makes of all of it. -/
theorem leads_number {ds : List Byte} (len : Nat) (h : t.From fmt cs)
    (hlen : t.From (fmt + len) ds) :
    Leads (parseStep env t) ⟨.numDigits nlong props len, fmt, va, stream⟩
      ⟨.moreFmt nlong { props with npad := atol cs }, fmt + (len + (ds.takeWhile isDigit).length),
        va, stream⟩ :=
  (leads_numDigits len hlen).trans (leads_atol h)

/-- `fmtnum`, after which the properties hold its number. -/
theorem leads_fmtnum (h : t.From fmt cs) :
    Leads (parseStep env t) ⟨.numSign nlong props, fmt, va, stream⟩
      ⟨.moreFmt nlong { props with npad := (fmtnum cs).1 }, fmt + fmtnumLen cs, va, stream⟩ := by
  have hsign (c : Byte) : Parser.advance env ⟨.numSign nlong props, fmt, va, stream⟩ c =
      ⟨.numDigits nlong props (if c = chr '-' then 1 else 0), fmt, va, stream⟩ := rfl
  cases cs with
  | nil => exact (leads_number 0 h h).read rfl h.nil (hsign 0)
  | cons c cs =>
    obtain ⟨hc, _, hrest⟩ := h.cons
    rw [fmtnumLen]
    by_cases hminus : c = chr '-'
    · have hadvance := hsign c
      rw [if_pos hminus] at hadvance ⊢
      exact (leads_number 1 h hrest).read rfl hc hadvance
    · have hadvance := hsign c
      rw [if_neg hminus] at hadvance ⊢
      have hnumber : Leads (parseStep env t) ⟨.numDigits nlong props 0, fmt, va, stream⟩
          ⟨.moreFmt nlong { props with npad := atol (c :: cs) },
            fmt + (0 + ((c :: cs).takeWhile isDigit).length), va, stream⟩ := leads_number 0 h h
      rw [Nat.zero_add] at hnumber
      exact hnumber.read rfl hc hadvance

/-- Characters passed over leave the rest of them. -/
theorem FmtText.From.drop {i : Nat} (h : t.From i cs) {k : Nat} (hk : k ≤ cs.length) :
    t.From (i + k) (cs.drop k) := by
  obtain ⟨hle, rfl⟩ := h
  rw [List.length_drop] at hk
  exact ⟨by omega, List.drop_drop.symm⟩

/-- `fmtnum` counts no more characters than there are. -/
theorem fmtnumLen_le (cs : List Byte) : fmtnumLen cs ≤ cs.length := by
  have htake (ds : List Byte) : (ds.takeWhile isDigit).length ≤ ds.length :=
    (List.takeWhile_sublist _).length_le
  cases cs with
  | nil => exact le_rfl
  | cons c cs =>
    rw [fmtnumLen]
    split_ifs
    · have := htake cs
      rw [List.length_cons]
      omega
    · exact htake (c :: cs)

theorem FmtText.From.fmtnum (h : t.From fmt cs) :
    t.From (fmt + fmtnumLen cs) (fmtnum cs).2 := h.drop (fmtnumLen_le cs)

/-- The jumps to `morefmt` up to a conversion, which is then done. -/
theorem leads_moreFmt (h : t.From fmt cs) :
    ∃ fmt', t.From fmt' (moreFmt cs nlong props).rest ∧
      Leads (parseStep env t) ⟨.moreFmt nlong props, fmt, va, stream⟩
        ⟨.top, fmt', (convert env (moreFmt cs nlong props) va stream).2,
          (convert env (moreFmt cs nlong props) va stream).1⟩ := by
  fun_induction moreFmt cs nlong props generalizing fmt with
  | case1 nlong props => exact ⟨fmt, h, (Leads.refl _ _).read rfl h.nil rfl⟩
  | case2 nlong props cs ih =>
    obtain ⟨hc, _, hrest⟩ := h.cons
    obtain ⟨fmt', hend, hleads⟩ := ih hrest
    exact ⟨fmt', hend, hleads.read rfl hc rfl⟩
  | case3 nlong props cs hhash ih =>
    obtain ⟨hc, _, hrest⟩ := h.cons
    obtain ⟨fmt', hend, hleads⟩ := ih hrest.fmtnum
    exact ⟨fmt', hend, ((leads_fmtnum hrest).trans hleads).read rfl hc rfl⟩
  | case4 nlong props c cs hhash hzero hnumber ih =>
    obtain ⟨hc, hne, _⟩ := h.cons
    obtain ⟨fmt', hend, hleads⟩ := ih h.fmtnum
    refine ⟨fmt', hend, ((leads_fmtnum h).trans hleads).read rfl hc ?_⟩
    simp only [Parser.advance, Parser.switch, if_neg hne, if_neg hhash, if_neg hzero,
      if_pos hnumber]
  | case5 nlong props cs hhash hzero hnumber ih =>
    obtain ⟨hc, _, hrest⟩ := h.cons
    obtain ⟨fmt', hend, hleads⟩ := ih hrest
    exact ⟨fmt', hend, hleads.read rfl hc rfl⟩
  | case6 nlong props c cs hhash hzero hnumber hlong hsize ih =>
    obtain ⟨hc, hne, hrest⟩ := h.cons
    obtain ⟨fmt', hend, hleads⟩ := ih hrest
    refine ⟨fmt', hend, hleads.read rfl hc ?_⟩
    simp only [Parser.advance, Parser.switch, if_neg hne, if_neg hhash, if_neg hzero,
      if_neg hnumber, if_neg hlong, if_pos hsize]
  | case7 nlong props c cs hhash hzero hnumber hlong hsize =>
    obtain ⟨hc, hne, hrest⟩ := h.cons
    refine ⟨fmt + 1, hrest, (Leads.refl _ _).read rfl hc ?_⟩
    simp only [Parser.advance, Parser.switch, if_neg hne, if_neg hhash, if_neg hzero,
      if_neg hnumber, if_neg hlong, if_neg hsize]
    rfl

/-- The whole loop. -/
theorem leads_vsnprintfLoop (h : t.From fmt cs) :
    ∃ p : Parser, p.point = .done ∧ p.stream = vsnprintfLoop env cs va stream ∧
      Leads (parseStep env t) ⟨.top, fmt, va, stream⟩ p := by
  fun_induction vsnprintfLoop env cs va stream generalizing fmt with
  | case1 va stream => exact ⟨_, rfl, rfl, (Leads.refl _ _).read rfl h.nil rfl⟩
  | case2 va stream c cs hc ih =>
    obtain ⟨hread, hne, hrest⟩ := h.cons
    obtain ⟨p, hdone, hstream, hleads⟩ := ih hrest
    refine ⟨p, hdone, hstream, hleads.read rfl hread ?_⟩
    simp only [Parser.advance, if_neg hne, if_pos hc]
  | case3 va stream c cs hc d stream' va' hconv =>
    rename_i ih
    obtain ⟨hread, hne, hrest⟩ := h.cons
    obtain ⟨fmt', hend, hmore⟩ : ∃ fmt', t.From fmt' d.rest ∧
        Leads (parseStep env t) ⟨.moreFmt 0 noProps, fmt + 1, va, stream⟩
          ⟨.top, fmt', (convert env d va stream).2, (convert env d va stream).1⟩ :=
      leads_moreFmt hrest
    obtain ⟨p, hdone, hstream, hleads⟩ := ih hend
    rw [hconv] at hmore
    refine ⟨p, hdone, hstream, (hmore.trans hleads).read rfl hread ?_⟩
    simp only [Parser.advance, if_neg hne, if_neg hc]

/-- For every format, also a malformed one, the parser comes to its end after finitely many
steps with the output of `vsnprintf`, and none of its steps, whether before or after, looks
beyond the terminator. -/
theorem parse_terminates_inBounds (env : PrintfEnv) (t : FmtText) (va : Stream' Word)
    (stream : Pstream) :
    (∃ n, ((parseStep env t)^[n] ⟨.top, 0, va, stream⟩).point = .done ∧
      ((parseStep env t)^[n] ⟨.top, 0, va, stream⟩).stream =
        vsnprintfLoop env t.fmt.bytes va stream) ∧
    ∀ n, ∀ i ∈ ((parseStep env t)^[n] ⟨.top, 0, va, stream⟩).deref, i ≤ t.fmt.bytes.length := by
  have hstart : t.From 0 t.fmt.bytes := ⟨Nat.zero_le _, rfl⟩
  constructor
  · obtain ⟨p, hdone, hstream, n, hn⟩ : ∃ p : Parser, p.point = .done ∧
        p.stream = vsnprintfLoop env t.fmt.bytes va stream ∧
        Leads (parseStep env t) ⟨.top, 0, va, stream⟩ p := leads_vsnprintfLoop hstart
    exact ⟨n, by rw [hn, hdone], by rw [hn, hstream]⟩
  · intro n
    have hinv : ((parseStep env t)^[n] ⟨.top, 0, va, stream⟩).InBounds t.fmt.bytes.length :=
      Function.Iterate.rec _ (Nat.zero_le _) (fun _ h => h.step) n
    exact hinv.deref_le

end DmfOs
