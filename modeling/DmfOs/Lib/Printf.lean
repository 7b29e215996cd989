import DmfOs.Lib.Str
import Mathlib.Data.Stream.Defs

/-!
# Formatted output

`vsnprintf` of `printf.c`. Everything that a conversion prints goes through `addchar`
into a stream that counts all characters and stores them while there is room. The
stream also remembers what it was given, which is the output in full.
-/

namespace DmfOs

open Memory

/-- `pstream_t`, with the memory behind its buffer. -/
structure Pstream where
  buffer : Word
  remain : Word
  added : Word
  mem : Memory
  /-- Every character added so far; it is only read by specifications. -/
  chars : List Byte

/-- `strprops_t`. -/
structure Strprops where
  pad : Byte
  npad : Word
  alternate : Bool
  deriving DecidableEq, Repr

/-- What the conversions find in memory: the string at a pointer, and the bytes around
the array `digits`, by their distance from its start. -/
structure PrintfEnv where
  str : Word → CStr
  around : Int → Byte

/-- A base of a number. -/
abbrev Base := {b : Int // 2 ≤ b}

/-- `addchar`. -/
def addchar (p : Pstream) (c : Byte) : Pstream :=
  let p :=
    if p.remain ≠ 0 then
      { p with mem := p.mem.storeByte p.buffer c, buffer := p.buffer + 1, remain := p.remain - 1 }
    else p
  { p with added := p.added + 1, chars := p.chars ++ [c] }

/-- A loop that adds the same character a number of times. -/
def padLoop (c : Byte) : Nat → Pstream → Pstream
  | 0, p => p
  | k + 1, p => padLoop c k (addchar p c)

/-- The loop that adds the characters of a string. -/
def strLoop : List Byte → Pstream → Pstream
  | [], p => p
  | c :: cs, p => strLoop cs (addchar p c)

/-- `print_str`. A loop that counts `npad` to 0 leaves 0 in it. -/
def printStr (p : Pstream) (s : CStr) (props : Strprops) : Pstream :=
  let npad := props.npad
  let (p, npad) :=
    if 0 < npad.toInt then
      let npad := npad - strlen s
      (padLoop props.pad npad.toInt.toNat p, if 0 < npad.toInt then 0 else npad)
    else (p, npad)
  let p := strLoop s.bytes p
  if npad.toInt < 0 then
    let npad := npad + strlen s
    padLoop (chr ' ') (-npad.toInt).toNat p
  else p

/-- The array `digits`. -/
def digits : List Byte := "0123456789abcdef".toList.map chr

/-- An element of `digits`, or a byte of what is around it. -/
def digit (env : PrintfEnv) (i : Int) : Byte :=
  if 0 ≤ i ∧ i < 16 then digits.getD i.toNat 0 else env.around i

/-- The loop that stores the digits of a number, lowest first. Division truncates. -/
def digitsLoop (env : PrintfEnv) (n : Int) (base : Base) : List Byte :=
  if n = 0 then []
  else digit env (n.tmod base) :: digitsLoop env (n.tdiv base) base
termination_by n.natAbs
decreasing_by
  have := base.2
  rw [Int.natAbs_tdiv]
  exact Nat.div_lt_self (by omega) (by omega)

/-- The loop that turns a buffer around, from index `i` on, with the exchanges left. -/
def swapLoop : Nat → Nat → List Byte → List Byte
  | 0, _, buf => buf
  | k + 1, i, buf =>
    let tmp := buf.getD i 0
    let buf := buf.set i (buf.getD (buf.length - 1 - i) 0)
    swapLoop k (i + 1) (buf.set (buf.length - 1 - i) tmp)

/-- A buffer turned around and terminated. -/
def finishBuf (buf : List Byte) : CStr := .ofBuffer (swapLoop (buf.length / 2) 0 buf)

/-- What `print_int` leaves in its buffer. -/
def intBuf (env : PrintfEnv) (n : Word) (base : Base) : CStr :=
  let (s, n) := if n.toInt < 0 then (true, -n) else (false, n)
  let buf := digitsLoop env n.toInt base
  let buf := if s then buf ++ [chr '-'] else buf
  let buf := if buf = [] then [chr '0'] else buf
  finishBuf buf

/-- `print_int`. -/
def printInt (env : PrintfEnv) (ps : Pstream) (n : Word) (base : Base) (props : Strprops) :
    Pstream :=
  printStr ps (intBuf env n base) props

/-- `print_unsigned`. -/
def printUnsigned (env : PrintfEnv) (ps : Pstream) (n : Word) (base : Base) (props : Strprops) :
    Pstream :=
  let buf := digitsLoop env n.toNat base
  if buf = [] then printStr ps (finishBuf [chr '0']) props
  else if props.alternate && base.1 == 16 then
    if props.pad = chr '0' then
      let ps := addchar ps (chr '0')
      let ps := addchar ps (chr 'x')
      let props :=
        if 0 < props.npad.toInt then
          { props with npad := if (props.npad - 2).toInt > 0 then props.npad - 2 else 0 }
        else props
      printStr ps (finishBuf buf) props
    else printStr ps (finishBuf (buf ++ [chr 'x', chr '0'])) props
  else printStr ps (finishBuf buf) props

/-- The characters of a number that `fmtnum` passes over. -/
def fmtnumLen : List Byte → Nat
  | [] => 0
  | f :: fmt =>
    if f = chr '-' then 1 + (fmt.takeWhile isDigit).length
    else ((f :: fmt).takeWhile isDigit).length

/-- `fmtnum`, with the rest of the format. -/
def fmtnum (fmt : List Byte) : Word × List Byte := (atol fmt, fmt.drop (fmtnumLen fmt))

/-- What a conversion specification comes to: its last character, which is 0 at the end
of the format, its modifiers and properties, and the rest of the format. -/
structure Directive where
  conv : Byte
  nlong : Nat
  props : Strprops
  rest : List Byte
  deriving DecidableEq, Repr

theorem fmtnum_length (fmt : List Byte) : (fmtnum fmt).2.length ≤ fmt.length := by
  rw [fmtnum, List.length_drop]
  exact Nat.sub_le _ _

/-- A number that starts with a digit or a sign takes at least this character. -/
theorem fmtnum_length_lt {f : Byte} {fmt : List Byte} (h : isDigit f = true ∨ f = chr '-') :
    (fmtnum (f :: fmt)).2.length ≤ fmt.length := by
  rw [fmtnum, List.length_drop, List.length_cons, fmtnumLen]
  split_ifs with hsign
  · omega
  · have hdigit : isDigit f = true := h.resolve_right hsign
    rw [List.takeWhile_cons_of_pos hdigit, List.length_cons]
    omega

/-- The part of `vsnprintf` from the label `morefmt` up to the conversion. -/
def moreFmt (fmt : List Byte) (nlong : Nat) (props : Strprops) : Directive :=
  match fmt with
  | [] => ⟨0, nlong, props, []⟩
  | f :: fmt =>
    if f = chr '#' then moreFmt fmt nlong { props with alternate := true }
    else if f = chr '0' then
      moreFmt (fmtnum fmt).2 nlong { props with pad := chr '0', npad := (fmtnum fmt).1 }
    else if isDigit f = true ∨ f = chr '-' then
      moreFmt (fmtnum (f :: fmt)).2 nlong { props with npad := (fmtnum (f :: fmt)).1 }
    else if f = chr 'l' then moreFmt fmt (nlong + 1) props
    else if f = chr 't' ∨ f = chr 'z' then moreFmt fmt 1 props
    else ⟨f, nlong, props, fmt⟩
termination_by fmt.length
decreasing_by
  · exact Nat.lt_succ_self _
  · exact Nat.lt_succ_of_le (fmtnum_length _)
  · exact Nat.lt_succ_of_le (fmtnum_length_lt (by assumption))
  · exact Nat.lt_succ_self _
  · exact Nat.lt_succ_self _

/-- A directive leaves no more of the format than it found. -/
theorem moreFmt_length (fmt : List Byte) (nlong : Nat) (props : Strprops) :
    (moreFmt fmt nlong props).rest.length ≤ fmt.length := by
  fun_induction moreFmt fmt nlong props with
  | case1 => exact Nat.le_refl _
  | case2 _ _ _ ih => exact Nat.le_succ_of_le ih
  | case3 _ _ fmt _ ih => exact ih.trans (Nat.le_succ_of_le (fmtnum_length fmt))
  | case4 _ _ _ _ _ _ hnum ih => exact ih.trans (Nat.le_succ_of_le (fmtnum_length_lt hnum))
  | case5 _ _ _ _ _ _ ih => exact Nat.le_succ_of_le ih
  | case6 _ _ _ _ _ _ _ _ _ ih => exact Nat.le_succ_of_le ih
  | case7 => exact Nat.le_succ _

/-- The base 10. -/
def decimal : Base := ⟨10, by decide⟩

/-- The base 16. -/
def hexadecimal : Base := ⟨16, by decide⟩

/-- The conversions of `vsnprintf`. A value of type `long long` takes two words, of which
`print_int` gets the lower one. -/
def convert (env : PrintfEnv) (d : Directive) (va : Stream' Word) (s : Pstream) :
    Pstream × Stream' Word :=
  if d.conv = chr '%' then (addchar s (chr '%'), va)
  else if d.conv = chr 'c' then (addchar s (va.head.setWidth 8), va.tail)
  else if d.conv = 0 then (s, va)
  else if d.conv = chr 'd' then
    (printInt env s va.head decimal d.props, if d.nlong ≤ 1 then va.tail else va.tail.tail)
  else if d.conv = chr 'u' then (printUnsigned env s va.head decimal d.props, va.tail)
  else if d.conv = chr 'x' then (printUnsigned env s va.head hexadecimal d.props, va.tail)
  else if d.conv = chr 'p' then
    (printUnsigned env s va.head hexadecimal { d.props with alternate := true }, va.tail)
  else if d.conv = chr 's' then (printStr s (env.str va.head) d.props, va.tail)
  else (addchar s d.conv, va)

/-- The properties that a conversion starts with. -/
def noProps : Strprops := ⟨chr ' ', 0, false⟩

/-- The loop of `vsnprintf` over the format. -/
def vsnprintfLoop (env : PrintfEnv) (fmt : List Byte) (va : Stream' Word) (s : Pstream) :
    Pstream :=
  match fmt with
  | [] => s
  | f :: fmt =>
    if f ≠ chr '%' then vsnprintfLoop env fmt va (addchar s f)
    else
      let d := moreFmt fmt 0 noProps
      let (s, va) := convert env d va s
      vsnprintfLoop env d.rest va s
termination_by fmt.length
decreasing_by
  · exact Nat.lt_succ_self _
  · exact Nat.lt_succ_of_le (moreFmt_length _ _ _)

/-- `vsnprintf`. -/
def vsnprintf (env : PrintfEnv) (buf size : Word) (fmt : CStr) (va : Stream' Word) (m : Memory) :
    Word × Memory :=
  let s := vsnprintfLoop env fmt.bytes va ⟨buf, size - 1, 0, m, []⟩
  (s.added, s.mem.storeByte s.buffer 0)

/-! ## What is printed does not depend on the stream -/

/-- A function adds these characters to every stream, and does nothing else to it. -/
def Emits (f : Pstream → Pstream) (cs : List Byte) : Prop := ∀ p, f p = cs.foldl addchar p

/-- The characters that `print_str` adds before the string. -/
def padBefore (s : CStr) (props : Strprops) : Nat :=
  if 0 < props.npad.toInt then (props.npad - strlen s).toInt.toNat else 0

/-- The characters that `print_str` adds after the string. -/
def padAfter (s : CStr) (props : Strprops) : Nat :=
  let npad :=
    if 0 < props.npad.toInt then
      if 0 < (props.npad - strlen s).toInt then 0 else props.npad - strlen s
    else props.npad
  if npad.toInt < 0 then (-(npad + strlen s).toInt).toNat else 0

/-- What `print_str` prints. -/
def strText (s : CStr) (props : Strprops) : List Byte :=
  List.replicate (padBefore s props) props.pad ++ s.bytes ++
    List.replicate (padAfter s props) (chr ' ')

/-- What `print_unsigned` prints. -/
def unsignedText (env : PrintfEnv) (n : Word) (base : Base) (props : Strprops) : List Byte :=
  let buf := digitsLoop env n.toNat base
  if buf = [] then strText (finishBuf [chr '0']) props
  else if props.alternate && base.1 == 16 then
    if props.pad = chr '0' then
      let props :=
        if 0 < props.npad.toInt then
          { props with npad := if (props.npad - 2).toInt > 0 then props.npad - 2 else 0 }
        else props
      chr '0' :: chr 'x' :: strText (finishBuf buf) props
    else strText (finishBuf (buf ++ [chr 'x', chr '0'])) props
  else strText (finishBuf buf) props

variable {env : PrintfEnv} {f g : Pstream → Pstream} {cs cs' : List Byte}

theorem Emits.comp (hg : Emits g cs') (hf : Emits f cs) : Emits (fun p => g (f p)) (cs ++ cs') := by
  intro p
  rw [List.foldl_append, ← hf p]
  exact hg (f p)

theorem emits_padLoop (c : Byte) (k : Nat) : Emits (padLoop c k) (List.replicate k c) := by
  intro p
  induction k generalizing p with
  | zero => rfl
  | succ k ih => exact ih (addchar p c)

theorem emits_strLoop (cs : List Byte) : Emits (strLoop cs) cs := by
  intro p
  induction cs generalizing p with
  | nil => rfl
  | cons c cs ih => exact ih (addchar p c)

theorem emits_printStr (s : CStr) (props : Strprops) :
    Emits (fun p => printStr p s props) (strText s props) := by
  have hparts := ((emits_padLoop (chr ' ') (padAfter s props)).comp (emits_strLoop s.bytes)).comp
    (emits_padLoop props.pad (padBefore s props))
  intro p
  rw [strText, List.append_assoc, ← hparts p]
  simp only [printStr, padBefore, padAfter]
  by_cases hlead : 0 < props.npad.toInt
  · simp only [if_pos hlead]
    split_ifs <;> rfl
  · simp only [if_neg hlead]
    split_ifs <;> rfl

theorem emits_addchar (c : Byte) : Emits (fun p => addchar p c) [c] := fun _ => rfl

theorem emits_printUnsigned (n : Word) (base : Base) (props : Strprops) :
    Emits (fun p => printUnsigned env p n base props) (unsignedText env n base props) := by
  intro p
  simp only [printUnsigned, unsignedText]
  by_cases hzero : digitsLoop env n.toNat base = []
  · rw [if_pos hzero, if_pos hzero]
    exact emits_printStr _ _ p
  rw [if_neg hzero, if_neg hzero]
  by_cases halt : (props.alternate && base.1 == 16) = true
  · rw [if_pos halt, if_pos halt]
    by_cases hpad : props.pad = chr '0'
    · rw [if_pos hpad, if_pos hpad]
      exact emits_printStr _ _ (addchar (addchar p (chr '0')) (chr 'x'))
    · rw [if_neg hpad, if_neg hpad]
      exact emits_printStr _ _ p
  · rw [if_neg halt, if_neg halt]
    exact emits_printStr _ _ p

/-- What a conversion prints. -/
def Directive.text (env : PrintfEnv) (d : Directive) (va : Stream' Word) : List Byte :=
  if d.conv = chr '%' then [chr '%']
  else if d.conv = chr 'c' then [va.head.setWidth 8]
  else if d.conv = 0 then []
  else if d.conv = chr 'd' then strText (intBuf env va.head decimal) d.props
  else if d.conv = chr 'u' then unsignedText env va.head decimal d.props
  else if d.conv = chr 'x' then unsignedText env va.head hexadecimal d.props
  else if d.conv = chr 'p' then
    unsignedText env va.head hexadecimal { d.props with alternate := true }
  else if d.conv = chr 's' then strText (env.str va.head) d.props
  else [d.conv]

/-- The number of argument words that a conversion takes. -/
def Directive.words (d : Directive) : Nat :=
  if d.conv = chr '%' then 0
  else if d.conv = chr 'c' then 1
  else if d.conv = 0 then 0
  else if d.conv = chr 'd' then if d.nlong ≤ 1 then 1 else 2
  else if d.conv = chr 'u' then 1
  else if d.conv = chr 'x' then 1
  else if d.conv = chr 'p' then 1
  else if d.conv = chr 's' then 1
  else 0

/-- A conversion prints its text on every stream, and takes its words. -/
theorem convert_eq (env : PrintfEnv) (d : Directive) (va : Stream' Word) (p : Pstream) :
    convert env d va p = ((d.text env va).foldl addchar p, va.drop d.words) := by
  have one {g : Pstream → Pstream} {cs : List Byte} {va' : Stream' Word} (hg : Emits g cs) :
      (g p, va') = (cs.foldl addchar p, va') := congrArg (·, va') (hg p)
  have branch {c : Prop} [Decidable c] {x y : Pstream × Stream' Word} {cs cs' : List Byte}
      {k k' : Nat} (hx : x = (cs.foldl addchar p, va.drop k))
      (hy : y = (cs'.foldl addchar p, va.drop k')) :
      (if c then x else y) =
        ((if c then cs else cs').foldl addchar p, va.drop (if c then k else k')) := by
    split_ifs
    · exact hx
    · exact hy
  unfold convert Directive.text Directive.words
  refine branch (one (emits_addchar _)) <| branch (one (emits_addchar _)) <| branch rfl <|
    branch ?_ <| branch (one (emits_printUnsigned _ _ _)) <|
    branch (one (emits_printUnsigned _ _ _)) <| branch (one (emits_printUnsigned _ _ _)) <|
    branch (one (emits_printStr _ _)) (one (emits_addchar _))
  by_cases hlong : d.nlong ≤ 1
  · rw [if_pos hlong, if_pos hlong]
    exact one (emits_printStr _ _)
  · rw [if_neg hlong, if_neg hlong]
    exact one (emits_printStr _ _)

/-- The loop prints the same on every stream. -/
theorem exists_emits_vsnprintfLoop (env : PrintfEnv) (fmt : List Byte) (va : Stream' Word) :
    ∃ cs, Emits (vsnprintfLoop env fmt va) cs := by
  induction hn : fmt.length using Nat.strong_induction_on generalizing fmt va with
  | _ n ih =>
    cases fmt with
    | nil =>
      refine ⟨[], fun p => ?_⟩
      rw [vsnprintfLoop]
      rfl
    | cons f fmt =>
      rw [List.length_cons] at hn
      by_cases hf : f = chr '%'
      · have hlen := moreFmt_length fmt 0 noProps
        generalize hd : moreFmt fmt 0 noProps = d at hlen
        obtain ⟨cs, hrest⟩ := ih _ (by omega) d.rest (va.drop d.words) rfl
        refine ⟨d.text env va ++ cs, fun p => ?_⟩
        rw [vsnprintfLoop, if_neg (not_not.mpr hf), hd]
        dsimp only
        rw [convert_eq, List.foldl_append]
        exact hrest _
      · obtain ⟨cs, hrest⟩ := ih _ (by omega) fmt va rfl
        refine ⟨f :: cs, fun p => ?_⟩
        rw [vsnprintfLoop, if_pos hf]
        exact hrest (addchar p f)

/-! ## The stream -/

/-- Without room a character is only counted. -/
theorem addchar_full {p : Pstream} (h : p.remain = 0) (c : Byte) :
    addchar p c = { p with added := p.added + 1, chars := p.chars ++ [c] } := by
  rw [addchar, if_neg (not_not.mpr h)]

/-- With room a character is stored as well. -/
theorem addchar_room {p : Pstream} (h : p.remain ≠ 0) (c : Byte) :
    addchar p c = ⟨p.buffer + 1, p.remain - 1, p.added + 1, p.mem.storeByte p.buffer c,
      p.chars ++ [c]⟩ := by
  rw [addchar, if_pos h]

/-- All characters are remembered and counted. -/
theorem foldl_addchar_count (cs : List Byte) (p : Pstream) :
    (cs.foldl addchar p).chars = p.chars ++ cs ∧
      (cs.foldl addchar p).added = p.added + .ofNat 32 cs.length := by
  induction cs generalizing p with
  | nil => simp
  | cons c cs ih =>
    obtain ⟨hchars, hadded⟩ := ih (addchar p c)
    rw [List.foldl_cons, hchars, hadded]
    have hstep : (addchar p c).chars = p.chars ++ [c] ∧ (addchar p c).added = p.added + 1 := by
      by_cases h : p.remain = 0
      · rw [addchar_full h]
        exact ⟨rfl, rfl⟩
      · rw [addchar_room h]
        exact ⟨rfl, rfl⟩
    rw [hstep.1, hstep.2, List.length_cons]
    refine ⟨by rw [List.append_assoc]; rfl, ?_⟩
    bv_omega

/-- The characters for which there is room are stored one after the other, and nothing
else is. -/
theorem foldl_addchar_mem (cs : List Byte) (p : Pstream) :
    (cs.foldl addchar p).buffer = p.buffer + .ofNat 32 (min cs.length p.remain.toNat) ∧
      WritesIn (span p.buffer (min cs.length p.remain.toNat)) p.mem (cs.foldl addchar p).mem ∧
      ∀ i (h : i < cs.length), i < p.remain.toNat →
        (cs.foldl addchar p).mem.byte (p.buffer + .ofNat 32 i) = cs[i] := by
  induction cs generalizing p with
  | nil => simp [WritesIn.refl]
  | cons c cs ih =>
    obtain ⟨hbuffer, hwrites, hbytes⟩ := ih (addchar p c)
    rw [List.foldl_cons]
    by_cases h : p.remain = 0
    · have hfull : p.remain.toNat = 0 := by
        rw [h]
        rfl
      rw [addchar_full h] at hbuffer hwrites ⊢
      simp only [hfull, Nat.min_zero] at hbuffer hwrites ⊢
      exact ⟨hbuffer, hwrites, fun i _ hroom => absurd hroom (Nat.not_lt_zero i)⟩
    · have hpos : p.remain.toNat ≠ 0 := fun he => h (BitVec.eq_of_toNat_eq he)
      have hremain : (p.remain - 1).toNat = p.remain.toNat - 1 := by bv_omega
      have hlt := p.remain.isLt
      rw [addchar_room h] at hbuffer hwrites hbytes ⊢
      simp only [hremain] at hbuffer hwrites hbytes
      have hmin : min (c :: cs).length p.remain.toNat =
          min cs.length (p.remain.toNat - 1) + 1 := by
        rw [List.length_cons]
        omega
      generalize hk : min cs.length (p.remain.toNat - 1) = k at hbuffer hwrites hmin
      rw [hmin]
      refine ⟨by rw [hbuffer]; bv_omega, hwrites.of_storeByte, fun i hi hroom => ?_⟩
      · cases i with
        | zero =>
          have hbyte := hwrites.byte_eq_of_storeByte (by omega)
          simpa using hbyte
        | succ i =>
          have hbyte := hbytes i (by simpa using hi) (by omega)
          have haddr : p.buffer + .ofNat 32 (i + 1) = p.buffer + 1 + .ofNat 32 i := by bv_omega
          rw [haddr, hbyte, List.getElem_cons_succ]

/-! ## Truncation -/

/-- The output in full: what the loop adds to a stream without room. -/
def fullOutput (env : PrintfEnv) (fmt : CStr) (va : Stream' Word) : List Byte :=
  (vsnprintfLoop env fmt.bytes va ⟨0, 0, 0, ⟨fun _ => 0, []⟩, []⟩).chars

/-- The loop adds the full output to every stream. -/
theorem emits_vsnprintfLoop (env : PrintfEnv) (fmt : CStr) (va : Stream' Word) :
    Emits (vsnprintfLoop env fmt.bytes va) (fullOutput env fmt va) := by
  obtain ⟨cs, hcs⟩ := exists_emits_vsnprintfLoop env fmt.bytes va
  have hfull : fullOutput env fmt va = cs := by
    rw [fullOutput, hcs, (foldl_addchar_count _ _).1, List.nil_append]
  rwa [hfull]

/-- `vsnprintf` returns the length of the full output, as a word. -/
theorem vsnprintf_fst (env : PrintfEnv) (buf size : Word) (fmt : CStr) (va : Stream' Word)
    (m : Memory) :
    (vsnprintf env buf size fmt va m).1 = .ofNat 32 (fullOutput env fmt va).length := by
  rw [vsnprintf, emits_vsnprintfLoop env fmt va, (foldl_addchar_count _ _).2]
  exact BitVec.zero_add _

/-- A buffer of the given size got as much of the output as it has room for, and a
terminator behind it, and nothing else was written. -/
structure Truncated (out : List Byte) (buf size : Word) (m m' : Memory) : Prop where
  writes : WritesIn (span buf size.toNat) m m'
  bytes : ∀ i (h : i < out.length), i < size.toNat - 1 → m'.byte (buf + .ofNat 32 i) = out[i]
  terminated : m'.byte (buf + .ofNat 32 (min out.length (size.toNat - 1))) = 0

theorem truncated_vsnprintf (env : PrintfEnv) (fmt : CStr) (va : Stream' Word) (buf : Word)
    {size : Word} (m : Memory) (hsize : size ≠ 0) :
    Truncated (fullOutput env fmt va) buf size m (vsnprintf env buf size fmt va m).2 := by
  have hpos : size.toNat ≠ 0 := fun he => hsize (BitVec.eq_of_toNat_eq he)
  have hremain : (size - 1).toNat = size.toNat - 1 := by bv_omega
  have hlt := size.isLt
  obtain ⟨hbuffer, hwrites, hbytes⟩ :=
    foldl_addchar_mem (fullOutput env fmt va) ⟨buf, size - 1, 0, m, []⟩
  simp only [hremain] at hbuffer hwrites hbytes
  simp only [vsnprintf, emits_vsnprintfLoop env fmt va _, hbuffer]
  generalize fullOutput env fmt va = out at *
  generalize (out.foldl addchar ⟨buf, size - 1, 0, m, []⟩).mem = m' at *
  have hk : min out.length (size.toNat - 1) < size.toNat := by omega
  refine ⟨?_, fun i hi hroom => ?_, storeByte_byte_self _ _ _⟩
  · exact (hwrites.mono (span_mono buf hk.le)).trans
      (writesIn_storeByte_of_mem m' 0 (add_mem_span buf hk))
  · have hne : buf + .ofNat 32 i ≠ buf + .ofNat 32 (min out.length (size.toNat - 1)) := by
      have : i < min out.length (size.toNat - 1) := by omega
      bv_omega
    rw [storeByte_byte_ne _ _ hne, hbytes i hi hroom]

/-- For every size of at least 1, `vsnprintf` returns the length of the full output and
leaves as much of it in the buffer as fits, with a terminator, writing nothing else. For
another size it returns the same, and the shorter result is a prefix of the longer. -/
theorem vsnprintf_truncates (env : PrintfEnv) (fmt : CStr) (va : Stream' Word) (buf size : Word)
    (m : Memory) (hsize : 1 ≤ size.toInt) (hlen : (fullOutput env fmt va).length < 2 ^ 31) :
    (vsnprintf env buf size fmt va m).1.toInt = (fullOutput env fmt va).length ∧
      Truncated (fullOutput env fmt va) buf size m (vsnprintf env buf size fmt va m).2 ∧
      ∀ size' : Word, size.toInt ≤ size'.toInt →
        (vsnprintf env buf size' fmt va m).1 = (vsnprintf env buf size fmt va m).1 ∧
        ∀ i < min (fullOutput env fmt va).length (size.toNat - 1),
          (vsnprintf env buf size' fmt va m).2.byte (buf + .ofNat 32 i) =
            (vsnprintf env buf size fmt va m).2.byte (buf + .ofNat 32 i) := by
  have hret (size : Word) := vsnprintf_fst env buf size fmt va m
  have hne {size : Word} (h : 1 ≤ size.toInt) : size ≠ 0 := by
    rintro rfl
    exact absurd h (by decide)
  have htrunc := truncated_vsnprintf env fmt va buf m (hne hsize)
  refine ⟨?_, htrunc, fun size' hle => ⟨by rw [hret, hret], fun i hi => ?_⟩⟩
  · rw [hret]
    generalize (fullOutput env fmt va).length = n at hlen
    rw [BitVec.toInt_ofNat', Int.bmod_eq_of_le (by omega) (by omega)]
  · have htrunc' := truncated_vsnprintf env fmt va buf m (hne (hsize.trans hle))
    have hroom : size.toNat ≤ size'.toNat := by
      rw [BitVec.toInt_eq_toNat_cond] at hsize hle
      rw [BitVec.toInt_eq_toNat_cond] at hle
      have := size.isLt
      have := size'.isLt
      split_ifs at hsize hle <;> omega
    rw [htrunc.bytes i (by omega) (by omega), htrunc'.bytes i (by omega) (by omega)]

/-- No strings and nothing around the digits. -/
def emptyEnv : PrintfEnv := ⟨fun _ => ⟨[], by simp⟩, fun _ => 0⟩

/-- The format a%c. -/
def charFmt : CStr := ⟨[chr 'a', chr '%', chr 'c'], by decide⟩

/-- It prints its letter and the argument. -/
theorem fullOutput_charFmt :
    fullOutput emptyEnv charFmt (Stream'.const 98) = [chr 'a', chr 'b'] := by
  have hconv : moreFmt [chr 'c'] 0 noProps = ⟨chr 'c', 0, noProps, []⟩ := by
    rw [moreFmt]
    decide
  have ha : chr 'a' ≠ chr '%' := by decide
  unfold fullOutput charFmt
  rw [vsnprintfLoop, if_pos ha, vsnprintfLoop, if_neg (by decide)]
  dsimp only
  rw [hconv]
  dsimp only [convert]
  rw [vsnprintfLoop]
  rfl

/-- In two bytes the letter is kept, and 2 is returned. -/
theorem vsnprintf_truncates_charFmt :
    let out := fullOutput emptyEnv charFmt (Stream'.const 98)
    let m : Memory := ⟨fun _ => 0xff, []⟩
    (vsnprintf emptyEnv 0x1000 2 charFmt (Stream'.const 98) m).1.toInt = out.length ∧
      Truncated out 0x1000 2 m (vsnprintf emptyEnv 0x1000 2 charFmt (Stream'.const 98) m).2 := by
  intro out m
  have h := vsnprintf_truncates emptyEnv charFmt (Stream'.const 98) 0x1000 2 m (by decide)
    (by rw [fullOutput_charFmt]; decide)
  exact ⟨h.1, h.2.1⟩

/-! ## Bounds -/

/-- The terminator is stored whatever the size, so some store always happens. -/
theorem vsnprintf_stores (env : PrintfEnv) (fmt : CStr) (va : Stream' Word) (buf size : Word)
    (m : Memory) : ¬WritesIn ∅ m (vsnprintf env buf size fmt va m).2 := by
  rintro ⟨⟨new, hnew, hin⟩, _⟩
  have hnil : new = [] := List.eq_nil_iff_forall_not_mem.mpr hin
  obtain ⟨_, ⟨⟨printed, hprinted, _⟩, _⟩, _⟩ :=
    foldl_addchar_mem (fullOutput env fmt va) ⟨buf, size - 1, 0, m, []⟩
  simp only [vsnprintf, emits_vsnprintfLoop env fmt va _, storeByte, hprinted, hnil] at hnew
  have hlen := congrArg List.length hnew
  simp only [List.length_cons, List.length_append, List.length_nil] at hlen
  omega

/-- `vsnprintf` writes inside the buffer it was given exactly for the sizes from 1 on. -/
theorem vsnprintf_writesIn_iff (env : PrintfEnv) (fmt : CStr) (va : Stream' Word)
    (buf size : Word) (m : Memory) :
    WritesIn (span buf (max size.toInt 0).toNat) m (vsnprintf env buf size fmt va m).2 ↔
      1 ≤ size.toInt := by
  rcases lt_or_ge size.toInt 1 with hsmall | hpos
  · have hempty : span buf (max size.toInt 0).toNat = ∅ := by
      ext x
      rw [mem_span, Set.mem_empty_iff_false, iff_false]
      omega
    rw [hempty]
    exact iff_of_false (vsnprintf_stores env fmt va buf size m) (by omega)
  · have hne : size ≠ 0 := by
      rintro rfl
      exact absurd hpos (by decide)
    have hroom : (max size.toInt 0).toNat = size.toNat := by
      rw [BitVec.toInt_eq_toNat_cond] at hpos ⊢
      have := size.isLt
      split_ifs at hpos ⊢ <;> omega
    rw [hroom]
    exact iff_of_true (truncated_vsnprintf env fmt va buf m hne).writes hpos

/-- Asked for the length only, `vsnprintf` writes to the null pointer. -/
theorem vsnprintf_null :
    ¬WritesIn (span 0 (max (0 : Word).toInt 0).toNat) ⟨fun _ => 0xff, []⟩
      (vsnprintf emptyEnv 0 0 charFmt (.const 98) ⟨fun _ => 0xff, []⟩).2 := by
  have hempty : span 0 (max (0 : Word).toInt 0).toNat = ∅ := by
    ext x
    simp [mem_span]
  rw [hempty]
  exact vsnprintf_stores emptyEnv charFmt (.const 98) 0 0 _

end DmfOs
