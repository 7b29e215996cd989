import DmfOs.Lib.Printf
import Mathlib.Data.List.Forall2
import Mathlib.Data.Stream.Init

/-!
# Formats in pieces

The loop of `vsnprintf` takes a format apart and prints each piece as it meets it. Here
the pieces come first and what they print second, so that a format and the rest of it can
be looked at apart.
-/

namespace DmfOs

/-- A piece of a format: a character to copy, or a conversion. -/
inductive Piece
  | char (c : Byte)
  | conv (d : Directive)
  deriving DecidableEq

/-- The pieces of a format. -/
def pieces (fmt : List Byte) : List Piece :=
  match fmt with
  | [] => []
  | f :: fmt =>
    if f ≠ chr '%' then .char f :: pieces fmt
    else
      let d := moreFmt fmt 0 noProps
      .conv d :: pieces d.rest
termination_by fmt.length
decreasing_by
  · exact Nat.lt_succ_self _
  · exact Nat.lt_succ_of_le (moreFmt_length _ _ _)

/-- What a piece prints. -/
def Piece.text (env : PrintfEnv) (p : Piece) (va : Stream' Word) : List Byte :=
  match p with
  | .char c => [c]
  | .conv d => d.text env va

/-- The number of argument words that a piece takes. -/
def Piece.words : Piece → Nat
  | .char _ => 0
  | .conv d => d.words

/-- What the pieces print one after the other, and how many words each takes. -/
def trace (env : PrintfEnv) : List Piece → Stream' Word → List (List Byte × Nat)
  | [], _ => []
  | p :: ps, va => (p.text env va, p.words) :: trace env ps (va.drop p.words)

/-- Everything that the pieces print. -/
def render (env : PrintfEnv) (ps : List Piece) (va : Stream' Word) : List Byte :=
  (trace env ps va).flatMap Prod.fst

/-- The number of argument words that a format takes. -/
def argWords (fmt : List Byte) : Nat := ((pieces fmt).map Piece.words).sum

/-- Every `%` of a format starts a conversion that is completed within it. -/
def Complete (fmt : List Byte) : Prop := ∀ d, .conv d ∈ pieces fmt → d.conv ≠ 0

/-! ## The loop prints the pieces -/

@[simp] theorem pieces_nil : pieces [] = [] := by rw [pieces]

theorem pieces_char {c : Byte} (h : c ≠ chr '%') (fmt : List Byte) :
    pieces (c :: fmt) = .char c :: pieces fmt := by
  rw [pieces, if_pos h]

theorem pieces_conv (fmt : List Byte) :
    pieces (chr '%' :: fmt) =
      .conv (moreFmt fmt 0 noProps) :: pieces (moreFmt fmt 0 noProps).rest := by
  rw [pieces, if_neg (not_not.mpr rfl)]

variable {env : PrintfEnv}

/-- The loop adds what the pieces print. -/
theorem emits_render (env : PrintfEnv) (fmt : List Byte) (va : Stream' Word) :
    Emits (vsnprintfLoop env fmt va) (render env (pieces fmt) va) := by
  intro s
  fun_induction vsnprintfLoop env fmt va s with
  | case1 =>
    rw [pieces_nil]
    rfl
  | case2 va s f fmt hf ih =>
    rw [ih, pieces_char hf]
    rfl
  | case3 va s f fmt hf d s' va' hconv ih =>
    rw [convert_eq] at hconv
    obtain ⟨rfl, rfl⟩ := Prod.mk.inj hconv
    rw [ih, not_not.mp hf, pieces_conv, ← List.foldl_append]
    rfl

/-- The full output is what the pieces print. -/
theorem fullOutput_eq_render (env : PrintfEnv) (fmt : CStr) (va : Stream' Word) :
    fullOutput env fmt va = render env (pieces fmt.bytes) va := by
  rw [fullOutput, emits_render, (foldl_addchar_count _ _).1]
  rfl

/-! ## Arguments -/

/-- Pieces one after the other take their arguments one after the other. -/
theorem trace_append (ps qs : List Piece) (va : Stream' Word) :
    trace env (ps ++ qs) va =
      trace env ps va ++ trace env qs (va.drop (ps.map Piece.words).sum) := by
  induction ps generalizing va with
  | nil => rfl
  | cons p ps ih =>
    rw [List.cons_append, trace, trace, ih, List.cons_append, List.map_cons, List.sum_cons,
      Stream'.drop_drop, Nat.add_comm]

/-- A piece that takes no word prints the same for all arguments, and every other one
depends on the first of its words. -/
theorem Piece.text_congr (env : PrintfEnv) {p : Piece} {va va' : Stream' Word}
    (h : p.words ≠ 0 → va.head = va'.head) : p.text env va = p.text env va' := by
  cases p with
  | char c => rfl
  | conv d =>
    have branch {c q : Prop} [Decidable c] {k k' : Nat} {x x' y y' : List Byte}
        (hx : (k ≠ 0 → q) → x = x') (hy : (k' ≠ 0 → q) → y = y') :
        ((if c then k else k') ≠ 0 → q) → (if c then x else y) = if c then x' else y' := by
      split_ifs
      · exact hx
      · exact hy
    revert h
    unfold text words Directive.text Directive.words
    refine branch (fun _ => rfl) <| branch (fun h => ?_) <| branch (fun _ => rfl) <|
      branch (fun h => ?_) <| branch (fun h => ?_) <| branch (fun h => ?_) <|
      branch (fun h => ?_) <| branch (fun h => ?_) fun _ => rfl
    · rw [h one_ne_zero]
    · rw [h (by split_ifs <;> omega)]
    all_goals rw [h one_ne_zero]

/-- Words dropped from the front of a list. -/
theorem drop_append_stream_of_le {a : List Word} {k : Nat} (hk : k ≤ a.length)
    (rest : Stream' Word) : (a ++ₛ rest).drop k = a.drop k ++ₛ rest := by
  induction k generalizing a with
  | zero => rfl
  | succ k ih =>
    cases a with
    | nil => exact absurd hk (Nat.not_succ_le_zero k)
    | cons w a => exact ih (Nat.le_of_succ_le_succ hk)

/-- What pieces print is determined by the words they take. -/
theorem trace_congr (env : PrintfEnv) {ps : List Piece} {a : List Word}
    (ha : (ps.map Piece.words).sum ≤ a.length) (rest rest' : Stream' Word) :
    trace env ps (a ++ₛ rest) = trace env ps (a ++ₛ rest') := by
  induction ps generalizing a with
  | nil => rfl
  | cons p ps ih =>
    rw [List.map_cons, List.sum_cons] at ha
    have hhead : p.words ≠ 0 → (a ++ₛ rest).head = (a ++ₛ rest').head := by
      intro hne
      cases a with
      | nil => exact absurd ha (by simp only [List.length_nil]; omega)
      | cons w a => rfl
    have hrest := ih (a := a.drop p.words) (by rw [List.length_drop]; omega)
    rw [trace, trace, Piece.text_congr env hhead, drop_append_stream_of_le (by omega),
      drop_append_stream_of_le (by omega), hrest]

/-! ## A format behind another one -/

/-- A character that `atol` passes over in front of a number and `fmtnum` does not count. -/
def Skipped (c : Byte) : Prop := c = chr ' ' ∨ c = chr '\t' ∨ c = chr '+'

/-- Two directives do the same: a character that is only copied is so whatever the
properties. -/
structure Directive.Agree (d d' : Directive) : Prop where
  conv : d'.conv = d.conv
  nlong : d'.nlong = d.nlong
  props : d'.props = d.props ∨ Skipped d.conv

/-- Two directives do the same, the second one in front of more text. -/
structure Directive.Extends (g : List Byte) (d d' : Directive) : Prop extends d.Agree d' where
  rest : d'.rest = d.rest ++ g

/-- Two pieces do the same. -/
def Piece.Agree (p q : Piece) : Prop :=
  q.words = p.words ∧ ∀ env va, q.text env va = p.text env va

/-- A character that is passed over is no conversion of its own. -/
theorem Directive.text_of_skipped {d : Directive} (h : Skipped d.conv) (va : Stream' Word) :
    d.text env va = [d.conv] := by
  rcases h with h | h | h <;> rw [Directive.text, h] <;> rfl

theorem Piece.Agree.refl (p : Piece) : p.Agree p := ⟨rfl, fun _ _ => rfl⟩

theorem Directive.Agree.piece {d d' : Directive} (h : d.Agree d') :
    (Piece.conv d).Agree (.conv d') := by
  refine ⟨?_, fun env va => ?_⟩
  · simp only [Piece.words, Directive.words, h.conv, h.nlong]
  · rcases h.props with hprops | hskip
    · simp only [Piece.text, Directive.text, h.conv, hprops]
    · have hskip' : Skipped d'.conv := h.conv ▸ hskip
      rw [Piece.text, Piece.text, text_of_skipped hskip, text_of_skipped hskip', h.conv]

/-- Pieces that do the same leave the same trace. -/
theorem trace_agree {ps qs : List Piece} (h : List.Forall₂ Piece.Agree ps qs)
    (va : Stream' Word) : trace env qs va = trace env ps va := by
  induction h generalizing va with
  | nil => rfl
  | cons hp _ ih => rw [trace, trace, hp.1, hp.2, ih]

/-- Digits that end within a text are read as the same number in front of more text. -/
theorem atolLoop_append {cs : List Byte} (h : cs.dropWhile isDigit ≠ []) (g : List Byte)
    (acc : Word) : atolLoop (cs ++ g) acc = atolLoop cs acc := by
  induction cs generalizing acc with
  | nil => exact absurd rfl h
  | cons c cs ih =>
    rw [List.cons_append, atolLoop, atolLoop]
    by_cases hc : isDigit c = true
    · rw [List.dropWhile_cons_of_pos hc] at h
      rw [ih h]
    · simp [hc]

/-- What `fmtnum` leaves of a format. -/
theorem fmtnum_snd (f : Byte) (fmt : List Byte) :
    (fmtnum (f :: fmt)).2 =
      if f = chr '-' then fmt.dropWhile isDigit else (f :: fmt).dropWhile isDigit := by
  have hdrop (cs : List Byte) : cs.drop (cs.takeWhile isDigit).length = cs.dropWhile isDigit := by
    have hleft : (cs.takeWhile isDigit ++ cs.dropWhile isDigit).drop (cs.takeWhile isDigit).length =
        cs.dropWhile isDigit := List.drop_left
    rwa [List.takeWhile_append_dropWhile] at hleft
  rw [fmtnum, fmtnumLen]
  split_ifs
  · rw [Nat.add_comm, List.drop_succ_cons]
    exact hdrop fmt
  · exact hdrop (f :: fmt)

/-- A number without a sign. -/
theorem atol_unsigned {f : Byte} (hskip : ¬Skipped f) (hminus : f ≠ chr '-') (fmt : List Byte) :
    atol (f :: fmt) = atolLoop (f :: fmt) 0 := by
  rw [Skipped, not_or, not_or] at hskip
  have hblank : ¬(f = chr ' ' ∨ f = chr '\t') := by simp [hskip.1, hskip.2.1]
  rw [atol, List.dropWhile_cons_of_neg (by simpa using hblank)]
  simp only [if_neg hminus, if_neg hskip.2.2]

/-- A number that ends within a format is read the same when more follows, unless it starts
with a character that is passed over. -/
theorem fmtnum_append {f : Byte} {fmt : List Byte} (h : (fmtnum (f :: fmt)).2 ≠ [])
    (g : List Byte) :
    (fmtnum (f :: fmt ++ g)).2 = (fmtnum (f :: fmt)).2 ++ g ∧
      (Skipped f ∨ (fmtnum (f :: fmt ++ g)).1 = (fmtnum (f :: fmt)).1) := by
  have hends {cs : List Byte} (h : cs.dropWhile isDigit ≠ []) :
      (cs ++ g).dropWhile isDigit = cs.dropWhile isDigit ++ g := by
    rw [List.dropWhile_append, if_neg (by simpa using h)]
  rw [fmtnum_snd] at h
  rw [List.cons_append, fmtnum_snd, fmtnum_snd]
  by_cases hminus : f = chr '-'
  · rw [if_pos hminus] at h
    rw [if_pos hminus, if_pos hminus]
    refine ⟨hends h, .inr ?_⟩
    rw [hminus]
    exact congrArg Neg.neg (atolLoop_append h g 0)
  · rw [if_neg hminus] at h
    rw [if_neg hminus, if_neg hminus]
    refine ⟨hends h, (Classical.em (Skipped f)).imp_right fun hskip => ?_⟩
    have hread := atolLoop_append h g 0
    rw [fmtnum, fmtnum]
    dsimp only
    rw [atol_unsigned hskip hminus, atol_unsigned hskip hminus]
    exact hread

/-- A character that is passed over ends a directive. -/
theorem moreFmt_skipped {f : Byte} (h : Skipped f) (fmt : List Byte) (nlong : Nat)
    (props : Strprops) : moreFmt (f :: fmt) nlong props = ⟨f, nlong, props, fmt⟩ := by
  rcases h with rfl | rfl | rfl <;> rw [moreFmt] <;> rfl

/-- A directive that is completed within a format is the same when more follows. -/
theorem moreFmt_append {fmt : List Byte} {nlong : Nat} {props : Strprops}
    (h : (moreFmt fmt nlong props).conv ≠ 0) (g : List Byte) :
    (moreFmt fmt nlong props).Extends g (moreFmt (fmt ++ g) nlong props) := by
  have hempty (nlong : Nat) (props : Strprops) : ¬(moreFmt [] nlong props).conv ≠ 0 := by
    rw [moreFmt, not_not]
  fun_induction moreFmt fmt nlong props with
  | case1 => exact absurd rfl h
  | case2 nlong props fmt ih =>
    rw [List.cons_append, moreFmt, if_pos rfl]
    exact ih h
  | case3 nlong props fmt hhash ih =>
    rw [List.cons_append, moreFmt, if_neg hhash, if_pos rfl]
    cases fmt with
    | nil => exact absurd h (hempty _ _)
    | cons f fmt =>
      have hne : (fmtnum (f :: fmt)).2 ≠ [] := fun he => hempty _ _ (he ▸ h)
      obtain ⟨hrest, hskip | hnum⟩ := fmtnum_append hne g
      · -- the number that is read may lie in `g`, but then it is not used
        have hstop (cs : List Byte) : (fmtnum (f :: cs)).2 = f :: cs := by
          rw [fmtnum_snd]
          rcases hskip with rfl | rfl | rfl <;> rfl
        rw [hrest, hstop, List.cons_append, moreFmt_skipped hskip, moreFmt_skipped hskip]
        exact ⟨⟨rfl, rfl, .inr hskip⟩, rfl⟩
      · rw [hrest, hnum]
        exact ih h
  | case4 nlong props f fmt hhash hzero hnumber ih =>
    rw [List.cons_append, moreFmt, if_neg hhash, if_neg hzero, if_pos hnumber]
    have hne : (fmtnum (f :: fmt)).2 ≠ [] := fun he => hempty _ _ (he ▸ h)
    obtain ⟨hrest, hskip | hnum⟩ := fmtnum_append hne g
    · rcases hskip with rfl | rfl | rfl <;> exact absurd hnumber (by decide)
    · rw [← List.cons_append, hrest, hnum]
      exact ih h
  | case5 nlong props fmt hhash hzero hnumber ih =>
    rw [List.cons_append, moreFmt, if_neg hhash, if_neg hzero, if_neg hnumber, if_pos rfl]
    exact ih h
  | case6 nlong props f fmt hhash hzero hnumber hlong hsize ih =>
    rw [List.cons_append, moreFmt, if_neg hhash, if_neg hzero, if_neg hnumber, if_neg hlong,
      if_pos hsize]
    exact ih h
  | case7 nlong props f fmt hhash hzero hnumber hlong hsize =>
    rw [List.cons_append, moreFmt, if_neg hhash, if_neg hzero, if_neg hnumber, if_neg hlong,
      if_neg hsize]
    exact ⟨⟨rfl, rfl, .inl rfl⟩, rfl⟩

/-- The pieces of a complete format do the same when more follows, and the rest of the
pieces are those of what follows. -/
theorem pieces_append {f : List Byte} (hf : Complete f) (g : List Byte) :
    List.Forall₂ Piece.Agree (pieces f ++ pieces g) (pieces (f ++ g)) := by
  unfold Complete at hf
  fun_induction pieces f with
  | case1 => exact List.forall₂_same.mpr fun p _ => Piece.Agree.refl p
  | case2 c fmt hc ih =>
    rw [List.cons_append, List.cons_append, pieces_char hc]
    exact .cons (Piece.Agree.refl _) (ih fun d hd => hf d (List.mem_cons_of_mem _ hd))
  | case3 c fmt hc d ih =>
    have hext := moreFmt_append (hf d List.mem_cons_self) g
    rw [List.cons_append, List.cons_append, not_not.mp hc, pieces_conv, hext.rest]
    exact .cons hext.toAgree.piece (ih fun d hd => hf d (List.mem_cons_of_mem _ hd))

/-! ## Composition -/

/-- One string behind the other. -/
def CStr.append (s t : CStr) : CStr where
  bytes := s.bytes ++ t.bytes
  nonzero c hc := (List.mem_append.mp hc).elim (s.nonzero c) (t.nonzero c)

/-- A format behind a complete one, with the arguments of both, leaves the trace of each. -/
theorem trace_pieces_append {f g : List Byte} (hf : Complete f) {a b : List Word}
    (ha : a.length = argWords f) (hb : b.length = argWords g) (rest rest₁ rest₂ : Stream' Word) :
    trace env (pieces (f ++ g)) (a ++ₛ (b ++ₛ rest)) =
      trace env (pieces f) (a ++ₛ rest₁) ++ trace env (pieces g) (b ++ₛ rest₂) := by
  have hdrop : (a ++ₛ (b ++ₛ rest)).drop ((pieces f).map Piece.words).sum = b ++ₛ rest := by
    rw [← argWords, ← ha]
    exact Stream'.drop_append_stream a _
  rw [trace_agree (pieces_append hf g), trace_append, hdrop,
    trace_congr env ha.ge (b ++ₛ rest) rest₁, trace_congr env hb.ge rest rest₂]

/-- What `vsnprintf` does for two formats in one call, and for each of them in a call of
its own. -/
structure Composes (env : PrintfEnv) (f g : CStr) (va va₁ va₂ : Stream' Word) : Prop where
  output : fullOutput env (f.append g) va = fullOutput env f va₁ ++ fullOutput env g va₂
  returned : ∀ buf buf₁ buf₂ size size₁ size₂ m m₁ m₂,
    (vsnprintf env buf size (f.append g) va m).1 =
      (vsnprintf env buf₁ size₁ f va₁ m₁).1 + (vsnprintf env buf₂ size₂ g va₂ m₂).1
  trace : trace env (pieces (f.append g).bytes) va =
    trace env (pieces f.bytes) va₁ ++ trace env (pieces g.bytes) va₂

/-- Formatting is compositional: a complete format and another one behind it, with the
arguments of both, print what each prints with its own arguments, piece by piece. -/
theorem vsnprintf_composes (env : PrintfEnv) (f g : CStr) (hf : Complete f.bytes)
    {a b : List Word} (ha : a.length = argWords f.bytes) (hb : b.length = argWords g.bytes)
    (rest rest₁ rest₂ : Stream' Word) :
    Composes env f g (a ++ₛ (b ++ₛ rest)) (a ++ₛ rest₁) (b ++ₛ rest₂) := by
  have htrace : trace env (pieces (f.append g).bytes) (a ++ₛ (b ++ₛ rest)) =
      trace env (pieces f.bytes) (a ++ₛ rest₁) ++ trace env (pieces g.bytes) (b ++ₛ rest₂) :=
    trace_pieces_append hf ha hb rest rest₁ rest₂
  have houtput : fullOutput env (f.append g) (a ++ₛ (b ++ₛ rest)) =
      fullOutput env f (a ++ₛ rest₁) ++ fullOutput env g (b ++ₛ rest₂) := by
    rw [fullOutput_eq_render, fullOutput_eq_render, fullOutput_eq_render, render, htrace,
      List.flatMap_append]
    rfl
  refine ⟨houtput, fun _ _ _ _ _ _ _ _ _ => ?_, htrace⟩
  rw [vsnprintf_fst, vsnprintf_fst, vsnprintf_fst, houtput, List.length_append, BitVec.ofNat_add]

/-- The pieces of a%c. -/
theorem pieces_charFmt :
    pieces charFmt.bytes = [.char (chr 'a'), .conv ⟨chr 'c', 0, noProps, []⟩] := by
  have hconv : moreFmt [chr 'c'] 0 noProps = ⟨chr 'c', 0, noProps, []⟩ := by
    simp [moreFmt, chr, isDigit]
  rw [charFmt, pieces_char (by simp [chr]), pieces_conv, hconv, pieces_nil]

/-- a%ca%c with two characters. -/
theorem vsnprintf_composes_charFmt :
    Composes emptyEnv charFmt charFmt ([98] ++ₛ ([99] ++ₛ .const 0)) ([98] ++ₛ .const 0)
      ([99] ++ₛ .const 0) := by
  have hwords : argWords charFmt.bytes = 1 := by
    rw [argWords, pieces_charFmt]
    rfl
  have hcomplete : Complete charFmt.bytes := by
    rw [Complete, pieces_charFmt]
    simp [chr]
  exact vsnprintf_composes emptyEnv charFmt charFmt hcomplete (a := [98]) (b := [99]) hwords.symm
    hwords.symm _ _ _

end DmfOs
