import DmfOs.Lib.Format
import DmfOs.Lib.Unsigned

/-!
# Length modifiers

Formats of characters and the conversions `d`, `u` and `x` with up to two modifiers `l`,
each with an argument of the type that it names. A `long long` takes two argument words,
the lower one first.
-/

namespace DmfOs

/-- A conversion of a number. -/
inductive NumConv
  | d
  | u
  | x
  deriving DecidableEq, Repr

/-- The character of a conversion. -/
def NumConv.char : NumConv → Byte
  | .d => chr 'd'
  | .u => chr 'u'
  | .x => chr 'x'

/-- A value in full: with its sign, without one, or in base 16. -/
def NumConv.fullText {w : Nat} (k : NumConv) (v : BitVec w) : List Byte :=
  match k with
  | .d => decimalText v.toInt
  | .u => numeral 10 v.toNat
  | .x => numeral 16 v.toNat

/-- A character that stands for itself in a format. -/
abbrev Literal := {c : Byte // c ≠ chr '%' ∧ c ≠ 0}

/-- A part of a format with its argument: a character, a conversion with at most one
modifier, or a conversion with two. -/
inductive Item
  | char (c : Literal)
  | word (k : NumConv) (long : Bool) (v : BitVec 32)
  | longLong (k : NumConv) (v : BitVec 64)

/-- The characters of the format. -/
def Item.format : Item → List Byte
  | .char c => [c.1]
  | .word k false _ => [chr '%', k.char]
  | .word k true _ => [chr '%', chr 'l', k.char]
  | .longLong k _ => [chr '%', chr 'l', chr 'l', k.char]

/-- The words of the argument. -/
def Item.args : Item → List Word
  | .char _ => []
  | .word _ _ v => [v]
  | .longLong _ v => [v.extractLsb' 0 32, v.extractLsb' 32 32]

/-- The text that is asked for. -/
def Item.text : Item → List Byte
  | .char c => [c.1]
  | .word k _ v => k.fullText v
  | .longLong k v => k.fullText v

theorem Item.format_nonzero (i : Item) : ∀ c ∈ i.format, c ≠ 0 := by
  have hconv (k : NumConv) : k.char ≠ 0 := by cases k <;> decide
  have hpercent : chr '%' ≠ 0 := by decide
  have hlong : chr 'l' ≠ 0 := by decide
  have hnil : ∀ c ∈ ([] : List Byte), c ≠ 0 := by simp
  rcases i with c | ⟨k, _ | _, v⟩ | ⟨k, v⟩
  all_goals simp only [format, List.forall_mem_cons]
  · exact ⟨c.2.2, hnil⟩
  · exact ⟨hpercent, hconv k, hnil⟩
  · exact ⟨hpercent, hlong, hconv k, hnil⟩
  · exact ⟨hpercent, hlong, hlong, hconv k, hnil⟩

/-- The format that the items make up. -/
def formatOf (is : List Item) : CStr where
  bytes := is.flatMap Item.format
  nonzero c hc := by
    obtain ⟨i, _, hi⟩ := List.mem_flatMap.mp hc
    exact i.format_nonzero c hi

/-- Their arguments as they lie on the stack. -/
def argsOf (is : List Item) : List Word := is.flatMap Item.args

/-- `vsnprintf` prints every value of the items in full, and takes exactly its words for
it, whatever comes after the arguments. -/
structure PrintsItems (is : List Item) : Prop where
  output : ∀ env rest,
    fullOutput env (formatOf is) (argsOf is ++ₛ rest) = is.flatMap Item.text
  each : ∀ env rest, trace env (pieces (formatOf is).bytes) (argsOf is ++ₛ rest) =
    is.map fun i => (i.text, i.args.length)

/-- No modifier is used in vain, and a signed number is above the least `long`; for one
of type `long long` the value also fits into a `long`. -/
def Item.Fits : Item → Prop
  | .char _ => True
  | .word .d _ v => v.toInt ≠ -2 ^ 31
  | .word .u _ _ => True
  | .word .x _ _ => True
  | .longLong .d v => -2 ^ 31 < v.toInt ∧ v.toInt < 2 ^ 31
  | .longLong .u _ => False
  | .longLong .x _ => False

/-! ## What the code prints -/

/-- What a conversion prints for an argument word. -/
def NumConv.print (env : PrintfEnv) (k : NumConv) (w : Word) : List Byte :=
  match k with
  | .d => strText (intBuf env w decimal) noProps
  | .u => unsignedText env w decimal noProps
  | .x => unsignedText env w hexadecimal noProps

/-- What is printed for an item, by the first of the argument words. -/
def Item.printed (env : PrintfEnv) (i : Item) (w : Word) : List Byte :=
  match i with
  | .char c => [c.1]
  | .word k _ _ => k.print env w
  | .longLong k _ => k.print env w

/-- The words that are taken for an item. -/
def Item.taken : Item → Nat
  | .char _ => 0
  | .word _ _ _ => 1
  | .longLong .d _ => 2
  | .longLong .u _ => 1
  | .longLong .x _ => 1

variable {env : PrintfEnv}

/-- A number without flags and width. -/
theorem unsignedText_plain (env : PrintfEnv) {base : Base} {b : Nat} (hbase : base.1 = b)
    (hb : 10 ≤ b) (hb' : b ≤ 16) (n : Word) :
    unsignedText env n base noProps = numeral b n.toNat := by
  have hplain : numPrefix n base noProps.alternate = [] :=
    if_neg fun h => Bool.false_ne_true h.1
  rw [unsignedText_noPad env n noProps hbase hb hb' rfl, hplain, List.nil_append]

theorem moreFmt_long (fmt : List Byte) (nlong : Nat) (props : Strprops) :
    moreFmt (chr 'l' :: fmt) nlong props = moreFmt fmt (nlong + 1) props := by
  rw [moreFmt]
  rfl

theorem moreFmt_num (k : NumConv) (fmt : List Byte) (nlong : Nat) (props : Strprops) :
    moreFmt (k.char :: fmt) nlong props = ⟨k.char, nlong, props, fmt⟩ := by
  cases k <;> rw [NumConv.char, moreFmt] <;> rfl

/-- A conversion of a number prints its first word. -/
theorem text_num (k : NumConv) (nlong : Nat) (rest : List Byte) (va : Stream' Word) :
    Directive.text env ⟨k.char, nlong, noProps, rest⟩ va = k.print env va.head := by
  cases k <;> rfl

/-- The first piece of a format that starts with an item. -/
theorem trace_item (env : PrintfEnv) (i : Item) (fmt : List Byte) (va : Stream' Word) :
    trace env (pieces (i.format ++ fmt)) va =
      (i.printed env va.head, i.taken) :: trace env (pieces fmt) (va.drop i.taken) := by
  rcases i with c | ⟨k, _ | _, v⟩ | ⟨k, v⟩
  · rw [Item.format, List.singleton_append, pieces_char c.2.1]
    rfl
  · simp only [Item.format, List.cons_append, List.nil_append, pieces_conv, moreFmt_num, trace,
      Piece.text, Piece.words, text_num]
    cases k <;> rfl
  · simp only [Item.format, List.cons_append, List.nil_append, pieces_conv, moreFmt_long,
      moreFmt_num, trace, Piece.text, Piece.words, text_num]
    cases k <;> rfl
  · simp only [Item.format, List.cons_append, List.nil_append, pieces_conv, moreFmt_long,
      moreFmt_num, trace, Piece.text, Piece.words, text_num]
    cases k <;> rfl

/-! ## Full values -/

/-- A signed number above the least `long` is printed in full. -/
theorem print_d (env : PrintfEnv) {w : Word} (h : w.toInt ≠ -2 ^ 31) :
    NumConv.d.print env w = decimalText w.toInt := by
  have hbuf := intBuf_bytes env h
  have hlen := length_decimalText_le w
  rw [NumConv.print, strText_noPad (by rw [hbuf]; omega) rfl, hbuf]

/-- For the least `long`, what is printed depends on the memory before the digits. -/
theorem exists_print_d_ne {w : Word} (h : w.toInt = -2 ^ 31) :
    ∃ env, ∀ n, NumConv.d.print env w ≠ decimalText n := by
  let env : PrintfEnv := ⟨emptyEnv.str, fun _ => chr 'x'⟩
  have hnonzero : chr 'x' ≠ 0 := by decide
  have hx : chr 'x' ∈ (intBuf env (.ofInt 32 (-2 ^ 31)) decimal).bytes :=
    around_mem_intBuf_min fun _ => hnonzero
  rw [← h, BitVec.ofInt_toInt] at hx
  refine ⟨env, fun n heq => ?_⟩
  have hnot : chr 'x' ∉ decimalText n := notMem_decimalText (by decide) (by decide) n
  rw [← heq] at hnot
  exact hnot (List.mem_append_left _ (List.mem_append_right _ hx))

/-- The lower word of a `long long` is its value if that fits. -/
theorem toInt_lower {v : BitVec 64} (hle : -2 ^ 31 ≤ v.toInt) (hlt : v.toInt < 2 ^ 31) :
    (v.extractLsb' 0 32).toInt = v.toInt := by
  have hdvd : 2 ^ 32 ∣ 2 ^ 64 := pow_dvd_pow 2 (by omega)
  have hmod : (v.toNat : Int).bmod (2 ^ 32) = v.toInt.bmod (2 ^ 32) := by
    rw [BitVec.toInt_eq_toNat_bmod, Int.bmod_bmod_of_dvd hdvd]
  rw [BitVec.toInt_extractLsb', Nat.shiftRight_zero, hmod,
    Int.bmod_eq_of_le (by omega) (by omega)]

/-- A `long long` is printed in full exactly when it is above the least `long` and fits. -/
theorem print_lower_iff (v : BitVec 64) :
    (∀ env, NumConv.d.print env (v.extractLsb' 0 32) = decimalText v.toInt) ↔
      -2 ^ 31 < v.toInt ∧ v.toInt < 2 ^ 31 := by
  constructor
  · intro h
    have hmin : (v.extractLsb' 0 32).toInt ≠ -2 ^ 31 := by
      intro hmin
      obtain ⟨env, hne⟩ := exists_print_d_ne hmin
      exact hne _ (h env)
    have heq := decimalText_injective ((print_d emptyEnv hmin).symm.trans (h emptyEnv))
    have hlt := (v.extractLsb' 0 32).toInt_lt
    have hle := (v.extractLsb' 0 32).le_toInt
    omega
  · intro h env
    have hlow := toInt_lower h.1.le h.2
    rw [print_d env (by omega), hlow]

/-- An item fits exactly when its words are taken and its value is printed in full. -/
theorem Item.fits_iff (i : Item) :
    i.Fits ↔ i.taken = i.args.length ∧ ∀ env, i.printed env (i.args.headD 0) = i.text := by
  have hu (env : PrintfEnv) (v : Word) : NumConv.u.print env v = numeral 10 v.toNat :=
    unsignedText_plain env (b := 10) rfl (by omega) (by omega) v
  have hx (env : PrintfEnv) (v : Word) : NumConv.x.print env v = numeral 16 v.toNat :=
    unsignedText_plain env (b := 16) rfl (by omega) (by omega) v
  have htwo : ¬(1 : Nat) = 2 := by omega
  rcases i with c | ⟨_ | _ | _, long, v⟩ | ⟨_ | _ | _, v⟩
  · exact iff_of_true trivial ⟨rfl, fun _ => rfl⟩
  · refine Iff.trans ⟨fun h env => print_d env h, fun h hmin => ?_⟩ (and_iff_right rfl).symm
    obtain ⟨env, hne⟩ := exists_print_d_ne hmin
    exact hne _ (h env)
  · exact iff_of_true trivial ⟨rfl, fun env => hu env v⟩
  · exact iff_of_true trivial ⟨rfl, fun env => hx env v⟩
  · exact (print_lower_iff v).symm.trans (and_iff_right rfl).symm
  · exact iff_of_false id fun h => htwo h.1
  · exact iff_of_false id fun h => htwo h.1

/-- The first word of an argument is what its item looks at. -/
theorem Item.printed_head (env : PrintfEnv) (i : Item) (rest : Stream' Word) :
    i.printed env (i.args ++ₛ rest).head = i.printed env (i.args.headD 0) := by
  cases i <;> rfl

/-- The trace of the items is as asked for when all of them fit. -/
theorem trace_formatOf_iff (is : List Item) :
    (∀ env rest, trace env (pieces (formatOf is).bytes) (argsOf is ++ₛ rest) =
      is.map fun i => (i.text, i.args.length)) ↔ ∀ i ∈ is, i.Fits := by
  induction is with
  | nil =>
    have hnil : (formatOf []).bytes = [] := rfl
    refine iff_of_true (fun env rest => ?_) (by simp)
    rw [hnil, pieces_nil]
    rfl
  | cons i is ih =>
    have htrace (env : PrintfEnv) (rest : Stream' Word) :
        trace env (pieces (formatOf (i :: is)).bytes) (argsOf (i :: is) ++ₛ rest) =
          (i.printed env (i.args.headD 0), i.taken) ::
            trace env (pieces (formatOf is).bytes)
              ((i.args ++ₛ (argsOf is ++ₛ rest)).drop i.taken) := by
      rw [argsOf, List.flatMap_cons, Stream'.append_append_stream, formatOf]
      simp only [List.flatMap_cons]
      rw [trace_item, Item.printed_head]
      rfl
    have hdrop (rest : Stream' Word) :
        (i.args ++ₛ (argsOf is ++ₛ rest)).drop i.args.length = argsOf is ++ₛ rest :=
      Stream'.drop_append_stream _ _
    rw [List.forall_mem_cons, ← ih, i.fits_iff]
    constructor
    · intro h
      have hsplit (env : PrintfEnv) (rest : Stream' Word) :=
        List.cons.inj ((htrace env rest).symm.trans (h env rest))
      have htaken : i.taken = i.args.length :=
        congrArg Prod.snd (hsplit emptyEnv (.const 0)).1
      refine ⟨⟨htaken, fun env => congrArg Prod.fst (hsplit env (.const 0)).1⟩, fun env rest => ?_⟩
      have hrest := (hsplit env rest).2
      rwa [htaken, hdrop] at hrest
    · rintro ⟨⟨htaken, hprinted⟩, hrest⟩ env rest
      rw [htrace, htaken, hdrop, hprinted, hrest, List.map_cons]

/-- Formats of characters and of `d`, `u` and `x` with up to two modifiers print every
value in full and take exactly its words, if and only if all their items fit. -/
theorem printsItems_iff (is : List Item) : PrintsItems is ↔ ∀ i ∈ is, i.Fits := by
  rw [← trace_formatOf_iff]
  refine ⟨PrintsItems.each, fun h => ⟨fun env rest => ?_, h⟩⟩
  rw [fullOutput_eq_render, render, h, List.flatMap_map]

/-- After an unsigned `long long` the next conversion gets its upper word. -/
theorem not_printsItems_longLong :
    ¬PrintsItems [.longLong .u 5, .word .d false 7] := by
  intro h
  have hfits := (trace_formatOf_iff _).mp h.each (.longLong .u 5) List.mem_cons_self
  exact hfits

end DmfOs
