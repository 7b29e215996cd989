import DmfOs.Lib.Number

/-!
# The local arrays of the number routines

The loops of `print_int` and `print_unsigned` run on an array `buf`. The state records the
indices they store to and the indices at which they look up `digits`, so that both can be
bounded. Here `print_int` is run on its array.
-/

namespace DmfOs

/-- The array `buf` with the memory around it, the index that `p` points to, and the indices
of stores and of lookups so far, the last one first. -/
structure NumBuf where
  buf : Int → Byte
  p : Int
  stores : List Int
  lookups : List Int

namespace NumBuf

/-- A store to an element. -/
def store (b : NumBuf) (i : Int) (c : Byte) : NumBuf :=
  { b with buf := Function.update b.buf i c, stores := i :: b.stores }

/-- A store through `p`, which is then moved on. -/
def push (b : NumBuf) (c : Byte) : NumBuf := { b.store b.p c with p := b.p + 1 }

/-- The digit at an index of `digits` is looked up and stored. -/
def pushDigit (env : PrintfEnv) (b : NumBuf) (i : Int) : NumBuf :=
  { b.push (digit env i) with lookups := i :: b.lookups }

/-- The loop that stores the digits of a number. -/
def pushDigits (env : PrintfEnv) (b : NumBuf) (n : Int) (base : Base) : NumBuf :=
  if n = 0 then b else pushDigits env (b.pushDigit env (n.tmod base)) (n.tdiv base) base
termination_by n.natAbs
decreasing_by
  have := base.2
  rw [Int.natAbs_tdiv]
  exact Nat.div_lt_self (by omega) (by omega)

/-- The loop that exchanges elements, from index `i` on, with the exchanges left. -/
def swaps : Nat → Int → NumBuf → NumBuf
  | 0, _, b => b
  | k + 1, i, b =>
    let tmp := b.buf i
    let b := b.store i (b.buf (b.p - 1 - i))
    swaps k (i + 1) (b.store (b.p - 1 - i) tmp)

/-- The string in the array up to `p`. -/
def text (b : NumBuf) : CStr := .ofBuffer ((List.range b.p.toNat).map fun i : Nat => b.buf i)

/-- The array holds these bytes, and only their elements were stored to. -/
structure Holds (b : NumBuf) (cs : List Byte) : Prop where
  p_eq : b.p = cs.length
  buf_eq : ∀ i < cs.length, b.buf i = cs.getD i 0
  stores_lt : ∀ i ∈ b.stores, 0 ≤ i ∧ i < cs.length

variable {env : PrintfEnv} {b : NumBuf} {cs : List Byte}

/-- The test for an empty array. -/
theorem Holds.p_eq_zero_iff (h : b.Holds cs) : b.p = 0 ↔ cs = [] := by
  rw [h.p_eq, Nat.cast_eq_zero, List.length_eq_zero_iff]

/-- Before the first store. -/
theorem holds_nil (buf : Int → Byte) : Holds ⟨buf, 0, [], []⟩ [] :=
  ⟨rfl, fun i hi => absurd hi (Nat.not_lt_zero i), by simp⟩

theorem Holds.store (h : b.Holds cs) {i : Nat} (hi : i < cs.length) (c : Byte) :
    (b.store i c).Holds (cs.set i c) := by
  refine ⟨?_, fun j hj => ?_, ?_⟩
  · rw [List.length_set]
    exact h.p_eq
  · rw [List.length_set] at hj
    rw [NumBuf.store, List.getD_eq_getElem?_getD, List.getElem?_set]
    by_cases hij : i = j
    · subst j
      simp [hi]
    · have hne : (j : Int) ≠ i := by omega
      simp only [Function.update_of_ne hne, if_neg hij]
      rw [h.buf_eq j hj, List.getD_eq_getElem?_getD]
  · rw [List.length_set]
    exact List.forall_mem_cons.mpr ⟨by omega, h.stores_lt⟩

theorem Holds.push (h : b.Holds cs) (c : Byte) : (b.push c).Holds (cs ++ [c]) := by
  have hlen : (cs ++ [c]).length = cs.length + 1 := by simp
  refine ⟨?_, fun j hj => ?_, ?_⟩
  · rw [hlen, NumBuf.push, h.p_eq, Nat.cast_succ]
  · rw [NumBuf.push, NumBuf.store, h.p_eq]
    rcases Nat.lt_or_ge j cs.length with hlt | hge
    · have hne : (j : Int) ≠ cs.length := by omega
      rw [List.getD_append _ _ _ _ hlt]
      exact (Function.update_of_ne hne _ _).trans (h.buf_eq j hlt)
    · obtain rfl : j = cs.length := by omega
      simp
  · rw [hlen, NumBuf.push, NumBuf.store, h.p_eq]
    refine List.forall_mem_cons.mpr ⟨by omega, fun i hi => ?_⟩
    have := h.stores_lt i hi
    omega

/-- The lookup itself leaves the array alone. -/
theorem Holds.pushDigit (h : b.Holds cs) (i : Int) :
    (b.pushDigit env i).Holds (cs ++ [digit env i]) :=
  have hpush := h.push (digit env i)
  ⟨hpush.p_eq, hpush.buf_eq, hpush.stores_lt⟩

theorem Holds.pushDigits (h : b.Holds cs) (n : Int) (base : Base) :
    (b.pushDigits env n base).Holds (cs ++ digitsLoop env n base) := by
  fun_induction NumBuf.pushDigits env b n base generalizing cs with
  | case1 =>
    rw [digitsLoop, if_pos rfl, List.append_nil]
    exact h
  | case2 b n hn ih =>
    have hnext := ih (h.pushDigit (n.tmod base))
    rw [digitsLoop, if_neg hn]
    rwa [List.append_assoc] at hnext

/-- Exchanges below the middle keep to the bytes. -/
theorem Holds.swaps (h : b.Holds cs) {k i : Nat} (hk : i + k ≤ cs.length / 2) :
    (NumBuf.swaps k i b).Holds (swapLoop k i cs) := by
  induction k generalizing i b cs with
  | zero => exact h
  | succ k ih =>
    have hother : b.p - 1 - i = (cs.length - 1 - i : Nat) := by
      rw [h.p_eq]
      omega
    have hpair := (h.store (i := i) (by omega) (cs.getD (cs.length - 1 - i) 0)).store
      (i := cs.length - 1 - i) (by rw [List.length_set]; omega) (cs.getD i 0)
    have hrest := ih hpair (i := i + 1) (by simp only [List.length_set]; omega)
    rw [Nat.cast_succ] at hrest
    simp only [NumBuf.swaps, swapLoop, List.length_set, NumBuf.store, hother,
      h.buf_eq i (by omega), h.buf_eq (cs.length - 1 - i) (by omega)]
    exact hrest

/-- The string in the array. -/
theorem Holds.text (h : b.Holds cs) : b.text = .ofBuffer cs := by
  rw [NumBuf.text, h.p_eq, Int.toNat_natCast]
  congr 1
  apply List.ext_getElem (by simp)
  intro i _ hi
  rw [List.getElem_map, List.getElem_range, h.buf_eq i hi, List.getD_eq_getElem _ _ hi]

/-- The elements up to `p` turned around. -/
def turn (b : NumBuf) : NumBuf := NumBuf.swaps (b.p / 2).toNat 0 b

theorem Holds.turn (h : b.Holds cs) : b.turn.Holds (swapLoop (cs.length / 2) 0 cs) := by
  have hcount : (b.p / 2).toNat = cs.length / 2 := by
    rw [h.p_eq]
    omega
  rw [NumBuf.turn, hcount]
  exact h.swaps (i := 0) (by omega)

/-- The array is turned around and terminated. -/
def finish (b : NumBuf) : NumBuf :=
  let b := b.turn
  b.store b.p 0

/-- The string in the array is then the buffer turned around. -/
theorem Holds.finish_text (h : b.Holds cs) : b.finish.text = finishBuf cs := by
  have hbelow (b : NumBuf) : (b.store b.p 0).text = b.text := by
    simp only [NumBuf.text, NumBuf.store]
    congr 1
    refine List.map_congr_left fun i hi => Function.update_of_ne ?_ _ _
    have := List.mem_range.mp hi
    omega
  rw [finish, hbelow, h.turn.text]
  rfl

/-- All stores are to the characters and to the element behind them. -/
theorem Holds.finish_stores (h : b.Holds cs) :
    ∀ i ∈ b.finish.stores, 0 ≤ i ∧ i ≤ cs.length := by
  have hlen := swapLoop_length (cs.length / 2) 0 cs
  refine List.forall_mem_cons.mpr ⟨?_, fun i hi => ?_⟩
  · rw [h.turn.p_eq, hlen]
    omega
  · have := h.turn.stores_lt i hi
    omega

/-- The lookups of the digit loop. -/
theorem pushDigits_lookups (n : Int) (base : Base) :
    (b.pushDigits env n base).lookups = (DmfOs.lookups n base).reverse ++ b.lookups := by
  fun_induction NumBuf.pushDigits env b n base with
  | case1 => rw [DmfOs.lookups, if_pos rfl, List.reverse_nil, List.nil_append]
  | case2 b n hn ih =>
    have hlist : DmfOs.lookups n base = n.tmod base :: DmfOs.lookups (n.tdiv base) base := by
      rw [DmfOs.lookups, if_neg hn]
    rw [ih, hlist, List.reverse_cons, List.append_assoc]
    rfl

/-- Exchanges look nothing up. -/
theorem swaps_lookups (k : Nat) (i : Int) : (NumBuf.swaps k i b).lookups = b.lookups := by
  induction k generalizing i b with
  | zero => rfl
  | succ k ih => exact ih (i + 1)

end NumBuf

/-! ## `print_int` on its array -/

/-- The size of the array. -/
def intBufSize : Nat := 4 * 3 + 2

/-- `print_int` up to the exchanges. -/
def fillInt (env : PrintfEnv) (buf : Int → Byte) (n : Word) (base : Base) : NumBuf :=
  let (s, n) := if n.toInt < 0 then (true, -n) else (false, n)
  let b := NumBuf.pushDigits env ⟨buf, 0, [], []⟩ n.toInt base
  let b := if s then b.push (chr '-') else b
  if b.p = 0 then b.push (chr '0') else b

/-- `print_int` on its array, up to the call of `print_str`. -/
def runInt (env : PrintfEnv) (buf : Int → Byte) (n : Word) (base : Base) : NumBuf :=
  let b := fillInt env buf n base
  let b := NumBuf.swaps (b.p / 2).toNat 0 b
  b.store b.p 0

variable (env : PrintfEnv) (buf : Int → Byte)

theorem holds_fillInt (n : Word) (base : Base) :
    (fillInt env buf n base).Holds (rawInt env n base) := by
  have hzero {b : NumBuf} {cs : List Byte} (h : b.Holds cs) :
      (if b.p = 0 then b.push (chr '0') else b).Holds (if cs = [] then [chr '0'] else cs) := by
    simp only [h.p_eq_zero_iff]
    split_ifs with hcs
    · subst hcs
      exact h.push (chr '0')
    · exact h
  have hdigits (m : Int) :
      (NumBuf.pushDigits env ⟨buf, 0, [], []⟩ m base).Holds (digitsLoop env m base) :=
    (NumBuf.holds_nil buf).pushDigits m base
  by_cases hneg : n.toInt < 0
  · simp only [fillInt, rawInt, if_pos hneg, if_true]
    exact hzero ((hdigits _).push (chr '-'))
  · simp only [fillInt, rawInt, if_neg hneg]
    exact hzero (hdigits _)

/-- The string that `print_int` leaves in its array is the one it prints. -/
theorem runInt_text (n : Word) (base : Base) :
    (runInt env buf n base).text = intBuf env n base :=
  (holds_fillInt env buf n base).finish_text

/-- It stores to its characters and to the element behind them. -/
theorem runInt_stores (n : Word) (base : Base) :
    ∀ i ∈ (runInt env buf n base).stores, 0 ≤ i ∧ i ≤ (rawInt env n base).length :=
  (holds_fillInt env buf n base).finish_stores

/-- It looks up the digits of the absolute value, or of the least integer itself. -/
theorem runInt_lookups (n : Word) (base : Base) :
    (runInt env buf n base).lookups =
      (lookups (if n.toInt < 0 then -n else n).toInt base).reverse := by
  have hpush (b : NumBuf) (p : Prop) [Decidable p] (c : Byte) :
      (if p then b.push c else b).lookups = b.lookups := by
    split_ifs <;> rfl
  have hdigits (m : Int) :
      (NumBuf.pushDigits env ⟨buf, 0, [], []⟩ m base).lookups = (lookups m base).reverse := by
    rw [NumBuf.pushDigits_lookups, List.append_nil]
  simp only [runInt, NumBuf.store, NumBuf.swaps_lookups, fillInt, hpush, hdigits]
  split_ifs <;> rfl

/-! ## All integers -/

/-- `print_int` prints a number in its canonical form, which `atol` reads back, and keeps
to its arrays. -/
structure PrintsInt (env : PrintfEnv) (n : Word) : Prop where
  text : ∀ props : Strprops, props.npad = 0 →
    Emits (fun p => printInt env p n decimal props) (decimalText n.toInt)
  readBack : atol (decimalText n.toInt) = n
  lookups : ∀ buf, ∀ i ∈ (runInt env buf n decimal).lookups, 0 ≤ i ∧ i < 16
  stores : ∀ buf, ∀ i ∈ (runInt env buf n decimal).stores, 0 ≤ i ∧ i < intBufSize

/-- The least integer is looked up before the array. -/
theorem neg_eight_mem_lookups :
    -8 ∈ (runInt env buf (.ofInt 32 (-2 ^ 31)) decimal).lookups := by
  have hself : (if (BitVec.ofInt 32 (-2 ^ 31)).toInt < 0 then -BitVec.ofInt 32 (-2 ^ 31)
      else BitVec.ofInt 32 (-2 ^ 31)).toInt = -2 ^ 31 := by decide
  rw [runInt_lookups, hself, List.mem_reverse]
  exact lookups_min

/-- `print_int` prints every integer but the least one, and `atol` reads it back. -/
theorem printsInt_iff (n : Word) : PrintsInt env n ↔ n.toInt ≠ -2 ^ 31 := by
  constructor
  · intro h hmin
    have hn : n = .ofInt 32 (-2 ^ 31) := by rw [← hmin, BitVec.ofInt_toInt]
    have hlow := (h.lookups (fun _ => 0) (-8) (hn ▸ neg_eight_mem_lookups env _)).1
    omega
  · intro hmin
    have hbuf := intBuf_bytes env hmin
    have hlen := length_decimalText_le n
    refine ⟨fun props hpad => ?_, ?_, fun buf i hi => ?_, fun buf i hi => ?_⟩
    · have hprint := emits_printStr (intBuf env n decimal) props
      rwa [strText_noPad (by rw [hbuf]; omega) hpad, hbuf] at hprint
    · have hread := atol_decimal n 0
      rwa [List.replicate_zero, List.append_nil] at hread
    · have hpos : 0 ≤ (if n.toInt < 0 then -n else n).toInt := by
        split_ifs with hneg
        · rw [toInt_neg_of_neg hneg hmin]
          omega
        · omega
      rw [runInt_lookups, List.mem_reverse] at hi
      have hdigit : 0 ≤ i ∧ i < 10 := lookups_lt_base hpos i hi
      omega
    · have hstore := runInt_stores env buf n decimal i hi
      rw [rawInt_decimal env hmin, List.length_reverse] at hstore
      rw [intBufSize]
      omega

/-- `print_int` does not print the least integer. -/
theorem not_printsInt_min : ¬PrintsInt emptyEnv (.ofInt 32 (-2 ^ 31)) := by
  intro h
  have hlow := (h.lookups (fun _ => 0) (-8) (neg_eight_mem_lookups emptyEnv _)).1
  omega

end DmfOs
