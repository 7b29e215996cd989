import DmfOs.Lib.Mem
import DmfOs.Lib.Str

/-!
# Comparing strings

The routines of `string.c` that compare and search strings where they lie in memory.
`StrAt` says which string a pointer points to. The loop of `strlen` has no bound of its
own and runs on fuel; the others count down.
-/

namespace DmfOs

open Memory

/-! ## Strings in memory -/

/-- The pointer `p` points to the string `s` with its terminator. -/
def StrAt (m : Memory) (p : Word) (s : CStr) : Prop :=
  ∀ i ≤ s.bytes.length, m.byte (p + .ofNat 32 i) = s.bytes.getD i 0

variable {m : Memory} {a b : Word} {s t : CStr}

/-- The first character, or the terminator. -/
theorem StrAt.head (h : StrAt m a s) : m.byte a = s.bytes.getD 0 0 := by
  have hfirst := h 0 (Nat.zero_le _)
  rwa [BitVec.ofNat_eq_ofNat, BitVec.add_zero] at hfirst

/-- The rest of a string. -/
def CStr.drop (s : CStr) (i : Nat) : CStr :=
  ⟨s.bytes.drop i, fun c hc => s.nonzero c (List.mem_of_mem_drop hc)⟩

/-- A character of a string is zero at its terminator only. -/
theorem CStr.getD_ne_zero (s : CStr) {i : Nat} (h : i < s.bytes.length) :
    s.bytes.getD i 0 ≠ 0 := by
  rw [List.getD_eq_getElem _ _ h]
  exact s.nonzero _ (List.getElem_mem h)

/-- A string is shorter than the address space. -/
theorem StrAt.length_lt (h : StrAt m a s) : s.bytes.length < 2 ^ 32 := by
  by_contra hlong
  have hwrap : a + .ofNat 32 (s.bytes.length % 2 ^ 32) = a + .ofNat 32 s.bytes.length := by
    rw [← BitVec.toNat_inj]
    simp
  have hmod : s.bytes.length % 2 ^ 32 < s.bytes.length := by omega
  have hbyte := h _ hmod.le
  rw [hwrap, h _ le_rfl, List.getD_eq_default _ _ le_rfl] at hbyte
  exact s.getD_ne_zero hmod hbyte.symm

theorem StrAt.toNat_length (h : StrAt m a s) : (strlen s).toNat = s.bytes.length := by
  rw [strlen, BitVec.toNat_ofNat, Nat.mod_eq_of_lt h.length_lt]

/-- The pointer into a string points to the rest of it. -/
theorem StrAt.drop (h : StrAt m a s) {i : Nat} (hi : i ≤ s.bytes.length) :
    StrAt m (a + .ofNat 32 i) (s.drop i) := by
  intro j hj
  simp only [CStr.drop, List.length_drop] at hj ⊢
  have haddr : a + .ofNat 32 i + .ofNat 32 j = a + .ofNat 32 (i + j) := by
    rw [BitVec.add_assoc, BitVec.ofNat_add]
  rw [haddr, h (i + j) (by omega), List.getD_eq_getElem?_getD, List.getD_eq_getElem?_getD,
    List.getElem?_drop]

/-! ## Routines -/

/-- The loop of `strlen`, which runs out of fuel or finds a terminator. -/
def strlenLoop (m : Memory) : Nat → Word → Word → Option Word
  | 0, _, _ => none
  | k + 1, buf, len =>
    if m.byte buf ≠ 0 then strlenLoop m k (buf + 1) (len + 1) else some len

/-- The loop of `memcmp`, with the bytes left, and the addresses that it compared. -/
def memcmpLoop (m : Memory) : Nat → Word → Word → Word × List (Word × Word)
  | 0, _, _ => (0, [])
  | k + 1, a, b =>
    let ret : Word := (m.byte a).setWidth 32 - (m.byte b).setWidth 32
    if ret ≠ 0 then (ret, [(a, b)])
    else
      let (ret, reads) := memcmpLoop m k (a + 1) (b + 1)
      (ret, (a, b) :: reads)

/-- `memcmp`. -/
def memcmp (m : Memory) (s1 s2 n : Word) : Word × List (Word × Word) := memcmpLoop m n.toNat s1 s2

/-- A length that is not 0. -/
abbrev PosLength := {l : Word // l ≠ 0}

/-- The loop of `strstr`, with all addresses that its comparisons read. -/
def strstrLoop (m : Memory) (s2 : Word) (l2 : PosLength) (s1 l1 : Word) :
    Word × List (Word × Word) :=
  if l2.1 ≤ l1 then
    let (ret, reads) := memcmp m s1 s2 l2
    if ret = 0 then (s1, reads)
    else
      let (r, reads') := strstrLoop m s2 l2 (s1 + 1) (l1 - 1)
      (r, reads ++ reads')
  else (0, [])
termination_by l1.toNat
decreasing_by
  have := l2.2
  bv_omega

/-- `strstr`, with the fuel for its calls of `strlen`. -/
def strstr (m : Memory) (fuel : Nat) (s1 s2 : Word) : Option (Word × List (Word × Word)) := do
  let l2 ← strlenLoop m fuel s2 0
  if h : l2 = 0 then some (s1, [])
  else
    let l1 ← strlenLoop m fuel s1 0
    some (strstrLoop m s2 ⟨l2, h⟩ s1 l1)

/-- The loop of `strncmp`, with the characters left. Characters are signed. -/
def strncmpLoop (m : Memory) : Nat → Word → Word → Word
  | 0, _, _ => 0
  | k + 1, a, b =>
    if m.byte a ≠ m.byte b ∨ m.byte a = 0 then (m.byte a).signExtend 32 - (m.byte b).signExtend 32
    else strncmpLoop m k (a + 1) (b + 1)

/-- `strncmp`. -/
def strncmp (m : Memory) (a b n : Word) : Word := strncmpLoop m n.toNat a b

/-- `strcmp`. -/
def strcmp (m : Memory) (a b : Word) : Word := strncmp m a b 66535

/-! ## Length -/

/-- With fuel for all characters and the terminator, the loop counts the characters. -/
theorem strlenLoop_eq (h : StrAt m a s) {k : Nat} (hk : s.bytes.length < k) (len : Word) :
    strlenLoop m k a len = some (len + strlen s) := by
  induction k generalizing a s len with
  | zero => omega
  | succ k ih =>
    have hhead := h.head
    rcases Nat.eq_zero_or_pos s.bytes.length with hnil | hpos
    · rw [List.getD_eq_default _ _ hnil.le] at hhead
      have hend : ¬m.byte a ≠ 0 := not_not.mpr hhead
      rw [strlenLoop, if_neg hend, strlen, hnil]
      simp
    · have hne : m.byte a ≠ 0 := hhead ▸ s.getD_ne_zero hpos
      have hrest := ih (h.drop hpos) (by simp only [CStr.drop, List.length_drop]; omega) (len + 1)
      rw [strlenLoop, if_pos hne]
      refine hrest.trans (congrArg some ?_)
      simp only [strlen, CStr.drop, List.length_drop]
      bv_omega

/-! ## Comparison of bytes -/

/-- A comparison reads its ranges only. -/
theorem memcmp_reads (m : Memory) (s1 s2 n : Word) :
    ∀ p ∈ (memcmp m s1 s2 n).2, ∃ i < n.toNat, p = sameIndex s1 s2 i := by
  rw [memcmp]
  induction n.toNat generalizing s1 s2 with
  | zero => simp [memcmpLoop]
  | succ k ih =>
    have hfirst : ∃ i < k + 1, (s1, s2) = sameIndex s1 s2 i := ⟨0, by omega, by simp [sameIndex]⟩
    rw [memcmpLoop]
    dsimp only
    split_ifs with hret
    · simpa using hfirst
    · refine List.forall_mem_cons.mpr ⟨hfirst, fun p hp => ?_⟩
      obtain ⟨i, hi, rfl⟩ := ih (s1 + 1) (s2 + 1) p hp
      refine ⟨i + 1, by omega, ?_⟩
      have hassoc (a : Word) : a + 1 + .ofNat 32 i = a + .ofNat 32 (i + 1) := by bv_omega
      exact Prod.ext (hassoc s1) (hassoc s2)

/-- A comparison gives 0 when all bytes agree. -/
theorem memcmp_eq_zero_iff (m : Memory) (s1 s2 n : Word) :
    (memcmp m s1 s2 n).1 = 0 ↔
      ∀ i < n.toNat, m.byte (s1 + .ofNat 32 i) = m.byte (s2 + .ofNat 32 i) := by
  rw [memcmp]
  induction n.toNat generalizing s1 s2 with
  | zero => simp [memcmpLoop]
  | succ k ih =>
    have hsub : m.byte (s1 + .ofNat 32 0) = m.byte (s2 + .ofNat 32 0) ↔
        (m.byte s1).setWidth 32 - (m.byte s2).setWidth 32 = (0 : Word) := by
      rw [BitVec.ofNat_eq_ofNat, BitVec.add_zero, BitVec.add_zero, ← BitVec.toNat_inj,
        ← BitVec.toNat_inj]
      bv_omega
    have hassoc (a : Word) (i : Nat) : a + .ofNat 32 (i + 1) = a + 1 + .ofNat 32 i := by bv_omega
    rw [Nat.forall_lt_succ_left, memcmpLoop]
    simp only [hassoc]
    rw [hsub, ← ih]
    split_ifs with hret
    · exact iff_of_false hret fun h => hret h.1
    · exact (and_iff_right (not_not.mp hret)).symm

/-- For strings, the first of them no shorter, it is a test for a prefix. -/
theorem memcmp_eq_zero_iff_prefix (hs : StrAt m a s) (ht : StrAt m b t)
    (hle : t.bytes.length ≤ s.bytes.length) :
    (memcmp m a b (strlen t)).1 = 0 ↔ t.bytes <+: s.bytes := by
  rw [memcmp_eq_zero_iff, ht.toNat_length, List.prefix_iff_getElem]
  have hbyte (i : Nat) (hi : i < t.bytes.length) :
      m.byte (a + .ofNat 32 i) = m.byte (b + .ofNat 32 i) ↔ t.bytes[i] = s.bytes[i] := by
    rw [hs i (by omega), ht i hi.le, List.getD_eq_getElem, List.getD_eq_getElem]
    exact eq_comm
  constructor
  · intro h
    exact ⟨hle, fun i hi => (hbyte i hi).mp (h i hi)⟩
  · rintro ⟨_, h⟩ i hi
    exact (hbyte i hi).mpr (h i hi)

/-! ## Letters -/

/-- A string of letters. -/
def letters (n : Nat) : CStr where
  bytes := List.replicate n (chr 'a')
  nonzero c hc := by
    rw [List.eq_of_mem_replicate hc]
    decide

/-- A memory of letters up to a terminator at `0x20000`. -/
def lettersMem : Memory := ⟨fun x => if x = 0x20000 then 0 else chr 'a', []⟩

/-- The last letters before the terminator are a string. -/
theorem strAt_letters {n : Nat} (h : n ≤ 0x20000) :
    StrAt lettersMem (.ofNat 32 (0x20000 - n)) (letters n) := by
  intro i hi
  simp only [letters, List.length_replicate] at hi ⊢
  by_cases hend : i = n
  · have haddr : BitVec.ofNat 32 (0x20000 - n) + .ofNat 32 i = 0x20000 := by bv_omega
    rw [List.getD_eq_default _ _ (by simp [hend])]
    exact if_pos haddr
  · have haddr : BitVec.ofNat 32 (0x20000 - n) + .ofNat 32 i ≠ 0x20000 := by bv_omega
    rw [List.getD_replicate _ (by omega)]
    exact if_neg haddr

/-! ## Search -/

/-- `r` is the pointer to the first place of `a`, which starts at `p`, from which `b` goes
on, and null if there is no such place. -/
def FirstAt (p : Word) (a b : List Byte) (r : Word) : Prop :=
  (∃ i, b <+: a.drop i ∧ (∀ j < i, ¬b <+: a.drop j) ∧ r = p + .ofNat 32 i) ∨
    (∀ i, ¬b <+: a.drop i) ∧ r = 0

/-- A place that does not fit leaves the search to the rest. -/
theorem FirstAt.of_drop {p r : Word} {a b : List Byte} (hne : ¬b <+: a)
    (h : FirstAt (p + 1) (a.drop 1) b r) : FirstAt p a b r := by
  have hdrop (i : Nat) : (a.drop 1).drop i = a.drop (i + 1) := by
    rw [List.drop_drop, Nat.add_comm]
  simp only [FirstAt, hdrop] at h ⊢
  rcases h with ⟨i, hi, hbefore, rfl⟩ | ⟨hnone, rfl⟩
  · refine .inl ⟨i + 1, hi, fun j hj => ?_, by bv_omega⟩
    cases j with
    | zero => simpa using hne
    | succ j => exact hbefore j (by omega)
  · refine .inr ⟨fun i => ?_, rfl⟩
    cases i with
    | zero => simpa using hne
    | succ i => exact hnone i

/-- A string longer than the rest is nowhere in it. -/
theorem FirstAt.of_length_lt {p : Word} {a b : List Byte} (h : a.length < b.length) :
    FirstAt p a b 0 := by
  refine .inr ⟨fun i hi => ?_, rfl⟩
  have hlen := hi.length_le
  rw [List.length_drop] at hlen
  omega

/-- The two addresses lie in the strings or at their terminators. -/
def InStrings (a b : Word) (s t : CStr) (p : Word × Word) : Prop :=
  p.1 ∈ span a (s.bytes.length + 1) ∧ p.2 ∈ span b (t.bytes.length + 1)

/-- The comparisons at one place stay in the strings. -/
theorem memcmp_inStrings (hs : StrAt m a s) (ht : StrAt m b t)
    (hle : t.bytes.length ≤ s.bytes.length) :
    ∀ p ∈ (memcmp m a b (strlen t)).2, InStrings a b s t p := by
  intro p hp
  obtain ⟨i, hi, rfl⟩ := memcmp_reads m a b (strlen t) p hp
  rw [ht.toNat_length] at hi
  have := hs.length_lt
  simp only [InStrings, sameIndex, mem_span]
  constructor <;> bv_omega

/-- The loop finds the first place, and reads inside the strings. -/
theorem strstrLoop_first (hs : StrAt m a s) (ht : StrAt m b t) {l2 : PosLength}
    (hl2 : l2.1 = strlen t) :
    FirstAt a s.bytes t.bytes (strstrLoop m b l2 a (strlen s)).1 ∧
      ∀ p ∈ (strstrLoop m b l2 a (strlen s)).2, InStrings a b s t p := by
  induction hn : s.bytes.length generalizing a s with
  | zero =>
    have hpos : t.bytes.length ≠ 0 := by
      intro h0
      refine l2.2 (hl2.trans ?_)
      simp [strlen, h0]
    have hlt : ¬l2.1 ≤ strlen s := by
      rw [hl2, BitVec.le_def, hs.toNat_length, ht.toNat_length]
      omega
    rw [strstrLoop, if_neg hlt]
    exact ⟨.of_length_lt (by omega), by simp⟩
  | succ n ih =>
    have hcmp : l2.1 ≤ strlen s ↔ t.bytes.length ≤ s.bytes.length := by
      rw [hl2, BitVec.le_def, hs.toNat_length, ht.toNat_length]
    rw [strstrLoop]
    by_cases hle : l2.1 ≤ strlen s
    · rw [if_pos hle]
      have hfit := hcmp.mp hle
      have hreads := memcmp_inStrings hs ht hfit
      have hprefix := memcmp_eq_zero_iff_prefix hs ht hfit
      dsimp only
      rw [hl2]
      by_cases hret : (memcmp m a b (strlen t)).1 = 0
      · rw [if_pos hret]
        exact ⟨.inl ⟨0, hprefix.mp hret, by simp, by simp⟩, hreads⟩
      · rw [if_neg hret]
        have hlen : (s.drop 1).bytes.length = n := by
          simp only [CStr.drop, List.length_drop]
          omega
        have hl1 : strlen s - 1 = strlen (s.drop 1) := by
          rw [strlen, strlen, hlen, hn]
          bv_omega
        have hrest : StrAt m (a + 1) (s.drop 1) := hs.drop (i := 1) (by omega)
        obtain ⟨hfirst, hreads'⟩ := ih hrest hlen
        rw [hl1]
        refine ⟨hfirst.of_drop (mt hprefix.mpr hret), fun p hp => ?_⟩
        rcases List.mem_append.mp hp with hp | hp
        · exact hreads p hp
        · have hlong := hs.length_lt
          obtain ⟨hp1, hp2⟩ := hreads' p hp
          refine ⟨?_, hp2⟩
          rw [hlen, mem_span] at hp1
          rw [mem_span]
          bv_omega
    · have hlt := mt hcmp.mpr hle
      rw [if_neg hle]
      exact ⟨.of_length_lt (by omega), by simp⟩

/-- `strstr` ends, and gives the pointer to the first occurrence of the second string in
the first one, or null without one. None of its comparisons reads beyond a terminator. -/
theorem strstr_first (hs : StrAt m a s) (ht : StrAt m b t) :
    ∃ r reads, (∃ k, ∀ fuel ≥ k, strstr m fuel a b = some (r, reads)) ∧
      FirstAt a s.bytes t.bytes r ∧ ∀ p ∈ reads, InStrings a b s t p := by
  obtain ⟨k, hlen⟩ : ∃ k, ∀ fuel ≥ k,
      strlenLoop m fuel a 0 = some (strlen s) ∧ strlenLoop m fuel b 0 = some (strlen t) := by
    refine ⟨max s.bytes.length t.bytes.length + 1, fun fuel hfuel => ?_⟩
    rw [strlenLoop_eq hs (by omega), strlenLoop_eq ht (by omega)]
    exact ⟨congrArg some (BitVec.zero_add _), congrArg some (BitVec.zero_add _)⟩
  by_cases h0 : strlen t = 0
  · have hnil : t.bytes = [] := by
      rw [← List.length_eq_zero_iff, ← ht.toNat_length, h0]
      rfl
    refine ⟨a, [], ⟨k, fun fuel hfuel => ?_⟩, .inl ⟨0, ?_, by simp, by simp⟩, by simp⟩
    · rw [strstr, (hlen fuel hfuel).2]
      exact dif_pos h0
    · rw [hnil]
      exact List.nil_prefix
  · have hl2 : (⟨strlen t, h0⟩ : PosLength).1 = strlen t := rfl
    obtain ⟨hfirst, hreads⟩ := strstrLoop_first hs ht hl2
    refine ⟨_, _, ⟨k, fun fuel hfuel => ?_⟩, hfirst, hreads⟩
    rw [strstr, (hlen fuel hfuel).1, (hlen fuel hfuel).2]
    exact dif_neg h0

/-- A search for three letters among five. -/
theorem strstr_first_letters :
    ∃ r reads, (∃ k, ∀ fuel ≥ k, strstr lettersMem fuel 0x1fffb 0x1fffd = some (r, reads)) ∧
      FirstAt 0x1fffb (letters 5).bytes (letters 3).bytes r ∧
        ∀ p ∈ reads, InStrings 0x1fffb 0x1fffd (letters 5) (letters 3) p :=
  strstr_first (strAt_letters (n := 5) (by decide)) (strAt_letters (n := 3) (by decide))

/-! ## Comparison of strings -/

/-- Exchanging the arguments changes the sign. -/
theorem strncmpLoop_swap (m : Memory) (k : Nat) (a b : Word) :
    strncmpLoop m k b a = -strncmpLoop m k a b := by
  induction k generalizing a b with
  | zero => simp [strncmpLoop]
  | succ k ih =>
    have hstop : (m.byte b ≠ m.byte a ∨ m.byte b = 0) ↔ (m.byte a ≠ m.byte b ∨ m.byte a = 0) := by
      by_cases heq : m.byte a = m.byte b
      · simp [heq]
      · exact iff_of_true (.inl (Ne.symm heq)) (.inl heq)
    simp only [strncmpLoop, hstop]
    split_ifs
    · rw [BitVec.neg_sub, BitVec.add_comm, BitVec.sub_eq_add_neg]
    · exact ih _ _

/-- The difference of two characters is far from overflow. -/
theorem natAbs_strncmpLoop (m : Memory) (k : Nat) (a b : Word) :
    (strncmpLoop m k a b).toInt.natAbs < 2 ^ 31 := by
  induction k generalizing a b with
  | zero => simp [strncmpLoop]
  | succ k ih =>
    rw [strncmpLoop]
    split_ifs
    · generalize m.byte a = x
      generalize m.byte b = y
      rw [BitVec.toInt_sub, BitVec.toInt_signExtend_of_le (by decide),
        BitVec.toInt_signExtend_of_le (by decide)]
      have hx := x.toInt_lt
      have hx' := x.le_toInt
      have hy := y.toInt_lt
      have hy' := y.le_toInt
      rw [Int.bmod_eq_of_le (by omega) (by omega)]
      omega
    · exact ih _ _

/-- The loop finds no difference when the strings agree as far as it looks. -/
theorem strncmpLoop_eq_zero_iff (hs : StrAt m a s) (ht : StrAt m b t) (k : Nat) :
    strncmpLoop m k a b = 0 ↔ s.bytes.take k = t.bytes.take k := by
  induction k generalizing a b s t with
  | zero => simp [strncmpLoop]
  | succ k ih =>
    have hheads : s.bytes.take (k + 1) = t.bytes.take (k + 1) → m.byte a = m.byte b := by
      intro htake
      have hfirst := congrArg (·.getD 0 0) htake
      simpa [List.getD_eq_getElem?_getD, hs.head, ht.head] using hfirst
    rw [strncmpLoop]
    by_cases heq : m.byte a = m.byte b
    · by_cases hz : m.byte a = 0
      · have hempty {c : Word} {u : CStr} (hu : StrAt m c u) (hc : m.byte c = 0) :
            u.bytes = [] := by
          by_contra hne
          exact u.getD_ne_zero (List.length_pos_iff.mpr hne) (hu.head.symm.trans hc)
        rw [if_pos (.inr hz), heq, hempty hs hz, hempty ht (heq ▸ hz)]
        simp
      · have hcons {c : Word} {u : CStr} (hu : StrAt m c u) (hc : m.byte c ≠ 0) :
            0 < u.bytes.length ∧ u.bytes = m.byte c :: (u.drop 1).bytes := by
          rw [hu.head] at hc ⊢
          cases hb : u.bytes with
          | nil => simp [hb] at hc
          | cons d ds => simp [CStr.drop, hb]
        obtain ⟨hs0, hs1⟩ := hcons hs hz
        obtain ⟨ht0, ht1⟩ := hcons ht (heq ▸ hz)
        have hrest := ih (hs.drop (i := 1) hs0) (ht.drop (i := 1) ht0)
        have hgo : ¬(m.byte a ≠ m.byte b ∨ m.byte a = 0) := not_or.mpr ⟨not_not.mpr heq, hz⟩
        rw [if_neg hgo, hs1, ht1, List.take_succ_cons, List.take_succ_cons, heq,
          List.cons_inj_right]
        exact hrest
    · rw [if_pos (.inl heq)]
      refine iff_of_false (fun hsub => heq ?_) (mt hheads heq)
      have hext : (m.byte a).signExtend 32 = (m.byte b).signExtend 32 := by bv_omega
      have hint := congrArg BitVec.toInt hext
      rw [BitVec.toInt_signExtend_of_le (by decide), BitVec.toInt_signExtend_of_le (by decide)]
        at hint
      exact BitVec.toInt_inj.mp hint

/-- The verdict of `strcmp` on two strings: 0 exactly when they are the same, and opposite
signs for the two orders of its arguments otherwise. -/
structure StrcmpDecides (m : Memory) (a b : Word) (s t : CStr) : Prop where
  zero_iff : strcmp m a b = 0 ↔ s.bytes = t.bytes
  opposite : s.bytes ≠ t.bytes →
    ((strcmp m a b).toInt < 0 ∧ 0 < (strcmp m b a).toInt) ∨
      (0 < (strcmp m a b).toInt ∧ (strcmp m b a).toInt < 0)

/-- `strcmp` sees no more than the first 66535 characters. -/
theorem strcmp_eq_zero_iff (hs : StrAt m a s) (ht : StrAt m b t) :
    strcmp m a b = 0 ↔ s.bytes.take 66535 = t.bytes.take 66535 := by
  have hbound : (66535 : Word).toNat = 66535 := by decide
  rw [strcmp, strncmp, hbound]
  exact strncmpLoop_eq_zero_iff hs ht 66535

/-- A result other than 0 changes its sign with the order of the arguments. -/
theorem strcmp_opposite (h : strcmp m a b ≠ 0) :
    ((strcmp m a b).toInt < 0 ∧ 0 < (strcmp m b a).toInt) ∨
      (0 < (strcmp m a b).toInt ∧ (strcmp m b a).toInt < 0) := by
  have hswap : strcmp m b a = -strcmp m a b := strncmpLoop_swap m _ a b
  have hsmall : (strcmp m a b).toInt.natAbs < 2 ^ 31 := natAbs_strncmpLoop m _ a b
  have hne : (strcmp m a b).toInt ≠ 0 := fun h0 => h (BitVec.toInt_inj.mp h0)
  rw [hswap, BitVec.toInt_neg, Int.bmod_eq_of_le (by omega) (by omega)]
  omega

/-- `strcmp` decides the equality of two strings exactly when they are the same or differ
in the first 66535 characters. -/
theorem strcmp_decides_iff (hs : StrAt m a s) (ht : StrAt m b t) :
    StrcmpDecides m a b s t ↔
      s.bytes = t.bytes ∨ s.bytes.take 66535 ≠ t.bytes.take 66535 := by
  have hzero := strcmp_eq_zero_iff hs ht
  constructor
  · intro h
    by_cases heq : s.bytes = t.bytes
    · exact .inl heq
    · exact .inr fun htake => heq (h.zero_iff.mp (hzero.mpr htake))
  · rintro (heq | hne)
    · exact ⟨iff_of_true (hzero.mpr (by rw [heq])) heq, fun h => absurd heq h⟩
    · have hdiff : s.bytes ≠ t.bytes := fun h => hne (by rw [h])
      have hret : strcmp m a b ≠ 0 := mt hzero.mp hne
      exact ⟨iff_of_false hret hdiff, fun _ => strcmp_opposite hret⟩

/-- It decides for five letters and three. -/
theorem strcmp_decides_letters :
    StrcmpDecides lettersMem 0x1fffb 0x1fffd (letters 5) (letters 3) ↔
      (letters 5).bytes = (letters 3).bytes ∨
        (letters 5).bytes.take 66535 ≠ (letters 3).bytes.take 66535 :=
  strcmp_decides_iff (strAt_letters (n := 5) (by decide)) (strAt_letters (n := 3) (by decide))

/-- It takes 66535 letters and 66536 letters for the same string. -/
theorem strcmp_long_letters :
    StrAt lettersMem 0xfc19 (letters 66535) ∧ StrAt lettersMem 0xfc18 (letters 66536) ∧
      ¬StrcmpDecides lettersMem 0xfc19 0xfc18 (letters 66535) (letters 66536) := by
  have hs : StrAt lettersMem 0xfc19 (letters 66535) := strAt_letters (n := 66535) (by decide)
  have ht : StrAt lettersMem 0xfc18 (letters 66536) := strAt_letters (n := 66536) (by decide)
  refine ⟨hs, ht, fun h => ?_⟩
  have htake : (letters 66535).bytes.take 66535 = (letters 66536).bytes.take 66535 := by
    rw [letters, letters, List.take_replicate, List.take_replicate]
    rfl
  have hsame := h.zero_iff.mp ((strcmp_eq_zero_iff hs ht).mpr htake)
  have hlen := congrArg List.length hsame
  rw [letters, letters, List.length_replicate, List.length_replicate] at hlen
  omega

end DmfOs
