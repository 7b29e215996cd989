import DmfOs.Core.Memory

/-!
# Block memory routines

The routines of `string.c` over whole ranges of memory. A `for` loop with a
known number of iterations recurses on the iterations left.
-/

namespace DmfOs

open Memory

/-- The loop of `memset` from index `i` on, with the given number of bytes left. -/
def memsetLoop (s : Word) (c : Byte) : Nat → Word → Memory → Memory
  | 0, _, m => m
  | k + 1, i, m => memsetLoop s c k (i + 1) (m.storeByte (s + i) c)

/-- `memset`. -/
def memset (s : Word) (c : Byte) (n : Word) (m : Memory) : Memory := memsetLoop s c n.toNat 0 m

/-- The loop writes the bytes that are left, and only those. -/
theorem memsetLoop_writesIn (s : Word) (c : Byte) {n k : Nat} {i : Word} (m : Memory)
    (hk : i.toNat + k ≤ n) :
    WritesIn (span s n) m (memsetLoop s c k i m) := by
  induction k generalizing i m with
  | zero => exact .refl _ _
  | succ k ih =>
    have hin : s + i ∈ span s n := by
      rw [mem_span]
      bv_omega
    have hnext : (i + 1).toNat + k ≤ n := by bv_omega
    exact (writesIn_storeByte_of_mem m c hin).trans (ih _ hnext)

/-- The loop stores `c` from index `i` on. -/
theorem memsetLoop_byte (s : Word) (c : Byte) {k : Nat} {i : Word} (m : Memory)
    (hk : i.toNat + k ≤ 2 ^ 32) (x : Word) :
    (memsetLoop s c k i m).byte x =
      if i.toNat ≤ (x - s).toNat ∧ (x - s).toNat < i.toNat + k then c else m.byte x := by
  induction k generalizing i m with
  | zero => rw [memsetLoop, if_neg (by omega)]
  | succ k ih =>
    have hx : x = s + i ↔ (x - s).toNat = i.toNat := by
      constructor
      · rintro rfl
        congr 1
        bv_omega
      · intro he
        bv_omega
    rw [memsetLoop, ih _ (by bv_omega), storeByte]
    simp only [hx]
    -- the index after the last byte may wrap to 0, but then no byte is left
    have hi : (i + 1).toNat = i.toNat + 1 ∨ k = 0 := by bv_omega
    split_ifs
    all_goals first | rfl | omega

/-- `memset` fills its range. -/
theorem memset_byte {s x : Word} (c : Byte) {n : Word} (m : Memory)
    (hx : x ∈ span s n.toNat) : (memset s c n m).byte x = c := by
  rw [memset, memsetLoop_byte s c m (by simpa using n.isLt.le), if_pos]
  simpa [mem_span] using hx

/-- `memset` writes its range only. -/
theorem memset_writesIn (s : Word) (c : Byte) (n : Word) (m : Memory) :
    WritesIn (span s n.toNat) m (memset s c n m) :=
  memsetLoop_writesIn s c m (by simp)

/-! ## Copies one after the other -/

/-- Bytes copied in the order of the list, each to the first address of its pair. -/
def copyEach : List (Word × Word) → Memory → Memory
  | [], m => m
  | p :: ps, m => copyEach ps (m.storeByte p.1 (m.byte p.2))

/-- No byte that is written is read or written again later. -/
def ReadsFirst (ps : List (Word × Word)) : Prop := ps.Pairwise fun p q => p.1 ≠ q.1 ∧ p.1 ≠ q.2

/-- Copies write their targets, and nothing else. -/
theorem copyEach_writesIn {S : Set Word} {ps : List (Word × Word)} (h : ∀ p ∈ ps, p.1 ∈ S)
    (m : Memory) : WritesIn S m (copyEach ps m) := by
  induction ps generalizing m with
  | nil => exact .refl _ _
  | cons p ps ih =>
    rw [List.forall_mem_cons] at h
    have hfirst : ({p.1} : Set Word) ⊆ S := Set.singleton_subset_iff.mpr h.1
    exact ((writesIn_storeByte m p.1 _).mono hfirst).trans (ih h.2 _)

/-- Copies in such an order are as good as a copy of all bytes at once. -/
theorem copyEach_byte {ps : List (Word × Word)} (h : ReadsFirst ps) (m : Memory) :
    ∀ p ∈ ps, (copyEach ps m).byte p.1 = m.byte p.2 := by
  induction ps generalizing m with
  | nil => simp
  | cons p ps ih =>
    obtain ⟨hp, hps⟩ := List.pairwise_cons.mp h
    intro q hq
    rcases List.mem_cons.mp hq with rfl | hq
    · have hkeep := (copyEach_writesIn (S := {x | x ≠ q.1}) (fun r hr => (hp r hr).1.symm)
        (m.storeByte q.1 (m.byte q.2))).kept q.1 (by simp)
      rw [copyEach, hkeep, storeByte_byte_self]
    · rw [copyEach, ih hps _ q hq, storeByte_byte_ne m _ (hp q hq).2.symm]

/-- The bytes at the same index of two ranges. -/
def sameIndex (dest src : Word) (i : Nat) : Word × Word := (dest + .ofNat 32 i, src + .ofNat 32 i)

/-- The loop of `memmove` that moves up, with the bytes left. -/
def moveUp : Nat → Word → Word → Memory → Memory
  | 0, _, _, m => m
  | k + 1, d, s, m => moveUp k (d + 1) (s + 1) (m.storeByte d (m.byte s))

/-- The loop of `memmove` that moves down, with the bytes left. -/
def moveDown : Nat → Word → Word → Memory → Memory
  | 0, _, _, m => m
  | k + 1, d, s, m => moveDown k (d - 1) (s - 1) (m.storeByte (d - 1) (m.byte (s - 1)))

/-- `memmove`. -/
def memmove (dest src n : Word) (m : Memory) : Memory :=
  if dest ≤ src then moveUp n.toNat dest src m
  else moveDown n.toNat (dest + n) (src + n) m

/-- Moving up copies from the first index on. -/
theorem moveUp_eq (k : Nat) (d s : Word) (m : Memory) :
    moveUp k d s m = copyEach ((List.range k).map (sameIndex d s)) m := by
  induction k generalizing d s m with
  | zero => rfl
  | succ k ih =>
    have hnext : sameIndex d s ∘ Nat.succ = sameIndex (d + 1) (s + 1) := by
      have hassoc (a : Word) (i : Nat) : a + .ofNat 32 (i + 1) = a + 1 + .ofNat 32 i := by bv_omega
      funext i
      exact Prod.ext (hassoc d i) (hassoc s i)
    rw [List.range_succ_eq_map, List.map_cons, List.map_map, hnext, moveUp, ih, copyEach]
    simp [sameIndex]

/-- Moving down copies from the last index on. -/
theorem moveDown_eq (k : Nat) (d s : Word) (m : Memory) :
    moveDown k (d + .ofNat 32 k) (s + .ofNat 32 k) m =
      copyEach ((List.range k).reverse.map (sameIndex d s)) m := by
  induction k generalizing m with
  | zero => rfl
  | succ k ih =>
    have hlast (a : Word) : a + .ofNat 32 (k + 1) - 1 = a + .ofNat 32 k := by bv_omega
    rw [List.range_succ, List.reverse_append, List.reverse_singleton, List.singleton_append,
      List.map_cons, copyEach, ← ih, moveDown, hlast, hlast]
    rfl

/-- For ranges that do not wrap, the direction is chosen so that `memmove` reads every
byte before it is overwritten. -/
theorem memmove_eq_copyEach {dest src n : Word} (hdest : dest.toNat + n.toNat ≤ 2 ^ 32)
    (hsrc : src.toNat + n.toNat ≤ 2 ^ 32) (m : Memory) :
    ∃ is : List Nat, (∀ i, i ∈ is ↔ i < n.toNat) ∧ ReadsFirst (is.map (sameIndex dest src)) ∧
      memmove dest src n m = copyEach (is.map (sameIndex dest src)) m := by
  have hlt (i : Nat) (hi : i ∈ List.range n.toNat) : i < n.toNat := List.mem_range.mp hi
  by_cases hup : dest ≤ src
  · refine ⟨List.range n.toNat, fun i => List.mem_range, ?_, by
      rw [memmove, if_pos hup, moveUp_eq]⟩
    refine List.pairwise_map.mpr (List.pairwise_lt_range.imp_of_mem ?_)
    intro i j hi hj hij
    have := hlt i hi
    have := hlt j hj
    simp only [sameIndex]
    constructor <;> bv_omega
  · refine ⟨(List.range n.toNat).reverse, fun i => List.mem_reverse.trans List.mem_range, ?_, by
      rw [memmove, if_neg hup, ← moveDown_eq, BitVec.ofNat_toNat, BitVec.setWidth_eq]⟩
    refine List.pairwise_map.mpr (List.pairwise_reverse.mpr (List.pairwise_lt_range.imp_of_mem ?_))
    intro i j hi hj hij
    have := hlt i hi
    have := hlt j hj
    simp only [sameIndex]
    constructor <;> bv_omega

/-- `memmove` copies correctly for every overlap of ranges that do not wrap: its target
gets the bytes that were in the source before, and nothing else is written. -/
theorem memmove_copies {dest src n : Word} (hdest : dest.toNat + n.toNat ≤ 2 ^ 32)
    (hsrc : src.toNat + n.toNat ≤ 2 ^ 32) (m : Memory) :
    (∀ i < n.toNat,
      (memmove dest src n m).byte (dest + .ofNat 32 i) = m.byte (src + .ofNat 32 i)) ∧
      WritesIn (span dest n.toNat) m (memmove dest src n m) := by
  obtain ⟨is, hmem, horder, heq⟩ := memmove_eq_copyEach hdest hsrc m
  rw [heq]
  constructor
  · intro i hi
    exact copyEach_byte horder m (sameIndex dest src i)
      (List.mem_map.mpr ⟨i, (hmem i).mpr hi, rfl⟩)
  · refine copyEach_writesIn (fun p hp => ?_) m
    obtain ⟨i, hi, rfl⟩ := List.mem_map.mp hp
    have hlt := (hmem i).mp hi
    rw [sameIndex, mem_span]
    bv_omega

/-- Ten bytes are moved up by three. -/
theorem memmove_copies_overlap :
    let m : Memory := ⟨fun a => a.setWidth 8, []⟩
    (∀ i < 10, (memmove 0x1003 0x1000 10 m).byte (0x1003 + .ofNat 32 i) =
      m.byte (0x1000 + .ofNat 32 i)) ∧
      WritesIn (span 0x1003 10) m (memmove 0x1003 0x1000 10 m) := by
  intro m
  have hdest : (0x1003 : Word).toNat + (10 : Word).toNat ≤ 2 ^ 32 := by decide
  have hsrc : (0x1000 : Word).toNat + (10 : Word).toNat ≤ 2 ^ 32 := by decide
  exact memmove_copies hdest hsrc m

end DmfOs
