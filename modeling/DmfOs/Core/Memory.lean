import DmfOs.Core.Align
import Mathlib.Data.Set.Lattice
import Mathlib.Order.CompletePartialOrder

/-!
# Byte-addressed memory with a store trace

A 32-bit address space of bytes, accessed bytewise or as little-endian words.
The memory remembers the addresses stored to, so two memories are equal only
when nothing was stored between them. `WritesIn` is the frame relation: every
store between two memories hits a given set, and all other bytes are kept.
-/

namespace DmfOs

/-- One byte of memory. -/
abbrev Byte := BitVec 8

/-- Contents of the address space and the addresses stored to, latest first. -/
structure Memory where
  /-- The byte at each address. -/
  byte : Word → Byte
  /-- Every store executed so far; it is only read by specifications. -/
  stores : List Word

namespace Memory

/-- Store one byte. -/
def storeByte (m : Memory) (a : Word) (v : Byte) : Memory :=
  ⟨fun x => if x = a then v else m.byte x, a :: m.stores⟩

/-- Load a little-endian word. -/
def load32 (m : Memory) (a : Word) : Word :=
  m.byte (a + 3) ++ m.byte (a + 2) ++ m.byte (a + 1) ++ m.byte a

/-- Load a little-endian half word. -/
def load16 (m : Memory) (a : Word) : BitVec 16 := m.byte (a + 1) ++ m.byte a

/-- The bytes from an address on. -/
def slice (m : Memory) (a : Word) (n : Nat) : List Byte :=
  (List.range n).map fun i => m.byte (a + .ofNat 32 i)

/-- Store a little-endian word. -/
def store32 (m : Memory) (a v : Word) : Memory :=
  (((m.storeByte a (v.extractLsb' 0 8)).storeByte (a + 1) (v.extractLsb' 8 8)).storeByte
    (a + 2) (v.extractLsb' 16 8)).storeByte (a + 3) (v.extractLsb' 24 8)

/-- Store a little-endian half word. -/
def store16 (m : Memory) (a : Word) (v : BitVec 16) : Memory :=
  (m.storeByte a (v.extractLsb' 0 8)).storeByte (a + 1) (v.extractLsb' 8 8)

/-- Store bytes one after the other. -/
def storeBytes (m : Memory) (a : Word) : List Byte → Memory
  | [] => m
  | c :: cs => (m.storeByte a c).storeBytes (a + 1) cs

@[simp] theorem storeByte_byte_self (m : Memory) (a : Word) (v : Byte) :
    (m.storeByte a v).byte a = v := if_pos rfl

theorem storeByte_byte_ne (m : Memory) {a x : Word} (v : Byte) (h : x ≠ a) :
    (m.storeByte a v).byte x = m.byte x := if_neg h

/-- A byte and the bits behind it. -/
theorem append_byte {w n i j : Nat} (v : BitVec w) (h : j = i + 8) :
    v.extractLsb' j n ++ v.extractLsb' i 8 = v.extractLsb' i (n + 8) := by
  subst h
  refine BitVec.eq_of_getLsbD_eq fun k hk => ?_
  simp only [BitVec.getLsbD_append, BitVec.getLsbD_extractLsb', hk, decide_true, Bool.true_and]
  split_ifs with hlow
  · simp only [hlow, decide_true, Bool.true_and]
  · rw [decide_eq_true (by omega), Bool.true_and]
    congr 1
    omega

/-- The four bytes of a word, put together again. -/
theorem append_bytes (v : Word) :
    v.extractLsb' 24 8 ++ v.extractLsb' 16 8 ++ v.extractLsb' 8 8 ++ v.extractLsb' 0 8 = v := by
  rw [append_byte v (show 24 = 16 + 8 from rfl), append_byte v (show 16 = 8 + 8 from rfl),
    append_byte v (show 8 = 0 + 8 from rfl)]
  exact BitVec.extractLsb'_eq_self

/-- A stored word is read back. -/
@[simp] theorem load32_store32_self (m : Memory) (a v : Word) : (m.store32 a v).load32 a = v := by
  have h01 : a ≠ a + 1 := by bv_omega
  have h02 : a ≠ a + 2 := by bv_omega
  have h03 : a ≠ a + 3 := by bv_omega
  have h12 : a + 1 ≠ a + 2 := by bv_omega
  have h13 : a + 1 ≠ a + 3 := by bv_omega
  have h23 : a + 2 ≠ a + 3 := by bv_omega
  simp only [load32, store32, storeByte_byte_self, storeByte_byte_ne _ _ h23,
    storeByte_byte_ne _ _ h13, storeByte_byte_ne _ _ h12, storeByte_byte_ne _ _ h03,
    storeByte_byte_ne _ _ h02, storeByte_byte_ne _ _ h01]
  exact append_bytes v

/-- A stored half word is read back. -/
@[simp] theorem load16_store16_self (m : Memory) (a : Word) (v : BitVec 16) :
    (m.store16 a v).load16 a = v := by
  have h01 : a ≠ a + 1 := by bv_omega
  rw [load16, store16, storeByte_byte_self, storeByte_byte_ne _ _ h01, storeByte_byte_self,
    append_byte v (show 8 = 0 + 8 from rfl)]
  exact BitVec.extractLsb'_eq_self

/-- The first byte of a slice. -/
theorem slice_succ (m : Memory) (a : Word) (n : Nat) :
    m.slice a (n + 1) = m.byte a :: m.slice (a + 1) n := by
  rw [slice, List.range_succ_eq_map, List.map_cons, List.map_map, BitVec.ofNat_eq_ofNat,
    BitVec.add_zero]
  refine congrArg (m.byte a :: ·) (List.map_congr_left fun i _ => congrArg m.byte ?_)
  bv_omega

/-- The lower half of a word in memory. -/
theorem load32_setWidth (m : Memory) (a : Word) : (m.load32 a).setWidth 16 = m.load16 a := by
  refine BitVec.eq_of_getLsbD_eq fun i hi => ?_
  simp only [load32, load16, BitVec.getLsbD_setWidth, BitVec.getLsbD_append, hi, decide_true,
    Bool.true_and]
  split_ifs <;> first | rfl | omega

/-- A half word put together from two bytes stores the bytes. -/
theorem store16_append (m : Memory) (a : Word) (c d : Byte) :
    m.store16 a (d ++ c) = (m.storeByte a c).storeByte (a + 1) d := by
  rw [store16, BitVec.extractLsb'_append_eq_right, BitVec.extractLsb'_append_eq_left]

/-- Storing bytes in two parts. -/
theorem storeBytes_append (m : Memory) (a : Word) (cs ds : List Byte) :
    m.storeBytes a (cs ++ ds) = (m.storeBytes a cs).storeBytes (a + .ofNat 32 cs.length) ds := by
  induction cs generalizing m a with
  | nil => rw [List.nil_append, List.length_nil, BitVec.add_zero, storeBytes]
  | cons c cs ih =>
    have hnext : a + 1 + .ofNat 32 cs.length = a + .ofNat 32 (c :: cs).length := by
      rw [List.length_cons]
      bv_omega
    rw [List.cons_append, storeBytes, ih, hnext, storeBytes]

/-! ## Spans -/

/-- The `n` addresses from `a` on, wrapping at the end of the address space. -/
def span (a : Word) (n : Nat) : Set Word := {x | (x - a).toNat < n}

theorem mem_span {a x : Word} {n : Nat} : x ∈ span a n ↔ (x - a).toNat < n := Iff.rfl

/-- A span that does not wrap is an interval. -/
theorem mem_span_iff {a x : Word} {n : Nat} (h : a.toNat + n ≤ 2 ^ 32) :
    x ∈ span a n ↔ a.toNat ≤ x.toNat ∧ x.toNat < a.toNat + n := by
  rw [mem_span]
  bv_omega

theorem span_mono (a : Word) {n k : Nat} (h : n ≤ k) : span a n ⊆ span a k :=
  fun _ hx => lt_of_lt_of_le (mem_span.mp hx) h

/-- The addresses of a span by their offsets. -/
theorem add_mem_span (a : Word) {k n : Nat} (h : k < n) : a + .ofNat 32 k ∈ span a n := by
  rw [mem_span]
  bv_omega

theorem self_mem_span (a : Word) {n : Nat} (h : 0 < n) : a ∈ span a n := by
  rwa [mem_span, BitVec.sub_self]

/-- The part of a span behind an offset. -/
theorem span_add_subset (a : Word) {k n l : Nat} (h : k + n ≤ l) :
    span (a + .ofNat 32 k) n ⊆ span a l := by
  intro x hx
  rw [mem_span] at hx ⊢
  bv_omega

/-- Two spans in order are disjoint. -/
theorem disjoint_span_of_le {a b : Word} {n k : Nat} (h : a.toNat + n ≤ b.toNat)
    (hb : b.toNat + k ≤ 2 ^ 32) : Disjoint (span a n) (span b k) := by
  rw [Set.disjoint_left]
  intro x hx hy
  rw [mem_span_iff (by omega)] at hx
  rw [mem_span_iff hb] at hy
  omega

/-- Distinct word-aligned words share no byte. -/
theorem disjoint_span_words {a b : Word} (ha : a.toNat % 4 = 0) (hb : b.toNat % 4 = 0)
    (hne : a ≠ b) : Disjoint (span a 4) (span b 4) := by
  have hne' : a.toNat ≠ b.toNat := fun he => hne (BitVec.eq_of_toNat_eq he)
  have := a.isLt
  have := b.isLt
  rcases Nat.lt_or_gt_of_ne hne' with h | h
  · exact disjoint_span_of_le (by omega) (by omega)
  · exact (disjoint_span_of_le (by omega) (by omega)).symm

/-! ## The frame relation -/

/-- `m'` comes from `m` by stores into `S` only. -/
structure WritesIn (S : Set Word) (m m' : Memory) : Prop where
  /-- Every new store hits `S`. -/
  trace : ∃ new, m'.stores = new ++ m.stores ∧ ∀ a ∈ new, a ∈ S
  /-- Every byte outside `S` is kept. -/
  kept : ∀ a, a ∉ S → m'.byte a = m.byte a

theorem WritesIn.refl (S : Set Word) (m : Memory) : WritesIn S m m :=
  ⟨⟨[], rfl, by simp⟩, fun _ _ => rfl⟩

theorem WritesIn.trans {S : Set Word} {m₁ m₂ m₃ : Memory} (h : WritesIn S m₁ m₂)
    (h' : WritesIn S m₂ m₃) : WritesIn S m₁ m₃ := by
  obtain ⟨new, he, hn⟩ := h.trace
  obtain ⟨new', he', hn'⟩ := h'.trace
  refine ⟨⟨new' ++ new, by rw [he', he, List.append_assoc], ?_⟩,
    fun a ha => (h'.kept a ha).trans (h.kept a ha)⟩
  intro a ha
  rcases List.mem_append.mp ha with ha | ha
  · exact hn' a ha
  · exact hn a ha

theorem WritesIn.mono {S T : Set Word} {m m' : Memory} (h : WritesIn S m m') (hST : S ⊆ T) :
    WritesIn T m m' := by
  obtain ⟨new, he, hn⟩ := h.trace
  exact ⟨⟨new, he, fun a ha => hST (hn a ha)⟩, fun a ha => h.kept a fun hs => ha (hST hs)⟩

theorem writesIn_storeByte (m : Memory) (a : Word) (v : Byte) :
    WritesIn {a} m (m.storeByte a v) :=
  ⟨⟨[a], rfl, by simp⟩, fun _ hx => storeByte_byte_ne m v hx⟩

/-- A store into a set. -/
theorem writesIn_storeByte_of_mem (m : Memory) {S : Set Word} {a : Word} (v : Byte) (h : a ∈ S) :
    WritesIn S m (m.storeByte a v) :=
  (writesIn_storeByte m a v).mono (Set.singleton_subset_iff.mpr h)

/-- A word store writes its four bytes. -/
theorem writesIn_store32 (m : Memory) (a v : Word) :
    WritesIn (span a 4) m (m.store32 a v) := by
  have hin (k : Nat) (hk : k < 4) (m : Memory) (v : Byte) :
      WritesIn (span a 4) m (m.storeByte (a + .ofNat 32 k) v) :=
    writesIn_storeByte_of_mem m v (add_mem_span a hk)
  exact (((writesIn_storeByte_of_mem m _ (self_mem_span a (by decide))).trans
    (hin 1 (by decide) _ _)).trans (hin 2 (by decide) _ _)).trans (hin 3 (by decide) _ _)

/-- A half word store writes its two bytes. -/
theorem writesIn_store16 (m : Memory) (a : Word) (v : BitVec 16) :
    WritesIn (span a 2) m (m.store16 a v) :=
  (writesIn_storeByte_of_mem m _ (self_mem_span a (by decide))).trans
    (writesIn_storeByte_of_mem _ _ (add_mem_span a (k := 1) (by decide)))

section Rest

variable {m m' : Memory} {a : Word} {v : Byte} {n : Nat}

/-- A store and then stores behind it. -/
theorem WritesIn.of_storeByte (h : WritesIn (span (a + 1) n) (m.storeByte a v) m') :
    WritesIn (span a (n + 1)) m m' :=
  (writesIn_storeByte_of_mem m v (self_mem_span a n.succ_pos)).trans
    (h.mono (span_add_subset a (k := 1) (by omega)))

/-- The first byte is kept by the stores behind it. -/
theorem WritesIn.byte_eq_of_storeByte (h : WritesIn (span (a + 1) n) (m.storeByte a v) m')
    (hn : n < 2 ^ 32) : m'.byte a = v := by
  have hapart : a ∉ span (a + 1) n := by
    rw [mem_span]
    bv_omega
  rw [h.kept a hapart, storeByte_byte_self]

/-- A half word store and then stores behind it. -/
theorem WritesIn.of_store16 {v : BitVec 16}
    (h : WritesIn (span (a + 2) n) (m.store16 a v) m') : WritesIn (span a (n + 2)) m m' :=
  ((writesIn_store16 m a v).mono (span_mono a (by omega))).trans
    (h.mono (span_add_subset a (k := 2) (by omega)))

end Rest

/-- Bytes stored one after the other write their span. -/
theorem writesIn_storeBytes (m : Memory) (a : Word) (cs : List Byte) :
    WritesIn (span a cs.length) m (m.storeBytes a cs) := by
  induction cs generalizing m a with
  | nil => exact .refl _ _
  | cons c cs ih => exact (ih (m.storeByte a c) (a + 1)).of_storeByte

/-- A word apart from all stores is kept. -/
theorem WritesIn.load32_eq {S : Set Word} {m m' : Memory} (h : WritesIn S m m') {a : Word}
    (hd : Disjoint (span a 4) S) : m'.load32 a = m.load32 a := by
  have hin (k : Nat) (hk : k < 4) : m'.byte (a + .ofNat 32 k) = m.byte (a + .ofNat 32 k) :=
    h.kept _ (Set.disjoint_left.mp hd (add_mem_span a hk))
  have h0 : m'.byte a = m.byte a := by simpa using hin 0 (by decide)
  have h1 : m'.byte (a + 1) = m.byte (a + 1) := hin 1 (by decide)
  have h2 : m'.byte (a + 2) = m.byte (a + 2) := hin 2 (by decide)
  have h3 : m'.byte (a + 3) = m.byte (a + 3) := hin 3 (by decide)
  rw [load32, load32, h0, h1, h2, h3]

/-- A half word apart from all stores is kept. -/
theorem WritesIn.load16_eq {S : Set Word} {m m' : Memory} (h : WritesIn S m m') {a : Word}
    (hd : Disjoint (span a 2) S) : m'.load16 a = m.load16 a := by
  have h0 := h.kept a (Set.disjoint_left.mp hd (self_mem_span a (by decide)))
  have h1 : m'.byte (a + 1) = m.byte (a + 1) :=
    h.kept _ (Set.disjoint_left.mp hd (add_mem_span a (k := 1) (by decide)))
  rw [load16, load16, h0, h1]

/-- So is a slice. -/
theorem WritesIn.slice_eq {S : Set Word} {m m' : Memory} (h : WritesIn S m m') {a : Word} {n : Nat}
    (hd : Disjoint (span a n) S) : m'.slice a n = m.slice a n := by
  refine List.map_congr_left fun i hi => h.kept _ (Set.disjoint_left.mp hd ?_)
  exact add_mem_span a (List.mem_range.mp hi)

/-- Stored bytes are read back. -/
theorem slice_storeBytes (m : Memory) (a : Word) {cs : List Byte} (h : cs.length ≤ 2 ^ 32) :
    (m.storeBytes a cs).slice a cs.length = cs := by
  induction cs generalizing m a with
  | nil => rfl
  | cons c cs ih =>
    rw [List.length_cons] at h ⊢
    have hfirst := (writesIn_storeBytes (m.storeByte a c) (a + 1) cs).byte_eq_of_storeByte h
    rw [slice_succ, storeBytes, hfirst, ih _ _ (by omega)]

/-- A word store leaves every other aligned word alone. -/
theorem load32_store32_of_ne (m : Memory) {a x : Word} (v : Word) (ha : a.toNat % 4 = 0)
    (hx : x.toNat % 4 = 0) (hne : x ≠ a) : (m.store32 a v).load32 x = m.load32 x :=
  (writesIn_store32 m a v).load32_eq (disjoint_span_words hx ha hne)

/-- Stores never disappear: a memory after a store differs from the one before. -/
theorem WritesIn.ne_of_storeByte {S : Set Word} {m m' : Memory} {a : Word} {v : Byte}
    (h : WritesIn S (m.storeByte a v) m') : m' ≠ m := by
  obtain ⟨new, he, _⟩ := h.trace
  rintro rfl
  have := congrArg List.length he
  simp only [storeByte, List.length_append, List.length_cons] at this
  omega

end Memory

end DmfOs
