import DmfOs.Mem.Heap.State
import Mathlib.Data.List.Pairwise

/-!
# Block layout

A block is cut from the region that the back end granted for it: the user
pointer is the start of the region moved past two header words and rounded up.
`Block.Placed` says that header and user bytes stay inside the region, and
`Block.Headed` that the header still leads back to it. Both follow for every
request whose padded size does not wrap, whatever back end grants the region.
-/

namespace DmfOs

open Memory

/-- A block of the heap with the request it serves and the region it is cut from. -/
structure Block where
  alignment : Word
  size : Word
  ptr : Word
  start : Word
  granted : Word
  deriving DecidableEq, Repr

namespace Block

variable {B C : Block} {m m' : Memory} {S : Set Word}

/-- The header words. -/
def headerArea (B : Block) : Set Word := span (B.ptr - 8) 8

/-- The bytes of the client. -/
def userArea (B : Block) : Set Word := span B.ptr B.size.toNat

/-- The header words and the bytes of the client, `[p - 8, p + size)`. -/
def area (B : Block) : Set Word := span (B.ptr - 8) (B.size.toNat + 8)

/-- The region granted for the block. -/
def region (B : Block) : Set Word := span B.start B.granted.toNat

/-- The block lies inside its region. -/
structure Placed (B : Block) : Prop where
  aligned : B.alignment.toNat ∣ B.ptr.toNat
  header : B.start.toNat + 8 ≤ B.ptr.toNat
  fits : B.ptr.toNat + B.size.toNat ≤ B.start.toNat + B.granted.toNat
  no_wrap : B.start.toNat + B.granted.toNat ≤ 2 ^ 32

/-- The header in memory leads back to the region. -/
structure Headed (m : Memory) (B : Block) : Prop where
  start_eq : blockBegin m B.ptr = B.start
  granted_eq : blockSize m B.ptr = B.granted

theorem Placed.mem_area (h : B.Placed) {x : Word} :
    x ∈ B.area ↔ B.ptr.toNat - 8 ≤ x.toNat ∧ x.toNat < B.ptr.toNat + B.size.toNat := by
  have := h.header
  have := h.fits
  have := h.no_wrap
  have hptr : (B.ptr - 8).toNat = B.ptr.toNat - 8 := by bv_omega
  rw [area, mem_span_iff (by omega)]
  omega

theorem Placed.mem_region (h : B.Placed) {x : Word} :
    x ∈ B.region ↔ B.start.toNat ≤ x.toNat ∧ x.toNat < B.start.toNat + B.granted.toNat := by
  rw [region, mem_span_iff h.no_wrap]

/-- Header and user bytes lie in the granted region. -/
theorem Placed.area_subset (h : B.Placed) : B.area ⊆ B.region := by
  intro x hx
  rw [h.mem_area] at hx
  rw [h.mem_region]
  have := h.header
  have := h.fits
  omega

theorem headerArea_subset (B : Block) : B.headerArea ⊆ B.area :=
  span_mono _ (Nat.le_add_left 8 _)

theorem Placed.userArea_subset (h : B.Placed) : B.userArea ⊆ B.area := by
  intro x hx
  have := h.header
  have := h.fits
  have := h.no_wrap
  rw [userArea, mem_span_iff (by omega)] at hx
  rw [h.mem_area]
  omega

/-- The client of a block cannot reach its header. -/
theorem Placed.disjoint_header (h : B.Placed) : Disjoint B.headerArea B.userArea := by
  have := h.header
  have := h.fits
  have := h.no_wrap
  have hptr : (B.ptr - 8).toNat = B.ptr.toNat - 8 := by bv_omega
  exact disjoint_span_of_le (by omega) (by omega)

/-- Stores that miss the header keep it. -/
theorem Headed.frame (h : B.Headed m) (hw : WritesIn S m m') (hd : Disjoint B.headerArea S) :
    B.Headed m' := by
  have hslack : span (B.ptr + ofsSlack) 4 ⊆ B.headerArea := by
    intro x hx
    simp only [headerArea, mem_span, ofsSlack] at hx ⊢
    bv_omega
  have hsize : span (B.ptr + ofsSize) 4 ⊆ B.headerArea := by
    intro x hx
    simp only [headerArea, mem_span, ofsSize] at hx ⊢
    bv_omega
  constructor
  · rw [← h.start_eq, blockBegin, blockBegin, hw.load32_eq (hd.mono_left hslack)]
  · rw [← h.granted_eq, blockSize, blockSize, hw.load32_eq (hd.mono_left hsize)]

end Block

/-- Blocks in regions of their own, each with its header in memory. -/
structure LiveBlocks (m : Memory) (L : List Block) : Prop where
  placed : ∀ B ∈ L, B.Placed
  apart : L.Pairwise fun B C => Disjoint B.region C.region
  headed : ∀ B ∈ L, B.Headed m

namespace LiveBlocks

variable {m m' : Memory} {L L' : List Block} {B C : Block} {S : Set Word}

theorem nil (m : Memory) : LiveBlocks m [] := ⟨by simp, .nil, by simp⟩

/-- Two different live blocks have disjoint regions. -/
theorem disjoint_region (h : LiveBlocks m L) (hB : B ∈ L) (hC : C ∈ L) (hne : B ≠ C) :
    Disjoint B.region C.region := by
  have : Std.Symm fun B C : Block => Disjoint B.region C.region := ⟨fun _ _ hd => hd.symm⟩
  exact h.apart.forall hB hC hne

/-- Stores outside all blocks keep them. -/
theorem frame (h : LiveBlocks m L) (hw : WritesIn S m m') (hd : ∀ B ∈ L, Disjoint B.region S) :
    LiveBlocks m' L := by
  refine ⟨h.placed, h.apart, fun B hB => (h.headed B hB).frame hw ?_⟩
  exact (hd B hB).mono_left ((B.headerArea_subset).trans (h.placed B hB).area_subset)

/-- A client that writes into its own user bytes damages no header. -/
theorem write (h : LiveBlocks m L) (hB : B ∈ L) {a : Word} (ha : a ∈ B.userArea) (v : Byte) :
    LiveBlocks (m.storeByte a v) L := by
  refine ⟨h.placed, h.apart, fun C hC => (h.headed C hC).frame (writesIn_storeByte m a v) ?_⟩
  rw [Set.disjoint_singleton_right]
  intro hx
  by_cases hCB : C = B
  · subst hCB
    exact Set.disjoint_left.mp (h.placed C hC).disjoint_header hx ha
  · have hxC := (h.placed C hC).area_subset (C.headerArea_subset hx)
    have hxB := (h.placed B hB).area_subset ((h.placed B hB).userArea_subset ha)
    exact Set.disjoint_left.mp (h.disjoint_region hC hB hCB) hxC hxB

/-- A new block outside all live ones joins them. -/
theorem cons (h : LiveBlocks m L) (hB : B.Placed) (hd : ∀ C ∈ L, Disjoint B.region C.region)
    (hw : WritesIn B.area m m') (hh : B.Headed m') : LiveBlocks m' (B :: L) := by
  have hold : LiveBlocks m' L :=
    h.frame (hw.mono hB.area_subset) fun C hC => (hd C hC).symm
  exact ⟨List.forall_mem_cons.mpr ⟨hB, h.placed⟩, List.pairwise_cons.mpr ⟨hd, h.apart⟩,
    List.forall_mem_cons.mpr ⟨hh, hold.headed⟩⟩

/-- A block leaves, and its region may be written. -/
theorem remove (h : LiveBlocks m L) (hp : L.Perm (B :: L')) (hw : WritesIn B.region m m') :
    LiveBlocks m' L' := by
  have hmem : ∀ C ∈ L', C ∈ L := fun C hC => hp.mem_iff.mpr (List.mem_cons_of_mem B hC)
  have hapart : (B :: L').Pairwise fun B C => Disjoint B.region C.region :=
    hp.pairwise h.apart fun hd => hd.symm
  have hrest : LiveBlocks m L' :=
    ⟨fun C hC => h.placed C (hmem C hC), (List.pairwise_cons.mp hapart).2,
      fun C hC => h.headed C (hmem C hC)⟩
  exact hrest.frame hw fun C hC => ((List.pairwise_cons.mp hapart).1 C hC).symm

end LiveBlocks

namespace Heap

variable {alignment size alignMin q : Word} {h h' : Heap} {m : Memory}

/-! ## Padded sizes -/

/-- The exact user size with the room to align it in. -/
def paddedBytes (alignment size : Word) : Nat :=
  if alignment ≤ 4 then size.toNat else size.toNat + (alignment.toNat - 1)

/-- The exact size asked of a back end with the given minimum alignment. -/
def blockBytes (alignment size alignMin : Word) : Nat :=
  alignUp (paddedBytes alignment size + 8) alignMin.toNat

theorem le_blockBytes (alignment size : Word) (hm : IsPow2 alignMin) :
    paddedBytes alignment size + 8 ≤ blockBytes alignment size alignMin :=
  le_alignUp _ hm.pos

/-- The size asked of the back end is computed modulo `2 ^ 32`. -/
theorem toNat_blkSize_mod (hm : IsPow2 h.alignMin) (alignment size : Word) :
    (h.blkSize alignment size).toNat = blockBytes alignment size h.alignMin % 2 ^ 32 := by
  have hsum : (paddedSize alignment size + metadataExtra).toNat =
      (paddedBytes alignment size + 8) % 2 ^ 32 := by
    simp only [paddedSize, paddedBytes, metadataExtra]
    split_ifs with ha <;> bv_omega
  rw [blkSize, toNat_alignWord hm, hsum, blockBytes]
  exact alignUp_mod _ hm.pos hm.dvd_modulus

/-- A padded size that does not wrap is computed exactly. -/
theorem toNat_blkSize (hm : IsPow2 h.alignMin)
    (hb : blockBytes alignment size h.alignMin < 2 ^ 32) :
    (h.blkSize alignment size).toNat = blockBytes alignment size h.alignMin := by
  rw [toNat_blkSize_mod hm, Nat.mod_eq_of_lt hb]

theorem four_le_userAlign (alignment : Word) : 4 ≤ (userAlign alignment).toNat := by
  rw [userAlign]
  split_ifs with ha
  · exact le_rfl
  · bv_omega

theorem isPow2_userAlign (ha : IsPow2 alignment) : IsPow2 (userAlign alignment) := by
  rw [userAlign]
  split_ifs
  · exact ⟨2, rfl⟩
  · exact ha

/-- A pointer aligned for the heap is aligned as the client asked. -/
theorem dvd_userAlign (ha : IsPow2 alignment) :
    alignment.toNat ∣ (userAlign alignment).toNat := by
  apply ha.dvd_of_le (isPow2_userAlign ha)
  rw [userAlign]
  split_ifs with hle
  · exact hle
  · exact le_rfl

/-- The alignment asked of the back end is a power of two and at least a word. -/
theorem isPow2_blkAlign (ha : IsPow2 alignment) (hm : IsPow2 h.alignMin) :
    IsPow2 (h.blkAlign alignment) ∧ 4 ≤ (h.blkAlign alignment).toNat := by
  have hua := isPow2_userAlign ha
  have hge := four_le_userAlign alignment
  rw [blkAlign, maxMacro]
  split_ifs with hgt
  · exact ⟨hua, hge⟩
  · refine ⟨hm, ?_⟩
    bv_omega

/-! ## Where the block lies -/

/-- The block that a request gets in the region at `q`. -/
def block (h : Heap) (alignment size q : Word) : Block :=
  ⟨alignment, size, userPtr alignment q, q, h.blkSize alignment size⟩

/-- The rounded user pointer leaves room for the user bytes. -/
theorem userBytes_fit (size : Word) (ha : IsPow2 alignment) (hq : 4 ∣ q.toNat)
    (hm : IsPow2 alignMin) :
    alignUp (q.toNat + 8) (userAlign alignment).toNat + size.toNat ≤
      q.toNat + blockBytes alignment size alignMin := by
  have hle := le_blockBytes alignment size hm
  have hlt := alignUp_lt (q.toNat + 8) (isPow2_userAlign ha).pos
  rw [paddedBytes] at hle
  rw [userAlign] at hlt ⊢
  split_ifs at hle hlt ⊢
  · -- no padding was added, and none is used since `q + 8` is already aligned
    rw [alignUp_of_dvd (by decide) (show (4 : Word).toNat ∣ q.toNat + 8 by
      change 4 ∣ q.toNat + 8
      omega)]
    omega
  · omega

/-- The user pointer is the exact rounding modulo `2 ^ 32`. -/
theorem toNat_userPtr (ha : IsPow2 alignment) (q : Word) :
    (userPtr alignment q).toNat =
      alignUp (q.toNat + 8) (userAlign alignment).toNat % 2 ^ 32 := by
  have hua := isPow2_userAlign ha
  have hsum : (q + metadataExtra).toNat = (q.toNat + 8) % 2 ^ 32 := by
    simp only [metadataExtra]
    bv_omega
  rw [userPtr, toNat_alignWord hua, hsum]
  exact alignUp_mod _ hua.pos hua.dvd_modulus

/-- A padded size that does not wrap puts the block inside its region. -/
theorem block_placed (ha : IsPow2 alignment) (hm : IsPow2 h.alignMin)
    (hb : blockBytes alignment size h.alignMin < 2 ^ 32) (hq : 4 ∣ q.toNat)
    (hend : q.toNat + blockBytes alignment size h.alignMin ≤ 2 ^ 32)
    (hptr : alignUp (q.toNat + 8) (userAlign alignment).toNat < 2 ^ 32) :
    (h.block alignment size q).Placed := by
  have hge := le_alignUp (q.toNat + 8) (isPow2_userAlign ha).pos
  have hp : (userPtr alignment q).toNat = alignUp (q.toNat + 8) (userAlign alignment).toNat := by
    rw [toNat_userPtr ha, Nat.mod_eq_of_lt hptr]
  have hsize := toNat_blkSize hm hb
  constructor
  · change alignment.toNat ∣ (userPtr alignment q).toNat
    rw [hp]
    exact (dvd_userAlign ha).trans (dvd_alignUp _ _)
  · change q.toNat + 8 ≤ (userPtr alignment q).toNat
    omega
  · change (userPtr alignment q).toNat + size.toNat ≤ q.toNat + (h.blkSize alignment size).toNat
    rw [hp, hsize]
    exact userBytes_fit size ha hq hm
  · change q.toNat + (h.blkSize alignment size).toNat ≤ 2 ^ 32
    omega

/-- Writing a header into a placed block stores inside the block and is read back. -/
theorem header_spec {B : Block} (hB : B.Placed) (m : Memory) :
    WritesIn B.area m (header m B.ptr (B.ptr - B.start) B.granted) ∧
      B.Headed (header m B.ptr (B.ptr - B.start) B.granted) := by
  have hhead := hB.header
  have hslack : span (B.ptr + ofsSlack) 4 ⊆ B.area := by
    intro x hx
    simp only [Block.area, mem_span, ofsSlack] at hx ⊢
    bv_omega
  have hsize : span (B.ptr + ofsSize) 4 ⊆ B.area := by
    intro x hx
    simp only [Block.area, mem_span, ofsSize] at hx ⊢
    bv_omega
  have hapart : Disjoint (span (B.ptr + ofsSlack) 4) (span (B.ptr + ofsSize) 4) := by
    simp only [ofsSlack, ofsSize]
    apply disjoint_span_of_le <;> bv_omega
  refine ⟨((writesIn_store32 _ _ _).mono hslack).trans ((writesIn_store32 _ _ _).mono hsize),
    ?_, ?_⟩
  · rw [blockBegin, header, (writesIn_store32 _ _ _).load32_eq hapart, load32_store32_self]
    bv_omega
  · rw [blockSize, header, load32_store32_self]

/-- An answer of the back end is passed on. -/
theorem exists_memalign (hback : h.backEnd fuel alignment size = some (q, h')) :
    ∃ h₂, h.memalign fuel alignment size = some (userPtr alignment q, h₂) := by
  rw [memalign_eq, hback]
  exact ⟨_, rfl⟩

/-- What `memalign` does with a region that holds the block: it writes the header,
and only into the block. -/
theorem memalign_served {fuel : Nat} {p : Word} {h₂ : Heap}
    (hback : h.backEnd fuel alignment size = some (q, h'))
    (hB : (h.block alignment size q).Placed)
    (hcall : h.memalign fuel alignment size = some (p, h₂)) :
    (h.block alignment size q).ptr = p ∧ ∃ m, h₂ = h'.withMem m ∧
      WritesIn (h.block alignment size q).area h'.mem m ∧ (h.block alignment size q).Headed m := by
  obtain ⟨hw, hh⟩ := header_spec hB h'.mem
  rw [memalign_eq, hback] at hcall
  obtain ⟨rfl, rfl⟩ := Prod.mk.inj (Option.some.inj hcall)
  exact ⟨rfl, _, rfl, hw, hh⟩

end Heap

end DmfOs
