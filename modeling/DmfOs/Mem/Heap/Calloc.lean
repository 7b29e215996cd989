import DmfOs.Mem.Heap.Early
import DmfOs.Mem.Heap.Wrap

/-!
# Zeroed arrays

`calloc` multiplies its arguments as words, asks for a block of the product and
clears as many bytes. Over the early allocator, with room for the block asked
for, the array that the caller counts on is there and zero if and only if its
exact size, with the header and rounded, is a word.
-/

namespace DmfOs

open Memory

namespace Heap

variable {h h' h₁ : Heap} {nmemb size p q : Word} {fuel : Nat}

/-- From `p` on there are `bytes` zero bytes inside the block of `granted` bytes at `q`, and
nothing was stored outside the block. -/
structure ZeroedArray (h h' : Heap) (q granted p : Word) (bytes : Nat) : Prop where
  inside : q.toNat ≤ p.toNat ∧ p.toNat + bytes ≤ q.toNat + granted.toNat
  zeroed : ∀ i < bytes, h'.mem.byte (p + BitVec.ofNat 32 i) = 0
  frame : WritesIn (span q granted.toNat) h.mem h'.mem

/-- The user pointer of a word-aligned block, at the alignment of `malloc`. -/
theorem toNat_userPtr_four (hq : 4 ∣ q.toNat) :
    (userPtr 4 q).toNat = (q.toNat + 8) % 2 ^ 32 := by
  have hua : (userAlign 4).toNat = 4 := rfl
  rw [toNat_userPtr ⟨2, rfl⟩, hua, alignUp_of_dvd (by decide) (by omega)]

/-- The block asked for an array whose exact size is a word. -/
theorem blockBytes_array (alignMin : Word) (hlt : nmemb.toNat * size.toNat < 2 ^ 32) :
    blockBytes 4 (nmemb * size) alignMin =
      alignUp (nmemb.toNat * size.toNat + 8) alignMin.toNat := by
  have hprod : (nmemb * size).toNat = nmemb.toNat * size.toNat := by
    rw [BitVec.toNat_mul, Nat.mod_eq_of_lt hlt]
  rw [← hprod]
  rfl

/-- An array whose exact size with the header is a word when rounded gets its zero bytes. -/
theorem zeroedArray_of_lt (hm : IsPow2 h.alignMin) (hq : 4 ∣ q.toNat)
    (hback : h.backEnd fuel 4 (nmemb * size) = some (q, h₁)) (hmem : h₁.mem = h.mem)
    (hend : q.toNat + (h.blkSize 4 (nmemb * size)).toNat < 2 ^ 32)
    (hcall : h.calloc fuel nmemb size = some (p, h'))
    (hlt : alignUp (nmemb.toNat * size.toNat + 8) h.alignMin.toNat < 2 ^ 32) :
    ZeroedArray h h' q (h.blkSize 4 (nmemb * size)) p (nmemb.toNat * size.toNat) := by
  have hround := le_alignUp (nmemb.toNat * size.toNat + 8) hm.pos
  have hbytes := blockBytes_array h.alignMin (show nmemb.toNat * size.toNat < 2 ^ 32 by omega)
  have hsize := toNat_blkSize hm (hbytes ▸ hlt)
  have hua : (userAlign 4).toNat = 4 := rfl
  have hup : alignUp (q.toNat + 8) (userAlign 4).toNat = q.toNat + 8 := by
    rw [hua, alignUp_of_dvd (by decide) (by omega)]
  have hplaced : (h.block 4 (nmemb * size) q).Placed :=
    block_placed ⟨2, rfl⟩ hm (hbytes ▸ hlt) hq (by omega) (by omega)
  obtain ⟨p', h₂, hmalloc⟩ : ∃ p h₂, h.malloc fuel (nmemb * size) = some (p, h₂) :=
    ⟨_, exists_memalign hback⟩
  obtain ⟨rfl, m, rfl, hwrites, -⟩ := memalign_served hback hplaced hmalloc
  have hptr : (h.block 4 (nmemb * size) q).ptr.toNat = q.toNat + 8 := by
    change (userPtr 4 q).toNat = _
    rw [toNat_userPtr_four hq, Nat.mod_eq_of_lt (by omega)]
  have hne : (h.block 4 (nmemb * size) q).ptr ≠ 0 := by
    intro hz
    rw [hz] at hptr
    change 0 = _ at hptr
    omega
  rw [calloc, hmalloc, Option.map_some] at hcall
  simp only [if_pos hne, Option.some.injEq, Prod.mk.injEq] at hcall
  obtain ⟨rfl, rfl⟩ := hcall
  have hheader := hplaced.header
  have hfits := hplaced.fits
  change q.toNat + 8 ≤ _ at hheader
  change _ ≤ q.toNat + (h.blkSize 4 (nmemb * size)).toNat at hfits
  have hcleared := memset_writesIn (h.block 4 (nmemb * size) q).ptr 0 (nmemb * size) m
  refine ⟨⟨by omega, by omega⟩, fun i hi => memset_byte 0 m ?_, ?_⟩
  · rw [mem_span]
    bv_omega
  · rw [← hmem]
    exact (hwrites.mono hplaced.area_subset).trans
      (hcleared.mono (hplaced.userArea_subset.trans hplaced.area_subset))

/-- With room for the block asked for, `calloc` returns NULL or the zeroed array if and only if
the exact size of the array with its header, rounded, is a word, or the block is the last eight
bytes of the address space, behind which the pointer is NULL. -/
theorem calloc_zeroed_iff (hops : h.ops = .early) (hm : IsPow2 h.phys.alignMin)
    (hroom : h.HasRoom 4 (nmemb * size)) (fuel : Nat) :
    ∃ q h₁ p h', h.backEnd fuel 4 (nmemb * size) = some (q, h₁) ∧
      h.calloc fuel nmemb size = some (p, h') ∧
      (p = 0 ∨ ZeroedArray h h' q (h.blkSize 4 (nmemb * size)) p (nmemb.toNat * size.toNat) ↔
        alignUp (nmemb.toNat * size.toNat + 8) h.phys.alignMin.toNat < 2 ^ 32 ∨
          alignUp h.phys.base.toNat (h.blkAlign 4).toNat + 8 = 2 ^ 32) := by
  have hmin : h.alignMin = h.phys.alignMin := by rw [Heap.alignMin, hops]
  obtain ⟨q, hback, hq, hq4⟩ := backEnd_of_hasRoom hops hm ⟨2, rfl⟩ hroom fuel
  obtain ⟨h', hcall⟩ : ∃ h', h.calloc fuel nmemb size = some (userPtr 4 q, h') := by
    rw [calloc, malloc, memalign_eq, hback, Option.map_some, Option.map_some]
    simp only
    split_ifs <;> exact ⟨_, rfl⟩
  have hptr := toNat_userPtr_four hq4
  have hend : q.toNat + (h.blkSize 4 (nmemb * size)).toNat < 2 ^ 32 := by
    rw [HasRoom, ← hq] at hroom
    exact lt_of_le_of_lt hroom h.phys.top.isLt
  refine ⟨q, _, _, h', hback, hcall, ?_⟩
  rw [← hq, ← hmin]
  constructor
  · rintro (hnull | hz)
    · rw [hnull] at hptr
      change 0 = _ at hptr
      omega
    · left
      obtain ⟨hle, hfits⟩ := hz.inside
      have hbytes := blockBytes_array h.alignMin (show nmemb.toNat * size.toNat < 2 ^ 32 by omega)
      have hS := toNat_blkSize_mod (hmin ▸ hm) 4 (nmemb * size)
      have hround : blockBytes 4 (nmemb * size) h.alignMin ≤ 2 ^ 32 := by
        rw [hbytes]
        exact alignUp_le_of_dvd (hmin ▸ hm).pos (hmin ▸ hm).dvd_modulus (by omega)
      -- a rounding to 2 ^ 32 would have asked for nothing
      omega
  · rintro (hlt | hlast)
    · exact Or.inr (zeroedArray_of_lt (hmin ▸ hm) hq4 hback rfl hend hcall hlt)
    · left
      apply BitVec.eq_of_toNat_eq
      rw [hptr, hlast]
      rfl

/-- An array of three words in the pool of `mem_init`. -/
theorem calloc_zeroed_iff_three_words :
    ∃ q h₁ p h', afterMemInit.backEnd 0 4 (3 * 4) = some (q, h₁) ∧
      afterMemInit.calloc 0 3 4 = some (p, h') ∧
      (p = 0 ∨ ZeroedArray afterMemInit h' q (afterMemInit.blkSize 4 (3 * 4)) p 12 ↔
        alignUp 20 64 < 2 ^ 32 ∨ alignUp 0x300000 64 + 8 = 2 ^ 32) :=
  calloc_zeroed_iff rfl ⟨6, rfl⟩ (by decide) 0

/-- The product of two numbers of 64 Ki is 0, and the array of 4 GiB is a block of 64 bytes. -/
theorem not_calloc_zeroed :
    ¬ ∀ (fuel : Nat) (h h₁ h' : Heap) (nmemb size p q : Word), h.ops = .early →
      IsPow2 h.phys.alignMin → h.HasRoom 4 (nmemb * size) →
      h.backEnd fuel 4 (nmemb * size) = some (q, h₁) →
      h.calloc fuel nmemb size = some (p, h') →
      p = 0 ∨ ZeroedArray h h' q (h.blkSize 4 (nmemb * size)) p (nmemb.toNat * size.toNat) := by
  intro hall
  have hback : afterMemInit.backEnd 0 4 (0x10000 * 0x10000) =
      some (0x300000, { afterMemInit with phys := afterMemInit.phys.grant 64 64 }) := rfl
  rcases hall 0 afterMemInit _ _ 0x10000 0x10000 0x300008 _ rfl ⟨6, rfl⟩ (by decide) hback rfl
    with hnull | harray
  · exact absurd hnull (by decide)
  · have hfits := harray.inside.2
    exact absurd hfits (by decide)

end Heap

end DmfOs
