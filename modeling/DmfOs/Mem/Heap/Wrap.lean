import DmfOs.Mem.Heap.Layout
import DmfOs.Mem.Page.Transfer

/-!
# Requests near the word size

`memalign` adds the alignment, the header and the rounding to a size without
looking at the carry, and the back end sees the wrapped sum only. Against exact
integers, the size that `memalign` asks for and records covers the block unless
the exact padded size passes `2 ^ 32`.
-/

namespace DmfOs

open Memory

namespace Heap

variable {h h' h₂ : Heap} {alignment size alignMin p q : Word} {fuel : Nat}

/-- Every answer of a back end is word-aligned. -/
theorem four_dvd_answer (ha : IsPow2 alignment) (hm : IsPow2 h.alignMin)
    (hback : h.backEnd fuel alignment size = some (q, h')) : 4 ∣ q.toNat := by
  obtain ⟨hblk, hfour⟩ := isPow2_blkAlign ha hm
  have hdvd : 4 ∣ (h.blkAlign alignment).toNat :=
    IsPow2.dvd_of_le (a := 4) ⟨2, rfl⟩ hblk hfour
  cases hops : h.ops with
  | early =>
    have hserved : 4 ∣ (alignWord h.phys.base (h.blkAlign alignment)).toNat := by
      rw [toNat_alignWord hblk, Nat.dvd_mod_iff (hdvd.trans hblk.dvd_modulus)]
      exact hdvd.trans (dvd_alignUp _ _)
    rw [backEnd_early hops, PhysState.earlyMemalign_eq] at hback
    obtain ⟨rfl, -⟩ := Prod.mk.inj (Option.some.inj hback)
    split_ifs
    · exact dvd_zero 4
    · exact dvd_zero 4
    · exact hserved
  | page =>
    obtain ⟨s, hs, -⟩ := backEnd_page hops hback
    rcases PageState.pageMemalign_answer hs with ⟨rfl, -⟩ | hpage
    · exact dvd_zero 4
    · have := hpage.2
      omega

/-- The recorded size is the one asked of the back end, at whatever address the header is. -/
theorem blockSize_header (m : Memory) (p slack size : Word) :
    blockSize (header m p slack size) p = size := by
  rw [blockSize, header, load32_store32_self]

/-- The recorded size `S` covers the block that starts at `q`, as exact integers, and a request
whose padded size is no word gets no pointer. -/
structure Covers (alignment size alignMin q p S : Word) : Prop where
  covers : (p.toNat : Int) - q.toNat + size.toNat ≤ S.toNat
  refused : 2 ^ 32 ≤ blockBytes alignment size alignMin → p = 0

/-- The size that `memalign` asks for and records covers the block if and only if the exact
padded size is a word, or the user pointer wraps to NULL at the end of the address space. -/
theorem memalign_covers_iff (ha : IsPow2 alignment) (hm : IsPow2 h.alignMin)
    (hback : h.backEnd fuel alignment size = some (q, h'))
    (hcall : h.memalign fuel alignment size = some (p, h₂)) :
    blockSize h₂.mem p = h.blkSize alignment size ∧
      (Covers alignment size h.alignMin q p (blockSize h₂.mem p) ↔
        blockBytes alignment size h.alignMin < 2 ^ 32 ∨
          alignUp (q.toNat + 8) (userAlign alignment).toNat = 2 ^ 32 ∧
            size.toNat ≤ q.toNat + blockBytes alignment size h.alignMin % 2 ^ 32) := by
  have hq4 := four_dvd_answer ha hm hback
  have hua := isPow2_userAlign ha
  rw [memalign_eq, hback] at hcall
  obtain ⟨rfl, rfl⟩ := Prod.mk.inj (Option.some.inj hcall)
  have hrec := blockSize_header h'.mem (userPtr alignment q) (userPtr alignment q - q)
    (h.blkSize alignment size)
  refine ⟨hrec, ?_⟩
  rw [mem_withMem, hrec]
  have hp := toNat_userPtr ha q
  have hS := toNat_blkSize_mod hm alignment size
  have hfit := userBytes_fit size ha hq4 hm
  have hlow := le_alignUp (q.toNat + 8) hua.pos
  constructor
  · rintro ⟨hcovers, hrefused⟩
    by_cases hb : blockBytes alignment size h.alignMin < 2 ^ 32
    · exact Or.inl hb
    · -- the pointer is NULL, so the rounding reached the end of the address space
      have hzero := congrArg BitVec.toNat (hrefused (by omega))
      change _ = 0 at hzero
      have hhigh := alignUp_lt (q.toNat + 8) hua.pos
      have := hua.le_half
      have := q.isLt
      exact Or.inr ⟨by omega, by omega⟩
  · rintro (hb | ⟨hwrap, hsmall⟩)
    · exact ⟨by omega, fun hge => by omega⟩
    · rw [hwrap, Nat.mod_self] at hp
      exact ⟨by omega, fun _ => BitVec.eq_of_toNat_eq hp⟩

/-- The heap over the pool of `mem_init`. -/
def afterMemInit : Heap := (initial ⟨fun _ => 0, []⟩).memInit

/-- A block of 56 bytes is recorded with 64. -/
theorem memalign_covers_iff_small : ∃ p h₂, afterMemInit.memalign 0 4 56 = some (p, h₂) ∧
    blockSize h₂.mem p = 64 ∧
    (Covers 4 56 64 0x300000 p (blockSize h₂.mem p) ↔
      blockBytes 4 56 64 < 2 ^ 32 ∨ alignUp (0x300000 + 8) 4 = 2 ^ 32 ∧
        56 ≤ 0x300000 + blockBytes 4 56 64 % 2 ^ 32) := by
  have hm : IsPow2 afterMemInit.alignMin := ⟨6, rfl⟩
  have hback : afterMemInit.backEnd 0 4 56 =
      some (0x300000, { afterMemInit with phys := afterMemInit.phys.grant 64 64 }) := rfl
  obtain ⟨hrec, hiff⟩ := memalign_covers_iff ⟨2, rfl⟩ hm hback rfl
  exact ⟨_, _, rfl, hrec, hiff⟩

/-- A request of nearly 4 GiB is served by a block of 64 bytes. -/
theorem not_memalign_covers :
    ¬ ∀ (fuel : Nat) (h h' h₂ : Heap) (alignment size p q : Word), IsPow2 alignment →
      IsPow2 h.alignMin → h.backEnd fuel alignment size = some (q, h') → q ≠ 0 →
      h.memalign fuel alignment size = some (p, h₂) →
      Covers alignment size h.alignMin q p (blockSize h₂.mem p) := by
  intro hall
  have hback : afterMemInit.backEnd 0 4 0xfffffffc =
      some (0x300000, { afterMemInit with phys := afterMemInit.phys.grant 64 64 }) := rfl
  have hcall := memalign_eq 0 4 0xfffffffc afterMemInit
  rw [hback] at hcall
  have hcovers := (hall _ _ _ _ _ _ _ _ ⟨2, rfl⟩ ⟨6, rfl⟩ hback (by simp) hcall).covers
  rw [mem_withMem, blockSize_header] at hcovers
  exact absurd hcovers (by decide)

end Heap

end DmfOs
