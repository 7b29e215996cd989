import DmfOs.Mem.Heap.Conserve

/-!
# Alignment over the page back end

`page_memalign` ignores the alignment that it is asked for. `memalign` pads a
request by its alignment, so the number of pages is never smaller than the
alignment, and a block of that many pages, being naturally aligned, is aligned
as requested.
-/

namespace DmfOs

open Memory

namespace Heap

variable {h h' : Heap} {L : List Word} {alignment size q : Word} {fuel : Nat}

/-- The page back end answers NULL to a request of no bytes. -/
theorem blkSize_ne_zero (hops : h.ops = .page)
    (hback : h.backEnd fuel alignment size = some (q, h')) (hq : q ≠ 0) :
    h.blkSize alignment size ≠ 0 := by
  intro hz
  obtain ⟨s, hs, -⟩ := backEnd_page hops hback
  rw [hz, PageState.pageMemalign] at hs
  simp only [ite_true, Option.some.injEq, Prod.mk.injEq] at hs
  exact hq hs.1.symm

/-- A block of pages that holds the padded size is at least as large as the alignment. -/
theorem max_dvd_pages (ha : IsPow2 alignment) {n : Nat}
    (hcover : paddedBytes alignment size + 8 ≤ 4096 * 2 ^ n) :
    max alignment.toNat 4096 ∣ 4096 * 2 ^ n := by
  rcases le_total alignment.toNat 4096 with hle | hge
  · rw [max_eq_right hle]
    exact dvd_mul_right _ _
  · rw [max_eq_left hge]
    obtain ⟨k, hk⟩ := ha
    have hbytes : 4096 * 2 ^ n = 2 ^ (12 + n) := by
      rw [pow_add]
      rfl
    have hnot : ¬ alignment ≤ 4 := by bv_omega
    rw [paddedBytes, if_neg hnot] at hcover
    have hfit : 2 ^ k ≤ 2 ^ (12 + n) := by omega
    rw [hbytes, hk]
    exact Nat.pow_dvd_pow 2 ((Nat.pow_le_pow_iff_right (a := 2) (by decide)).mp hfit)

/-- Over the page back end a padded size that fits a word does not wrap when it is rounded to
pages: the request would be one of no bytes. -/
theorem blockBytes_lt (hops : h.ops = .page) (hpad : paddedBytes alignment size + 8 < 2 ^ 32)
    (hback : h.backEnd fuel alignment size = some (q, h')) (hq : q ≠ 0) :
    blockBytes alignment size pageSize < 2 ^ 32 := by
  have hmin : h.alignMin = pageSize := by rw [Heap.alignMin, hops]
  have hpow : IsPow2 pageSize := ⟨12, rfl⟩
  have hle : blockBytes alignment size pageSize ≤ 2 ^ 32 :=
    alignUp_le_of_dvd (by decide) hpow.dvd_modulus hpad.le
  refine lt_of_le_of_ne hle fun he => blkSize_ne_zero hops hback hq ?_
  have hmod := toNat_blkSize_mod (hmin ▸ hpow) alignment size
  rw [hmin, he, Nat.mod_self] at hmod
  exact BitVec.eq_of_toNat_eq hmod

/-- The least number of pages that holds the rounded size holds the padded size. -/
theorem clog_le_iff {alignment size : Word} {k : Nat} :
    Nat.clog 2 (blockBytes alignment size pageSize / 4096) ≤ k ↔
      paddedBytes alignment size + 8 ≤ 4096 * 2 ^ k := by
  have hpow : IsPow2 pageSize := ⟨12, rfl⟩
  have hle := le_blockBytes alignment size hpow
  have hdvd : 4096 ∣ blockBytes alignment size pageSize := dvd_alignUp _ _
  rw [Nat.clog_le_iff_le_pow Nat.one_lt_two]
  constructor
  · intro hk
    omega
  · intro hk
    have hround : blockBytes alignment size pageSize ≤ 4096 * 2 ^ k :=
      alignUp_le_of_dvd (by decide) (dvd_mul_right _ _) hk
    omega

/-- `memalign` over the page back end takes one block, the least power of two of pages that
holds the padded size, and its user bytes and header lie in it, aligned as requested. -/
theorem memalign_page_aligned (hops : h.ops = .page) (hlist : h.page.FreeList L)
    (ha : IsPow2 alignment) (hpad : paddedBytes alignment size + 8 < 2 ^ 32)
    (hback : h.backEnd fuel alignment size = some (q, h')) (hq : q ≠ 0) :
    ∃ p h₂ A B n, h.memalign fuel alignment size = some (p, h₂) ∧
      L = A ++ pageRun q (2 ^ n) ++ B ∧ h₂.page.FreeList (A ++ B) ∧
      max alignment.toNat 4096 ∣ q.toNat ∧
      (∀ k, n ≤ k ↔ paddedBytes alignment size + 8 ≤ 4096 * 2 ^ k) ∧
      alignment.toNat ∣ p.toNat ∧ q.toNat + 8 ≤ p.toNat ∧
      p.toNat + size.toNat ≤ q.toNat + 4096 * 2 ^ n := by
  have hbytes := blockBytes_lt hops hpad hback hq
  obtain ⟨hsize, hdvd, hpos⟩ := PageHeapWorld.toNat_blkSize_page hops hbytes
  obtain ⟨s, hs, rfl⟩ := backEnd_page hops hback
  obtain ⟨A, B, hL, rfl, hrest, hpage, hal⟩ :=
    hlist.pageMemalign_block (blkSize_ne_zero hops hback hq) hdvd hs hq
  rw [hsize] at hL hal
  generalize hn : Nat.clog 2 (blockBytes alignment size pageSize / 4096) = n at hL hal
  have hleast (k : Nat) : n ≤ k ↔ paddedBytes alignment size + 8 ≤ 4096 * 2 ^ k := by
    rw [← hn]
    exact clog_le_iff
  have hcover : blockBytes alignment size pageSize ≤ 4096 * 2 ^ n := by
    exact alignUp_le_of_dvd (by decide) (dvd_mul_right _ _) ((hleast n).mp le_rfl)
  have husable : ∀ x ∈ pageRun q (2 ^ n), IsPage x :=
    fun x hx => hlist.pages x (by rw [hL]; simp [hx])
  have hfit := pageRun_no_wrap husable
  have hmin : h.alignMin = pageSize := by rw [Heap.alignMin, hops]
  have hpow : IsPow2 pageSize := ⟨12, rfl⟩
  have hq4 : 4 ∣ q.toNat := by
    have := hpage.2
    omega
  -- the block of the request is a prefix of the pages taken
  have hplaced : (h.block alignment size q).Placed :=
    block_placed ha (hmin ▸ hpow) (hmin ▸ hbytes) hq4 (by rw [hmin]; omega)
      (PageHeapWorld.userPtr_lt_of_pages ha hpage.2 (dvd_mul_right _ _) ((hleast n).mp le_rfl)
        hfit)
  have hpaged : (h.block alignment size q).Paged := ⟨hpage, hdvd, hpos, hplaced.no_wrap⟩
  obtain ⟨h₂, hcall⟩ := exists_memalign hback
  obtain ⟨-, m, rfl, hwrites, -⟩ := memalign_served hback hplaced hcall
  refine ⟨_, _, A, B, n, hcall, hL, ?_, (max_dvd_pages ha ((hleast n).mp le_rfl)).trans hal,
    hleast, hplaced.aligned, hplaced.header, ?_⟩
  · refine hpaged.freeList_frame hrest (fun x hx hxp => ?_) (hwrites.mono hplaced.area_subset)
    have hcount : (h.blkSize alignment size).toNat / 4096 ≤ 2 ^ n := by omega
    exact (hL ▸ hlist).not_mem_segment hx (pageRun_subset q hcount hxp)
  · have hend := hplaced.fits
    change (userPtr alignment q).toNat + size.toNat ≤
      q.toNat + (h.blkSize alignment size).toNat at hend
    change (userPtr alignment q).toNat + size.toNat ≤ q.toNat + 4096 * 2 ^ n
    omega

/-- A block of 100 bytes aligned to two pages takes four pages. -/
theorem memalign_page_aligned_two_pages :
    ∃ p h₂ A B n, PageHeapWorld.fourPages.memalign 5 8192 100 = some (p, h₂) ∧
      [0x400000, 0x401000, 0x402000, 0x403000] = A ++ pageRun 0x400000 (2 ^ n) ++ B ∧
      h₂.page.FreeList (A ++ B) ∧ (8192 : Word).toNat ∣ p.toNat := by
  have hpad : paddedBytes 8192 100 + 8 < 2 ^ 32 := by decide
  have hback : PageHeapWorld.fourPages.backEnd 5 8192 100 = some (0x400000,
      { PageHeapWorld.fourPages with page := PageHeapWorld.fourPages.page.unlink [] [] }) := rfl
  have hq : (0x400000 : Word) ≠ 0 := by simp
  obtain ⟨p, h₂, A, B, n, hcall, hL, hrest, -, -, hal, -⟩ :=
    memalign_page_aligned rfl PageHeapWorld.fourPages_freeList ⟨13, rfl⟩ hpad hback hq
  exact ⟨p, h₂, A, B, n, hcall, hL, hrest, hal⟩

end Heap

end DmfOs
