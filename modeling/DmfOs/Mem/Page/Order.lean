import DmfOs.Mem.Page.Transfer
import Mathlib.Data.Nat.Log

/-!
# Requests in pages

`page_memalign` asks for the next power of two of pages. A request for `n`
pages therefore takes `n` pages exactly when `n` is a power of two, and leaves
a rest behind the requested pages otherwise.
-/

namespace DmfOs

namespace PageState

/-- The order that `page_memalign` derives from a number of pages. -/
def pageOrder (n : Word) : Word := if isPowerOf2 n then fls n else fls n + 1

/-- The test is the mathematical one. -/
theorem isPowerOf2_iff (n : Word) : isPowerOf2 n = true ↔ IsPow2 n := by
  rw [isPow2_iff_and_pred]
  simp [isPowerOf2]

/-- The order asks for the least power of two of pages that holds the request. -/
theorem toNat_orderPages_pageOrder {n : Word} (hpos : n ≠ 0) (hlt : n.toNat < 2 ^ 20) :
    (orderPages (pageOrder n)).toNat = 2 ^ Nat.clog 2 n.toNat := by
  have hne : n.toNat ≠ 0 := by bv_omega
  have hlog : n.toNat.log2 < 20 := (Nat.log2_lt hne).mpr hlt
  have hlow := Nat.log2_self_le hne
  have hhigh : n.toNat < 2 ^ (n.toNat.log2 + 1) := Nat.lt_log2_self
  have hfls : (fls n).toNat = n.toNat.log2 := by
    rw [fls, BitVec.toNat_ofNat, Nat.mod_eq_of_lt (by omega)]
  by_cases hp : isPowerOf2 n = true
  · obtain ⟨k, hk⟩ := (isPowerOf2_iff n).mp hp
    rw [pageOrder, if_pos hp, toNat_orderPages, hfls, Nat.mod_eq_of_lt (by omega), hk,
      Nat.log2_two_pow, Nat.clog_pow _ _ (by decide)]
  · have hnext : (fls n + 1).toNat = n.toNat.log2 + 1 := by bv_omega
    have hclog : Nat.clog 2 n.toNat = n.toNat.log2 + 1 := by
      apply Nat.le_antisymm (Nat.clog_le_of_le_pow hhigh.le)
      rw [Nat.succ_le_iff, Nat.lt_clog_iff_pow_lt (by decide)]
      exact lt_of_le_of_ne hlow fun he => hp ((isPowerOf2_iff n).mpr ⟨_, he.symm⟩)
    rw [pageOrder, if_neg hp, toNat_orderPages, hnext, Nat.mod_eq_of_lt (by omega), hclog]

variable {s s' : PageState} {L : List Word} {alignment size p : Word} {fuel : Nat}

/-- The number of pages in a whole number of pages. -/
theorem toNat_pageCount (hdvd : 4096 ∣ size.toNat) :
    (alignWord size pageSize >>> pageShift).toNat = size.toNat / 4096 := by
  have hpow : IsPow2 pageSize := ⟨12, rfl⟩
  have hup : alignUp size.toNat pageSize.toNat = size.toNat :=
    alignUp_of_dvd (by decide) hdvd
  rw [BitVec.toNat_ushiftRight, toNat_alignWord hpow, hup, Nat.mod_eq_of_lt size.isLt,
    Nat.shiftRight_eq_div_pow]
  rfl

/-- What `page_memalign` takes: the least naturally aligned block that holds the requested
pages. -/
theorem FreeList.pageMemalign_block (h : s.FreeList L) (hne : size ≠ 0)
    (hdvd : 4096 ∣ size.toNat) (hr : pageMemalign fuel alignment size s = some (p, s'))
    (hp : p ≠ 0) :
    ∃ A B, L = A ++ pageRun p (2 ^ Nat.clog 2 (size.toNat / 4096)) ++ B ∧
      s' = s.unlink A B ∧ s'.FreeList (A ++ B) ∧ IsPage p ∧
      4096 * 2 ^ Nat.clog 2 (size.toNat / 4096) ∣ p.toNat := by
  have hcount := toNat_pageCount hdvd
  have hsize : 0 < size.toNat := by bv_omega
  have hlt := size.isLt
  have hn : alignWord size pageSize >>> pageShift ≠ 0 := by
    intro hz
    rw [hz] at hcount
    change 0 = size.toNat / 4096 at hcount
    omega
  have hpages := toNat_orderPages_pageOrder hn (by omega)
  rw [hcount] at hpages
  simp only [PageState.pageMemalign, if_neg hne] at hr
  change PageState.allocPages fuel (pageOrder _) s = some (p, s') at hr
  cases (h.allocPages _ fuel).2 _ _ hr with
  | refused => exact absurd rfl hp
  | @served p A B split page order_lt aligned rest =>
    rw [hpages] at split aligned
    exact ⟨A, B, split, rfl, rest, page, aligned⟩

/-- What `page_memalign` takes: the requested pages and a rest behind them, which
is empty exactly for a power of two. -/
theorem FreeList.pageMemalign (h : s.FreeList L) (hne : size ≠ 0) (hdvd : 4096 ∣ size.toNat)
    (hr : pageMemalign fuel alignment size s = some (p, s')) (hp : p ≠ 0) :
    ∃ A B rest, L = A ++ (pageRun p (size.toNat / 4096) ++ rest) ++ B ∧
      s' = s.unlink A B ∧ s'.FreeList (A ++ B) ∧ IsPage p ∧
      (rest = [] ↔ isPowerOf2 (alignWord size pageSize >>> pageShift) = true) := by
  obtain ⟨A, B, split, hs', hlist, page, -⟩ := h.pageMemalign_block hne hdvd hr hp
  obtain ⟨k, hk⟩ := Nat.exists_eq_add_of_le (Nat.le_pow_clog Nat.one_lt_two (size.toNat / 4096))
  rw [hk, pageRun_add] at split
  refine ⟨A, B, _, split, hs', hlist, page, ?_⟩
  rw [isPowerOf2_iff, IsPow2, toNat_pageCount hdvd, ← List.length_eq_zero_iff, length_pageRun]
  constructor
  · rintro rfl
    exact ⟨_, hk.symm⟩
  · rintro ⟨j, hj⟩
    rw [hj, Nat.clog_pow _ _ Nat.one_lt_two] at hk
    omega

end PageState

end DmfOs
