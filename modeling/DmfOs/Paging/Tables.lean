import DmfOs.Paging.Walk
import DmfOs.Lib.Mem

/-!
# The page tables of the host and of the guest

The host runs on `page_dir` as the boot loader initialises it: one 4 MB page at
address 0 and nothing else. The guest runs on the tables that
`setup_guest_page_tables` writes: an identity map of the whole address space in
which one page of the kernel's code is read-only.
-/

namespace DmfOs

open Memory

/-- `PDE_P`, and `PTE_P` of the same value. -/
def pdeP : Word := 1 <<< 0

/-- `PDE_W`, and `PTE_W` of the same value. -/
def pdeW : Word := 1 <<< 1

/-- `PDE_U`, and `PTE_U` of the same value. -/
def pdeU : Word := 1 <<< 2

/-- `PDE_PS`. -/
def pdePs : Word := 1 <<< 7

/-- `TEST_READONLY_ADDR`. -/
def testReadonlyAddr : Word := 0x103b46

/-- The initialiser of `page_dir`. -/
def pageDir (i : Word) : Word := if i = 0 then pdeP ||| pdeW ||| pdeU ||| pdePs ||| 0 else 0

/-- The table at `base` holds the given 1024 entries. -/
def HoldsTable (m : Memory) (base : Word) (entry : Word → Word) : Prop :=
  ∀ i : Word, i.toNat < 1024 → m.load32 (entryAddr base i) = entry i

/-- A loop that assigns table entries from index `i` on, with `k` of them left. -/
def fillLoop (base : Word) (entry : Word → Word) : Nat → Word → Memory → Memory
  | 0, _, m => m
  | k + 1, i, m => fillLoop base entry k (i + 1) (m.store32 (entryAddr base i) (entry i))

/-- What `setup_guest_page_tables` writes and returns, for `guest_page_dir` and
`guest_page_table` at the given addresses. -/
def setupGuestPageTables (guestPageDir guestPageTable : Word) (m : Memory) : Word × Memory :=
  let m := memset guestPageDir 0 4096 m
  let m := memset guestPageTable 0 4096 m
  let m := m.store32 (entryAddr guestPageDir 0) (guestPageTable ||| pdeP ||| pdeW ||| pdeU)
  let m := fillLoop guestPageTable (fun i => (i <<< 12) ||| pdeP ||| pdeW ||| pdeU) 1024 0 m
  let testPageIdx := testReadonlyAddr >>> 12
  let m := m.store32 (entryAddr guestPageTable testPageIdx)
    (m.load32 (entryAddr guestPageTable testPageIdx) &&& ~~~pdeW)
  let m := fillLoop guestPageDir (fun i => (i <<< 22) ||| pdeP ||| pdeW ||| pdeU ||| pdePs) 1023 1 m
  (guestPageDir, m)

/-! ## Filling tables -/

section Fill

variable {m m' : Memory} {base other : Word} {entry entry' : Word → Word} {S : Set Word}

/-- Entry addresses of an aligned table are inside its page and word-aligned. -/
theorem toNat_entryAddr (hb : base.toNat % 4096 = 0) {i : Word} (hi : i.toNat < 1024) :
    (entryAddr base i).toNat = base.toNat + 4 * i.toNat := by
  have := base.isLt
  rw [entryAddr]
  bv_omega

theorem span_entryAddr_subset (hb : base.toNat % 4096 = 0) {i : Word} (hi : i.toNat < 1024) :
    span (entryAddr base i) 4 ⊆ span base 4096 := by
  have := toNat_entryAddr hb hi
  have := base.isLt
  intro x hx
  rw [mem_span_iff (by omega)] at hx
  rw [mem_span_iff (by omega)]
  omega

/-- Stores that miss the page of a table keep the table. -/
theorem HoldsTable.frame (h : HoldsTable m base entry) (hb : base.toNat % 4096 = 0)
    (hw : WritesIn S m m') (hd : Disjoint (span base 4096) S) : HoldsTable m' base entry := by
  intro i hi
  rw [hw.load32_eq (hd.mono_left (span_entryAddr_subset hb hi))]
  exact h i hi

/-- Another entry of the same table is kept by the store of one. -/
theorem load32_store32_entry (hb : base.toNat % 4096 = 0) {i j : Word} (hi : i.toNat < 1024)
    (hj : j.toNat < 1024) (hne : j ≠ i) (v : Word) :
    (m.store32 (entryAddr base i) v).load32 (entryAddr base j) =
      m.load32 (entryAddr base j) := by
  have hai := toNat_entryAddr hb hi
  have haj := toNat_entryAddr hb hj
  have hne' : j.toNat ≠ i.toNat := fun he => hne (BitVec.eq_of_toNat_eq he)
  refine load32_store32_of_ne m v (by omega) (by omega) fun he => ?_
  rw [he, hai] at haj
  omega

/-- The loop writes the entries it counts and leaves the other ones of the table alone. -/
theorem fillLoop_spec (entry : Word → Word) (hb : base.toNat % 4096 = 0) {k : Nat} {i : Word}
    (hk : i.toNat + k ≤ 1024) :
    WritesIn (span base 4096) m (fillLoop base entry k i m) ∧
      ∀ j : Word, j.toNat < 1024 → (fillLoop base entry k i m).load32 (entryAddr base j) =
        if i.toNat ≤ j.toNat ∧ j.toNat < i.toNat + k then entry j
        else m.load32 (entryAddr base j) := by
  induction k generalizing i m with
  | zero => exact ⟨.refl _ _, fun j _ => (if_neg (by omega)).symm⟩
  | succ k ih =>
    have hi : i.toNat < 1024 := by omega
    have hnext : (i + 1).toNat = i.toNat + 1 := by bv_omega
    obtain ⟨hw, hload⟩ := ih (m := m.store32 (entryAddr base i) (entry i)) (i := i + 1) (by omega)
    refine ⟨((writesIn_store32 m _ _).mono (span_entryAddr_subset hb hi)).trans hw, fun j hj => ?_⟩
    rw [fillLoop, hload j hj, hnext]
    by_cases hji : j = i
    · subst hji
      rw [if_neg (by omega), load32_store32_self, if_pos (by omega)]
    · have hne : j.toNat ≠ i.toNat := fun he => hji (BitVec.eq_of_toNat_eq he)
      rw [load32_store32_entry hb hi hj hji]
      split_ifs <;> first | rfl | omega

end Fill

/-! ## The host directory -/

variable {m : Memory} {dir table : Word}

/-- The entry of a 4 MB page together with the offset into it is the address itself. -/
theorem join_large {pde v : Word} (h : pde.toNat / 2 ^ 22 = v.toNat / 2 ^ 22) :
    (pde &&& 0xffc00000) ||| (v &&& 0x3fffff) = v := by
  have hj := toNat_join (a := 0x400000) ⟨22, rfl⟩ pde v
  rw [show ~~~(0x400000 - 1 : Word) = 0xffc00000 from rfl,
    show (0x400000 - 1 : Word) = 0x3fffff from rfl, show (0x400000 : Word).toNat = 2 ^ 22 from rfl,
    h] at hj
  apply BitVec.eq_of_toNat_eq
  omega

/-- The entry of a 4 KB page together with the offset into it is the address itself. -/
theorem join_small {pte v : Word} (h : pte.toNat / 2 ^ 12 = v.toNat / 2 ^ 12) :
    (pte &&& 0xfffff000) ||| (v &&& 0xfff) = v := by
  have hj := toNat_join (a := 0x1000) ⟨12, rfl⟩ pte v
  rw [show ~~~(0x1000 - 1 : Word) = 0xfffff000 from rfl,
    show (0x1000 - 1 : Word) = 0xfff from rfl, show (0x1000 : Word).toNat = 2 ^ 12 from rfl,
    h] at hj
  apply BitVec.eq_of_toNat_eq
  omega

/-- The host maps the first 4 MB to themselves, writable, and nothing else. -/
theorem walk_pageDir (hd : dir.toNat % 4096 = 0) (h : HoldsTable m dir pageDir) (v : Word) :
    walk m.load32 dir v = if v.toNat < 0x400000 then some ⟨v, true, true⟩ else none := by
  have hv := v.isLt
  have hidx := toNat_dirIndex v
  have hload := h (dirIndex v) (by omega)
  by_cases hlow : v.toNat < 0x400000
  · have hzero : dirIndex v = 0 := by
      apply BitVec.eq_of_toNat_eq
      rw [hidx]
      exact Nat.div_eq_of_lt hlow
    rw [pageDir, if_pos hzero] at hload
    rw [if_pos hlow, walk_large hd hload rfl rfl, join_large]
    · rfl
    · exact (Nat.div_eq_of_lt hlow).symm
  · have hne : dirIndex v ≠ 0 := by
      intro hz
      rw [hz] at hidx
      change 0 = v.toNat / 2 ^ 22 at hidx
      omega
    rw [pageDir, if_neg hne] at hload
    rw [if_neg hlow, walk_absent hd hload rfl]

/-- Memory that holds nothing but the initial `page_dir`. -/
def bootTables : Memory := ⟨fun x => if x = 0xa000 then 0x87 else 0, []⟩

theorem bootTables_pageDir : HoldsTable bootTables 0xa000 pageDir := by
  intro i hi
  have haddr : (entryAddr 0xa000 i).toNat = 0xa000 + 4 * i.toNat := toNat_entryAddr rfl hi
  by_cases hz : i = 0
  · subst hz
    decide
  · have hpos : i.toNat ≠ 0 := fun he => hz (BitVec.eq_of_toNat_eq he)
    have hbyte (k : Word) (hk : k.toNat < 4) : bootTables.byte (entryAddr 0xa000 i + k) = 0 := by
      refine if_neg ?_
      bv_omega
    have h0 : bootTables.byte (entryAddr 0xa000 i) = 0 := by simpa using hbyte 0 (by decide)
    rw [pageDir, if_neg hz, load32, h0, hbyte 1 (by decide), hbyte 2 (by decide),
      hbyte 3 (by decide)]
    rfl

/-! ## The guest tables -/

/-- The entries that `guest_page_table` ends up with. -/
def guestPageTable (i : Word) : Word :=
  if i = testReadonlyAddr >>> 12 then ((i <<< 12) ||| pdeP ||| pdeW ||| pdeU) &&& ~~~pdeW
  else (i <<< 12) ||| pdeP ||| pdeW ||| pdeU

/-- The entries that `guest_page_dir` ends up with. -/
def guestPageDir (table i : Word) : Word :=
  if i = 0 then table ||| pdeP ||| pdeW ||| pdeU
  else (i <<< 22) ||| pdeP ||| pdeW ||| pdeU ||| pdePs

/-- Different pages share no byte. -/
theorem disjoint_pages (hd : dir.toNat % 4096 = 0) (ht : table.toNat % 4096 = 0)
    (hne : dir ≠ table) : Disjoint (span dir 4096) (span table 4096) := by
  have hne' : dir.toNat ≠ table.toNat := fun he => hne (BitVec.eq_of_toNat_eq he)
  have := dir.isLt
  have := table.isLt
  rcases Nat.lt_or_gt_of_ne hne' with hlt | hlt
  · exact disjoint_span_of_le (by omega) (by omega)
  · exact (disjoint_span_of_le (by omega) (by omega)).symm

/-- `setup_guest_page_tables` writes its two pages only, and leaves these tables in them. -/
theorem setupGuestPageTables_spec (hd : dir.toNat % 4096 = 0) (ht : table.toNat % 4096 = 0)
    (hne : dir ≠ table) (m : Memory) :
    WritesIn (span dir 4096 ∪ span table 4096) m (setupGuestPageTables dir table m).2 ∧
      HoldsTable (setupGuestPageTables dir table m).2 table guestPageTable ∧
      HoldsTable (setupGuestPageTables dir table m).2 dir (guestPageDir table) := by
  have hapart := disjoint_pages hd ht hne
  have hidx : (testReadonlyAddr >>> 12).toNat < 1024 := by decide
  -- the memories between the statements of the function
  let m₂ := memset table 0 4096 (memset dir 0 4096 m)
  let m₃ := m₂.store32 (entryAddr dir 0) (table ||| pdeP ||| pdeW ||| pdeU)
  let small : Word → Word := fun i => (i <<< 12) ||| pdeP ||| pdeW ||| pdeU
  let large : Word → Word := fun i => (i <<< 22) ||| pdeP ||| pdeW ||| pdeU ||| pdePs
  let m₄ := fillLoop table small 1024 0 m₃
  let m₅ := m₄.store32 (entryAddr table (testReadonlyAddr >>> 12))
    (m₄.load32 (entryAddr table (testReadonlyAddr >>> 12)) &&& ~~~pdeW)
  have hend : (setupGuestPageTables dir table m).2 = fillLoop dir large 1023 1 m₅ := by
    simp only [setupGuestPageTables, m₅, m₄, m₃, m₂, small, large]
  have h2 : WritesIn (span dir 4096 ∪ span table 4096) m m₂ :=
    ((memset_writesIn dir 0 4096 m).mono Set.subset_union_left).trans
      ((memset_writesIn table 0 4096 _).mono Set.subset_union_right)
  have h3 : WritesIn (span dir 4096) m₂ m₃ :=
    (writesIn_store32 m₂ _ _).mono (span_entryAddr_subset hd (by decide))
  obtain ⟨h4, hsmall⟩ := fillLoop_spec small (m := m₃) (k := 1024) (i := 0) ht (by simp)
  have h5 : WritesIn (span table 4096) m₄ m₅ :=
    (writesIn_store32 m₄ _ _).mono (span_entryAddr_subset ht hidx)
  obtain ⟨h6, hlarge⟩ := fillLoop_spec large (m := m₅) (k := 1023) (i := 1) hd (by simp)
  rw [hend]
  refine ⟨?_, ?_, ?_⟩
  · exact (((h2.trans (h3.mono Set.subset_union_left)).trans (h4.mono Set.subset_union_right)).trans
      (h5.mono Set.subset_union_right)).trans (h6.mono Set.subset_union_left)
  · have htable : HoldsTable m₅ table guestPageTable := by
      intro i hi
      have hfill (j : Word) (hj : j.toNat < 1024) : m₄.load32 (entryAddr table j) = small j := by
        rw [hsmall j hj, if_pos ⟨Nat.zero_le _, by simpa using hj⟩]
      rw [guestPageTable]
      split_ifs with he
      · subst he
        rw [load32_store32_self, hfill _ hidx]
      · rw [load32_store32_entry ht hidx hi he, hfill i hi]
    exact htable.frame ht h6 hapart.symm
  · intro i hi
    rw [hlarge i hi, guestPageDir]
    by_cases hz : i = 0
    · subst hz
      have hkeep : Disjoint (span (entryAddr dir 0) 4) (span table 4096) :=
        hapart.mono_left (span_entryAddr_subset hd hi)
      rw [if_neg (by decide), if_pos rfl, h5.load32_eq hkeep, h4.load32_eq hkeep,
        load32_store32_self]
    · have hpos : i.toNat ≠ 0 := fun he => hz (BitVec.eq_of_toNat_eq he)
      rw [if_neg hz, if_pos]
      change 1 ≤ i.toNat ∧ i.toNat < 1 + 1023
      omega

/-- An aligned table address with the flags of a directory entry. -/
theorem tablePde_spec (ht : table.toNat % 4096 = 0) :
    (table ||| pdeP ||| pdeW ||| pdeU) &&& 0xfffff000 = table ∧
      (table ||| pdeP ||| pdeW ||| pdeU).getLsbD 7 = false := by
  have hframe := and_frame_of_aligned ht
  constructor
  · rw [BitVec.or_assoc, BitVec.or_assoc, BitVec.and_or_distrib_right, hframe]
    exact BitVec.or_zero
  · rw [← hframe]
    simp [pdeP, pdeW, pdeU]

/-- The entries of the guest table map their page and are readable by everyone. -/
theorem guestPageTable_spec {i : Word} (hi : i.toNat < 1024) :
    (guestPageTable i).toNat / 2 ^ 12 = i.toNat ∧ (guestPageTable i).getLsbD 0 = true ∧
      (guestPageTable i).getLsbD 1 = decide (i ≠ testReadonlyAddr >>> 12) ∧
      (guestPageTable i).getLsbD 2 = true := by
  rw [guestPageTable]
  split_ifs with he
  · subst he
    decide
  · have hval := toNat_shiftLeft_or (i := i) (f := pdeP ||| pdeW ||| pdeU) (k := 12)
      (by omega) (by decide)
    rw [show (pdeP ||| pdeW ||| pdeU).toNat = 7 from rfl] at hval
    rw [BitVec.or_assoc, BitVec.or_assoc, ← BitVec.or_assoc pdeP, hval]
    refine ⟨by omega, ?_, ?_, ?_⟩
    · simp [pdeP, pdeW, pdeU]
    · simp [pdeP, pdeW, pdeU, he]
    · simp [pdeP, pdeW, pdeU]

/-- The large entries of the guest directory map their 4 MB for everyone. -/
theorem guestPageDir_spec (table : Word) {i : Word} (hi : i.toNat < 1024) (hne : i ≠ 0) :
    (guestPageDir table i).toNat / 2 ^ 22 = i.toNat ∧ (guestPageDir table i).getLsbD 0 = true ∧
      (guestPageDir table i).getLsbD 1 = true ∧ (guestPageDir table i).getLsbD 2 = true ∧
      (guestPageDir table i).getLsbD 7 = true := by
  have hval := toNat_shiftLeft_or (i := i) (f := pdeP ||| pdeW ||| pdeU ||| pdePs) (k := 22)
    (by omega) (by decide)
  rw [show (pdeP ||| pdeW ||| pdeU ||| pdePs).toNat = 135 from rfl] at hval
  rw [guestPageDir, if_neg hne, BitVec.or_assoc, BitVec.or_assoc, BitVec.or_assoc,
    ← BitVec.or_assoc pdeW, ← BitVec.or_assoc pdeP, ← BitVec.or_assoc pdeP, hval]
  refine ⟨by omega, ?_, ?_, ?_, ?_⟩ <;> simp [pdeP, pdeW, pdeU, pdePs]

/-- The guest tables are an identity map for everyone, with one read-only page. -/
theorem walk_guest (hd : dir.toNat % 4096 = 0) (ht : table.toNat % 4096 = 0)
    (hT : HoldsTable m table guestPageTable) (hD : HoldsTable m dir (guestPageDir table))
    (v : Word) :
    walk m.load32 dir v = some ⟨v, decide (v.toNat / 4096 ≠ 0x103), true⟩ := by
  have hv := v.isLt
  have hidx := toNat_dirIndex v
  have hload := hD (dirIndex v) (by omega)
  by_cases hz : dirIndex v = 0
  · have hlow : v.toNat < 2 ^ 22 := by
      rw [hz] at hidx
      change 0 = v.toNat / 2 ^ 22 at hidx
      omega
    have htab := toNat_tableIndex v
    have hsmall : (tableIndex v).toNat = v.toNat / 4096 := by omega
    have hload' := hT (tableIndex v) (by omega)
    obtain ⟨hpage, hp, hw, hu⟩ := guestPageTable_spec (i := tableIndex v) (by omega)
    obtain ⟨hframe, hps⟩ := tablePde_spec ht
    rw [guestPageDir, if_pos hz] at hload
    have hbits : (table ||| pdeP ||| pdeW ||| pdeU).getLsbD 0 = true ∧
        (table ||| pdeP ||| pdeW ||| pdeU).getLsbD 1 = true ∧
        (table ||| pdeP ||| pdeW ||| pdeU).getLsbD 2 = true := by
      refine ⟨?_, ?_, ?_⟩ <;> simp [pdeP, pdeW, pdeU]
    rw [walk_small hd hload hbits.1 hps hframe hload' hp, join_small (by omega), hbits.2.1,
      hbits.2.2, hw, hu]
    have hro : tableIndex v ≠ testReadonlyAddr >>> 12 ↔ v.toNat / 4096 ≠ 0x103 := by
      rw [← hsmall, ne_eq, ← BitVec.toNat_inj]
      rfl
    simp only [hro, Bool.true_and, Bool.and_self]
  · obtain ⟨hpage, hp, hw, hu, hps⟩ := guestPageDir_spec table
      (show (dirIndex v).toNat < 1024 by omega) hz
    have hhigh : v.toNat / 4096 ≠ 0x103 := by
      have hpos : (dirIndex v).toNat ≠ 0 := fun he => hz (BitVec.eq_of_toNat_eq he)
      omega
    rw [walk_large hd hload hp hps, join_large (by omega), hw, hu, decide_eq_true hhigh]

/-- On the tables that `setup_guest_page_tables` produces every address translates to
itself for everyone, and may be written outside the page of `TEST_READONLY_ADDR` only. -/
theorem setupGuestPageTables_identity (hd : dir.toNat % 4096 = 0) (ht : table.toNat % 4096 = 0)
    (hne : dir ≠ table) (m : Memory) (v : Word) :
    ∃ t, walk (setupGuestPageTables dir table m).2.load32 (setupGuestPageTables dir table m).1 v =
        some t ∧ t.phys = v ∧ t.user = true ∧
      (t.writable = true ↔ v.toNat / 4096 ≠ testReadonlyAddr.toNat / 4096) := by
  obtain ⟨_, hT, hD⟩ := setupGuestPageTables_spec hd ht hne m
  exact ⟨_, walk_guest hd ht hT hD v, rfl, rfl, decide_eq_true_iff⟩

/-- The address of the test itself, with the tables at 0x10a000 and 0x10b000. -/
theorem setupGuestPageTables_identity_test :
    ∃ t, walk (setupGuestPageTables 0x10a000 0x10b000 bootTables).2.load32
        (setupGuestPageTables 0x10a000 0x10b000 bootTables).1 testReadonlyAddr = some t ∧
      t.phys = testReadonlyAddr ∧ t.user = true ∧
      (t.writable = true ↔ testReadonlyAddr.toNat / 4096 ≠ testReadonlyAddr.toNat / 4096) :=
  setupGuestPageTables_identity (by simp) (by simp) (by decide) bootTables testReadonlyAddr

end DmfOs
