import DmfOs.Vm.Exit
import DmfOs.Paging.Tables

/-!
# Repair of guest page faults

`exit_handler` answers a page fault of the guest by moving it to the page
directory of the host. That directory maps the first 4 MB only, while the tables
of the guest map every address, so the repair keeps the mapping of an address
exactly below 4 MB.
-/

namespace DmfOs

open Memory

/-- The pages of `guest_page_dir`, `guest_page_table` and `page_dir`: three aligned objects. -/
structure TablePages (dir table host : Word) : Prop where
  dir_aligned : dir.toNat % 4096 = 0
  table_aligned : table.toNat % 4096 = 0
  host_aligned : host.toNat % 4096 = 0
  dir_ne_table : dir ≠ table
  dir_ne_host : dir ≠ host
  table_ne_host : table ≠ host

variable {dir table host : Word} {m m' : Memory}

/-- The tables that `setup_guest_page_tables` builds stay as long as nothing is
written into the three pages. -/
theorem TablePages.hold {S : Set Word} (hp : TablePages dir table host)
    (hhost : HoldsTable m host pageDir)
    (hw : WritesIn S (setupGuestPageTables dir table m).2 m')
    (hS : Disjoint (span dir 4096 ∪ span table 4096 ∪ span host 4096) S) :
    HoldsTable m' table guestPageTable ∧ HoldsTable m' dir (guestPageDir table) ∧
      HoldsTable m' host pageDir := by
  obtain ⟨hsetup, htable, hdir⟩ :=
    setupGuestPageTables_spec hp.dir_aligned hp.table_aligned hp.dir_ne_table m
  rw [Set.disjoint_union_left, Set.disjoint_union_left] at hS
  obtain ⟨⟨hSdir, hStable⟩, hShost⟩ := hS
  have hapart : Disjoint (span host 4096) (span dir 4096 ∪ span table 4096) := by
    rw [Set.disjoint_union_right]
    exact ⟨(disjoint_pages hp.dir_aligned hp.host_aligned hp.dir_ne_host).symm,
      (disjoint_pages hp.table_aligned hp.host_aligned hp.table_ne_host).symm⟩
  refine ⟨htable.frame hp.table_aligned hw hStable, hdir.frame hp.dir_aligned hw hSdir, ?_⟩
  exact (hhost.frame hp.host_aligned hsetup hapart).frame hp.host_aligned hw hShost

namespace Vm

variable {s : Vm}

/-- The guest, running on the directory at `dir`, left with a page fault, and the host
runs on the one at `host`. -/
structure PageFault (dir host : Word) (s : Vm) : Prop where
  current : s.current = true
  reason : exitReason s = 0
  vector : exitVector s = 14
  guestCr3 : s.fields .guestCr3 = dir
  hostCr3 : s.cr3 = host

/-- A linear address as the guest translates it. -/
def guestWalk (s : Vm) (v : Word) : Option Translation :=
  walk s.mem.load32 (s.fields .guestCr3) v

/-- The guest is resumed, `v` is translated as before with no fewer rights, and the
page of the faulting address `a` is writable. -/
structure Repaired (s : Vm) (a v : Word) : Prop where
  resumed : s.exitHandler.1 = .resume
  translated : ∀ t, s.guestWalk v = some t → ∃ t', s.exitHandler.2.guestWalk v = some t' ∧ t.Le t'
  writable : ∃ t, s.exitHandler.2.guestWalk a = some t ∧ t.writable = true

/-- After a page fault the guest translates through the directory of the host. -/
theorem PageFault.guestWalk_eq (h : PageFault dir host s) (v : Word) :
    s.exitHandler.2.guestWalk v = walk s.mem.load32 host v := by
  have hcall : exitReason s ≠ 18 := by rw [h.reason]; decide
  have hept : exitReason s ≠ 48 := by rw [h.reason]; decide
  obtain ⟨_, _, hcr3⟩ := exitHandler_resumed h.current hcall hept
  rw [guestWalk, (kept_exitHandler s).mem, hcr3, if_pos ⟨h.reason, h.vector⟩, h.hostCr3]

/-- Over the tables of the guest and of the host a page fault is repaired exactly
for addresses below 4 MB. -/
theorem PageFault.repaired_iff (h : PageFault dir host s) (hp : TablePages dir table host)
    (htable : HoldsTable s.mem table guestPageTable)
    (hdir : HoldsTable s.mem dir (guestPageDir table)) (hhost : HoldsTable s.mem host pageDir)
    (a v : Word) : Repaired s a v ↔ v.toNat < 0x400000 ∧ a.toNat < 0x400000 := by
  have hbefore : s.guestWalk v = some ⟨v, decide (v.toNat / 4096 ≠ 0x103), true⟩ := by
    rw [guestWalk, h.guestCr3]
    exact walk_guest hp.dir_aligned hp.table_aligned htable hdir v
  have hafter (x : Word) : s.exitHandler.2.guestWalk x =
      if x.toNat < 0x400000 then some ⟨x, true, true⟩ else none := by
    rw [h.guestWalk_eq, walk_pageDir hp.host_aligned hhost]
  constructor
  · intro hr
    obtain ⟨t', ht', _⟩ := hr.translated _ hbefore
    obtain ⟨t, ht, _⟩ := hr.writable
    rw [hafter] at ht' ht
    constructor
    · by_contra hv
      rw [if_neg hv] at ht'
      cases ht'
    · by_contra ha
      rw [if_neg ha] at ht
      cases ht
  · rintro ⟨hv, ha⟩
    have hcall : exitReason s ≠ 18 := by rw [h.reason]; decide
    have hept : exitReason s ≠ 48 := by rw [h.reason]; decide
    refine ⟨(exitHandler_resumed h.current hcall hept).1, fun t ht => ?_, ?_⟩
    · rw [hbefore] at ht
      cases ht
      exact ⟨_, (hafter v).trans (if_pos hv), rfl, fun _ => rfl, fun _ => rfl⟩
    · exact ⟨_, (hafter a).trans (if_pos ha), rfl⟩

/-- When the guest runs on the tables that `setup_guest_page_tables` built and nothing
was written into them since, a page fault is repaired exactly for addresses below 4 MB. -/
theorem repaired_iff_below_4M {S : Set Word} (hp : TablePages dir table host)
    (hhost : HoldsTable m host pageDir)
    (hw : WritesIn S (setupGuestPageTables dir table m).2 s.mem)
    (hS : Disjoint (span dir 4096 ∪ span table 4096 ∪ span host 4096) S)
    (h : PageFault dir host s) (a v : Word) :
    Repaired s a v ↔ v.toNat < 0x400000 ∧ a.toNat < 0x400000 := by
  obtain ⟨htable, hdir, hhost'⟩ := hp.hold hhost hw hS
  exact h.repaired_iff hp htable hdir hhost' a v

/-- The exit at the write of the guest program to the read-only page, over the given memory. -/
def readonlyWrite (m : Memory) : Vm :=
  { initial m with
    cr2 := testReadonlyAddr
    cr3 := 0xa000
    current := true
    fields := fun e =>
      if e = .guestCr3 then 0x10a000 else if e = .exiIntrInfo then 0x80000b0e else 0 }

theorem readonlyWrite_mem (m : Memory) : (readonlyWrite m).mem = m := rfl

theorem readonlyWrite_pages : TablePages 0x10a000 0x10b000 0xa000 :=
  ⟨rfl, rfl, rfl, by decide, by decide, by decide⟩

theorem readonlyWrite_pageFault (m : Memory) : PageFault 0x10a000 0xa000 (readonlyWrite m) :=
  ⟨rfl, by simp [exitReason, readonlyWrite], by simp [exitVector, readonlyWrite], rfl, rfl⟩

/-- The memory of that exit, when the guest has not written anything. -/
def builtTables : Memory := (setupGuestPageTables 0x10a000 0x10b000 bootTables).2

theorem builtTables_writesIn : WritesIn ∅ (setupGuestPageTables 0x10a000 0x10b000 bootTables).2
    (readonlyWrite builtTables).mem := by
  rw [readonlyWrite_mem, builtTables]
  exact .refl ∅ _

/-- That exit, seen at the last address that the host maps. -/
theorem repaired_iff_below_4M_readonlyWrite :
    Repaired (readonlyWrite builtTables) testReadonlyAddr 0x3fffff ↔
      (0x3fffff : Word).toNat < 0x400000 ∧ testReadonlyAddr.toNat < 0x400000 :=
  repaired_iff_below_4M readonlyWrite_pages bootTables_pageDir
    builtTables_writesIn (Set.disjoint_empty _)
    (readonlyWrite_pageFault _) _ _

/-- Its repair takes the mapping of the next address away. -/
theorem not_repaired_readonlyWrite :
    ¬ Repaired (readonlyWrite builtTables) testReadonlyAddr 0x400000 := by
  have hw := builtTables_writesIn
  obtain ⟨htable, hdir, hhost⟩ := readonlyWrite_pages.hold bootTables_pageDir hw
    (Set.disjoint_empty _)
  rw [(readonlyWrite_pageFault builtTables).repaired_iff readonlyWrite_pages htable hdir hhost]
  decide

end Vm

end DmfOs
