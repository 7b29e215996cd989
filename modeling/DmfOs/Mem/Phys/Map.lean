import DmfOs.Mem.Phys.Log

/-!
# The map of the pool

`phys_alloc_show` prints the log as used regions and the rest of the pool as
free. The log holds the first grants with the sizes that were asked for, while
the base moves by the padded ones. `PhysHistory` keeps every grant of a run, so
that the log, the base and the printed map can be compared with it.
-/

namespace DmfOs

/-- A request that was served: the address returned for it, the size originally asked for and
the padding in front of it. -/
structure PhysGrant where
  addr : Word
  size : Word
  padding : Nat
  deriving DecidableEq, Repr

namespace PhysGrant

/-- The log entry of a grant. -/
def region (g : PhysGrant) : PhysAllocRegion := ⟨g.addr, g.size⟩

/-- The address behind a grant. -/
def stop (g : PhysGrant) : Nat := g.addr.toNat + g.size.toNat

/-- The line that `phys_alloc_show` prints for a grant. -/
def line (g : PhysGrant) : RegionLine := ⟨g.addr, g.addr + g.size - 1, "USED"⟩

end PhysGrant

/-- The allocator with everything it has granted, in order. -/
structure PhysHistory where
  state : PhysState
  grants : List PhysGrant

namespace PhysHistory

/-- The request does not pass the check of `phys_alloc_aligned_safe`. -/
def Refuses (w : PhysHistory) (r : PhysRequest) : Prop :=
  w.state.topSafe r.safe - w.state.base < w.state.taken r.size r.align

instance (w : PhysHistory) (r : PhysRequest) : Decidable (w.Refuses r) :=
  inferInstanceAs (Decidable (_ < _))

/-- Issue a request and note its grant. -/
def request (w : PhysHistory) (r : PhysRequest) : PhysHistory :=
  let (addr, state) := w.state.physAllocAlignedSafe r.size r.align r.safe
  ⟨state,
    if w.Refuses r then w.grants
    else w.grants ++
      [⟨addr, r.size, alignUp w.state.base.toNat r.align.toNat - w.state.base.toNat⟩]⟩

/-- One request of a run, whose size and padding together are a word. -/
def Step (w : PhysHistory) (r : PhysRequest) (w' : PhysHistory) : Prop :=
  w.state.need r.size r.align < 2 ^ 32 ∧ w' = w.request r

/-- The log and the base tell the history of a pool that starts at `b`. -/
structure Truthful (b : Nat) (w : PhysHistory) : Prop where
  /-- The log counts the grants up to its capacity. -/
  count : w.state.nrRegions = min w.grants.length physAllocNrRegions
  /-- The entries in use are the first grants in order. -/
  entries : (List.range w.state.nrRegions).map w.state.regions =
    (w.grants.take physAllocNrRegions).map PhysGrant.region
  /-- Entries in use are in order of their addresses and do not overlap. -/
  sorted : ∀ i j, i < j → j < w.state.nrRegions →
    (w.state.regions i).base.toNat + (w.state.regions i).size.toNat ≤
      (w.state.regions j).base.toNat
  /-- Entries in use end at or below the base. -/
  below : ∀ i < w.state.nrRegions,
    (w.state.regions i).base.toNat + (w.state.regions i).size.toNat ≤ w.state.base.toNat
  /-- The base has moved by the sizes and paddings of all grants. -/
  moved : w.state.base.toNat =
    b + (w.grants.map fun g => g.size.toNat + g.padding).sum
  /-- The printed map is made of the first grants and the rest of the pool. -/
  printed : w.state.physAllocShow.2 =
    (w.grants.take physAllocNrRegions).map PhysGrant.line ++
      [⟨w.state.base, w.state.top - 1, "FREE"⟩]

/-- The grants are stacked below the base and the log holds the first of them. -/
structure Stacked (b e : Nat) (w : PhysHistory) : Prop where
  top_eq : w.state.top.toNat = e
  upper : w.state.base.toNat ≤ e
  stacked : w.grants.Pairwise fun g g' => g.stop ≤ g'.addr.toNat
  below : ∀ g ∈ w.grants, g.stop ≤ w.state.base.toNat
  moved : w.state.base.toNat =
    b + (w.grants.map fun g => g.size.toNat + g.padding).sum
  count : w.state.nrRegions = min w.grants.length physAllocNrRegions
  entries : (List.range w.state.nrRegions).map w.state.regions =
    (w.grants.take physAllocNrRegions).map PhysGrant.region

variable {b e : Nat} {w w' : PhysHistory} {r : PhysRequest}

/-- A refused request leaves no trace. -/
theorem request_of_refuses (h : w.Refuses r) : w.request r = w := by
  have hcheck : w.state.top - w.state.base < w.state.taken r.size r.align := by
    simpa [Refuses] using h
  simp only [request, PhysState.physAllocAlignedSafe_eq, if_pos hcheck, if_pos h]

/-- A granted request is served at the rounded base, logged and noted. -/
theorem request_of_not_refuses (h : ¬ w.Refuses r) :
    w.request r = ⟨w.state.grant r.size r.align,
      w.grants ++ [⟨alignWord w.state.base r.align, r.size,
        alignUp w.state.base.toNat r.align.toNat - w.state.base.toNat⟩]⟩ := by
  have hcheck : ¬ w.state.top - w.state.base < w.state.taken r.size r.align := by
    simpa [Refuses] using h
  simp only [request, PhysState.physAllocAlignedSafe_eq, if_neg hcheck, if_neg h]

/-- The caller sees a refusal as one, except that it takes the empty grant at the last address
for another. -/
theorem answer_eq_invalid_iff (w : PhysHistory) (r : PhysRequest) :
    (w.state.physAllocAlignedSafe r.size r.align r.safe).1 = invalidPhysAddr ↔
      w.Refuses r ∨ r.align = 1 ∧ w.state.base = invalidPhysAddr := by
  have hcheck : w.Refuses r ↔ w.state.top - w.state.base < w.state.taken r.size r.align := by
    simp [Refuses]
  rw [hcheck, PhysState.physAllocAlignedSafe_eq]
  split_ifs with h
  · exact iff_of_true rfl (Or.inl h)
  · refine ⟨fun hn => Or.inr (PhysRun.alignWord_eq_invalid (w := ⟨w.state, []⟩) r.pow2 hn), ?_⟩
    rintro (h' | ⟨hone, hbase⟩)
    · exact absurd h' h
    · rw [hone, hbase]
      rfl

/-- The log after a grant, while it has room. -/
theorem entries_log {s : PhysState} {gs : List PhysGrant} {g : PhysGrant}
    (hcount : s.nrRegions = min gs.length physAllocNrRegions)
    (hentries : (List.range s.nrRegions).map s.regions =
      (gs.take physAllocNrRegions).map PhysGrant.region) :
    (s.log g.addr g.size).nrRegions = min (gs ++ [g]).length physAllocNrRegions ∧
      (List.range (s.log g.addr g.size).nrRegions).map (s.log g.addr g.size).regions =
        ((gs ++ [g]).take physAllocNrRegions).map PhysGrant.region := by
  rw [PhysState.log_regions, PhysState.log_nrRegions, List.length_append, List.length_singleton]
  by_cases hroom : s.nrRegions < physAllocNrRegions
  · have hlen : gs.length = s.nrRegions := by omega
    simp only [if_pos hroom]
    refine ⟨by omega, ?_⟩
    rw [List.take_of_length_le (by omega)] at hentries
    rw [List.take_of_length_le (by simp; omega), List.map_append, ← hentries, List.range_succ,
      List.map_append]
    refine congrArg₂ _ (List.map_congr_left fun i hi => if_neg ?_) ?_
    · exact (List.mem_range.mp hi).ne
    · simp [PhysGrant.region]
  · simp only [if_neg hroom]
    rw [List.take_append_of_le_length (by omega)]
    exact ⟨by omega, hentries⟩

/-- A request whose room is a word keeps the grants stacked. -/
theorem Stacked.step (h : w.Stacked b e) (hs : w.Step r w') : w'.Stacked b e := by
  obtain ⟨hneed, rfl⟩ := hs
  have htop := h.top_eq
  have hupper := h.upper
  by_cases hrefused : w.Refuses r
  · rw [request_of_refuses hrefused]
    exact h
  · have hle : w.state.base.toNat ≤ w.state.top.toNat := by omega
    have hfit : alignUp w.state.base.toNat r.align.toNat + r.size.toNat ≤ w.state.top.toNat := by
      have hcheck : ¬ w.state.top - w.state.base < w.state.taken r.size r.align := by
        simpa [Refuses] using hrefused
      rw [PhysState.refuses_iff_exact r.pow2 hle hneed] at hcheck
      omega
    obtain ⟨haddr, hbase⟩ := PhysState.served_of_fits r.pow2 hfit
    have hge := le_alignUp w.state.base.toNat r.pow2.pos
    rw [request_of_not_refuses hrefused]
    obtain ⟨hcount, hentries⟩ := entries_log
      (s := { w.state with base := w.state.base + w.state.taken r.size r.align })
      (g := ⟨alignWord w.state.base r.align, r.size,
        alignUp w.state.base.toNat r.align.toNat - w.state.base.toNat⟩) h.count h.entries
    refine ⟨?_, ?_, ?_, ?_, ?_, hcount, hentries⟩
    · rw [PhysState.grant_top]
      exact htop
    · rw [hbase]
      omega
    · -- older grants end at the old base, the new one starts at or above it
      rw [List.pairwise_append]
      refine ⟨h.stacked, List.pairwise_singleton _ _, fun g hg g' hg' => ?_⟩
      rw [List.mem_singleton.mp hg', haddr]
      exact (h.below g hg).trans hge
    · intro g hg
      rw [hbase]
      rcases List.mem_append.mp hg with hg | hg
      · have := h.below g hg
        omega
      · rw [List.mem_singleton.mp hg, PhysGrant.stop, haddr]
    · rw [hbase, List.map_append, List.sum_append, List.map_singleton, List.sum_singleton]
      have := h.moved
      dsimp only
      omega

/-- Stacked grants make the log truthful. -/
theorem Stacked.truthful (h : w.Stacked b e) : w.Truthful b := by
  have hsorted : ((List.range w.state.nrRegions).map w.state.regions).Pairwise
      fun x y => x.base.toNat + x.size.toNat ≤ y.base.toNat := by
    rw [h.entries, List.pairwise_map]
    exact h.stacked.sublist (List.take_sublist _ _)
  refine ⟨h.count, h.entries, fun i j hij hj => ?_, fun i hi => ?_, h.moved, ?_⟩
  · have hpair :=
      List.pairwise_iff_getElem.mp hsorted i j (by simp; omega) (by simpa using hj) hij
    simpa only [List.getElem_map, List.getElem_range] using hpair
  · have hmem : w.state.regions i ∈ (w.grants.take physAllocNrRegions).map PhysGrant.region := by
      rw [← h.entries]
      exact List.mem_map_of_mem (List.mem_range.mpr hi)
    obtain ⟨g, hg, he⟩ := List.mem_map.mp hmem
    rw [← he]
    exact h.below g (List.mem_of_mem_take hg)
  · have hlines := congrArg (List.map fun x : PhysAllocRegion =>
      (⟨x.base, x.base + x.size - 1, "USED"⟩ : RegionLine)) h.entries
    rw [List.map_map, List.map_map] at hlines
    exact congrArg (· ++ _) hlines

/-- A fresh pool, with nothing granted. -/
def start (s : PhysState) (baseAddr size : Word) : PhysHistory :=
  ⟨s.physAllocInit baseAddr size, []⟩

theorem stacked_start (s : PhysState) {baseAddr size : Word}
    (hfit : baseAddr.toNat + size.toNat < 2 ^ 32) :
    Stacked baseAddr.toNat (baseAddr.toNat + size.toNat) (start s baseAddr size) := by
  have htop : (baseAddr + size).toNat = baseAddr.toNat + size.toNat := by bv_omega
  exact ⟨htop, Nat.le_add_right _ _, .nil, by simp [start], rfl, rfl, rfl⟩

/-- After `phys_alloc_init`, in every run of requests whose room is a word, the log, the base
and the printed map tell the history of the pool. -/
theorem reach_truthful (s : PhysState) {baseAddr size : Word}
    (hfit : baseAddr.toNat + size.toNat < 2 ^ 32) {rs : List PhysRequest}
    (hr : Reach Step (start s baseAddr size) rs w) : w.Truthful baseAddr.toNat := by
  have hstacked := Reach.invariant
    (fun w => w.Stacked baseAddr.toNat (baseAddr.toNat + size.toNat)) hr (stacked_start s hfit)
    fun _ _ _ h hs => h.step hs
  exact hstacked.truthful

/-- A block of 10 bytes aligned to 64 behind one byte, in the pool of `mem_init`. -/
theorem reach_truthful_two_grants : ∃ w, w.grants.length = 2 ∧
    Reach Step (start .initial 0x300000 0x7ce0000)
      [⟨1, 1, true, ⟨0, rfl⟩⟩, ⟨10, 64, true, ⟨6, rfl⟩⟩] w ∧ w.Truthful 0x300000 := by
  have hrun := Reach.snoc (R := Step) (Reach.snoc (R := Step)
    (s := start .initial 0x300000 0x7ce0000) (i := ⟨1, 1, true, ⟨0, rfl⟩⟩) .nil
    ⟨by decide, rfl⟩) (i := ⟨10, 64, true, ⟨6, rfl⟩⟩) ⟨by decide, rfl⟩
  exact ⟨_, rfl, hrun, reach_truthful .initial (by decide) hrun⟩

end PhysHistory

end DmfOs
