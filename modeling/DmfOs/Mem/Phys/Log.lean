import DmfOs.Mem.Phys.Grants

/-!
# The region log of the early allocator

The functions that use the log of `alloc_phy.c`, with the indices of the array that
they access. `phys_alloc_aligned_safe` appends while there is room;
`phys_alloc_get_unused` appends whenever something is left of the pool.
-/

namespace DmfOs

/-- A line of the report of `phys_alloc_show`. -/
structure RegionLine where
  first : Word
  last : Word
  tag : String
  deriving DecidableEq, Repr

/-- A call of one of the functions that use the log. -/
inductive PhysOp where
  | init (baseAddr size : Word)
  | alignedSafe (size align : Word) (safe : Bool)
  | getUnused
  | show
  deriving DecidableEq, Repr

namespace PhysState

/-- `phys_alloc_get_unused`, with what it stores for its caller. -/
def physAllocGetUnused (s : PhysState) : (Word × Word) × PhysState :=
  let pBase := s.base
  let pTop := s.top
  if s.base = s.top then ((pBase, pTop), s)
  else
    let s := { s with
      regions := fun i => if i = s.nrRegions then ⟨s.base, s.top - s.base⟩ else s.regions i }
    let s := { s with nrRegions := s.nrRegions + 1 }
    ((pBase, pTop), { s with base := s.top })

/-- `phys_alloc_show`: the minimum alignment and the lines of the regions. -/
def physAllocShow (s : PhysState) : Word × List RegionLine :=
  (s.alignMin,
    (List.range s.nrRegions).map
        (fun i => ⟨(s.regions i).base, (s.regions i).base + (s.regions i).size - 1, "USED"⟩) ++
      [⟨s.base, s.top - 1, "FREE"⟩])

/-- The state after a call. -/
def apply (s : PhysState) : PhysOp → PhysState
  | .init baseAddr size => s.physAllocInit baseAddr size
  | .alignedSafe size align safe => (s.physAllocAlignedSafe size align safe).2
  | .getUnused => s.physAllocGetUnused.2
  | .show => s

/-- The indices of `regions` that a call reads or writes. -/
def accesses (s : PhysState) : PhysOp → List Nat
  | .init _ _ => []
  | .alignedSafe size align _ =>
    if s.top - s.base < s.taken size align then []
    else if s.nrRegions < physAllocNrRegions then [s.nrRegions]
    else []
  | .getUnused => if s.base = s.top then [] else [s.nrRegions]
  | .show => List.range s.nrRegions

/-- One call of a run. -/
def Applies (s : PhysState) (op : PhysOp) (s' : PhysState) : Prop := s' = s.apply op

/-- The log holds no more than its array after the call, and the call stays inside it. -/
structure LogInBounds (s : PhysState) (op : PhysOp) : Prop where
  nrRegions_le : (s.apply op).nrRegions ≤ physAllocNrRegions
  inside : ∀ i ∈ s.accesses op, i < physAllocNrRegions

/-- What is left of the pool is taken only while the log has room. -/
def HasLogRoom (s : PhysState) (op : PhysOp) : Prop :=
  op = .getUnused → s.base ≠ s.top → s.nrRegions < physAllocNrRegions

variable {s : PhysState} {op : PhysOp}

/-! ## The accesses are those of the functions -/

theorem log_regions (s : PhysState) (addr size : Word) :
    (s.log addr size).regions =
      if s.nrRegions < physAllocNrRegions then
        fun i => if i = s.nrRegions then ⟨addr, size⟩ else s.regions i
      else s.regions := by
  unfold log
  split_ifs <;> rfl

theorem log_nrRegions (s : PhysState) (addr size : Word) :
    (s.log addr size).nrRegions =
      if s.nrRegions < physAllocNrRegions then s.nrRegions + 1 else s.nrRegions := by
  unfold log
  split_ifs <;> rfl

/-- A call writes no entry but those that it accesses. -/
theorem apply_regions {i : Nat} (h : i ∉ s.accesses op) :
    (s.apply op).regions i = s.regions i := by
  cases op with
  | init baseAddr size => rfl
  | «show» => rfl
  | getUnused =>
    rw [accesses] at h
    rw [apply, physAllocGetUnused]
    split_ifs at h ⊢ with hempty
    · rfl
    · exact if_neg (by simpa using h)
  | alignedSafe size align safe =>
    rw [accesses] at h
    rw [apply, physAllocAlignedSafe_eq]
    split_ifs at h ⊢ with hrefused hroom
    · rfl
    · rw [grant, log_regions, if_pos hroom]
      exact if_neg (by simpa using h)
    · rw [grant, log_regions, if_neg hroom]

/-- The report reads the entries that it accesses and no others. -/
theorem physAllocShow_congr {s' : PhysState} (hn : s'.nrRegions = s.nrRegions)
    (hpool : s'.base = s.base ∧ s'.top = s.top ∧ s'.alignMin = s.alignMin)
    (h : ∀ i ∈ s.accesses .show, s'.regions i = s.regions i) :
    s'.physAllocShow = s.physAllocShow := by
  have hlines : (List.range s.nrRegions).map (fun i => (⟨(s'.regions i).base,
        (s'.regions i).base + (s'.regions i).size - 1, "USED"⟩ : RegionLine)) =
      (List.range s.nrRegions).map (fun i => ⟨(s.regions i).base,
        (s.regions i).base + (s.regions i).size - 1, "USED"⟩) :=
    List.map_congr_left fun i hi => by rw [h i hi]
  rw [physAllocShow, physAllocShow, hn, hpool.1, hpool.2.1, hpool.2.2, hlines]

/-! ## The bound over runs -/

/-- With the log within its array, a call stays inside exactly when it has room. -/
theorem logInBounds_iff (hn : s.nrRegions ≤ physAllocNrRegions) :
    LogInBounds s op ↔ HasLogRoom s op := by
  cases op with
  | init baseAddr size =>
    refine iff_of_true ⟨Nat.zero_le _, by simp [accesses]⟩ ?_
    rintro ⟨⟩
  | «show» =>
    refine iff_of_true ⟨hn, fun i hi => ?_⟩ ?_
    · rw [accesses, List.mem_range] at hi
      omega
    · rintro ⟨⟩
  | alignedSafe size align safe =>
    refine iff_of_true ⟨?_, fun i hi => ?_⟩ ?_
    · rw [apply, physAllocAlignedSafe_eq]
      split_ifs
      · exact hn
      · simp only [grant, log_nrRegions]
        split_ifs <;> omega
    · rw [accesses] at hi
      split_ifs at hi with _ hroom
      · cases hi
      · rcases List.mem_singleton.mp hi with rfl
        exact hroom
      · cases hi
    · rintro ⟨⟩
  | getUnused =>
    by_cases hempty : s.base = s.top
    · refine iff_of_true ⟨?_, ?_⟩ fun _ hne => absurd hempty hne
      · rw [apply, physAllocGetUnused, if_pos hempty]
        exact hn
      · rw [accesses, if_pos hempty]
        simp
    · constructor
      · intro h _ _
        exact h.inside _ (by rw [accesses, if_neg hempty]; exact List.mem_singleton.mpr rfl)
      · intro h
        have hroom := h rfl hempty
        refine ⟨?_, ?_⟩
        · rw [apply, physAllocGetUnused, if_neg hempty]
          exact hroom
        · rw [accesses, if_neg hempty]
          simpa using hroom

/-- From the start of the kernel, every call of a run keeps the log inside its array if
and only if, whenever something is left of the pool, it is taken with room in the log. -/
theorem along_logInBounds_iff (ops : List PhysOp) :
    Along Applies LogInBounds initial ops ↔ Along Applies HasLogRoom initial ops := by
  refine along_iff (fun s => s.nrRegions ≤ physAllocNrRegions) (Nat.zero_le _)
    (fun s op hn => logInBounds_iff hn) ?_
  rintro s op _ hn hroom rfl
  exact ((logInBounds_iff hn).mpr hroom).nrRegions_le

/-- A request for one byte is granted, logged and moves the base by one. -/
theorem apply_byte (hroom : s.nrRegions < physAllocNrRegions)
    (hfit : s.base.toNat + 1 ≤ s.top.toNat) :
    (s.apply (.alignedSafe 1 1 true)).nrRegions = s.nrRegions + 1 ∧
      (s.apply (.alignedSafe 1 1 true)).base.toNat = s.base.toNat + 1 ∧
      (s.apply (.alignedSafe 1 1 true)).top = s.top := by
  have hp : IsPow2 1 := ⟨0, rfl⟩
  have hup : alignUp s.base.toNat (1 : Word).toNat = s.base.toNat := by simp [alignUp]
  have hfit' : alignUp s.base.toNat (1 : Word).toNat + (1 : Word).toNat ≤ s.top.toNat := by
    rw [hup]
    exact hfit
  have hn : s.need 1 1 < 2 ^ 32 := by
    have := s.top.isLt
    have := base_add_need s 1 hp
    omega
  have hgranted : ¬ s.top - s.base < s.taken 1 1 := by
    rw [refuses_iff_exact hp (by omega) hn]
    omega
  obtain ⟨_, hbase⟩ := served_of_fits hp hfit'
  rw [apply, physAllocAlignedSafe_eq, if_neg hgranted]
  refine ⟨?_, ?_, grant_top _ _ _⟩
  · rw [grant, log_nrRegions]
    exact if_pos hroom
  · rw [hbase, hup]
    rfl

/-- Requests for one byte fill the log one entry at a time. -/
theorem reach_bytes (k : Nat) (hroom : s.nrRegions + k ≤ physAllocNrRegions)
    (hfit : s.base.toNat + k ≤ s.top.toNat) :
    ∃ t, Reach Applies s (List.replicate k (.alignedSafe 1 1 true)) t ∧
      t.nrRegions = s.nrRegions + k ∧ t.base.toNat = s.base.toNat + k ∧ t.top = s.top := by
  induction k generalizing s with
  | zero => exact ⟨s, .nil, rfl, rfl, rfl⟩
  | succ k ih =>
    obtain ⟨hnr, hbase, htop⟩ := apply_byte (s := s) (by omega) (by omega)
    obtain ⟨t, hreach, hnr', hbase', htop'⟩ := ih (s := s.apply (.alignedSafe 1 1 true))
      (by omega) (by rw [htop]; omega)
    refine ⟨t, .cons rfl hreach, by omega, by omega, htop'.trans htop⟩

/-- With the log full, taking the rest of the pool writes behind the array. -/
theorem not_along_logInBounds_full :
    ¬ Along Applies LogInBounds initial
      (.init 0x300000 0x7ce0000 ::
        (List.replicate 256 (.alignedSafe 1 1 true) ++ [.getUnused])) := by
  rintro ⟨_, h⟩
  obtain ⟨t, hreach, hnr, hbase, htop⟩ :=
    reach_bytes (s := initial.physAllocInit 0x300000 0x7ce0000) 256 (by decide) (by decide)
  obtain ⟨hlast, _⟩ := (along_append.mp (h _ rfl)).2 t hreach
  have hne : t.base ≠ t.top := by
    intro heq
    rw [heq, htop] at hbase
    exact absurd hbase (by decide)
  have hmem : t.nrRegions ∈ t.accesses .getUnused := by
    rw [accesses, if_neg hne]
    exact List.mem_singleton.mpr rfl
  have hlt := hlast.inside _ hmem
  rw [hnr] at hlt
  exact absurd hlt (by decide)

end PhysState

end DmfOs
