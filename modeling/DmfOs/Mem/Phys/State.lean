import DmfOs.Core.Align

/-!
# The early physical allocator

The static variables and functions of `alloc_phy.c`: a bump pointer `base`
moving towards `top`, a bounded log of the granted regions, and the minimum
alignment of the early back end. Assertions and reports only print, so they
have no counterpart in the state; the spin lock is free at every entry.
-/

namespace DmfOs

/-- The macro `MIN`, on operands already converted to a common type. -/
def minMacro {w : Nat} (a b : BitVec w) : BitVec w := if a < b then a else b

/-- The macro `MAX`, on operands already converted to a common type. -/
def maxMacro {w : Nat} (a b : BitVec w) : BitVec w := if a > b then a else b

/-- `DEFAULT_MINIMUM_ALIGNMENT`. -/
def defaultMinimumAlignment : Word := 64

/-- `INVALID_PHYS_ADDR`. -/
def invalidPhysAddr : Word := ~~~0

/-- `PHYS_ALLOC_NR_REGIONS`. -/
def physAllocNrRegions : Nat := 256

/-- One entry of the region log. -/
structure PhysAllocRegion where
  base : Word
  size : Word
  deriving DecidableEq, Repr

/-- The static variables of the early allocator. -/
structure PhysState where
  /-- The first address not granted yet. -/
  base : Word
  /-- The end of the pool. -/
  top : Word
  /-- The log array, by index from its start. -/
  regions : Nat → PhysAllocRegion
  /-- Number of log entries in use. -/
  nrRegions : Nat
  /-- Whether the full log has been reported. -/
  warned : Bool
  /-- `early_alloc_ops.align_min`. -/
  alignMin : Word

namespace PhysState

/-- The static variables as the kernel image holds them. -/
def initial : PhysState := ⟨0, 0, fun _ => ⟨0, 0⟩, 0, false, defaultMinimumAlignment⟩

/-- `phys_alloc_init`. -/
def physAllocInit (s : PhysState) (baseAddr size : Word) : PhysState :=
  { s with base := baseAddr, top := baseAddr + size, nrRegions := 0 }

/-- `phys_alloc_set_minimum_alignment`; its assertion reports and continues. -/
def physAllocSetMinimumAlignment (s : PhysState) (align : Word) : PhysState :=
  { s with alignMin := align }

/-- Append to the region log, or note once that it is full. -/
def log (s : PhysState) (addr sizeOrig : Word) : PhysState :=
  if s.nrRegions < physAllocNrRegions then
    { s with
      regions := fun i => if i = s.nrRegions then ⟨addr, sizeOrig⟩ else s.regions i
      nrRegions := s.nrRegions + 1 }
  else if !s.warned then { s with warned := true }
  else s

/-- The upper limit of a request: `MIN(top, 1ULL << 32)` when `safe`. -/
def topSafe (s : PhysState) (safe : Bool) : Word :=
  if safe then (minMacro (s.top.setWidth 64) (1#64 <<< 32)).setWidth 32 else s.top

/-- `phys_alloc_aligned_safe`. -/
def physAllocAlignedSafe (s : PhysState) (size align : Word) (safe : Bool) : Word × PhysState :=
  let sizeOrig := size
  let topSafe := s.topSafe safe
  let addr := alignWord s.base align
  let size := size + (addr - s.base)
  if topSafe - s.base < size then (invalidPhysAddr, s)
  else
    let s := { s with base := s.base + size }
    (addr, s.log addr sizeOrig)

/-- `early_memalign`; its assertion reports and continues. -/
def earlyMemalign (s : PhysState) (alignment size : Word) : Word × PhysState :=
  let (addr, s) := s.physAllocAlignedSafe size alignment true
  if addr = invalidPhysAddr then (0, s) else (addr, s)

/-! ## What a request can do -/

@[simp] theorem log_base (s : PhysState) (addr size : Word) : (s.log addr size).base = s.base := by
  unfold log
  split_ifs <;> rfl

@[simp] theorem log_top (s : PhysState) (addr size : Word) : (s.log addr size).top = s.top := by
  unfold log
  split_ifs <;> rfl

@[simp] theorem log_alignMin (s : PhysState) (addr size : Word) :
    (s.log addr size).alignMin = s.alignMin := by
  unfold log
  split_ifs <;> rfl

/-- The 64-bit minimum never lowers a 32-bit limit. -/
@[simp] theorem topSafe_eq (s : PhysState) (safe : Bool) : s.topSafe safe = s.top := by
  have htop := s.top.isLt
  have hlt : s.top.setWidth 64 < 1#64 <<< 32 := by
    rw [BitVec.lt_def, BitVec.toNat_setWidth, Nat.mod_eq_of_lt (by omega)]
    exact htop
  cases safe
  · rfl
  · simp only [topSafe, minMacro, ite_true, if_pos hlt, BitVec.setWidth_setWidth_of_le,
      Nat.reduceLeDiff, BitVec.setWidth_eq]

/-- The size that a request takes from the pool: its own and the alignment padding. -/
def taken (s : PhysState) (size align : Word) : Word := size + (alignWord s.base align - s.base)

/-- The state after a granted request. -/
def grant (s : PhysState) (size align : Word) : PhysState :=
  { s with base := s.base + s.taken size align }.log (alignWord s.base align) size

@[simp] theorem grant_base (s : PhysState) (size align : Word) :
    (s.grant size align).base = s.base + s.taken size align := log_base _ _ _

@[simp] theorem grant_top (s : PhysState) (size align : Word) :
    (s.grant size align).top = s.top := log_top _ _ _

@[simp] theorem grant_alignMin (s : PhysState) (size align : Word) :
    (s.grant size align).alignMin = s.alignMin := log_alignMin _ _ _

/-- A request is refused, or served at the aligned base. -/
theorem physAllocAlignedSafe_eq (s : PhysState) (size align : Word) (safe : Bool) :
    s.physAllocAlignedSafe size align safe =
      if s.top - s.base < s.taken size align then (invalidPhysAddr, s)
      else (alignWord s.base align, s.grant size align) := by
  simp only [physAllocAlignedSafe, topSafe_eq]
  rfl

/-- The early back end answers NULL to a refused request and to one served at the refusal
mark. -/
theorem earlyMemalign_eq (s : PhysState) (align size : Word) :
    s.earlyMemalign align size =
      if s.top - s.base < s.taken size align then (0, s)
      else (if alignWord s.base align = invalidPhysAddr then 0 else alignWord s.base align,
        s.grant size align) := by
  rw [earlyMemalign, physAllocAlignedSafe_eq]
  by_cases hrefused : s.top - s.base < s.taken size align
  · simp only [if_pos hrefused, ite_true]
  · simp only [if_neg hrefused]
    split_ifs <;> rfl

end PhysState

end DmfOs
