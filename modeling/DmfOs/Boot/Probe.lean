import DmfOs.Core.Memory

/-!
# The memory probe of the boot sector

`detect_mem` asks the firmware for one region after the other, in real mode and with `es` zero.
The regions come to lie behind their count in the `e820map_t` at `0x1000`. A run is over the
answers of the firmware; the words pushed are kept apart from the memory.
-/

namespace DmfOs

open Memory

namespace Boot

/-! ## The map -/

/-- `BOOT_RAM_REGION_MAX`, the number of regions that the map has room for. -/
def bootRamRegionMax : Nat := 10

/-- Size of a region: two `long long`s and a `long`. -/
def regionSize : Nat := 20

/-- Address of `nr_map`, where the map begins. -/
def nrMap : Word := 0x1000

/-- Address of a region in the map. -/
def regionAddr (i : Nat) : Word := 0x1004 + .ofNat 32 (regionSize * i)

/-- `sizeof(e820map_t)`. -/
def e820mapSize : Nat := 4 + regionSize * bootRamRegionMax

/-- The bytes of a region. -/
abbrev Region := { bytes : List Byte // bytes.length = regionSize }

/-! ## The machine -/

/-- The registers that the probe saves. -/
structure Regs where
  /-- Number of the service. -/
  eax : Word
  /-- Continuation, zero behind the last region. -/
  ebx : Word
  /-- Size of a region. -/
  ecx : Word
  /-- The signature `SMAP`. -/
  edx : Word
  /-- Its lower half points behind the last region. -/
  edi : Word
  deriving DecidableEq

/-- Lower half of `edi`. -/
def Regs.di (r : Regs) : BitVec 16 := r.edi.setWidth 16

/-- A write to the lower half keeps the upper half. -/
def Regs.setDi (r : Regs) (v : BitVec 16) : Regs :=
  { r with edi := r.edi.extractLsb' 16 16 ++ v }

/-- What the probe changes. -/
structure Machine where
  /-- Register contents. -/
  regs : Regs
  /-- The words pushed, latest first. -/
  stack : List Word
  /-- Memory. -/
  mem : Memory

/-- An answer to `int $0x15`. -/
structure Response where
  /-- The region, none when the carry flag is set. -/
  region : Option Region
  /-- `eax` after the call. -/
  eax : Word
  /-- The continuation. -/
  ebx : Word
  /-- `ecx` after the call. -/
  ecx : Word
  /-- `edx` after the call. -/
  edx : Word

/-- `int $0x15` stores the region at `es:di`. -/
def int15 (r : Response) (s : Machine) : Machine where
  regs := ⟨r.eax, r.ebx, r.ecx, r.edx, s.regs.edi⟩
  stack := s.stack
  mem := match r.region with
    | none => s.mem
    | some e => s.mem.storeBytes (s.regs.di.setWidth 32) e.1

/-- The arguments of the service, set before every call. -/
def service (s : Machine) : Machine :=
  { s with regs := { s.regs with eax := 0xe820, ecx := 20, edx := 0x534d4150 } }

/-- `cont`: the pointer goes to the next region and the region is counted. -/
def cont (s : Machine) : Machine :=
  { s with
    regs := s.regs.setDi (s.regs.di + 20)
    mem := s.mem.store32 nrMap (s.mem.load32 nrMap + 1) }

/-- `start_probe`. With no answer left the firmware has not returned. -/
def startProbe : List Response → Machine → Option Machine
  | [], _ => none
  | r :: rs, s =>
    let s := int15 r (service s)
    if r.region.isNone then some { s with mem := s.mem.store16 nrMap 12345 }
    else
      let s := cont s
      if s.regs.ebx = 0 then some s else startProbe rs s

/-- `finish_probe` pops the registers. -/
def finishProbe (s : Machine) : Option Machine :=
  match s.stack with
  | edi :: edx :: ecx :: ebx :: eax :: stack =>
    some { s with regs := ⟨eax, ebx, ecx, edx, edi⟩, stack }
  | _ => none

/-- The machine before the first call. -/
def enterProbe (s : Machine) : Machine where
  regs := { s.regs with ebx := 0 }.setDi 0x1004
  stack := s.regs.edi :: s.regs.edx :: s.regs.ecx :: s.regs.ebx :: s.regs.eax :: s.stack
  mem := s.mem.store32 nrMap 0

def detectMem (rs : List Response) (s : Machine) : Option Machine :=
  (startProbe rs (enterProbe s)).bind finishProbe

/-! ## What the firmware hands over -/

/-- The regions handed over until the probe ends. -/
def taken : List Response → List Region
  | [] => []
  | r :: rs =>
    match r.region with
    | none => []
    | some e => e :: if r.ebx = 0 then [] else taken rs

/-- The probe ends with the carry flag set. -/
def carried : List Response → Bool
  | [] => false
  | r :: rs => r.region.isNone || r.ebx != 0 && carried rs

/-- The map records the regions, and nothing outside it was stored to. -/
structure Records (es : List Region) (m m' : Memory) : Prop where
  /-- The count is the number of regions. -/
  count : (m'.load32 nrMap).toNat = es.length
  /-- The map has room for them. -/
  le_max : (m'.load32 nrMap).toNat ≤ bootRamRegionMax
  /-- They lie one after the other. -/
  regions : ∀ i (h : i < es.length), m'.slice (regionAddr i) regionSize = es[i].1
  /-- Every store hits the map. -/
  writes : WritesIn (span nrMap e820mapSize) m m'

/-! ## The loop -/

variable {rs : List Response} {s t : Machine} {m : Memory} {es : List Region}

@[simp] theorem Regs.di_setDi (r : Regs) (v : BitVec 16) : (r.setDi v).di = v := by
  rw [Regs.di, Regs.setDi]
  exact BitVec.setWidth_append_eq_right

/-- Before every call the regions taken so far are in the map and `di` points behind them. -/
structure Filled (es : List Region) (m : Memory) (s : Machine) : Prop extends
    Records es m s.mem where
  /-- The pointer is behind the last region. -/
  di : s.regs.di.setWidth 32 = regionAddr es.length

/-- At the first call the map is empty. -/
theorem filled_enterProbe (s : Machine) : Filled [] s.mem (enterProbe s) where
  count := by
    rw [enterProbe, load32_store32_self]
    rfl
  le_max := by
    rw [enterProbe, load32_store32_self]
    exact Nat.zero_le _
  regions i h := absurd h (Nat.not_lt_zero i)
  writes := (writesIn_store32 s.mem nrMap 0).mono (span_mono nrMap (by decide))
  di := by
    rw [enterProbe, Regs.di_setDi]
    rfl

/-- A region with a place in the map lies behind the count and the regions before it. -/
theorem toNat_regionAddr {i : Nat} (h : i ≤ bootRamRegionMax) :
    (regionAddr i).toNat = 0x1004 + regionSize * i := by
  have hbase : (0x1004 : Word).toNat = 0x1004 := rfl
  simp only [bootRamRegionMax] at h
  simp only [regionAddr, regionSize, BitVec.toNat_add, BitVec.toNat_ofNat, hbase]
  omega

/-- Its bytes are in the map. -/
theorem span_regionAddr_subset {i : Nat} (h : i < bootRamRegionMax) :
    span (regionAddr i) regionSize ⊆ span nrMap e820mapSize := by
  intro x hx
  have ha := toNat_regionAddr h.le
  have hbase : nrMap.toNat = 0x1000 := rfl
  simp only [bootRamRegionMax] at h
  simp only [regionSize] at ha
  rw [mem_span_iff (by rw [ha, regionSize]; omega), ha] at hx
  rw [mem_span_iff (by decide), hbase]
  simp only [e820mapSize, regionSize, bootRamRegionMax] at hx ⊢
  omega

/-- They are apart from the count. -/
theorem disjoint_nrMap_region {i : Nat} (h : i < bootRamRegionMax) :
    Disjoint (span nrMap 4) (span (regionAddr i) regionSize) := by
  have ha := toNat_regionAddr h.le
  have hbase : nrMap.toNat = 0x1000 := rfl
  simp only [bootRamRegionMax, regionSize] at h ha
  refine disjoint_span_of_le ?_ ?_
  · omega
  · simp only [regionSize]
    omega

/-- And from the regions behind them. -/
theorem disjoint_regions {i k : Nat} (hik : i < k) (hk : k < bootRamRegionMax) :
    Disjoint (span (regionAddr i) regionSize) (span (regionAddr k) regionSize) := by
  have hi := toNat_regionAddr (hik.trans hk).le
  have hk' := toNat_regionAddr hk.le
  simp only [bootRamRegionMax, regionSize] at hk hi hk'
  refine disjoint_span_of_le ?_ ?_
  · simp only [regionSize]
    omega
  · simp only [regionSize]
    omega

/-- Storing a region behind the others and counting it. -/
theorem Records.snoc {m' : Memory} (h : Records es m m') (hlen : es.length < bootRamRegionMax)
    (e : Region) :
    Records (es ++ [e]) m (((m'.storeBytes (regionAddr es.length) e.1).store32 nrMap
      ((m'.storeBytes (regionAddr es.length) e.1).load32 nrMap + 1))) := by
  have hstored := writesIn_storeBytes m' (regionAddr es.length) e.1
  rw [e.2] at hstored
  have hcounted (v : Word) :=
    writesIn_store32 (m'.storeBytes (regionAddr es.length) e.1) nrMap v
  have hload : (m'.storeBytes (regionAddr es.length) e.1).load32 nrMap = m'.load32 nrMap :=
    hstored.load32_eq (disjoint_nrMap_region hlen)
  have hcount : (m'.load32 nrMap + 1).toNat = es.length + 1 := by
    have hold := h.count
    simp only [bootRamRegionMax] at hlen
    bv_omega
  rw [hload]
  constructor
  · rw [load32_store32_self, hcount, List.length_append, List.length_singleton]
  · rw [load32_store32_self, hcount]
    exact hlen
  · intro i hi
    rw [List.length_append, List.length_singleton] at hi
    rw [(hcounted _).slice_eq (disjoint_nrMap_region (by omega)).symm]
    rcases Nat.lt_succ_iff_lt_or_eq.mp hi with hold | rfl
    · rw [hstored.slice_eq (disjoint_regions hold hlen), h.regions i hold,
        List.getElem_append_left hold]
    · have hback := slice_storeBytes m' (regionAddr es.length) (h := e.2.le.trans (by decide))
      rw [e.2] at hback
      rw [List.getElem_concat_length rfl, hback]
  · exact (h.writes.trans (hstored.mono (span_regionAddr_subset hlen))).trans
      ((hcounted _).mono (span_mono nrMap (by decide)))

/-- The pointer goes from one region to the next. -/
theorem regionAddr_succ {v : BitVec 16} {i : Nat} (h : v.setWidth 32 = regionAddr i)
    (hi : i < bootRamRegionMax) : (v + 20).setWidth 32 = regionAddr (i + 1) := by
  have ha := toNat_regionAddr hi.le
  have hnext := toNat_regionAddr (i := i + 1) hi
  have hstep : (20 : BitVec 16).toNat = 20 := rfl
  have hv := v.isLt
  rw [← h, BitVec.toNat_setWidth, Nat.mod_eq_of_lt (hv.trans (by decide))] at ha
  simp only [bootRamRegionMax, regionSize] at hi ha hnext
  refine BitVec.eq_of_toNat_eq ?_
  rw [hnext, BitVec.toNat_setWidth, BitVec.toNat_add, hstep, Nat.mod_eq_of_lt (by omega),
    Nat.mod_eq_of_lt (by omega)]
  omega

/-- One region more. -/
theorem Filled.next (h : Filled es m s) (hlen : es.length < bootRamRegionMax) {r : Response}
    {e : Region} (he : r.region = some e) :
    Filled (es ++ [e]) m (cont (int15 r (service s))) where
  toRecords := by
    have hmem : (int15 r (service s)).mem = s.mem.storeBytes (regionAddr es.length) e.1 := by
      rw [int15, he, ← h.di]
      rfl
    rw [cont, hmem]
    exact h.toRecords.snoc hlen e
  di := by
    rw [cont, Regs.di_setDi, List.length_append, List.length_singleton]
    exact regionAddr_succ h.di hlen

/-- What one answer does: a carry ends the loop with its mark, behind a region it ends or goes
on. -/
theorem startProbe_cons {r : Response} (hs : startProbe (r :: rs) s = some t) :
    (r.region = none ∧ t.stack = s.stack ∧ t.mem.load16 nrMap = 12345) ∨
      ∃ e, r.region = some e ∧ (r.ebx = 0 ∧ t = cont (int15 r (service s)) ∨
        r.ebx ≠ 0 ∧ startProbe rs (cont (int15 r (service s))) = some t) := by
  cases he : r.region with
  | none =>
    rw [startProbe, he] at hs
    rw [← Option.some.inj hs]
    exact .inl ⟨rfl, rfl, load16_store16_self _ _ _⟩
  | some e =>
    have hnext : (if r.ebx = 0 then some (cont (int15 r (service s)))
        else startProbe rs (cont (int15 r (service s)))) = some t := by
      rw [startProbe, he] at hs
      exact hs
    refine .inr ⟨e, rfl, ?_⟩
    by_cases hlast : r.ebx = 0
    · rw [if_pos hlast] at hnext
      exact .inl ⟨hlast, (Option.some.inj hnext).symm⟩
    · rw [if_neg hlast] at hnext
      exact .inr ⟨hlast, hnext⟩

/-- The last region. -/
theorem taken_last {r : Response} {e : Region} (he : r.region = some e) (hlast : r.ebx = 0) :
    taken (r :: rs) = [e] ∧ carried (r :: rs) = false := by
  simp [taken, carried, he, hlast]

/-- A region before others. -/
theorem taken_more {r : Response} {e : Region} (he : r.region = some e) (hmore : r.ebx ≠ 0) :
    taken (r :: rs) = e :: taken rs ∧ carried (r :: rs) = carried rs := by
  rw [taken, carried, he, bne_iff_ne.mpr hmore]
  exact ⟨congrArg (e :: ·) (if_neg hmore), rfl⟩

/-- While there is room, every region taken is in the map at the end. -/
theorem Filled.startProbe (h : Filled es m s) (hs : startProbe rs s = some t)
    (hc : carried rs = false) (hlen : (es ++ taken rs).length ≤ bootRamRegionMax) :
    Records (es ++ taken rs) m t.mem := by
  induction rs generalizing es s with
  | nil => cases hs
  | cons r rs ih =>
    rcases startProbe_cons hs with ⟨he, -⟩ | ⟨e, he, ⟨hlast, rfl⟩ | ⟨hmore, hrest⟩⟩
    · simp [carried, he] at hc
    · rw [(taken_last he hlast).1] at hlen ⊢
      rw [List.length_append, List.length_singleton] at hlen
      exact (h.next hlen he).toRecords
    · rw [(taken_more he hmore).2] at hc
      rw [(taken_more he hmore).1, List.append_cons] at hlen ⊢
      have hroom : es.length < bootRamRegionMax := by
        rw [List.length_append, List.length_append, List.length_singleton] at hlen
        omega
      exact ih (h.next hroom he) hrest hc hlen

/-- A carry leaves its mark in the lower half of the count. -/
theorem load16_startProbe_of_carried (hs : startProbe rs s = some t) (hc : carried rs = true) :
    t.mem.load16 nrMap = 12345 := by
  induction rs generalizing s with
  | nil => cases hs
  | cons r rs ih =>
    rcases startProbe_cons hs with ⟨-, -, hmark⟩ | ⟨e, he, ⟨hlast, -⟩ | ⟨hmore, hrest⟩⟩
    · exact hmark
    · rw [(taken_last he hlast).2] at hc
      exact absurd hc Bool.false_ne_true
    · rw [(taken_more he hmore).2] at hc
      exact ih hrest hc

/-! ## The probe -/

/-- The loop leaves the stack alone. -/
theorem stack_startProbe (hs : startProbe rs s = some t) : t.stack = s.stack := by
  induction rs generalizing s with
  | nil => cases hs
  | cons r rs ih =>
    rcases startProbe_cons hs with ⟨-, hstack, -⟩ | ⟨e, -, ⟨-, rfl⟩ | ⟨-, hrest⟩⟩
    · exact hstack
    · rfl
    · rw [ih hrest]
      rfl

/-- The probe finishes when its loop does, with the registers and the stack as they were. -/
theorem detectMem_eq_some_iff :
    detectMem rs s = some t ↔ ∃ u, startProbe rs (enterProbe s) = some u ∧
      ⟨s.regs, s.stack, u.mem⟩ = t := by
  rw [detectMem, Option.bind_eq_some_iff]
  refine exists_congr fun u => and_congr_right fun hrun => ?_
  rw [finishProbe, stack_startProbe hrun]
  exact Option.some_inj

/-- The map records what the firmware hands over exactly when there is room for it and the
last answer comes with a zero continuation instead of a carry. -/
theorem detectMem_records_iff (h : detectMem rs s = some t) :
    Records (taken rs) s.mem t.mem ↔
      carried rs = false ∧ (taken rs).length ≤ bootRamRegionMax := by
  obtain ⟨u, hrun, rfl⟩ := detectMem_eq_some_iff.mp h
  constructor
  · intro hrec
    have hcount := hrec.count
    have hmax := hrec.le_max
    refine ⟨?_, hcount ▸ hmax⟩
    by_contra hc
    have hmark := load16_startProbe_of_carried hrun (Bool.eq_true_of_not_eq_false hc)
    rw [← load32_setWidth] at hmark
    have hlow := congrArg BitVec.toNat hmark
    have hvalue : (12345 : BitVec 16).toNat = 12345 := rfl
    rw [BitVec.toNat_setWidth, hvalue] at hlow
    simp only [bootRamRegionMax] at hmax
    omega
  · rintro ⟨hc, hlen⟩
    exact (filled_enterProbe s).startProbe (t := u) hrun hc hlen

/-- An answer with a region. -/
def answerWith (e : Region) (ebx : Word) : Response where
  region := some e
  eax := 0x534d4150
  ebx := ebx
  ecx := 20
  edx := 0x534d4150

/-- An answer with a region of zeros. -/
def answer (ebx : Word) : Response := answerWith ⟨List.replicate regionSize 0, rfl⟩ ebx

/-- All registers and the memory cleared. -/
def cleared : Machine := ⟨⟨0, 0, 0, 0, 0⟩, [], ⟨fun _ => 0, []⟩⟩

/-- The memory below `0x9fc00`. -/
def lowMemory : Region :=
  ⟨[0, 0, 0, 0, 0, 0, 0, 0, 0x00, 0xfc, 0x09, 0, 0, 0, 0, 0, 1, 0, 0, 0], rfl⟩

/-- The memory from `0x100000` to `0x7fe0000`. -/
def highMemory : Region :=
  ⟨[0, 0, 0x10, 0, 0, 0, 0, 0, 0x00, 0x00, 0xee, 0x07, 0, 0, 0, 0, 1, 0, 0, 0], rfl⟩

/-- The boot sector under way, with bytes of its own where the map comes to lie. -/
def booting : Machine :=
  ⟨⟨0x10, 0x20, 0x30, 0x40, 0x12345678⟩, [0x7c00], ⟨fun a => a.setWidth 8, []⟩⟩

/-- The regions of a machine with 128 MB are recorded. -/
theorem detectMem_records_booting :
    ∃ t, detectMem [answerWith lowMemory 1, answerWith highMemory 0] booting = some t ∧
      Records [lowMemory, highMemory] booting.mem t.mem ∧ t.regs = booting.regs :=
  have h : detectMem [answerWith lowMemory 1, answerWith highMemory 0] booting = some _ := rfl
  ⟨_, h, (detectMem_records_iff h).mpr (by decide), rfl⟩

/-- The firmware of a machine with eleven regions. -/
def elevenRegions : List Response := List.replicate 10 (answer 1) ++ [answer 0]

/-- Eleven regions are taken although the map has room for ten. -/
theorem not_records_elevenRegions :
    ∃ t, detectMem elevenRegions cleared = some t ∧
      ¬Records (taken elevenRegions) cleared.mem t.mem := by
  refine ⟨_, rfl, fun h => ?_⟩
  have hlen : (taken elevenRegions).length ≤ bootRamRegionMax := h.count ▸ h.le_max
  exact absurd hlen (by decide)

end Boot

end DmfOs
