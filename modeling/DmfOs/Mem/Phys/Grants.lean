import DmfOs.Mem.Phys.State
import DmfOs.Core.Run

/-!
# Exact grants of the early allocator

The guard of `phys_alloc_aligned_safe` compares words: the request enlarged by
its padding may wrap before it is compared with the rest of the pool. Against
the exact fit over the naturals, a request is decided rightly unless the
enlarged size wraps to something that still fits, or the empty request is
served at the address that callers take for a refusal.
-/

namespace DmfOs

namespace PhysState

variable {s : PhysState} {size align : Word}

/-- The exact room a request takes: its size and the padding up to its alignment. -/
def need (s : PhysState) (size align : Word) : Nat :=
  alignUp s.base.toNat align.toNat - s.base.toNat + size.toNat

/-- The room is computed modulo the word size. -/
theorem toNat_taken (hp : IsPow2 align) :
    (s.taken size align).toNat = s.need size align % 2 ^ 32 := by
  rw [taken, BitVec.toNat_add, toNat_alignWord_sub hp, need, Nat.add_comm]

/-- The exact room counts from the base to the end of the served range. -/
theorem base_add_need (s : PhysState) (size : Word) (hp : IsPow2 align) :
    s.base.toNat + s.need size align = alignUp s.base.toNat align.toNat + size.toNat := by
  have := le_alignUp s.base.toNat hp.pos
  rw [need]
  omega

theorem need_lt (s : PhysState) (size : Word) (hp : IsPow2 align) :
    s.need size align < 2 ^ 32 + 2 ^ 32 := by
  have hup : alignUp s.base.toNat align.toNat ≤ 2 ^ 32 :=
    alignUp_le_of_dvd hp.pos hp.dvd_modulus s.base.isLt.le
  have := size.isLt
  have hpos : alignUp s.base.toNat align.toNat < s.base.toNat + align.toNat :=
    alignUp_lt _ hp.pos
  rw [need]
  omega

/-- The guard over the naturals: the room that is left against the wrapped room. -/
theorem refuses_iff (hp : IsPow2 align) (hle : s.base.toNat ≤ s.top.toNat) :
    s.top - s.base < s.taken size align ↔
      s.top.toNat - s.base.toNat < s.need size align % 2 ^ 32 := by
  rw [BitVec.lt_def, toNat_taken hp, BitVec.toNat_sub_of_le hle]

/-- When the room does not wrap the guard is the exact fit. -/
theorem refuses_iff_exact (hp : IsPow2 align) (hle : s.base.toNat ≤ s.top.toNat)
    (hn : s.need size align < 2 ^ 32) :
    s.top - s.base < s.taken size align ↔
      s.top.toNat < alignUp s.base.toNat align.toNat + size.toNat := by
  rw [refuses_iff hp hle, Nat.mod_eq_of_lt hn, ← base_add_need s size hp]
  omega

/-- A request that fits exactly is served at the exact rounding, below the end. -/
theorem served_of_fits (hp : IsPow2 align)
    (hfit : alignUp s.base.toNat align.toNat + size.toNat ≤ s.top.toNat) :
    (alignWord s.base align).toNat = alignUp s.base.toNat align.toNat ∧
      (s.grant size align).base.toNat = alignUp s.base.toNat align.toNat + size.toNat := by
  have htop := s.top.isLt
  have hsum := base_add_need s size hp
  have hn : s.need size align < 2 ^ 32 := by omega
  refine ⟨by rw [toNat_alignWord hp, Nat.mod_eq_of_lt (by omega)], ?_⟩
  rw [grant_base, BitVec.toNat_add, toNat_taken hp, Nat.mod_eq_of_lt hn, hsum,
    Nat.mod_eq_of_lt (by omega)]

end PhysState

/-- A request whose alignment is a power of two. -/
structure PhysRequest where
  size : Word
  align : Word
  safe : Bool
  /-- Callers only pass powers of two. -/
  pow2 : IsPow2 align

/-- The allocator together with the ranges it has granted so far, latest first. -/
structure PhysRun where
  state : PhysState
  /-- Address and size of each grant. -/
  granted : List (Word × Word)

namespace PhysRun

/-- What the allocator answers, and the state it leaves. -/
def answer (w : PhysRun) (r : PhysRequest) : Word × PhysState :=
  w.state.physAllocAlignedSafe r.size r.align r.safe

/-- Issue a request and record what its caller sees as granted. -/
def request (w : PhysRun) (r : PhysRequest) : PhysRun :=
  ⟨(w.answer r).2,
    if (w.answer r).1 = invalidPhysAddr then w.granted
    else ((w.answer r).1, r.size) :: w.granted⟩

/-- One request of a run. -/
def Step (w : PhysRun) (r : PhysRequest) (w' : PhysRun) : Prop := w' = w.request r

/-- The request is answered exactly as the pool `[b, e)` can serve it. -/
structure GrantsExactly (b e : Nat) (w : PhysRun) (r : PhysRequest) : Prop where
  /-- It is granted exactly when the aligned base leaves room for it. -/
  granted_iff : (w.answer r).1 ≠ invalidPhysAddr ↔
    alignUp w.state.base.toNat r.align.toNat + r.size.toNat ≤ e
  /-- A granted address is aligned and at or above the base. -/
  aligned : (w.answer r).1 ≠ invalidPhysAddr →
    r.align.toNat ∣ (w.answer r).1.toNat ∧ w.state.base.toNat ≤ (w.answer r).1.toNat
  /-- A granted range lies in the pool. -/
  inside : (w.answer r).1 ≠ invalidPhysAddr →
    b ≤ (w.answer r).1.toNat ∧ (w.answer r).1.toNat + r.size.toNat ≤ e
  /-- A granted range is disjoint from every earlier one. -/
  fresh : (w.answer r).1 ≠ invalidPhysAddr → ∀ g ∈ w.granted,
    g.1.toNat + g.2.toNat ≤ (w.answer r).1.toNat ∨
      (w.answer r).1.toNat + r.size.toNat ≤ g.1.toNat
  /-- The base never moves down and stays in the pool. -/
  base_mono : w.state.base.toNat ≤ (w.answer r).2.base.toNat ∧ (w.answer r).2.base.toNat ≤ e
  /-- A refusal leaves base, top and log as they were. -/
  refused : (w.answer r).1 = invalidPhysAddr → (w.answer r).2 = w.state

/-- The request does not reach the wrapping guard: its exact room is a word, or
the wrapped room is still too large, and it is not the empty unaligned request
at the very last address. -/
structure WordSafe (w : PhysRun) (r : PhysRequest) : Prop where
  room : w.state.need r.size r.align < 2 ^ 32 ∨
    w.state.top.toNat - w.state.base.toNat < w.state.need r.size r.align - 2 ^ 32
  last : ¬ (w.state.base = invalidPhysAddr ∧ r.align = 1 ∧ r.size = 0)

/-- The bump pointer lies in the pool and above everything granted. -/
structure InPool (b e : Nat) (w : PhysRun) : Prop where
  top_eq : w.state.top.toNat = e
  lower : b ≤ w.state.base.toNat
  upper : w.state.base.toNat ≤ w.state.top.toNat
  below : ∀ g ∈ w.granted, b ≤ g.1.toNat ∧ g.1.toNat + g.2.toNat ≤ w.state.base.toNat

variable {b e : Nat} {w : PhysRun} {r : PhysRequest}

/-- The aligned base is the refusal mark only for the unaligned request at the last address. -/
theorem alignWord_eq_invalid (hp : IsPow2 r.align)
    (hn : alignWord w.state.base r.align = invalidPhysAddr) :
    r.align = 1 ∧ w.state.base = invalidPhysAddr := by
  have hmod := toNat_alignWord hp w.state.base
  have hup : alignUp w.state.base.toNat r.align.toNat ≤ 2 ^ 32 :=
    alignUp_le_of_dvd hp.pos hp.dvd_modulus w.state.base.isLt.le
  rw [hn, show invalidPhysAddr.toNat = 2 ^ 32 - 1 from rfl] at hmod
  have he : alignUp w.state.base.toNat r.align.toNat = 2 ^ 32 - 1 := by omega
  -- an odd multiple of a power of two: the alignment is one
  have hone : r.align.toNat = 1 := by
    have hd := dvd_alignUp w.state.base.toNat r.align.toNat
    rw [he] at hd
    have h1 := (Nat.dvd_sub hp.dvd_modulus hd)
    simpa using h1
  rw [hone, alignUp_of_dvd (by decide) (one_dvd _)] at he
  exact ⟨BitVec.eq_of_toNat_eq hone, BitVec.eq_of_toNat_eq he⟩

/-- A request that fits exactly is served at the exact rounding. -/
theorem answer_of_fits (hle : w.state.base.toNat ≤ w.state.top.toNat)
    (hfit : alignUp w.state.base.toNat r.align.toNat + r.size.toNat ≤ w.state.top.toNat) :
    w.answer r = (alignWord w.state.base r.align, w.state.grant r.size r.align) := by
  have hsum := PhysState.base_add_need w.state r.size r.pow2
  have htop := w.state.top.isLt
  rw [answer, PhysState.physAllocAlignedSafe_eq, if_neg]
  rw [PhysState.refuses_iff_exact r.pow2 hle (by omega)]
  omega

/-- A word-safe request that does not fit is refused. -/
theorem answer_of_not_fits (hle : w.state.base.toNat ≤ w.state.top.toNat)
    (hroom : w.state.need r.size r.align < 2 ^ 32 ∨
      w.state.top.toNat - w.state.base.toNat < w.state.need r.size r.align - 2 ^ 32)
    (hfit : ¬ alignUp w.state.base.toNat r.align.toNat + r.size.toNat ≤ w.state.top.toNat) :
    w.answer r = (invalidPhysAddr, w.state) := by
  rw [answer, PhysState.physAllocAlignedSafe_eq, if_pos]
  rcases hroom with hn | hn
  · rw [PhysState.refuses_iff_exact r.pow2 hle hn]
    omega
  · have hlt := PhysState.need_lt w.state r.size r.pow2
    rw [PhysState.refuses_iff r.pow2 hle]
    omega

/-- A word-safe request is answered exactly. -/
theorem InPool.grantsExactly (h : InPool b e w) (hs : WordSafe w r) : GrantsExactly b e w r := by
  have hle := h.upper
  have hlow := h.lower
  have htop := h.top_eq
  by_cases hfit : alignUp w.state.base.toNat r.align.toNat + r.size.toNat ≤ w.state.top.toNat
  · have ha := answer_of_fits hle hfit
    obtain ⟨haddr, hbase⟩ := PhysState.served_of_fits r.pow2 hfit
    have hge := le_alignUp w.state.base.toNat r.pow2.pos
    have hne : alignWord w.state.base r.align ≠ invalidPhysAddr := by
      intro hn
      obtain ⟨hone, hlast⟩ := alignWord_eq_invalid r.pow2 hn
      refine hs.last ⟨hlast, hone, BitVec.eq_of_toNat_eq ?_⟩
      have hinv : w.state.base.toNat = 2 ^ 32 - 1 := by rw [hlast]; rfl
      have := w.state.top.isLt
      change r.size.toNat = 0
      omega
    constructor
    · rw [ha]
      exact iff_of_true hne (by omega)
    · intro _
      rw [ha, haddr]
      exact ⟨dvd_alignUp _ _, hge⟩
    · intro _
      rw [ha, haddr]
      omega
    · intro _ g hg
      have := h.below g hg
      rw [ha, haddr]
      omega
    · rw [ha, hbase]
      omega
    · intro hn
      rw [ha] at hn
      exact absurd hn hne
  · have ha := answer_of_not_fits hle hs.room hfit
    have hno : ¬ (w.answer r).1 ≠ invalidPhysAddr := fun hn => hn (by rw [ha])
    refine ⟨iff_of_false hno (by omega), fun hn => absurd hn hno, fun hn => absurd hn hno,
      fun hn => absurd hn hno, ?_, fun _ => by rw [ha]⟩
    rw [ha]
    exact ⟨le_rfl, htop ▸ hle⟩

/-- An exactly answered request is word-safe. -/
theorem InPool.wordSafe (h : InPool b e w) (hg : GrantsExactly b e w r) : WordSafe w r := by
  have hle := h.upper
  have htop := h.top_eq
  have hlt := w.state.top.isLt
  have hsum := PhysState.base_add_need w.state r.size r.pow2
  constructor
  · -- a wrapped room that still fits is granted although nothing that large fits
    by_contra hroom
    rw [not_or] at hroom
    have hgrant : w.answer r = (alignWord w.state.base r.align, w.state.grant r.size r.align) := by
      have hlim := PhysState.need_lt w.state r.size r.pow2
      rw [answer, PhysState.physAllocAlignedSafe_eq, if_neg]
      rw [PhysState.refuses_iff r.pow2 hle]
      omega
    have hnot : ¬ (w.answer r).1 ≠ invalidPhysAddr := by
      rw [hg.granted_iff]
      omega
    rw [hgrant, not_not] at hnot
    obtain ⟨hone, _⟩ := alignWord_eq_invalid r.pow2 hnot
    have hpad : alignUp w.state.base.toNat r.align.toNat = w.state.base.toNat := by
      rw [hone]
      exact alignUp_of_dvd (by decide) (one_dvd _)
    have := r.size.isLt
    omega
  · -- the empty request at the last address fits, but is answered with the refusal mark
    rintro ⟨hbase, hone, hzero⟩
    have hinv : w.state.base.toNat = 2 ^ 32 - 1 := by rw [hbase]; rfl
    have hpad : alignUp w.state.base.toNat r.align.toNat = w.state.base.toNat := by
      rw [hone]
      exact alignUp_of_dvd (by decide) (one_dvd _)
    have hsize : r.size.toNat = 0 := by rw [hzero]; rfl
    have hfit : alignUp w.state.base.toNat r.align.toNat + r.size.toNat ≤ w.state.top.toNat := by
      omega
    refine hg.granted_iff.mpr (by omega) ?_
    rw [answer_of_fits hle hfit]
    apply BitVec.eq_of_toNat_eq
    rw [(PhysState.served_of_fits r.pow2 hfit).1, hpad, hbase]

/-- A word-safe request leaves the pool invariant in place. -/
theorem InPool.step (h : InPool b e w) (hs : WordSafe w r) : InPool b e (w.request r) := by
  have hle := h.upper
  have hlow := h.lower
  by_cases hfit : alignUp w.state.base.toNat r.align.toNat + r.size.toNat ≤ w.state.top.toNat
  · have ha := answer_of_fits hle hfit
    obtain ⟨haddr, hbase⟩ := PhysState.served_of_fits r.pow2 hfit
    have hge := le_alignUp w.state.base.toNat r.pow2.pos
    constructor
    · rw [request, ha, PhysState.grant_top]
      exact h.top_eq
    · rw [request, ha, hbase]
      omega
    · rw [request, ha, hbase, PhysState.grant_top]
      omega
    · intro g hg
      rw [request, ha, hbase]
      simp only [request, ha] at hg
      split_ifs at hg
      · have := h.below g hg
        omega
      · rcases List.mem_cons.mp hg with rfl | hg
        · change b ≤ (alignWord w.state.base r.align).toNat ∧
            (alignWord w.state.base r.align).toNat + r.size.toNat ≤ _
          rw [haddr]
          omega
        · have := h.below g hg
          omega
  · have ha := answer_of_not_fits hle hs.room hfit
    have hw : w.request r = w := by
      rw [request, ha, if_pos rfl]
    rw [hw]
    exact h

/-- The state of a fresh pool, with nothing granted. -/
def start (s : PhysState) (baseAddr size : Word) : PhysRun := ⟨s.physAllocInit baseAddr size, []⟩

theorem inPool_start (s : PhysState) {baseAddr size : Word}
    (hfit : baseAddr.toNat + size.toNat < 2 ^ 32) :
    InPool baseAddr.toNat (baseAddr.toNat + size.toNat) (start s baseAddr size) := by
  have htop : (baseAddr + size).toNat = baseAddr.toNat + size.toNat := by bv_omega
  refine ⟨htop, le_rfl, ?_, fun g hg => by cases hg⟩
  change baseAddr.toNat ≤ (baseAddr + size).toNat
  omega

/-- After `phys_alloc_init`, a sequence of requests is answered exactly at every
step if and only if every request is word-safe when it is made. -/
theorem grantsExactly_iff_wordSafe (s : PhysState) (baseAddr size : Word)
    (hfit : baseAddr.toNat + size.toNat < 2 ^ 32) (rs : List PhysRequest) :
    Along Step (GrantsExactly baseAddr.toNat (baseAddr.toNat + size.toNat))
        (start s baseAddr size) rs ↔
      Along Step WordSafe (start s baseAddr size) rs := by
  refine along_iff (InPool baseAddr.toNat (baseAddr.toNat + size.toNat)) (inPool_start s hfit)
    (fun w r h => ⟨h.wordSafe, h.grantsExactly⟩) ?_
  rintro w r _ h hs rfl
  exact h.step hs

/-- The request of a heap block, one that is padded up to the next page, and one that the rest
of the pool of `mem_init` has no room for. -/
def someRequests : List PhysRequest :=
  [⟨64, 64, true, ⟨6, rfl⟩⟩, ⟨100, 4096, true, ⟨12, rfl⟩⟩, ⟨0x7ce0000, 4096, true, ⟨12, rfl⟩⟩]

/-- All three are answered exactly, and the first two are granted. -/
theorem grantsExactly_someRequests :
    Along Step (GrantsExactly 0x300000 0x7fe0000) (start .initial 0x300000 0x7ce0000)
        someRequests ∧
      (someRequests.foldl request (start .initial 0x300000 0x7ce0000)).granted =
        [(0x301000, 100), (0x300000, 64)] := by
  refine ⟨(grantsExactly_iff_wordSafe .initial 0x300000 0x7ce0000 (by decide) _).mpr ?_, by decide⟩
  refine ⟨⟨Or.inl (by decide), by decide⟩, ?_⟩
  rintro _ rfl
  refine ⟨⟨Or.inl (by decide), by decide⟩, ?_⟩
  rintro _ rfl
  exact ⟨⟨Or.inl (by decide), by decide⟩, fun _ _ => trivial⟩

/-- Padding a request of nearly 4 GiB wraps to an empty one, which is granted. -/
theorem not_grantsExactly_wrapping_padding :
    ¬ Along Step (GrantsExactly 0x300000 0x7fe0000) (start .initial 0x300000 0x7ce0000)
      [⟨0xfff00000, 0x400000, true, ⟨22, rfl⟩⟩] := by
  rintro ⟨h, _⟩
  exact absurd (h.granted_iff.mp (by decide)) (by decide)

end PhysRun

end DmfOs
