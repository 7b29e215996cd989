import DmfOs.Mem.Heap.Layout
import DmfOs.Mem.Phys.Grants

/-!
# Heap blocks over the early allocator

A world is the heap with the list of all blocks it ever returned. Its clients
request aligned blocks, raise or lower the minimum alignment and write into
their own user bytes. The regions granted for the blocks are stacked below the
bump pointer, so the blocks inside them stay apart and keep their headers.
-/

namespace DmfOs

open Memory

namespace PhysState

variable {s : PhysState} {size align : Word}

/-- A request whose room does not wrap and that is not refused fits below the top. -/
theorem fits_of_answered (hp : IsPow2 align) (hle : s.base.toNat ≤ s.top.toNat)
    (hn : s.need size align < 2 ^ 32)
    (hserved : (s.physAllocAlignedSafe size align true).1 ≠ invalidPhysAddr) :
    alignUp s.base.toNat align.toNat + size.toNat ≤ s.top.toNat := by
  rw [physAllocAlignedSafe_eq] at hserved
  by_cases hrefused : s.top - s.base < s.taken size align
  · rw [if_pos hrefused] at hserved
    exact absurd rfl hserved
  · rw [refuses_iff_exact hp hle hn] at hrefused
    omega

end PhysState

namespace Heap

variable {h : Heap} {size : Word}

/-- The early allocator has room for the block asked for. -/
def HasRoom (h : Heap) (alignment size : Word) : Prop :=
  alignUp h.phys.base.toNat (h.blkAlign alignment).toNat + (h.blkSize alignment size).toNat ≤
    h.phys.top.toNat

instance (h : Heap) (alignment size : Word) : Decidable (h.HasRoom alignment size) :=
  inferInstanceAs (Decidable (_ ≤ _))

/-- A request with room is served at the exact rounding of the base. -/
theorem backEnd_of_hasRoom (hops : h.ops = .early) (hm : IsPow2 h.phys.alignMin)
    {alignment : Word} (ha : IsPow2 alignment) (hroom : h.HasRoom alignment size) (fuel : Nat) :
    ∃ q, h.backEnd fuel alignment size = some (q, { h with
        phys := h.phys.grant (h.blkSize alignment size) (h.blkAlign alignment) }) ∧
      q.toNat = alignUp h.phys.base.toNat (h.blkAlign alignment).toNat ∧ 4 ∣ q.toNat := by
  have hmin : h.alignMin = h.phys.alignMin := by rw [Heap.alignMin, hops]
  obtain ⟨hblk, hfour⟩ := isPow2_blkAlign ha (hmin ▸ hm)
  obtain ⟨hq, -⟩ := PhysState.served_of_fits hblk hroom
  have hdvd : 4 ∣ (alignWord h.phys.base (h.blkAlign alignment)).toNat := by
    rw [hq]
    exact (IsPow2.dvd_of_le (a := 4) ⟨2, rfl⟩ hblk hfour).trans (dvd_alignUp _ _)
  have hvalid : alignWord h.phys.base (h.blkAlign alignment) ≠ invalidPhysAddr := by
    intro hinv
    rw [hinv] at hdvd
    exact absurd hdvd (by decide)
  have hle := le_alignUp h.phys.base.toNat hblk.pos
  have hsum := PhysState.base_add_need h.phys (h.blkSize alignment size) hblk
  have htop := h.phys.top.isLt
  rw [HasRoom] at hroom
  have hgranted : ¬ h.phys.top - h.phys.base <
      h.phys.taken (h.blkSize alignment size) (h.blkAlign alignment) := by
    rw [PhysState.refuses_iff_exact hblk (by omega) (by omega)]
    omega
  rw [backEnd_early hops, PhysState.earlyMemalign_eq, if_neg hgranted, if_neg hvalid]
  exact ⟨_, rfl, hq, hdvd⟩

end Heap

/-- What a client does next. -/
inductive EarlyOp where
  | memalign (alignment size : Word)
  | setMinimumAlignment (align : Word)
  /-- Store a byte into a block. -/
  | write (addr : Word) (v : Byte)

/-- The heap and all blocks returned so far, latest first. -/
structure EarlyWorld where
  heap : Heap
  blocks : List Block

namespace EarlyWorld

/-- What the clients are allowed to do: requests are for a power of two, wrap
neither their padded size nor the padding of the bump pointer and are granted;
the minimum alignment is a power of two with room for a word; a store hits the
user bytes of some block. -/
def Allowed (w : EarlyWorld) : EarlyOp → Prop
  | .memalign alignment size =>
    IsPow2 alignment ∧ Heap.blockBytes alignment size w.heap.alignMin < 2 ^ 32 ∧
      w.heap.phys.need (w.heap.blkSize alignment size) (w.heap.blkAlign alignment) < 2 ^ 32 ∧
      (w.heap.phys.physAllocAlignedSafe (w.heap.blkSize alignment size)
        (w.heap.blkAlign alignment) true).1 ≠ invalidPhysAddr
  | .setMinimumAlignment align => IsPow2 align ∧ 4 ≤ align.toNat
  | .write addr _ => ∃ B ∈ w.blocks, addr ∈ B.userArea

/-- One operation; a returned block is recorded with the answer of the back end. -/
inductive Step (w : EarlyWorld) : EarlyOp → EarlyWorld → Prop
  | memalign {alignment size p q : Word} {h h' : Heap} (fuel : Nat) :
      w.heap.backEnd fuel alignment size = some (q, h) →
      w.heap.memalign fuel alignment size = some (p, h') →
      Step w (.memalign alignment size)
        ⟨h', ⟨alignment, size, p, q, w.heap.blkSize alignment size⟩ :: w.blocks⟩
  | setMinimumAlignment {align : Word} :
      Step w (.setMinimumAlignment align)
        { w with heap.phys := w.heap.phys.physAllocSetMinimumAlignment align }
  | write {addr : Word} {v : Byte} :
      Step w (.write addr v) { w with heap := w.heap.withMem (w.heap.mem.storeByte addr v) }

/-- An operation that the clients are allowed. -/
def LegalStep (w : EarlyWorld) (op : EarlyOp) (w' : EarlyWorld) : Prop :=
  w.Allowed op ∧ w.Step op w'

/-- The blocks do not collide in the pool `[b, e)`. -/
structure Sound (b e : Nat) (w : EarlyWorld) : Prop where
  /-- Every pointer is aligned as requested. -/
  aligned : ∀ B ∈ w.blocks, B.alignment.toNat ∣ B.ptr.toNat
  /-- Header and user bytes lie in the region granted for the block. -/
  inRegion : ∀ B ∈ w.blocks, B.area ⊆ B.region
  /-- Header and user bytes lie in the pool. -/
  inPool : ∀ B ∈ w.blocks, ∀ x ∈ B.area, b ≤ x.toNat ∧ x.toNat < e
  /-- The blocks are pairwise disjoint. -/
  apart : w.blocks.Pairwise fun B C => Disjoint B.area C.area
  /-- Every header yields the region that was granted. -/
  headed : ∀ B ∈ w.blocks, B.Headed w.heap.mem

/-- The regions are stacked below the bump pointer and every block has its header. -/
structure Stacked (b e : Nat) (w : EarlyWorld) : Prop where
  ops_eq : w.heap.ops = .early
  top_eq : w.heap.phys.top.toNat = e
  base_le : b ≤ w.heap.phys.base.toNat ∧ w.heap.phys.base.toNat ≤ e
  alignMin : IsPow2 w.heap.phys.alignMin ∧ 4 ≤ w.heap.phys.alignMin.toNat
  below : ∀ B ∈ w.blocks,
    b ≤ B.start.toNat ∧ B.start.toNat + B.granted.toNat ≤ w.heap.phys.base.toNat
  live : LiveBlocks w.heap.mem w.blocks

variable {b e : Nat} {w w' : EarlyWorld}

/-- Stacked blocks do not collide. -/
theorem Stacked.sound (h : w.Stacked b e) : w.Sound b e := by
  have hplaced := h.live.placed
  refine ⟨fun B hB => (hplaced B hB).aligned, fun B hB => (hplaced B hB).area_subset, ?_, ?_,
    h.live.headed⟩
  · intro B hB x hx
    have hreg := (hplaced B hB).area_subset hx
    rw [(hplaced B hB).mem_region] at hreg
    have := h.below B hB
    have := h.base_le
    omega
  · refine h.live.apart.imp_of_mem fun {B C} hB hC hd => ?_
    exact hd.mono (hplaced B hB).area_subset (hplaced C hC).area_subset

/-- The back end serves an allowed request at the rounded base, inside the pool. -/
theorem Stacked.served (h : w.Stacked b e) {alignment size : Word}
    (ha : w.Allowed (.memalign alignment size)) (fuel : Nat) :
    ∃ q s, w.heap.backEnd fuel alignment size = some (q, { w.heap with phys := s }) ∧
      w.heap.phys.base.toNat ≤ q.toNat ∧ 4 ∣ q.toNat ∧
      s.base.toNat = q.toNat + (w.heap.blkSize alignment size).toNat ∧
      s.base.toNat ≤ e ∧ s.top = w.heap.phys.top ∧ s.alignMin = w.heap.phys.alignMin := by
  obtain ⟨hpow, _, hneed, hserved⟩ := ha
  have hmin : w.heap.alignMin = w.heap.phys.alignMin := by rw [Heap.alignMin, h.ops_eq]
  obtain ⟨hblk, _⟩ := Heap.isPow2_blkAlign hpow (hmin ▸ h.alignMin.1)
  have htop := h.top_eq
  have hle := h.base_le
  have hroom := PhysState.fits_of_answered hblk (by omega) hneed hserved
  obtain ⟨q, hback, hq, hdvd⟩ := Heap.backEnd_of_hasRoom h.ops_eq h.alignMin.1 hpow hroom fuel
  obtain ⟨_, hbase⟩ := PhysState.served_of_fits hblk hroom
  refine ⟨q, _, hback, ?_, hdvd, ?_, ?_, PhysState.grant_top _ _ _,
    PhysState.grant_alignMin _ _ _⟩
  · rw [hq]
    exact le_alignUp _ hblk.pos
  · rw [hbase, hq]
  · omega

/-- The region that an answered request gets holds its block and is the next one of the stack. -/
theorem Stacked.granted (h : w.Stacked b e) (he : e < 2 ^ 32) {alignment size q : Word}
    {h₁ : Heap} {fuel : Nat} (ha : w.Allowed (.memalign alignment size))
    (hback : w.heap.backEnd fuel alignment size = some (q, h₁)) :
    (w.heap.block alignment size q).Placed ∧ w.heap.phys.base.toNat ≤ q.toNat ∧
      ∃ s, h₁ = { w.heap with phys := s } ∧
        s.base.toNat = q.toNat + (w.heap.blkSize alignment size).toNat ∧ s.base.toNat ≤ e ∧
        s.top = w.heap.phys.top ∧ s.alignMin = w.heap.phys.alignMin := by
  obtain ⟨q', s, hserved, hq, hdvd, hbase, hend, htop, hmin⟩ := h.served ha fuel
  rw [hserved] at hback
  obtain ⟨rfl, rfl⟩ := Prod.mk.inj (Option.some.inj hback)
  obtain ⟨hpow, hbytes, _⟩ := ha
  have hpowMin : IsPow2 w.heap.alignMin := by
    rw [Heap.alignMin, h.ops_eq]
    exact h.alignMin.1
  have hsize := Heap.toNat_blkSize hpowMin hbytes
  have hword := hend.trans_lt he
  have hfit := Heap.userBytes_fit size hpow hdvd hpowMin
  exact ⟨Heap.block_placed hpow hpowMin hbytes hdvd (by omega) (by omega), hq, s, rfl, hbase,
    hend, htop, hmin⟩

/-- Adding a served block keeps the stack. -/
theorem Stacked.memalign (h : w.Stacked b e) (he : e < 2 ^ 32) {alignment size p q : Word}
    {h₁ h₂ : Heap} {fuel : Nat} (ha : w.Allowed (.memalign alignment size))
    (hback : w.heap.backEnd fuel alignment size = some (q, h₁))
    (hcall : w.heap.memalign fuel alignment size = some (p, h₂)) :
    Stacked b e ⟨h₂, ⟨alignment, size, p, q, w.heap.blkSize alignment size⟩ :: w.blocks⟩ := by
  obtain ⟨hplaced, hq, s, rfl, hbase, hend, htop, hmin⟩ := h.granted he ha hback
  obtain ⟨rfl, m, rfl, hwrites, hheaded⟩ := Heap.memalign_served hback hplaced hcall
  have hold := h.base_le
  refine ⟨h.ops_eq, (congrArg BitVec.toNat htop).trans h.top_eq, ?_, ?_, ?_, ?_⟩
  · change b ≤ s.base.toNat ∧ s.base.toNat ≤ e
    omega
  · change IsPow2 s.alignMin ∧ 4 ≤ s.alignMin.toNat
    rw [hmin]
    exact h.alignMin
  · intro C hC
    change b ≤ C.start.toNat ∧ C.start.toNat + C.granted.toNat ≤ s.base.toNat
    rcases List.mem_cons.mp hC with rfl | hC
    · refine ⟨?_, hbase.ge⟩
      change b ≤ q.toNat
      omega
    · have := h.below C hC
      omega
  · refine h.live.cons hplaced (fun C hC => ?_) hwrites hheaded
    -- older regions end at the old base, the new one starts at or above it
    have hbelow := (h.below C hC).2
    exact (disjoint_span_of_le (by
      change C.start.toNat + C.granted.toNat ≤ q.toNat
      omega) hplaced.no_wrap).symm

/-- A served request stores into its region only. -/
theorem Stacked.memalign_writesIn (h : w.Stacked b e) (he : e < 2 ^ 32)
    {alignment size p q : Word} {h₁ h₂ : Heap} {fuel : Nat}
    (ha : w.Allowed (.memalign alignment size))
    (hback : w.heap.backEnd fuel alignment size = some (q, h₁))
    (hcall : w.heap.memalign fuel alignment size = some (p, h₂)) :
    ∃ m, h₂ = h₁.withMem m ∧ WritesIn (w.heap.block alignment size q).region w.heap.mem m := by
  obtain ⟨hplaced, -, s, rfl, -⟩ := h.granted he ha hback
  obtain ⟨-, m, rfl, hwrites, -⟩ := Heap.memalign_served hback hplaced hcall
  exact ⟨m, rfl, hwrites.mono hplaced.area_subset⟩

/-- Stores elsewhere keep the stack. -/
theorem Stacked.frame (h : w.Stacked b e) {h' : Heap} (hops : h'.ops = .early)
    (hphys : h'.phys = w.heap.phys) {S : Set Word} (hw : WritesIn S w.heap.mem h'.mem)
    (hd : ∀ B ∈ w.blocks, Disjoint B.region S) : Stacked b e ⟨h', w.blocks⟩ := by
  refine ⟨hops, ?_, ?_, ?_, ?_, h.live.frame hw hd⟩
  · exact hphys ▸ h.top_eq
  · exact hphys ▸ h.base_le
  · exact hphys ▸ h.alignMin
  · exact hphys ▸ h.below

/-- A block leaves, and its region may be written. -/
theorem Stacked.remove (h : w.Stacked b e) {B : Block} {bs : List Block}
    (hp : w.blocks.Perm (B :: bs)) {h' : Heap} (hops : h'.ops = .early)
    (hphys : h'.phys = w.heap.phys) (hw : WritesIn B.region w.heap.mem h'.mem) :
    Stacked b e ⟨h', bs⟩ := by
  refine ⟨hops, ?_, ?_, ?_, fun C hC => ?_, h.live.remove hp hw⟩
  · exact hphys ▸ h.top_eq
  · exact hphys ▸ h.base_le
  · exact hphys ▸ h.alignMin
  · exact hphys ▸ h.below C (hp.mem_iff.mpr (List.mem_cons_of_mem _ hC))

/-- Every allowed operation keeps the stack. -/
theorem Stacked.step (h : w.Stacked b e) (he : e < 2 ^ 32) {op : EarlyOp} (ha : w.Allowed op)
    (hs : w.Step op w') : w'.Stacked b e := by
  cases hs with
  | @memalign alignment size p q h₁ h₂ fuel hback hcall => exact h.memalign he ha hback hcall
  | @setMinimumAlignment align =>
    exact ⟨h.ops_eq, h.top_eq, h.base_le, ha, h.below, h.live⟩
  | @write addr v =>
    obtain ⟨B, hB, haddr⟩ := ha
    exact ⟨h.ops_eq, h.top_eq, h.base_le, h.alignMin, h.below, h.live.write hB haddr v⟩

/-- The world right after `phys_alloc_init`, with no block returned. -/
def start (h : Heap) (baseAddr size : Word) : EarlyWorld :=
  ⟨{ h with phys := h.phys.physAllocInit baseAddr size }, []⟩

/-- After `phys_alloc_init` no run of allowed operations lets blocks collide. -/
theorem reach_sound {h : Heap} (hops : h.ops = .early) (hpow : IsPow2 h.phys.alignMin)
    (hfour : 4 ≤ h.phys.alignMin.toNat) {baseAddr size : Word}
    (hfit : baseAddr.toNat + size.toNat < 2 ^ 32) {ops : List EarlyOp} {w : EarlyWorld}
    (hr : Reach LegalStep (start h baseAddr size) ops w) :
    w.Sound baseAddr.toNat (baseAddr.toNat + size.toNat) := by
  have htop : (baseAddr + size).toNat = baseAddr.toNat + size.toNat := by bv_omega
  have hstart : (start h baseAddr size).Stacked baseAddr.toNat (baseAddr.toNat + size.toNat) :=
    ⟨hops, htop, ⟨le_rfl, Nat.le_add_right _ _⟩, ⟨hpow, hfour⟩, by simp [start], .nil _⟩
  have hstacked := Reach.invariant
    (fun w => w.Stacked baseAddr.toNat (baseAddr.toNat + size.toNat)) hr hstart
    fun _ _ _ hw hs => hw.step hfit hs.1 hs.2
  exact hstacked.sound

/-- The heap of the kernel image over the pool of `mem_init`. -/
def memInit : EarlyWorld := start (.initial ⟨fun _ => 0, []⟩) 0x300000 0x7ce0000

/-- Two blocks from it, the second one aligned to 256 bytes, and stores into both. -/
theorem reach_sound_two_blocks : ∃ w,
    Reach LegalStep memInit
        [.memalign 4 56, .write 0x30003f 0xff, .memalign 256 100, .write 0x300200 0xff] w ∧
      w.blocks = [⟨256, 100, 0x300200, 0x300100, 384⟩, ⟨4, 56, 0x300008, 0x300000, 64⟩] ∧
      w.Sound 0x300000 0x7fe0000 := by
  have hfirst : Reach LegalStep memInit [.memalign 4 56] _ :=
    .snoc .nil ⟨⟨⟨2, rfl⟩, by decide, by decide, by decide⟩, .memalign 0 rfl rfl⟩
  have hstored := hfirst.snoc (i := EarlyOp.write 0x30003f 0xff)
    ⟨⟨_, List.mem_cons_self .., show (0x37 : Word).toNat < 56 by decide⟩, .write⟩
  have hsecond := hstored.snoc (i := EarlyOp.memalign 256 100)
    ⟨⟨⟨8, rfl⟩, by decide, by decide, by decide⟩, .memalign 0 rfl rfl⟩
  have hrun := hsecond.snoc (i := EarlyOp.write 0x300200 0xff)
    ⟨⟨_, List.mem_cons_self .., show (0 : Word).toNat < 100 by decide⟩, .write⟩
  exact ⟨_, hrun, rfl, reach_sound rfl ⟨6, rfl⟩ (by decide) (by decide) hrun⟩

end EarlyWorld

end DmfOs
