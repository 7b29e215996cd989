import DmfOs.Mem.Heap.Layout
import DmfOs.Paging.Tables
import DmfOs.Core.Run

/-!
# Heap blocks under the host page tables

The host maps the first 4 MB only, while the pool of `mem_init` reaches up to
`0x7fe0000`. A block is usable under the host tables exactly when it ends below
4 MB, and where it lies follows from the bump pointer before the call.
-/

namespace DmfOs

open Memory

/-- Every byte of the set is mapped to itself and writable. -/
def MappedWritable (tables : Memory) (dir : Word) (S : Set Word) : Prop :=
  ∀ x ∈ S, ∃ t, walk tables.load32 dir x = some t ∧ t.phys = x ∧ t.writable = true

namespace HeapRequest

variable {tables : Memory} {dir : Word} {h h' : Heap} {r : HeapRequest} {p : Word} {fuel : Nat}

/-- A call of the heap, with any fuel. -/
def Step (h : Heap) (r : HeapRequest) (h' : Heap) : Prop := ∃ fuel p, r.call fuel h = some (p, h')

/-- Header and user bytes of the returned block are mapped and writable for the host. -/
def BlockMapped (tables : Memory) (dir : Word) (h : Heap) (r : HeapRequest) : Prop :=
  ∀ fuel p h', r.call fuel h = some (p, h') →
    MappedWritable tables dir (span (p - 8) (r.size.toNat + 8))

/-- Where the early allocator puts a region, by its bump pointer: at the aligned
base, or at 0 when the room is too small. -/
def regionStart (h : Heap) (r : HeapRequest) : Word :=
  if h.phys.top - h.phys.base < h.phys.taken (h.blkSize r.alignment r.size) (h.blkAlign r.alignment)
  then 0
  else if alignWord h.phys.base (h.blkAlign r.alignment) = invalidPhysAddr then 0
  else alignWord h.phys.base (h.blkAlign r.alignment)

/-- The region start, moved past the header and aligned, leaves room for the user
bytes below 4 MB. -/
def EndsBelow4M (h : Heap) (r : HeapRequest) : Prop :=
  8 ≤ (Heap.userPtr r.alignment (regionStart h r)).toNat ∧
    (Heap.userPtr r.alignment (regionStart h r)).toNat + r.size.toNat ≤ 0x400000

instance (h : Heap) (r : HeapRequest) : Decidable (EndsBelow4M h r) :=
  inferInstanceAs (Decidable (_ ∧ _))

/-- The address that the early back end returns. -/
theorem earlyMemalign_fst (h : Heap) (r : HeapRequest) :
    (h.phys.earlyMemalign (h.blkAlign r.alignment) (h.blkSize r.alignment r.size)).1 =
      regionStart h r := by
  rw [PhysState.earlyMemalign_eq, regionStart]
  split_ifs <;> rfl

/-- Every call over the early back end returns the block in that region. -/
theorem call_early (hops : h.ops = .early) (r : HeapRequest) (fuel : Nat) :
    ∃ h', r.call fuel h = some (Heap.userPtr r.alignment (regionStart h r), h') ∧
      h'.ops = .early := by
  have hcall : ∃ h', h.memalign fuel r.alignment r.size =
      some (Heap.userPtr r.alignment (regionStart h r), h') ∧ h'.ops = .early := by
    rw [Heap.memalign_eq, Heap.backEnd_early hops, earlyMemalign_fst]
    exact ⟨_, rfl, hops⟩
  obtain ⟨h', hres, hops'⟩ := hcall
  cases r with
  | memalign alignment size => exact ⟨h', hres, hops'⟩
  | malloc size => exact ⟨h', hres, hops'⟩
  | calloc nmemb size =>
    change h.malloc fuel (nmemb * size) = _ at hres
    rw [call, Heap.calloc, hres, Option.map_some]
    simp only
    split_ifs
    · exact ⟨_, rfl, hops'⟩
    · exact ⟨_, rfl, hops'⟩

/-- A byte is mapped by the host exactly below 4 MB. -/
theorem mappedWritable_iff (hd : dir.toNat % 4096 = 0) (ht : HoldsTable tables dir pageDir)
    (S : Set Word) : MappedWritable tables dir S ↔ ∀ x ∈ S, x.toNat < 0x400000 := by
  refine forall₂_congr fun x _ => ?_
  rw [walk_pageDir hd ht]
  split_ifs with hx
  · exact iff_of_true ⟨_, rfl, rfl, rfl⟩ hx
  · refine iff_of_false ?_ hx
    rintro ⟨t, ht, _⟩
    cases ht

/-- Header and user bytes lie below 4 MB exactly when the block ends there and
the header does not wrap below address 0. -/
theorem area_below_iff (p : Word) (n : Nat) :
    (∀ x ∈ span (p - 8) (n + 8), x.toNat < 0x400000) ↔ 8 ≤ p.toNat ∧ p.toNat + n ≤ 0x400000 := by
  constructor
  · intro hall
    have hfirst : (p - 8).toNat < 0x400000 := hall _ (by rw [mem_span]; simp)
    have hp : 8 ≤ p.toNat := by bv_omega
    refine ⟨hp, ?_⟩
    by_contra hlong
    -- the first unmapped address would be in the block
    have hin : (0x400000 : Word) ∈ span (p - 8) (n + 8) := by
      rw [mem_span]
      bv_omega
    exact absurd (hall _ hin) (by decide)
  · rintro ⟨hp, hend⟩ x hx
    rw [mem_span] at hx
    bv_omega

/-- A call over the early back end returns a mapped block exactly when it ends below 4 MB. -/
theorem blockMapped_iff (hd : dir.toNat % 4096 = 0) (ht : HoldsTable tables dir pageDir)
    (hops : h.ops = .early) (r : HeapRequest) :
    BlockMapped tables dir h r ↔ EndsBelow4M h r := by
  rw [EndsBelow4M, ← area_below_iff, ← mappedWritable_iff hd ht]
  constructor
  · intro hall
    obtain ⟨h', hcall, _⟩ := call_early hops r 0
    exact hall 0 _ h' hcall
  · intro hmapped fuel p h' hcall
    obtain ⟨h'', hcall', _⟩ := call_early hops r fuel
    rw [hcall'] at hcall
    obtain ⟨rfl, _⟩ := Prod.mk.inj (Option.some.inj hcall)
    exact hmapped

/-- After `mem_init`, all blocks of a sequence of calls are mapped and writable
for the host if and only if every one of them ends below 4 MB. -/
theorem along_blockMapped_iff (hd : dir.toNat % 4096 = 0) (ht : HoldsTable tables dir pageDir)
    (m : Memory) (rs : List HeapRequest) :
    Along Step (BlockMapped tables dir) (Heap.initial m).memInit rs ↔
      Along Step EndsBelow4M (Heap.initial m).memInit rs := by
  refine along_iff (fun h => h.ops = .early) rfl (fun h r hops => blockMapped_iff hd ht hops r) ?_
  rintro h r h' hops _ ⟨fuel, p, hcall⟩
  obtain ⟨h'', hcall', hops'⟩ := call_early hops r fuel
  rw [hcall'] at hcall
  obtain ⟨_, rfl⟩ := Prod.mk.inj (Option.some.inj hcall)
  exact hops'

/-- A first small block and a larger one behind it. -/
theorem along_blockMapped_iff_first_blocks :
    Along Step (BlockMapped bootTables 0xa000) (Heap.initial bootTables).memInit
        [.malloc 56, .memalign 0x1000 0x8000] ↔
      Along Step EndsBelow4M (Heap.initial bootTables).memInit
        [.malloc 56, .memalign 0x1000 0x8000] :=
  along_blockMapped_iff rfl bootTables_pageDir _ _

/-- A first block of 2 MB ends in memory that the host does not map. -/
theorem not_blockMapped_two_megabytes :
    ¬ BlockMapped bootTables 0xa000 (Heap.initial bootTables).memInit (.malloc 0x200000) := by
  intro hall
  obtain ⟨h', hcall, _⟩ := call_early (h := (Heap.initial bootTables).memInit) rfl
    (.malloc 0x200000) 0
  have hmapped := hall 0 _ h' hcall
  rw [mappedWritable_iff rfl bootTables_pageDir] at hmapped
  exact absurd (hmapped 0x400000 (by rw [mem_span]; decide)) (by decide)

end HeapRequest

end DmfOs
