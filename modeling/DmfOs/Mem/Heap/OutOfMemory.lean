import DmfOs.Mem.Heap.Layout
import DmfOs.Mem.Page.Transfer

/-!
# Requests that the back end refuses

`memalign` does not look at the answer of the back end: it adds the header size
to a null answer, rounds the sum up and writes the header there. So no refused
request, on either back end, is reported or leaves memory alone.
-/

namespace DmfOs

open Memory

namespace HeapRequest

/-- The back end's own `memalign` answers the call with NULL. -/
def Refused (fuel : Nat) (r : HeapRequest) (h : Heap) : Prop :=
  ∃ h', h.backEnd fuel r.alignment r.size = some (0, h')

/-- The call returns NULL, has stored nothing and leaves the allocators alone. -/
def ReportsNull (fuel : Nat) (r : HeapRequest) (h : Heap) : Prop :=
  r.call fuel h = some (0, h)

variable {fuel : Nat} {r : HeapRequest} {h h' : Heap}

/-- Nothing is stored by a back end that refuses. -/
theorem mem_of_refused (hr : h.backEnd fuel r.alignment r.size = some (0, h')) :
    h'.mem = h.mem := by
  cases hops : h.ops with
  | early =>
    rw [Heap.backEnd_early hops] at hr
    obtain ⟨_, rfl⟩ := Prod.mk.inj (Option.some.inj hr)
    rfl
  | page =>
    obtain ⟨s, hs, rfl⟩ := Heap.backEnd_page hops hr
    rcases PageState.pageMemalign_answer hs with ⟨-, rfl⟩ | hpage
    · rfl
    · exact absurd rfl hpage.1

/-- A header is a store, at any address. -/
theorem header_writesIn (m : Memory) (p slack size : Word) :
    ∃ a v, WritesIn Set.univ (m.storeByte a v) (Heap.header m p slack size) := by
  have hu (S : Set Word) : S ⊆ Set.univ := Set.subset_univ S
  refine ⟨p + ofsSlack, slack.extractLsb' 0 8, ?_⟩
  exact ((((writesIn_storeByte _ _ _).mono (hu _)).trans
    ((writesIn_storeByte _ _ _).mono (hu _))).trans
    ((writesIn_storeByte _ _ _).mono (hu _))).trans ((writesIn_store32 _ _ _).mono (hu _))

/-- The user pointer in a null region: the header size rounded up. -/
theorem userPtr_null_ne_zero {alignment : Word} (ha : IsPow2 alignment) :
    Heap.userPtr alignment 0 ≠ 0 := by
  have hua := Heap.isPow2_userAlign ha
  have hdvd : (Heap.userAlign alignment).toNat ∣ 2 ^ 31 := by
    obtain ⟨k, hk, he⟩ := hua.exists_lt
    rw [he]
    exact Nat.pow_dvd_pow 2 (by omega)
  have hge := le_alignUp 8 hua.pos
  have hle : alignUp 8 (Heap.userAlign alignment).toNat ≤ 2 ^ 31 :=
    alignUp_le_of_dvd hua.pos hdvd (by decide)
  intro hzero
  have hval := toNat_alignWord hua (0 + metadataExtra)
  rw [show alignWord (0 + metadataExtra) (Heap.userAlign alignment) = 0 from hzero] at hval
  change 0 = alignUp 8 (Heap.userAlign alignment).toNat % 2 ^ 32 at hval
  omega

/-- `memalign` writes a header into memory when it is refused. -/
theorem memalign_of_refused {alignment size : Word}
    (hr : h.backEnd fuel alignment size = some (0, h')) :
    ∃ h'', h.memalign fuel alignment size = some (Heap.userPtr alignment 0, h'') ∧
      ∃ a v, WritesIn Set.univ (h'.mem.storeByte a v) h''.mem := by
  refine ⟨h'.withMem (Heap.header h'.mem (Heap.userPtr alignment 0)
    (Heap.userPtr alignment 0 - 0) (h.blkSize alignment size)), ?_, header_writesIn _ _ _ _⟩
  rw [Heap.memalign_eq, hr]
  rfl

/-- No call that the back end refuses reports it: the call returns, it has
written to memory, and for an alignment that is a power of two it does not
return NULL. -/
theorem not_reportsNull (hr : r.Refused fuel h) :
    ¬ r.ReportsNull fuel h ∧ ∃ p h', r.call fuel h = some (p, h') ∧ h'.mem ≠ h.mem ∧
      (IsPow2 r.alignment → p ≠ 0) := by
  obtain ⟨h₁, hr⟩ := hr
  have hmem := mem_of_refused hr
  obtain ⟨h₂, hcall, a, v, hw⟩ := memalign_of_refused hr
  rw [hmem] at hw
  suffices hex : ∃ p h', r.call fuel h = some (p, h') ∧ h'.mem ≠ h.mem ∧
      (IsPow2 r.alignment → p ≠ 0) by
    refine ⟨fun hn => ?_, hex⟩
    obtain ⟨p, h', hp, hne, _⟩ := hex
    rw [ReportsNull, hp] at hn
    exact hne (congrArg Heap.mem (Prod.mk.inj (Option.some.inj hn)).2)
  cases r with
  | memalign alignment size =>
    exact ⟨_, h₂, hcall, hw.ne_of_storeByte, userPtr_null_ne_zero⟩
  | malloc size =>
    exact ⟨_, h₂, hcall, hw.ne_of_storeByte, userPtr_null_ne_zero⟩
  | calloc nmemb size =>
    -- the array is cleared behind the header
    have hclear := (memset_writesIn 8 0 (nmemb * size) h₂.mem).mono (Set.subset_univ _)
    refine ⟨8, h₂.withMem (memset 8 0 (nmemb * size) h₂.mem), ?_,
      (hw.trans hclear).ne_of_storeByte, fun _ => by decide⟩
    have hptr : Heap.userPtr 4 0 = 8 := by decide
    change h.memalign fuel 4 (nmemb * size) = some (Heap.userPtr 4 0, h₂) at hcall
    rw [call, Heap.calloc, Heap.malloc, hcall, hptr]
    rfl

/-- Cleared memory after `mem_init`. -/
def clearedHeap : Heap := (Heap.initial ⟨fun _ => 0, []⟩).memInit

/-- The back end has no room for the whole pool of `mem_init` and a header. -/
theorem refused_whole_pool : (malloc 0x7ce0000).Refused 0 clearedHeap := ⟨clearedHeap, rfl⟩

/-- A request for the whole pool of `mem_init`. -/
theorem not_reportsNull_whole_pool : ∃ p h', (malloc 0x7ce0000).call 0 clearedHeap = some (p, h') ∧
    h'.mem ≠ clearedHeap.mem ∧ p ≠ 0 := by
  obtain ⟨p, h', hcall, hmem, hp⟩ := (not_reportsNull refused_whole_pool).2
  exact ⟨p, h', hcall, hmem, hp ⟨2, rfl⟩⟩

/-- The refused request for the whole pool is answered with a pointer into page 0. -/
theorem whole_pool_answered :
    (malloc 0x7ce0000).Refused 0 clearedHeap ∧ ¬ (malloc 0x7ce0000).ReportsNull 0 clearedHeap := by
  refine ⟨refused_whole_pool, fun hn => ?_⟩
  have hptr : ((malloc 0x7ce0000).call 0 clearedHeap).map Prod.fst = some 8 := by decide
  rw [ReportsNull] at hn
  rw [hn] at hptr
  cases hptr

end HeapRequest

end DmfOs
