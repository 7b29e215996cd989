import DmfOs.Mem.Page.State
import DmfOs.Mem.Phys.State
import DmfOs.Lib.Mem

/-!
# The heap

`malloc`, `calloc`, `free` and `memalign` of `alloc.c`, over whichever table of
operations `alloc_ops` points to. Every block is preceded by two header words,
the distance to the start of the region granted by the back end and its size.
-/

namespace DmfOs

/-- The table that `alloc_ops` points to. -/
inductive AllocOps where
  /-- `early_alloc_ops`, which has no `free`. -/
  | early
  /-- `page_alloc_ops`. -/
  | page
  deriving DecidableEq, Repr

/-- Memory, the static variables of the two back ends and `alloc_ops`. -/
structure Heap where
  page : PageState
  phys : PhysState
  ops : AllocOps

/-- `METADATA_EXTRA`. -/
def metadataExtra : Word := 2 * 4

/-- `OFS_SLACK`. -/
def ofsSlack : Word := -2 * 4

/-- `OFS_SIZE`. -/
def ofsSize : Word := -4

/-- `block_begin`. -/
def blockBegin (m : Memory) (mem : Word) : Word :=
  let slack := m.load32 (mem + ofsSlack)
  mem - slack

/-- `block_size`. -/
def blockSize (m : Memory) (mem : Word) : Word := m.load32 (mem + ofsSize)

namespace Heap

/-- The memory of the machine. -/
def mem (h : Heap) : Memory := h.page.mem

/-- The same allocators over another memory. -/
def withMem (h : Heap) (m : Memory) : Heap := { h with page := { h.page with mem := m } }

@[simp] theorem mem_withMem (h : Heap) (m : Memory) : (h.withMem m).mem = m := rfl

@[simp] theorem phys_withMem (h : Heap) (m : Memory) : (h.withMem m).phys = h.phys := rfl

@[simp] theorem ops_withMem (h : Heap) (m : Memory) : (h.withMem m).ops = h.ops := rfl

/-- The variables as the kernel image holds them. -/
def initial (m : Memory) : Heap := ⟨⟨m, 0x200000⟩, .initial, .early⟩

/-- `mem_init`. -/
def memInit (h : Heap) : Heap := { h with phys := h.phys.physAllocInit 0x300000 0x7ce0000 }

/-- `page_alloc_ops_enable`. -/
def pageAllocOpsEnable (h : Heap) : Heap := { h with ops := .page }

/-- `alloc_ops->align_min`. -/
def alignMin (h : Heap) : Word :=
  match h.ops with
  | .early => h.phys.alignMin
  | .page => pageSize

/-- `alloc_ops->memalign`. -/
def opsMemalign (fuel : Nat) (alignment size : Word) (h : Heap) : Option (Word × Heap) :=
  match h.ops with
  | .early =>
    let (p, phys) := h.phys.earlyMemalign alignment size
    some (p, { h with phys := phys })
  | .page => (h.page.pageMemalign fuel alignment size).map fun (p, page) =>
    (p, { h with page := page })

/-- `memalign`. -/
def memalign (fuel : Nat) (alignment size : Word) (h : Heap) : Option (Word × Heap) :=
  let size := if alignment ≤ 4 then size else size + (alignment - 1)
  let alignment := if alignment ≤ 4 then 4 else alignment
  let blkalign := maxMacro alignment h.alignMin
  let size := alignWord (size + metadataExtra) h.alignMin
  (h.opsMemalign fuel blkalign size).map fun (p, h) =>
    let mem := p + metadataExtra
    let mem := alignWord mem alignment
    let h := h.withMem (h.mem.store32 (mem + ofsSlack) (mem - p))
    let h := h.withMem (h.mem.store32 (mem + ofsSize) size)
    (mem, h)

/-- `malloc`. -/
def malloc (fuel : Nat) (size : Word) (h : Heap) : Option (Word × Heap) := h.memalign fuel 4 size

/-- `calloc`. -/
def calloc (fuel : Nat) (nmemb size : Word) (h : Heap) : Option (Word × Heap) :=
  (h.malloc fuel (nmemb * size)).map fun (ptr, h) =>
    if ptr ≠ 0 then (ptr, h.withMem (memset ptr 0 (nmemb * size) h.mem)) else (ptr, h)

/-- `free`. -/
def free (fuel : Nat) (ptr : Word) (h : Heap) : Option Heap :=
  match h.ops with
  | .early => some h
  | .page =>
    let base := blockBegin h.mem ptr
    let sz := blockSize h.mem ptr
    (h.page.pageFree fuel base sz).map fun page => { h with page := page }

/-! ## The two halves of `memalign` -/

/-- The alignment of the user pointer. -/
def userAlign (alignment : Word) : Word := if alignment ≤ 4 then 4 else alignment

/-- The user size with the room to align it in. -/
def paddedSize (alignment size : Word) : Word :=
  if alignment ≤ 4 then size else size + (alignment - 1)

/-- The alignment asked of the back end. -/
def blkAlign (h : Heap) (alignment : Word) : Word := maxMacro (userAlign alignment) h.alignMin

/-- The size asked of the back end. -/
def blkSize (h : Heap) (alignment size : Word) : Word :=
  alignWord (paddedSize alignment size + metadataExtra) h.alignMin

/-- The request that `memalign` makes of the back end. -/
def backEnd (fuel : Nat) (alignment size : Word) (h : Heap) : Option (Word × Heap) :=
  h.opsMemalign fuel (h.blkAlign alignment) (h.blkSize alignment size)

/-- The early back end always answers. -/
theorem backEnd_early {h : Heap} (hops : h.ops = .early) (fuel : Nat) (alignment size : Word) :
    h.backEnd fuel alignment size =
      some ((h.phys.earlyMemalign (h.blkAlign alignment) (h.blkSize alignment size)).1,
        { h with phys :=
          (h.phys.earlyMemalign (h.blkAlign alignment) (h.blkSize alignment size)).2 }) := by
  rw [backEnd, opsMemalign, hops]

/-- An answer of the page back end is one of `page_memalign`. -/
theorem backEnd_page {h h' : Heap} (hops : h.ops = .page) {fuel : Nat} {alignment size p : Word}
    (hr : h.backEnd fuel alignment size = some (p, h')) :
    ∃ s, h.page.pageMemalign fuel (h.blkAlign alignment) (h.blkSize alignment size) =
      some (p, s) ∧ h' = { h with page := s } := by
  rw [backEnd, opsMemalign, hops] at hr
  obtain ⟨⟨q, s⟩, hs, he⟩ := Option.map_eq_some_iff.mp hr
  simp only [Prod.mk.injEq] at he
  obtain ⟨rfl, rfl⟩ := he
  exact ⟨s, hs, by rw [hops]⟩

/-- The user pointer in a region that starts at `p`. -/
def userPtr (alignment p : Word) : Word := alignWord (p + metadataExtra) (userAlign alignment)

/-- The two header words in front of `mem`. -/
def header (m : Memory) (mem slack size : Word) : Memory :=
  (m.store32 (mem + ofsSlack) slack).store32 (mem + ofsSize) size

/-- `memalign` asks the back end and then writes the header, whatever it answers. -/
theorem memalign_eq (fuel : Nat) (alignment size : Word) (h : Heap) :
    h.memalign fuel alignment size = (h.backEnd fuel alignment size).map fun (p, h') =>
      (userPtr alignment p,
        h'.withMem (header h'.mem (userPtr alignment p) (userPtr alignment p - p)
          (h.blkSize alignment size))) := rfl

end Heap

/-- A request to the heap. -/
inductive HeapRequest where
  | memalign (alignment size : Word)
  | malloc (size : Word)
  | calloc (nmemb size : Word)

namespace HeapRequest

/-- The alignment that reaches `memalign`. -/
def alignment : HeapRequest → Word
  | memalign alignment _ => alignment
  | malloc _ => 4
  | calloc _ _ => 4

/-- The size that reaches `memalign`. -/
def size : HeapRequest → Word
  | memalign _ size => size
  | malloc size => size
  | calloc nmemb size => nmemb * size

/-- The call. -/
def call (fuel : Nat) : HeapRequest → Heap → Option (Word × Heap)
  | memalign alignment size => Heap.memalign fuel alignment size
  | malloc size => Heap.malloc fuel size
  | calloc nmemb size => Heap.calloc fuel nmemb size

end HeapRequest

end DmfOs
