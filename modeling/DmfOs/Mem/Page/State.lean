import DmfOs.Core.Memory

/-!
# The page allocator

The static `freelist` of `alloc_page.c` and the functions over it. The list
lives in the free pages themselves: the first word of a free page is the link
to the next one. A loop of the source takes fuel and is `none` when it runs
out, so that a call that never returns has no result for any fuel. Assertions
only print; the spin lock is free at every entry.
-/

namespace DmfOs

/-- `PAGE_SHIFT`. -/
def pageShift : Nat := 12

/-- `PAGE_SIZE`. -/
def pageSize : Word := 4096

/-- `is_power_of_2`. -/
def isPowerOf2 (n : Word) : Bool := n != 0 && (n &&& (n - 1)) == 0

/-- `fls`: the index of the highest set bit of a non-zero word. -/
def fls (word : Word) : Word := BitVec.ofNat 32 word.toNat.log2

/-- `1ul << order`, with the shift count taken modulo 32 as the processor takes it. -/
def orderPages (order : Word) : Word := 1#32 <<< (order.toNat % 32)

/-- The mask that a naturally aligned block of the given order passes. -/
def orderMask (order : Word) : Word := (orderPages order <<< pageShift) - 1

/-- Memory and the head of the free list. -/
structure PageState where
  mem : Memory
  freelist : Word

namespace PageState

/-- The local variables that the scan of `alloc_pages` carries from node to node. -/
structure ScanVars where
  curr : Word
  next : Word
  run : Word
  runStart : Word
  runPrev : Word
  runNextPa : Word

/-- The update of the run variables at a non-null node. -/
def ScanVars.track (v : ScanVars) (alignMask prev curr next : Word) : ScanVars :=
  let v := { v with curr := curr, next := next }
  let pa := curr
  if v.run = 0 then
    if pa &&& alignMask = 0 then
      { v with runStart := curr, runPrev := prev, runNextPa := pa + pageSize, run := 1 }
    else v
  else if pa = v.runNextPa then
    { v with runNextPa := v.runNextPa + pageSize, run := v.run + 1 }
  else { v with run := 0 }

/-- The scan of `alloc_pages` from the node `next` on. -/
def allocPagesLoop (n alignMask : Word) : Nat → ScanVars → PageState → Option (Word × PageState)
  | 0, _, _ => none
  | fuel + 1, v, s =>
    let prev := v.curr
    let curr := v.next
    if curr = 0 then some (0, s)
    else
      let next := s.mem.load32 curr
      let v := v.track alignMask prev curr next
      if v.run = n then
        some (v.runStart,
          if v.runPrev ≠ 0 then { s with mem := s.mem.store32 v.runPrev next }
          else { s with freelist := next })
      else allocPagesLoop n alignMask fuel v s

/-- `alloc_pages`. -/
def allocPages (fuel : Nat) (order : Word) (s : PageState) : Option (Word × PageState) :=
  allocPagesLoop (orderPages order) (orderMask order) fuel ⟨0, s.freelist, 0, 0, 0, 0⟩ s

/-- The linking loop of `free_pages`; it returns the last page and the memory. -/
def freePagesLoop (endAddr : Word) : Nat → Word → Memory → Option (Word × Memory)
  | 0, _, _ => none
  | fuel + 1, mem, m =>
    if mem + pageSize ≠ endAddr then
      freePagesLoop endAddr fuel (mem + pageSize) (m.store32 mem (mem + pageSize))
    else some (mem, m)

/-- `free_pages`. -/
def freePages (fuel : Nat) (mem size : Word) (s : PageState) : Option PageState :=
  if size = 0 then some { s with freelist := 0 }
  else
    let oldFreelist := s.freelist
    let s := { s with freelist := mem }
    let endAddr := mem + size
    (freePagesLoop endAddr fuel mem s.mem).map fun (last, m) =>
      { s with mem := m.store32 last oldFreelist }

/-- `page_memalign`; the alignment is not used. -/
def pageMemalign (fuel : Nat) (_alignment size : Word) (s : PageState) :
    Option (Word × PageState) :=
  let n := alignWord size pageSize >>> pageShift
  if size = 0 then some (0, s)
  else
    let order := if isPowerOf2 n then fls n else fls n + 1
    allocPages fuel order s

/-- `page_free`. -/
def pageFree (fuel : Nat) (mem size : Word) (s : PageState) : Option PageState :=
  freePages fuel mem size s

/-- `free_page`. -/
def freePage (page : Word) (s : PageState) : PageState :=
  { s with mem := s.mem.store32 page s.freelist, freelist := page }

/-- `alloc_page`. -/
def allocPage (s : PageState) : Word × PageState :=
  if s.freelist = 0 then (0, s)
  else (s.freelist, { s with freelist := s.mem.load32 s.freelist })

end PageState

end DmfOs
