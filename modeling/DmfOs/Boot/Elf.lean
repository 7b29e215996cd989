import DmfOs.Core.Fill

/-!
# The loader of the boot sector

`reload_elf_file` copies the segments of an ELF file in memory to their physical addresses.
Like the compiled code, the model reads the fields of the headers from memory whenever they are
used, so a segment stored over them changes what comes next. The counters wrap.
-/

namespace DmfOs

open Memory

namespace Boot

/-! ## Headers -/

/-- The fields of `Elf32_Ehdr` that the loader reads. -/
structure Ehdr where
  /-- The first four bytes of `e_ident`. -/
  ident : List Byte
  /-- `e_entry`. -/
  entry : Word
  /-- `e_phoff`. -/
  phoff : Word
  /-- `e_phnum`. -/
  phnum : BitVec 16
  deriving DecidableEq

/-- The fields of `Elf32_Phdr` that the loader reads. -/
structure Phdr where
  /-- `p_type`. -/
  type : Word
  /-- `p_offset`. -/
  offset : Word
  /-- `p_paddr`. -/
  paddr : Word
  /-- `p_filesz`. -/
  filesz : Word
  /-- `p_memsz`. -/
  memsz : Word
  deriving DecidableEq

/-- `sizeof(Elf32_Ehdr)`. -/
def ehdrSize : Nat := 52

/-- `sizeof(Elf32_Phdr)`. -/
def phdrSize : Nat := 32

/-- `PT_LOAD`. -/
def ptLoad : Word := 1

/-- `ELF_MAGIC` and the letters. -/
def elfMagic : List Byte := [0x7f, 0x45, 0x4c, 0x46]

/-- `elf_hdr`. -/
def elfHdr (m : Memory) (fileBuffer : Word) : Ehdr where
  ident := m.slice fileBuffer 4
  entry := m.load32 (fileBuffer + 24)
  phoff := m.load32 (fileBuffer + 28)
  phnum := m.load16 (fileBuffer + 44)

/-- What `phdr` points to. -/
def phdrAt (m : Memory) (p : Word) : Phdr where
  type := m.load32 p
  offset := m.load32 (p + 4)
  paddr := m.load32 (p + 12)
  filesz := m.load32 (p + 16)
  memsz := m.load32 (p + 20)

/-- `(Elf32_Phdr *)(file_buffer + elf_hdr->e_phoff) + i`. -/
def phdrAddr (m : Memory) (fileBuffer : Word) (i : Nat) : Word :=
  fileBuffer + (elfHdr m fileBuffer).phoff + .ofNat 32 (phdrSize * i)

/-! ## The code -/

/-- The loop over the bytes in the file. -/
def copyFile (phdr src dest : Word) (m : Memory) : Memory :=
  storeLoop (fun m => (phdrAt m phdr).filesz) (fun j m => m.byte (src + j)) 0 dest m

/-- The loop over the bytes that are only in memory. -/
def clearRest (phdr dest : Word) (m : Memory) : Memory :=
  storeLoop (fun m => (phdrAt m phdr).memsz - (phdrAt m phdr).filesz) (fun _ _ => 0) 0 dest m

/-- The body of the loop over the program headers. -/
def loadSegment (fileBuffer phdr : Word) (m : Memory) : Memory :=
  if (phdrAt m phdr).type ≠ ptLoad then m
  else
    let src := fileBuffer + (phdrAt m phdr).offset
    let dest := (phdrAt m phdr).paddr
    let m := copyFile phdr src dest m
    let dest := (phdrAt m phdr).paddr + (phdrAt m phdr).filesz
    clearRest phdr dest m

/-- The loop over the program headers. -/
def segmentLoop (fileBuffer : Word) (i : Nat) (m : Memory) : Memory :=
  if i < (elfHdr m fileBuffer).phnum.toNat then
    segmentLoop fileBuffer (i + 1) (loadSegment fileBuffer (phdrAddr m fileBuffer i) m)
  else m
termination_by 2 ^ 16 - i
decreasing_by omega

/-- The entry point, zero without the magic, and the memory. -/
def reloadElfFile (fileBuffer : Word) (m : Memory) : Word × Memory :=
  if (elfHdr m fileBuffer).ident ≠ elfMagic then (0, m)
  else
    let m := segmentLoop fileBuffer 0 m
    ((elfHdr m fileBuffer).entry, m)

/-! ## What the file says -/

/-- The bytes that a segment takes in memory. -/
def Phdr.target (h : Phdr) : Set Word := span h.paddr h.memsz.toNat

/-- The program header with an index. -/
def segment (m : Memory) (fileBuffer : Word) (i : Nat) : Phdr :=
  phdrAt m (phdrAddr m fileBuffer i)

/-- The index is that of a segment to load. -/
def Loadable (m : Memory) (fileBuffer : Word) (i : Nat) : Prop :=
  i < (elfHdr m fileBuffer).phnum.toNat ∧ (segment m fileBuffer i).type = ptLoad

/-- The bytes that the segments from an index on take. -/
def targetsFrom (m : Memory) (fileBuffer : Word) (i : Nat) : Set Word :=
  {a | ∃ k, i ≤ k ∧ Loadable m fileBuffer k ∧ a ∈ (segment m fileBuffer k).target}

/-- The headers are in the buffer, the segments apart from it and from each other. -/
structure Placed (len : Nat) (m : Memory) (fileBuffer : Word) : Prop where
  /-- The file header is in the buffer. -/
  ehdr : span fileBuffer ehdrSize ⊆ span fileBuffer len
  /-- So is every program header. -/
  phdr : ∀ i < (elfHdr m fileBuffer).phnum.toNat,
    span (phdrAddr m fileBuffer i) phdrSize ⊆ span fileBuffer len
  /-- No segment is loaded over the buffer. -/
  apart : ∀ i, Loadable m fileBuffer i →
    Disjoint (span fileBuffer len) (segment m fileBuffer i).target
  /-- No two segments meet. -/
  pairwise : ∀ i k, Loadable m fileBuffer i → Loadable m fileBuffer k → i ≠ k →
    Disjoint (segment m fileBuffer i).target (segment m fileBuffer k).target

/-- A segment is in memory: its bytes of the file, and zeros behind them. The bytes demanded are
those whose source lies in none of the targets `S`. All bytes of the buffer are among them, since
no segment is loaded over the buffer; what an offset finds behind the buffer may be a target,
overwritten by the time it is read. -/
structure Loaded (fileBuffer : Word) (h : Phdr) (S : Set Word) (m m' : Memory) : Prop where
  /-- The bytes in the file. -/
  file : ∀ k < min h.filesz.toNat h.memsz.toNat,
    fileBuffer + h.offset + .ofNat 32 k ∉ S →
      m'.byte (h.paddr + .ofNat 32 k) = m.byte (fileBuffer + h.offset + .ofNat 32 k)
  /-- The bytes behind them. -/
  zeros : ∀ k < h.memsz.toNat, min h.filesz.toNat h.memsz.toNat ≤ k →
    m'.byte (h.paddr + .ofNat 32 k) = 0

/-- What the loader is for. -/
structure Reloads (fileBuffer : Word) (m : Memory) (r : Word × Memory) : Prop where
  /-- The entry point is returned. -/
  entry : r.1 = (elfHdr m fileBuffer).entry
  /-- Only bytes of segments are written. -/
  writes : WritesIn (targetsFrom m fileBuffer 0) m r.2
  /-- Every segment is in memory. -/
  segments : ∀ i, Loadable m fileBuffer i →
    Loaded fileBuffer (segment m fileBuffer i) (targetsFrom m fileBuffer 0) m r.2

/-! ## Headers are kept -/

variable {m m₁ m' : Memory} {fileBuffer p : Word} {S : Set Word} {i len : Nat}

/-- A program header apart from the stores is kept. -/
theorem phdrAt_eq (h : WritesIn S m m') (hd : Disjoint (span p phdrSize) S) :
    phdrAt m' p = phdrAt m p := by
  have hfield (k : Nat) (hk : k + 4 ≤ phdrSize) :
      m'.load32 (p + .ofNat 32 k) = m.load32 (p + .ofNat 32 k) :=
    h.load32_eq (hd.mono_left (span_add_subset p hk))
  have htype := hfield 0 (by decide)
  rw [BitVec.add_zero] at htype
  have hoffset := hfield 4 (by decide)
  have hpaddr := hfield 12 (by decide)
  have hfilesz := hfield 16 (by decide)
  have hmemsz := hfield 20 (by decide)
  unfold phdrAt
  congr 1

/-- So is the file header. -/
theorem elfHdr_eq (h : WritesIn S m m') (hd : Disjoint (span fileBuffer ehdrSize) S) :
    elfHdr m' fileBuffer = elfHdr m fileBuffer := by
  have hin (k n : Nat) (hk : k + n ≤ ehdrSize) :
      Disjoint (span (fileBuffer + .ofNat 32 k) n) S :=
    hd.mono_left (span_add_subset fileBuffer hk)
  have hident := h.slice_eq (hd.mono_left (span_mono fileBuffer (show 4 ≤ ehdrSize by decide)))
  have hentry := h.load32_eq (hin 24 4 (by decide))
  have hphoff := h.load32_eq (hin 28 4 (by decide))
  have hphnum := h.load16_eq (hin 44 2 (by decide))
  unfold elfHdr
  congr 1

/-! ## One segment -/

variable {h : Phdr}

/-- A segment that is not to be loaded. -/
theorem loadSegment_of_ne (ht : (phdrAt m p).type ≠ ptLoad) : loadSegment fileBuffer p m = m :=
  if_pos ht

/-- A segment that is to be loaded. -/
theorem loadSegment_of_load (ht : (phdrAt m p).type = ptLoad)
    (h₁ : copyFile p (fileBuffer + (phdrAt m p).offset) (phdrAt m p).paddr m = m₁) :
    loadSegment fileBuffer p m =
      clearRest p ((phdrAt m₁ p).paddr + (phdrAt m₁ p).filesz) m₁ := by
  subst h₁
  exact if_neg (not_not_intro ht)

/-- The loader only adds to the trace. -/
theorem stores_loadSegment (fileBuffer p : Word) (m : Memory) :
    m.stores <:+ (loadSegment fileBuffer p m).stores := by
  by_cases ht : (phdrAt m p).type = ptLoad
  · rw [loadSegment_of_load ht rfl]
    exact (stores_storeLoop _ _ _).trans (stores_storeLoop _ _ _)
  · exact (loadSegment_of_ne ht).symm ▸ List.suffix_rfl

/-- The bytes in the file are copied. -/
theorem copyFile_fills (hphdr : phdrAt m p = h)
    (hd : Disjoint (span p phdrSize) (span h.paddr h.filesz.toNat)) (src : Word) :
    WritesIn (span h.paddr h.filesz.toNat) m (copyFile p src h.paddr m) ∧
      ∀ k < h.filesz.toNat, src + .ofNat 32 k ∉ span h.paddr h.filesz.toNat →
        (copyFile p src h.paddr m).byte (h.paddr + .ofNat 32 k) = m.byte (src + .ofNat 32 k) := by
  have hn : (0 : Word).toNat + h.filesz.toNat = (phdrAt m p).filesz.toNat := by
    rw [hphdr]
    exact Nat.zero_add _
  obtain ⟨hwrites, hvalues⟩ := storeLoop_fills (fun m => (phdrAt m p).filesz)
    (fun j m => m.byte (src + j)) hn fun m₁ h₁ => by rw [phdrAt_eq h₁ hd]
  refine ⟨hwrites, fun k hk hsrc => ?_⟩
  obtain ⟨m₁, h₁, hv⟩ := hvalues k hk
  have hzero : (0 : Word) + .ofNat 32 k = .ofNat 32 k := BitVec.zero_add _
  rw [hzero] at hv
  exact hv.trans (h₁.kept _ hsrc)

/-- The bytes behind them are cleared. -/
theorem clearRest_fills {dest : Word} (hphdr : phdrAt m p = h)
    (hd : Disjoint (span p phdrSize) (span dest (h.memsz - h.filesz).toNat)) :
    WritesIn (span dest (h.memsz - h.filesz).toNat) m (clearRest p dest m) ∧
      ∀ k < (h.memsz - h.filesz).toNat, (clearRest p dest m).byte (dest + .ofNat 32 k) = 0 := by
  have hn : (0 : Word).toNat + (h.memsz - h.filesz).toNat =
      ((phdrAt m p).memsz - (phdrAt m p).filesz).toNat := by
    rw [hphdr]
    exact Nat.zero_add _
  obtain ⟨hwrites, hvalues⟩ := storeLoop_fills
    (fun m => (phdrAt m p).memsz - (phdrAt m p).filesz) (fun _ _ => 0) hn
    fun m₁ h₁ => by rw [phdrAt_eq h₁ hd]
  refine ⟨hwrites, fun k hk => ?_⟩
  obtain ⟨m₁, h₁, hv⟩ := hvalues k hk
  exact hv

/-- A segment that is not larger in the file than in memory is loaded. -/
theorem loadSegment_loaded (hphdr : phdrAt m p = h) (ht : h.type = ptLoad)
    (hle : h.filesz ≤ h.memsz) (hd : Disjoint (span p phdrSize) h.target) :
    WritesIn h.target m (loadSegment fileBuffer p m) ∧
      Loaded fileBuffer h h.target m (loadSegment fileBuffer p m) := by
  have hfile : span h.paddr h.filesz.toNat ⊆ h.target := span_mono h.paddr hle
  have hrest : span (h.paddr + h.filesz) (h.memsz - h.filesz).toNat ⊆ h.target := by
    have hsub : h.filesz.toNat + (h.memsz - h.filesz).toNat ≤ h.memsz.toNat := by bv_omega
    have hin := span_add_subset h.paddr hsub
    rwa [BitVec.ofNat_toNat, BitVec.setWidth_eq] at hin
  obtain ⟨hcopy, hbytes⟩ := copyFile_fills hphdr (hd.mono_right hfile) (fileBuffer + h.offset)
  have hkept := phdrAt_eq hcopy (hd.mono_right hfile)
  obtain ⟨hclear, hzeros⟩ := clearRest_fills (hkept.trans hphdr) (hd.mono_right hrest)
  have heq : loadSegment fileBuffer p m = clearRest p (h.paddr + h.filesz)
      (copyFile p (fileBuffer + h.offset) h.paddr m) := by
    rw [loadSegment_of_load (by rwa [hphdr]) rfl, hphdr, hkept, hphdr]
  rw [heq]
  refine ⟨(hcopy.mono hfile).trans (hclear.mono hrest), ?_, ?_⟩
  · intro k hk hsrc
    have hk' : k < h.filesz.toNat := hk.trans_le (min_le_left _ _)
    have hapart : h.paddr + .ofNat 32 k ∉ span (h.paddr + h.filesz) (h.memsz - h.filesz).toNat := by
      rw [mem_span]
      bv_omega
    rw [hclear.kept _ hapart]
    exact hbytes k hk' fun hx => hsrc (hfile hx)
  · intro k hk hge
    rw [min_eq_left hle] at hge
    have hstep : h.paddr + h.filesz + .ofNat 32 (k - h.filesz.toNat) =
        h.paddr + .ofNat 32 k := by bv_omega
    rw [← hstep]
    exact hzeros _ (by bv_omega)

/-- A segment whose stores all hit a set apart from its header is not larger in the file than
in memory: otherwise the second loop runs through the whole address space. -/
theorem filesz_le_of_writesIn (hphdr : phdrAt m p = h) (ht : h.type = ptLoad)
    (hd : Disjoint (span p phdrSize) S) (hw : WritesIn S m m')
    (hs : (loadSegment fileBuffer p m).stores <:+ m'.stores) : h.filesz ≤ h.memsz := by
  by_contra hlt
  have hkept (m₁ : Memory) (h₁ : WritesIn S m m₁) : phdrAt m₁ p = h :=
    (phdrAt_eq h₁ hd).trans hphdr
  have hn : (0 : Word).toNat + h.filesz.toNat = (phdrAt m p).filesz.toNat := by
    rw [hphdr]
    exact Nat.zero_add _
  rw [loadSegment_of_load (by rwa [hphdr]) rfl, hphdr] at hs
  have hs₁ := (stores_storeLoop _ _ _).trans hs
  obtain ⟨hcopy, hlow⟩ := storeLoop_forced _ _ hn
    (fun m₁ h₁ => by rw [hkept m₁ h₁, hphdr]) hw hs₁
  have hcopied : WritesIn S m (copyFile p (fileBuffer + h.offset) h.paddr m) := hcopy
  have hphdr₁ := hkept _ hcopied
  rw [hphdr₁] at hs
  have hn₁ : (0 : Word).toNat + (h.memsz - h.filesz).toNat =
      ((phdrAt (copyFile p (fileBuffer + h.offset) h.paddr m) p).memsz -
        (phdrAt (copyFile p (fileBuffer + h.offset) h.paddr m) p).filesz).toNat := by
    rw [hphdr₁]
    exact Nat.zero_add _
  obtain ⟨-, hhigh⟩ := storeLoop_forced _ _ hn₁
    (fun m₁ h₁ => by rw [hkept m₁ (hcopied.trans h₁), hphdr₁]) (hw.rest hcopied hs₁) hs
  have hp : p ∉ S := Set.disjoint_left.mp hd (self_mem_span p (by decide))
  apply hp
  -- the header itself is reached by one of the two loops
  by_cases hdist : (p - h.paddr).toNat < h.filesz.toNat
  · have hin := hlow _ hdist
    have hreach : h.paddr + .ofNat 32 (p - h.paddr).toNat = p := by bv_omega
    rwa [hreach] at hin
  · have hin := hhigh ((p - h.paddr).toNat - h.filesz.toNat) (by bv_omega)
    have hreach : h.paddr + h.filesz + .ofNat 32 ((p - h.paddr).toNat - h.filesz.toNat) = p := by
      bv_omega
    rwa [hreach] at hin

/-! ## All segments -/

/-- The buffer is apart from all segments. -/
theorem Placed.disjoint (h : Placed len m fileBuffer) :
    Disjoint (span fileBuffer len) (targetsFrom m fileBuffer 0) := by
  rw [Set.disjoint_left]
  rintro a ha ⟨k, -, hk, hak⟩
  exact Set.disjoint_left.mp (h.apart k hk) ha hak

/-- While only segments are written, the file header is kept. -/
theorem Placed.elfHdr_eq (h : Placed len m fileBuffer)
    (hm : WritesIn (targetsFrom m fileBuffer 0) m m₁) :
    elfHdr m₁ fileBuffer = elfHdr m fileBuffer :=
  Boot.elfHdr_eq hm (h.disjoint.mono_left h.ehdr)

/-- So are the program headers, where the loader looks for them. -/
theorem Placed.segment_eq (h : Placed len m fileBuffer)
    (hm : WritesIn (targetsFrom m fileBuffer 0) m m₁)
    (hi : i < (elfHdr m fileBuffer).phnum.toNat) :
    span (phdrAddr m₁ fileBuffer i) phdrSize ⊆ span fileBuffer len ∧
      phdrAt m₁ (phdrAddr m₁ fileBuffer i) = segment m fileBuffer i := by
  have haddr : phdrAddr m₁ fileBuffer i = phdrAddr m fileBuffer i := by
    rw [phdrAddr, phdrAddr, h.elfHdr_eq hm]
  rw [haddr]
  exact ⟨h.phdr i hi, phdrAt_eq hm (h.disjoint.mono_left (h.phdr i hi))⟩

/-- A segment is one of those from its index on. -/
theorem target_subset {k : Nat} (hik : i ≤ k) (hk : Loadable m fileBuffer k) :
    (segment m fileBuffer k).target ⊆ targetsFrom m fileBuffer i :=
  fun _ ha => ⟨k, hik, hk, ha⟩

theorem targetsFrom_antitone {k : Nat} (hik : i ≤ k) :
    targetsFrom m fileBuffer k ⊆ targetsFrom m fileBuffer i :=
  fun _ ⟨l, hkl, hl, ha⟩ => ⟨l, hik.trans hkl, hl, ha⟩

/-- A segment is apart from those behind it. -/
theorem Placed.disjoint_rest (h : Placed len m fileBuffer) (hi : Loadable m fileBuffer i) :
    Disjoint (segment m fileBuffer i).target (targetsFrom m fileBuffer (i + 1)) := by
  rw [Set.disjoint_left]
  rintro a ha ⟨k, hik, hk, hak⟩
  exact Set.disjoint_left.mp (h.pairwise i k hi hk (by omega)) ha hak

/-- A segment loaded after others stays loaded when only other bytes are written. -/
theorem Loaded.extend {T : Set Word} {m₂ : Memory} (hl : Loaded fileBuffer h h.target m₁ m₂)
    (hm : WritesIn S m m₁) (hsub : h.target ⊆ S) (hrest : WritesIn T m₂ m')
    (hdisj : Disjoint h.target T) : Loaded fileBuffer h S m m' := by
  have hkept (k : Nat) (hk : k < h.memsz.toNat) :
      m'.byte (h.paddr + .ofNat 32 k) = m₂.byte (h.paddr + .ofNat 32 k) := by
    apply hrest.kept
    apply Set.disjoint_left.mp hdisj
    exact add_mem_span h.paddr hk
  constructor
  · intro k hk hsrc
    rw [hkept k (hk.trans_le (min_le_right _ _)), hl.file k hk fun hx => hsrc (hsub hx),
      hm.kept _ hsrc]
  · intro k hk hge
    rw [hkept k hk, hl.zeros k hk hge]

/-- The end of the loop. -/
theorem segmentLoop_zero (hn : i + 0 = (elfHdr m fileBuffer).phnum.toNat) :
    segmentLoop fileBuffer i m = m := by
  rw [segmentLoop, if_neg (by omega)]

/-- One program header. -/
theorem segmentLoop_succ {n : Nat} (hn : i + (n + 1) = (elfHdr m fileBuffer).phnum.toNat) :
    segmentLoop fileBuffer i m = segmentLoop fileBuffer (i + 1)
      (loadSegment fileBuffer (phdrAddr m fileBuffer i) m) := by
  rw [segmentLoop, if_pos (by omega)]

/-- The loop only adds to the trace. -/
theorem stores_segmentLoop (fileBuffer : Word) (i : Nat) (m : Memory) :
    m.stores <:+ (segmentLoop fileBuffer i m).stores := by
  induction i, m using segmentLoop.induct fileBuffer with
  | case1 i m h ih =>
    rw [segmentLoop, if_pos h]
    exact (stores_loadSegment fileBuffer _ m).trans ih
  | case2 i m h =>
    have hend : segmentLoop fileBuffer i m = m := by rw [segmentLoop, if_neg h]
    exact hend.symm ▸ List.suffix_rfl

/-- One segment of a run that has only written segments. -/
theorem Placed.loadSegment_loaded (hp : Placed len m fileBuffer)
    (hm : WritesIn (targetsFrom m fileBuffer 0) m m₁) (hi : Loadable m fileBuffer i)
    (hle : (segment m fileBuffer i).filesz ≤ (segment m fileBuffer i).memsz) :
    WritesIn (segment m fileBuffer i).target m₁
        (loadSegment fileBuffer (phdrAddr m₁ fileBuffer i) m₁) ∧
      Loaded fileBuffer (segment m fileBuffer i) (segment m fileBuffer i).target m₁
        (loadSegment fileBuffer (phdrAddr m₁ fileBuffer i) m₁) := by
  obtain ⟨hin, hphdr⟩ := hp.segment_eq hm hi.1
  exact Boot.loadSegment_loaded hphdr hi.2 hle ((hp.apart i hi).mono_left hin)

/-- A header of another type is passed over. -/
theorem Placed.loadSegment_of_ne (hp : Placed len m fileBuffer)
    (hm : WritesIn (targetsFrom m fileBuffer 0) m m₁)
    (hi : i < (elfHdr m fileBuffer).phnum.toNat) (hn : ¬Loadable m fileBuffer i) :
    loadSegment fileBuffer (phdrAddr m₁ fileBuffer i) m₁ = m₁ := by
  apply Boot.loadSegment_of_ne
  rw [(hp.segment_eq hm hi).2]
  exact fun ht => hn ⟨hi, ht⟩

/-- When no segment is larger in the file than in memory, all are loaded. -/
theorem Placed.segmentLoop_loaded (hp : Placed len m fileBuffer)
    (hle : ∀ i, Loadable m fileBuffer i →
      (segment m fileBuffer i).filesz ≤ (segment m fileBuffer i).memsz)
    {n : Nat} (hn : i + n = (elfHdr m fileBuffer).phnum.toNat)
    (hm : WritesIn (targetsFrom m fileBuffer 0) m m₁) :
    WritesIn (targetsFrom m fileBuffer i) m₁ (segmentLoop fileBuffer i m₁) ∧
      ∀ k, i ≤ k → Loadable m fileBuffer k →
        Loaded fileBuffer (segment m fileBuffer k) (targetsFrom m fileBuffer 0) m
          (segmentLoop fileBuffer i m₁) := by
  induction n generalizing i m₁ with
  | zero =>
    rw [segmentLoop_zero (by rw [hp.elfHdr_eq hm, hn])]
    refine ⟨.refl _ m₁, fun k hik hk => ?_⟩
    have hlt := hk.1
    omega
  | succ n ih =>
    have hi : i < (elfHdr m fileBuffer).phnum.toNat := by omega
    rw [segmentLoop_succ (by rw [hp.elfHdr_eq hm, hn])]
    by_cases hload : Loadable m fileBuffer i
    · obtain ⟨hwrites, hloaded⟩ := hp.loadSegment_loaded hm hload (hle i hload)
      have hin := hwrites.mono (target_subset (Nat.zero_le i) hload)
      obtain ⟨hrest, hothers⟩ := ih (i := i + 1) (by omega) (hm.trans hin)
      refine ⟨(hwrites.mono (target_subset le_rfl hload)).trans
        (hrest.mono (targetsFrom_antitone i.le_succ)), fun k hik hk => ?_⟩
      rcases Nat.eq_or_lt_of_le hik with rfl | hlt
      · exact hloaded.extend hm (target_subset (Nat.zero_le i) hload) hrest
          (hp.disjoint_rest hload)
      · exact hothers k hlt hk
    · rw [hp.loadSegment_of_ne hm hi hload]
      obtain ⟨hrest, hothers⟩ := ih (i := i + 1) (by omega) hm
      refine ⟨hrest.mono (targetsFrom_antitone i.le_succ), fun k hik hk => ?_⟩
      rcases Nat.eq_or_lt_of_le hik with rfl | hlt
      · exact absurd hk hload
      · exact hothers k hlt hk

/-- When only segments are written, no segment is larger in the file than in memory. -/
theorem Placed.filesz_le_of_writesIn (hp : Placed len m fileBuffer) {n : Nat}
    (hn : i + n = (elfHdr m fileBuffer).phnum.toNat)
    (hm : WritesIn (targetsFrom m fileBuffer 0) m m₁)
    (hw : WritesIn (targetsFrom m fileBuffer 0) m₁ m')
    (hs : (segmentLoop fileBuffer i m₁).stores <:+ m'.stores) {k : Nat} (hik : i ≤ k)
    (hk : Loadable m fileBuffer k) :
    (segment m fileBuffer k).filesz ≤ (segment m fileBuffer k).memsz := by
  induction n generalizing i m₁ with
  | zero =>
    have hlt := hk.1
    omega
  | succ n ih =>
    have hi : i < (elfHdr m fileBuffer).phnum.toNat := by omega
    rw [segmentLoop_succ (by rw [hp.elfHdr_eq hm, hn])] at hs
    have hs₁ := (stores_segmentLoop _ _ _).trans hs
    have hle (hload : Loadable m fileBuffer i) :
        (segment m fileBuffer i).filesz ≤ (segment m fileBuffer i).memsz := by
      obtain ⟨hin, hphdr⟩ := hp.segment_eq hm hi
      exact Boot.filesz_le_of_writesIn hphdr hload.2 (hp.disjoint.mono_left hin) hw hs₁
    have hstep : WritesIn (targetsFrom m fileBuffer 0) m₁
        (loadSegment fileBuffer (phdrAddr m₁ fileBuffer i) m₁) := by
      by_cases hload : Loadable m fileBuffer i
      · exact (hp.loadSegment_loaded hm hload (hle hload)).1.mono
          (target_subset (Nat.zero_le i) hload)
      · rw [hp.loadSegment_of_ne hm hi hload]
        exact .refl _ m₁
    rcases Nat.eq_or_lt_of_le hik with rfl | hlt
    · exact hle hk
    · exact ih (by omega) (hm.trans hstep) (hw.rest hstep hs₁) hs hlt

/-! ## The whole loader -/

/-- A file with the magic is loaded; without it nothing is written. -/
structure LoadsElf (fileBuffer : Word) (m : Memory) : Prop where
  /-- The file is loaded. -/
  accepted : (elfHdr m fileBuffer).ident = elfMagic →
    Reloads fileBuffer m (reloadElfFile fileBuffer m)
  /-- It is no ELF file. -/
  rejected : (elfHdr m fileBuffer).ident ≠ elfMagic → reloadElfFile fileBuffer m = (0, m)

/-- The file passes the check. -/
theorem reloadElfFile_of_magic (h : (elfHdr m fileBuffer).ident = elfMagic) :
    reloadElfFile fileBuffer m =
      ((elfHdr (segmentLoop fileBuffer 0 m) fileBuffer).entry, segmentLoop fileBuffer 0 m) :=
  if_neg (not_not_intro h)

/-- A loaded file has no segment that is larger in the file than in memory. -/
theorem Reloads.filesz_le (hr : Reloads fileBuffer m (reloadElfFile fileBuffer m))
    (hmagic : (elfHdr m fileBuffer).ident = elfMagic) (hp : Placed len m fileBuffer)
    (hi : Loadable m fileBuffer i) :
    (segment m fileBuffer i).filesz ≤ (segment m fileBuffer i).memsz := by
  have hw := hr.writes
  rw [reloadElfFile_of_magic hmagic] at hw
  exact hp.filesz_le_of_writesIn (Nat.zero_add _) (.refl _ m) hw List.suffix_rfl
    (Nat.zero_le i) hi

/-- The loader does what it is for exactly on the files whose segments are at least as large in
memory as in the file. -/
theorem loadsElf_iff (hp : (elfHdr m fileBuffer).ident = elfMagic → Placed len m fileBuffer) :
    LoadsElf fileBuffer m ↔ ((elfHdr m fileBuffer).ident = elfMagic →
      ∀ i, Loadable m fileBuffer i →
        (segment m fileBuffer i).filesz ≤ (segment m fileBuffer i).memsz) := by
  constructor
  · intro h hmagic i hi
    exact (h.accepted hmagic).filesz_le hmagic (hp hmagic) hi
  · intro hle
    constructor
    · intro hmagic
      have hplaced := hp hmagic
      obtain ⟨hwrites, hloaded⟩ := hplaced.segmentLoop_loaded (hle hmagic) (Nat.zero_add _)
        (.refl _ m)
      rw [reloadElfFile_of_magic hmagic]
      constructor
      · rw [hplaced.elfHdr_eq hwrites]
      · exact hwrites
      · exact fun i hi => hloaded i (Nat.zero_le i) hi
    · intro hmagic
      exact if_pos hmagic

/-- Memory with a file at `0x10000` that has one segment: its first two bytes, and `memsz` bytes
in memory. -/
def elfMemory (memsz : Byte) : Memory where
  byte a :=
    match (a - 0x10000).toNat with
    | 0 => 0x7f
    | 1 => 0x45
    | 2 => 0x4c
    | 3 => 0x46
    | 26 => 0x10
    | 28 => 52
    | 44 => 1
    | 52 => 1
    | 66 => 0x10
    | 68 => 2
    | 72 => memsz
    | _ => 0
  stores := []

theorem elfHdr_elfMemory (b : Byte) :
    elfHdr (elfMemory b) 0x10000 = ⟨elfMagic, 0x100000, 52, 1⟩ := by
  simp [elfHdr, elfMemory, elfMagic, load32, load16, slice, List.range_succ]

theorem segment_elfMemory (b : Byte) :
    segment (elfMemory b) 0x10000 0 = ⟨ptLoad, 0, 0x100000, 2, 0#24 ++ b⟩ := by
  rw [segment, phdrAddr, elfHdr_elfMemory]
  simp [phdrAt, elfMemory, ptLoad, load32]

/-- Only the first program header is there. -/
theorem loadable_elfMemory {b : Byte} {i : Nat} (h : Loadable (elfMemory b) 0x10000 i) :
    i = 0 := by
  have hlt := h.1
  rw [elfHdr_elfMemory] at hlt
  exact Nat.lt_one_iff.mp hlt

/-- Its target is apart from the file. -/
theorem disjoint_elfMemory (b : Byte) :
    Disjoint (span 0x10000 84) (segment (elfMemory b) 0x10000 0).target := by
  have hlen : (segment (elfMemory b) 0x10000 0).memsz.toNat = b.toNat := by
    rw [segment_elfMemory]
    change (0#24 ++ b).toNat = b.toNat
    rw [BitVec.toNat_append, BitVec.toNat_ofNat, Nat.zero_mod, Nat.zero_shiftLeft, Nat.zero_or]
  have haddr : (segment (elfMemory b) 0x10000 0).paddr = 0x100000 := by rw [segment_elfMemory]
  have hstart : (0x100000 : Word).toNat = 0x100000 := rfl
  have hb := b.isLt
  rw [Phdr.target, hlen, haddr]
  apply disjoint_span_of_le
  · decide
  · rw [hstart]
    omega

theorem placed_elfMemory (b : Byte) : Placed 84 (elfMemory b) 0x10000 where
  ehdr := span_mono _ (by decide)
  phdr i hi := by
    have haddr : phdrAddr (elfMemory b) 0x10000 0 = 0x10000 + .ofNat 32 52 := by
      rw [phdrAddr, elfHdr_elfMemory]
      decide
    rw [elfHdr_elfMemory] at hi
    obtain rfl := Nat.lt_one_iff.mp hi
    rw [haddr]
    exact span_add_subset _ (by decide)
  apart i hi := by
    rw [loadable_elfMemory hi]
    exact disjoint_elfMemory b
  pairwise i k hi hk hne := by
    rw [loadable_elfMemory hi, loadable_elfMemory hk] at hne
    exact absurd rfl hne

/-- The segment takes four bytes in memory. -/
theorem loadsElf_elfMemory : LoadsElf 0x10000 (elfMemory 4) := by
  apply (loadsElf_iff fun _ => placed_elfMemory 4).mpr
  intro _ i hi
  rw [loadable_elfMemory hi, segment_elfMemory]
  decide

/-- The segment takes one byte in memory. -/
theorem not_loadsElf_elfMemory :
    (elfHdr (elfMemory 1) 0x10000).ident = elfMagic ∧ Placed 84 (elfMemory 1) 0x10000 ∧
      ¬LoadsElf 0x10000 (elfMemory 1) := by
  have hmagic : (elfHdr (elfMemory 1) 0x10000).ident = elfMagic := by rw [elfHdr_elfMemory]
  refine ⟨hmagic, placed_elfMemory 1, fun h => ?_⟩
  have hload : Loadable (elfMemory 1) 0x10000 0 := by
    rw [Loadable, elfHdr_elfMemory, segment_elfMemory]
    exact ⟨Nat.one_pos, rfl⟩
  have hle := (h.accepted hmagic).filesz_le hmagic (placed_elfMemory 1) hload
  rw [segment_elfMemory] at hle
  exact absurd hle (by decide)

end Boot

end DmfOs
