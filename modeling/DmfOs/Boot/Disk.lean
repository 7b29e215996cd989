import DmfOs.Core.Memory

/-!
# Reading sectors in the boot loader

`read_disk` programs the drive through its ports and copies what the drive delivers. The
registers behind the ports remember two bytes each, of which a command takes 48 bits of
address and 16 bits of count. What the drive does is a parameter.
-/

namespace DmfOs

open Memory

namespace Boot

variable {σ : Type*}

/-! ## The registers of the drive -/

/-- The ports `read_disk` writes to. -/
inductive Port
  /-- `0x1F2`. -/
  | count
  /-- `0x1F3`. -/
  | lbaLow
  /-- `0x1F4`. -/
  | lbaMid
  /-- `0x1F5`. -/
  | lbaHigh
  /-- `0x1F6`. -/
  | device
  /-- `0x1F7`. -/
  | command
  deriving DecidableEq

/-- A register that is two bytes deep. -/
structure Pair where
  /-- The byte before. -/
  previous : Byte
  /-- The byte written last. -/
  latest : Byte

/-- Write a byte. -/
def Pair.push (r : Pair) (v : Byte) : Pair := ⟨r.latest, v⟩

/-- The registers a command is taken from. -/
structure Ata where
  /-- Number of sectors. -/
  count : Pair
  /-- Bits 0 to 7 and 24 to 31 of the address. -/
  lbaLow : Pair
  /-- Bits 8 to 15 and 32 to 39. -/
  lbaMid : Pair
  /-- Bits 16 to 23 and 40 to 47. -/
  lbaHigh : Pair
  /-- The device byte. -/
  device : Byte

/-- A command as the drive takes it. -/
structure Command where
  /-- Its code. -/
  code : Byte
  /-- The device byte. -/
  device : Byte
  /-- The first sector. -/
  lba : BitVec 48
  /-- Number of sectors. -/
  count : Nat
  deriving DecidableEq

attribute [ext] Command

/-- What the registers say. A count of zero stands for 65536. -/
def Ata.decode (r : Ata) (code : Byte) : Command where
  code := code
  device := r.device
  lba := r.lbaHigh.previous ++ r.lbaMid.previous ++ r.lbaLow.previous ++
    r.lbaHigh.latest ++ r.lbaMid.latest ++ r.lbaLow.latest
  count :=
    let n := (r.count.previous ++ r.count.latest).toNat
    if n = 0 then 65536 else n

/-- A drive: what a command starts and what it answers when it is read. -/
structure Drive (σ : Type*) where
  /-- A command arrives. -/
  start : Command → σ → σ
  /-- The status is read from `0x1F7`. -/
  status : σ → Byte × σ
  /-- Data are read from `0x1F0`. -/
  data : σ → BitVec 16 × σ

/-- The state of `read_disk`. -/
structure Host (σ : Type*) where
  /-- The registers. -/
  ata : Ata
  /-- The commands issued, latest first. -/
  issued : List Command
  /-- The state of the drive. -/
  drive : σ
  /-- Memory. -/
  mem : Memory

/-! ## The code -/

/-- Write a byte to a port. -/
def outb (drive : Drive σ) (port : Port) (v : Byte) (s : Host σ) : Host σ :=
  match port with
  | .count => { s with ata := { s.ata with count := s.ata.count.push v } }
  | .lbaLow => { s with ata := { s.ata with lbaLow := s.ata.lbaLow.push v } }
  | .lbaMid => { s with ata := { s.ata with lbaMid := s.ata.lbaMid.push v } }
  | .lbaHigh => { s with ata := { s.ata with lbaHigh := s.ata.lbaHigh.push v } }
  | .device => { s with ata := { s.ata with device := v } }
  | .command =>
    { s with
      issued := s.ata.decode v :: s.issued
      drive := drive.start (s.ata.decode v) s.drive }

/-- `(uint8_t) (v >> k)` of an `int`. -/
def byteAt (v : Word) (k : Nat) : Byte := (v.sshiftRight k).setWidth 8

/-- The part of `read_disk` that programs the drive. -/
def request (drive : Drive σ) (sector sectorCount : Word) (s : Host σ) : Host σ :=
  let s := outb drive .device 0xe0 s
  let s := outb drive .count (byteAt sectorCount 8) s
  let s := outb drive .lbaLow (byteAt sector 24) s
  let s := outb drive .lbaMid 0 s
  let s := outb drive .lbaHigh 0 s
  let s := outb drive .count (byteAt sectorCount 0) s
  let s := outb drive .lbaLow (byteAt sector 0) s
  let s := outb drive .lbaMid (byteAt sector 8) s
  let s := outb drive .lbaHigh (byteAt sector 16) s
  outb drive .command 0x24 s

/-- `while ((inb(0x1F7) & 0x88) != 0x8) {}`; without fuel it is still waiting. -/
def waitReady (drive : Drive σ) : Nat → Host σ → Option (Host σ)
  | 0, _ => none
  | fuel + 1, s =>
    let (status, d) := drive.status s.drive
    let s := { s with drive := d }
    if status &&& 0x88 ≠ 0x8 then waitReady drive fuel s else some s

/-- The loop over the words of a sector, with its pointer. -/
def dataLoop (drive : Drive σ) : Nat → Word → Host σ → Word × Host σ
  | 0, dataBuf, s => (dataBuf, s)
  | n + 1, dataBuf, s =>
    let (w, d) := drive.data s.drive
    dataLoop drive n (dataBuf + 2) { s with drive := d, mem := s.mem.store16 dataBuf w }

/-- Counting down a positive `int`. -/
theorem toInt_sub_one {v : Word} (h : 0 < v.toInt) : (v - 1).toInt = v.toInt - 1 := by
  have hlt := BitVec.toInt_lt (x := v)
  have hone : (1 : Word).toInt = 1 := rfl
  rw [BitVec.toInt_sub, hone]
  apply Int.bmod_eq_of_le <;> omega

/-- The loop over the sectors; `sector_count` is an `int`. -/
def sectorLoop (drive : Drive σ) (fuel : Nat) (sectorCount dataBuf : Word) (s : Host σ) :
    Option (Host σ) :=
  if 0 < sectorCount.toInt then
    (waitReady drive fuel s).bind fun s =>
      let (dataBuf, s) := dataLoop drive (512 / 2) dataBuf s
      sectorLoop drive fuel (sectorCount - 1) dataBuf s
  else some s
termination_by sectorCount.toInt.toNat
decreasing_by
  rw [toInt_sub_one ‹_›]
  omega

def readDisk (drive : Drive σ) (fuel : Nat) (sector sectorCount buf : Word) (s : Host σ) :
    Option (Host σ) :=
  sectorLoop drive fuel sectorCount buf (request drive sector sectorCount s)

/-- `os_init` loads the kernel to `KERNEL_START_ADDR`. -/
def osInit (drive : Drive σ) (fuel : Nat) (s : Host σ) : Option (Host σ) :=
  readDisk drive fuel 100 500 0x100000 s

/-! ## The command -/

variable {drive : Drive σ} {s : Host σ} {sector sectorCount buf : Word}

/-- A byte of a word, whatever its sign. -/
theorem byteAt_eq (v : Word) {w k : Nat} (hk : k ≤ 24) (hw : k + 8 ≤ w) :
    byteAt v k = (v.setWidth w).extractLsb' k 8 := by
  rw [byteAt]
  ext i hi
  have hin : k + i < 32 := by omega
  have hin' : k + i < w := by omega
  simp only [BitVec.getElem_setWidth, BitVec.getLsbD_sshiftRight, BitVec.getElem_extractLsb',
    BitVec.getLsbD_setWidth, show ¬32 ≤ i by omega, hin, hin', decide_false, decide_true,
    Bool.not_false, Bool.true_and, if_true]

/-- There is no byte behind a word. -/
theorem extractLsb'_setWidth_of_le (v : Word) {w k : Nat} (hk : 32 ≤ k) :
    (v.setWidth w).extractLsb' k 8 = 0#8 := by
  ext i hi
  rw [BitVec.getElem_extractLsb', BitVec.getLsbD_setWidth, BitVec.getLsbD_of_ge v _ (by omega),
    Bool.and_false, BitVec.getElem_zero]

/-- The bytes of a sector number, as the drive puts them together. -/
theorem append_byteAt_sector :
    0#8 ++ 0#8 ++ byteAt sector 24 ++ byteAt sector 16 ++ byteAt sector 8 ++ byteAt sector 0 =
      sector.setWidth 48 := by
  generalize hv : sector.setWidth 48 = v
  have hlow (k : Nat) (hk : k ≤ 24) : byteAt sector k = v.extractLsb' k 8 := by
    rw [← hv]
    exact byteAt_eq sector hk (by omega)
  have hhigh (k : Nat) (hk : 32 ≤ k) : v.extractLsb' k 8 = 0#8 := by
    rw [← hv]
    exact extractLsb'_setWidth_of_le sector hk
  calc 0#8 ++ 0#8 ++ byteAt sector 24 ++ byteAt sector 16 ++ byteAt sector 8 ++ byteAt sector 0
      = v.extractLsb' 40 8 ++ v.extractLsb' 32 8 ++ v.extractLsb' 24 8 ++ v.extractLsb' 16 8 ++
          v.extractLsb' 8 8 ++ v.extractLsb' 0 8 := by
        rw [hhigh 40 (by decide), hhigh 32 (by decide), hlow 24 (by decide),
          hlow 16 (by decide), hlow 8 (by decide), hlow 0 (by decide)]
    _ = v := by
        rw [append_byte v (show 40 = 32 + 8 from rfl), append_byte v (show 32 = 24 + 8 from rfl),
          append_byte v (show 24 = 16 + 8 from rfl), append_byte v (show 16 = 8 + 8 from rfl),
          append_byte v (show 8 = 0 + 8 from rfl)]
        exact BitVec.extractLsb'_eq_self

/-- The bytes of a count. -/
theorem append_byteAt_count :
    byteAt sectorCount 8 ++ byteAt sectorCount 0 = sectorCount.setWidth 16 := by
  have hbyte (k : Nat) (hk : k ≤ 8) :
      byteAt sectorCount k = (sectorCount.setWidth 16).extractLsb' k 8 :=
    byteAt_eq sectorCount (by omega) (by omega)
  rw [hbyte 8 (by decide), hbyte 0 (by decide), append_byte _ (show 8 = 0 + 8 from rfl)]
  exact BitVec.extractLsb'_eq_self

/-- The command that the registers say after the outputs. -/
def command (sector sectorCount : Word) : Command where
  code := 0x24
  device := 0xe0
  lba := sector.setWidth 48
  count := sectorCount.toNat

/-- At the command write the registers say the sector and the count. -/
theorem decode_request (hpos : 0 < sectorCount.toNat) (hcount : sectorCount.toNat ≤ 65536) :
    (request drive sector sectorCount s).ata.decode 0x24 = command sector sectorCount := by
  apply Command.ext
  · rfl
  · rfl
  · exact append_byteAt_sector
  · change (if (byteAt sectorCount 8 ++ byteAt sectorCount 0).toNat = 0 then 65536
      else (byteAt sectorCount 8 ++ byteAt sectorCount 0).toNat) = sectorCount.toNat
    rw [append_byteAt_count, BitVec.toNat_setWidth]
    split_ifs <;> omega

/-- With this command the drive starts. -/
theorem request_drive (hpos : 0 < sectorCount.toNat) (hcount : sectorCount.toNat ≤ 65536) :
    (request drive sector sectorCount s).drive =
      drive.start (command sector sectorCount) s.drive := by
  have hdecode : (request drive sector sectorCount s).ata.decode 0x24 = _ :=
    decode_request hpos hcount
  rw [← hdecode]
  rfl

/-! ## The data -/

/-- The drive is busy for a while and then asks for its data to be read. -/
inductive GetsReady (drive : Drive σ) : σ → σ → Prop
  /-- Not busy, data requested. -/
  | now {d : σ} : (drive.status d).1 &&& 0x88 = 0x8 → GetsReady drive d (drive.status d).2
  /-- Any other status. -/
  | later {d e : σ} : (drive.status d).1 &&& 0x88 ≠ 0x8 →
      GetsReady drive (drive.status d).2 e → GetsReady drive d e

/-- The words read from the drive one after the other are the bytes. -/
def Delivers (drive : Drive σ) : List Byte → σ → σ → Prop
  | lo :: hi :: bs, d, e => (drive.data d).1 = hi ++ lo ∧ Delivers drive bs (drive.data d).2 e
  | bs, d, e => bs = [] ∧ d = e

/-- The bytes of a sector. -/
abbrev Sector := { bytes : List Byte // bytes.length = 512 }

/-- The drive supplies the sectors one after the other. -/
inductive Supplies (drive : Drive σ) : List Sector → σ → Prop
  /-- No sector is left. -/
  | nil {d : σ} : Supplies drive [] d
  /-- One sector and then the others. -/
  | cons {b : Sector} {bs : List Sector} {d d' e : σ} : GetsReady drive d d' →
      Delivers drive b.1 d' e → Supplies drive bs e → Supplies drive (b :: bs) d

theorem Supplies.of_cons {b : Sector} {bs : List Sector} {d : σ}
    (h : Supplies drive (b :: bs) d) :
    ∃ d' e, GetsReady drive d d' ∧ Delivers drive b.1 d' e ∧ Supplies drive bs e := by
  cases h with
  | cons hready hdelivers hrest => exact ⟨_, _, hready, hdelivers, hrest⟩

/-- The bytes of sectors one after the other. -/
def contents (bs : List Sector) : List Byte := bs.flatMap Subtype.val

@[simp] theorem length_contents (bs : List Sector) : (contents bs).length = 512 * bs.length := by
  induction bs with
  | nil => rfl
  | cons b bs ih =>
    rw [contents, List.flatMap_cons, List.length_append, b.2, List.length_cons]
    rw [contents] at ih
    omega

/-- One look at the status. -/
theorem waitReady_succ (fuel : Nat) : waitReady drive (fuel + 1) s =
    if (drive.status s.drive).1 &&& 0x88 ≠ 0x8 then
      waitReady drive fuel { s with drive := (drive.status s.drive).2 }
    else some { s with drive := (drive.status s.drive).2 } := rfl

/-- With enough fuel the waiting loop ends. -/
theorem GetsReady.waitReady {d e : σ} (h : GetsReady drive d e) :
    ∃ k, ∀ fuel ≥ k, ∀ s : Host σ, s.drive = d →
      waitReady drive fuel s = some { s with drive := e } := by
  induction h with
  | now hready =>
    refine ⟨1, fun fuel hfuel s hs => ?_⟩
    obtain ⟨fuel, rfl⟩ := Nat.exists_eq_add_of_le' hfuel
    subst hs
    rw [waitReady_succ, if_neg (not_not_intro hready)]
  | later hbusy _ ih =>
    obtain ⟨k, hk⟩ := ih
    refine ⟨k + 1, fun fuel hfuel s hs => ?_⟩
    obtain ⟨fuel, rfl⟩ := Nat.exists_eq_add_of_le' (Nat.le_of_add_left_le hfuel)
    subst hs
    rw [waitReady_succ, if_pos hbusy, hk fuel (by omega) _ rfl]

/-- One word. -/
theorem dataLoop_succ (n : Nat) (p : Word) : dataLoop drive (n + 1) p s =
    dataLoop drive n (p + 2) { s with
      drive := (drive.data s.drive).2
      mem := s.mem.store16 p (drive.data s.drive).1 } := rfl

/-- The inner loop stores the bytes that the drive delivers. -/
theorem Delivers.dataLoop {bs : List Byte} {e : σ} {n : Nat} {p : Word}
    (h : Delivers drive bs s.drive e) (hlen : bs.length = 2 * n) :
    dataLoop drive n p s =
      (p + .ofNat 32 (2 * n), { s with drive := e, mem := s.mem.storeBytes p bs }) := by
  induction n generalizing bs s p with
  | zero =>
    obtain rfl := List.length_eq_zero_iff.mp hlen
    obtain ⟨-, rfl⟩ := h
    rw [Nat.mul_zero, BitVec.add_zero]
    rfl
  | succ n ih =>
    match bs, h with
    | lo :: hi :: bs, h =>
      obtain ⟨hword, hrest⟩ := h
      have hlen' : bs.length = 2 * n := by
        simp only [List.length_cons] at hlen
        omega
      have hnext : p + 2 + .ofNat 32 (2 * n) = p + .ofNat 32 (2 * (n + 1)) := by bv_omega
      have htwo : p + 1 + 1 = p + 2 := by bv_omega
      rw [dataLoop_succ, hword, store16_append, storeBytes, storeBytes, htwo, ← hnext]
      exact ih hrest hlen'
    | [_], h => simp at hlen; omega
    | [], h => simp at hlen

/-- The outer loop stores one sector after the other. -/
theorem Supplies.sectorLoop {bs : List Sector} {p : Word} (h : Supplies drive bs s.drive)
    (hlen : (bs.length : Int) = sectorCount.toInt) :
    ∃ k e, ∀ fuel ≥ k, sectorLoop drive fuel sectorCount p s =
      some { s with drive := e, mem := s.mem.storeBytes p (contents bs) } := by
  induction bs generalizing s p sectorCount with
  | nil =>
    refine ⟨0, s.drive, fun fuel _ => ?_⟩
    unfold Boot.sectorLoop
    rw [if_neg (by rw [← hlen]; decide)]
    rfl
  | cons b bs ih =>
    obtain ⟨d, e, hready, hdelivers, hrest⟩ := h.of_cons
    have hpos : 0 < sectorCount.toInt := by
      rw [List.length_cons] at hlen
      omega
    have hlen' : (bs.length : Int) = (sectorCount - 1).toInt := by
      rw [toInt_sub_one hpos, ← hlen, List.length_cons]
      omega
    obtain ⟨k, hk⟩ := hready.waitReady
    obtain ⟨k', e', hk'⟩ := ih (s := { s with drive := e, mem := s.mem.storeBytes p b.1 })
      (p := p + .ofNat 32 512) hrest hlen'
    refine ⟨max k k', e', fun fuel hfuel => ?_⟩
    have hdata := hdelivers.dataLoop (s := { s with drive := d }) (n := 512 / 2) (p := p)
      (b.2.trans (by decide))
    have hbytes : s.mem.storeBytes p (contents (b :: bs)) =
        (s.mem.storeBytes p b.1).storeBytes (p + .ofNat 32 512) (contents bs) := by
      rw [contents, List.flatMap_cons, storeBytes_append, b.2]
      rfl
    unfold Boot.sectorLoop
    rw [if_pos hpos, hk fuel (le_of_max_le_left hfuel) s rfl, Option.bind_some, hdata, hbytes]
    exact hk' fuel (le_of_max_le_right hfuel)

/-! ## The whole function -/

/-- When the drive supplies as many sectors as asked for, they are stored from `buf` on. -/
theorem Supplies.readDisk {bs : List Sector}
    (h : Supplies drive bs (request drive sector sectorCount s).drive)
    (hlen : (bs.length : Int) = sectorCount.toInt) :
    ∃ k t, (∀ fuel ≥ k, readDisk drive fuel sector sectorCount buf s = some t) ∧
      t.issued = (request drive sector sectorCount s).issued ∧
      t.mem = s.mem.storeBytes buf (contents bs) := by
  obtain ⟨k, e, hk⟩ := h.sectorLoop (p := buf) hlen
  exact ⟨k, _, hk, rfl, rfl⟩

/-! ## A drive with an image -/

/-- What is left of the sectors asked for. -/
structure Reader where
  /-- The next sector is not there yet. -/
  busy : Bool
  /-- The bytes to deliver. -/
  pending : List Byte

/-- A drive that reads from an image and is busy before every sector. -/
def imageDrive (image : Nat → Sector) : Drive Reader where
  start c _ := ⟨true, contents ((List.range c.count).map fun i => image (c.lba.toNat + i))⟩
  status d := (if d.busy then 0x80 else 0x48, { d with busy := false })
  data d :=
    match d.pending with
    | lo :: hi :: bs => (hi ++ lo, ⟨bs.length % 512 = 0, bs⟩)
    | _ => (0, d)

theorem imageDrive_getsReady (image : Nat → Sector) (busy : Bool) (bs : List Byte) :
    GetsReady (imageDrive image) ⟨busy, bs⟩ ⟨false, bs⟩ := by
  have hready : GetsReady (imageDrive image) ⟨false, bs⟩ ⟨false, bs⟩ :=
    .now (show (0x48 : Byte) &&& 0x88 = 0x8 by decide)
  cases busy with
  | false => exact hready
  | true => exact .later (show (0x80 : Byte) &&& 0x88 ≠ 0x8 by decide) hready

theorem imageDrive_delivers (image : Nat → Sector) (n : Nat) (busy : Bool) {bs : List Byte}
    (hlen : bs.length = 2 * n) (cs : List Byte) :
    ∃ busy', Delivers (imageDrive image) bs ⟨busy, bs ++ cs⟩ ⟨busy', cs⟩ := by
  induction n generalizing busy bs with
  | zero =>
    obtain rfl := List.length_eq_zero_iff.mp hlen
    exact ⟨busy, rfl, rfl⟩
  | succ n ih =>
    match bs, hlen with
    | lo :: hi :: bs, hlen =>
      have hlen' : bs.length = 2 * n := by
        simp only [List.length_cons] at hlen
        omega
      obtain ⟨busy', h⟩ := ih _ hlen'
      exact ⟨busy', rfl, h⟩
    | [_], hlen => simp at hlen; omega
    | [], hlen => simp at hlen

/-- It supplies the sectors it was asked for. -/
theorem imageDrive_supplies (image : Nat → Sector) (busy : Bool) (bs : List Sector) :
    Supplies (imageDrive image) bs ⟨busy, contents bs⟩ := by
  induction bs generalizing busy with
  | nil => exact .nil
  | cons b bs ih =>
    obtain ⟨busy', h⟩ := imageDrive_delivers image 256 false b.2 (contents bs)
    exact .cons (imageDrive_getsReady image busy _) h (ih busy')

/-- A command for `n` sectors starts with those from its address on. -/
theorem imageDrive_start (image : Nat → Sector) {c : Command} {first n : Nat} (d : Reader)
    (hfirst : c.lba.toNat = first) (hn : c.count = n) :
    Supplies (imageDrive image) ((List.range n).map fun i => image (first + i))
      ((imageDrive image).start c d) := by
  subst hfirst hn
  exact imageDrive_supplies image true _

/-- `os_init` loads 500 sectors of the image to where the kernel starts. -/
theorem osInit_loads (image : Nat → Sector) (s : Host Reader) :
    ∃ k t, (∀ fuel ≥ k, osInit (imageDrive image) fuel s = some t) ∧
      t.mem = s.mem.storeBytes 0x100000
        (contents ((List.range 500).map fun i => image (100 + i))) := by
  have hsupplies : Supplies (imageDrive image) ((List.range 500).map fun i => image (100 + i))
      (request (imageDrive image) 100 500 s).drive := by
    rw [request_drive (by decide) (by decide)]
    exact imageDrive_start image s.drive rfl rfl
  have hlen : (((List.range 500).map fun i => image (100 + i)).length : Int) =
      (500 : Word).toInt := by
    rw [List.length_map, List.length_range, BitVec.toInt_eq_toNat_of_lt (by decide)]
    rfl
  obtain ⟨k, t, hrun, -, hmem⟩ := hsupplies.readDisk hlen
  exact ⟨k, t, hrun, hmem⟩

/-! ## Every request -/

/-- `read_disk` asks for the sectors and stores them. -/
structure ReadsDisk (drive : Drive σ) (sector sectorCount buf : Word) (s : Host σ) : Prop where
  /-- One command is issued, for the sectors. -/
  issued : ∃ c, (request drive sector sectorCount s).issued = c :: s.issued ∧
    (c.lba.toNat : Int) = sector.toInt ∧ (c.count : Int) = sectorCount.toInt
  /-- When the drive supplies as many sectors, they are stored from `buf` on. -/
  stored : ∀ bs : List Sector, (bs.length : Int) = sectorCount.toInt →
    Supplies drive bs (request drive sector sectorCount s).drive →
    ∃ k t, (∀ fuel ≥ k, readDisk drive fuel sector sectorCount buf s = some t) ∧
      t.issued = (request drive sector sectorCount s).issued ∧
      t.mem = s.mem.storeBytes buf (contents bs) ∧
      t.mem.slice buf (512 * bs.length) = contents bs ∧
      WritesIn (span buf (512 * bs.length)) s.mem t.mem

/-- An `int` from zero on is the natural number. -/
theorem toNat_eq_toInt {v : Word} (h : 0 ≤ v.toInt) : (v.toNat : Int) = v.toInt := by
  rw [BitVec.toInt_eq_toNat_cond] at h ⊢
  split_ifs at h ⊢ <;> omega

/-- Every sector that is an `int` can be asked for, and every number of sectors that the drive
can be given. -/
theorem readDisk_reads (hsector : 0 ≤ sector.toInt) (hpos : 1 ≤ sectorCount.toInt)
    (hcount : sectorCount.toInt ≤ 65536) : ReadsDisk drive sector sectorCount buf s where
  issued := by
    have hnat := toNat_eq_toInt (hpos.trans' (by decide))
    have hlba : ((command sector sectorCount).lba.toNat : Int) = sector.toInt := by
      have hlt := sector.isLt
      rw [command, BitVec.toNat_setWidth, Nat.mod_eq_of_lt (by omega), toNat_eq_toInt hsector]
    refine ⟨command sector sectorCount, ?_, hlba, hnat⟩
    have hdecode : (request drive sector sectorCount s).ata.decode 0x24 = _ :=
      decode_request (by omega) (by omega)
    rw [← hdecode]
    rfl
  stored bs hlen hsupplies := by
    have hlength : (contents bs).length = 512 * bs.length := length_contents bs
    obtain ⟨k, t, hrun, hissued, hmem⟩ := Supplies.readDisk hsupplies hlen
    refine ⟨k, t, hrun, hissued, hmem, ?_, ?_⟩
    · rw [hmem, ← hlength]
      exact slice_storeBytes s.mem buf (by omega)
    · rw [hmem, ← hlength]
      exact writesIn_storeBytes s.mem buf _

/-- Every byte of the image is zero. -/
def blankImage : Nat → Sector := fun _ => ⟨List.replicate 512 0, List.length_replicate⟩

/-- The machine before `os_init`. -/
def booted : Host Reader where
  ata := ⟨⟨0, 0⟩, ⟨0, 0⟩, ⟨0, 0⟩, ⟨0, 0⟩, 0⟩
  issued := []
  drive := ⟨false, []⟩
  mem := ⟨fun _ => 0, []⟩

/-- The call of `os_init`. -/
theorem readDisk_reads_osInit : ReadsDisk (imageDrive blankImage) 100 500 0x100000 booted :=
  readDisk_reads (by decide) (by decide) (by decide)

end Boot

end DmfOs
