import DmfOs.Lib.Str
import DmfOs.Core.Run

/-!
# The text screen

`do_syscall` of `syscall.c` draws a string on the current row and moves on to the
next one. The row wraps after 25 instead of after 24, and a string may be longer than
the cells from its row to the end of the screen.
-/

namespace DmfOs

open Memory

/-- The text buffer. -/
def videoBase : Word := 0xb8000

/-- The bytes of its 80 by 25 cells. -/
def videoSpan : Set Word := span videoBase 4000

/-- The static variables of `do_syscall`, and the memory. -/
structure Screen where
  row : Nat
  cleared : Bool
  mem : Memory

/-- The arguments of a system call. -/
structure SyscallArgs where
  func : Word
  str : CStr
  color : Byte

namespace Screen

/-- The screen before the first call. -/
def initial (m : Memory) : Screen := ⟨0, false, m⟩

/-- The loop that clears the screen from cell `i` on, with the number of cells left. -/
def clearLoop : Nat → Word → Memory → Memory
  | 0, _, m => m
  | k + 1, i, m => clearLoop k (i + 1)
      (m.store16 (videoBase + 2 * i) ((chr ' ').setWidth 16 ||| (0x02 <<< 8)))

/-- A character with its colour; both are signed in the source. -/
def cell (c color : Byte) : BitVec 16 :=
  (c.signExtend 32 ||| (color.signExtend 32 <<< 8)).setWidth 16

/-- The loop that draws the rest of a string at `dest`. -/
def drawLoop (color : Byte) : List Byte → Word → Memory → Memory
  | [], _, m => m
  | c :: cs, dest, m => drawLoop color cs (dest + 2) (m.store16 dest (cell c color))

/-- The first call clears the screen. -/
def clear (s : Screen) : Screen :=
  if !s.cleared then ⟨0, true, clearLoop (80 * 25) 0 s.mem⟩ else s

/-- `do_syscall`. -/
def doSyscall (s : Screen) (a : SyscallArgs) : Screen :=
  if a.func = 2 then
    let s := s.clear
    let dest := videoBase + 2 * (80 * .ofNat 32 s.row)
    let s := { s with mem := drawLoop a.color a.str.bytes dest s.mem }
    { s with row := if s.row ≥ 25 then 0 else s.row + 1 }
  else s

/-- One call of a run. -/
def Calls (s : Screen) (a : SyscallArgs) (s' : Screen) : Prop := s' = s.doSyscall a

/-- The row on which a call draws. -/
def startRow (s : Screen) : Nat := if s.cleared then s.row else 0

/-- Every cell that a call writes is on the screen, and it starts to draw on one of the
rows of the screen. -/
structure StaysOn (s : Screen) (a : SyscallArgs) : Prop where
  cells : WritesIn videoSpan s.mem (s.doSyscall a).mem
  row : a.func = 2 → a.str.bytes ≠ [] → s.startRow ≤ 24

/-- What a call draws fits on the screen from its row on. -/
def Fits (s : Screen) (a : SyscallArgs) : Prop :=
  a.func = 2 → a.str.bytes ≠ [] → 80 * s.startRow + a.str.bytes.length ≤ 80 * 25

variable {s : Screen} {a : SyscallArgs} {m : Memory} {dest : Word}

/-! ## Where the loops write -/

/-- The addresses of the buffer. -/
theorem mem_videoSpan {x : Word} : x ∈ videoSpan ↔ 753664 ≤ x.toNat ∧ x.toNat < 757664 :=
  mem_span_iff (by decide)

/-- A cell inside the buffer. -/
theorem span_cell_subset (hlo : 753664 ≤ dest.toNat) (hhi : dest.toNat + 2 ≤ 757664) :
    span dest 2 ⊆ videoSpan := by
  have hwrap : dest.toNat + 2 ≤ 2 ^ 32 := by omega
  intro x hx
  rw [mem_span_iff hwrap] at hx
  rw [mem_videoSpan]
  omega

theorem clearLoop_writesIn {k : Nat} {i : Word} (hk : i.toNat + k ≤ 2000) (m : Memory) :
    WritesIn videoSpan m (clearLoop k i m) := by
  induction k generalizing i m with
  | zero => exact .refl _ _
  | succ k ih =>
    have hcell : (videoBase + 2 * i).toNat = 753664 + 2 * i.toNat := by
      rw [videoBase]
      bv_omega
    have hnext : (i + 1).toNat + k ≤ 2000 := by bv_omega
    exact ((writesIn_store16 m _ _).mono (span_cell_subset (by omega) (by omega))).trans
      (ih hnext _)

theorem clear_writesIn (s : Screen) : WritesIn videoSpan s.mem s.clear.mem := by
  rw [clear]
  split_ifs
  · have hk : (0 : Word).toNat + 80 * 25 ≤ 2000 := by decide
    have hclear := clearLoop_writesIn hk s.mem
    generalize clearLoop (80 * 25) 0 s.mem = m at hclear ⊢
    exact hclear
  · exact .refl _ _

theorem clear_row (s : Screen) : s.clear.row = s.startRow := by
  cases hc : s.cleared <;> simp [clear, startRow, hc]

/-- A string that ends inside the buffer is drawn inside the buffer. -/
theorem drawLoop_writesIn (color : Byte) {cs : List Byte} (hlo : 753664 ≤ dest.toNat)
    (hhi : dest.toNat + 2 * cs.length ≤ 757664) (m : Memory) :
    WritesIn videoSpan m (drawLoop color cs dest m) := by
  induction cs generalizing dest m with
  | nil => exact .refl _ _
  | cons c cs ih =>
    rw [List.length_cons] at hhi
    have hnext : (dest + 2).toNat = dest.toNat + 2 := by bv_omega
    exact ((writesIn_store16 m _ _).mono (span_cell_subset hlo (by omega))).trans
      (ih (by omega) (by omega) _)

/-- Every character is stored in its cell. -/
theorem drawLoop_stores (color : Byte) (cs : List Byte) (dest : Word) (m : Memory) :
    ∃ new, (drawLoop color cs dest m).stores = new ++ m.stores ∧
      ∀ i < cs.length, dest + 2 * .ofNat 32 i ∈ new := by
  induction cs generalizing dest m with
  | nil => exact ⟨[], rfl, by simp⟩
  | cons c cs ih =>
    obtain ⟨new, hnew, hmem⟩ := ih (dest + 2) (m.store16 dest (cell c color))
    refine ⟨new ++ [dest + 1, dest], ?_, fun i hi => ?_⟩
    · rw [drawLoop, hnew, List.append_assoc]
      rfl
    · cases i with
      | zero => simp
      | succ i =>
        have hcell := hmem i (by simpa using hi)
        have heq : dest + 2 * .ofNat 32 (i + 1) = dest + 2 + 2 * .ofNat 32 i := by bv_omega
        rw [heq]
        exact List.mem_append_left _ hcell

/-- Stores between memories that differ by stores into `S` are stores into `S`. -/
theorem mem_of_writesIn {S : Set Word} {m₁ m₂ m₃ : Memory} {new : List Word}
    (h : WritesIn S m₁ m₃) (h₁ : WritesIn S m₁ m₂) (h₂ : m₃.stores = new ++ m₂.stores) :
    ∀ x ∈ new, x ∈ S := by
  obtain ⟨all, hall, hin⟩ := h.trace
  obtain ⟨first, hfirst, _⟩ := h₁.trace
  rw [hfirst, ← List.append_assoc] at h₂
  have heq : all = new ++ first := List.append_cancel_right (hall.symm.trans h₂)
  intro x hx
  exact hin x (by rw [heq]; exact List.mem_append_left _ hx)

/-! ## The bound over runs -/

/-- What a call with function 2 does to the memory. -/
theorem doSyscall_mem (hf : a.func = 2) :
    (s.doSyscall a).mem = drawLoop a.color a.str.bytes
      (videoBase + 2 * (80 * .ofNat 32 s.startRow)) s.clear.mem := by
  rw [← clear_row, doSyscall, if_pos hf]

theorem toNat_rowBase (h : s.startRow ≤ 25) :
    (videoBase + 2 * (80 * .ofNat 32 s.startRow)).toNat = 753664 + 160 * s.startRow := by
  rw [videoBase]
  bv_omega

/-- A call on one of the rows 0 to 25 stays on the screen exactly when its string fits. -/
theorem staysOn_iff (hrow : s.startRow ≤ 25) : StaysOn s a ↔ Fits s a := by
  have hbase := toNat_rowBase hrow
  constructor
  · intro h hf hne
    have hlen : 0 < a.str.bytes.length := List.length_pos_iff.mpr hne
    by_contra hover
    -- the first cell behind the screen is written
    obtain ⟨new, hnew, hcells⟩ := drawLoop_stores a.color a.str.bytes
      (videoBase + 2 * (80 * .ofNat 32 s.startRow)) s.clear.mem
    have hin := mem_of_writesIn h.cells (clear_writesIn s)
      ((congrArg Memory.stores (doSyscall_mem hf)).trans hnew) _
      (hcells (2000 - 80 * s.startRow) (by omega))
    rw [mem_videoSpan] at hin
    generalize videoBase + 2 * (80 * .ofNat 32 s.startRow) = dest at hbase hin
    bv_omega
  · intro h
    refine ⟨?_, fun hf hne => ?_⟩
    · by_cases hf : a.func = 2
      · rw [doSyscall_mem hf]
        refine (clear_writesIn s).trans ?_
        by_cases hne : a.str.bytes = []
        · rw [hne]
          exact .refl _ _
        · have hfits := h hf hne
          exact drawLoop_writesIn a.color (by omega) (by omega) _
      · rw [doSyscall, if_neg hf]
        exact .refl _ _
    · have hfits := h hf hne
      have hlen : 0 < a.str.bytes.length := List.length_pos_iff.mpr hne
      omega

/-- The row never passes 25. -/
theorem doSyscall_row_le (h : s.row ≤ 25) (a : SyscallArgs) : (s.doSyscall a).row ≤ 25 := by
  rw [doSyscall]
  split_ifs
  · change (if s.clear.row ≥ 25 then 0 else s.clear.row + 1) ≤ 25
    split_ifs <;> omega
  · exact h

theorem startRow_le (h : s.row ≤ 25) : s.startRow ≤ 25 := by
  rw [startRow]
  split_ifs
  · exact h
  · exact Nat.zero_le _

/-- Over every sequence of calls, all cells written are on the screen and every call
draws from one of its rows on, if and only if every string fits from its row on. -/
theorem along_staysOn_iff (m : Memory) (as : List SyscallArgs) :
    Along Calls StaysOn (initial m) as ↔ Along Calls Fits (initial m) as := by
  refine along_iff (fun s => s.row ≤ 25) (Nat.zero_le _)
    (fun s a hs => staysOn_iff (startRow_le hs)) ?_
  rintro s a _ hs _ rfl
  exact doSyscall_row_le hs a

/-- A call moves on to the next row, up to row 25. -/
theorem startRow_doSyscall (hf : a.func = 2) (h : s.startRow < 25) :
    (s.doSyscall a).startRow = s.startRow + 1 := by
  have hcleared : (s.doSyscall a).cleared = true := by
    rw [doSyscall, if_pos hf, clear]
    cases hc : s.cleared <;> simp [hc]
  have hrow : (s.doSyscall a).row = s.startRow + 1 := by
    rw [← clear_row] at h ⊢
    rw [doSyscall, if_pos hf]
    exact if_neg (Nat.not_le_of_lt h)
  rw [startRow, if_pos hcleared, hrow]

/-- Calls take the rows one after the other. -/
theorem reach_rows (hf : a.func = 2) {k : Nat} (h : s.startRow + k ≤ 25) :
    ∃ t, Reach Calls s (List.replicate k a) t ∧ t.startRow = s.startRow + k := by
  induction k generalizing s with
  | zero => exact ⟨s, .nil, rfl⟩
  | succ k ih =>
    have hnext := startRow_doSyscall (s := s) hf (by omega)
    obtain ⟨t, hreach, hrow⟩ := ih (s := s.doSyscall a) (by omega)
    exact ⟨t, .cons rfl hreach, by omega⟩

/-- A call that draws the single character x. -/
def drawX : SyscallArgs := ⟨2, ⟨[chr 'x'], by decide⟩, 0x02⟩

/-- The 26th line is drawn behind the screen. -/
theorem not_along_staysOn_wrap :
    ¬ Along Calls StaysOn (initial ⟨fun _ => 0, []⟩) (List.replicate 25 drawX ++ [drawX]) := by
  intro h
  obtain ⟨t, hreach, hrow⟩ := reach_rows (s := initial ⟨fun _ => 0, []⟩) (a := drawX) rfl
    (k := 25) (by decide)
  obtain ⟨hlast, _⟩ := (along_append.mp h).2 t hreach
  have hle := hlast.row rfl (by decide)
  rw [hrow] at hle
  exact absurd hle (by decide)

end Screen

end DmfOs
