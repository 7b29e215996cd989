import DmfOs.Io.Screen

/-!
# The cells of the screen

What `do_syscall` leaves in the cells of the row on which it draws: a character in the low
byte and the colour in the high byte. The sign of a character from 128 on goes over the
colour.
-/

namespace DmfOs

open Memory

namespace Screen

variable {s : Screen} {a : SyscallArgs} {m : Memory} {dest : Word} {cs : List Byte}

/-! ## Cells as half words -/

/-- A character with a sign sets all bits of the colour. -/
theorem cell_eq (c color : Byte) : cell c color = (if c.msb then 0xff else color) ++ c := by
  have hones : (0xff : Byte) = BitVec.allOnes 8 := rfl
  refine BitVec.eq_of_getLsbD_eq fun i hi => ?_
  simp only [cell, BitVec.getLsbD_setWidth, BitVec.getLsbD_or, BitVec.getLsbD_shiftLeft,
    BitVec.getLsbD_signExtend, BitVec.getLsbD_append, hi, decide_true, Bool.true_and]
  by_cases hlow : i < 8
  · have hwide : i < 32 := by omega
    simp [hlow, hwide]
  · have hhigh : i - 8 < 8 := by omega
    have hwide : i < 32 ∧ i - 8 < 32 := by omega
    cases hc : c.msb with
    | true =>
      rw [if_pos rfl, hones, BitVec.getLsbD_allOnes]
      simp [hlow, hhigh, hwide]
    | false => simp [hlow, hhigh, hwide]

/-- The cell holds the character and its colour unless the sign changes the colour. -/
theorem cell_eq_append_iff (c color : Byte) :
    cell c color = color ++ c ↔ color = 0xff ∨ c.msb = false := by
  rw [cell_eq]
  cases c.msb with
  | true =>
    rw [if_pos rfl, or_iff_left Bool.noConfusion]
    refine ⟨fun h => ?_, fun h => by rw [h]⟩
    have hhigh := congrArg (BitVec.extractLsb' 8 8) h
    rw [BitVec.extractLsb'_append_eq_left, BitVec.extractLsb'_append_eq_left] at hhigh
    exact hhigh.symm
  | false => simp

/-- A blank cell. -/
def blank : BitVec 16 := (0x02 : Byte) ++ chr ' '

/-! ## What the loops leave -/

/-- A cell and the cells after it do not overlap. -/
theorem disjoint_cells {n : Nat} (h : n + 2 ≤ 2 ^ 32) :
    Disjoint (span dest 2) (span (dest + 2) n) := by
  rw [Set.disjoint_left]
  intro x hx hy
  rw [mem_span] at hx hy
  bv_omega

/-- Drawing writes the cells of the string. -/
theorem drawLoop_writesIn_span (color : Byte) (cs : List Byte) (dest : Word) (m : Memory) :
    WritesIn (span dest (2 * cs.length)) m (drawLoop color cs dest m) := by
  induction cs generalizing dest m with
  | nil => exact .refl _ _
  | cons c cs ih => exact (ih (dest + 2) _).of_store16

/-- Drawing leaves every character in its cell. -/
theorem drawLoop_load16 (color : Byte) (hlen : 2 * cs.length ≤ 2 ^ 32) (m : Memory) (i : Nat)
    (hi : i < cs.length) :
    (drawLoop color cs dest m).load16 (dest + 2 * .ofNat 32 i) = cell cs[i] color := by
  induction cs generalizing dest m i with
  | nil => exact absurd hi (Nat.not_lt_zero i)
  | cons c cs ih =>
    rw [List.length_cons] at hlen hi
    rw [drawLoop]
    cases i with
    | zero =>
      have haddr : dest + 2 * .ofNat 32 0 = dest := by bv_omega
      have hrest := drawLoop_writesIn_span color cs (dest + 2) (m.store16 dest (cell c color))
      rw [haddr, hrest.load16_eq (disjoint_cells (by omega)), load16_store16_self]
      rfl
    | succ i =>
      have haddr : dest + 2 * .ofNat 32 (i + 1) = dest + 2 + 2 * .ofNat 32 i := by bv_omega
      rw [haddr, ih (by omega) _ i (by omega)]
      rfl

/-- Clearing is drawing spaces. -/
theorem clearLoop_eq_drawLoop (k : Nat) (i : Word) (m : Memory) :
    clearLoop k i m = drawLoop 0x02 (List.replicate k (chr ' ')) (videoBase + 2 * i) m := by
  induction k generalizing i m with
  | zero => rfl
  | succ k ih =>
    have hnext : videoBase + 2 * (i + 1) = videoBase + 2 * i + 2 := by bv_omega
    rw [clearLoop, ih, hnext]
    rfl

/-- After the first call has cleared the screen, its cells are blank. -/
theorem clear_load16 {i : Nat} (hi : i < 80) :
    s.clear.mem.load16 (videoBase + 2 * (80 * .ofNat 32 s.startRow) + 2 * .ofNat 32 i) =
      if s.cleared then
        s.mem.load16 (videoBase + 2 * (80 * .ofNat 32 s.startRow) + 2 * .ofNat 32 i)
      else blank := by
  cases hc : s.cleared with
  | true => simp [clear, hc]
  | false =>
    have hrow : s.startRow = 0 := by simp [startRow, hc]
    have haddr : videoBase + 2 * (80 * .ofNat 32 0) = videoBase := by decide
    have hmem : s.clear.mem = drawLoop 0x02 (List.replicate 2000 (chr ' ')) videoBase s.mem := by
      have hstart : videoBase + 2 * 0 = videoBase := by decide
      have hnot : (!false) = true := rfl
      rw [clear, hc, if_pos hnot, clearLoop_eq_drawLoop, hstart]
    rw [hrow, haddr, hmem, drawLoop_load16 _ (by rw [List.length_replicate]; omega) _ _
      (by rw [List.length_replicate]; omega), List.getElem_replicate, cell_eq]
    rfl

/-! ## What a call shows -/

/-- A cell of the row on which a call draws. -/
def rowCell (s : Screen) (i : Nat) : Word :=
  videoBase + 2 * (80 * .ofNat 32 s.startRow) + 2 * .ofNat 32 i

/-- The row of a call shows the string in its colour, and its other cells are what they
were, or blank after the first call has cleared them. -/
structure Shows (s : Screen) (a : SyscallArgs) : Prop where
  string : ∀ i (h : i < a.str.bytes.length),
    (s.doSyscall a).mem.load16 (s.rowCell i) = a.color ++ a.str.bytes[i]
  rest : ∀ i < 80, a.str.bytes.length ≤ i →
    (s.doSyscall a).mem.load16 (s.rowCell i) =
      if s.cleared then s.mem.load16 (s.rowCell i) else blank

/-- The cells behind the string are not drawn. -/
theorem doSyscall_load16_rest (hf : a.func = 2) {i : Nat} (hi : i < 80)
    (hlen : a.str.bytes.length ≤ i) :
    (s.doSyscall a).mem.load16 (s.rowCell i) =
      if s.cleared then s.mem.load16 (s.rowCell i) else blank := by
  have hapart (dest : Word) : Disjoint (span (dest + 2 * .ofNat 32 i) 2)
      (span dest (2 * a.str.bytes.length)) := by
    rw [Set.disjoint_left]
    intro x hx hy
    rw [mem_span] at hx hy
    bv_omega
  have hdraw := drawLoop_writesIn_span a.color a.str.bytes
    (videoBase + 2 * (80 * .ofNat 32 s.startRow)) s.clear.mem
  rw [doSyscall_mem hf, rowCell, hdraw.load16_eq (hapart _)]
  exact clear_load16 hi

/-- A string that fits on a row is shown in its colour exactly when the colour has all bits
or no character is signed. -/
theorem shows_iff (hf : a.func = 2) (hfit : a.str.bytes.length ≤ 80) :
    Shows s a ↔ a.color = 0xff ∨ ∀ c ∈ a.str.bytes, c.msb = false := by
  have hcell (i : Nat) (h : i < a.str.bytes.length) :
      (s.doSyscall a).mem.load16 (s.rowCell i) = cell a.str.bytes[i] a.color := by
    rw [doSyscall_mem hf]
    exact drawLoop_load16 a.color (by omega) s.clear.mem i h
  constructor
  · intro hshow
    refine or_iff_not_imp_left.mpr fun hcolor c hc => ?_
    obtain ⟨i, hi, rfl⟩ := List.getElem_of_mem hc
    have heq := hshow.string i hi
    rw [hcell i hi, cell_eq_append_iff] at heq
    exact heq.resolve_left hcolor
  · intro h
    refine ⟨fun i hi => ?_, fun i hi hlen => doSyscall_load16_rest hf hi hlen⟩
    rw [hcell i hi, cell_eq_append_iff]
    exact h.imp_right fun hall => hall _ (List.getElem_mem hi)

/-- An empty memory under a screen that was not drawn on. -/
def unused : Screen := initial ⟨fun _ => 0, []⟩

/-- An ASCII letter is shown. -/
theorem shows_drawX :
    Shows unused drawX ↔ drawX.color = 0xff ∨ ∀ c ∈ drawX.str.bytes, c.msb = false :=
  shows_iff rfl (by decide)

/-- The byte 0x80 is shown in the colour 0xff instead of 0x02. -/
theorem not_shows_signed :
    ¬Shows unused ⟨2, ⟨[0x80], by decide⟩, 0x02⟩ := by
  intro h
  have hcell := h.string 0 (by decide)
  have hlen : 2 * [(0x80 : Byte)].length ≤ 2 ^ 32 := by decide
  have hdrawn : (drawLoop 0x02 [0x80] (videoBase + 2 * (80 * .ofNat 32 unused.startRow))
      unused.clear.mem).load16 (unused.rowCell 0) = cell 0x80 0x02 :=
    drawLoop_load16 0x02 hlen unused.clear.mem 0 (by decide)
  rw [doSyscall_mem rfl] at hcell
  exact absurd (hdrawn.symm.trans hcell) (by decide)

end Screen

end DmfOs
