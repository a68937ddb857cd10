import ExploreF407.Lcd.Places

/-! # The places in a cell

In a cell the characters are 8 wide and 16 high and stand 10 apart. Where they stand and how
many have room follows from the rectangle alone.
-/

namespace ExploreF407.Lcd

variable (dir : Dir) (cellArea : Rect)

/-- How many characters the first line of a cell takes. -/
def cellFirst : Nat :=
  match dir with
  | .crosswise => (cellArea.xposStop - cellArea.xposStart) / 10
  | .vertical => (cellArea.yposStart - 4 - cellArea.yposStop) / 10

/-- How many characters each of the other lines takes. -/
def cellLater : Nat :=
  match dir with
  | .crosswise => (cellArea.xposStop - cellArea.xposStart) / 10
  | .vertical => max 1 ((cellArea.yposStart - 2 - cellArea.yposStop) / 10)

def cellLines : Nat :=
  match dir with
  | .crosswise => (cellArea.yposStop - cellArea.yposStart) / 16
  | .vertical => (cellArea.xposStop - cellArea.xposStart) / 16

def cellLine (k : Nat) : Nat :=
  if k < cellFirst dir cellArea then 0
  else 1 + (k - cellFirst dir cellArea) / cellLater dir cellArea

def cellColumn (k : Nat) : Nat :=
  if k < cellFirst dir cellArea then k else (k - cellFirst dir cellArea) % cellLater dir cellArea

/-- The coordinates of character `k`. On the turned panel the first line begins 4 from the
    border and the others 2. -/
def cellPlace (k : Nat) : Nat × Nat :=
  match dir with
  | .crosswise => (cellArea.xposStart + 2 + 10 * cellColumn .crosswise cellArea k,
      cellArea.yposStart + 16 * cellLine .crosswise cellArea k)
  | .vertical => (cellArea.xposStart + 16 * cellLine .vertical cellArea k,
      cellArea.yposStart - (if k < cellFirst .vertical cellArea then 4 else 2) -
        10 * cellColumn .vertical cellArea k)

/-- The box of a character at `place` is in the cell, and does not touch the lines at
    `xposStop` and `yposStop`. -/
def InCell (place : Nat × Nat) : Prop :=
  match dir with
  | .crosswise => cellArea.xposStart ≤ place.1 ∧ place.1 + 8 ≤ cellArea.xposStop ∧
      cellArea.yposStart ≤ place.2 ∧ place.2 + 16 ≤ cellArea.yposStop
  | .vertical => cellArea.xposStart ≤ place.1 ∧ place.1 + 16 ≤ cellArea.xposStop ∧
      cellArea.yposStop + 8 ≤ place.2 ∧ place.2 ≤ cellArea.yposStart

/-- A character has room along a line. -/
def CellWide : Prop :=
  match dir with
  | .crosswise => cellArea.xposStart + 10 ≤ cellArea.xposStop
  | .vertical => cellArea.yposStop + 10 ≤ cellArea.yposStart

instance : Decidable (CellWide dir cellArea) :=
  match dir with
  | .crosswise => inferInstanceAs (Decidable (_ ≤ _))
  | .vertical => inferInstanceAs (Decidable (_ ≤ _))

/-- The coordinate behind a full line has 16 bits, and is not below 0. -/
def CellEnds : Prop :=
  match dir with
  | .crosswise => cellArea.xposStart + 2 + 10 * cellLater .crosswise cellArea < 2 ^ 16
  | .vertical => 12 ≤ cellArea.yposStart

instance : Decidable (CellEnds dir cellArea) :=
  match dir with
  | .crosswise => inferInstanceAs (Decidable (_ < _))
  | .vertical => inferInstanceAs (Decidable (_ ≤ _))

/-- The cell has room for `n` characters. -/
def CellHolds (n : Nat) : Prop :=
  n = 0 ∨ CellWide dir cellArea ∧ 0 < cellLines dir cellArea ∧
    n ≤ cellFirst dir cellArea + cellLater dir cellArea * (cellLines dir cellArea - 1) ∧
    (n ≤ cellLater dir cellArea ∨ CellEnds dir cellArea)

instance (n : Nat) : Decidable (CellHolds dir cellArea n) :=
  inferInstanceAs (Decidable (_ ∨ _))

variable {dir cellArea} {n k i j : Nat}

/-! ## Room -/

theorem cellLater_pos (wide : CellWide dir cellArea) : 0 < cellLater dir cellArea := by
  cases dir <;> simp only [CellWide, cellLater] at wide ⊢ <;> omega

theorem CellHolds.line (holds : CellHolds dir cellArea n) (below : k < n) :
    cellLine dir cellArea k < cellLines dir cellArea := by
  rcases holds with rfl | ⟨-, lines, enough, -⟩
  · omega
  · unfold cellLine
    split
    · exact lines
    · have later : k - cellFirst dir cellArea <
          cellLater dir cellArea * (cellLines dir cellArea - 1) := by omega
      have row := Nat.div_lt_of_lt_mul later
      omega

theorem CellHolds.column (holds : CellHolds dir cellArea n) (below : k < n) :
    k < cellFirst dir cellArea ∧ cellColumn dir cellArea k < cellFirst dir cellArea ∨
      ¬ k < cellFirst dir cellArea ∧ cellColumn dir cellArea k < cellLater dir cellArea := by
  rcases holds with rfl | ⟨wide, -⟩
  · omega
  · unfold cellColumn
    split
    · rename_i inner
      exact .inl ⟨inner, inner⟩
    · rename_i outer
      exact .inr ⟨outer, Nat.mod_lt _ (cellLater_pos wide)⟩

theorem CellHolds.inCell (holds : CellHolds dir cellArea n) (below : k < n) :
    InCell dir cellArea (cellPlace dir cellArea k) := by
  have line := holds.line below
  have column := holds.column below
  rcases holds with rfl | ⟨wide, lines, -⟩
  · omega
  · cases dir with
    | crosswise =>
        simp only [CellWide] at wide
        simp only [InCell, cellPlace]
        simp only [cellLines] at line
        simp only [cellFirst, cellLater] at column
        omega
    | vertical =>
        simp only [CellWide] at wide
        simp only [InCell, cellPlace]
        simp only [cellLines] at line
        rcases column with ⟨inner, column⟩ | ⟨outer, column⟩
        · simp only [cellFirst] at column
          simp only [inner, if_true]
          omega
        · simp only [cellLater] at column
          simp only [outer, if_false]
          omega

theorem holds_of_inCell (ends : CellEnds dir cellArea)
    (inside : ∀ k < n, InCell dir cellArea (cellPlace dir cellArea k)) :
    CellHolds dir cellArea n := by
  rcases Nat.eq_zero_or_pos n with none | some'
  · exact .inl none
  · have first := inside 0 some'
    have last := inside (n - 1) (by omega)
    have wide : CellWide dir cellArea := by
      cases dir with
      | crosswise =>
          simp only [InCell, cellPlace] at first
          simp only [CellWide]
          omega
      | vertical =>
          simp only [InCell, cellPlace] at first
          simp only [CellWide]
          split at first <;> omega
    have line : cellLine dir cellArea (n - 1) < cellLines dir cellArea := by
      cases dir with
      | crosswise =>
          simp only [InCell, cellPlace] at last
          simp only [cellLines]
          omega
      | vertical =>
          simp only [InCell, cellPlace] at last
          simp only [cellLines]
          omega
    refine .inr ⟨wide, Nat.zero_lt_of_lt line, ?_, .inr ends⟩
    unfold cellLine at line
    split at line
    · omega
    · have row : (n - 1 - cellFirst dir cellArea) / cellLater dir cellArea <
          cellLines dir cellArea - 1 := by omega
      have within := (Nat.div_lt_iff_lt_mul (cellLater_pos wide)).mp row
      rw [Nat.mul_comm] at within
      omega

/-! ## From one character to the next -/

theorem cell_next (wide : CellWide dir cellArea) (k : Nat) :
    (k + 1 < cellFirst dir cellArea ∧ cellLine dir cellArea k = 0 ∧
        cellLine dir cellArea (k + 1) = 0 ∧ cellColumn dir cellArea k = k ∧
        cellColumn dir cellArea (k + 1) = k + 1) ∨
      (cellFirst dir cellArea ≤ k + 1 ∧
        cellLine dir cellArea (k + 1) = cellLine dir cellArea k + 1 ∧
        cellColumn dir cellArea (k + 1) = 0 ∧
        (k + 1 = cellFirst dir cellArea ∧ cellColumn dir cellArea k = k ∨
          cellFirst dir cellArea ≤ k ∧
            cellColumn dir cellArea k + 1 = cellLater dir cellArea)) ∨
      cellFirst dir cellArea ≤ k ∧ cellLine dir cellArea (k + 1) = cellLine dir cellArea k ∧
        cellColumn dir cellArea (k + 1) = cellColumn dir cellArea k + 1 ∧
        cellColumn dir cellArea k + 1 < cellLater dir cellArea := by
  have some' := cellLater_pos wide
  unfold cellLine cellColumn
  rcases Nat.lt_trichotomy (k + 1) (cellFirst dir cellArea) with inner | last | outer
  · left
    simp only [inner, show k < cellFirst dir cellArea by omega, if_true, and_self]
  · right
    left
    simp only [last, show k < cellFirst dir cellArea by omega, if_true, Nat.lt_irrefl, if_false,
      Nat.sub_self, Nat.zero_div, Nat.zero_mod, le_refl, and_self, true_or]
  · right
    have step : k + 1 - cellFirst dir cellArea = k - cellFirst dir cellArea + 1 := by omega
    simp only [show ¬ k < cellFirst dir cellArea by omega,
      show ¬ k + 1 < cellFirst dir cellArea by omega, if_false, step]
    rcases Nat.lt_or_eq_of_le (Nat.mod_lt (k - cellFirst dir cellArea) some') with more | full
    · obtain ⟨line, column⟩ := Lines.next_row more
      right
      exact ⟨by omega, by rw [line], column, more⟩
    · obtain ⟨line, column⟩ := Lines.next_column full
      left
      exact ⟨by omega, by rw [line]; omega, column, .inr ⟨by omega, full⟩⟩

namespace Layout

def ofCell (dir : Dir) (cellArea : Rect) : Layout := .ofSize dir cellArea cellSpace 16 8

def cellCursor (dir : Dir) (cellArea : Rect) (k : Nat) : Cursor where
  xpos := (cellPlace dir cellArea k).1
  ypos := (cellPlace dir cellArea k).2
  lineNum := cellLine dir cellArea k

variable {c : Cursor}

theorem stays_crosswise (along : c.xpos + 8 ≤ cellArea.xposStop)
    (line : c.ypos + 16 ≤ cellArea.yposStop) : (ofCell .crosswise cellArea).place c = some c := by
  simp only [place, ofCell, ofSize, Nat.not_lt.mpr along, Nat.not_lt.mpr line, if_false]

theorem breaks_crosswise (full : cellArea.xposStop < c.xpos + 8)
    (wide : cellArea.xposStart + 10 ≤ cellArea.xposStop)
    (line : cellArea.yposStart + 16 * (c.lineNum + 1) + 16 ≤ cellArea.yposStop) :
    (ofCell .crosswise cellArea).place c = some
      ⟨cellArea.xposStart + 2, cellArea.yposStart + 16 * (c.lineNum + 1), c.lineNum + 1⟩ := by
  have right := cellArea.xposStop_lt
  have bottom := cellArea.yposStop_lt
  have start : (cellArea.xposStart + 16 / 6) % 2 ^ 16 = cellArea.xposStart + 2 := by omega
  have count : (c.lineNum + 1) % 2 ^ 16 = c.lineNum + 1 := by omega
  have next : (cellArea.yposStart + (c.lineNum + 1) * 16 + 0) % 2 ^ 16 =
      cellArea.yposStart + 16 * (c.lineNum + 1) := by omega
  simp only [place, newline, ofCell, ofSize, cellSpace, full, gt_iff_lt, if_true, count, next,
    start, Nat.not_lt.mpr line, if_false]

theorem stays_vertical (along : cellArea.yposStop + 10 ≤ c.ypos)
    (line : c.xpos + 16 ≤ cellArea.xposStop) : (ofCell .vertical cellArea).place c = some c := by
  have on : ¬ c.ypos < cellArea.yposStop + 8 + 16 / 6 := by omega
  simp only [place, ofCell, ofSize, cellSpace, on, Nat.not_lt.mpr line, if_false]

theorem breaks_vertical (full : c.ypos < cellArea.yposStop + 10)
    (wide : cellArea.yposStop + 10 ≤ cellArea.yposStart)
    (line : cellArea.xposStart + 16 * (c.lineNum + 1) + 16 ≤ cellArea.xposStop) :
    (ofCell .vertical cellArea).place c = some
      ⟨cellArea.xposStart + 16 * (c.lineNum + 1), cellArea.yposStart - 2, c.lineNum + 1⟩ := by
  have right := cellArea.xposStop_lt
  have top := cellArea.yposStart_lt
  have off : c.ypos < cellArea.yposStop + 8 + 16 / 6 := by omega
  have start : (cellArea.yposStart + (2 ^ 16 - 16 / 6)) % 2 ^ 16 = cellArea.yposStart - 2 := by
    omega
  have count : (c.lineNum + 1) % 2 ^ 16 = c.lineNum + 1 := by omega
  have next : (cellArea.xposStart + (c.lineNum + 1) * 16 + 0) % 2 ^ 16 =
      cellArea.xposStart + 16 * (c.lineNum + 1) := by omega
  simp only [place, newline, ofCell, ofSize, cellSpace, off, gt_iff_lt, if_true, count, next,
    start, Nat.not_lt.mpr line, if_false]

theorem advance_crosswise : (ofCell .crosswise cellArea).advance c =
    ⟨(c.xpos + 10) % 65536, c.ypos, c.lineNum⟩ := by
  simp [advance, ofCell, ofSize, cellSpace]

theorem advance_vertical : (ofCell .vertical cellArea).advance c =
    ⟨c.xpos, (c.ypos + 65526) % 65536, c.lineNum⟩ := by
  simp [advance, ofCell, ofSize, cellSpace]

theorem place_start (holds : CellHolds dir cellArea n) (some' : 0 < n) :
    (ofCell dir cellArea).place (ofCell dir cellArea).start = some (cellCursor dir cellArea 0) := by
  have right := cellArea.xposStop_lt
  have top := cellArea.yposStart_lt
  have line := holds.line some'
  rcases holds with rfl | ⟨wide, -⟩
  · omega
  · cases dir with
    | crosswise =>
        simp only [CellWide] at wide
        have inner : 0 < cellFirst .crosswise cellArea := by
          simp only [cellFirst]
          omega
        have start : (ofCell .crosswise cellArea).start = cellCursor .crosswise cellArea 0 := by
          simp [Layout.start, ofCell, ofSize, cellSpace, cellCursor, cellPlace, cellColumn,
            cellLine, inner]
          omega
        simp only [cellLine, inner, if_true, cellLines] at line
        rw [start]
        apply stays_crosswise
        · simp [cellCursor, cellPlace, cellColumn, inner]
          omega
        · simp [cellCursor, cellPlace, cellLine, inner]
          omega
    | vertical =>
        simp only [CellWide] at wide
        have start : (ofCell .vertical cellArea).start =
            ⟨cellArea.xposStart, cellArea.yposStart - 4, 0⟩ := by
          simp [Layout.start, ofCell, ofSize, cellSpace]
          omega
        rw [start]
        by_cases inner : 0 < cellFirst .vertical cellArea
        · simp only [cellLine, inner, if_true, cellLines] at line
          rw [stays_vertical]
          · simp [cellCursor, cellPlace, cellColumn, cellLine, inner]
          · simp only [cellFirst] at inner
            simp only
            omega
          · simp only
            omega
        · simp only [cellLine, inner, if_false, cellLines, Nat.zero_sub, Nat.zero_div] at line
          rw [breaks_vertical]
          · simp [cellCursor, cellPlace, cellColumn, cellLine, inner]
          · simp only [cellFirst] at inner
            simp only
            omega
          · exact wide
          · simp only
            omega

theorem place_next (holds : CellHolds dir cellArea n) (below : k + 1 < n) :
    (ofCell dir cellArea).place ((ofCell dir cellArea).advance (cellCursor dir cellArea k)) =
      some (cellCursor dir cellArea (k + 1)) := by
  have right := cellArea.xposStop_lt
  have top := cellArea.yposStart_lt
  have line := holds.line below
  rcases holds with rfl | ⟨wide, -, enough, ends⟩
  · omega
  · have next := cell_next wide k
    cases dir with
    | crosswise =>
        simp only [CellWide] at wide
        simp only [cellLines] at line
        have ends : cellLater .crosswise cellArea < n →
            cellArea.xposStart + 2 + 10 * cellLater .crosswise cellArea < 2 ^ 16 :=
          fun more => ends.resolve_left (Nat.not_le.mpr more)
        rw [advance_crosswise]
        simp only [cellCursor, cellPlace]
        rcases next with ⟨inner, same, same', column, column'⟩ | ⟨_, line', first, full⟩ |
          ⟨_, line', column', more⟩
        · simp only [cellFirst] at inner
          simp only [same, same', column, column'] at line ⊢
          rw [show (cellArea.xposStart + 2 + 10 * k + 10) % 65536 =
            cellArea.xposStart + 2 + 10 * (k + 1) by omega]
          exact stays_crosswise (by simp only; omega) (by simp only; omega)
        · have last : cellColumn .crosswise cellArea k + 1 = cellLater .crosswise cellArea ∧
              cellLater .crosswise cellArea < n := by
            simp only [cellFirst, cellLater] at full ⊢
            omega
          obtain ⟨last, more⟩ := last
          have small := ends more
          rw [line'] at line ⊢
          rw [first, breaks_crosswise _ wide (by simp only; omega)]
          simp only [cellLater] at last small
          simp only
          omega
        · simp only [cellLater] at more
          rw [line'] at line ⊢
          rw [column', show (cellArea.xposStart + 2 + 10 * cellColumn .crosswise cellArea k + 10) %
            65536 = cellArea.xposStart + 2 + 10 * (cellColumn .crosswise cellArea k + 1) by omega]
          exact stays_crosswise (by simp only; omega) (by simp only; omega)
    | vertical =>
        simp only [CellWide] at wide
        simp only [cellLines] at line
        have ends : cellLater .vertical cellArea < n → 12 ≤ cellArea.yposStart :=
          fun more => ends.resolve_left (Nat.not_le.mpr more)
        rw [advance_vertical]
        simp only [cellCursor, cellPlace]
        rcases next with ⟨inner, same, same', column, column'⟩ | ⟨reached, line', first, full⟩ |
          ⟨outer, line', column', more⟩
        · simp only [same, same', column, column', inner, show k < cellFirst .vertical cellArea by
            omega, if_true] at line ⊢
          simp only [cellFirst] at inner
          rw [show (cellArea.yposStart - 4 - 10 * k + 65526) % 65536 =
            cellArea.yposStart - 4 - 10 * (k + 1) by omega]
          exact stays_vertical (by simp only; omega) (by simp only; omega)
        · rw [line'] at line ⊢
          rw [first, if_neg (Nat.not_lt.mpr reached), Nat.mul_zero, Nat.sub_zero]
          apply breaks_vertical _ wide (by simp only; omega)
          simp only
          rcases full with ⟨last, column⟩ | ⟨outer, last⟩
          · rw [if_pos (by omega), column]
            simp only [cellFirst] at last
            omega
          · rw [if_neg (Nat.not_lt.mpr outer)]
            simp only [cellLater] at last ends
            omega
        · rw [line'] at line ⊢
          rw [column', if_neg (Nat.not_lt.mpr outer), if_neg (by omega)]
          simp only [cellLater] at more
          rw [show (cellArea.yposStart - 2 - 10 * cellColumn .vertical cellArea k + 65526) % 65536 =
            cellArea.yposStart - 2 - 10 * (cellColumn .vertical cellArea k + 1) by omega]
          exact stays_vertical (by simp only; omega) (by simp only; omega)

theorem slot_cell (holds : CellHolds dir cellArea n) (below : k < n) :
    (ofCell dir cellArea).slot k = some (cellCursor dir cellArea k) := by
  induction k with
  | zero => exact place_start holds below
  | succ k ih =>
      have step : (ofCell dir cellArea).slot (k + 1) = ((ofCell dir cellArea).slot k).bind fun a =>
          (ofCell dir cellArea).place ((ofCell dir cellArea).advance a) := slotFrom_last _ _
      rw [step, ih (Nat.lt_of_succ_lt below), Option.bind_some]
      exact place_next holds below

theorem behind_next (wide : CellWide dir cellArea)
    (inside : InCell dir cellArea (cellPlace dir cellArea k)) :
    (ofCell dir cellArea).Behind (cellCursor dir cellArea k) (cellCursor dir cellArea (k + 1)) := by
  have next := cell_next wide k
  cases dir with
  | crosswise =>
      simp only [Behind, ofCell, ofSize, cellCursor, cellPlace]
      omega
  | vertical =>
      simp only [InCell, cellPlace] at inside
      simp only [Behind, ofCell, ofSize, cellCursor, cellPlace]
      grind

theorem behind_cell (holds : CellHolds dir cellArea n) (order : i < j) (below : j < n) :
    (ofCell dir cellArea).Behind (cellCursor dir cellArea i) (cellCursor dir cellArea j) := by
  have wide : CellWide dir cellArea := by
    rcases holds with none | ⟨wide, -⟩
    · omega
    · exact wide
  induction j, order using Nat.le_induction with
  | base => exact behind_next wide (holds.inCell (by omega))
  | succ j _ ih =>
      exact (ih (Nat.lt_of_succ_lt below)).trans
        (behind_next wide (holds.inCell (Nat.lt_of_succ_lt below)))

end Layout

end ExploreF407.Lcd
