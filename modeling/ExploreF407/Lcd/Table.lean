import ExploreF407.Lcd.Panel

/-! # The frame of a table

`BSP_LCDTableFrameInit` of `bsp_lcd.c` fills the array of a table's cells and draws their
borders. It takes the place of a cell from the table's lines and rows, two doubly linked lists
along which two pointers are moved from cell to cell.
-/

namespace ExploreF407.Lcd

variable {ι κ : Type*}

/-- `BSP_LCDTableLineTypedef`. A null pointer is `none`. -/
structure TableLine (ι : Type*) where
  prevPtr : Option ι
  nextPtr : Option ι
  lposStart : UInt16
  lineNum : UInt16
  lineHight : UInt16

/-- `BSP_LCDTableRowTypedef`. -/
structure TableRow (κ : Type*) where
  prevPtr : Option κ
  nextPtr : Option κ
  rposStart : UInt16
  rowNum : UInt16
  rowWidth : UInt16

/-- `BSP_LCDTableCellTypedef`, without what is printed into the cell. The links are indices of
    the array of cells. -/
structure TableCell where
  prevPtr : Option Nat
  nextPtr : Option Nat
  cellArea : Rect
  cellNum : UInt16

/-- `BSP_LCDTableTypedef`. -/
structure Table (ι κ : Type*) where
  tableLinePtr : Option ι
  tableRowPtr : Option κ
  tableDir : Dir
  lineCnt : UInt16
  rowCnt : UInt16
  xposStart : UInt16
  yposStart : UInt16

structure TableNodes (ι κ : Type*) where
  line : ι → TableLine ι
  row : κ → TableRow κ

/-- How `BSP_LCDTableFrameInit` can fail to return `BSP_ERROR_NONE`. -/
inductive Stop where
  /-- `BSP_LCD_ERROR_TABLE` is returned. -/
  | table
  /-- A null pointer is followed. -/
  | null
  /-- The `int` product of the two counts overflows. -/
  | overflow
  /-- A loop has not ended after the turns it was given. -/
  | turns
  deriving Repr, DecidableEq

/-! ## Searches -/

/-- `while (want != p->Num)`: `p` is moved along `link`, and the search is given up at a node
    without a successor. The loop asks for the successor after each move, not before the first. -/
def seek (link : ι → Option ι) (num : ι → Nat) (want : Nat) : Nat → ι → Except Stop ι
  | turns, p =>
      if want = num p then .ok p
      else match turns with
        | 0 => .error .turns
        | turns + 1 => match link p with
          | none => .error .null
          | some q =>
              if link q = none ∧ num q ≠ want then .error .table
              else seek link num want turns q

/-- The loop of the first cell that looks for a line forwards: what ends it stands behind it. -/
def seekBlind (link : ι → Option ι) (num : ι → Nat) (want : Nat) : Nat → ι → Except Stop ι
  | turns, p =>
      if want = num p then
        if link p = none ∧ num p ≠ want then .error .table else .ok p
      else match turns with
        | 0 => .error .turns
        | turns + 1 => match link p with
          | none => .error .null
          | some q => seekBlind link num want turns q

/-- The three branches that every search is in: the pointer stays, or it is moved. -/
def select (num : ι → Nat) (want : Nat) (backwards forwards : ι → Except Stop ι) (p : ι) :
    Except Stop ι :=
  if want = num p then .ok p
  else if want < num p then backwards p
  else forwards p

namespace TableNodes

variable (nodes : TableNodes ι κ)

def linePrev (p : ι) : Option ι := (nodes.line p).prevPtr

def lineNext (p : ι) : Option ι := (nodes.line p).nextPtr

def lineNum (p : ι) : Nat := (nodes.line p).lineNum.toNat

def rowPrev (q : κ) : Option κ := (nodes.row q).prevPtr

def rowNext (q : κ) : Option κ := (nodes.row q).nextPtr

def rowNum (q : κ) : Nat := (nodes.row q).rowNum.toNat

def firstLine (turns want : Nat) : ι → Except Stop ι :=
  select nodes.lineNum want (seek nodes.linePrev nodes.lineNum want turns)
    (seekBlind nodes.lineNext nodes.lineNum want turns)

def otherLine (turns want : Nat) : ι → Except Stop ι :=
  select nodes.lineNum want (seek nodes.linePrev nodes.lineNum want turns)
    (seek nodes.lineNext nodes.lineNum want turns)

def cellRow (turns want : Nat) : κ → Except Stop κ :=
  select nodes.rowNum want (seek nodes.rowPrev nodes.rowNum want turns)
    (seek nodes.rowNext nodes.rowNum want turns)

end TableNodes

/-! ## Coordinates -/

theorem mod_coordinate (pos : Nat) : pos % 2 ^ 16 < 2 ^ 16 := Nat.mod_lt pos (Nat.two_pow_pos 16)

namespace Rect

/-- `rect.LCD_XposStart = pos`, and so on. -/
def setXposStart (rect : Rect) (pos : Nat) : Rect :=
  { rect with xposStart := pos % 2 ^ 16, xposStart_lt := mod_coordinate pos }

def setXposStop (rect : Rect) (pos : Nat) : Rect :=
  { rect with xposStop := pos % 2 ^ 16, xposStop_lt := mod_coordinate pos }

def setYposStart (rect : Rect) (pos : Nat) : Rect :=
  { rect with yposStart := pos % 2 ^ 16, yposStart_lt := mod_coordinate pos }

def setYposStop (rect : Rect) (pos : Nat) : Rect :=
  { rect with yposStop := pos % 2 ^ 16, yposStop_lt := mod_coordinate pos }

end Rect

def lineStart (dir : Dir) (line : TableLine ι) (area : Rect) : Rect :=
  match dir with
  | .crosswise => area.setYposStart line.lposStart.toNat
  | .vertical => area.setXposStart line.lposStart.toNat

/-- Where they end, from where they begin. -/
def lineStop (dir : Dir) (line : TableLine ι) (area : Rect) : Rect :=
  match dir with
  | .crosswise => area.setYposStop (area.yposStart + line.lineHight.toNat)
  | .vertical => area.setXposStop (area.xposStart + line.lineHight.toNat)

def rowStart (dir : Dir) (row : TableRow κ) (area : Rect) : Rect :=
  match dir with
  | .crosswise => area.setXposStart row.rposStart.toNat
  | .vertical => area.setYposStart row.rposStart.toNat

/-- Where the panel is turned, a row goes up. -/
def rowStop (dir : Dir) (row : TableRow κ) (area : Rect) : Rect :=
  match dir with
  | .crosswise => area.setXposStop (area.xposStart + row.rowWidth.toNat)
  | .vertical => area.setYposStop (area.yposStart + (2 ^ 16 - row.rowWidth.toNat))

/-! ## Cells -/

/-- The array of the cells and the panel. `filled` records the cells that are finished, in
    order. -/
structure Sheet where
  cells : Nat → TableCell
  panel : Panel
  filled : List Nat

def Sheet.assign (s : Sheet) (k : Nat) (change : TableCell → TableCell) : Sheet :=
  { s with cells := Function.update s.cells k (change (s.cells k)) }

def Sheet.changeArea (s : Sheet) (k : Nat) (change : Rect → Rect) : Sheet :=
  s.assign k fun cell => { cell with cellArea := change cell.cellArea }

/-- `BSP_LCDDrawRect(p_cell[k].CellArea, WHITE)`, the end of each round. -/
def Sheet.drawCell (s : Sheet) (k : Nat) : Sheet :=
  { s with
    panel := drawRect s.panel (s.cells k).cellArea white
    filled := s.filled ++ [k] }

variable (nodes : TableNodes ι κ) (table : Table ι κ) (turns : Nat)

/-- The branch of the first cell. Returns the pointers to its line and row. -/
def frameFirst (temp : UInt16) (line : ι) (row : κ) (s : Sheet) : Sheet × Except Stop (ι × κ) :=
  let k := temp.toNat
  let s := s.assign k fun cell =>
    { prevPtr := none
      nextPtr := some (k + 1)
      cellNum := temp
      cellArea := (cell.cellArea.setXposStart table.xposStart.toNat).setYposStart
        table.yposStart.toNat }
  match nodes.firstLine turns (k / table.rowCnt.toNat) line with
  | .error stop => (s, .error stop)
  | .ok line =>
      let s := s.changeArea k (lineStop table.tableDir (nodes.line line))
      match nodes.cellRow turns (k % table.rowCnt.toNat) row with
      | .error stop => (s, .error stop)
      | .ok row =>
          let s := s.changeArea k (rowStop table.tableDir (nodes.row row))
          (s.drawCell k, .ok (line, row))

def frameOther (temp : UInt16) (line : ι) (row : κ) (s : Sheet) : Sheet × Except Stop (ι × κ) :=
  let k := temp.toNat
  let s := s.assign k fun cell =>
    { cell with prevPtr := some (k - 1), nextPtr := some (k + 1), cellNum := temp }
  match nodes.otherLine turns (k / table.rowCnt.toNat) line with
  | .error stop => (s, .error stop)
  | .ok line =>
      let s := s.changeArea k (lineStart table.tableDir (nodes.line line))
      let s := s.changeArea k (lineStop table.tableDir (nodes.line line))
      match nodes.cellRow turns (k % table.rowCnt.toNat) row with
      | .error stop => (s, .error stop)
      | .ok row =>
          let s := s.changeArea k (rowStart table.tableDir (nodes.row row))
          let s := s.changeArea k (rowStop table.tableDir (nodes.row row))
          (s.drawCell k, .ok (line, row))

def frameCell (temp : UInt16) (line : ι) (row : κ) (s : Sheet) : Sheet × Except Stop (ι × κ) :=
  if temp = 0 then frameFirst nodes table turns temp line row s
  else frameOther nodes table turns temp line row s

/-- `line_table_cnt * row_table_cnt`, computed as an `int`. -/
def Table.product : Nat := table.lineCnt.toNat * table.rowCnt.toNat

/-- The loop over the cells, with `left` turns left. `temp++` wraps. -/
def frameCells : Nat → UInt16 → ι → κ → Sheet → Sheet × Except Stop Unit
  | left, temp, line, row, s =>
      if 2 ^ 31 ≤ table.product then (s, .error .overflow)
      else if temp.toNat < table.product then
        match left with
        | 0 => (s, .error .turns)
        | left + 1 => match frameCell nodes table turns temp line row s with
          | (s, .error stop) => (s, .error stop)
          | (s, .ok (line, row)) => frameCells left (temp + 1) line row s
      else (s, .ok ())

/-- `BSP_LCDTableFrameInit`, where every loop may take `turns` turns. -/
def bspLcdTableFrameInit (s : Sheet) : Sheet × Except Stop Unit :=
  match table.tableLinePtr with
  | none => (s, .error .null)
  | some line =>
      if nodes.linePrev line ≠ none then (s, .error .table)
      else match table.tableRowPtr with
        | none => (s, .error .null)
        | some row =>
            if nodes.rowPrev row ≠ none then (s, .error .table)
            else frameCells nodes table turns turns 0 line row s

end ExploreF407.Lcd
