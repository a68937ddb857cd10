import ExploreF407.Lcd.TableOrder
import ExploreF407.Lcd.Places

/-! # What `BSP_LCDTableFrameInit` makes of a table

Well-formed tables, tables with a number missing, and tables with many cells.
-/

namespace ExploreF407.Lcd

open Linked

variable {ι κ : Type*}

/-! ## Well-formed tables -/

/-- The rectangle from the start of a line and a row over its height and width. A row goes up
    where the panel is turned. -/
def Spans (dir : Dir) (line : TableLine ι) (row : TableRow κ) (area : Rect) : Prop :=
  match dir with
  | .crosswise =>
      area.xposStart = row.rposStart.toNat ∧
      area.xposStop = row.rposStart.toNat + row.rowWidth.toNat ∧
      area.yposStart = line.lposStart.toNat ∧
      area.yposStop = line.lposStart.toNat + line.lineHight.toNat
  | .vertical =>
      area.xposStart = line.lposStart.toNat ∧
      area.xposStop = line.lposStart.toNat + line.lineHight.toNat ∧
      area.yposStart = row.rposStart.toNat ∧
      area.yposStop + row.rowWidth.toNat = row.rposStart.toNat

/-- The first line and the first row begin where the table does. -/
def AtCorner (table : Table ι κ) (line : TableLine ι) (row : TableRow κ) : Prop :=
  match table.tableDir with
  | .crosswise => row.rposStart = table.xposStart ∧ line.lposStart = table.yposStart
  | .vertical => line.lposStart = table.xposStart ∧ row.rposStart = table.yposStart

def LineFits (line : TableLine ι) : Prop :=
  line.lposStart.toNat + line.lineHight.toNat < 2 ^ 16

def RowFits (dir : Dir) (row : TableRow κ) : Prop :=
  match dir with
  | .crosswise => row.rposStart.toNat + row.rowWidth.toNat < 2 ^ 16
  | .vertical => row.rowWidth.toNat ≤ row.rposStart.toNat

/-- A table of `LineCNT` lines and `RowCNT` rows that are numbered in order. -/
structure WellFormed (nodes : TableNodes ι κ) (table : Table ι κ) (lines : List ι)
    (rows : List κ) : Prop where
  lists : TableLists nodes table lines rows
  lineOrder : lineNums nodes lines = List.range table.lineCnt.toNat
  rowOrder : rowNums nodes rows = List.range table.rowCnt.toNat
  someLine : 0 < table.lineCnt.toNat
  someRow : 0 < table.rowCnt.toNat
  narrow : table.product < 2 ^ 16
  corner : ∀ p q, lines.head? = some p → rows.head? = some q →
    AtCorner table (nodes.line p) (nodes.row q)
  lineFits : ∀ p ∈ lines, LineFits (nodes.line p)
  rowFits : ∀ q ∈ rows, RowFits table.tableDir (nodes.row q)

section Geometry

variable {nodes : TableNodes ι κ} {table : Table ι κ} {lines : List ι} {rows : List κ}
  {line : TableLine ι} {row : TableRow κ} {area : Rect} {cell : TableCell} {p : ι} {q : κ} {k : Nat}

theorem toNat_mod_coordinate (pos : UInt16) : pos.toNat % 2 ^ 16 = pos.toNat :=
  Nat.mod_eq_of_lt pos.toNat_lt

theorem spans_spanned {dir : Dir} (lineFits : LineFits line) (rowFits : RowFits dir row) :
    Spans dir line row (spanned dir line row area) := by
  unfold LineFits at lineFits
  unfold RowFits at rowFits
  unfold Spans spanned rowStop rowStart lineStop lineStart Rect.setXposStart Rect.setXposStop
    Rect.setYposStart Rect.setYposStop
  cases dir with
  | crosswise =>
      simp only [toNat_mod_coordinate] at rowFits ⊢
      exact ⟨trivial, Nat.mod_eq_of_lt rowFits, trivial, Nat.mod_eq_of_lt lineFits⟩
  | vertical =>
      simp only [toNat_mod_coordinate] at rowFits ⊢
      have below := row.rposStart.toNat_lt
      exact ⟨trivial, Nat.mod_eq_of_lt lineFits, trivial, by omega⟩

theorem spans_writtenCell (lineFits : LineFits (nodes.line p))
    (rowFits : RowFits table.tableDir (nodes.row q))
    (corner : k = 0 → AtCorner table (nodes.line p) (nodes.row q)) :
    Spans table.tableDir (nodes.line p) (nodes.row q)
      (writtenCell nodes table k p q cell).cellArea := by
  unfold writtenCell
  split
  · rename_i first
    have whole : Spans _ _ _ (spanned _ _ _ cell.cellArea) := spans_spanned lineFits rowFits
    have start := corner first
    unfold AtCorner at start
    unfold spanned rowStart lineStart at whole
    unfold rowStop lineStop at whole ⊢
    cases dir : table.tableDir with
    | crosswise =>
        simp only [dir] at start whole ⊢
        rw [start.1, start.2] at whole
        exact whole
    | vertical =>
        simp only [dir] at start whole ⊢
        rw [start.1, start.2] at whole
        exact whole
  · exact spans_spanned lineFits rowFits

variable {turns : Nat}

theorem WellFormed.lines_length (well : WellFormed nodes table lines rows) :
    lines.length = table.lineCnt.toNat := by
  have same := congrArg List.length well.lineOrder
  rwa [lineNums, List.length_map, List.length_range] at same

theorem WellFormed.rows_length (well : WellFormed nodes table lines rows) :
    rows.length = table.rowCnt.toNat := by
  have same := congrArg List.length well.rowOrder
  rwa [rowNums, List.length_map, List.length_range] at same

/-- In a well-formed table the cursors follow the numbers of the cells. -/
theorem WellFormed.trails (well : WellFormed nodes table lines rows) {n : Nat}
    (inside : n < table.product) :
    trail (lineNums nodes lines) (lineWant table) (n + 1) = some (n / table.rowCnt.toNat) ∧
      trail (rowNums nodes rows) (rowWant table) (n + 1) = some (n % table.rowCnt.toNat) := by
  have wants := wants_unwrapped table (inside.trans well.narrow)
  rw [well.lineOrder, well.rowOrder, ← wants.1, ← wants.2]
  constructor
  · apply trail_range well.someLine
    intro m before
    rw [(wants_unwrapped table ((before.trans_lt inside).trans well.narrow)).1]
    exact Nat.div_lt_of_lt_mul (Nat.mul_comm _ _ ▸ before.trans_lt inside)
  · apply trail_range well.someRow
    intro m before
    rw [(wants_unwrapped table ((before.trans_lt inside).trans well.narrow)).2]
    exact Nat.mod_lt m well.someRow

theorem WellFormed.lines_ne_nil (well : WellFormed nodes table lines rows) : lines ≠ [] :=
  List.ne_nil_of_length_pos (well.lines_length ▸ well.someLine)

theorem WellFormed.rows_ne_nil (well : WellFormed nodes table lines rows) : rows ≠ [] :=
  List.ne_nil_of_length_pos (well.rows_length ▸ well.someRow)

theorem WellFormed.reached (well : WellFormed nodes table lines rows) :
    ∃ i j, Reached nodes table lines rows table.product i j := by
  have positive : table.product ≠ 0 := Nat.ne_of_gt (Nat.mul_pos well.someLine well.someRow)
  obtain ⟨last, product⟩ := Nat.exists_eq_succ_of_ne_zero positive
  obtain ⟨line, row⟩ := well.trails (product ▸ Nat.lt_succ_self last)
  rw [← Nat.succ_eq_add_one, ← product] at line row
  exact ⟨_, _, line, row⟩

/-- The cells of a well-formed table lie where its lines and rows say. -/
theorem tableFrameInit_geometry (well : WellFormed nodes table lines rows)
    (enough : table.product ≤ turns) (s : Sheet) :
    ∃ s', bspLcdTableFrameInit nodes table turns s = (s', .ok ()) ∧
      (∀ i < table.lineCnt.toNat, ∀ j < table.rowCnt.toNat,
        (s'.cells (i * table.rowCnt.toNat + j)).cellNum.toNat = i * table.rowCnt.toNat + j ∧
        ∃ p q, lines[i]? = some p ∧ rows[j]? = some q ∧
          Spans table.tableDir (nodes.line p) (nodes.row q)
            (s'.cells (i * table.rowCnt.toNat + j)).cellArea) ∧
      s'.panel = (List.range table.product).foldl
        (fun panel k => drawRect panel (s'.cells k).cellArea white) s.panel := by
  have enoughLines : lines.length ≤ table.product := by
    rw [well.lines_length]
    exact Nat.le_mul_of_pos_right _ well.someRow
  have enoughRows : rows.length ≤ table.product := by
    rw [well.rows_length]
    exact Nat.le_mul_of_pos_left _ well.someLine
  obtain ⟨_, _, reached⟩ := well.reached
  obtain ⟨left, rfl⟩ := Nat.exists_eq_add_of_le' enough
  obtain ⟨ls, rs, lineAt, rowAt, ends⟩ := init_ends s well.lists well.lines_ne_nil
    well.rows_ne_nil well.narrow reached left (by omega) (by omega)
  refine ⟨_, ends, ?_, rounds_panel well.narrow.le⟩
  intro i line j row
  obtain ⟨inside, column, rest⟩ := cell_index table line row
  obtain ⟨lineTrail, rowTrail⟩ := well.trails inside
  have lineHere := lineAt _ inside _ lineTrail
  have rowHere := rowAt _ inside _ rowTrail
  rw [column] at lineHere
  rw [rest] at rowHere
  rw [rounds_cells well.narrow.le, if_pos inside]
  generalize number : i * table.rowCnt.toNat + j = k at *
  constructor
  · unfold writtenCell
    split
    · rename_i first
      rw [first]
      rfl
    · exact (UInt16.toNat_ofNat' ..).trans (Nat.mod_eq_of_lt (inside.trans well.narrow))
  · refine ⟨ls (k + 1), rs (k + 1), lineHere, rowHere, ?_⟩
    apply spans_writtenCell (well.lineFits _ (List.mem_of_getElem? lineHere))
      (well.rowFits _ (List.mem_of_getElem? rowHere))
    intro first
    have i0 : i = 0 := by
      rw [← column, first, Nat.zero_div]
    have j0 : j = 0 := by
      rw [← rest, first, Nat.zero_mod]
    subst i0 j0
    apply well.corner
    · rw [List.head?_eq_getElem?, lineHere]
    · rw [List.head?_eq_getElem?, rowHere]

end Geometry

/-! ### Tables for examples -/

/-- Lists with these numbers, a line being 20 high and a row 40 wide. -/
def listNodes (ls rs : List Nat) : TableNodes Nat Nat where
  line p :=
    { prevPtr := if p = 0 then none else some (p - 1)
      nextPtr := if p + 1 < ls.length then some (p + 1) else none
      lposStart := UInt16.ofNat (20 * p)
      lineNum := UInt16.ofNat (ls.getD p 0)
      lineHight := 20 }
  row q :=
    { prevPtr := if q = 0 then none else some (q - 1)
      nextPtr := if q + 1 < rs.length then some (q + 1) else none
      rposStart := UInt16.ofNat (40 * q)
      rowNum := UInt16.ofNat (rs.getD q 0)
      rowWidth := 40 }

def listTable (ls rs : List Nat) (lineCnt rowCnt : UInt16) : Table Nat Nat where
  tableLinePtr := (List.range ls.length).head?
  tableRowPtr := (List.range rs.length).head?
  tableDir := .crosswise
  lineCnt := lineCnt
  rowCnt := rowCnt
  xposStart := 0
  yposStart := 0

def blankSheet : Sheet where
  cells := fun _ =>
    { prevPtr := none, nextPtr := none, cellArea := Rect.ofPanel 0 0 0 0, cellNum := 0 }
  panel := fun _ => black
  filled := []

theorem listNodes_lists (ls rs : List Nat) (lineCnt rowCnt : UInt16) :
    TableLists (listNodes ls rs) (listTable ls rs lineCnt rowCnt) (List.range ls.length)
      (List.range rs.length) where
  lineHead := rfl
  rowHead := rfl
  lineLinks := both_range _ (fun _ _ => rfl) (fun _ _ => rfl)
  rowLinks := both_range _ (fun _ _ => rfl) (fun _ _ => rfl)

theorem getD_range {nums : List Nat} (below : ∀ k ∈ nums, k < 2 ^ 16) :
    (List.range nums.length).map (fun p => (UInt16.ofNat (nums.getD p 0)).toNat) = nums := by
  apply List.ext_getElem
  · simp
  · intro k inside here
    have narrow := below _ (List.getElem_mem here)
    simpa [here] using narrow

theorem wellFormed_two :
    WellFormed (listNodes [0, 1] [0, 1]) (listTable [0, 1] [0, 1] 2 2) [0, 1] [0, 1] where
  lists := listNodes_lists [0, 1] [0, 1] 2 2
  lineOrder := by decide
  rowOrder := by decide
  someLine := by decide
  someRow := by decide
  narrow := by decide
  corner := by
    intro p q here there
    cases here
    cases there
    exact ⟨rfl, rfl⟩
  lineFits := by
    intro p member
    unfold LineFits
    revert p
    decide
  rowFits := by
    intro q member
    simp only [RowFits, listTable]
    revert q
    decide

theorem tableFrameInit_geometry_two :
    ∃ s', bspLcdTableFrameInit (listNodes [0, 1] [0, 1]) (listTable [0, 1] [0, 1] 2 2) 4 blankSheet =
        (s', .ok ()) ∧ (s'.cells 3).cellNum.toNat = 3 := by
  have enough : (listTable [0, 1] [0, 1] 2 2).product ≤ 4 := by decide
  obtain ⟨s', ends, cells, -⟩ := tableFrameInit_geometry wellFormed_two enough blankSheet
  exact ⟨s', ends, (cells 1 (by decide) 1 (by decide)).1⟩

/-! ## Malformed tables -/

section Malformed

variable {nodes : TableNodes ι κ} {table : Table ι κ} {lines : List ι} {rows : List κ} {n i j : Nat}

theorem EdgeAt.lost (edge : EdgeAt nodes table lines rows n i j) :
    goTo (lineNums nodes lines) i (lineWant table n) = none ∨
      goTo (rowNums nodes rows) j (rowWant table n) = none := by
  rcases edge with line | ⟨-, row⟩
  · exact .inl line.lost
  · exact .inr row.lost

theorem Reached.all_numbers (reached : Reached nodes table lines rows table.product i j)
    (narrow : table.product < 2 ^ 16) (positive : 0 < table.product) :
    (∀ k < table.lineCnt.toNat, k ∈ lineNums nodes lines) ∧
      ∀ k < table.rowCnt.toNat, k ∈ rowNums nodes rows := by
  have someLine : 0 < table.lineCnt.toNat := Nat.pos_of_mul_pos_right positive
  have someRow : 0 < table.rowCnt.toNat := Nat.pos_of_mul_pos_left positive
  constructor
  · intro k below
    obtain ⟨inside, column, -⟩ := cell_index table below someRow
    generalize k * table.rowCnt.toNat + 0 = t at inside column
    obtain ⟨m, found⟩ := trail_before reached.line inside
    have here := of_trail found
    rw [(wants_unwrapped table (inside.trans narrow)).1, column] at here
    exact List.mem_of_getElem? here
  · intro k below
    obtain ⟨inside, -, rest⟩ := cell_index table someLine below
    generalize 0 * table.rowCnt.toNat + k = t at inside rest
    obtain ⟨m, found⟩ := trail_before reached.row inside
    have here := of_trail found
    rw [(wants_unwrapped table (inside.trans narrow)).2, rest] at here
    exact List.mem_of_getElem? here

/-- A search from the last node of its direction follows a null pointer. -/
theorem refuses_iff_no_edge (lists : TableLists nodes table lines rows)
    (narrow : table.product < 2 ^ 16)
    (missing : (∃ k < table.lineCnt.toNat, k ∉ lineNums nodes lines) ∨
      ∃ k < table.rowCnt.toNat, k ∉ rowNums nodes rows) (s : Sheet) :
    (∃ enough, ∀ turns ≥ enough, (bspLcdTableFrameInit nodes table turns s).2 = .error .table) ↔
      lines ≠ [] ∧ rows ≠ [] ∧ 0 < table.product ∧
        ∀ n < table.product, ∀ i j, Reached nodes table lines rows n i j →
          ¬ EdgeAt nodes table lines rows n i j := by
  have small : table.product < 2 ^ 31 := narrow.trans (by decide)
  have inside : ∀ n < table.product, ∀ m ≤ n, m % 2 ^ 16 < table.product := by
    intro n below m order
    exact (Nat.mod_le m _).trans_lt (order.trans_lt below)
  constructor
  · intro refused
    obtain ⟨enough, refused⟩ := refused
    have someLine : lines ≠ [] := by
      intro nil
      subst nil
      have ends := refused enough (Nat.le_refl _)
      rw [init_lineNil s lists] at ends
      cases ends
    have someRow : rows ≠ [] := by
      intro nil
      subst nil
      have ends := refused enough (Nat.le_refl _)
      rw [init_rowNil s lists] at ends
      cases ends
    refine ⟨someLine, someRow, ?_, ?_⟩
    · apply Nat.pos_of_ne_zero
      intro zero
      have reached : Reached nodes table lines rows table.product 0 0 := by
        rw [zero]
        exact ⟨rfl, rfl⟩
      obtain ⟨_, _, -, -, ends⟩ := init_ends s lists someLine someRow narrow reached
        (enough + lines.length + rows.length) (by omega) (by omega)
      have refused := refused _ (by omega : enough + lines.length + rows.length + table.product ≥ enough)
      rw [ends] at refused
      cases refused
    · intro n below i j reached edge
      obtain ⟨s', ends, -⟩ := init_lost s lists someLine someRow small (inside n below)
        reached edge.lost (enough + lines.length + rows.length) (by omega) (by omega)
      have refused := refused _ (by omega : enough + lines.length + rows.length + 1 + n ≥ enough)
      rw [ends, if_pos edge] at refused
      cases refused
  · intro proper
    obtain ⟨someLine, someRow, positive, proper⟩ := proper
    rcases reached_or_lost nodes table lines rows table.product with
      ⟨i, j, reached⟩ | ⟨m, below, i, j, reached, lost⟩
    · obtain ⟨allLines, allRows⟩ := reached.all_numbers narrow positive
      rcases missing with ⟨k, less, none⟩ | ⟨k, less, none⟩
      · exact absurd (allLines k less) none
      · exact absurd (allRows k less) none
    · refine ⟨lines.length + rows.length + 1 + m, ?_⟩
      intro turns enough
      obtain ⟨left, rfl⟩ := Nat.exists_eq_add_of_le enough
      have order : lines.length + rows.length + 1 + m + left =
          lines.length + rows.length + left + 1 + m := by omega
      obtain ⟨s', ends, -⟩ := init_lost s lists someLine someRow small (inside m below)
        reached lost (lines.length + rows.length + left) (by omega) (by omega)
      rw [order, ends, if_neg (proper m below i j reached)]

/-- A table with a number missing is refused exactly if it has cells, both lists begin with
    number 0, and no list ends with a number behind which another one is looked for. -/
theorem tableFrameInit_refuses_iff (lists : TableLists nodes table lines rows)
    (narrow : table.product < 2 ^ 16)
    (missing : (∃ k < table.lineCnt.toNat, k ∉ lineNums nodes lines) ∨
      ∃ k < table.rowCnt.toNat, k ∉ rowNums nodes rows) (s : Sheet) :
    (∃ enough, ∀ turns ≥ enough, (bspLcdTableFrameInit nodes table turns s).2 = .error .table) ↔
      0 < table.product ∧ HeadsZero nodes lines rows ∧ GoesOn nodes table lines rows := by
  rw [refuses_iff_no_edge lists narrow missing s]
  constructor
  · rintro ⟨someLine, someRow, positive, none⟩
    have rowCnt : 0 < table.rowCnt.toNat := Nat.pos_of_mul_pos_left positive
    exact ⟨positive, (no_edge_iff rowCnt narrow positive someLine someRow).mp none⟩
  · rintro ⟨positive, heads, goesOn⟩
    have rowCnt : 0 < table.rowCnt.toNat := Nat.pos_of_mul_pos_left positive
    obtain ⟨someLine, someRow⟩ := heads.nonempty
    exact ⟨someLine, someRow, positive,
      (no_edge_iff rowCnt narrow positive someLine someRow).mpr ⟨heads, goesOn⟩⟩

/-- A gap in the middle of the lines. -/
theorem tableFrameInit_refuses_gap :
    ∃ enough, ∀ turns ≥ enough, (bspLcdTableFrameInit (listNodes [0, 2] [0])
      (listTable [0, 2] [0] 2 1) turns blankSheet).2 = .error .table := by
  apply (tableFrameInit_refuses_iff (listNodes_lists [0, 2] [0] 2 1) (by decide)
    (.inl ⟨1, by decide, by decide⟩) blankSheet).mpr
  refine ⟨by decide, by decide, ?_, ?_⟩
  · intro l below _ y _ k more
    have one : (listTable [0, 2] [0] 2 1).rowCnt.toNat = 1 := by decide
    omega
  · intro l below y _
    have two : (listTable [0, 2] [0] 2 1).lineCnt.toNat = 2 := by decide
    obtain rfl : l = 0 := by omega
    decide

/-- With a line too few, a null pointer is followed. -/
theorem tableFrameInit_follows_null :
    TableLists (listNodes [0] [0]) (listTable [0] [0] 2 1) [0] [0] ∧
      (listTable [0] [0] 2 1).product < 2 ^ 16 ∧
      1 < (listTable [0] [0] 2 1).lineCnt.toNat ∧ 1 ∉ lineNums (listNodes [0] [0]) [0] ∧
      ∀ turns ≥ 2, (bspLcdTableFrameInit (listNodes [0] [0]) (listTable [0] [0] 2 1) turns
        blankSheet).2 = .error .null := by
  have lists : TableLists (listNodes [0] [0]) (listTable [0] [0] 2 1) [0] [0] :=
    listNodes_lists [0] [0] 2 1
  refine ⟨lists, by decide, by decide, by decide, ?_⟩
  intro turns enough
  obtain ⟨left, rfl⟩ := Nat.exists_eq_add_of_le' enough
  have inside : ∀ n ≤ 1, n % 2 ^ 16 < (listTable [0] [0] 2 1).product := by decide
  have reached : Reached (listNodes [0] [0]) (listTable [0] [0] 2 1) [0] [0] 1 0 0 :=
    ⟨by decide, by decide⟩
  have lost : goTo (lineNums (listNodes [0] [0]) [0]) 0 (lineWant (listTable [0] [0] 2 1) 1) = none :=
    by decide
  have edge : EdgeAt (listNodes [0] [0]) (listTable [0] [0] 2 1) [0] [0] 1 0 0 := by decide
  obtain ⟨s', ends, -⟩ := init_lost blankSheet lists (by decide) (by decide) (by decide) inside reached
    (.inl lost) left (by simp) (by simp)
  rw [if_pos edge] at ends
  exact congrArg Prod.snd ends

end Malformed

/-! ## Many cells -/

section Many

variable {nodes : TableNodes ι κ} {table : Table ι κ} {lines : List ι} {rows : List κ} {n i j : Nat}

/-- After the last cell of 2^16 the counter wraps, and the first cell is found once more. -/
theorem Reached.wrapped (reached : Reached nodes table lines rows (2 ^ 16) i j)
    (someLine : lines ≠ []) (someRow : rows ≠ []) :
    goTo (lineNums nodes lines) i (lineWant table (2 ^ 16)) ≠ none ∧
      goTo (rowNums nodes rows) j (rowWant table (2 ^ 16)) ≠ none := by
  have lineFirst : lineWant table (2 ^ 16) = 0 ∧ lineWant table 0 = 0 := by simp [lineWant]
  have rowFirst : rowWant table (2 ^ 16) = 0 ∧ rowWant table 0 = 0 := by simp [rowWant]
  have line := trail_inside (by simpa [lineNums] using someLine) reached.line
  have row := trail_inside (by simpa [rowNums] using someRow) reached.row
  constructor
  · obtain ⟨k, first⟩ := trail_before reached.line (Nat.one_le_two_pow : 1 ≤ 2 ^ 16)
    rw [trail, trail, Option.bind_some, lineFirst.2] at first
    obtain ⟨m, found⟩ := goTo_zero first line
    rw [lineFirst.1, found]
    exact Option.some_ne_none m
  · obtain ⟨k, first⟩ := trail_before reached.row (Nat.one_le_two_pow : 1 ≤ 2 ^ 16)
    rw [trail, trail, Option.bind_some, rowFirst.2] at first
    obtain ⟨m, found⟩ := goTo_zero first row
    rw [rowFirst.1, found]
    exact Option.some_ne_none m

/-- With enough turns the function returns, and it has finished each cell once. -/
def Completes (nodes : TableNodes ι κ) (table : Table ι κ) (s : Sheet) : Prop :=
  ∃ enough, ∀ turns ≥ enough, ∃ s' r, bspLcdTableFrameInit nodes table turns s = (s', r) ∧
    (r = .ok () ∨ r = .error .table) ∧ s'.filled.Perm (List.range table.product)

variable {s : Sheet}

theorem Completes.not_stopped (completes : Completes nodes table s) {stop : Stop}
    (other : stop ≠ .table) (left : Nat)
    (stops : ∀ turns ≥ left, (bspLcdTableFrameInit nodes table turns s).2 = .error stop) : False := by
  obtain ⟨enough, completes⟩ := completes
  obtain ⟨s', r, ends, returns, -⟩ := completes _ (Nat.le_max_left enough left)
  have stopped := stops _ (Nat.le_max_right enough left)
  rw [ends] at stopped
  rcases returns with rfl | rfl
  · cases stopped
  · cases stopped
    exact other rfl

theorem Completes.nonempty (completes : Completes nodes table s)
    (lists : TableLists nodes table lines rows) :
    lines ≠ [] ∧ rows ≠ [] ∧ table.product < 2 ^ 31 := by
  have someLine : lines ≠ [] := by
    intro nil
    subst nil
    exact completes.not_stopped (by decide : Stop.null ≠ .table) 0
      fun turns _ => by rw [init_lineNil s lists]
  have someRow : rows ≠ [] := by
    intro nil
    subst nil
    exact completes.not_stopped (by decide : Stop.null ≠ .table) 0
      fun turns _ => by rw [init_rowNil s lists]
  refine ⟨someLine, someRow, ?_⟩
  by_contra large
  exact completes.not_stopped (by decide : Stop.overflow ≠ .table) 0
    fun turns _ => by rw [init_overflow s lists someLine someRow (Nat.le_of_not_lt large)]

/-- A round that fails leaves cells unfinished, or comes after some have been finished twice. -/
theorem Completes.not_lost (completes : Completes nodes table s)
    (lists : TableLists nodes table lines rows) (fresh : s.filled = [])
    (inside : ∀ m ≤ n, m % 2 ^ 16 < table.product) (reached : Reached nodes table lines rows n i j)
    (lost : goTo (lineNums nodes lines) i (lineWant table n) = none ∨
      goTo (rowNums nodes rows) j (rowWant table n) = none) : False := by
  obtain ⟨someLine, someRow, small⟩ := completes.nonempty lists
  obtain ⟨enough, completes⟩ := completes
  obtain ⟨s₁, ends₁, filled⟩ := init_lost s lists someLine someRow small inside reached lost
    (enough + lines.length + rows.length) (by omega) (by omega)
  obtain ⟨s', r, ends, -, once⟩ := completes _
    (by omega : enough + lines.length + rows.length + 1 + n ≥ enough)
  cases ends₁.symm.trans ends
  rw [filled, fresh, List.nil_append] at once
  have all : n = table.product := by simpa using once.length_eq
  have last := inside n (Nat.le_refl n)
  have narrow : table.product ≤ 2 ^ 16 := by
    by_contra wide
    have beyond := once.mem_iff.mpr (List.mem_range.mpr (Nat.lt_of_not_le wide))
    obtain ⟨m, -, same⟩ := List.mem_map.mp beyond
    exact absurd (mod_coordinate m) (by omega)
  have whole : n = 2 ^ 16 := by
    by_contra less
    rw [Nat.mod_eq_of_lt (by omega)] at last
    omega
  subst whole
  obtain ⟨line, row⟩ := reached.wrapped someLine someRow
  rcases lost with none | none
  · exact line none
  · exact row none

theorem Completes.reached (completes : Completes nodes table s)
    (lists : TableLists nodes table lines rows) (fresh : s.filled = []) :
    table.product < 2 ^ 16 ∧ ∃ i j, Reached nodes table lines rows table.product i j := by
  obtain ⟨someLine, someRow, small⟩ := completes.nonempty lists
  rcases Nat.lt_or_ge table.product (2 ^ 16) with narrow | wide
  · refine ⟨narrow, ?_⟩
    rcases reached_or_lost nodes table lines rows table.product with
      all | ⟨m, below, i, j, reached, lost⟩
    · exact all
    · apply (completes.not_lost lists fresh _ reached lost).elim
      intro k order
      exact (Nat.mod_le k _).trans_lt (order.trans_lt below)
  · exfalso
    have inside : ∀ m, m % 2 ^ 16 < table.product := fun m => (mod_coordinate m).trans_le wide
    by_cases goes : ∀ n, ∃ i j, Reached nodes table lines rows n i j
    · apply completes.not_stopped (by decide : Stop.turns ≠ .table) (lines.length + rows.length)
      intro turns enough
      obtain ⟨i, j, reached⟩ := goes turns
      exact init_wraps _ lists someLine someRow small wide reached (by omega) (by omega)
    · obtain ⟨n, ends⟩ := not_forall.mp goes
      rcases reached_or_lost nodes table lines rows n with all | ⟨m, -, i, j, reached, lost⟩
      · exact ends all
      · exact completes.not_lost lists fresh (fun k _ => inside k) reached lost

theorem completes_of_reached (lists : TableLists nodes table lines rows) (fresh : s.filled = [])
    (someLine : lines ≠ []) (someRow : rows ≠ []) (narrow : table.product < 2 ^ 16)
    (reached : Reached nodes table lines rows table.product i j) : Completes nodes table s := by
  refine ⟨lines.length + rows.length + table.product, ?_⟩
  intro turns enough
  obtain ⟨left, rfl⟩ := Nat.exists_eq_add_of_le' enough
  obtain ⟨ls, rs, -, -, ends⟩ := init_ends s lists someLine someRow narrow reached
    (left + (lines.length + rows.length)) (by omega) (by omega)
  have unwrapped : (List.range table.product).map (· % 2 ^ 16) = List.range table.product := by
    have same : ∀ k ∈ List.range table.product, k % 2 ^ 16 = id k :=
      fun k member => Nat.mod_eq_of_lt ((List.mem_range.mp member).trans narrow)
    rw [List.map_congr_left same, List.map_id]
  refine ⟨_, _, by rw [← Nat.add_assoc]; exact ends, .inl rfl, ?_⟩
  rw [rounds_filled, fresh, List.nil_append, unwrapped]

/-- The function finishes each cell once and returns, exactly if the counter can reach the number
    of cells and the lists hold the numbers in order. -/
theorem tableFrameInit_completes_iff (lists : TableLists nodes table lines rows)
    (cells : Nat → TableCell) (panel : Panel) :
    Completes nodes table { cells := cells, panel := panel, filled := [] } ↔
      lines ≠ [] ∧ rows ≠ [] ∧ table.product < 2 ^ 16 ∧
        (0 < table.product →
          HeadsZero nodes lines rows ∧ InOrder nodes table lines rows) := by
  constructor
  · intro completes
    obtain ⟨someLine, someRow, -⟩ := completes.nonempty lists
    obtain ⟨narrow, reached⟩ := completes.reached lists rfl
    refine ⟨someLine, someRow, narrow, ?_⟩
    intro positive
    exact (reached_product_iff (Nat.pos_of_mul_pos_left positive) narrow positive).mp reached
  · rintro ⟨someLine, someRow, narrow, ordered⟩
    obtain ⟨i, j, reached⟩ : ∃ i j, Reached nodes table lines rows table.product i j := by
      rcases Nat.eq_zero_or_pos table.product with zero | positive
      · rw [zero]
        exact ⟨0, 0, rfl, rfl⟩
      · exact (reached_product_iff (Nat.pos_of_mul_pos_left positive) narrow positive).mpr
          (ordered positive)
    exact completes_of_reached lists rfl someLine someRow narrow reached

theorem tableFrameInit_completes_two :
    Completes (listNodes [0, 1] [0, 1]) (listTable [0, 1] [0, 1] 2 2)
      { cells := blankSheet.cells, panel := blankSheet.panel, filled := [] } := by
  apply (tableFrameInit_completes_iff (listNodes_lists [0, 1] [0, 1] 2 2) _ _).mpr
  refine ⟨by decide, by decide, by decide, fun _ => ⟨by decide, ?_⟩⟩
  have once : ∀ q, (rowNums (listNodes [0, 1] [0, 1]) (List.range [0, 1].length))[q]? = some 0 →
      q = 0 := by
    intro q there
    cases q with
    | zero => rfl
    | succ q =>
        cases q with
        | zero => exact absurd there (by decide)
        | succ q => cases there
  exact (inOrder_iff_of_once once (by decide)).mpr ⟨by decide, by decide⟩

/-- 256 lines and 256 rows: 2^16 cells, which the counter never reaches. -/
theorem tableFrameInit_never_ends :
    let nums := List.range 256
    (∀ k < (listTable nums nums 256 256).lineCnt.toNat,
        k ∈ lineNums (listNodes nums nums) (List.range nums.length)) ∧
      (∀ k < (listTable nums nums 256 256).rowCnt.toNat,
        k ∈ rowNums (listNodes nums nums) (List.range nums.length)) ∧
      TableLists (listNodes nums nums) (listTable nums nums 256 256) (List.range nums.length)
        (List.range nums.length) ∧
      ¬ Completes (listNodes nums nums) (listTable nums nums 256 256) blankSheet := by
  intro nums
  have narrow : ∀ k ∈ nums, k < 2 ^ 16 := by
    intro k member
    exact (List.mem_range.mp member).trans (by decide)
  have lists := listNodes_lists nums nums 256 256
  refine ⟨?_, ?_, lists, ?_⟩
  · intro k below
    have order : lineNums (listNodes nums nums) (List.range nums.length) = nums :=
      getD_range narrow
    rw [order]
    exact List.mem_range.mpr below
  · intro k below
    have order : rowNums (listNodes nums nums) (List.range nums.length) = nums :=
      getD_range narrow
    rw [order]
    exact List.mem_range.mpr below
  · intro completes
    have wide := (completes.reached lists rfl).1
    exact absurd wide (by decide)

end Many

end ExploreF407.Lcd
