import ExploreF407.Lcd.TableRun
import ExploreF407.Lib.InOrder
import ExploreF407.Lib.Lines

/-! # The order of the lines and rows

Whether the searches of `BSP_LCDTableFrameInit` find their numbers, and where they begin, is
decided by the order in which the numbers stand in the two lists.
-/

namespace ExploreF407.Lcd

open Linked Lines

variable {ι κ : Type*} (nodes : TableNodes ι κ) (table : Table ι κ) (lines : List ι) (rows : List κ)

/-- The rows of line `l` are looked for from position `y` of the row list on. This is the first
    position, unless the list holds number 0 more than once. -/
def RowsFrom (l y : Nat) : Prop :=
  RoundAt 0 (List.range table.rowCnt.toNat) (rowNums nodes rows) l y

def HeadsZero : Prop :=
  (lineNums nodes lines).head? = some 0 ∧ (rowNums nodes rows).head? = some 0

instance decidableHeadsZero : Decidable (HeadsZero nodes lines rows) :=
  inferInstanceAs (Decidable (_ ∧ _))

/-- Each list holds its numbers in order, the row list for every line. -/
structure InOrder : Prop where
  lineOrder : (List.range table.lineCnt.toNat).Sublist (lineNums nodes lines)
  rowOrder : ∀ l < table.lineCnt.toNat, ∀ y, RowsFrom nodes table rows l y →
    (List.range table.rowCnt.toNat).Sublist ((rowNums nodes rows).drop y)

/-- The numbers up to one that others follow do not come to their end at the end of a list. -/
structure GoesOn : Prop where
  rowsGoOn : ∀ l < table.lineCnt.toNat, (List.range (l + 1)).Sublist (lineNums nodes lines) →
    ∀ y, RowsFrom nodes table rows l y → ∀ k, k + 1 < table.rowCnt.toNat →
      ¬ NeedsLast (List.range (k + 1)) ((rowNums nodes rows).drop y)
  linesGoOn : ∀ l, l + 1 < table.lineCnt.toNat → ∀ y, RowsFrom nodes table rows (l + 1) y →
    ¬ NeedsLast (List.range (l + 1)) (lineNums nodes lines)

/-- Where the cursors stand that have found the line and the row of cell `m`. -/
structure Stand (m i j : Nat) : Prop where
  line : Ends (List.range (m / table.rowCnt.toNat + 1)) (lineNums nodes lines) 0 i
  row : ∃ y, RowsFrom nodes table rows (m / table.rowCnt.toNat) y ∧
    Ends (List.range (m % table.rowCnt.toNat + 1)) (rowNums nodes rows) y j

variable {nodes table lines rows} {m i j i' j' y : Nat}

/-! ## Where the rows of a line begin -/

theorem RowsFrom.last {l : Nat} (round : RowsFrom nodes table rows (l + 1) y) :
    ∃ y', RowsFrom nodes table rows l y' ∧
      (List.range table.rowCnt.toNat).Sublist ((rowNums nodes rows).drop y') := by
  cases round with
  | next before complete _ => exact ⟨_, before, complete⟩

theorem RowsFrom.exists_next {l : Nat} (round : RowsFrom nodes table rows l y)
    (heads : HeadsZero nodes lines rows) (someRow : 0 < table.rowCnt.toNat)
    (complete : (List.range table.rowCnt.toNat).Sublist ((rowNums nodes rows).drop y)) :
    ∃ y', RowsFrom nodes table rows (l + 1) y' := by
  apply RoundAt.exists_next round _ _ complete
  · rw [← List.head?_eq_getElem?]
    exact heads.2
  · exact List.range_eq_nil.not.mpr someRow.ne'

theorem InOrder.exists_rowsFrom (order : InOrder nodes table lines rows)
    (heads : HeadsZero nodes lines rows) (someRow : 0 < table.rowCnt.toNat) {l : Nat}
    (inside : l < table.lineCnt.toNat) : ∃ y, RowsFrom nodes table rows l y := by
  induction l with
  | zero => exact ⟨0, .first⟩
  | succ l ih =>
      have before : l < table.lineCnt.toNat := Nat.lt_of_succ_lt inside
      obtain ⟨y, round⟩ := ih before
      exact round.exists_next heads someRow (order.rowOrder l before y round)

/-- Where the row list holds number 0 once, all lines find their rows from its first node on. -/
theorem inOrder_iff_of_once (once : ∀ q, (rowNums nodes rows)[q]? = some 0 → q = 0)
    (someLine : 0 < table.lineCnt.toNat) :
    InOrder nodes table lines rows ↔
      (List.range table.lineCnt.toNat).Sublist (lineNums nodes lines) ∧
        (List.range table.rowCnt.toNat).Sublist (rowNums nodes rows) := by
  constructor
  · intro order
    exact ⟨order.lineOrder, order.rowOrder 0 someLine 0 .first⟩
  · rintro ⟨line, row⟩
    refine ⟨line, ?_⟩
    intro l _ y round
    rw [RoundAt.eq_zero once round]
    exact row

theorem HeadsZero.nonempty (heads : HeadsZero nodes lines rows) : lines ≠ [] ∧ rows ≠ [] := by
  constructor
  · rintro rfl
    cases heads.1
  · rintro rfl
    cases heads.2

/-! ## From cell to cell -/

theorem Reached.next (reached : Reached nodes table lines rows m i j)
    (line : goTo (lineNums nodes lines) i (lineWant table m) = some i')
    (row : goTo (rowNums nodes rows) j (rowWant table m) = some j') :
    Reached nodes table lines rows (m + 1) i' j' where
  line := by rw [trail, reached.line, Option.bind_some, line]
  row := by rw [trail, reached.row, Option.bind_some, row]

theorem Reached.last (reached : Reached nodes table lines rows (m + 1) i' j') :
    ∃ i j, Reached nodes table lines rows m i j ∧
      goTo (lineNums nodes lines) i (lineWant table m) = some i' ∧
      goTo (rowNums nodes rows) j (rowWant table m) = some j' := by
  obtain ⟨i, line, lineFound⟩ := Option.bind_eq_some_iff.mp reached.line
  obtain ⟨j, row, rowFound⟩ := Option.bind_eq_some_iff.mp reached.row
  exact ⟨i, j, ⟨line, row⟩, lineFound, rowFound⟩

theorem Reached.before {n : Nat} (reached : Reached nodes table lines rows n i j) (order : m ≤ n) :
    ∃ i j, Reached nodes table lines rows m i j := by
  obtain ⟨i, line⟩ := trail_before reached.line order
  obtain ⟨j, row⟩ := trail_before reached.row order
  exact ⟨i, j, line, row⟩

theorem Reached.numbers (reached : Reached nodes table lines rows (m + 1) i j)
    (below : m < 2 ^ 16) :
    (lineNums nodes lines)[i]? = some (m / table.rowCnt.toNat) ∧
      (rowNums nodes rows)[j]? = some (m % table.rowCnt.toNat) := by
  obtain ⟨lineEq, rowEq⟩ := wants_unwrapped table below
  exact ⟨lineEq ▸ of_trail reached.line, rowEq ▸ of_trail reached.row⟩

theorem wants_zero (table : Table ι κ) : lineWant table 0 = 0 ∧ rowWant table 0 = 0 := by
  simp [lineWant, rowWant]

theorem Reached.heads (reached : Reached nodes table lines rows (m + 1) i j) :
    HeadsZero nodes lines rows := by
  obtain ⟨i, j, first⟩ := reached.before (Nat.le_add_left 1 m)
  obtain ⟨_, _, ⟨line, row⟩, lineFound, rowFound⟩ := first.last
  cases line
  cases row
  rw [(wants_zero table).1] at lineFound
  rw [(wants_zero table).2] at rowFound
  rw [HeadsZero, List.head?_eq_getElem?, List.head?_eq_getElem?]
  exact ⟨head_of_goTo_zero lineFound, head_of_goTo_zero rowFound⟩

theorem HeadsZero.reached (heads : HeadsZero nodes lines rows) :
    Reached nodes table lines rows 1 0 0 := by
  rw [HeadsZero, List.head?_eq_getElem?, List.head?_eq_getElem?] at heads
  have start : Reached nodes table lines rows 0 0 0 := ⟨rfl, rfl⟩
  apply start.next
  · rw [(wants_zero table).1]
    exact goTo_here heads.1
  · rw [(wants_zero table).2]
    exact goTo_here heads.2

theorem HeadsZero.stand (heads : HeadsZero nodes lines rows) : Stand nodes table lines rows 0 0 0 := by
  rw [HeadsZero, List.head?_eq_getElem?, List.head?_eq_getElem?] at heads
  constructor
  · rw [Nat.zero_div]
    exact ends_singleton heads.1
  · refine ⟨0, ?_, ?_⟩
    · rw [Nat.zero_div]
      exact .first
    · rw [Nat.zero_mod]
      exact ends_singleton heads.2

theorem Stand.ends (stand : Stand nodes table lines rows m i j)
    (round : RowsFrom nodes table rows (m / table.rowCnt.toNat) y) :
    Ends (List.range (m % table.rowCnt.toNat + 1)) (rowNums nodes rows) y j := by
  obtain ⟨y', round', ends⟩ := stand.row
  rwa [round.unique round']

/-- The cursors after a search stand where the numbers looked for so far come to their end. -/
theorem Stand.next (someRow : 0 < table.rowCnt.toNat) (below : m + 1 < 2 ^ 16)
    (stand : Stand nodes table lines rows m i j)
    (lineHere : (lineNums nodes lines)[i]? = some (m / table.rowCnt.toNat))
    (rowHere : (rowNums nodes rows)[j]? = some (m % table.rowCnt.toNat))
    (lineFound : goTo (lineNums nodes lines) i (lineWant table (m + 1)) = some i')
    (rowFound : goTo (rowNums nodes rows) j (rowWant table (m + 1)) = some j') :
    Stand nodes table lines rows (m + 1) i' j' := by
  obtain ⟨lineEq, rowEq⟩ := wants_unwrapped table below
  rw [lineEq] at lineFound
  rw [rowEq] at rowFound
  obtain ⟨y, round, rowEnds⟩ := stand.row
  have place : m % table.rowCnt.toNat + 1 ≤ table.rowCnt.toNat := Nat.mod_lt m someRow
  rcases place.lt_or_eq with more | last
  · obtain ⟨sameLine, nextRow⟩ := next_row more
    rw [sameLine, goTo_here lineHere] at lineFound
    cases lineFound
    rw [nextRow] at rowFound
    refine ⟨?_, y, ?_, ?_⟩
    · rw [sameLine]
      exact stand.line
    · rwa [sameLine]
    · rw [nextRow, List.range_succ]
      exact rowEnds.goTo_next rowHere (Nat.lt_succ_self _) rowFound
  · obtain ⟨nextLine, firstRow⟩ := next_column last
    rw [nextLine] at lineFound
    rw [firstRow] at rowFound
    refine ⟨?_, j', ?_, ?_⟩
    · rw [nextLine, List.range_succ]
      exact stand.line.goTo_next lineHere (Nat.lt_succ_self _) lineFound
    · rw [nextLine]
      rw [last] at rowEnds
      exact round.goTo_next rowEnds rowHere (Nat.zero_le _) rowFound
    · rw [firstRow]
      exact ends_singleton (of_goTo rowFound)

theorem Reached.stand (someRow : 0 < table.rowCnt.toNat) (below : m < 2 ^ 16)
    (reached : Reached nodes table lines rows (m + 1) i j) : Stand nodes table lines rows m i j := by
  induction m generalizing i j with
  | zero =>
      obtain ⟨line, row⟩ := (reached.heads.reached : Reached nodes table lines rows 1 0 0)
      cases line.symm.trans reached.line
      cases row.symm.trans reached.row
      exact reached.heads.stand
  | succ m ih =>
      obtain ⟨i₀, j₀, before, line, row⟩ := reached.last
      have below' : m < 2 ^ 16 := Nat.lt_of_succ_lt below
      obtain ⟨lineHere, rowHere⟩ := before.numbers below'
      exact (ih below' before).next someRow below lineHere rowHere line row

theorem exists_reached (heads : HeadsZero nodes lines rows) (someRow : 0 < table.rowCnt.toNat)
    (below : m < 2 ^ 16)
    (line : (List.range (m / table.rowCnt.toNat + 1)).Sublist (lineNums nodes lines))
    (round : RowsFrom nodes table rows (m / table.rowCnt.toNat) y)
    (row : (List.range (m % table.rowCnt.toNat + 1)).Sublist ((rowNums nodes rows).drop y)) :
    ∃ i j, Reached nodes table lines rows (m + 1) i j := by
  induction m generalizing y with
  | zero => exact ⟨0, 0, heads.reached⟩
  | succ m ih =>
      have below' : m < 2 ^ 16 := Nat.lt_of_succ_lt below
      have shorter (k : Nat) : (List.range (k + 1)).Sublist (List.range (k + 1 + 1)) :=
        List.range_sublist.mpr (Nat.le_succ _)
      obtain ⟨lineEq, rowEq⟩ := wants_unwrapped table below
      have place : m % table.rowCnt.toNat + 1 ≤ table.rowCnt.toNat := Nat.mod_lt m someRow
      rcases place.lt_or_eq with more | last
      · obtain ⟨sameLine, nextRow⟩ := next_row more
        rw [sameLine] at line round
        rw [nextRow] at row
        obtain ⟨i, j, reached⟩ := ih below' line round ((shorter _).trans row)
        obtain ⟨lineHere, rowHere⟩ := reached.numbers below'
        have ends := (reached.stand someRow below').ends round
        rw [List.range_succ] at row
        obtain ⟨j', rowFound⟩ := ends.exists_goTo rowHere (Nat.lt_succ_self _) row
        refine ⟨i, j', reached.next ?_ ?_⟩
        · rw [lineEq, sameLine]
          exact goTo_here lineHere
        · rwa [rowEq, nextRow]
      · obtain ⟨nextLine, firstRow⟩ := next_column last
        rw [nextLine] at line round
        obtain ⟨y₀, round₀, complete⟩ := RowsFrom.last round
        obtain ⟨i, j, reached⟩ := ih below' ((shorter _).trans line) round₀ (by rwa [last])
        obtain ⟨lineHere, rowHere⟩ := reached.numbers below'
        have stand := reached.stand someRow below'
        rw [List.range_succ] at line
        obtain ⟨i', lineFound⟩ := stand.line.exists_goTo lineHere (Nat.lt_succ_self _) line
        obtain ⟨j', rowFound⟩ := round.exists_goTo
          (fun y before => last ▸ stand.ends before) rowHere (Nat.zero_le _)
        refine ⟨i', j', reached.next ?_ ?_⟩
        · rwa [lineEq, nextLine]
        · rwa [rowEq, firstRow]

/-! ## Searches from the end of a list -/

/-- In front of the first cell a search begins at the end of its list exactly if a list does not
    begin with number 0. -/
theorem edgeAt_first_iff (someLine : lines ≠ []) (someRow : rows ≠ []) :
    EdgeAt nodes table lines rows 0 0 0 ↔ ¬ HeadsZero nodes lines rows := by
  obtain ⟨line, lineHere⟩ : ∃ num, (lineNums nodes lines)[0]? = some num := by
    cases lines with
    | nil => exact absurd rfl someLine
    | cons p lines => exact ⟨_, rfl⟩
  obtain ⟨row, rowHere⟩ : ∃ num, (rowNums nodes rows)[0]? = some num := by
    cases rows with
    | nil => exact absurd rfl someRow
    | cons q rows => exact ⟨_, rfl⟩
  rw [EdgeAt, HeadsZero, List.head?_eq_getElem?, List.head?_eq_getElem?, (wants_zero table).1,
    (wants_zero table).2, lineHere, rowHere]
  cases line with
  | succ line => simp [atEdge_back lineHere (Nat.succ_pos line)]
  | zero =>
      rw [goTo_here lineHere]
      cases row with
      | succ row => simp [atEdge_back rowHere (Nat.succ_pos row)]
      | zero => simp [not_atEdge_here lineHere, not_atEdge_here rowHere]

variable (someRow : 0 < table.rowCnt.toNat) (below : m + 1 < 2 ^ 16)
  (reached : Reached nodes table lines rows (m + 1) i j)

include someRow below reached

theorem Reached.edgeAt_row_iff (more : m % table.rowCnt.toNat + 1 < table.rowCnt.toNat)
    (round : RowsFrom nodes table rows (m / table.rowCnt.toNat) y) :
    EdgeAt nodes table lines rows (m + 1) i j ↔
      NeedsLast (List.range (m % table.rowCnt.toNat + 1)) ((rowNums nodes rows).drop y) := by
  have below' : m < 2 ^ 16 := Nat.lt_of_succ_lt below
  obtain ⟨lineHere, rowHere⟩ := reached.numbers below'
  obtain ⟨lineEq, rowEq⟩ := wants_unwrapped table below
  obtain ⟨sameLine, nextRow⟩ := next_row more
  rw [EdgeAt, lineEq, rowEq, sameLine, nextRow, goTo_here lineHere,
    ((reached.stand someRow below').ends round).needsLast_iff,
    atEdge_ahead rowHere (Nat.lt_succ_self _)]
  simp [not_atEdge_here lineHere]

/-- Behind the last cell of a line. The row list begins with the number that is then looked for. -/
theorem Reached.edgeAt_line_iff (last : m % table.rowCnt.toNat + 1 = table.rowCnt.toNat) :
    EdgeAt nodes table lines rows (m + 1) i j ↔
      NeedsLast (List.range (m / table.rowCnt.toNat + 1)) (lineNums nodes lines) := by
  have below' : m < 2 ^ 16 := Nat.lt_of_succ_lt below
  obtain ⟨lineHere, rowHere⟩ := reached.numbers below'
  obtain ⟨lineEq, rowEq⟩ := wants_unwrapped table below
  obtain ⟨nextLine, firstRow⟩ := next_column last
  have back : ¬ AtEdge (rowNums nodes rows) j 0 := by
    rcases Nat.eq_zero_or_pos (m % table.rowCnt.toNat) with zero | positive
    · rw [zero] at rowHere
      exact not_atEdge_here rowHere
    · rw [atEdge_back rowHere positive]
      rintro rfl
      have head := reached.heads.2
      rw [List.head?_eq_getElem?, rowHere] at head
      have zero := Option.some.inj head
      omega
  have ends := (reached.stand someRow below').line.needsLast_iff
  rw [List.drop_zero] at ends
  rw [EdgeAt, lineEq, rowEq, nextLine, firstRow, ends, atEdge_ahead lineHere (Nat.lt_succ_self _)]
  simp [back]

omit someRow below reached

/-! ## All cells -/

variable (someRow : 0 < table.rowCnt.toNat) (narrow : table.product < 2 ^ 16)

include someRow narrow

theorem Reached.inOrder (reached : Reached nodes table lines rows table.product i j) :
    InOrder nodes table lines rows := by
  have stands : ∀ l < table.lineCnt.toNat, ∀ k < table.rowCnt.toNat,
      ∃ i j, Stand nodes table lines rows (l * table.rowCnt.toNat + k) i j := by
    intro l line k row
    have inside := (cell_index table line row).1
    obtain ⟨i, j, here⟩ := reached.before inside
    exact ⟨i, j, here.stand someRow (inside.trans narrow)⟩
  obtain ⟨R, rowCnt⟩ := Nat.exists_eq_succ_of_ne_zero someRow.ne'
  have lastRow : R < table.rowCnt.toNat := rowCnt ▸ Nat.lt_succ_self R
  constructor
  · cases lineCnt : table.lineCnt.toNat with
    | zero => exact List.nil_sublist _
    | succ L =>
        have lastLine : L < table.lineCnt.toNat := lineCnt ▸ Nat.lt_succ_self L
        obtain ⟨i, j, line, -⟩ := stands L lastLine R lastRow
        rw [(cell_index table lastLine lastRow).2.1] at line
        exact line.sublist_drop
  · intro l inside y round
    obtain ⟨i, j, stand⟩ := stands l inside R lastRow
    obtain ⟨-, column, rest⟩ := cell_index table inside lastRow
    have ends := stand.ends (column.symm ▸ round)
    rw [rest, ← Nat.succ_eq_add_one, ← rowCnt] at ends
    exact ends.sublist_drop

theorem reached_product_iff (positive : 0 < table.product) :
    (∃ i j, Reached nodes table lines rows table.product i j) ↔
      HeadsZero nodes lines rows ∧ InOrder nodes table lines rows := by
  obtain ⟨m, product⟩ := Nat.exists_eq_succ_of_ne_zero positive.ne'
  constructor
  · rintro ⟨i, j, reached⟩
    refine ⟨?_, reached.inOrder someRow narrow⟩
    rw [product] at reached
    exact reached.heads
  · rintro ⟨heads, order⟩
    have someLine : 0 < table.lineCnt.toNat := Nat.pos_of_mul_pos_right positive
    obtain ⟨L, lineCnt⟩ := Nat.exists_eq_succ_of_ne_zero someLine.ne'
    obtain ⟨R, rowCnt⟩ := Nat.exists_eq_succ_of_ne_zero someRow.ne'
    have lastLine : L < table.lineCnt.toNat := lineCnt ▸ Nat.lt_succ_self L
    have lastRow : R < table.rowCnt.toNat := rowCnt ▸ Nat.lt_succ_self R
    obtain ⟨inside, column, rest⟩ := cell_index table lastLine lastRow
    have whole : L * table.rowCnt.toNat + R + 1 = table.product := by
      rw [Table.product, lineCnt, rowCnt]
      simp only [Nat.succ_eq_add_one]
      ring
    obtain ⟨y, round⟩ := order.exists_rowsFrom heads someRow lastLine
    rw [← whole]
    apply exists_reached heads someRow (inside.trans narrow) (y := y)
    · rw [column, ← Nat.succ_eq_add_one, ← lineCnt]
      exact order.lineOrder
    · rwa [column]
    · rw [rest, ← Nat.succ_eq_add_one, ← rowCnt]
      exact order.rowOrder L lastLine y round

theorem GoesOn.no_edge (goesOn : GoesOn nodes table lines rows) (below : m + 1 < table.product)
    (reached : Reached nodes table lines rows (m + 1) i j) :
    ¬ EdgeAt nodes table lines rows (m + 1) i j := by
  have inside : m < 2 ^ 16 := (Nat.lt_of_succ_lt below).trans narrow
  have stand := reached.stand someRow inside
  obtain ⟨y, round, ends⟩ := stand.row
  have place : m % table.rowCnt.toNat + 1 ≤ table.rowCnt.toNat := Nat.mod_lt m someRow
  rcases place.lt_or_eq with more | last
  · rw [reached.edgeAt_row_iff someRow (below.trans narrow) more round]
    apply goesOn.rowsGoOn _ ?_ stand.line.sublist_drop y round _ more
    exact Nat.div_lt_of_lt_mul (Nat.mul_comm _ _ ▸ Nat.lt_of_succ_lt below)
  · rw [reached.edgeAt_line_iff someRow (below.trans narrow) last]
    have line : m / table.rowCnt.toNat + 1 < table.lineCnt.toNat := by
      rw [← (next_column last).1]
      exact Nat.div_lt_of_lt_mul (Nat.mul_comm _ _ ▸ below)
    rw [last] at ends
    obtain ⟨y', next⟩ := round.exists_next reached.heads someRow ends.sublist_drop
    exact goesOn.linesGoOn _ line y' next

theorem HeadsZero.goesOn (heads : HeadsZero nodes lines rows)
    (none : ∀ n < table.product, ∀ i j, Reached nodes table lines rows n i j →
      ¬ EdgeAt nodes table lines rows n i j) : GoesOn nodes table lines rows := by
  constructor
  · intro l line inOrder y round k row needs
    obtain ⟨inside, column, rest⟩ := cell_index table line (Nat.lt_of_succ_lt row)
    have next := (cell_index table line row).1
    rw [← Nat.add_assoc] at next
    generalize l * table.rowCnt.toNat + k = m at *
    subst column rest
    obtain ⟨i, j, reached⟩ := exists_reached heads someRow (inside.trans narrow) inOrder round
      needs.1
    exact none _ next i j reached
      ((reached.edgeAt_row_iff someRow (next.trans narrow) row round).mpr needs)
  · intro l line y round needs
    obtain ⟨R, rowCnt⟩ := Nat.exists_eq_succ_of_ne_zero someRow.ne'
    obtain ⟨inside, column, rest⟩ :=
      cell_index table (Nat.lt_of_succ_lt line) (rowCnt ▸ Nat.lt_succ_self R)
    have next : l * table.rowCnt.toNat + R + 1 < table.product := by
      have first := (cell_index table line someRow).1
      rw [rowCnt] at first ⊢
      linarith
    rw [← Nat.succ_inj, ← rowCnt] at rest
    generalize l * table.rowCnt.toNat + R = m at *
    subst column
    obtain ⟨y₀, round₀, complete⟩ := round.last
    obtain ⟨i, j, reached⟩ := exists_reached heads someRow (inside.trans narrow) needs.1 round₀
      (by rwa [← Nat.succ_eq_add_one, rest])
    exact none _ next i j reached
      ((reached.edgeAt_line_iff someRow (next.trans narrow) rest).mpr needs)

/-- No search begins at the end of its list exactly if the numbers before it go on. -/
theorem no_edge_iff (positive : 0 < table.product) (lines_ne : lines ≠ []) (rows_ne : rows ≠ []) :
    (∀ n < table.product, ∀ i j, Reached nodes table lines rows n i j →
        ¬ EdgeAt nodes table lines rows n i j) ↔
      HeadsZero nodes lines rows ∧ GoesOn nodes table lines rows := by
  constructor
  · intro none
    have heads : HeadsZero nodes lines rows := by
      have first := none 0 positive 0 0 ⟨rfl, rfl⟩
      rwa [edgeAt_first_iff lines_ne rows_ne, not_not] at first
    exact ⟨heads, heads.goesOn someRow narrow none⟩
  · rintro ⟨heads, goesOn⟩ n below i j reached
    cases n with
    | zero =>
        obtain ⟨line, row⟩ := reached
        cases line
        cases row
        rw [edgeAt_first_iff lines_ne rows_ne, not_not]
        exact heads
    | succ m => exact goesOn.no_edge someRow narrow below reached

end ExploreF407.Lcd
