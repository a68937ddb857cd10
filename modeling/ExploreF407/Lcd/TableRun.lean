import ExploreF407.Lcd.TableSearch

/-! # The loop over the cells of a table

As long as the searches find their numbers, a round writes one cell and moves the two pointers.
The pointers follow two cursors on the numbers of the lines and rows.
-/

namespace ExploreF407.Lcd

open Linked

/-! ## One cell -/

/-- The area of a cell between the lines and rows, which does not depend on what the cell has
    held before. -/
def spanned {ι κ : Type*} (dir : Dir) (line : TableLine ι) (row : TableRow κ) (area : Rect) :
    Rect :=
  rowStop dir row (rowStart dir row (lineStop dir line (lineStart dir line area)))

variable {ι κ : Type*} (nodes : TableNodes ι κ) (table : Table ι κ) {turns : Nat}

/-- What is written to cell `k`, over what it holds. -/
def writtenCell (k : Nat) (line : ι) (row : κ) (cell : TableCell) : TableCell :=
  if k = 0 then
    { prevPtr := none
      nextPtr := some 1
      cellNum := 0
      cellArea := rowStop table.tableDir (nodes.row row)
        (lineStop table.tableDir (nodes.line line)
          ((cell.cellArea.setXposStart table.xposStart.toNat).setYposStart
            table.yposStart.toNat)) }
  else
    { prevPtr := some (k - 1)
      nextPtr := some (k + 1)
      cellNum := UInt16.ofNat k
      cellArea := spanned table.tableDir (nodes.line line) (nodes.row row) cell.cellArea }

def Sheet.put (s : Sheet) (k : Nat) (line : ι) (row : κ) : Sheet :=
  (s.assign k (writtenCell nodes table k line row)).drawCell k

variable {nodes table} {temp : UInt16} {line line' : ι} {row row' : κ} {s : Sheet} {stop : Stop}

theorem assign_assign (k : Nat) (f g : TableCell → TableCell) :
    (s.assign k f).assign k g = s.assign k fun cell => g (f cell) := by
  simp [Sheet.assign]

theorem frameCell_found
    (lineFound : nodes.otherLine turns (temp.toNat / table.rowCnt.toNat) line = .ok line')
    (rowFound : nodes.cellRow turns (temp.toNat % table.rowCnt.toNat) row = .ok row') :
    frameCell nodes table turns temp line row s =
      (s.put nodes table temp.toNat line' row', .ok (line', row')) := by
  unfold frameCell
  split
  · rename_i first
    subst first
    simp only [UInt16.toNat_zero, Nat.zero_div] at lineFound
    simp only [frameFirst, UInt16.toNat_zero, Nat.zero_div, firstLine_zero, lineFound] at rowFound ⊢
    rw [rowFound]
    simp only [Sheet.changeArea, assign_assign]
    rfl
  · rename_i other
    have positive : temp.toNat ≠ 0 := by
      intro zero
      exact other (UInt16.toNat_inj.mp zero)
    simp only [frameOther, lineFound, rowFound, Sheet.changeArea, assign_assign, Sheet.put]
    have cell : writtenCell nodes table temp.toNat line' row' = fun cell : TableCell =>
        { prevPtr := some (temp.toNat - 1)
          nextPtr := some (temp.toNat + 1)
          cellNum := temp
          cellArea := spanned table.tableDir (nodes.line line') (nodes.row row')
            cell.cellArea } := by
      funext cell
      simp only [writtenCell, positive, if_false, UInt16.ofNat_toNat]
    rw [cell]
    rfl

theorem frameCell_lineLost
    (lost : nodes.otherLine turns (temp.toNat / table.rowCnt.toNat) line = .error stop) :
    ∃ s', frameCell nodes table turns temp line row s = (s', .error stop) ∧
      s'.filled = s.filled := by
  unfold frameCell
  split
  · rename_i first
    subst first
    simp only [UInt16.toNat_zero, Nat.zero_div] at lost
    simp only [frameFirst, UInt16.toNat_zero, Nat.zero_div, firstLine_zero, lost]
    exact ⟨_, rfl, rfl⟩
  · simp only [frameOther, lost]
    exact ⟨_, rfl, rfl⟩

theorem frameCell_rowLost
    (lineFound : nodes.otherLine turns (temp.toNat / table.rowCnt.toNat) line = .ok line')
    (lost : nodes.cellRow turns (temp.toNat % table.rowCnt.toNat) row = .error stop) :
    ∃ s', frameCell nodes table turns temp line row s = (s', .error stop) ∧
      s'.filled = s.filled := by
  unfold frameCell
  split
  · rename_i first
    subst first
    simp only [UInt16.toNat_zero, Nat.zero_div] at lineFound
    simp only [frameFirst, UInt16.toNat_zero, Nat.zero_div, firstLine_zero, lineFound] at lost ⊢
    rw [lost]
    exact ⟨_, rfl, rfl⟩
  · simp only [frameOther, lineFound, lost]
    exact ⟨_, rfl, rfl⟩

/-! ## The pointers -/

theorem exists_walk {ι : Type*} {prev next : ι → Option ι} {num : ι → Nat} {list : List ι} {head : ι}
    {want : Nat → Nat} {N : Nat} (linked : Both prev next list) (first : list.head? = some head)
    (enough : list.length ≤ turns) (found : (trail (list.map num) want N).isSome) :
    ∃ walk : Nat → ι, walk 0 = head ∧
      (∀ n ≤ N, ∀ i, trail (list.map num) want n = some i → list[i]? = some (walk n)) ∧
      ∀ n < N, select num (want n) (seek prev num (want n) turns) (seek next num (want n) turns)
        (walk n) = .ok (walk (n + 1)) := by
  obtain ⟨last, found⟩ := Option.isSome_iff_exists.mp found
  have start : list[0]? = some head := by rw [← first, List.head?_eq_getElem?]
  have at' : ∀ n, ∃ p, n ≤ N → ∃ i, trail (list.map num) want n = some i ∧ list[i]? = some p := by
    intro n
    by_cases before : n ≤ N
    · obtain ⟨i, here⟩ := trail_before found before
      cases n with
      | zero =>
          cases here
          exact ⟨head, fun _ => ⟨0, rfl, start⟩⟩
      | succ n =>
          obtain ⟨p, there, -⟩ := node_at (of_trail here)
          exact ⟨p, fun _ => ⟨i, here, there⟩⟩
    · exact ⟨head, fun inside => absurd inside before⟩
  choose walk walks using at'
  have at' : ∀ n ≤ N, ∀ i, trail (list.map num) want n = some i → list[i]? = some (walk n) := by
    intro n before i here
    obtain ⟨i', here', there⟩ := walks n before
    cases here.symm.trans here'
    exact there
  refine ⟨walk, ?_, at', ?_⟩
  · have here := at' 0 (Nat.zero_le N) 0 rfl
    rw [start] at here
    exact (Option.some.inj here).symm
  · intro n before
    obtain ⟨k, next'⟩ := trail_before found before
    obtain ⟨i, here, goes⟩ := Option.bind_eq_some_iff.mp next'
    obtain ⟨q, there, moved⟩ := select_found linked (at' n before.le i here) enough goes
    rw [moved, ← Option.some.inj (there.symm.trans (at' (n + 1) before k next'))]

/-! ## Rounds -/

/-- The number of the line, and of the row, that round `n` looks for: `temp` wraps. -/
def lineWant (table : Table ι κ) (n : Nat) : Nat := n % 2 ^ 16 / table.rowCnt.toNat

def rowWant (table : Table ι κ) (n : Nat) : Nat := n % 2 ^ 16 % table.rowCnt.toNat

theorem wants_unwrapped (table : Table ι κ) {n : Nat} (below : n < 2 ^ 16) :
    lineWant table n = n / table.rowCnt.toNat ∧ rowWant table n = n % table.rowCnt.toNat := by
  simp only [lineWant, rowWant, Nat.mod_eq_of_lt below, and_self]

theorem cell_index (table : Table ι κ) {i j : Nat} (line : i < table.lineCnt.toNat)
    (row : j < table.rowCnt.toNat) :
    i * table.rowCnt.toNat + j < table.product ∧
      (i * table.rowCnt.toNat + j) / table.rowCnt.toNat = i ∧
      (i * table.rowCnt.toNat + j) % table.rowCnt.toNat = j := by
  refine ⟨?_, (Nat.div_mod_unique (Nat.zero_lt_of_lt row)).mpr ⟨by ring, row⟩⟩
  calc i * table.rowCnt.toNat + j
    _ < i * table.rowCnt.toNat + table.rowCnt.toNat := Nat.add_lt_add_left row _
    _ = (i + 1) * table.rowCnt.toNat := by ring
    _ ≤ table.product := Nat.mul_le_mul_right _ line

/-- The sheet after `n` successful rounds, with the lines and rows that they have found. -/
def rounds (nodes : TableNodes ι κ) (table : Table ι κ) (ls : Nat → ι) (rs : Nat → κ) (s : Sheet) :
    Nat → Sheet
  | 0 => s
  | n + 1 => (rounds nodes table ls rs s n).put nodes table (n % 2 ^ 16) (ls (n + 1)) (rs (n + 1))

variable {ls : Nat → ι} {rs : Nat → κ} {N : Nat}

theorem frameCells_rounds (small : table.product < 2 ^ 31)
    (inside : ∀ n < N, n % 2 ^ 16 < table.product)
    (lineStep : ∀ n < N, nodes.otherLine turns (lineWant table n) (ls n) = .ok (ls (n + 1)))
    (rowStep : ∀ n < N, nodes.cellRow turns (rowWant table n) (rs n) = .ok (rs (n + 1)))
    (left : Nat) :
    frameCells nodes table turns (left + N) 0 (ls 0) (rs 0) s =
      frameCells nodes table turns left (UInt16.ofNat N) (ls N) (rs N)
        (rounds nodes table ls rs s N) := by
  induction N generalizing left with
  | zero => rfl
  | succ N ih =>
      have before := ih (fun n less => inside n (Nat.lt_succ_of_lt less))
        (fun n less => lineStep n (Nat.lt_succ_of_lt less))
        (fun n less => rowStep n (Nat.lt_succ_of_lt less)) (left + 1)
      have temp : (UInt16.ofNat N).toNat = N % 2 ^ 16 := UInt16.toNat_ofNat'
      rw [show left + (N + 1) = left + 1 + N by omega, before]
      conv_lhs => unfold frameCells
      rw [if_neg (Nat.not_le_of_lt small), temp, if_pos (inside N (Nat.lt_succ_self N))]
      have lineFound := lineStep N (Nat.lt_succ_self N)
      have rowFound := rowStep N (Nat.lt_succ_self N)
      unfold lineWant at lineFound
      unfold rowWant at rowFound
      rw [← temp] at lineFound rowFound
      simp only [frameCell_found lineFound rowFound, temp, rounds, UInt16.ofNat_add]
      rfl

theorem rounds_filled (N : Nat) :
    (rounds nodes table ls rs s N).filled =
      s.filled ++ (List.range N).map (· % 2 ^ 16) := by
  induction N with
  | zero => simp [rounds]
  | succ N ih =>
      rw [List.range_succ, List.map_append, ← List.append_assoc, ← ih]
      rfl

theorem rounds_cells (unwrapped : N ≤ 2 ^ 16) (k : Nat) :
    (rounds nodes table ls rs s N).cells k =
      if k < N then writtenCell nodes table k (ls (k + 1)) (rs (k + 1)) (s.cells k)
      else s.cells k := by
  induction N with
  | zero => rfl
  | succ N ih =>
      have at' : N % 2 ^ 16 = N := Nat.mod_eq_of_lt unwrapped
      have before := ih (Nat.le_of_succ_le unwrapped)
      simp only [rounds, at', Sheet.put, Sheet.drawCell, Sheet.assign]
      by_cases here : k = N
      · subst here
        rw [Function.update_self, before, if_neg (Nat.lt_irrefl k), if_pos (Nat.lt_succ_self k)]
      · have order : k < N + 1 ↔ k < N := by omega
        rw [Function.update_of_ne here, before]
        simp only [order]

theorem rounds_panel (unwrapped : N ≤ 2 ^ 16) :
    (rounds nodes table ls rs s N).panel = (List.range N).foldl
      (fun p k => drawRect p ((rounds nodes table ls rs s N).cells k).cellArea white) s.panel := by
  have prefixes : ∀ M ≤ N, (rounds nodes table ls rs s M).panel = (List.range M).foldl
      (fun p k => drawRect p ((rounds nodes table ls rs s N).cells k).cellArea white) s.panel := by
    intro M
    induction M with
    | zero => intro _; rfl
    | succ M ih =>
        intro inside
        have at' : M % 2 ^ 16 = M := Nat.mod_eq_of_lt (Nat.lt_of_lt_of_le inside unwrapped)
        have same : ((rounds nodes table ls rs s N).cells M).cellArea =
            ((rounds nodes table ls rs s (M + 1)).cells M).cellArea := by
          rw [rounds_cells unwrapped, rounds_cells (inside.trans unwrapped),
            if_pos (Nat.lt_of_succ_le inside), if_pos (Nat.lt_succ_self M)]
        rw [List.range_succ, List.foldl_append, ← ih (Nat.le_of_succ_le inside)]
        simp only [List.foldl_cons, List.foldl_nil, same]
        simp only [rounds, at', Sheet.put, Sheet.drawCell, Sheet.assign]
  exact prefixes N (Nat.le_refl N)

/-! ## The whole function -/

section Whole

variable {lines : List ι} {rows : List κ} {i j : Nat} (s)

/-- The searches before round `n` find their numbers, and the cursors stand at `i` and `j`. -/
structure Reached (nodes : TableNodes ι κ) (table : Table ι κ) (lines : List ι) (rows : List κ)
    (n i j : Nat) : Prop where
  line : trail (lineNums nodes lines) (lineWant table) n = some i
  row : trail (rowNums nodes rows) (rowWant table) n = some j

theorem init_lineNil (lists : TableLists nodes table [] rows) :
    bspLcdTableFrameInit nodes table turns s = (s, .error .null) := by
  simp only [bspLcdTableFrameInit, lists.lineHead, List.head?_nil]

theorem init_rowNil (lists : TableLists nodes table lines []) :
    bspLcdTableFrameInit nodes table turns s = (s, .error .null) := by
  cases lines with
  | nil => exact init_lineNil s lists
  | cons line lines =>
      have first := lists.lineLinks.prev_head rfl
      simp only [bspLcdTableFrameInit, lists.lineHead, lists.rowHead, List.head?_cons,
        List.head?_nil, first, ne_eq, not_true_eq_false, if_false]

/-- Lists that are not empty begin with null pointers, and the loop is entered. -/
theorem init_enters (lists : TableLists nodes table lines rows) (someLine : lines ≠ [])
    (someRow : rows ≠ []) :
    ∃ line row, lines.head? = some line ∧ rows.head? = some row ∧
      bspLcdTableFrameInit nodes table turns s =
        frameCells nodes table turns turns 0 line row s := by
  obtain ⟨line, lineHead⟩ : ∃ line, lines.head? = some line :=
    Option.isSome_iff_exists.mp (List.isSome_head?.mpr someLine)
  obtain ⟨row, rowHead⟩ : ∃ row, rows.head? = some row :=
    Option.isSome_iff_exists.mp (List.isSome_head?.mpr someRow)
  refine ⟨line, row, lineHead, rowHead, ?_⟩
  simp only [bspLcdTableFrameInit, lists.lineHead, lists.rowHead, lineHead, rowHead,
    lists.lineLinks.prev_head lineHead, lists.rowLinks.prev_head rowHead, ne_eq, not_true_eq_false,
    if_false]

/-- The function up to round `N`, when the rounds before it succeed. -/
theorem exists_rounds (lists : TableLists nodes table lines rows) (someLine : lines ≠ [])
    (someRow : rows ≠ []) (small : table.product < 2 ^ 31)
    (inside : ∀ n < N, n % 2 ^ 16 < table.product) (reached : Reached nodes table lines rows N i j)
    (left : Nat) (enoughLines : lines.length ≤ left + N) (enoughRows : rows.length ≤ left + N) :
    ∃ ls rs,
      (∀ n ≤ N, ∀ i, trail (lineNums nodes lines) (lineWant table) n = some i →
        lines[i]? = some (ls n)) ∧
      (∀ n ≤ N, ∀ j, trail (rowNums nodes rows) (rowWant table) n = some j →
        rows[j]? = some (rs n)) ∧
      bspLcdTableFrameInit nodes table (left + N) s =
        frameCells nodes table (left + N) left (UInt16.ofNat N) (ls N) (rs N)
          (rounds nodes table ls rs s N) := by
  obtain ⟨line, row, lineHead, rowHead, enters⟩ := init_enters s lists someLine someRow
  obtain ⟨ls, lineFirst, lineAt, lineStep⟩ := exists_walk lists.lineLinks lineHead enoughLines
    (Option.isSome_of_eq_some reached.line)
  obtain ⟨rs, rowFirst, rowAt, rowStep⟩ := exists_walk lists.rowLinks rowHead enoughRows
    (Option.isSome_of_eq_some reached.row)
  refine ⟨ls, rs, lineAt, rowAt, ?_⟩
  rw [← frameCells_rounds small inside lineStep rowStep, lineFirst, rowFirst, enters]

/-- A search of round `n` begins at the last node of its direction. -/
def EdgeAt (nodes : TableNodes ι κ) (table : Table ι κ) (lines : List ι) (rows : List κ)
    (n i j : Nat) : Prop :=
  AtEdge (lineNums nodes lines) i (lineWant table n) ∨
    (goTo (lineNums nodes lines) i (lineWant table n)).isSome ∧
      AtEdge (rowNums nodes rows) j (rowWant table n)

instance decidableEdgeAt (n i j : Nat) : Decidable (EdgeAt nodes table lines rows n i j) :=
  inferInstanceAs (Decidable (_ ∨ _))

theorem init_lost (lists : TableLists nodes table lines rows) (someLine : lines ≠ [])
    (someRow : rows ≠ []) (small : table.product < 2 ^ 31)
    (inside : ∀ n ≤ N, n % 2 ^ 16 < table.product) (reached : Reached nodes table lines rows N i j)
    (lost : goTo (lineNums nodes lines) i (lineWant table N) = none ∨
      goTo (rowNums nodes rows) j (rowWant table N) = none)
    (left : Nat) (enoughLines : lines.length ≤ left + 1 + N)
    (enoughRows : rows.length ≤ left + 1 + N) :
    ∃ s', bspLcdTableFrameInit nodes table (left + 1 + N) s =
        (s', .error (if EdgeAt nodes table lines rows N i j then .null else .table)) ∧
      s'.filled = s.filled ++ (List.range N).map (· % 2 ^ 16) := by
  obtain ⟨ls, rs, lineAt, rowAt, whole⟩ := exists_rounds s lists someLine someRow small
    (fun n before => inside n before.le) reached (left + 1) enoughLines enoughRows
  have lineHere := lineAt N (Nat.le_refl N) i reached.line
  have rowHere := rowAt N (Nat.le_refl N) j reached.row
  have temp : (UInt16.ofNat N).toNat = N % 2 ^ 16 := UInt16.toNat_ofNat'
  have round : ∃ s', frameCell nodes table (left + 1 + N) (UInt16.ofNat N) (ls N) (rs N)
      (rounds nodes table ls rs s N) =
        (s', .error (if EdgeAt nodes table lines rows N i j then .null else .table)) ∧
      s'.filled = (rounds nodes table ls rs s N).filled := by
    cases line : goTo (lineNums nodes lines) i (lineWant table N) with
    | none =>
        have edge : EdgeAt nodes table lines rows N i j ↔
            AtEdge (lineNums nodes lines) i (lineWant table N) := by
          simp [EdgeAt, line]
        simp only [edge]
        apply frameCell_lineLost
        rw [temp]
        exact select_lost lists.lineLinks lineHere enoughLines line
    | some k =>
        have row : goTo (rowNums nodes rows) j (rowWant table N) = none := by
          simpa [line] using lost
        have not_first : ¬ AtEdge (lineNums nodes lines) i (lineWant table N) := by
          intro edge
          rw [edge.lost] at line
          cases line
        have edge : EdgeAt nodes table lines rows N i j ↔
            AtEdge (rowNums nodes rows) j (rowWant table N) := by
          simp [EdgeAt, line, not_first]
        obtain ⟨p, -, lineFound⟩ := select_found lists.lineLinks lineHere enoughLines line
        simp only [edge]
        rw [lineWant, ← temp] at lineFound
        apply frameCell_rowLost lineFound
        rw [temp]
        exact select_lost lists.rowLinks rowHere enoughRows row
  obtain ⟨s', ends, kept⟩ := round
  refine ⟨s', ?_, ?_⟩
  · rw [whole]
    unfold frameCells
    rw [if_neg (Nat.not_le_of_lt small), temp, if_pos (inside N (Nat.le_refl N))]
    simp only [ends]
  · rw [kept, rounds_filled]

theorem init_ends (lists : TableLists nodes table lines rows) (someLine : lines ≠ [])
    (someRow : rows ≠ []) (narrow : table.product < 2 ^ 16)
    (reached : Reached nodes table lines rows table.product i j) (left : Nat)
    (enoughLines : lines.length ≤ left + table.product)
    (enoughRows : rows.length ≤ left + table.product) :
    ∃ ls rs,
      (∀ n ≤ table.product, ∀ i, trail (lineNums nodes lines) (lineWant table) n = some i →
        lines[i]? = some (ls n)) ∧
      (∀ n ≤ table.product, ∀ j, trail (rowNums nodes rows) (rowWant table) n = some j →
        rows[j]? = some (rs n)) ∧
      bspLcdTableFrameInit nodes table (left + table.product) s =
        (rounds nodes table ls rs s table.product, .ok ()) := by
  have small : table.product < 2 ^ 31 := narrow.trans (by decide)
  have inside : ∀ n < table.product, n % 2 ^ 16 < table.product := by
    intro n before
    rwa [Nat.mod_eq_of_lt (before.trans narrow)]
  obtain ⟨ls, rs, lineAt, rowAt, whole⟩ := exists_rounds s lists someLine someRow small
    inside reached left enoughLines enoughRows
  refine ⟨ls, rs, lineAt, rowAt, ?_⟩
  have temp : (UInt16.ofNat table.product).toNat = table.product := by
    rw [UInt16.toNat_ofNat', Nat.mod_eq_of_lt narrow]
  rw [whole]
  unfold frameCells
  rw [if_neg (Nat.not_le_of_lt small), temp, if_neg (Nat.lt_irrefl _)]

/-- As long as the searches find their numbers, a loop whose counter wraps goes on. -/
theorem init_wraps (lists : TableLists nodes table lines rows) (someLine : lines ≠ [])
    (someRow : rows ≠ []) (small : table.product < 2 ^ 31) (wide : 2 ^ 16 ≤ table.product)
    (reached : Reached nodes table lines rows N i j) (enoughLines : lines.length ≤ N)
    (enoughRows : rows.length ≤ N) :
    (bspLcdTableFrameInit nodes table N s).2 = .error .turns := by
  have inside : ∀ n, n % 2 ^ 16 < table.product :=
    fun n => (mod_coordinate n).trans_le wide
  obtain ⟨ls, rs, -, -, whole⟩ := exists_rounds s lists someLine someRow small
    (fun n _ => inside n) reached 0 (by omega) (by omega)
  rw [Nat.zero_add] at whole
  rw [whole]
  have temp : (UInt16.ofNat N).toNat = N % 2 ^ 16 := UInt16.toNat_ofNat'
  unfold frameCells
  rw [if_neg (Nat.not_le_of_lt small), temp, if_pos (inside N)]

theorem init_overflow (lists : TableLists nodes table lines rows) (someLine : lines ≠ [])
    (someRow : rows ≠ []) (large : 2 ^ 31 ≤ table.product) :
    bspLcdTableFrameInit nodes table turns s = (s, .error .overflow) := by
  obtain ⟨line, row, -, -, enters⟩ := init_enters s lists someLine someRow
  rw [enters]
  unfold frameCells
  rw [if_pos large]

theorem reached_or_lost (nodes : TableNodes ι κ) (table : Table ι κ) (lines : List ι)
    (rows : List κ) (n : Nat) :
    (∃ i j, Reached nodes table lines rows n i j) ∨
      ∃ m < n, ∃ i j, Reached nodes table lines rows m i j ∧
        (goTo (lineNums nodes lines) i (lineWant table m) = none ∨
          goTo (rowNums nodes rows) j (rowWant table m) = none) := by
  induction n with
  | zero => exact .inl ⟨0, 0, rfl, rfl⟩
  | succ n ih =>
      rcases ih with ⟨i, j, reached⟩ | ⟨m, before, lost⟩
      · cases line : goTo (lineNums nodes lines) i (lineWant table n) with
        | none => exact .inr ⟨n, Nat.lt_succ_self n, i, j, reached, .inl line⟩
        | some i' =>
            cases row : goTo (rowNums nodes rows) j (rowWant table n) with
            | none => exact .inr ⟨n, Nat.lt_succ_self n, i, j, reached, .inr row⟩
            | some j' =>
                refine .inl ⟨i', j', ?_, ?_⟩
                · rw [trail, reached.line, Option.bind_some, line]
                · rw [trail, reached.row, Option.bind_some, row]
      · exact .inr ⟨m, Nat.lt_succ_of_lt before, lost⟩

end Whole

end ExploreF407.Lcd
