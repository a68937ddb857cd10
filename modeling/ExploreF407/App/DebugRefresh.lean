import ExploreF407.App.DebugRows

/-! # Refreshing the debug table

`APP_DBGLCDFresh` visits seven lines in each column, whatever the length of the list. What it
makes of a line depends on the task of that line alone.
-/

namespace ExploreF407.App

open Kernel Sys

/-- The cells of a line, and its maxima. -/
structure RowView where
  cells : Column → Option Shown
  stackUsageMax : ℚ
  cpuUsageMax : ℚ

namespace RowView

def print (v : RowView) (col : Column) (x : Shown) : RowView :=
  { v with cells := fun col' => if col' = col then some x else v.cells col' }

/-- What the refresh of a column makes of a line. -/
def fill (fpu : Fpu) (tcb : Tcb) (v : RowView) (col : Column) : RowView :=
  match col with
  | .threadName => v.print .threadName (.name tcb.task tcb.name)
  | .prio => v.print .prio (.prio tcb.task tcb.prio)
  | .stackUsage =>
      { v with stackUsageMax := max v.stackUsageMax (stackUsage fpu tcb) }.print .stackUsage
        (.usage tcb.task (stackUsage fpu tcb))
  | .stackMax => v.print .stackMax (.usageMax v.stackUsageMax)
  | .cpuUsage =>
      { v with cpuUsageMax := max v.cpuUsageMax (cpuUsage fpu tcb) }.print .cpuUsage
        (.usage tcb.task (cpuUsage fpu tcb))
  | .cpuMax => v.print .cpuMax (.usageMax v.cpuUsageMax)

end RowView

/-- `App_LCDPend` and `App_LCDPost` both report `OS_ERR_NONE`. -/
def Lock.Granted (lock : Lock) : Prop := lock.pend = none ∧ lock.post = none

instance (lock : Lock) : Decidable lock.Granted := inferInstanceAs (Decidable (_ ∧ _))

namespace Table

def view (t : Table) (line : Nat) : RowView where
  cells := t.shown line
  stackUsageMax := t.stackUsageMax (line - 1)
  cpuUsageMax := t.cpuUsageMax (line - 1)

variable {fpu : Fpu} {t u : Table} {col : Column} {line line' : Nat} {tcb : Tcb} {lock : Lock}
  {err : Option OsErr}

/-! ## One cell -/

theorem raise_self (max' : Nat → ℚ) (i : Nat) (usage : ℚ) :
    raise max' i usage i = max (max' i) usage := by
  unfold raise
  rw [if_pos rfl]
  split
  · rename_i more
    exact (max_eq_right more.le).symm
  · rename_i less
    exact (max_eq_left (not_lt.mp less)).symm

theorem raise_of_ne {max' : Nat → ℚ} {i j : Nat} {usage : ℚ} (other : j ≠ i) :
    raise max' i usage j = max' j :=
  if_neg other

theorem printCell_none {x : Shown} : (t.printCell lock line col x).2 = none ↔ lock.Granted := by
  unfold printCell Lock.Granted
  cases lock.pend with
  | none => simp
  | some err => simp

/-- A cell is a matter of its own line. -/
theorem freshCell_view_of_ne (done : freshCell fpu lock col line tcb t = (u, err))
    (other : line' ≠ line) (first : 0 < line) (first' : 0 < line') : u.view line' = t.view line' := by
  obtain ⟨shown, stackMax, cpuMax, -, -⟩ := printCell_same (freshCell_printed done)
  have index : line' - 1 ≠ line - 1 := by omega
  have cells : u.shown line' = t.shown line' := by
    funext col'
    rw [shown line' col' fun same => other same.1]
    cases col <;> rfl
  unfold view
  rw [cells, stackMax, cpuMax]
  cases col with
  | threadName | prio | stackMax | cpuMax => rfl
  | stackUsage => simp only [content, raise_of_ne index]
  | cpuUsage => simp only [content, raise_of_ne index]

theorem freshCell_view (done : freshCell fpu lock col line tcb t = (u, none)) :
    u.view line = (t.view line).fill fpu tcb col := by
  obtain ⟨shown, stackMax, cpuMax, -, -⟩ := printCell_same (freshCell_printed done)
  have cell := printCell_shown (freshCell_printed done)
  have cells : u.shown line = fun col' =>
      if col' = col then some (content fpu col line tcb t).2 else t.shown line col' := by
    funext col'
    split
    · rename_i here
      rw [here, cell]
    · rename_i other
      rw [shown line col' fun same => other same.2]
      cases col <;> rfl
  unfold view
  rw [cells, stackMax, cpuMax]
  cases col with
  | threadName | prio | stackMax | cpuMax => rfl
  | stackUsage => simp only [content, raise_self, RowView.fill, RowView.print]
  | cpuUsage => simp only [content, raise_self, RowView.fill, RowView.print]

theorem freshCell_none :
    (freshCell fpu lock col line tcb t).2 = none ↔ lock.Granted :=
  printCell_none

theorem freshNull_prio (done : freshNull lock .prio line t = some (u, err)) : u = t := by
  unfold freshNull at done
  dsimp only at done
  split at done <;> cases done
  rfl

/-! ## The loops -/

section Loops

variable {locks : Nat → Lock} {lines : List Nat} {tcbs : List Tcb} {i : Nat}

/-- Lines that are not visited, and those behind the end of the list, stay as they are. -/
theorem freshColumn_far (done : freshColumn fpu locks col lines tcbs t = some (u, err))
    (enough : col = .prio ∨ lines.length ≤ tcbs.length) (below : ∀ line ∈ lines, 0 < line) (first : 0 < line')
    (away : line' ∉ lines.take tcbs.length) : u.view line' = t.view line' := by
  induction lines generalizing t tcbs with
  | nil =>
      cases done
      rfl
  | cons line lines ih =>
      cases tcbs with
      | nil =>
          rcases enough with rfl | enough
          · rw [freshNull_prio done]
          · cases enough
      | cons tcb tcbs =>
          simp only [List.length_cons, List.take_succ_cons, List.mem_cons, not_or] at away
          have later := fun l member => below l (List.mem_cons_of_mem line member)
          have enough := enough.imp_right Nat.le_of_succ_le_succ
          unfold freshColumn at done
          split at done
          · rename_i cell
            cases done
            exact freshCell_view_of_ne cell away.1 (below line (by simp)) first
          · rename_i cell
            rw [ih done enough later away.2]
            exact freshCell_view_of_ne cell away.1 (below line (by simp)) first

theorem freshColumn_view (done : freshColumn fpu locks col lines tcbs t = some (u, none))
    (enough : lines.length ≤ tcbs.length) (below : ∀ line ∈ lines, 0 < line) (distinct : lines.Nodup) (here : lines[i]? = some line)
    (there : tcbs[i]? = some tcb) : u.view line = (t.view line).fill fpu tcb col := by
  induction lines generalizing t tcbs i with
  | nil => simp at here
  | cons first lines ih =>
      obtain ⟨fresh, distinct⟩ := List.nodup_cons.mp distinct
      have later := fun l member => below l (List.mem_cons_of_mem first member)
      cases tcbs with
      | nil => cases enough
      | cons tcb' tcbs =>
          replace enough := Nat.le_of_succ_le_succ enough
          unfold freshColumn at done
          split at done
          · cases done
          · rename_i cell
            cases i with
            | zero =>
                cases here
                cases there
                rw [freshColumn_far done (.inr enough) later (below line (by simp))
                  fun member => fresh (List.mem_of_mem_take member)]
                exact freshCell_view cell
            | succ i =>
                have at' : lines[i]? = some line := here
                have member := List.mem_of_getElem? at'
                have other : line ≠ first := fun same => fresh (same ▸ member)
                rw [ih done enough later distinct at' there,
                  freshCell_view_of_ne cell other (below first (by simp)) (later line member)]

/-- With too few tasks the column is not finished. Either the refresh is left with an error of
    the lock, or `ptr` becomes `NULL` and the priority is read. -/
theorem freshColumn_short (few : tcbs.length < lines.length) :
    (∃ r, freshColumn fpu locks .prio lines tcbs t = some r) ↔
      (∃ line ∈ lines.take tcbs.length, ¬ (locks line).Granted) ∨
        ∃ line ∈ lines[tcbs.length]?, (locks line).pend ≠ none := by
  induction lines generalizing t tcbs with
  | nil => cases few
  | cons line lines ih =>
      cases tcbs with
      | nil =>
          unfold freshColumn freshNull
          cases refused : (locks line).pend with
          | none => simp [refused]
          | some err => simp [refused]
      | cons tcb tcbs =>
          have rest := fun t => ih (t := t) (Nat.lt_of_succ_lt_succ few)
          have cell : (freshCell fpu (locks line) .prio line tcb t).2 = none ↔
              (locks line).Granted := freshCell_none
          unfold freshColumn
          split
          · rename_i done
            rw [done] at cell
            have refused : ¬ (locks line).Granted := fun granted => by simpa using cell.mpr granted
            simp [refused]
          · rename_i done
            rw [done] at cell
            have granted : (locks line).Granted := cell.mp rfl
            simp [granted, rest]

theorem freshColumn_error (few : tcbs.length < lines.length)
    (done : freshColumn fpu locks col lines tcbs t = some (u, err)) : err ≠ none := by
  induction lines generalizing t tcbs with
  | nil => cases few
  | cons line lines ih =>
      cases tcbs with
      | nil => exact (freshNull_printed done).1
      | cons tcb tcbs =>
          unfold freshColumn at done
          split at done
          · cases done
            exact Option.some_ne_none _
          · exact ih (Nat.lt_of_succ_lt_succ few) done

variable {columnLocks : Column → Nat → Lock} {cols : List Column}

theorem tableLines_pos : ∀ line ∈ tableLines, 0 < line := by decide

theorem freshColumns_far (done : freshColumns fpu columnLocks tcbs cols t = some (u, err))
    (many : tableLines.length ≤ tcbs.length) (first : 0 < line') (away : line' ∉ tableLines.take tcbs.length) :
    u.view line' = t.view line' := by
  induction cols generalizing t with
  | nil =>
      cases done
      rfl
  | cons col cols ih =>
      unfold freshColumns at done
      split at done
      · cases done
      · rename_i column
        cases done
        exact freshColumn_far column (.inr many) tableLines_pos first away
      · rename_i column
        rw [ih done]
        exact freshColumn_far column (.inr many) tableLines_pos first away

theorem freshColumns_view (done : freshColumns fpu columnLocks tcbs cols t = some (u, none))
    (many : tableLines.length ≤ tcbs.length) (here : tableLines[i]? = some line) (there : tcbs[i]? = some tcb) :
    u.view line = cols.foldl (RowView.fill fpu tcb) (t.view line) := by
  induction cols generalizing t with
  | nil =>
      cases done
      rfl
  | cons col cols ih =>
      unfold freshColumns at done
      split at done
      · cases done
      · cases done
      · rename_i column
        rw [ih done, List.foldl_cons]
        rw [freshColumn_view column many tableLines_pos (by decide) here there]

end Loops

/-! ## The whole refresh -/

/-- Line `line` shows the data of the task. -/
structure Filled (fpu : Fpu) (t u : Table) (line : Nat) (tcb : Tcb) : Prop where
  prio : u.shown line .prio = some (.prio tcb.task tcb.prio)
  stackUsage : u.shown line .stackUsage = some (.usage tcb.task (stackUsage fpu tcb))
  stackMax : u.shown line .stackMax =
    some (.usageMax (max (t.stackUsageMax (line - 1)) (App.stackUsage fpu tcb)))
  cpuUsage : u.shown line .cpuUsage = some (.usage tcb.task (cpuUsage fpu tcb))
  cpuMax : u.shown line .cpuMax =
    some (.usageMax (max (t.cpuUsageMax (line - 1)) (App.cpuUsage fpu tcb)))

/-- Neither the cells of line `line` nor its maxima have changed. -/
structure Untouched (t u : Table) (line : Nat) : Prop where
  cells : ∀ col, u.shown line col = t.shown line col
  stackMax : u.stackUsageMax (line - 1) = t.stackUsageMax (line - 1)
  cpuMax : u.cpuUsageMax (line - 1) = t.cpuUsageMax (line - 1)

theorem untouched_of_view (same : u.view line = t.view line) : Untouched t u line where
  cells col := congrFun (congrArg RowView.cells same) col
  stackMax := congrArg RowView.stackUsageMax same
  cpuMax := congrArg RowView.cpuUsageMax same

theorem filled_of_view (same : u.view line =
    [Column.prio, .stackUsage, .stackMax, .cpuUsage, .cpuMax].foldl (RowView.fill fpu tcb)
      (t.view line)) : Filled fpu t u line tcb := by
  have cell := fun col => congrFun (congrArg RowView.cells same) col
  exact ⟨cell .prio, cell .stackUsage, cell .stackMax, cell .cpuUsage, cell .cpuMax⟩

theorem mem_tableLines_take {n k : Nat} : k ∈ tableLines.take n ↔ 1 ≤ k ∧ k ≤ min n 7 := by
  have range : tableLines = List.range' 1 7 := rfl
  rcases Nat.le_total n 7 with few | many
  · rw [range, List.take_range'_of_length_ge few, List.mem_range'_1]
    omega
  · rw [range, List.take_range'_of_length_le many, List.mem_range'_1]
    omega

/-- With fewer than seven tasks no other column than the priorities is begun. -/
theorem appDbgLcdFresh_short {lock : Column → Nat → Lock} {tcbs : List Tcb}
    (few : tcbs.length < 7) :
    appDbgLcdFresh fpu lock tcbs t = freshColumn fpu (lock .prio) .prio tableLines tcbs t := by
  unfold appDbgLcdFresh freshColumns
  split
  · rename_i column
    exact column.symm
  · rename_i column
    exact column.symm
  · rename_i column
    exact absurd rfl (freshColumn_error few column)

/-- The lock fails while a list of fewer than seven tasks is walked, or when the line behind its
    end is to be printed. -/
theorem short_iff {locks : Nat → Lock} {tcbs : List Tcb} (few : tcbs.length < 7) :
    (∃ r, freshColumn fpu locks .prio tableLines tcbs t = some r) ↔
      (∃ k, 1 ≤ k ∧ k ≤ tcbs.length + 1 ∧ (locks k).pend ≠ none) ∨
        ∃ k, 1 ≤ k ∧ k ≤ tcbs.length ∧ (locks k).post ≠ none := by
  have behind : tableLines[tcbs.length]? = some (tcbs.length + 1) := by
    have range : tableLines = List.range' 1 7 := rfl
    rw [range, List.getElem?_range' few]
    congr 1
    omega
  rw [freshColumn_short few, behind]
  simp only [mem_tableLines_take, Option.mem_def, Option.some.injEq, exists_eq_left',
    Lock.Granted, not_and_or]
  constructor
  · rintro (⟨k, ⟨first, inside⟩, pend | post⟩ | pend)
    · exact .inl ⟨k, first, by omega, pend⟩
    · exact .inr ⟨k, first, by omega, post⟩
    · exact .inl ⟨_, Nat.le_add_left 1 _, Nat.le_refl _, pend⟩
  · rintro (⟨k, first, inside, pend⟩ | ⟨k, first, inside, post⟩)
    · rcases inside.lt_or_eq with before | rfl
      · exact .inl ⟨k, ⟨first, by omega⟩, .inl pend⟩
      · exact .inr pend
    · exact .inl ⟨k, ⟨first, by omega⟩, .inr post⟩

/-- The refresh treats the tasks as it should exactly if there are seven of them, or if the lock
    fails before the priority of a line without a task is read. -/
theorem appDbgLcdFresh_iff (fpu : Fpu) (lock : Column → Nat → Lock) (tcbs : List Tcb) (t : Table) :
    (∃ u err, appDbgLcdFresh fpu lock tcbs t = some (u, err) ∧
        (err = none → ∀ k, 1 ≤ k → k ≤ min tcbs.length 7 → ∀ tcb ∈ tcbs[k - 1]?,
          Filled fpu t u k tcb) ∧
        ∀ k, min tcbs.length 7 < k → Untouched t u k) ↔
      7 ≤ tcbs.length ∨ (∃ k, 1 ≤ k ∧ k ≤ tcbs.length + 1 ∧ (lock .prio k).pend ≠ none) ∨
        ∃ k, 1 ≤ k ∧ k ≤ tcbs.length ∧ (lock .prio k).post ≠ none := by
  have away : ∀ {k}, min tcbs.length 7 < k → k ∉ tableLines.take tcbs.length := by
    intro k beyond
    rw [mem_tableLines_take]
    omega
  rcases Nat.lt_or_ge tcbs.length 7 with few | many
  · have short : (∃ r, freshColumn fpu (lock .prio) .prio tableLines tcbs t = some r) ↔ _ :=
      short_iff few
    rw [appDbgLcdFresh_short few, or_iff_right (Nat.not_le_of_lt few), ← short]
    constructor
    · rintro ⟨u, err, done, -⟩
      exact ⟨_, done⟩
    · rintro ⟨⟨u, err⟩, done⟩
      refine ⟨u, err, done, ?_, ?_⟩
      · intro finished
        exact absurd finished (freshColumn_error few done)
      · intro k beyond
        apply untouched_of_view
        exact freshColumn_far done (.inl rfl) tableLines_pos (Nat.zero_lt_of_lt beyond) (away beyond)
  · refine iff_of_true ?_ (.inl many)
    have all : ∃ r, appDbgLcdFresh fpu lock tcbs t = some r := freshColumns_returns many
    obtain ⟨⟨u, err⟩, done⟩ := all
    refine ⟨u, err, done, ?_, ?_⟩
    · intro finished k first inside tcb there
      subst finished
      have here : tableLines[k - 1]? = some k := by
        have range : tableLines = List.range' 1 7 := rfl
        have index : 1 + 1 * (k - 1) = k := by omega
        rw [range, List.getElem?_range' (by omega), index]
      exact filled_of_view (freshColumns_view done many here there)
    · intro k beyond
      apply untouched_of_view
      exact freshColumns_far done many (Nat.zero_lt_of_lt beyond) (away beyond)

/-- The idle task alone, on a new table. -/
theorem appDbgLcdFresh_one :
    appDbgLcdFresh Fpu.exact (fun _ _ => { pend := none, post := none })
      [{ task := 0, name := "Idle", prio := 31, stkUsed := 20, stkSize := 128, cpuUsage := 9900 }]
      blank = none :=
  rfl

end Table

end ExploreF407.App
