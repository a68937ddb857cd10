import ExploreF407.App.DebugTable
import ExploreF407.Lib.Peak

/-! # Which task a line of the debug table speaks of

A line keeps its name and its maxima while the list moves. They belong to the task whose
usage is shown beside them as long as every refresh finds the tasks that were named, in
the same order, at the head of the list.
-/

namespace ExploreF407.App

open Kernel Sys Machine

def samplesOf (samples : List (Nat × ℚ)) (task : Nat) : Set ℚ := {x | (task, x) ∈ samples}

theorem samplesOf_append (samples : List (Nat × ℚ)) (task : Nat) (x : ℚ) :
    samplesOf (samples ++ [(task, x)]) task = insert x (samplesOf samples task) := by
  ext y
  simp [samplesOf, or_comm]

theorem samplesOf_append_of_ne (samples : List (Nat × ℚ)) {task task' : Nat}
    (other : task' ≠ task) (x : ℚ) :
    samplesOf (samples ++ [(task, x)]) task' = samplesOf samples task' := by
  ext y
  simp [samplesOf, other]

/-- The maxima of the lines are those of the tasks `ids`. -/
def Peaks (ids : List Nat) (max : Nat → ℚ) (samples : List (Nat × ℚ)) : Prop :=
  ∀ i task : Nat, ids[i]? = some task → Peak 0 (max i) (samplesOf samples task)

theorem Peaks.raised {ids : List Nat} {max : Nat → ℚ} {samples : List (Nat × ℚ)}
    (peaks : Peaks ids max samples) (distinct : ids.Nodup) {i task : Nat}
    (here : ids[i]? = some task) {x : ℚ} (nonneg : 0 ≤ x) :
    Peaks ids (raise max i x) (samples ++ [(task, x)]) := by
  intro j task' there
  by_cases same : j = i
  · subst same
    obtain rfl : task = task' := by simpa [here] using there
    rw [samplesOf_append]
    simpa [raise] using (peaks _ _ here).insert nonneg
  · have other : task' ≠ task := by
      rintro rfl
      obtain ⟨inside, -⟩ := List.getElem?_eq_some_iff.mp there
      exact same ((List.getElem?_inj inside distinct).mp (there.trans here.symm))
    rw [samplesOf_append_of_ne _ other]
    simpa [raise, same] using peaks _ _ there

theorem stackUsage_nonneg (fpu : Fpu) (tcb : Tcb) : 0 ≤ stackUsage fpu tcb := by
  apply fpu.single_nonneg
  apply mul_nonneg _ (by norm_num)
  apply fpu.single_nonneg
  apply div_nonneg
  · exact fpu.single_nonneg _ (Nat.cast_nonneg _)
  · exact fpu.single_nonneg _ (Nat.cast_nonneg _)

theorem cpuUsage_nonneg (fpu : Fpu) (tcb : Tcb) : 0 ≤ cpuUsage fpu tcb := by
  apply fpu.single_nonneg
  apply fpu.double_nonneg
  exact div_nonneg (Nat.cast_nonneg _) (by norm_num)

/-- The tasks `ids` are found at the head of the list, in this order. -/
inductive Speaks (ids : List Nat) : List Nat → List Tcb → Prop where
  | nil {tcbs} : Speaks ids [] tcbs
  | cons {line lines tcb tcbs} (here : ids[line - 1]? = some tcb.task)
      (rest : Speaks ids lines tcbs) : Speaks ids (line :: lines) (tcb :: tcbs)

namespace Table

/-- All that line `line` shows belongs to one task, and its maxima are those of the samples
    taken of it. -/
structure Row (t : Table) (line task : Nat) : Prop where
  name : ∃ text, t.shown line .threadName = some (.name task text)
  prio : ∃ value, t.shown line .prio = some (.prio task value)
  stackUsage : ∃ x, t.shown line .stackUsage = some (.usage task x)
  stackMax : ∃ m, t.shown line .stackMax = some (.usageMax m) ∧
    IsGreatest (samplesOf t.stackSamples task) m
  cpuUsage : ∃ x, t.shown line .cpuUsage = some (.usage task x)
  cpuMax : ∃ m, t.shown line .cpuMax = some (.usageMax m) ∧
    IsGreatest (samplesOf t.cpuSamples task) m

/-- The cell shows what it should if the tasks of the lines are `ids`. -/
def Fits (ids : List Nat) (t : Table) (line : Nat) : Column → Prop
  | .threadName => ∃ task text, ids[line - 1]? = some task ∧
      t.shown line .threadName = some (.name task text)
  | .prio => ∃ task value, ids[line - 1]? = some task ∧
      t.shown line .prio = some (.prio task value)
  | .stackUsage => ∃ task x, ids[line - 1]? = some task ∧
      t.shown line .stackUsage = some (.usage task x) ∧ (task, x) ∈ t.stackSamples
  | .stackMax => t.shown line .stackMax = some (.usageMax (t.stackUsageMax (line - 1)))
  | .cpuUsage => ∃ task x, ids[line - 1]? = some task ∧
      t.shown line .cpuUsage = some (.usage task x) ∧ (task, x) ∈ t.cpuSamples
  | .cpuMax => t.shown line .cpuMax = some (.usageMax (t.cpuUsageMax (line - 1)))

variable {fpu : Fpu} {ids : List Nat} {t u : Table} {col : Column} {line : Nat} {tcb : Tcb}

/-! ## One cell -/

theorem printCell_same {lock : Lock} {x : Shown} {err : Option OsErr}
    (printed : t.printCell lock line col x = (u, err)) :
    (∀ line' col', ¬ (line' = line ∧ col' = col) → u.shown line' col' = t.shown line' col') ∧
      u.stackUsageMax = t.stackUsageMax ∧ u.cpuUsageMax = t.cpuUsageMax ∧
      u.stackSamples = t.stackSamples ∧ u.cpuSamples = t.cpuSamples := by
  unfold printCell at printed
  split at printed <;> cases printed
  · exact ⟨fun _ _ _ => rfl, rfl, rfl, rfl, rfl⟩
  · exact ⟨fun _ _ other => if_neg other, rfl, rfl, rfl, rfl⟩

theorem printCell_shown {lock : Lock} {x : Shown}
    (printed : t.printCell lock line col x = (u, none)) : u.shown line col = some x := by
  unfold printCell at printed
  split at printed
  · cases printed
  · obtain ⟨rfl, -⟩ := Prod.mk.inj printed
    exact if_pos ⟨rfl, rfl⟩

theorem freshCell_printed {lock : Lock} {err : Option OsErr}
    (done : freshCell fpu lock col line tcb t = (u, err)) :
    (content fpu col line tcb t).1.printCell lock line col (content fpu col line tcb t).2 =
      (u, err) :=
  done

/-- Where `ptr` is `NULL` the loop is left with an error of the lock. -/
theorem freshNull_printed {lock : Lock} {err : Option OsErr}
    (done : freshNull lock col line t = some (u, err)) :
    err ≠ none ∧ ∃ x, t.printCell lock line col x = (u, err) := by
  unfold freshNull at done
  cases col with
  | threadName | stackUsage | cpuUsage => cases done
  | prio =>
      dsimp only at done
      split at done
      · rename_i error refused
        cases done
        refine ⟨Option.some_ne_none error, .usageMax 0, ?_⟩
        unfold printCell
        rw [refused]
      · cases done
  | stackMax | cpuMax =>
      dsimp only at done
      split at done
      · rename_i error printed
        cases done
        exact ⟨Option.some_ne_none error, _, printed⟩
      · cases done

theorem Fits.kept_by_print {lock : Lock} {err : Option OsErr} {x : Shown}
    (printed : t.printCell lock line col x = (u, err)) {line' : Nat} {col' : Column}
    (fits : t.Fits ids line' col') (away : ¬ (line' = line ∧ col' = col)) :
    u.Fits ids line' col' := by
  obtain ⟨shown, stackMax, cpuMax, stack, cpu⟩ := printCell_same printed
  have shown := shown line' col' away
  cases col' with
  | threadName | prio => simpa only [Fits, shown] using fits
  | stackUsage => simpa only [Fits, shown, stack] using fits
  | stackMax => simpa only [Fits, shown, stackMax] using fits
  | cpuUsage => simpa only [Fits, shown, cpu] using fits
  | cpuMax => simpa only [Fits, shown, cpuMax] using fits

/-- A cell of an earlier column, or of another line, is as good as before. -/
theorem Fits.kept_by_cell {lock : Lock} {err : Option OsErr}
    (done : freshCell fpu lock col line tcb t = (u, err)) {line' : Nat} {col' : Column}
    (fits : t.Fits ids line' col') (before : col'.num < col.num ∨ col' = col ∧ line' ≠ line) :
    u.Fits ids line' col' := by
  obtain ⟨shown, stackMax, cpuMax, stack, cpu⟩ := printCell_same (freshCell_printed done)
  have away : ¬ (line' = line ∧ col' = col) := by
    rintro ⟨rfl, rfl⟩
    simp at before
  have shown := shown line' col' away
  have same : (content fpu col line tcb t).1.shown = t.shown := by
    cases col <;> rfl
  rw [same] at shown
  cases col' with
  | threadName => simpa only [Fits, shown] using fits
  | prio => simpa only [Fits, shown] using fits
  | stackUsage =>
      obtain ⟨task, x, named, fits, sampled⟩ := fits
      refine ⟨task, x, named, shown.trans fits, ?_⟩
      rw [stack]
      cases col <;> simp [content, sampled]
  | stackMax =>
      have same : (content fpu col line tcb t).1.stackUsageMax = t.stackUsageMax := by
        cases col <;> simp [Column.num] at before <;> rfl
      simpa only [Fits, shown, stackMax, same] using fits
  | cpuUsage =>
      obtain ⟨task, x, named, fits, sampled⟩ := fits
      refine ⟨task, x, named, shown.trans fits, ?_⟩
      rw [cpu]
      cases col <;> simp [content, sampled]
  | cpuMax =>
      have same : (content fpu col line tcb t).1.cpuUsageMax = t.cpuUsageMax := by
        cases col <;> simp [Column.num] at before
        rfl
      simpa only [Fits, shown, cpuMax, same] using fits

theorem freshCell_fits {lock : Lock} (done : freshCell fpu lock col line tcb t = (u, none))
    (here : ids[line - 1]? = some tcb.task) : u.Fits ids line col := by
  obtain ⟨-, stackMax, cpuMax, stack, cpu⟩ := printCell_same (freshCell_printed done)
  have shown := printCell_shown (freshCell_printed done)
  cases col with
  | threadName => exact ⟨_, _, here, shown⟩
  | prio => exact ⟨_, _, here, shown⟩
  | stackUsage => exact ⟨_, _, here, shown, by simp [stack, content]⟩
  | stackMax => simpa only [Fits, stackMax, content] using shown
  | cpuUsage => exact ⟨_, _, here, shown, by simp [cpu, content]⟩
  | cpuMax => simpa only [Fits, cpuMax, content] using shown

/-- The maxima and the samples, taken together. -/
def Peaked (ids : List Nat) (t : Table) : Prop :=
  Peaks ids t.stackUsageMax t.stackSamples ∧ Peaks ids t.cpuUsageMax t.cpuSamples

theorem Peaked.kept_by_cell (peaked : t.Peaked ids) (distinct : ids.Nodup) {lock : Lock}
    {err : Option OsErr} (done : freshCell fpu lock col line tcb t = (u, err))
    (here : ids[line - 1]? = some tcb.task) : u.Peaked ids := by
  obtain ⟨-, stackMax, cpuMax, stack, cpu⟩ := printCell_same (freshCell_printed done)
  unfold Peaked
  rw [stackMax, cpuMax, stack, cpu]
  cases col with
  | threadName | prio | stackMax | cpuMax => exact peaked
  | stackUsage => exact ⟨peaked.1.raised distinct here (stackUsage_nonneg fpu tcb), peaked.2⟩
  | cpuUsage => exact ⟨peaked.1, peaked.2.raised distinct here (cpuUsage_nonneg fpu tcb)⟩

/-! ## The loops -/

theorem Fits.kept_by_column {lock : Nat → Lock} {lines : List Nat} {tcbs : List Tcb}
    {err : Option OsErr} (done : freshColumn fpu lock col lines tcbs t = some (u, err))
    {line' : Nat} {col' : Column} (fits : t.Fits ids line' col')
    (before : col'.num < col.num ∨ col' = col ∧ line' ∉ lines) : u.Fits ids line' col' := by
  induction lines generalizing t tcbs with
  | nil =>
      cases done
      exact fits
  | cons line lines ih =>
      simp only [List.mem_cons, not_or] at before
      cases tcbs with
      | nil =>
          obtain ⟨-, x, printed⟩ := freshNull_printed done
          apply fits.kept_by_print printed
          rintro ⟨rfl, rfl⟩
          simp at before
      | cons tcb tcbs =>
          unfold freshColumn at done
          split at done
          · rename_i cell
            cases done
            exact fits.kept_by_cell cell (before.imp_right fun same => ⟨same.1, same.2.1⟩)
          · rename_i cell
            apply ih done (fits.kept_by_cell cell _)
            · exact before.imp_right fun same => ⟨same.1, same.2.2⟩
            · exact before.imp_right fun same => ⟨same.1, same.2.1⟩

theorem freshColumn_fits {lock : Nat → Lock} {lines : List Nat} {tcbs : List Tcb}
    (speaks : Speaks ids lines tcbs) (distinct : lines.Nodup)
    (done : freshColumn fpu lock col lines tcbs t = some (u, none)) :
    ∀ line ∈ lines, u.Fits ids line col := by
  induction speaks generalizing t with
  | nil => nofun
  | @cons line lines tcb tcbs here rest ih =>
      obtain ⟨fresh, distinct⟩ := List.nodup_cons.mp distinct
      unfold freshColumn at done
      split at done
      · cases done
      · rename_i cell
        intro line' member
        rcases List.mem_cons.mp member with rfl | member
        · exact (freshCell_fits cell here).kept_by_column done (.inr ⟨rfl, fresh⟩)
        · exact ih distinct done line' member

theorem Peaked.kept_by_column (peaked : t.Peaked ids) (distinct : ids.Nodup)
    {lock : Nat → Lock} {lines : List Nat} {tcbs : List Tcb} (speaks : Speaks ids lines tcbs)
    {err : Option OsErr} (done : freshColumn fpu lock col lines tcbs t = some (u, err)) :
    u.Peaked ids := by
  induction speaks generalizing t with
  | nil =>
      cases done
      exact peaked
  | cons here rest ih =>
      unfold freshColumn at done
      split at done
      · rename_i cell
        cases done
        exact peaked.kept_by_cell distinct cell here
      · rename_i cell
        exact ih (peaked.kept_by_cell distinct cell here) done

theorem Fits.kept {lock : Column → Nat → Lock} {cols : List Column} {tcbs : List Tcb}
    {err : Option OsErr} (done : freshColumns fpu lock tcbs cols t = some (u, err))
    {line : Nat} {col' : Column} (fits : t.Fits ids line col')
    (before : ∀ col ∈ cols, col'.num < col.num) : u.Fits ids line col' := by
  induction cols generalizing t with
  | nil =>
      cases done
      exact fits
  | cons col cols ih =>
      unfold freshColumns at done
      have first := before col (by simp)
      split at done
      · cases done
      · rename_i column
        cases done
        exact fits.kept_by_column column (.inl first)
      · rename_i column
        apply ih done (fits.kept_by_column column (.inl first))
        intro col member
        exact before col (List.mem_cons_of_mem _ member)

theorem freshColumns_fits {lock : Column → Nat → Lock} {cols : List Column} {tcbs : List Tcb}
    (speaks : Speaks ids tableLines tcbs) (sorted : cols.Pairwise fun a b => a.num < b.num)
    (done : freshColumns fpu lock tcbs cols t = some (u, none)) :
    ∀ col ∈ cols, ∀ line ∈ tableLines, u.Fits ids line col := by
  induction cols generalizing t with
  | nil => nofun
  | cons col cols ih =>
      obtain ⟨first, sorted⟩ := List.pairwise_cons.mp sorted
      unfold freshColumns at done
      split at done
      · cases done
      · cases done
      · rename_i column
        intro col' member line below
        rcases List.mem_cons.mp member with rfl | member
        · exact (freshColumn_fits speaks (by decide) column line below).kept done first
        · exact ih sorted done col' member line below

theorem Peaked.kept (peaked : t.Peaked ids) (distinct : ids.Nodup)
    {lock : Column → Nat → Lock} {cols : List Column} {tcbs : List Tcb}
    (speaks : Speaks ids tableLines tcbs) {err : Option OsErr}
    (done : freshColumns fpu lock tcbs cols t = some (u, err)) : u.Peaked ids := by
  induction cols generalizing t with
  | nil =>
      cases done
      exact peaked
  | cons col cols ih =>
      unfold freshColumns at done
      split at done
      · cases done
      · rename_i column
        cases done
        exact peaked.kept_by_column distinct speaks column
      · rename_i column
        exact ih (peaked.kept_by_column distinct speaks column) done

theorem freshColumn_returns {lock : Nat → Lock} {lines : List Nat} {tcbs : List Tcb}
    (many : lines.length ≤ tcbs.length) :
    ∃ result, freshColumn fpu lock col lines tcbs t = some result := by
  induction lines generalizing tcbs t with
  | nil => exact ⟨_, rfl⟩
  | cons line lines ih =>
      cases tcbs with
      | nil => cases many
      | cons tcb tcbs =>
          unfold freshColumn
          split
          · exact ⟨_, rfl⟩
          · exact ih (Nat.le_of_succ_le_succ many)

theorem freshColumns_returns {lock : Column → Nat → Lock} {cols : List Column} {tcbs : List Tcb}
    (many : tableLines.length ≤ tcbs.length) :
    ∃ result, freshColumns fpu lock tcbs cols t = some result := by
  induction cols generalizing t with
  | nil => exact ⟨_, rfl⟩
  | cons col cols ih =>
      have column : ∃ r, freshColumn fpu (lock col) col tableLines tcbs t = some r :=
        freshColumn_returns many
      obtain ⟨⟨u, err⟩, column⟩ := column
      unfold freshColumns
      rw [column]
      cases err with
      | none => exact ih
      | some err => exact ⟨_, rfl⟩

/-! ## The names -/

theorem nameTasks_same {lock : Nat → Lock} {temp : Nat} {tcbs : List Tcb} {err : Option OsErr}
    (done : nameTasks lock temp tcbs t = (u, err))
    (away : ∀ k < tcbs.length, (temp + k + 1) % 2 ^ 16 ≠ line) :
    u.shown line .threadName = t.shown line .threadName := by
  induction tcbs generalizing t temp with
  | nil =>
      cases done
      rfl
  | cons tcb tcbs ih =>
      simp only [nameTasks] at done
      have first : line ≠ (temp + 1) % 2 ^ 16 := (away 0 (by simp)).symm
      have later : ∀ k < tcbs.length, ((temp + 1) % 2 ^ 16 + k + 1) % 2 ^ 16 ≠ line := by
        intro k below
        have other := away (k + 1) (by simpa using below)
        omega
      split at done
      · split at done
        · rename_i printed
          cases done
          exact (printCell_same printed).1 _ _ fun same => first same.1
        · rename_i printed
          exact (ih done later).trans ((printCell_same printed).1 _ _ fun same => first same.1)
      · exact ih done later

theorem nameTasks_rest {lock : Nat → Lock} {temp : Nat} {tcbs : List Tcb} {err : Option OsErr}
    (done : nameTasks lock temp tcbs t = (u, err)) (peaked : t.Peaked ids) : u.Peaked ids := by
  induction tcbs generalizing t temp with
  | nil =>
      cases done
      exact peaked
  | cons tcb tcbs ih =>
      have printed : ∀ {t' : Table} {e : Option OsErr} {x : Shown} {line : Nat},
          t.printCell (lock tcb.task) line .threadName x = (t', e) → t'.Peaked ids := by
        intro t' e x line printed
        obtain ⟨-, stackMax, cpuMax, stack, cpu⟩ := printCell_same printed
        unfold Peaked
        rw [stackMax, cpuMax, stack, cpu]
        exact peaked
      simp only [nameTasks] at done
      split at done
      · split at done
        · rename_i cell
          cases done
          exact printed cell
        · rename_i cell
          exact ih done (printed cell)
      · exact ih done peaked

theorem nameTasks_names {lock : Nat → Lock} {temp : Nat} {tcbs : List Tcb}
    (done : nameTasks lock temp tcbs t = (u, none)) (few : temp + tcbs.length ≤ 2 ^ 16)
    {i : Nat} (there : tcbs[i]? = some tcb) (below : temp + i + 1 < lineCnt) :
    u.shown (temp + i + 1) .threadName = some (.name tcb.task tcb.name) := by
  induction tcbs generalizing t temp i with
  | nil => simp at there
  | cons first tcbs ih =>
      unfold lineCnt at below
      simp only [List.length_cons] at few
      have counts : (temp + 1) % 2 ^ 16 = temp + 1 := by omega
      simp only [nameTasks] at done
      rw [counts] at done
      have shows : temp + 1 < lineCnt := by
        unfold lineCnt
        omega
      rw [if_pos shows] at done
      split at done
      · cases done
      · rename_i printed
        cases i with
        | zero =>
            obtain rfl : first = tcb := by simpa using there
            rw [nameTasks_same done]
            · exact printCell_shown printed
            · intro k inside
              omega
        | succ i =>
            have next := ih done (by omega) (by simpa using there)
              (by unfold lineCnt; omega)
            rwa [show temp + (i + 1) + 1 = temp + 1 + i + 1 by omega]

end Table

theorem tableLines_get {k line : Nat} (at' : tableLines[k]? = some line) : line = k + 1 := by
  have range : tableLines = List.range' 1 7 := rfl
  obtain ⟨inside, same⟩ := List.getElem?_eq_some_iff.mp at'
  simp only [range, List.getElem_range'] at same
  omega

theorem Speaks.of_get {ids lines : List Nat} {tcbs : List Tcb}
    (many : lines.length ≤ tcbs.length)
    (each : ∀ (k line : Nat) (tcb : Tcb), lines[k]? = some line → tcbs[k]? = some tcb →
      ids[line - 1]? = some tcb.task) : Speaks ids lines tcbs := by
  induction lines generalizing tcbs with
  | nil => exact .nil
  | cons line lines ih =>
      cases tcbs with
      | nil => simp at many
      | cons tcb tcbs =>
          apply Speaks.cons (each 0 line tcb rfl rfl)
          apply ih (by simpa using many)
          intro k line tcb first second
          exact each (k + 1) line tcb (by simpa using first) (by simpa using second)

namespace Debug

/-- Nothing is lost in the count of the names, and a refresh finds the tasks that were
    named, in the same order. -/
def Steady (s : Debug) : DbgAct → Prop
  | .init _ => s.tcbs.length ≤ 2 ^ 16
  | .fresh _ => s.named = some s.leading
  | _ => True

instance (s : Debug) (a : DbgAct) : Decidable (s.Steady a) :=
  match a with
  | .init _ => inferInstanceAs (Decidable (_ ≤ _))
  | .fresh _ => inferInstanceAs (Decidable (_ = _))
  | .create .. | .delete _ | .update .. => .isTrue trivial

variable {fpu : Fpu} {s s' : Debug}

theorem speaks_leading (many : tableLines.length ≤ s.tcbs.length) :
    Speaks s.leading tableLines s.tcbs := by
  apply Speaks.of_get many
  intro k line tcb at' there
  obtain rfl := tableLines_get at'
  obtain ⟨inside, -⟩ := List.getElem?_eq_some_iff.mp at'
  simp [leading, List.getElem?_take_of_lt inside, there]

theorem leading_get (many : tableLines.length ≤ s.tcbs.length) {line : Nat}
    (member : line ∈ tableLines) : ∃ tcb, s.tcbs[line - 1]? = some tcb ∧
      s.leading[line - 1]? = some tcb.task := by
  obtain ⟨k, at'⟩ := List.getElem?_of_mem member
  obtain rfl := tableLines_get at'
  obtain ⟨inside, -⟩ := List.getElem?_eq_some_iff.mp at'
  have below : k < s.tcbs.length := Nat.lt_of_lt_of_le inside many
  refine ⟨s.tcbs[k], by simp, ?_⟩
  simp [leading, List.getElem?_take_of_lt inside, below]

/-- What is known of the table once the tasks `ids` have been named. -/
structure Named (ids : List Nat) (t : Table) : Prop where
  distinct : ids.Nodup
  length : ids.length = tableLines.length
  names : ∀ line ∈ tableLines, t.Fits ids line .threadName
  peaked : t.Peaked ids

structure Sound (s : Debug) : Prop where
  distinct : (s.tcbs.map Tcb.task).Nodup
  created : ∀ tcb ∈ s.tcbs, tcb.task < s.created
  many : s.named ≠ none → tableLines.length ≤ s.tcbs.length
  early : s.named = none → s.returned = none ∧ ∀ ids, s.table.Peaked ids
  named : ∀ ids, s.named = some ids → Named ids s.table
  full : s.returned = some none → ∀ ids, s.named = some ids →
    ∀ col, ∀ line ∈ tableLines, s.table.Fits ids line col

namespace Sound

theorem start : start.Sound where
  distinct := by simp [Debug.start]
  created := by simp [Debug.start]
  many := by simp [Debug.start]
  early := by
    intro _
    refine ⟨rfl, fun ids => ?_⟩
    have empty (task : Nat) : samplesOf [] task = ∅ := by
      ext x
      simp [samplesOf]
    constructor <;> intro i task _ <;> simpa [Debug.start, Table.blank, empty] using Peak.empty
  named := by simp [Debug.start]
  full := by simp [Debug.start]

/-- The list changes, the table does not. -/
theorem listed (sound : s.Sound) {tcbs : List Tcb} {created : Nat}
    (distinct : (tcbs.map Tcb.task).Nodup) (below : ∀ tcb ∈ tcbs, tcb.task < created)
    (many : s.named ≠ none → tableLines.length ≤ tcbs.length) :
    ({ s with tcbs := tcbs, created := created } : Debug).Sound where
  distinct := distinct
  created := below
  many := many
  early := sound.early
  named := sound.named
  full := sound.full

theorem inits (sound : s.Sound) (unnamed : s.named = none)
    (many : tableLines.length ≤ s.tcbs.length) (few : s.tcbs.length ≤ 2 ^ 16)
    {lock : Nat → Lock} {t : Table} (done : nameTasks lock 0 s.tcbs s.table = (t, none)) :
    ({ s with table := t, named := some s.leading } : Debug).Sound where
  distinct := sound.distinct
  created := sound.created
  many := fun _ => many
  early := nofun
  named := by
    intro ids same
    cases same
    refine ⟨?_, by simp [leading, many], ?_, Table.nameTasks_rest done ((sound.early unnamed).2 _)⟩
    · exact sound.distinct.sublist ((List.take_sublist ..).map _)
    · intro line member
      obtain ⟨tcb, there, first⟩ := leading_get many member
      obtain ⟨k, at'⟩ := List.getElem?_of_mem member
      obtain rfl := tableLines_get at'
      obtain ⟨inside, -⟩ := List.getElem?_eq_some_iff.mp at'
      have shown := Table.nameTasks_names done (by omega) there (by
        simp only [tableLines, List.length_cons, List.length_nil] at inside
        unfold lineCnt
        omega)
      refine ⟨tcb.task, tcb.name, first, ?_⟩
      simpa using shown
  full := by
    intro returned
    rw [(sound.early unnamed).1] at returned
    cases returned

theorem freshes (sound : s.Sound) (steady : s.named = some s.leading)
    {lock : Column → Nat → Lock} {t : Table} {err : Option OsErr}
    (done : appDbgLcdFresh fpu lock s.tcbs s.table = some (t, err)) :
    ({ s with table := t, returned := some err } : Debug).Sound where
  distinct := sound.distinct
  created := sound.created
  many := sound.many
  early := by
    intro unnamed
    rw [steady] at unnamed
    cases unnamed
  named := by
    intro ids same
    have named := sound.named ids same
    obtain rfl : s.leading = ids := Option.some.inj (steady.symm.trans same)
    have many := sound.many (by simp [steady])
    refine ⟨named.distinct, named.length, ?_, ?_⟩
    · intro line member
      exact (named.names line member).kept done (by decide)
    · exact named.peaked.kept named.distinct (speaks_leading many) done
  full := by
    intro returned ids same col line member
    have named := sound.named ids same
    obtain rfl : s.leading = ids := Option.some.inj (steady.symm.trans same)
    obtain rfl : err = none := Option.some.inj returned
    have many := sound.many (by simp [steady])
    have fits := Table.freshColumns_fits (speaks_leading many) (by decide) done
    cases col with
    | threadName => exact (named.names line member).kept done (by decide)
    | prio | stackUsage | stackMax | cpuUsage | cpuMax => exact fits _ (by simp) line member

theorem step (sound : s.Sound) {a : DbgAct} (steady : s.Steady a)
    (moved : s.step fpu a = some s') : s'.Sound := by
  cases a with
  | create name prio stkSize =>
      simp only [Debug.step] at moved
      split at moved <;> cases moved
      · exact sound
      · apply sound.listed
        · simp only [List.map_cons, List.nodup_cons, List.mem_map, not_exists, not_and]
          refine ⟨?_, sound.distinct⟩
          intro tcb member same
          exact absurd (sound.created tcb member) (by omega)
        · intro tcb member
          rcases List.mem_cons.mp member with rfl | member
          · exact Nat.lt_succ_self _
          · exact Nat.lt_succ_of_lt (sound.created tcb member)
        · intro named
          have many := sound.many named
          simp only [List.length_cons]
          omega
  | delete task =>
      simp only [Debug.step] at moved
      split at moved <;> cases moved
      rename_i spared
      apply sound.listed
      · exact sound.distinct.sublist (List.eraseP_sublist.map _)
      · intro tcb member
        exact sound.created tcb (List.mem_of_mem_eraseP member)
      · intro named
        have less := List.le_length_eraseP (p := fun tcb => tcb.task = task) (l := s.tcbs)
        have more : ¬ s.tcbs.length ≤ tableLines.length := by
          intro few
          exact spared ⟨Option.isSome_iff_ne_none.mpr named, few⟩
        omega
  | update task prio stkUsed cpuUsage =>
      simp only [Debug.step] at moved
      cases moved
      have same : (s.tcbs.map fun tcb => if tcb.task = task then
          { tcb with prio := prio, stkUsed := stkUsed, cpuUsage := cpuUsage } else tcb).map
          Tcb.task = s.tcbs.map Tcb.task := by
        simp only [List.map_map]
        apply List.map_congr_left
        intro tcb _
        by_cases here : tcb.task = task <;> simp [here]
      apply sound.listed
      · exact same ▸ sound.distinct
      · intro tcb member
        have member := List.mem_map_of_mem (f := Tcb.task) member
        rw [same] at member
        obtain ⟨tcb', member, task⟩ := List.mem_map.mp member
        exact task ▸ sound.created tcb' member
      · intro named
        simpa using sound.many named
  | init lock =>
      simp only [Debug.step] at moved
      split at moved
      · cases moved
      · rename_i ready
        obtain ⟨unnamed, many⟩ := not_or.mp ready
        split at moved <;> cases moved
        rename_i done
        exact sound.inits (by simpa using unnamed) (Nat.le_of_not_lt many) steady done
  | fresh lock =>
      simp only [Debug.step] at moved
      split at moved
      · cases moved
      · split at moved <;> cases moved
        rename_i done
        exact sound.freshes steady done

end Sound

theorem Sound.returns (sound : s.Sound) (named : s.named ≠ none) (lock : Column → Nat → Lock) :
    ∃ s', s.step fpu (.fresh lock) = some s' := by
  have all : ∃ r, freshColumns fpu lock s.tcbs
      [.prio, .stackUsage, .stackMax, .cpuUsage, .cpuMax] s.table = some r :=
    Table.freshColumns_returns (sound.many named)
  obtain ⟨⟨t, err⟩, done⟩ := all
  refine ⟨{ s with table := t, returned := some err }, ?_⟩
  simp only [Debug.step, if_neg named, appDbgLcdFresh, done]

end Debug

namespace Table

/-- Every line below the header speaks of one task. -/
def Rows (t : Table) : Prop := ∀ line ∈ tableLines, ∃ task, t.Row line task

theorem Peaked.rows {ids : List Nat} {t : Table} (peaked : t.Peaked ids)
    (fits : ∀ col, ∀ line ∈ tableLines, t.Fits ids line col) : t.Rows := by
  intro line member
  obtain ⟨task, text, here, name⟩ := fits .threadName line member
  obtain ⟨task₁, value, here₁, prio⟩ := fits .prio line member
  obtain ⟨task₂, x, here₂, stackUsage, stackSample⟩ := fits .stackUsage line member
  obtain ⟨task₄, y, here₄, cpuUsage, cpuSample⟩ := fits .cpuUsage line member
  obtain rfl := Option.some.inj (here.symm.trans here₁)
  obtain rfl := Option.some.inj (here.symm.trans here₂)
  obtain rfl := Option.some.inj (here.symm.trans here₄)
  exact ⟨task, {
    name := ⟨text, name⟩
    prio := ⟨value, prio⟩
    stackUsage := ⟨x, stackUsage⟩
    stackMax := ⟨_, fits .stackMax line member, (peaked.1 _ _ here).isGreatest stackSample⟩
    cpuUsage := ⟨y, cpuUsage⟩
    cpuMax := ⟨_, fits .cpuMax line member, (peaked.2 _ _ here).isGreatest cpuSample⟩ }⟩

/-- Where the lines speak of one task each, the names and the priorities come from the
    same list of tasks. -/
theorem Rows.same {ids ids' : List Nat} {t : Table} (rows : t.Rows)
    (length : ids.length = tableLines.length) (length' : ids'.length = tableLines.length)
    (names : ∀ line ∈ tableLines, t.Fits ids line .threadName)
    (prios : ∀ line ∈ tableLines, t.Fits ids' line .prio) : ids = ids' := by
  apply List.ext_getElem?
  intro i
  by_cases inside : i < tableLines.length
  · have member : i + 1 ∈ tableLines := by
      have at' : tableLines[i]? = some tableLines[i] := List.getElem?_eq_getElem inside
      have same := tableLines_get at'
      exact same ▸ List.getElem_mem inside
    obtain ⟨task, row⟩ := rows _ member
    obtain ⟨task₀, text, here₀, name⟩ := names _ member
    obtain ⟨task₁, value, here₁, prio⟩ := prios _ member
    obtain ⟨text', name'⟩ := row.name
    obtain ⟨value', prio'⟩ := row.prio
    rw [name'] at name
    rw [prio'] at prio
    cases name
    cases prio
    simpa using here₀.trans here₁.symm
  · rw [List.getElem?_eq_none (by omega), List.getElem?_eq_none (by omega)]

end Table

theorem Debug.Sound.unsteady {fpu : Fpu} {s s' : Debug} (sound : s.Sound)
    {lock : Column → Nat → Lock} (unsteady : ¬ s.Steady (.fresh lock))
    (moved : s.step fpu (.fresh lock) = some s') (returned : s'.returned = some none) :
    ¬ s'.table.Rows := by
  intro rows
  simp only [Debug.step] at moved
  split at moved
  · cases moved
  · rename_i present
    split at moved <;> cases moved
    rename_i t err done
    obtain rfl : err = none := Option.some.inj returned
    obtain ⟨ids, named⟩ := Option.ne_none_iff_exists'.mp present
    have known := sound.named ids named
    have many := sound.many present
    have fits := Table.freshColumns_fits (Debug.speaks_leading many) (by decide) done
    have same : ids = s.leading := by
      apply rows.same known.length (by simp [Debug.leading, many])
      · intro line member
        exact (known.names line member).kept done (by decide)
      · intro line member
        exact fits .prio (by simp) line member
    have steady : s.named = some s.leading := same ▸ named
    exact unsteady steady

/-- After each refresh that is run to its end every line speaks of one task, in a run in
    which all refreshes find the tasks that were named, in the same order, at the head of
    the list. A refresh that finds others there makes some line speak of two. -/
theorem rows_while_steady (fpu : Fpu) {as : List DbgAct} {s : Debug}
    (run : Runs (Debug.step fpu) Debug.Steady Debug.start as s) :
    (s.returned = some none → s.table.Rows) ∧
      ∀ lock, s.named ≠ none → ∃ s', s.step fpu (.fresh lock) = some s' ∧
        (¬ s.Steady (.fresh lock) → s'.returned = some none → ¬ s'.table.Rows) := by
  have sound : s.Sound := by
    apply run.invariant Debug.Sound.start
    intro t a u before steady moved
    exact before.step steady moved
  constructor
  · intro returned
    cases named : s.named with
    | none =>
        rw [(sound.early named).1] at returned
        cases returned
    | some ids => exact (sound.named ids named).peaked.rows (sound.full returned ids named)
  · intro lock named
    obtain ⟨s', moved⟩ := sound.returns named lock
    exact ⟨s', moved, fun unsteady returned => sound.unsteady unsteady moved returned⟩

def Lock.free : Lock := ⟨none, none⟩

def DbgAct.sevenTasks : List DbgAct := List.replicate 7 (.create "" 5 128)

/-- Seven tasks, the usage of the last one going up and down between two refreshes. -/
theorem rows_while_steady_seven : ∃ s : Debug, s.named = some [6, 5, 4, 3, 2, 1, 0] ∧
    s.returned = some none ∧ s.table.Rows := by
  have exhibited : ∃ s : Debug, Runs (Debug.step .exact) Debug.Steady Debug.start
      (DbgAct.sevenTasks ++ [.init fun _ => .free, .update 6 5 64 100, .fresh fun _ _ => .free,
        .update 6 5 64 50, .fresh fun _ _ => .free]) s ∧
      s.named = some [6, 5, 4, 3, 2, 1, 0] ∧ s.returned = some none := exists_run (by decide)
  obtain ⟨s, run, named, returned⟩ := exhibited
  exact ⟨s, named, returned, (rows_while_steady .exact run).1 returned⟩

/-- A task that is created after the names were written moves the others down a line. -/
theorem row_of_two_tasks :
    ¬ ∀ (fpu : Fpu) (as : List DbgAct) (s : Debug),
      Runs (Debug.step fpu) anyStep Debug.start as s → s.returned = some none →
      s.table.Rows := by
  intro always
  have exhibited : ∃ s : Debug, Runs (Debug.step .exact) anyStep Debug.start
      (DbgAct.sevenTasks ++ [.init fun _ => .free, .create "" 4 128, .fresh fun _ _ => .free]) s ∧
      s.returned = some none ∧ s.table.shown 1 .threadName = some (.name 6 "") ∧
      s.table.shown 1 .prio = some (.prio 7 4) := exists_run (by decide)
  obtain ⟨s, run, returned, name, prio⟩ := exhibited
  obtain ⟨task, row⟩ := always _ _ s run returned 1 (by decide)
  obtain ⟨text, name'⟩ := row.name
  obtain ⟨value, prio'⟩ := row.prio
  simp only [name, prio, Option.some.injEq, Shown.name.injEq, Shown.prio.injEq] at name' prio'
  exact absurd (name'.1.trans prio'.1.symm) (by decide)

end ExploreF407.App
