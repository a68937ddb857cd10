import ExploreF407.Kernel.Objects
import ExploreF407.Lib.Machine
import ExploreF407.Sys.Numerals

/-! # The debug table of tasks

`APP_DBGLCDInit` writes the task names once. `APP_DBGLCDFresh` walks the list again for
each of the other columns. Both go by the position of a task in the list, and the maxima
are kept by line.
-/

namespace ExploreF407.App

open Kernel Sys

/-- The members of an `OS_TCB` that are shown. `task` stands for the task itself: no two
    tasks ever created share it. -/
structure Tcb where
  task : Nat
  name : String
  prio : Nat
  stkUsed : Nat
  stkSize : Nat
  cpuUsage : Nat
  deriving Repr, DecidableEq

/-- `(float)ptr->StkUsed / ptr->StkSize * 100`. -/
def stackUsage (fpu : Fpu) (tcb : Tcb) : ℚ :=
  fpu.single (fpu.single (fpu.single tcb.stkUsed / fpu.single tcb.stkSize) * 100)

/-- `ptr->CPUUsage / 100.0`. -/
def cpuUsage (fpu : Fpu) (tcb : Tcb) : ℚ :=
  fpu.single (fpu.double (tcb.cpuUsage / 100))

inductive Column where
  | threadName
  | prio
  | stackUsage
  | stackMax
  | cpuUsage
  | cpuMax
  deriving Repr, DecidableEq

def Column.num : Column → Nat
  | .threadName => 0
  | .prio => 1
  | .stackUsage => 2
  | .stackMax => 3
  | .cpuUsage => 4
  | .cpuMax => 5

/-- What a cell has been made to show, and the task it was read from. The maxima are read
    from the arrays. -/
inductive Shown where
  | name (task : Nat) (text : String)
  | prio (task : Nat) (value : Nat)
  | usage (task : Nat) (percent : ℚ)
  | usageMax (percent : ℚ)
  deriving DecidableEq

/-- The cells on the panel, `StackUsageMax` and `CPUUsageMax`, and a record of the samples
    that were taken of each task. -/
structure Table where
  shown : Nat → Column → Option Shown
  stackUsageMax : Nat → ℚ
  cpuUsageMax : Nat → ℚ
  stackSamples : List (Nat × ℚ)
  cpuSamples : List (Nat × ℚ)

/-- The results of `App_LCDPend` and `App_LCDPost`, `none` for `OS_ERR_NONE`. -/
structure Lock where
  pend : Option OsErr
  post : Option OsErr
  deriving Repr, DecidableEq

namespace Table

def blank : Table where
  shown := fun _ _ => none
  stackUsageMax := fun _ => 0
  cpuUsageMax := fun _ => 0
  stackSamples := []
  cpuSamples := []

/-- `BSP_LCDPrintCell` under the lock. -/
def printCell (t : Table) (lock : Lock) (line : Nat) (col : Column) (x : Shown) :
    Table × Option OsErr :=
  match lock.pend with
  | some err => (t, some err)
  | none => ({ t with
      shown := fun line' col' =>
        if line' = line ∧ col' = col then some x else t.shown line' col' }, lock.post)

end Table

/-- `if(usage > max[i]) max[i] = usage`. -/
def raise (max : Nat → ℚ) (i : Nat) (usage : ℚ) : Nat → ℚ :=
  fun j => if j = i then if usage > max i then usage else max i else max j

/-- The content of the cell in line `line`, with the sampling that comes before. The names
    are not filled in here. -/
def content (fpu : Fpu) (col : Column) (line : Nat) (tcb : Tcb) (t : Table) : Table × Shown :=
  match col with
  | .threadName => (t, .name tcb.task tcb.name)
  | .prio => (t, .prio tcb.task tcb.prio)
  | .stackUsage =>
      ({ t with
        stackUsageMax := raise t.stackUsageMax (line - 1) (stackUsage fpu tcb)
        stackSamples := t.stackSamples ++ [(tcb.task, stackUsage fpu tcb)] },
        .usage tcb.task (stackUsage fpu tcb))
  | .stackMax => (t, .usageMax (t.stackUsageMax (line - 1)))
  | .cpuUsage =>
      ({ t with
        cpuUsageMax := raise t.cpuUsageMax (line - 1) (cpuUsage fpu tcb)
        cpuSamples := t.cpuSamples ++ [(tcb.task, cpuUsage fpu tcb)] },
        .usage tcb.task (cpuUsage fpu tcb))
  | .cpuMax => (t, .usageMax (t.cpuUsageMax (line - 1)))

/-- The body of both loops of `APP_DBGLCDFresh`. -/
def freshCell (fpu : Fpu) (lock : Lock) (col : Column) (line : Nat) (tcb : Tcb) (t : Table) :
    Table × Option OsErr :=
  let (t, x) := content fpu col line tcb t
  t.printCell lock line col x

/-- The same where `ptr` is `NULL`; `none` where it is read through. Of the priority only the
    address is taken before the lock, and a column of maxima reads `ptr->DbgNextPtr` alone. -/
def freshNull (lock : Lock) (col : Column) (line : Nat) (t : Table) :
    Option (Table × Option OsErr) :=
  match col with
  | .threadName => none
  | .prio => match lock.pend with
      | some err => some (t, some err)
      | none => none
  | .stackUsage => none
  | .stackMax => match t.printCell lock line col (.usageMax (t.stackUsageMax (line - 1))) with
      | (t, some err) => some (t, some err)
      | (_, none) => none
  | .cpuUsage => none
  | .cpuMax => match t.printCell lock line col (.usageMax (t.cpuUsageMax (line - 1))) with
      | (t, some err) => some (t, some err)
      | (_, none) => none

/-- `temp1` runs over the lines while `ptr` walks the list. -/
def freshColumn (fpu : Fpu) (lock : Nat → Lock) (col : Column) :
    List Nat → List Tcb → Table → Option (Table × Option OsErr)
  | [], _, t => some (t, none)
  | line :: _, [], t => freshNull (lock line) col line t
  | line :: lines, tcb :: tcbs, t => match freshCell fpu (lock line) col line tcb t with
      | (t, some err) => some (t, some err)
      | (t, none) => freshColumn fpu lock col lines tcbs t

def lineCnt : Nat := 8

def tableLines : List Nat := [1, 2, 3, 4, 5, 6, 7]

/-- `temp0` runs over the columns. -/
def freshColumns (fpu : Fpu) (lock : Column → Nat → Lock) (tcbs : List Tcb) :
    List Column → Table → Option (Table × Option OsErr)
  | [], t => some (t, none)
  | col :: cols, t => match freshColumn fpu (lock col) col tableLines tcbs t with
      | none => none
      | some (t, some err) => some (t, some err)
      | some (t, none) => freshColumns fpu lock tcbs cols t

def appDbgLcdFresh (fpu : Fpu) (lock : Column → Nat → Lock) (tcbs : List Tcb) (t : Table) :
    Option (Table × Option OsErr) :=
  freshColumns fpu lock tcbs [.prio, .stackUsage, .stackMax, .cpuUsage, .cpuMax] t

/-- The loop of `APP_DBGLCDInit` that fills in the names; `temp` is 16 bits wide. The lock
    is taken once for each name. -/
def nameTasks (lock : Nat → Lock) (temp : Nat) : List Tcb → Table → Table × Option OsErr
  | [], t => (t, none)
  | tcb :: tcbs, t =>
      let temp := (temp + 1) % 2 ^ 16
      if temp < lineCnt then
        match t.printCell (lock tcb.task) temp .threadName (.name tcb.task tcb.name) with
        | (t, some err) => (t, some err)
        | (t, none) => nameTasks lock temp tcbs t
      else nameTasks lock temp tcbs t

/-! ## The tasks over time -/

inductive DbgAct where
  | create (name : String) (prio stkSize : Nat)
  | delete (task : Nat)
  /-- The kernel changes what a TCB says of its task. -/
  | update (task prio stkUsed cpuUsage : Nat)
  | init (lock : Nat → Lock)
  | fresh (lock : Column → Nat → Lock)

/-- `OSTaskDbgListPtr`, the number of tasks created so far, and the table. `named` holds
    the first seven tasks of the list that `APP_DBGLCDInit` was given, `returned` the
    result of the last refresh. -/
structure Debug where
  tcbs : List Tcb
  created : Nat
  table : Table
  named : Option (List Nat)
  returned : Option (Option OsErr)

def stkSizeMin : Nat := 64

namespace Debug

def start : Debug where
  tcbs := []
  created := 0
  table := .blank
  named := none
  returned := none

/-- The tasks that a table has lines for. -/
def leading (s : Debug) : List Nat := (s.tcbs.take tableLines.length).map Tcb.task

/-- One event. From the initialisation on, the list holds seven tasks at least. -/
def step (fpu : Fpu) (s : Debug) : DbgAct → Option Debug
  | .create name prio stkSize =>
      if stkSize < stkSizeMin then some s
      else
        let tcb : Tcb :=
          { task := s.created, name := name, prio := prio, stkUsed := 0, stkSize := stkSize
            cpuUsage := 0 }
        some { s with tcbs := tcb :: s.tcbs, created := s.created + 1 }
  | .delete task =>
      if s.named.isSome ∧ s.tcbs.length ≤ tableLines.length then none
      else some { s with tcbs := s.tcbs.eraseP fun tcb => tcb.task = task }
  | .update task prio stkUsed cpuUsage =>
      some { s with tcbs := s.tcbs.map fun tcb =>
        if tcb.task = task then
          { tcb with prio := prio, stkUsed := stkUsed, cpuUsage := cpuUsage }
        else tcb }
  | .init lock =>
      if s.named.isSome ∨ s.tcbs.length < tableLines.length then none
      else match nameTasks lock 0 s.tcbs s.table with
        | (_, some _) => none
        | (t, none) => some { s with table := t, named := some s.leading }
  | .fresh lock =>
      if s.named = none then none
      else match appDbgLcdFresh fpu lock s.tcbs s.table with
        | none => none
        | some (t, err) => some { s with table := t, returned := some err }

end Debug

end ExploreF407.App
