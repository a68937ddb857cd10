import ExploreF407.Kernel.Mutexes
import ExploreF407.Kernel.Calls
import ExploreF407.Lib.Machine

/-! # The processor

The kernel as tasks and interrupts use it. The tests of a call, its critical
section and the call of `OSSched` behind it are steps of their own, so that an
interrupt may come between them. An interrupt may call services too, ends with
`OSIntExit`, and may be nested. `PendSV` makes the context switch.
-/

namespace ExploreF407.Kernel

/-- How far a task or an interrupt has come. -/
inductive Place (ι σ μ : Type) where
  /-- It is at its next call. -/
  | calls
  /-- It has passed the tests of a call. -/
  | entered (call : Call ι σ μ)
  /-- `OSSched` comes next. -/
  | sched
  /-- In `OSTimeTick`, `OS_SchedRoundRobin` has its critical section next, for the list of the
      priority that the running task had. -/
  | roundRobin (prio : Nat)
  /-- In `OSTimeTick`, `OS_TickUpdate` comes next. -/
  | tickUpdate
  deriving Repr, DecidableEq

variable {ι σ μ : Type}

/-- The task whose control block is about to be filled. -/
def Place.creates : Place ι σ μ → Option ι
  | entered (.taskCreate t _ _) => some t
  | _ => none

/-- The kernel, and how far tasks and interrupts have come. -/
structure Cpu (ι σ μ : Type) where
  os : Os ι σ μ
  task : ι → Place ι σ μ
  /-- The interrupts by their nesting level. -/
  isr : Nat → Place ι σ μ
  /-- The choice of the next task has been put off. -/
  putOff : Bool

inductive Action (ι σ μ : Type) where
  /-- The running task, or the interrupt that runs, calls a service, which makes its tests. -/
  | call (call : Call ι σ μ)
  /-- The service does its critical section. -/
  | critical (call : Call ι σ μ)
  /-- The running task calls `OSSched`, behind a service. -/
  | sched
  | intEnter
  | intExit
  /-- The interrupt of the system timer calls `OSTimeTick`, and the next two are done in it. -/
  | timeTick
  | roundRobin (prio : Nat)
  | tickUpdate
  | pendSv
  deriving Repr, DecidableEq

namespace Cpu

def AtTask (c : Cpu ι σ μ) : Prop :=
  c.os.sched.intNestingCtr = 0 ∧ c.os.sched.pendSv = false

instance (c : Cpu ι σ μ) : Decidable c.AtTask := by
  unfold AtTask
  infer_instance

def place (c : Cpu ι σ μ) : Place ι σ μ :=
  if 0 < c.os.sched.intNestingCtr then c.isr c.os.sched.intNestingCtr else c.task c.os.sched.tcbCur

variable [DecidableEq ι]

/-- The running task or interrupt has done a step. -/
def goOn (c : Cpu ι σ μ) (os : Os ι σ μ) (place : Place ι σ μ) : Cpu ι σ μ :=
  if 0 < c.os.sched.intNestingCtr then
    { c with os := os, isr := Function.update c.isr c.os.sched.intNestingCtr place }
  else { c with os := os, task := Function.update c.task c.os.sched.tcbCur place }

/-- `OSSched` or `OSIntExit` has made its choice. -/
def chosen (c : Cpu ι σ μ) (os : Os ι σ μ) : Cpu ι σ μ :=
  { c with
    os := os
    putOff := c.putOff &&
      (decide (0 < os.sched.intNestingCtr) || decide (0 < os.sched.lockNestingCtr)) }

/-- A control block that another task is about to fill is passed to no call. -/
def Unshared (c : Cpu ι σ μ) (call : Call ι σ μ) : Prop :=
  ∀ t ∈ call.tcb, ∀ r, 0 < c.os.sched.intNestingCtr ∨ r ≠ c.os.sched.tcbCur →
    (c.task r).creates ≠ some t

variable [DecidableEq σ] [DecidableEq μ] [Fintype ι]

omit [DecidableEq σ] [DecidableEq μ] in
instance (c : Cpu ι σ μ) (call : Call ι σ μ) : Decidable (c.Unshared call) := by
  unfold Unshared
  infer_instance

/-- Which actions may come next. The idle task calls no service, and the processor does not nest 250
    interrupts. -/
def Enabled (c : Cpu ι σ μ) : Action ι σ μ → Prop
  | .call call =>
      (0 < c.os.sched.intNestingCtr ∨ c.AtTask ∧ c.os.sched.tcbCur ≠ c.os.sched.idleTask) ∧
        c.place = .calls ∧ call.Given c.os ∧ c.Unshared call
  | .critical call =>
      (0 < c.os.sched.intNestingCtr ∨ c.AtTask) ∧ c.place = .entered call ∧
        call.Proper c.os ∧ c.Unshared call
  | .sched => c.AtTask ∧ c.place = .sched
  | .intEnter => c.os.sched.intNestingCtr < 250
  | .intExit | .timeTick => 0 < c.os.sched.intNestingCtr ∧ c.place = .calls
  | .roundRobin prio => 0 < c.os.sched.intNestingCtr ∧ c.place = .roundRobin prio
  | .tickUpdate => 0 < c.os.sched.intNestingCtr ∧ c.place = .tickUpdate
  | .pendSv => c.os.sched.intNestingCtr = 0 ∧ c.os.sched.pendSv = true

instance (c : Cpu ι σ μ) (a : Action ι σ μ) : Decidable (c.Enabled a) := by
  cases a <;> unfold Enabled <;> infer_instance

/-- An action that keeps every task at the most urgent priority it is entitled to. -/
def Calm (c : Cpu ι σ μ) : Action ι σ μ → Prop
  | .critical call => call.Gentle c.os
  | .tickUpdate => ∀ t, (c.os.tcb.taskState t).timed = true →
      ∀ o ∈ c.os.waitsFor t, c.os.waitsFor o = none
  | _ => True

instance (c : Cpu ι σ μ) (a : Action ι σ μ) : Decidable (c.Calm a) := by
  cases a <;> unfold Calm <;> infer_instance

variable [Fintype μ]

def step (c : Cpu ι σ μ) : Action ι σ μ → Option (Cpu ι σ μ)
  | .call call =>
      some (c.goOn c.os (if c.os.entry call = .none then .entered call else .calls))
  | .critical call =>
      (c.os.critical call).map fun r =>
        -- `OSSched` returns at once in an interrupt
        { c.goOn r.os (if r.sched ∧ c.os.sched.intNestingCtr = 0 then .sched else .calls) with
          putOff := c.putOff || call.noSched }
  | .sched => c.os.osSched.map fun os => (c.goOn c.os .calls).chosen os
  | .intEnter =>
      some { c with
        os := c.os.intEnter
        isr := Function.update c.isr c.os.intEnter.sched.intNestingCtr .calls }
  | .intExit => c.os.intExit.map c.chosen
  | .timeTick =>
      some (c.goOn c.os
        (if c.os.sched.roundRobinEn then .roundRobin c.os.sched.prioCur else .tickUpdate))
  | .roundRobin prio => (c.os.schedRoundRobin prio).map (c.goOn · .tickUpdate)
  | .tickUpdate => (c.os.tickUpdate 1).map (c.goOn · .calls)
  | .pendSv => some { c with os := c.os.pendSvHandler }

end Cpu

/-! ## The start -/

namespace Os

/-- The variables of the kernel before `OSInit` creates the idle task; `tenth` is
    `OSCfg_TickRate_Hz / 10u`. -/
def osInit (idle : ι) (tenth : Nat) : Os ι σ μ where
  tcb := {
    taskState := fun _ => .del
    prio := fun _ => 0
    basePrio := fun _ => 0
    pendOn := fun _ => .nothing
    pendStatus := fun _ => .ok
    suspendCtr := fun _ => 0
    semCtr := fun _ => 0
    tickCtrPrev := fun _ => 0
    timeQuanta := fun _ => 0
    timeQuantaCtr := fun _ => 0
    mutexGrpHeadPtr := fun _ => none }
  rdyList := {
    prevPtr := fun _ => none
    nextPtr := fun _ => none
    list := fun _ => { headPtr := none, tailPtr := none }
    prioTbl := 0#32 }
  pendList := {
    prevPtr := fun _ => none
    nextPtr := fun _ => none
    objPtr := fun _ => none
    list := fun _ => { headPtr := none, tailPtr := none } }
  tickList := {
    prevPtr := fun _ => none
    nextPtr := fun _ => none
    remain := fun _ => 0
    tcbPtr := none
    ctr := 0 }
  sem := { type := fun _ => false, ctr := fun _ => 0 }
  mutex := {
    type := fun _ => false
    grpNextPtr := fun _ => none
    ownerTcbPtr := fun _ => none
    ownerNestingCtr := fun _ => 0 }
  sched := {
    idleTask := idle
    tcbCur := idle
    tcbHighRdy := idle
    prioCur := 0
    prioHighRdy := 0
    pendSv := false
    lockNestingCtr := 0
    intNestingCtr := 0
    roundRobinEn := false
    roundRobinDfltTimeQuanta := tenth }
  taskQty := 0

/-- The tasks for statistics and for timers and the idle task. -/
def kernelTaskCnt : Nat := 3

def osStart (os : Os ι σ μ) : Option (Except ErrCode (Os ι σ μ)) :=
  if os.taskQty ≤ kernelTaskCnt then some (.error .osNoAppTask)
  else
    (highRdy os.rdyList).map fun t =>
      .ok { os with
        sched.prioHighRdy := osPrioGetHighest os.rdyList.prioTbl
        sched.prioCur := osPrioGetHighest os.rdyList.prioTbl
        sched.tcbHighRdy := t
        sched.tcbCur := t }

variable [DecidableEq ι]

/-- Tasks with their priorities and time quanta are created before the start. -/
def createTasks : List (ι × Nat × Nat) → Os ι σ μ → Option (Os ι σ μ)
  | [], os => some os
  | (t, prio, timeQuanta) :: tasks, os =>
      if os.entry (.taskCreate t prio timeQuanta) = .none then
        (os.taskCreate t prio timeQuanta).bind fun r => createTasks tasks r.os
      else createTasks tasks os

end Os

/-- The processor behind `OSInit`, `OSTaskCreate` for some tasks, and `OSStart`. -/
def Cpu.boot [DecidableEq ι] (idle : ι) (tenth : Nat) (tasks : List (ι × Nat × Nat)) :
    Option (Except ErrCode (Cpu ι σ μ)) :=
  ((Os.createTasks ((idle, osCfgPrioMax - 1, 0) :: tasks) (Os.osInit idle tenth)).bind
    Os.osStart).map fun started => started.map fun os =>
      { os := os, task := fun _ => .calls, isr := fun _ => .calls, putOff := false }

end ExploreF407.Kernel
