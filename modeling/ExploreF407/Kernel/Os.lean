import ExploreF407.Kernel.RdyList
import ExploreF407.Kernel.PendList
import ExploreF407.Kernel.TickList

/-! # The kernel

The tasks, semaphores and mutexes of uC/OS-III with the lists that hold the
tasks, and the internal functions of `os_core.c`, `os_tick.c`, `os_task.c` and
`os_mutex.c` that move tasks from list to list. Every field of the control
blocks is a function on the tasks `ι`, the semaphores `σ` or the mutexes `μ`.

A function returns `none` where it would follow a null pointer. Loops along a
list of tasks are given one round more than there are tasks.
-/

namespace ExploreF407.Kernel

inductive TaskState where
  | rdy
  | dly
  | pend
  | pendTimeout
  | suspended
  | dlySuspended
  | pendSuspended
  | pendTimeoutSuspended
  | del
  deriving Repr, DecidableEq

namespace TaskState

/-- The bit for a delay or a timeout. -/
def timed : TaskState → Bool
  | dly | pendTimeout | dlySuspended | pendTimeoutSuspended => true
  | _ => false

/-- The bit for a task that pends. -/
def pending : TaskState → Bool
  | pend | pendTimeout | pendSuspended | pendTimeoutSuspended => true
  | _ => false

/-- The bit for a task that is suspended. -/
def held : TaskState → Bool
  | suspended | dlySuspended | pendSuspended | pendTimeoutSuspended => true
  | _ => false

/-- The state behind a wait of any kind. -/
def woken (state : TaskState) : TaskState := if state.held then suspended else rdy

end TaskState

inductive PendOn where
  | nothing
  | flag
  | taskQ
  | cond
  | mutex
  | q
  | sem
  | taskSem
  deriving Repr, DecidableEq

inductive PendStatus where
  | ok
  | abort
  | del
  | timeout
  deriving Repr, DecidableEq

def osCfgPrioMax : Nat := 32

/-- The fields of the task control blocks that stand in no list. -/
structure Tcbs (ι μ : Type) where
  taskState : ι → TaskState
  prio : ι → Nat
  basePrio : ι → Nat
  pendOn : ι → PendOn
  pendStatus : ι → PendStatus
  suspendCtr : ι → Nat
  semCtr : ι → Nat
  tickCtrPrev : ι → Nat
  timeQuanta : ι → Nat
  timeQuantaCtr : ι → Nat
  mutexGrpHeadPtr : ι → Option μ

structure Sems (σ : Type) where
  /-- `Type` tells that the semaphore has been created. -/
  type : σ → Bool
  ctr : σ → Nat

structure Mutexes (ι μ : Type) where
  type : μ → Bool
  grpNextPtr : μ → Option μ
  ownerTcbPtr : μ → Option ι
  ownerNestingCtr : μ → Nat

structure Sched (ι : Type) where
  idleTask : ι
  tcbCur : ι
  tcbHighRdy : ι
  prioCur : Nat
  prioHighRdy : Nat
  /-- A context switch is pending. -/
  pendSv : Bool
  lockNestingCtr : Nat
  intNestingCtr : Nat
  roundRobinEn : Bool
  roundRobinDfltTimeQuanta : Nat

structure Os (ι σ μ : Type) where
  tcb : Tcbs ι μ
  rdyList : RdyLists ι
  pendList : PendLists ι (σ ⊕ μ)
  tickList : TickList ι
  sem : Sems σ
  mutex : Mutexes ι μ
  sched : Sched ι
  /-- `OSTaskQty`. -/
  taskQty : Nat

namespace Os

variable {ι σ μ : Type} [DecidableEq ι] [DecidableEq σ] [DecidableEq μ]

/-! ## Ready list, pend list and tick list of a task -/

def rdyListInsert (os : Os ι σ μ) (t : ι) : Option (Os ι σ μ) :=
  (osRdyListInsert os.rdyList os.sched.prioCur (os.tcb.prio t) t).map fun r => { os with rdyList := r }

def rdyListRemove (os : Os ι σ μ) (t : ι) : Os ι σ μ :=
  { os with rdyList := osRdyListRemove os.rdyList (os.tcb.prio t) t }

def pendListRemove (os : Os ι σ μ) (t : ι) : Option (Os ι σ μ) :=
  (osPendListRemove os.pendList t).map fun l => { os with pendList := l }

def tickListRemove (os : Os ι σ μ) (t : ι) : Os ι σ μ :=
  { os with tickList := osTickListRemove os.tickList t }

section Rounds

variable [Fintype ι]

/-- Enough rounds for every loop along tasks that differ from each other. -/
def rounds (ι : Type) [Fintype ι] : Nat := Fintype.card ι + 1

/-- Enough rounds for a change of priorities, which may go round a circle of tasks and then along
    it once more. -/
def changeRounds (ι : Type) [Fintype ι] : Nat := 2 * rounds ι

def tickListInsert (os : Os ι σ μ) (t : ι) (tickBase time : Nat) : Option (Os ι σ μ × Bool) :=
  (osTickListInsert (rounds ι) os.tickList t tickBase time).map fun
    | (l, valid) => ({ os with tickList := l }, valid)

def pendListChangePrio (os : Os ι σ μ) (t : ι) : Option (Os ι σ μ) :=
  (osPendListChangePrio (rounds ι) os.pendList os.tcb.prio t).map fun l => { os with pendList := l }

/-! ## Blocking and posting -/

def taskBlock (os : Os ι σ μ) (t : ι) (timeout : Nat) : Option (Os ι σ μ) := do
  let os ←
    if 0 < timeout then do
      let (os, _) ← os.tickListInsert t os.tickList.ctr timeout
      some { os with tcb.taskState := Function.update os.tcb.taskState t .pendTimeout }
    else some { os with tcb.taskState := Function.update os.tcb.taskState t .pend }
  some (os.rdyListRemove t)

def pend (os : Os ι σ μ) (obj : Option (σ ⊕ μ)) (t : ι) (pendingOn : PendOn) (timeout : Nat) :
    Option (Os ι σ μ) := do
  let os := { os with
    tcb.pendOn := Function.update os.tcb.pendOn t pendingOn
    tcb.pendStatus := Function.update os.tcb.pendStatus t .ok }
  let os ← os.taskBlock t timeout
  match obj with
  | some obj =>
      let l ← enlist (rounds ι) os.pendList os.tcb.prio obj t
      some { os with pendList := l }
  | none =>
      some { os with
        pendList := { os.pendList with objPtr := Function.update os.pendList.objPtr t none } }

end Rounds

/-- What `OS_Post` and `OS_PendAbort` do with a task that pends, behind its removal from the pend
    list. -/
def pendEnd (os : Os ι σ μ) (t : ι) (status : PendStatus) : Option (Os ι σ μ) := do
  let os' :=
    match os.tcb.taskState t with
    | .pendTimeout | .pendTimeoutSuspended => os.tickListRemove t
    | _ => os
  let os' ←
    match os.tcb.taskState t with
    | .pend | .pendTimeout => do
        let os' ← os'.rdyListInsert t
        some { os' with tcb.taskState := Function.update os.tcb.taskState t .rdy }
    | _ => some { os' with tcb.taskState := Function.update os.tcb.taskState t .suspended }
  some { os' with
    tcb.pendStatus := Function.update os.tcb.pendStatus t status
    tcb.pendOn := Function.update os.tcb.pendOn t .nothing }

/-- `OS_Post`, without the message. -/
def post (os : Os ι σ μ) (obj : Option (σ ⊕ μ)) (t : ι) : Option (Os ι σ μ) :=
  match os.tcb.taskState t with
  | .pend | .pendTimeout | .pendSuspended | .pendTimeoutSuspended => do
      let os ← if obj.isSome then os.pendListRemove t else some os
      os.pendEnd t .ok
  | _ => some os

def pendAbort (os : Os ι σ μ) (t : ι) (reason : PendStatus) : Option (Os ι σ μ) :=
  match os.tcb.taskState t with
  | .pend | .pendTimeout | .pendSuspended | .pendTimeoutSuspended => do
      let os ← os.pendListRemove t
      os.pendEnd t reason
  | _ => some os

/-! ## Priorities and mutexes -/

def mutexGrpAdd (os : Os ι σ μ) (t : ι) (m : μ) : Os ι σ μ :=
  { os with
    mutex.grpNextPtr := Function.update os.mutex.grpNextPtr m (os.tcb.mutexGrpHeadPtr t)
    tcb.mutexGrpHeadPtr := Function.update os.tcb.mutexGrpHeadPtr t (some m) }

/-- The loop of `OS_MutexGrpRemove` behind the mutex `at'`, whose link is followed next. -/
def mutexGrpUnlink (next : μ → Option μ) (m : μ) : Nat → μ → Option (μ → Option μ)
  | 0, _ => none
  | fuel + 1, at' =>
      if next at' = some m then some (Function.update next at' (next m))
      else (next at').bind (mutexGrpUnlink next m fuel)

def mutexGrpRemove [Fintype μ] (os : Os ι σ μ) (t : ι) (m : μ) : Option (Os ι σ μ) :=
  if os.tcb.mutexGrpHeadPtr t = some m then
    some { os with
      tcb.mutexGrpHeadPtr := Function.update os.tcb.mutexGrpHeadPtr t (os.mutex.grpNextPtr m) }
  else do
    let head ← os.tcb.mutexGrpHeadPtr t
    let next ← mutexGrpUnlink os.mutex.grpNextPtr m (rounds μ) head
    some { os with mutex.grpNextPtr := next }

/-- The loop of `OS_MutexGrpPrioFindHighest`. -/
def grpPrio (os : Os ι σ μ) : Nat → Option μ → Nat → Option Nat
  | 0, _, _ => none
  | _ + 1, none, highest => some highest
  | fuel + 1, some m, highest =>
      let highest :=
        match (os.pendList.list (.inr m)).headPtr with
        | none => highest
        | some head => if os.tcb.prio head < highest then os.tcb.prio head else highest
      os.grpPrio fuel (os.mutex.grpNextPtr m) highest

def mutexGrpPrioFindHighest [Fintype μ] (os : Os ι σ μ) (t : ι) : Option Nat :=
  os.grpPrio (rounds μ) (os.tcb.mutexGrpHeadPtr t) (osCfgPrioMax - 1)

/-- The priority that a task has by its mutexes, but no less urgent than its own. -/
def prioNew [Fintype μ] (os : Os ι σ μ) (t : ι) : Option Nat :=
  (os.mutexGrpPrioFindHighest t).map fun p => if os.tcb.basePrio t < p then os.tcb.basePrio t else p

section ChangePrio

variable [Fintype ι] [Fintype μ]

/-- The `switch` of `OS_TaskChangePrio` over the state of the task. -/
def setPrio (os : Os ι σ μ) (t : ι) (prioNew : Nat) : Option (Os ι σ μ) :=
  match os.tcb.taskState t with
  | .rdy =>
      let os := os.rdyListRemove t
      let r := { os.rdyList with prioTbl := osPrioInsert os.rdyList.prioTbl prioNew }
      let os := { os with tcb.prio := Function.update os.tcb.prio t prioNew }
      if t = os.sched.tcbCur then some { os with rdyList := osRdyListInsertHead r prioNew t }
      else (osRdyListInsertTail r prioNew t).map fun r => { os with rdyList := r }
  | .dly | .suspended | .dlySuspended =>
      some { os with tcb.prio := Function.update os.tcb.prio t prioNew }
  | .pend | .pendTimeout | .pendSuspended | .pendTimeoutSuspended =>
      let os := { os with tcb.prio := Function.update os.tcb.prio t prioNew }
      match os.tcb.pendOn t with
      | .flag | .q | .sem | .mutex => os.pendListChangePrio t
      | _ => some os
  | .del => some os

/-- `PendObjPtr` as a pointer to a mutex. -/
def pendMutex (os : Os ι σ μ) (t : ι) : Option μ :=
  (os.pendList.objPtr t).bind Sum.getRight?

/-- The task that owns the mutex for which a task pends. -/
def waitsFor (os : Os ι σ μ) (t : ι) : Option ι := (os.pendMutex t).bind os.mutex.ownerTcbPtr

/-- `OS_TaskChangePrio`, with the given number of rounds: it goes on with the owner of the mutex
    for which the task pends. -/
def changePrio : Nat → Os ι σ μ → ι → Nat → Option (Os ι σ μ)
  | 0, _, _, _ => none
  | fuel + 1, os, t, prioNew =>
      (os.setPrio t prioNew).bind fun os' =>
        if (os.tcb.taskState t).pending ∧ os.tcb.pendOn t = .mutex then
          (os'.pendMutex t).bind fun m =>
            (os'.mutex.ownerTcbPtr m).bind fun owner =>
              if prioNew < os.tcb.prio t then
                if os'.tcb.prio owner ≤ prioNew then some os' else changePrio fuel os' owner prioNew
              else if os'.tcb.prio owner = os.tcb.prio t then
                (os'.prioNew owner).bind fun p =>
                  if p = os'.tcb.prio owner then some os' else changePrio fuel os' owner p
              else changePrio fuel os' owner prioNew
        else some os'

/-- What `OSMutexPendAbort` and `OS_TickListUpdate` do with the owner of a mutex when a task has
    ceased to pend for it. -/
def disinherit (os : Os ι σ μ) (owner t : ι) : Option (Os ι σ μ) :=
  if os.tcb.prio owner ≠ os.tcb.basePrio owner ∧ os.tcb.prio owner = os.tcb.prio t then
    (os.prioNew owner).bind fun p =>
      if p ≠ os.tcb.prio owner then os.changePrio (changeRounds ι) owner p else some os
  else some os

/-! ## Ticks -/

/-- The `switch` in the loop of `OS_TickListUpdate`, for a task whose time has come. -/
def tickExpire (os : Os ι σ μ) (t : ι) : Option (Os ι σ μ) :=
  match os.tcb.taskState t with
  | .dly => { os with tcb.taskState := Function.update os.tcb.taskState t .rdy }.rdyListInsert t
  | .dlySuspended => some { os with tcb.taskState := Function.update os.tcb.taskState t .suspended }
  | state => do
      let owner ←
        if os.tcb.pendOn t = .mutex then (os.pendMutex t).map os.mutex.ownerTcbPtr else some none
      let os ← os.pendListRemove t
      let os ←
        match state with
        | .pendTimeout => do
            let os ← os.rdyListInsert t
            some { os with tcb.taskState := Function.update os.tcb.taskState t .rdy }
        | .pendTimeoutSuspended =>
            some { os with tcb.taskState := Function.update os.tcb.taskState t .suspended }
        | _ => some os
      let os := { os with
        tcb.pendStatus := Function.update os.tcb.pendStatus t .timeout
        tcb.pendOn := Function.update os.tcb.pendOn t .nothing }
      match owner with
      | none => some os
      | some owner => os.disinherit owner t

/-- The loop of `OS_TickListUpdate`, at the first task of the list. -/
def tickLoop : Nat → Os ι σ μ → ι → Nat → Option (Os ι σ μ)
  | 0, _, _, _ => none
  | fuel + 1, os, t, ticks =>
      if os.tickList.remain t = 0 then
        (os.tickExpire t).bind fun os =>
          let (l, ticks) := tickPop os.tickList t ticks
          match l.tcbPtr with
          | none => some { os with tickList := l }
          | some t => tickLoop fuel { os with tickList := l } t ticks
      else some os

def tickListUpdate (os : Os ι σ μ) (ticks : Nat) : Option (Os ι σ μ) :=
  match os.tickList.tcbPtr with
  | none => some os
  | some t =>
      let (l, ticks) := tickPass os.tickList t ticks
      tickLoop (rounds ι) { os with tickList := l } t ticks

def tickUpdate (os : Os ι σ μ) (ticks : Nat) : Option (Os ι σ μ) :=
  { os with
    tickList := { os.tickList with ctr := tickAdd os.tickList.ctr ticks } }.tickListUpdate ticks

end ChangePrio

end Os

end ExploreF407.Kernel
