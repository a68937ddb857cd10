import ExploreF407.Kernel.Os

/-! # The services of the kernel

The calls on semaphores, mutexes, tasks, time and the scheduler: what each does in
its critical section. The tests that come before it are in `Kernel.Calls`, because
interrupts come in between, and so is what comes behind it.
-/

namespace ExploreF407.Kernel

inductive ErrCode where
  | none
  | createIsr
  | delIsr
  | lockNestingOvf
  | mutexNesting
  | mutexNotOwner
  | mutexOvf
  | mutexOwner
  | objCreated
  | objType
  | osNoAppTask
  | pendAbortIsr
  | pendAbortNone
  | pendAbortSelf
  | pendIsr
  | pendWouldBlock
  | postIsr
  | prioInvalid
  | roundRobin1
  | roundRobinDisabled
  | schedLockIsr
  | schedLocked
  | schedNotLocked
  | schedUnlockIsr
  | semOvf
  | setIsr
  | stateInvalid
  | taskChangePrioIsr
  | taskCreateIsr
  | taskNotDly
  | taskNotSuspended
  | taskResumeIsr
  | taskResumeSelf
  | taskSuspendCtrOvf
  | taskSuspendIdle
  | taskSuspendIsr
  | taskSuspended
  | taskWaiting
  | timeDlyIsr
  | timeDlyResumeIsr
  | timeZeroDly
  | yieldIsr
  deriving Repr, DecidableEq

inductive TimeOpt where
  | dly
  | timeout
  | periodic
  | match'
  deriving Repr, DecidableEq

/-- What a service has done at the end of its critical section. -/
structure Served (ι σ μ : Type) where
  os : Os ι σ μ
  /-- The error code and the value returned; a task that blocks finds them out when it goes on. -/
  reply : Option (ErrCode × Nat)
  /-- `OSSched` comes next. -/
  sched : Bool

/-- `(OS_SEM_CTR)-1` and `(OS_NESTING_CTR)-1`. -/
def semCtrMax : Nat := 2 ^ 32 - 1

def nestingCtrMax : Nat := 2 ^ 8 - 1

namespace Os

variable {ι σ μ : Type} [DecidableEq ι] [DecidableEq σ] [DecidableEq μ]

def refuse (os : Os ι σ μ) (err : ErrCode) : Option (Served ι σ μ) := some ⟨os, some (err, 0), false⟩

def served (os : Os ι σ μ) (val : Nat) (sched : Bool) : Option (Served ι σ μ) :=
  some ⟨os, some (.none, val), sched⟩

def blocked (os : Os ι σ μ) : Option (Served ι σ μ) := some ⟨os, none, true⟩

/-! ## The scheduler -/

/-- The choice of the next task, as `OSSched` and `OSIntExit` make it, with the context switch
    when it is another one. -/
def choose (os : Os ι σ μ) : Option (Os ι σ μ) :=
  (highRdy os.rdyList).map fun t =>
    { os with
      sched.prioHighRdy := osPrioGetHighest os.rdyList.prioTbl
      sched.tcbHighRdy := t
      sched.pendSv := os.sched.pendSv || decide (t ≠ os.sched.tcbCur) }

def osSched (os : Os ι σ μ) : Option (Os ι σ μ) :=
  if 0 < os.sched.intNestingCtr then some os
  else if 0 < os.sched.lockNestingCtr then some os
  else os.choose

def intEnter (os : Os ι σ μ) : Os ι σ μ :=
  if 250 ≤ os.sched.intNestingCtr then os
  else { os with sched.intNestingCtr := os.sched.intNestingCtr + 1 }

def intExit (os : Os ι σ μ) : Option (Os ι σ μ) :=
  if os.sched.intNestingCtr = 0 then some os
  else
    let os := { os with sched.intNestingCtr := os.sched.intNestingCtr - 1 }
    if 0 < os.sched.intNestingCtr then some os
    else if 0 < os.sched.lockNestingCtr then some os
    else os.choose

/-- What `OS_CPU_PendSVHandler` does to the variables of the scheduler. -/
def pendSvHandler (os : Os ι σ μ) : Os ι σ μ :=
  { os with
    sched.prioCur := os.sched.prioHighRdy
    sched.tcbCur := os.sched.tcbHighRdy
    sched.pendSv := false }

def schedLock (os : Os ι σ μ) : Option (Served ι σ μ) :=
  served { os with sched.lockNestingCtr := os.sched.lockNestingCtr + 1 } 0 false

def schedUnlock (os : Os ι σ μ) : Option (Served ι σ μ) :=
  let os := { os with sched.lockNestingCtr := os.sched.lockNestingCtr - 1 }
  if 0 < os.sched.lockNestingCtr then os.refuse .schedLocked
  else os.served 0 true

/-- `OSSchedRoundRobinCfg`; `tenth` is `OSCfg_TickRate_Hz / 10u`. -/
def schedRoundRobinCfg (os : Os ι σ μ) (en : Bool) (dfltTimeQuanta tenth : Nat) :
    Option (Served ι σ μ) :=
  served { os with
    sched.roundRobinEn := en
    sched.roundRobinDfltTimeQuanta := if 0 < dfltTimeQuanta then dfltTimeQuanta else tenth } 0 false

/-- The first task goes behind the others of its priority, and the next one gets its time slice. -/
def rotate (os : Os ι σ μ) (prio : Nat) : Option (Os ι σ μ) := do
  let r ← osRdyListMoveHeadToTail os.rdyList prio
  match (r.list prio).headPtr with
  | none => none
  | some t =>
      some { os with
        rdyList := r
        tcb.timeQuantaCtr := Function.update os.tcb.timeQuantaCtr t
          (if os.tcb.timeQuanta t = 0 then os.sched.roundRobinDfltTimeQuanta
            else os.tcb.timeQuanta t) }

def schedRoundRobinYield (os : Os ι σ μ) : Option (Served ι σ μ) :=
  let l := os.rdyList.list os.sched.prioCur
  if l.headPtr = l.tailPtr then os.refuse .roundRobin1
  else (os.rotate os.sched.prioCur).bind fun os => os.served 0 true

/-- `OS_SchedRoundRobin`, for the list of a priority. -/
def schedRoundRobin (os : Os ι σ μ) (prio : Nat) : Option (Os ι σ μ) :=
  let l := os.rdyList.list prio
  match l.headPtr with
  | none => some os
  | some t =>
      if t = os.sched.idleTask then some os
      else
        let os := { os with
          tcb.timeQuantaCtr :=
            Function.update os.tcb.timeQuantaCtr t (os.tcb.timeQuantaCtr t - 1) }
        if 0 < os.tcb.timeQuantaCtr t then some os
        else if l.headPtr = l.tailPtr then some os
        else if 0 < os.sched.lockNestingCtr then some os
        else os.rotate prio

section Rounds

variable [Fintype ι]

/-! ## Semaphores -/

def semCreate (os : Os ι σ μ) (x : σ) (cnt : Nat) : Option (Served ι σ μ) :=
  if os.sem.type x then os.refuse .objCreated
  else
    served { os with
      sem.type := Function.update os.sem.type x true
      sem.ctr := Function.update os.sem.ctr x cnt
      pendList := { os.pendList with
        list := Function.update os.pendList.list (.inl x) { headPtr := none, tailPtr := none } } }
      0 false

def semClr (os : Os ι σ μ) (x : σ) : Os ι σ μ :=
  { os with
    sem.type := Function.update os.sem.type x false
    sem.ctr := Function.update os.sem.ctr x 0
    pendList := { os.pendList with
      list := Function.update os.pendList.list (.inl x) { headPtr := none, tailPtr := none } } }

/-- The loop of `OSSemDel` and of `OSSemPendAbort`, with the number of tasks. It ends behind the
    first task unless `all` are meant. -/
def abortLoop (obj : σ ⊕ μ) (reason : PendStatus) (all : Bool) :
    Nat → Os ι σ μ → Nat → Option (Os ι σ μ × Nat)
  | 0, _, _ => none
  | fuel + 1, os, nbr =>
      match (os.pendList.list obj).headPtr with
      | none => some (os, nbr)
      | some t =>
          (os.pendAbort t reason).bind fun os =>
            if all then abortLoop obj reason all fuel os (nbr + 1) else some (os, nbr + 1)

/-- `OSSemDel`; `always` is the option `OS_OPT_DEL_ALWAYS`. -/
def semDel (os : Os ι σ μ) (x : σ) (always : Bool) : Option (Served ι σ μ) :=
  if always then
    (abortLoop (.inl x) .del true (rounds ι) os 0).bind fun
      | (os, nbr) => (os.semClr x).served nbr true
  else if (os.pendList.list (.inl x)).headPtr = none then (os.semClr x).served 0 false
  else os.refuse .taskWaiting

def semPend (os : Os ι σ μ) (x : σ) (timeout : Nat) (nonBlocking : Bool) : Option (Served ι σ μ) :=
  if 0 < os.sem.ctr x then
    served { os with sem.ctr := Function.update os.sem.ctr x (os.sem.ctr x - 1) }
      (os.sem.ctr x - 1) false
  else if nonBlocking then os.refuse .pendWouldBlock
  else if 0 < os.sched.lockNestingCtr then os.refuse .schedLocked
  else (os.pend (some (.inl x)) os.sched.tcbCur .sem timeout).bind blocked

/-- `OSSemPendAbort`. The loop compares the whole option with `OS_OPT_PEND_ABORT_ALL`. -/
def semPendAbort (os : Os ι σ μ) (x : σ) (all noSched : Bool) : Option (Served ι σ μ) :=
  if (os.pendList.list (.inl x)).headPtr = none then os.refuse .pendAbortNone
  else
    (abortLoop (.inl x) .abort (all && !noSched) (rounds ι) os 0).bind fun
      | (os, nbr) => os.served nbr !noSched

omit [Fintype ι] in
def postLoop (obj : σ ⊕ μ) (all : Bool) : Nat → Os ι σ μ → Option ι → Option (Os ι σ μ)
  | 0, _, _ => none
  | _ + 1, os, none => some os
  | fuel + 1, os, some t =>
      let next := os.pendList.nextPtr t
      (os.post (some obj) t).bind fun os =>
        if all then postLoop obj all fuel os next else some os

def semPost (os : Os ι σ μ) (x : σ) (all noSched : Bool) : Option (Served ι σ μ) :=
  match (os.pendList.list (.inl x)).headPtr with
  | none =>
      if os.sem.ctr x = semCtrMax then os.refuse .semOvf
      else
        served { os with sem.ctr := Function.update os.sem.ctr x (os.sem.ctr x + 1) }
          (os.sem.ctr x + 1) false
  | some t =>
      (postLoop (.inl x) all (rounds ι) os (some t)).bind fun os => os.served 0 !noSched

omit [Fintype ι] in
def semSet (os : Os ι σ μ) (x : σ) (cnt : Nat) : Option (Served ι σ μ) :=
  let set : Os ι σ μ := { os with sem.ctr := Function.update os.sem.ctr x cnt }
  if 0 < os.sem.ctr x then set.served 0 false
  else if (os.pendList.list (.inl x)).headPtr = none then set.served 0 false
  else os.refuse .taskWaiting

/-! ## The semaphore of a task -/

def taskSemPend (os : Os ι σ μ) (timeout : Nat) (nonBlocking : Bool) : Option (Served ι σ μ) :=
  let t := os.sched.tcbCur
  if 0 < os.tcb.semCtr t then
    served { os with tcb.semCtr := Function.update os.tcb.semCtr t (os.tcb.semCtr t - 1) }
      (os.tcb.semCtr t - 1) false
  else if nonBlocking then os.refuse .pendWouldBlock
  else if 0 < os.sched.lockNestingCtr then os.refuse .schedLocked
  else (os.pend none t .taskSem timeout).bind blocked

omit [Fintype ι] in
def taskSemPost (os : Os ι σ μ) (t : ι) (noSched : Bool) : Option (Served ι σ μ) :=
  let signal :=
    if os.tcb.semCtr t = semCtrMax then os.refuse .semOvf
    else
      served { os with tcb.semCtr := Function.update os.tcb.semCtr t (os.tcb.semCtr t + 1) }
        (os.tcb.semCtr t + 1) false
  match os.tcb.taskState t with
  | .rdy | .dly | .suspended | .dlySuspended => signal
  | .pend | .pendTimeout | .pendSuspended | .pendTimeoutSuspended =>
      if os.tcb.pendOn t = .taskSem then
        (os.post none t).bind fun os => os.served (os.tcb.semCtr t) !noSched
      else signal
  | .del => os.refuse .stateInvalid

omit [Fintype ι] in
/-- `OSTaskSemPendAbort`, its second critical section, which aborts whatever wait it finds. -/
def taskSemPendAbort (os : Os ι σ μ) (t : ι) (noSched : Bool) : Option (Served ι σ μ) :=
  (os.pendAbort t .abort).bind fun os => os.served 1 !noSched

omit [Fintype ι] in
def taskSemSet (os : Os ι σ μ) (t : ι) (cnt : Nat) : Option (Served ι σ μ) :=
  if (os.tcb.taskState t).pending ∧ os.tcb.pendOn t = .taskSem then os.refuse .taskWaiting
  else
    served { os with tcb.semCtr := Function.update os.tcb.semCtr t cnt } (os.tcb.semCtr t) false

/-! ## Time -/

def tickListInsertDly (os : Os ι σ μ) (t : ι) (time : Nat) (opt : TimeOpt) :
    Option (Os ι σ μ × ErrCode) :=
  let insert (os : Os ι σ μ) (tickBase : Nat) : Option (Os ι σ μ × ErrCode) :=
    (os.tickListInsert t tickBase time).map fun
      | (os, true) =>
          ({ os with tcb.taskState := Function.update os.tcb.taskState t .dly }, .none)
      | (os, false) => (os, .timeZeroDly)
  match opt with
  | .match' => insert os 0
  | .periodic =>
      if time = 0 then some (os, .timeZeroDly)
      else
        let tickBase := os.tcb.tickCtrPrev t
        let baseOffset := tickSub os.tickList.ctr tickBase
        let tickBase :=
          if time ≤ baseOffset then
            let tickBase := tickAdd tickBase (time * (baseOffset / time))
            if baseOffset % time ≠ 0 then tickAdd tickBase time else tickBase
          else tickBase
        insert
          { os with
            tcb.tickCtrPrev := Function.update os.tcb.tickCtrPrev t (tickAdd tickBase time) }
          tickBase
  | .dly | .timeout => insert os os.tickList.ctr

def timeDly (os : Os ι σ μ) (dly : Nat) (opt : TimeOpt) : Option (Served ι σ μ) :=
  let t := os.sched.tcbCur
  (os.tickListInsertDly t dly opt).bind fun
    | (os, .none) => (os.rdyListRemove t).served 0 true
    | (os, err) => os.refuse err

omit [Fintype ι] in
def timeDlyResume (os : Os ι σ μ) (t : ι) : Option (Served ι σ μ) :=
  match os.tcb.taskState t with
  | .dly =>
      (({ os with tcb.taskState := Function.update os.tcb.taskState t .rdy }.tickListRemove
        t).rdyListInsert t).bind fun os => os.served 0 true
  | .dlySuspended =>
      some ⟨{ os with
        tcb.taskState := Function.update os.tcb.taskState t .suspended }.tickListRemove t,
        some (.taskSuspended, 0), true⟩
  | .del => some ⟨os, some (.stateInvalid, 0), true⟩
  | _ => some ⟨os, some (.taskNotDly, 0), true⟩

/-! ## Tasks -/

omit [Fintype ι] in
def taskInitTCB (os : Os ι σ μ) (t : ι) : Os ι σ μ :=
  { os with
    rdyList := { os.rdyList with
      nextPtr := Function.update os.rdyList.nextPtr t none
      prevPtr := Function.update os.rdyList.prevPtr t none }
    tickList := { os.tickList with
      nextPtr := Function.update os.tickList.nextPtr t none
      prevPtr := Function.update os.tickList.prevPtr t none
      remain := Function.update os.tickList.remain t 0 }
    pendList := { os.pendList with
      nextPtr := Function.update os.pendList.nextPtr t none
      prevPtr := Function.update os.pendList.prevPtr t none
      objPtr := Function.update os.pendList.objPtr t none }
    tcb := {
      taskState := Function.update os.tcb.taskState t .rdy
      prio := Function.update os.tcb.prio t osCfgPrioMax
      basePrio := Function.update os.tcb.basePrio t osCfgPrioMax
      pendOn := Function.update os.tcb.pendOn t .nothing
      pendStatus := Function.update os.tcb.pendStatus t .ok
      suspendCtr := Function.update os.tcb.suspendCtr t 0
      semCtr := Function.update os.tcb.semCtr t 0
      tickCtrPrev := Function.update os.tcb.tickCtrPrev t 0
      timeQuanta := Function.update os.tcb.timeQuanta t 0
      timeQuantaCtr := Function.update os.tcb.timeQuantaCtr t 0
      mutexGrpHeadPtr := Function.update os.tcb.mutexGrpHeadPtr t none } }

omit [Fintype ι] in
/-- `OSTaskCreate`. The control block is filled before the critical section, where nobody else may
    use it yet. -/
def taskCreate (os : Os ι σ μ) (t : ι) (prio timeQuanta : Nat) : Option (Served ι σ μ) :=
  let os := os.taskInitTCB t
  let os := { os with
    tcb.prio := Function.update os.tcb.prio t prio
    tcb.basePrio := Function.update os.tcb.basePrio t prio
    tcb.timeQuanta := Function.update os.tcb.timeQuanta t timeQuanta
    tcb.timeQuantaCtr := Function.update os.tcb.timeQuantaCtr t
      (if timeQuanta = 0 then os.sched.roundRobinDfltTimeQuanta else timeQuanta) }
  let r := { os.rdyList with prioTbl := osPrioInsert os.rdyList.prioTbl prio }
  (osRdyListInsertTail r prio t).bind fun r =>
    served { os with rdyList := r, taskQty := (os.taskQty + 1) % 2 ^ 16 } 0 true

omit [Fintype ι] in
def taskSuspend (os : Os ι σ μ) (t : ι) : Option (Served ι σ μ) :=
  let state (state : TaskState) : Os ι σ μ :=
    { os with
      tcb.taskState := Function.update os.tcb.taskState t state
      tcb.suspendCtr := Function.update os.tcb.suspendCtr t 1 }
  if t = os.sched.tcbCur ∧ 0 < os.sched.lockNestingCtr then os.refuse .schedLocked
  else
    match os.tcb.taskState t with
    | .rdy => ((state .suspended).rdyListRemove t).served 0 true
    | .dly => (state .dlySuspended).served 0 true
    | .pend => (state .pendSuspended).served 0 true
    | .pendTimeout => (state .pendTimeoutSuspended).served 0 true
    | .del => os.refuse .stateInvalid
    | _ =>
        if os.tcb.suspendCtr t = nestingCtrMax then os.refuse .taskSuspendCtrOvf
        else
          served { os with
            tcb.suspendCtr := Function.update os.tcb.suspendCtr t (os.tcb.suspendCtr t + 1) } 0 true

omit [Fintype ι] in
/-- `OSTaskResume`, its second critical section. -/
def taskResume (os : Os ι σ μ) (t : ι) : Option (Served ι σ μ) :=
  let less : Os ι σ μ :=
    { os with tcb.suspendCtr := Function.update os.tcb.suspendCtr t (os.tcb.suspendCtr t - 1) }
  let resume (state : TaskState) : Os ι σ μ :=
    if less.tcb.suspendCtr t = 0 then
      { less with tcb.taskState := Function.update os.tcb.taskState t state }
    else less
  match os.tcb.taskState t with
  | .rdy | .dly | .pend | .pendTimeout => os.refuse .taskNotSuspended
  | .suspended =>
      if less.tcb.suspendCtr t = 0 then
        ((resume .rdy).rdyListInsert t).bind fun os => os.served 0 true
      else less.served 0 true
  | .dlySuspended => (resume .dly).served 0 true
  | .pendSuspended => (resume .pend).served 0 true
  | .pendTimeoutSuspended => (resume .pendTimeout).served 0 true
  | .del => os.refuse .stateInvalid

variable [Fintype μ]

def taskChangePrio (os : Os ι σ μ) (t : ι) (prioNew : Nat) : Option (Served ι σ μ) := do
  let os := { os with tcb.basePrio := Function.update os.tcb.basePrio t prioNew }
  let prioNew ←
    if os.tcb.mutexGrpHeadPtr t ≠ none ∧ os.tcb.prio t < prioNew then
      (os.mutexGrpPrioFindHighest t).map (min prioNew)
    else some prioNew
  let os ← os.changePrio (changeRounds ι) t prioNew
  os.served 0 true

/-! ## Mutexes -/

omit [Fintype ι] [Fintype μ] in
def mutexCreate (os : Os ι σ μ) (m : μ) : Option (Served ι σ μ) :=
  if os.mutex.type m then os.refuse .objCreated
  else
    served { os with
      mutex.type := Function.update os.mutex.type m true
      mutex.grpNextPtr := Function.update os.mutex.grpNextPtr m none
      mutex.ownerTcbPtr := Function.update os.mutex.ownerTcbPtr m none
      mutex.ownerNestingCtr := Function.update os.mutex.ownerNestingCtr m 0
      pendList := { os.pendList with
        list := Function.update os.pendList.list (.inr m) { headPtr := none, tailPtr := none } } }
      0 false

omit [Fintype ι] [Fintype μ] in
def mutexClr (os : Os ι σ μ) (m : μ) : Os ι σ μ :=
  { os with
    mutex.type := Function.update os.mutex.type m false
    mutex.grpNextPtr := Function.update os.mutex.grpNextPtr m none
    mutex.ownerTcbPtr := Function.update os.mutex.ownerTcbPtr m none
    mutex.ownerNestingCtr := Function.update os.mutex.ownerNestingCtr m 0
    pendList := { os.pendList with
      list := Function.update os.pendList.list (.inr m) { headPtr := none, tailPtr := none } } }

def mutexDel (os : Os ι σ μ) (m : μ) (always : Bool) : Option (Served ι σ μ) :=
  let ungroup (os : Os ι σ μ) : Option (Os ι σ μ) :=
    match os.mutex.ownerTcbPtr m with
    | none => some os
    | some owner => os.mutexGrpRemove owner m
  if always then do
    let (os, nbr) ← abortLoop (.inr m) .del true (rounds ι) os 0
    let owner := os.mutex.ownerTcbPtr m
    let os ← ungroup os
    let os ←
      match owner with
      | none => some os
      | some owner =>
          if os.tcb.prio owner ≠ os.tcb.basePrio owner then
            (os.prioNew owner).bind (os.changePrio (changeRounds ι) owner)
          else some os
    (os.mutexClr m).served nbr true
  else if (os.pendList.list (.inr m)).headPtr = none then
    (ungroup os).bind fun os => (os.mutexClr m).served 0 false
  else os.refuse .taskWaiting

def mutexPend (os : Os ι σ μ) (m : μ) (timeout : Nat) (nonBlocking : Bool) :
    Option (Served ι σ μ) :=
  let t := os.sched.tcbCur
  if os.mutex.ownerNestingCtr m = 0 then
    (mutexGrpAdd { os with
      mutex.ownerTcbPtr := Function.update os.mutex.ownerTcbPtr m (some t)
      mutex.ownerNestingCtr := Function.update os.mutex.ownerNestingCtr m 1 } t m).served 0 false
  else if os.mutex.ownerTcbPtr m = some t then
    if os.mutex.ownerNestingCtr m = nestingCtrMax then os.refuse .mutexOvf
    else
      some ⟨{ os with
        mutex.ownerNestingCtr :=
          Function.update os.mutex.ownerNestingCtr m (os.mutex.ownerNestingCtr m + 1) },
        some (.mutexOwner, 0), false⟩
  else if nonBlocking then os.refuse .pendWouldBlock
  else if 0 < os.sched.lockNestingCtr then os.refuse .schedLocked
  else do
    let owner ← os.mutex.ownerTcbPtr m
    let os ←
      if os.tcb.prio t < os.tcb.prio owner then os.changePrio (changeRounds ι) owner (os.tcb.prio t)
      else some os
    let os ← os.pend (some (.inr m)) t .mutex timeout
    os.blocked

def mutexAbortLoop (m : μ) (all : Bool) : Nat → Os ι σ μ → Nat → Option (Os ι σ μ × Nat)
  | 0, _, _ => none
  | fuel + 1, os, nbr =>
      match (os.pendList.list (.inr m)).headPtr with
      | none => some (os, nbr)
      | some t =>
          (os.pendAbort t .abort).bind fun os =>
            (os.mutex.ownerTcbPtr m).bind fun owner =>
              (os.disinherit owner t).bind fun os =>
                if all then mutexAbortLoop m all fuel os (nbr + 1) else some (os, nbr + 1)

def mutexPendAbort (os : Os ι σ μ) (m : μ) (all noSched : Bool) : Option (Served ι σ μ) :=
  if (os.pendList.list (.inr m)).headPtr = none then os.refuse .pendAbortNone
  else
    (mutexAbortLoop m (all && !noSched) (rounds ι) os 0).bind fun
      | (os, nbr) => os.served nbr !noSched

omit [Fintype ι] in
/-- The part of `OSMutexPost` that gives the caller its own priority back. -/
def giveBack (os : Os ι σ μ) (t : ι) : Option (Os ι σ μ) :=
  if os.tcb.prio t ≠ os.tcb.basePrio t then do
    let p ← os.prioNew t
    if os.tcb.prio t < p then do
      let os := os.rdyListRemove t
      let r := { os.rdyList with prioTbl := osPrioInsert os.rdyList.prioTbl p }
      let r ← osRdyListInsertTail r p t
      some { os with
        tcb.prio := Function.update os.tcb.prio t p
        rdyList := r
        sched.prioCur := p }
    else some os
  else some os

omit [Fintype ι] in
def mutexPost (os : Os ι σ μ) (m : μ) (noSched : Bool) : Option (Served ι σ μ) :=
  let t := os.sched.tcbCur
  let ctr := os.mutex.ownerNestingCtr m - 1
  if os.mutex.ownerTcbPtr m ≠ some t then os.refuse .mutexNotOwner
  else
    let os := { os with
      mutex.ownerNestingCtr := Function.update os.mutex.ownerNestingCtr m ctr }
    if 0 < ctr then some ⟨os, some (.mutexNesting, 0), false⟩
    else do
      let os ← os.mutexGrpRemove t m
      match (os.pendList.list (.inr m)).headPtr with
      | none =>
          served { os with
            mutex.ownerTcbPtr := Function.update os.mutex.ownerTcbPtr m none
            mutex.ownerNestingCtr := Function.update os.mutex.ownerNestingCtr m 0 } 0 false
      | some first => do
          let os ← os.giveBack t
          let os := mutexGrpAdd { os with
            mutex.ownerTcbPtr := Function.update os.mutex.ownerTcbPtr m (some first)
            mutex.ownerNestingCtr := Function.update os.mutex.ownerNestingCtr m 1 } first m
          let os ← os.post (some (.inr m)) first
          os.served 0 !noSched

end Rounds

end Os

end ExploreF407.Kernel
