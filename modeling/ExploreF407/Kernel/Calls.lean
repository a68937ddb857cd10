import ExploreF407.Kernel.Services

/-! # Calls

A call of a service makes its tests, does its critical section, and mostly ends
with `OSSched`. Interrupts come in between, and other tasks may run then, so the
tests are a step of their own. The checks of the arguments for null pointers and
unknown options are left out, and the kernel is running.
-/

namespace ExploreF407.Kernel

inductive Call (ι σ μ : Type) where
  | schedLock
  | schedUnlock
  | schedRoundRobinCfg (en : Bool) (dfltTimeQuanta tenth : Nat)
  | schedRoundRobinYield
  | semCreate (x : σ) (cnt : Nat)
  | semDel (x : σ) (always : Bool)
  | semPend (x : σ) (timeout : Nat) (nonBlocking : Bool)
  | semPendAbort (x : σ) (all noSched : Bool)
  | semPost (x : σ) (all noSched : Bool)
  | semSet (x : σ) (cnt : Nat)
  | taskSemPend (timeout : Nat) (nonBlocking : Bool)
  | taskSemPost (t : ι) (noSched : Bool)
  | taskSemPendAbort (t : ι) (noSched : Bool)
  | taskSemSet (t : ι) (cnt : Nat)
  | timeDly (dly : Nat) (opt : TimeOpt)
  | timeDlyResume (t : ι)
  | taskCreate (t : ι) (prio timeQuanta : Nat)
  | taskSuspend (t : ι)
  | taskResume (t : ι)
  | taskChangePrio (t : ι) (prioNew : Nat)
  | mutexCreate (m : μ)
  | mutexDel (m : μ) (always : Bool)
  | mutexPend (m : μ) (timeout : Nat) (nonBlocking : Bool)
  | mutexPendAbort (m : μ) (all noSched : Bool)
  | mutexPost (m : μ) (noSched : Bool)
  deriving Repr, DecidableEq

variable {ι σ μ : Type}

namespace Call

/-- The option `OS_OPT_POST_NO_SCHED` or `OS_OPT_PEND_ABORT_NO_SCHED`: the caller puts off the
    choice of the next task. -/
def noSched : Call ι σ μ → Bool
  | semPendAbort _ _ noSched | semPost _ _ noSched | taskSemPost _ noSched
  | taskSemPendAbort _ noSched | mutexPendAbort _ _ noSched | mutexPost _ noSched => noSched
  | _ => false

/-- The time that the caller is to wait at most, from now on. -/
def timeout : Call ι σ μ → Option Nat
  | semPend _ timeout _ | mutexPend _ timeout _ | taskSemPend timeout _ => some timeout
  | timeDly dly .dly | timeDly dly .timeout => some dly
  | _ => none

/-- The semaphore whose `Type` is tested. -/
def sem : Call ι σ μ → Option σ
  | semDel x _ | semPend x _ _ | semPendAbort x _ _ | semPost x _ _ | semSet x _ => some x
  | _ => none

def mutex : Call ι σ μ → Option μ
  | mutexDel m _ | mutexPend m _ _ | mutexPendAbort m _ _ | mutexPost m _ => some m
  | _ => none

def tcb : Call ι σ μ → Option ι
  | taskSemPost t _ | taskSemPendAbort t _ | taskSemSet t _ | timeDlyResume t | taskCreate t _ _
  | taskSuspend t | taskResume t | taskChangePrio t _ => some t
  | _ => none

def fromIsr : Call ι σ μ → Bool
  | schedRoundRobinCfg _ _ _ | semPost _ _ _ | taskSemPost _ _ => true
  | semPend _ _ nonBlocking => nonBlocking
  | _ => false

/-- What the tests leave of the arguments and of the nesting of locks. -/
def Fit (idle : ι) (lock : Nat) : Call ι σ μ → Prop
  | schedLock => lock < 250
  | schedUnlock => 0 < lock
  | schedRoundRobinYield | timeDly _ _ => lock = 0
  | taskCreate _ prio _ => prio < osCfgPrioMax
  | taskSuspend t => t ≠ idle
  | taskChangePrio _ prioNew => prioNew < osCfgPrioMax
  | _ => True

/-- `OSTaskCreate` is given a control block that no task has, and the other calls one of a task. -/
def Given (os : Os ι σ μ) : Call ι σ μ → Prop
  | taskCreate t _ _ => os.tcb.taskState t = .del
  | call => ∀ t ∈ call.tcb, os.tcb.taskState t ≠ .del

/-- Times are values of `OS_TICK`, and an object is not deleted while a call is about to use it. -/
def Proper (os : Os ι σ μ) (call : Call ι σ μ) : Prop :=
  (∀ timeout ∈ call.timeout, timeout < 2 ^ 32) ∧ (∀ x ∈ call.sem, os.sem.type x = true) ∧
    (∀ m ∈ call.mutex, os.mutex.type m = true) ∧ call.Given os

instance (os : Os ι σ μ) (call : Call ι σ μ) : Decidable (call.Given os) := by
  cases call <;> unfold Given <;> infer_instance

instance (os : Os ι σ μ) (call : Call ι σ μ) : Decidable (call.Proper os) := by
  unfold Proper
  infer_instance

/-- The call gives no task a lower priority that waits for a mutex, and does not end the waits for a
    mutex whose owner waits for one in turn. `OSTaskSemPendAbort` finds no wait for a mutex. -/
def Gentle (os : Os ι σ μ) : Call ι σ μ → Prop
  | taskChangePrio t prioNew => prioNew < os.tcb.prio t ∨ os.waitsFor t = none
  | taskSemPendAbort t _ => os.waitsFor t = none
  | mutexDel m _ | mutexPendAbort m _ _ => ∀ o ∈ os.mutex.ownerTcbPtr m, os.waitsFor o = none
  | _ => True

instance (os : Os ι σ μ) (call : Call ι σ μ) : Decidable (call.Gentle os) := by
  cases call <;> unfold Gentle <;> infer_instance

end Call

namespace Os

/-! ## The tests -/

/-- The test `OSIntNestingCtr > 0`, and then the others. -/
def unlessIsr (os : Os ι σ μ) (err rest : ErrCode) : ErrCode :=
  if 0 < os.sched.intNestingCtr then err else rest

def semType (os : Os ι σ μ) (x : σ) : ErrCode := if os.sem.type x then .none else .objType

def mutexType (os : Os ι σ μ) (m : μ) : ErrCode := if os.mutex.type m then .none else .objType

variable [DecidableEq ι]

/-- The error with which a call returns before its critical section. `OSTaskSemPendAbort` and
    `OSTaskResume` make the last tests in a critical section of their own. -/
def entry (os : Os ι σ μ) : Call ι σ μ → ErrCode
  | .schedLock =>
      os.unlessIsr .schedLockIsr (if 250 ≤ os.sched.lockNestingCtr then .lockNestingOvf else .none)
  | .schedUnlock =>
      os.unlessIsr .schedUnlockIsr (if os.sched.lockNestingCtr = 0 then .schedNotLocked else .none)
  | .schedRoundRobinCfg _ _ _ => .none
  | .schedRoundRobinYield =>
      os.unlessIsr .yieldIsr
        (if 0 < os.sched.lockNestingCtr then .schedLocked
          else if os.sched.roundRobinEn then .none else .roundRobinDisabled)
  | .semCreate _ _ | .mutexCreate _ => os.unlessIsr .createIsr .none
  | .semDel x _ => os.unlessIsr .delIsr (os.semType x)
  | .semPend x _ nonBlocking =>
      if nonBlocking then os.semType x else os.unlessIsr .pendIsr (os.semType x)
  | .semPendAbort x _ _ => os.unlessIsr .pendAbortIsr (os.semType x)
  | .semPost x _ _ => os.semType x
  | .semSet x _ => os.unlessIsr .setIsr (os.semType x)
  | .taskSemPend _ _ => os.unlessIsr .pendIsr .none
  | .taskSemPost _ _ => .none
  | .taskSemPendAbort t _ =>
      os.unlessIsr .pendAbortIsr
        (if t = os.sched.tcbCur then .pendAbortSelf
          else if os.tcb.pendOn t ≠ .taskSem then .pendAbortNone else .none)
  | .taskSemSet _ _ => os.unlessIsr .setIsr .none
  | .timeDly _ _ =>
      os.unlessIsr .timeDlyIsr (if 0 < os.sched.lockNestingCtr then .schedLocked else .none)
  | .timeDlyResume _ => os.unlessIsr .timeDlyResumeIsr .none
  | .taskCreate t prio _ =>
      os.unlessIsr .taskCreateIsr
        (if osCfgPrioMax - 2 < prio ∧ prio ≠ osCfgPrioMax - 1 then .prioInvalid
          else if prio = osCfgPrioMax - 1 ∧ t ≠ os.sched.idleTask then .prioInvalid else .none)
  | .taskSuspend t =>
      os.unlessIsr .taskSuspendIsr (if t = os.sched.idleTask then .taskSuspendIdle else .none)
  | .taskResume t =>
      os.unlessIsr .taskResumeIsr (if t = os.sched.tcbCur then .taskResumeSelf else .none)
  | .taskChangePrio t prioNew =>
      if os.tcb.taskState t = .del then .stateInvalid
      else os.unlessIsr .taskChangePrioIsr
        (if osCfgPrioMax - 1 ≤ prioNew then .prioInvalid else .none)
  | .mutexDel m _ => os.unlessIsr .delIsr (os.mutexType m)
  | .mutexPend m _ _ => os.unlessIsr .pendIsr (os.mutexType m)
  | .mutexPendAbort m _ _ => os.unlessIsr .pendAbortIsr (os.mutexType m)
  | .mutexPost m _ => os.unlessIsr .postIsr (os.mutexType m)

variable {os : Os ι σ μ} {call : Call ι σ μ}

theorem entry_fit (passes : os.entry call = .none) (task : os.sched.intNestingCtr = 0) :
    call.Fit os.sched.idleTask os.sched.lockNestingCtr := by
  cases call <;> simp only [Call.Fit, entry, unlessIsr, task, lt_irrefl, if_false] at passes ⊢ <;>
    split_ifs at passes <;> simp only [osCfgPrioMax] at * <;> first | assumption | omega

/-- In an interrupt only the services that it may call come to their critical sections. -/
theorem entry_fromIsr (passes : os.entry call = .none) (isr : 0 < os.sched.intNestingCtr) :
    call.fromIsr = true := by
  cases call <;> simp only [Call.fromIsr, entry, unlessIsr, if_pos isr, reduceCtorEq] at passes ⊢
  · by_contra blocking
    simp [blocking] at passes
  · split_ifs at passes

/-! ## The critical sections -/

variable [DecidableEq σ] [DecidableEq μ] [Fintype ι] [Fintype μ]

def critical (os : Os ι σ μ) : Call ι σ μ → Option (Served ι σ μ)
  | .schedLock => os.schedLock
  | .schedUnlock => os.schedUnlock
  | .schedRoundRobinCfg en dfltTimeQuanta tenth => os.schedRoundRobinCfg en dfltTimeQuanta tenth
  | .schedRoundRobinYield => os.schedRoundRobinYield
  | .semCreate x cnt => os.semCreate x cnt
  | .semDel x always => os.semDel x always
  | .semPend x timeout nonBlocking => os.semPend x timeout nonBlocking
  | .semPendAbort x all noSched => os.semPendAbort x all noSched
  | .semPost x all noSched => os.semPost x all noSched
  | .semSet x cnt => os.semSet x cnt
  | .taskSemPend timeout nonBlocking => os.taskSemPend timeout nonBlocking
  | .taskSemPost t noSched => os.taskSemPost t noSched
  | .taskSemPendAbort t noSched => os.taskSemPendAbort t noSched
  | .taskSemSet t cnt => os.taskSemSet t cnt
  | .timeDly dly opt => os.timeDly dly opt
  | .timeDlyResume t => os.timeDlyResume t
  | .taskCreate t prio timeQuanta => os.taskCreate t prio timeQuanta
  | .taskSuspend t => os.taskSuspend t
  | .taskResume t => os.taskResume t
  | .taskChangePrio t prioNew => os.taskChangePrio t prioNew
  | .mutexCreate m => os.mutexCreate m
  | .mutexDel m always => os.mutexDel m always
  | .mutexPend m timeout nonBlocking => os.mutexPend m timeout nonBlocking
  | .mutexPendAbort m all noSched => os.mutexPendAbort m all noSched
  | .mutexPost m noSched => os.mutexPost m noSched

end Os

end ExploreF407.Kernel
