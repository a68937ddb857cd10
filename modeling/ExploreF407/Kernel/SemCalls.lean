import ExploreF407.Kernel.CpuRuns
import ExploreF407.Kernel.Objects

/-! # Semaphores as objects

`Kernel.Objects` has a semaphore as a type and a counter, and a call on it as one
step. In the kernel the calls have lists and tasks to change as well, and an
interrupt may come between the test of the type and the critical section, but what
they reply and what they make of the semaphore is the same.
-/

namespace ExploreF407.Kernel

open Machine

variable {ι σ μ : Type} [DecidableEq ι] [DecidableEq σ] [DecidableEq μ]

/-- The errors that calls on an object report. -/
def ErrCode.osErr : ErrCode → Option OsErr
  | .objCreated => some .objCreated
  | .objType => some .objType
  | .pendWouldBlock => some .pendWouldBlock
  | .semOvf => some .semOvf
  | .taskWaiting => some .taskWaiting
  | _ => Option.none

namespace Os

variable {os : Os ι σ μ} {s : Lists ι (σ ⊕ μ)} {held : ι → List μ} {x : σ} {r : Served ι σ μ}
  {calm : Prop}

def semOf (os : Os ι σ μ) (x : σ) : OsSem where
  type := if os.sem.type x then .sem else .none
  ctr := os.sem.ctr x

/-- The service makes of the semaphore what the call on the object does, or refuses as it does. -/
structure Answers (os : Os ι σ μ) (x : σ) (r : Served ι σ μ) (call : Except OsErr OsSem) :
    Prop where
  done : ∀ sem, call = .ok sem → r.os.semOf x = sem ∧ ∃ val, r.reply = some (.none, val)
  refused : ∀ err, call = .error err →
    r.os = os ∧ ∃ code, r.reply = some (code, 0) ∧ code.osErr = some err

/-- The same of a call that may put the running task to wait. -/
structure PendAnswers (os : Os ι σ μ) (x : σ) (r : Served ι σ μ) (call : Pend OsSem Unit) :
    Prop where
  granted : ∀ sem, call = .granted () sem → os.Answers x r (.ok sem)
  failed : ∀ err, call = .failed err → os.Answers x r (.error err)
  blocked : call = .blocked → r.reply = none ∧ r.os.sem = os.sem ∧
    r.os.pendList.objPtr os.sched.tcbCur = some (.inl x)

section Replies

omit [DecidableEq ι] [DecidableEq σ] [DecidableEq μ]

theorem answers_done (sem : OsSem) {call : Except OsErr OsSem} {val : Nat}
    (called : call = .ok sem) (made : r.os.semOf x = sem) (reply : r.reply = some (.none, val)) :
    os.Answers x r call := by
  subst called
  exact { done := fun _ same => ⟨made.trans (Except.ok.inj same), val, reply⟩, refused := by simp }

theorem answers_refused (err : OsErr) {call : Except OsErr OsSem} {code : ErrCode}
    (called : call = .error err) (same : code.osErr = some err) :
    os.Answers x ⟨os, some (code, 0), false⟩ call := by
  subst called
  refine { done := by simp, refused := ?_ }
  rintro _ ⟨⟩
  exact ⟨rfl, code, rfl, same⟩

theorem answers_granted (sem : OsSem) {call : Pend OsSem Unit} (called : call = .granted () sem)
    (answers : os.Answers x r (.ok sem)) : os.PendAnswers x r call := by
  subst called
  refine { granted := ?_, failed := by simp, blocked := by simp }
  rintro _ ⟨⟩
  exact answers

theorem answers_failed (err : OsErr) {call : Pend OsSem Unit} (called : call = .failed err)
    (answers : os.Answers x r (.error err)) : os.PendAnswers x r call := by
  subst called
  refine { granted := by simp, failed := ?_, blocked := by simp }
  rintro _ ⟨⟩
  exact answers

end Replies

omit [DecidableEq σ] [DecidableEq μ] in
theorem entry_sem (task : os.sched.intNestingCtr = 0) {call : Call ι σ μ} (on : call.sem = some x) :
    os.entry call = if (os.semOf x).type = .sem then .none else .objType := by
  have type : (os.semOf x).type = .sem ↔ os.sem.type x = true := by simp [semOf]
  simp only [type]
  cases call <;> simp only [Call.sem, Option.some.injEq, reduceCtorEq] at on <;> subst on <;>
    simp only [entry, unlessIsr, semType, task, lt_irrefl, if_false, ite_self]

omit [DecidableEq ι] in
theorem semCreate_answers (x : σ) (cnt : Nat) :
    ∃ r, os.semCreate x cnt = some r ∧ os.Answers x r (osSemCreate (os.semOf x) cnt) := by
  simp only [Os.semCreate]
  cases type : os.sem.type x with
  | true => exact ⟨_, rfl, answers_refused .objCreated (by simp [osSemCreate, semOf, type]) rfl⟩
  | false =>
      refine ⟨_, rfl, answers_done ⟨.sem, cnt⟩ ?_ ?_ rfl⟩
      · simp [osSemCreate, semOf, type]
      · simp [semOf]

variable [Fintype ι]

theorem Inv.semPost_answers (inv : os.Inv s held calm) (type : os.sem.type x = true)
    (noSched : Bool) :
    ∃ r, os.semPost x false noSched = some r ∧
      os.Answers x r (osSemPost (os.semOf x) (os.pendList.list (.inl x)).headPtr) := by
  simp only [Os.semPost]
  rcases head : (os.pendList.list (.inl x)).headPtr with _ | t
  · by_cases most : os.sem.ctr x = semCtrMax
    · refine ⟨⟨os, some (.semOvf, 0), false⟩, by simp [most, refuse], ?_⟩
      refine answers_refused .semOvf ?_ rfl
      simp [osSemPost, semOf, type, most, semCtrMax, osSemCtrMax]
    · have less : os.sem.ctr x ≠ osSemCtrMax := most
      refine ⟨_, by simp only [if_neg most]; rfl, ?_⟩
      refine answers_done ⟨.sem, os.sem.ctr x + 1⟩ ?_ ?_ rfl
      · simp [osSemPost, semOf, type, less]
      · simp [semOf, type]
  · obtain ⟨os', s', posted, -, woke⟩ : ∃ os' s',
        Os.postLoop (.inl x) false (rounds ι) os (s.waiting (.inl x)).head? = some os' ∧ _ :=
      inv.postLoop rfl (inv.length_waiting (.inl x))
    rw [← inv.headPtr, head] at posted
    refine ⟨_, by simp only [posted, Option.bind_some]; rfl, ?_⟩
    -- the signal goes to the task, and the counter stays
    refine answers_done ⟨.sem, os.sem.ctr x⟩ ?_ ?_ rfl
    · simp [osSemPost, semOf, type]
    · simp [semOf, type, woke.sem]

theorem Inv.semDel_answers (inv : os.Inv s held calm) (type : os.sem.type x = true)
    (always : Bool) :
    ∃ r, os.semDel x always = some r ∧ os.Answers x r (osSemDel (os.semOf x)
      (if always then .always else .noPend) (os.pendList.list (.inl x)).headPtr) := by
  have cleared : ∀ os' : Os ι σ μ, (os'.semClr x).semOf x = ⟨.none, 0⟩ := by
    intro os'
    simp [semOf, Os.semClr]
  simp only [Os.semDel]
  cases always with
  | true =>
      obtain ⟨os', s', nbr, aborted, -, -, -⟩ := inv.abortLoop x .del true
      refine ⟨_, by simp only [if_true, aborted]; rfl, ?_⟩
      exact answers_done ⟨.none, 0⟩ (by simp [osSemDel, semOf, type]) (cleared os') rfl
  | false =>
      rcases head : (os.pendList.list (.inl x)).headPtr with _ | t
      · refine ⟨_, rfl, ?_⟩
        exact answers_done ⟨.none, 0⟩ (by simp [osSemDel, semOf, type]) (cleared os) rfl
      · refine ⟨_, rfl, ?_⟩
        exact answers_refused .taskWaiting (by simp [osSemDel, semOf, type]) rfl

theorem Inv.semPend_answers (inv : os.Inv s held calm) (unlocked : os.sched.lockNestingCtr = 0)
    (ready : os.tcb.taskState os.sched.tcbCur = .rdy) (other : os.sched.tcbCur ≠ os.sched.idleTask)
    (type : os.sem.type x = true) {timeout : Nat} (small : timeout < 2 ^ 32) (nonBlocking : Bool) :
    ∃ r, os.semPend x timeout nonBlocking = some r ∧ os.PendAnswers x r
      (osSemPend (os.semOf x) (if nonBlocking then .nonBlocking else .blocking)) := by
  simp only [Os.semPend, unlocked, lt_irrefl, if_false]
  by_cases more : 0 < os.sem.ctr x
  · refine ⟨_, by simp only [if_pos more]; rfl, ?_⟩
    refine answers_granted ⟨.sem, os.sem.ctr x - 1⟩ ?_ (answers_done _ rfl ?_ rfl)
    · simp [osSemPend, semOf, type, more]
    · simp [semOf, type]
  · cases nonBlocking with
    | true =>
        refine ⟨⟨os, some (.pendWouldBlock, 0), false⟩, by simp [more, refuse], ?_⟩
        refine answers_failed .pendWouldBlock ?_ (answers_refused .pendWouldBlock rfl rfl)
        simp [osSemPend, semOf, type, more]
    | false =>
        have free : ∀ y, some (.inl x) = some (Sum.inl y : σ ⊕ μ) →
            os.sem.type y = true ∧ os.sem.ctr y = 0 := by
          rintro y ⟨⟩
          exact ⟨type, by omega⟩
        have fits : Fits (σ := σ) (μ := μ) .pend .sem (some (.inl x)) := by
          simp [Fits, TaskState.pending]
        obtain ⟨os', s', pended, -, blocked, -⟩ := inv.pend ready other small fits free (by simp)
        have waits : osSemPend (os.semOf x) .blocking = .blocked := by
          simp [osSemPend, semOf, type, more]
        refine ⟨_, by
          simp only [if_neg more, Bool.false_eq_true, if_false, pended]
          rfl, ?_⟩
        simp only [Bool.false_eq_true, if_false, waits]
        refine { granted := by simp, failed := by simp, blocked := fun _ => ⟨rfl, ?_, ?_⟩ }
        · exact blocked.sem
        · simp [blocked.objPtr]

end Os

namespace Cpu

variable [Fintype ι] [Fintype μ] {idle : ι} {tenth : Nat} {tasks : List (ι × Nat × Nat)}
  {as : List (Action ι σ μ)} {c : Cpu ι σ μ}

/-- Whenever a task makes the tests of a call on a semaphore, they refuse it where the one on a
    single object is refused for its type, and whenever it comes to the critical section, that makes
    of the semaphore and replies what the one on a single object does. -/
theorem semaphores_answer (once : (idle :: tasks.map Prod.fst).Nodup)
    (reached : Reached idle tenth tasks as c) (atTask : c.AtTask)
    (unlocked : c.os.sched.lockNestingCtr = 0) (before : c.task c.os.sched.tcbCur ≠ .sched)
    (other : c.os.sched.tcbCur ≠ c.os.sched.idleTask) (x : σ) :
    (∀ call : Call ι σ μ, call.sem = some x →
      c.os.entry call = if (c.os.semOf x).type = .sem then .none else .objType) ∧
    (∀ cnt, ∃ r, c.os.critical (.semCreate x cnt) = some r ∧
      c.os.Answers x r (osSemCreate (c.os.semOf x) cnt)) ∧
    ((c.os.semOf x).type = .sem →
      (∀ timeout < 2 ^ 32, ∀ nonBlocking, ∃ r,
        c.os.critical (.semPend x timeout nonBlocking) = some r ∧ c.os.PendAnswers x r
          (osSemPend (c.os.semOf x) (if nonBlocking then .nonBlocking else .blocking))) ∧
      (∀ noSched, ∃ r, c.os.critical (.semPost x false noSched) = some r ∧
        c.os.Answers x r (osSemPost (c.os.semOf x) (c.os.pendList.list (.inl x)).headPtr)) ∧
      ∀ always, ∃ r, c.os.critical (.semDel x always) = some r ∧
        c.os.Answers x r (osSemDel (c.os.semOf x) (if always then .always else .noPend)
          (c.os.pendList.list (.inl x)).headPtr)) ∧
    ((c.os.semOf x).type ≠ .sem →
      (∀ opt, osSemPend (c.os.semOf x) opt = .failed .objType) ∧
      (∀ head : Option ι, osSemPost (c.os.semOf x) head = .error .objType) ∧
      ∀ opt, ∀ head : Option ι, osSemDel (c.os.semOf x) opt head = .error .objType) := by
  obtain ⟨s, held, good⟩ := reached.good once
  have ready := good.running atTask.2 before
  refine ⟨fun _ => Os.entry_sem atTask.1, Os.semCreate_answers x, ?_, ?_⟩
  · intro created
    have type : c.os.sem.type x = true := by simpa [Os.semOf] using created
    refine ⟨?_, good.semPost_answers type, good.semDel_answers type⟩
    intro timeout small nonBlocking
    exact good.semPend_answers unlocked ready other type small nonBlocking
  · intro none'
    exact ⟨fun _ => if_pos none', fun _ => if_pos none', fun _ _ => if_pos none'⟩

theorem semaphores_answer_two :
    ∃ c : Cpu (Fin 5) (Fin 1) (Fin 1), Reached 0 100 twoTasks (serve (.semCreate 0 0)) c ∧
      ∃ r, c.os.semPost 0 false false = some r ∧ r.os.sem.ctr 0 = 1 := by
  obtain ⟨c, reached, made, atTask, unlocked, before, other, head⟩ := exists_reached
    (P := fun c => c.os.semOf 0 = ⟨.sem, 0⟩ ∧ c.AtTask ∧ c.os.sched.lockNestingCtr = 0 ∧
      c.task c.os.sched.tcbCur ≠ .sched ∧ c.os.sched.tcbCur ≠ c.os.sched.idleTask ∧
      (c.os.pendList.list (.inl 0)).headPtr = none)
    (by decide : (after 0 100 twoTasks (serve (.semCreate 0 0))).any _ = true)
  obtain ⟨-, -, created, -⟩ :=
    semaphores_answer (by decide) reached atTask unlocked before other 0
  obtain ⟨-, post, -⟩ := created (by rw [made])
  obtain ⟨r, posted, answer⟩ := post false
  rw [made, head] at answer
  exact ⟨c, reached, r, posted, congrArg OsSem.ctr (answer.done ⟨.sem, 1⟩ rfl).1⟩

end Cpu

end ExploreF407.Kernel
