import ExploreF407.Kernel.Blocking

/-! # What the services on semaphores keep

The semaphores of the kernel and the semaphore that each task has for itself.
-/

namespace ExploreF407.Kernel

open Linked Urgency Inherit

variable {ι σ μ : Type}

namespace Os

variable {os os' : Os ι σ μ} {s s' : Lists ι (σ ⊕ μ)} {held : ι → List μ} {t : ι} {x : σ}
  {noSched : Bool} {calm : Prop}

theorem Core.unwaited (core : os.Core s held) (had : os.sem.type x = true → 0 < os.sem.ctr x) :
    s.waiting (.inl x) = [] := by
  refine core.waiting_eq_nil.mpr ?_
  intro t waits
  obtain ⟨type, ctr⟩ := core.sems t x waits
  have more := had type
  omega

theorem Core.unwaited_of_head (core : os.Core s held) {obj : σ ⊕ μ}
    (head : (os.pendList.list obj).headPtr = none) : s.waiting obj = [] := by
  rw [core.headPtr] at head
  exact List.head?_eq_none_iff.mp head

theorem Inv.resem (inv : os.Inv s held calm) (empty : s.waiting (.inl x) = [])
    (pnd : Pnd os'.pendList s.waiting) (objPtr : os'.pendList.objPtr = os.pendList.objPtr)
    (others : ∀ y, y ≠ x → os'.sem.type y = os.sem.type y ∧ os'.sem.ctr y = os.sem.ctr y)
    (tcb : os'.tcb = os.tcb) (rdy : os'.rdyList = os.rdyList)
    (tickList : os'.tickList = os.tickList) (mutex : os'.mutex = os.mutex)
    (sched : os'.sched = os.sched) : os'.Inv s held calm := by
  refine inv.congr (rdy ▸ inv.rdy) (fun _ _ => .rfl) pnd objPtr rfl ⟨rfl, rfl, rfl⟩ tickList ?_ ?_
    mutex (by rw [sched])
  · rw [tcb]
  · intro t y waits
    apply others
    rintro rfl
    exact inv.waiting_eq_nil.mp empty t waits

theorem Keeps.resem (inv : os'.Inv s held calm) (ready : os.CallerReady) (tcb : os'.tcb = os.tcb)
    (sched : os'.sched = os.sched) {flag : Bool} {reply : Option (ErrCode × Nat)} :
    Keeps os s noSched ⟨os', reply, flag⟩ s held calm :=
  .same inv ready sched (by rw [tcb]) (by rw [tcb]) ⟨rfl, rfl, rfl⟩

variable [DecidableEq σ]

theorem Inv.recount (inv : os.Inv s held calm) (empty : s.waiting (.inl x) = []) (cnt : Nat) :
    Inv { os with sem.ctr := Function.update os.sem.ctr x cnt } s held calm :=
  inv.resem empty inv.pnd rfl (fun y other => by simp [other]) rfl rfl rfl rfl rfl

variable [DecidableEq μ]

theorem Inv.semClr (inv : os.Inv s held calm) (empty : s.waiting (.inl x) = []) :
    Inv (os.semClr x) s held calm :=
  inv.resem empty (inv.pnd.clear empty) rfl (fun y other => by simp [Os.semClr, other])
    rfl rfl rfl rfl rfl

theorem Inv.semCreate (inv : os.Inv s held calm) (ready : os.CallerReady) (x : σ) (cnt : Nat) :
    ∃ r s' held', os.semCreate x cnt = some r ∧ os.Keeps s noSched r s' held' calm := by
  simp only [Os.semCreate]
  split
  · exact ⟨_, s, held, rfl, .refuse inv ready⟩
  · rename_i created
    have empty := inv.toCore.unwaited (x := x) fun type => absurd type created
    have inv' : Inv { os with
        sem.type := Function.update os.sem.type x true
        sem.ctr := Function.update os.sem.ctr x cnt
        pendList := { os.pendList with
          list := Function.update os.pendList.list (.inl x) { headPtr := none, tailPtr := none } } }
        s held calm :=
      inv.resem empty (inv.pnd.clear empty) rfl (fun y other => by simp [other]) rfl rfl rfl rfl rfl
    exact ⟨_, s, held, rfl, .resem inv' ready rfl rfl⟩

variable [DecidableEq ι] [Fintype ι]

theorem Inv.abortLoop (inv : os.Inv s held calm) (x : σ) (reason : PendStatus) (all : Bool) :
    ∃ os' s' nbr, Os.abortLoop (.inl x) reason all (rounds ι) os 0 = some (os', nbr) ∧
      os'.Inv s' held calm ∧ os.Woke s os' s' ∧ (all = true → s'.waiting (.inl x) = []) := by
  obtain ⟨os', s', nbr, aborted, core, tck, settled, -, woke, empty⟩ : ∃ os' s' nbr,
      Os.abortLoop (.inl x) reason all (rounds ι) os 0 = some (os', nbr) ∧ _ :=
    inv.toCore.abortLoop inv.tck (os.card_waiters (.inl x))
  refine ⟨os', s', nbr, aborted, { core with tck := tck, fair := ?_ }, woke, empty⟩
  intro calm r
  exact (settled (.of_fair (inv.fair calm) _)).fair r (Option.some_ne_none r).symm

theorem Inv.semDel (inv : os.Inv s held calm) (ready : os.CallerReady) (x : σ) (always : Bool) :
    ∃ r s' held', os.semDel x always = some r ∧ os.Keeps s noSched r s' held' calm := by
  simp only [Os.semDel]
  split
  · obtain ⟨os', s', nbr, aborted, inv', woke, empty⟩ := inv.abortLoop x .del true
    exact ⟨_, s', held, by rw [aborted]; rfl,
      .woke (inv'.semClr (empty rfl)) ready woke.sched woke.ready woke.times (by simp)⟩
  split
  · rename_i head
    exact ⟨_, s, held, rfl, .resem (inv.semClr (inv.toCore.unwaited_of_head head)) ready rfl rfl⟩
  · exact ⟨_, s, held, rfl, .refuse inv ready⟩

theorem Inv.semPend (inv : os.Inv s held calm) (ready : os.CallerReady)
    (other : os.sched.intNestingCtr = 0 → os.sched.tcbCur ≠ os.sched.idleTask) {x : σ}
    (type : os.sem.type x = true) {timeout : Nat} (small : timeout < 2 ^ 32) {nonBlocking : Bool}
    (isr : 0 < os.sched.intNestingCtr → nonBlocking = true) :
    ∃ r s' held', os.semPend x timeout nonBlocking = some r ∧ os.Keeps s noSched r s' held' calm ∧
      (r.sched = true → 0 < timeout →
        os.sched.tcbCur ∈ s'.timed ∧ s'.due os.sched.tcbCur = s.now + timeout) := by
  simp only [Os.semPend]
  split
  · rename_i had
    have empty := inv.toCore.unwaited (x := x) fun _ => had
    exact ⟨_, s, held, rfl, .resem (inv.recount empty _) ready rfl rfl, by simp⟩
  split
  · exact ⟨_, s, held, rfl, .refuse inv ready, by simp⟩
  split
  · exact ⟨_, s, held, rfl, .refuse inv ready, by simp⟩
  · rename_i none' blocking locked
    have task : os.sched.intNestingCtr = 0 :=
      Nat.eq_zero_of_not_pos fun nested => blocking (isr nested)
    have here := ready task
    have free : ∀ y, some (.inl x) = some (Sum.inl y : σ ⊕ μ) →
        os.sem.type y = true ∧ os.sem.ctr y = 0 := by
      intro y same
      cases same
      exact ⟨type, by omega⟩
    have fits : Fits (σ := σ) (μ := μ) .pend .sem (some (.inl x)) := by
      simp [Fits, TaskState.pending]
    obtain ⟨os', s', pended, inv', blocked, deadline⟩ :=
      inv.pend here (other task) small fits free (by simp)
    exact ⟨_, s', held, by rw [pended]; rfl,
      .blocked inv' blocked (inv.toCore.ready_untimed here) task (by omega), fun _ => deadline⟩

theorem Inv.semPendAbort (inv : os.Inv s held calm) (ready : os.CallerReady) (x : σ) (all : Bool) :
    ∃ r s' held', os.semPendAbort x all noSched = some r ∧ os.Keeps s noSched r s' held' calm := by
  simp only [Os.semPendAbort]
  split
  · exact ⟨_, s, held, rfl, .refuse inv ready⟩
  · obtain ⟨os', s', nbr, aborted, inv', woke, -⟩ := inv.abortLoop x .abort (all && !noSched)
    exact ⟨_, s', held, by rw [aborted]; rfl,
      .woke inv' ready woke.sched woke.ready woke.times (by simp)⟩

theorem Inv.semPost (inv : os.Inv s held calm) (ready : os.CallerReady) (x : σ) (all : Bool) :
    ∃ r s' held', os.semPost x all noSched = some r ∧ os.Keeps s noSched r s' held' calm := by
  simp only [Os.semPost]
  split
  · rename_i head
    have empty := inv.toCore.unwaited_of_head head
    split
    · exact ⟨_, s, held, rfl, .refuse inv ready⟩
    · exact ⟨_, s, held, rfl, .resem (inv.recount empty _) ready rfl rfl⟩
  · rename_i t head
    obtain ⟨os', s', posted, inv', woke⟩ : ∃ os' s',
          Os.postLoop (.inl x) all (rounds ι) os (s.waiting (.inl x)).head? = some os' ∧ _ :=
      inv.postLoop rfl (inv.length_waiting (.inl x))
    rw [← inv.headPtr, head] at posted
    exact ⟨_, s', held, by rw [posted]; rfl,
      .woke inv' ready woke.sched woke.ready woke.times (by simp)⟩

omit [DecidableEq ι] [DecidableEq μ] [Fintype ι] in
theorem Inv.semSet (inv : os.Inv s held calm) (ready : os.CallerReady) (x : σ) (cnt : Nat) :
    ∃ r s' held', os.semSet x cnt = some r ∧ os.Keeps s noSched r s' held' calm := by
  simp only [Os.semSet]
  split
  · rename_i had
    have empty := inv.toCore.unwaited (x := x) fun _ => had
    exact ⟨_, s, held, rfl, .resem (inv.recount empty _) ready rfl rfl⟩
  split
  · rename_i head
    have empty := inv.toCore.unwaited_of_head head
    exact ⟨_, s, held, rfl, .resem (inv.recount empty _) ready rfl rfl⟩
  · exact ⟨_, s, held, rfl, .refuse inv ready⟩

/-! ## The semaphore of a task -/

omit [DecidableEq ι] [DecidableEq σ] [DecidableEq μ] [Fintype ι] in
theorem Inv.keeps_semCtr (inv : os.Inv s held calm) (ready : os.CallerReady) (ctr : ι → Nat)
    (val : Nat) : ∃ r s' held', served { os with tcb.semCtr := ctr } val false = some r ∧
      os.Keeps s noSched r s' held' calm := by
  have inv' : Inv { os with tcb.semCtr := ctr } s held calm := inv.frame rfl rfl rfl rfl rfl rfl rfl
  exact ⟨_, s, held, rfl, .same inv' ready rfl rfl rfl ⟨rfl, rfl, rfl⟩⟩

theorem Inv.taskSemPend (inv : os.Inv s held calm) (ready : os.CallerReady)
    (task : os.sched.intNestingCtr = 0) (other : os.sched.tcbCur ≠ os.sched.idleTask)
    {timeout : Nat} (small : timeout < 2 ^ 32) (nonBlocking : Bool) :
    ∃ r s' held', os.taskSemPend timeout nonBlocking = some r ∧ os.Keeps s noSched r s' held' calm ∧
      (r.sched = true → 0 < timeout →
        os.sched.tcbCur ∈ s'.timed ∧ s'.due os.sched.tcbCur = s.now + timeout) := by
  simp only [Os.taskSemPend]
  split
  · obtain ⟨r, s', held', had, keeps⟩ := inv.keeps_semCtr ready
      (Function.update os.tcb.semCtr os.sched.tcbCur (os.tcb.semCtr os.sched.tcbCur - 1))
      (os.tcb.semCtr os.sched.tcbCur - 1)
    cases had
    exact ⟨_, s', held', rfl, keeps, by simp⟩
  split
  · exact ⟨_, s, held, rfl, .refuse inv ready, by simp⟩
  split
  · exact ⟨_, s, held, rfl, .refuse inv ready, by simp⟩
  · rename_i none' blocking locked
    have here := ready task
    have fits : Fits (σ := σ) (μ := μ) .pend .taskSem none := by simp [Fits, TaskState.pending]
    obtain ⟨os', s', pended, inv', blocked, deadline⟩ :=
      inv.pend here other small fits (by simp) (by simp)
    exact ⟨_, s', held, by rw [pended]; rfl,
      .blocked inv' blocked (inv.toCore.ready_untimed here) task (by omega), fun _ => deadline⟩

omit [DecidableEq ι] [DecidableEq σ] [DecidableEq μ] [Fintype ι] in
theorem Inv.taskSem_free (inv : os.Inv s held calm) (pends : (os.tcb.taskState t).pending = true)
    (on : os.tcb.pendOn t = .taskSem) : os.pendList.objPtr t = none := by
  have fits := (inv.placed t).fits
  rcases obj : os.pendList.objPtr t with _ | _ | m
  · rfl
  · simp [Fits, pends, on, obj] at fits
  · simp [Fits, pends, on, obj] at fits

omit [Fintype ι] in
theorem Inv.taskSemPost (inv : os.Inv s held calm) (ready : os.CallerReady) (t : ι) :
    ∃ r s' held', os.taskSemPost t noSched = some r ∧ os.Keeps s noSched r s' held' calm := by
  have signal : ∃ r s' held', (if os.tcb.semCtr t = semCtrMax then os.refuse .semOvf
      else served { os with tcb.semCtr := Function.update os.tcb.semCtr t (os.tcb.semCtr t + 1) }
        (os.tcb.semCtr t + 1) false) = some r ∧ os.Keeps s noSched r s' held' calm := by
    split
    · exact ⟨_, s, held, rfl, .refuse inv ready⟩
    · exact inv.keeps_semCtr ready _ _
  have woken : (os.tcb.taskState t).pending = true → ∃ r s' held',
      (if os.tcb.pendOn t = .taskSem then
        (os.post none t).bind fun os => os.served (os.tcb.semCtr t) !noSched
      else if os.tcb.semCtr t = semCtrMax then os.refuse .semOvf
      else served { os with tcb.semCtr := Function.update os.tcb.semCtr t (os.tcb.semCtr t + 1) }
        (os.tcb.semCtr t + 1) false) = some r ∧ os.Keeps s noSched r s' held' calm := by
    intro pends
    by_cases on : os.tcb.pendOn t = .taskSem
    · have free := inv.taskSem_free pends on
      obtain ⟨os', s', posted, core, ended⟩ := inv.toCore.post pends free
      have inv' := inv.ended core ended fun _ => waitsFor_eq_none free
      simp only [if_pos on, posted]
      exact ⟨_, s', held, rfl, .woke inv' ready ended.woke.sched ended.woke.ready ended.woke.times
        (by simp)⟩
    · simp only [if_neg on]
      exact signal
  simp only [Os.taskSemPost]
  cases state : os.tcb.taskState t with
  | del => exact ⟨_, s, held, rfl, .refuse inv ready⟩
  | rdy | dly | suspended | dlySuspended => exact signal
  | pend | pendTimeout | pendSuspended | pendTimeoutSuspended =>
      exact woken (by simp [state, TaskState.pending])

omit [Fintype ι] in
theorem Inv.taskSemPendAbort (inv : os.Inv s held calm) (ready : os.CallerReady)
    (free : calm → os.waitsFor t = none) :
    ∃ r s' held', os.taskSemPendAbort t noSched = some r ∧ os.Keeps s noSched r s' held' calm := by
  simp only [Os.taskSemPendAbort]
  cases pends : (os.tcb.taskState t).pending with
  | true =>
      obtain ⟨os', s', aborted, core, ended⟩ := inv.toCore.pendAbort pends .abort
      have inv' := inv.ended core ended free
      exact ⟨_, s', held, by rw [aborted]; rfl, .woke inv' ready ended.woke.sched
        ended.woke.ready ended.woke.times (by simp)⟩
  | false =>
      -- `OS_PendAbort` does nothing with a task that does not pend
      have stays : os.pendAbort t .abort = some os := by
        cases state : os.tcb.taskState t <;> simp [state, TaskState.pending] at pends <;>
          simp [Os.pendAbort, state]
      exact ⟨_, s, held, by rw [stays]; rfl, .refuse inv ready⟩

omit [DecidableEq σ] [DecidableEq μ] [Fintype ι] in
theorem Inv.taskSemSet (inv : os.Inv s held calm) (ready : os.CallerReady) (t : ι) (cnt : Nat) :
    ∃ r s' held', os.taskSemSet t cnt = some r ∧ os.Keeps s noSched r s' held' calm := by
  simp only [Os.taskSemSet]
  split
  · exact ⟨_, s, held, rfl, .refuse inv ready⟩
  · exact inv.keeps_semCtr ready _ _

end Os

end ExploreF407.Kernel
