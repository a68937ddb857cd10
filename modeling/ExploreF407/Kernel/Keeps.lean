import ExploreF407.Kernel.Ticks

/-! # What every critical section keeps

A critical section keeps the invariant and most variables of the scheduler. Behind
it the caller is ready or `OSSched` comes next, an interrupt takes no task the
readiness, and a service without `OSSched` has not changed who is to run.
-/

namespace ExploreF407.Kernel

open Linked Urgency Inherit

variable {ι σ μ : Type}

namespace Os

variable {os os' os'' : Os ι σ μ} {s s' s'' : Lists ι (σ ⊕ μ)} {held held' : ι → List μ}
  {t r o : ι} {m : μ} {p val : Nat} {noSched sched : Bool} {calm : Prop}

structure Keeps (os : Os ι σ μ) (s : Lists ι (σ ⊕ μ)) (noSched : Bool) (r : Served ι σ μ)
    (s' : Lists ι (σ ⊕ μ)) (held' : ι → List μ) (calm : Prop) : Prop where
  inv : r.os.Inv s' held' calm
  idleTask : r.os.sched.idleTask = os.sched.idleTask
  tcbCur : r.os.sched.tcbCur = os.sched.tcbCur
  tcbHighRdy : r.os.sched.tcbHighRdy = os.sched.tcbHighRdy
  pendSv : r.os.sched.pendSv = os.sched.pendSv
  nesting : r.os.sched.intNestingCtr = os.sched.intNestingCtr
  lock : r.os.sched.lockNestingCtr ≤ max os.sched.lockNestingCtr 250
  now : s'.now = s.now
  due : ∀ t ∈ s.timed, t ∈ s'.timed → s'.due t = s.due t
  caller : os.sched.intNestingCtr = 0 → r.os.tcb.taskState os.sched.tcbCur = .rdy ∨
    r.sched = true ∧ r.os.sched.lockNestingCtr = 0
  isr : 0 < os.sched.intNestingCtr → r.os.sched.lockNestingCtr = os.sched.lockNestingCtr ∧
    ∀ t, os.tcb.taskState t = .rdy → r.os.tcb.taskState t = .rdy
  quiet : r.sched = false → noSched = true ∨ 0 < r.os.sched.lockNestingCtr ∨
    r.os.sched.lockNestingCtr = os.sched.lockNestingCtr ∧
      r.os.tcb.taskState = os.tcb.taskState ∧ r.os.tcb.prio = os.tcb.prio

/-- Tasks only call services while they are ready. -/
def CallerReady (os : Os ι σ μ) : Prop :=
  os.sched.intNestingCtr = 0 → os.tcb.taskState os.sched.tcbCur = .rdy

namespace Keeps

theorem refuse (inv : os.Inv s held calm) (ready : os.CallerReady)
    {reply : Option (ErrCode × Nat)} : Keeps os s noSched ⟨os, reply, sched⟩ s held calm where
  inv := inv
  idleTask := rfl
  tcbCur := rfl
  tcbHighRdy := rfl
  pendSv := rfl
  nesting := rfl
  lock := le_max_left ..
  now := rfl
  due := fun _ _ _ => rfl
  caller := fun task => .inl (ready task)
  isr := fun _ => ⟨rfl, fun _ => id⟩
  quiet := fun _ => .inr (.inr ⟨rfl, rfl, rfl⟩)

/-- Tasks have been woken and priorities may have changed, that of the running task too. -/
theorem reprioritised (inv : os'.Inv s' held' calm) (ready : os.CallerReady) (prioCur : Nat)
    (vars : os'.sched = { os.sched with prioCur := prioCur })
    (kept : ∀ t, os.tcb.taskState t = .rdy → os'.tcb.taskState t = .rdy) (times : s.Released s')
    (flag : sched = false → noSched = true) {reply : Option (ErrCode × Nat)} :
    Keeps os s noSched ⟨os', reply, sched⟩ s' held' calm where
  inv := inv
  idleTask := by rw [vars]
  tcbCur := by rw [vars]
  tcbHighRdy := by rw [vars]
  pendSv := by rw [vars]
  nesting := by rw [vars]
  lock := by simp only [vars, le_sup_left]
  now := times.now
  due := fun t _ _ => by rw [times.due]
  caller := fun task => .inl (kept _ (ready task))
  isr := fun _ => ⟨by rw [vars], kept⟩
  quiet := fun same => .inl (flag same)

theorem woke (inv : os'.Inv s' held' calm) (ready : os.CallerReady) (vars : os'.sched = os.sched)
    (kept : ∀ t, os.tcb.taskState t = .rdy → os'.tcb.taskState t = .rdy) (times : s.Released s')
    (flag : sched = false → noSched = true) {reply : Option (ErrCode × Nat)} :
    Keeps os s noSched ⟨os', reply, sched⟩ s' held' calm :=
  .reprioritised inv ready os.sched.prioCur vars kept times flag

theorem same (inv : os'.Inv s' held' calm) (ready : os.CallerReady) (vars : os'.sched = os.sched)
    (state : os'.tcb.taskState = os.tcb.taskState) (prio : os'.tcb.prio = os.tcb.prio)
    (times : s.SameTimes s') {reply : Option (ErrCode × Nat)} :
    Keeps os s noSched ⟨os', reply, sched⟩ s' held' calm where
  inv := inv
  idleTask := by rw [vars]
  tcbCur := by rw [vars]
  tcbHighRdy := by rw [vars]
  pendSv := by rw [vars]
  nesting := by rw [vars]
  lock := by simp only [vars, le_sup_left]
  now := times.now
  due := fun t _ _ => by rw [times.due]
  caller := fun task => .inl ((congrFun state _).trans (ready task))
  isr := fun _ => ⟨by rw [vars], fun t ready => (congrFun state t).trans ready⟩
  quiet := fun _ => .inr (.inr ⟨by rw [vars], state, prio⟩)

end Keeps

/-! ## The scheduler -/

theorem Inv.congr (inv : os.Inv s held calm) (rdy : Rdy os'.rdyList s'.ready)
    (members : ∀ t p, t ∈ s'.ready p ↔ t ∈ s.ready p) (pnd : Pnd os'.pendList s.waiting)
    (objPtr : os'.pendList.objPtr = os.pendList.objPtr) (waiting : s'.waiting = s.waiting)
    (times : s.SameTimes s') (tickList : os'.tickList = os.tickList)
    (tcb : os'.tcb = { os.tcb with
      semCtr := os'.tcb.semCtr, tickCtrPrev := os'.tcb.tickCtrPrev
      timeQuanta := os'.tcb.timeQuanta, timeQuantaCtr := os'.tcb.timeQuantaCtr })
    (sem : ∀ t x, os.pendList.objPtr t = some (.inl x) →
      os'.sem.type x = os.sem.type x ∧ os'.sem.ctr x = os.sem.ctr x)
    (mutex : os'.mutex = os.mutex) (idle : os'.sched.idleTask = os.sched.idleTask) :
    os'.Inv s' held calm where
  toCore := inv.toCore.congr rdy members pnd objPtr waiting times.timed tcb sem mutex idle
  tck := by simpa only [tickList, times.timed, times.due, times.now] using inv.tck
  fair := by
    have waits : os'.waitsFor = os.waitsFor := by
      funext t
      simp only [waitsFor, pendMutex, objPtr, mutex]
    rw [waits, tcb]
    exact inv.fair

theorem Inv.frame (inv : os.Inv s held calm) (rdy : os'.rdyList = os.rdyList)
    (pnd : os'.pendList = os.pendList) (tickList : os'.tickList = os.tickList)
    (tcb : os'.tcb = { os.tcb with
      semCtr := os'.tcb.semCtr, tickCtrPrev := os'.tcb.tickCtrPrev
      timeQuanta := os'.tcb.timeQuanta, timeQuantaCtr := os'.tcb.timeQuantaCtr })
    (sem : os'.sem = os.sem) (mutex : os'.mutex = os.mutex)
    (idle : os'.sched.idleTask = os.sched.idleTask) : os'.Inv s held calm :=
  inv.congr (rdy ▸ inv.rdy) (fun _ _ => .rfl) (pnd ▸ inv.pnd) (by rw [pnd]) rfl ⟨rfl, rfl, rfl⟩
    tickList tcb (fun _ _ _ => by rw [sem]; exact ⟨rfl, rfl⟩) mutex idle

section Lock

variable (inv : os.Inv s held calm) (ready : os.CallerReady)

include inv ready

theorem Inv.keeps_lock (task : os.sched.intNestingCtr = 0) {lock : Nat}
    (bound : lock ≤ max os.sched.lockNestingCtr 250) (still : sched = false → 0 < lock)
    {reply : Option (ErrCode × Nat)} :
    Keeps os s noSched ⟨{ os with sched.lockNestingCtr := lock }, reply, sched⟩ s held calm where
  inv := inv.frame rfl rfl rfl rfl rfl rfl rfl
  idleTask := rfl
  tcbCur := rfl
  tcbHighRdy := rfl
  pendSv := rfl
  nesting := rfl
  lock := bound
  now := rfl
  due := fun _ _ _ => rfl
  caller := fun task => .inl (ready task)
  isr := fun isr => absurd task isr.ne'
  quiet := fun same => .inr (.inl (still same))

theorem Inv.schedLock (task : os.sched.intNestingCtr = 0) (few : os.sched.lockNestingCtr < 250) :
    ∃ r s' held', os.schedLock = some r ∧ os.Keeps s noSched r s' held' calm :=
  ⟨_, s, held, rfl, inv.keeps_lock ready task (by omega) fun _ => Nat.succ_pos _⟩

theorem Inv.schedUnlock (task : os.sched.intNestingCtr = 0) :
    ∃ r s' held', os.schedUnlock = some r ∧ os.Keeps s noSched r s' held' calm := by
  simp only [Os.schedUnlock]
  split
  · rename_i still
    exact ⟨_, s, held, rfl, inv.keeps_lock ready task (by omega) fun _ => still⟩
  · exact ⟨_, s, held, rfl, inv.keeps_lock ready task (by omega) (by simp)⟩

theorem Inv.schedRoundRobinCfg (en : Bool) (dfltTimeQuanta tenth : Nat) :
    ∃ r s' held', os.schedRoundRobinCfg en dfltTimeQuanta tenth = some r ∧
      os.Keeps s noSched r s' held' calm := by
  refine ⟨_, s, held, rfl, ?_⟩
  exact ⟨inv.frame rfl rfl rfl rfl rfl rfl rfl, rfl, rfl, rfl, rfl, rfl, le_max_left .., rfl,
    fun _ _ _ => rfl, fun level => .inl (ready level), fun _ => ⟨rfl, fun _ => id⟩,
    fun _ => .inr (.inr ⟨rfl, rfl, rfl⟩)⟩

end Lock

variable [DecidableEq ι]

theorem Inv.rotate (inv : os.Inv s held calm) {first : ι} {nodes : List ι}
    (here : s.ready p = first :: nodes) :
    ∃ os' s', os.rotate p = some os' ∧ os'.Inv s' held calm ∧ os.Woke s os' s' ∧ s.SameTimes s' := by
  obtain ⟨rl, moved, -, rdy⟩ := inv.rdy.moveHeadToTail here
  have listed := (rdy.listed p).head
  simp only [Function.update_self] at listed
  obtain ⟨t, head⟩ : ∃ t, (nodes ++ [first]).head? = some t := by
    cases nodes
    · exact ⟨first, rfl⟩
    · exact ⟨_, rfl⟩
  rw [head] at listed
  have members : ∀ t q, t ∈ Function.update s.ready p (nodes ++ [first]) q ↔ t ∈ s.ready q := by
    intro t q
    by_cases same : q = p
    · subst same
      simp [here, or_comm]
    · simp [same]
  let quanta := Function.update os.tcb.timeQuantaCtr t
    (if os.tcb.timeQuanta t = 0 then os.sched.roundRobinDfltTimeQuanta else os.tcb.timeQuanta t)
  have inv' : Inv { os with rdyList := rl, tcb.timeQuantaCtr := quanta }
      { s with ready := Function.update s.ready p (nodes ++ [first]) } held calm :=
    inv.congr rdy members inv.pnd rfl rfl ⟨rfl, rfl, rfl⟩ rfl rfl
      (fun _ _ _ => ⟨rfl, rfl⟩) rfl rfl
  refine ⟨_, _, ?_, inv', ⟨rfl, rfl, rfl, fun _ => id, ⟨fun _ => id, rfl, rfl⟩⟩, ⟨rfl, rfl, rfl⟩⟩
  simp only [Os.rotate, moved, Option.bind_eq_bind, Option.bind_some, listed, quanta]

omit [DecidableEq ι] in
theorem Seated.cons_of_ne (seated : os.Seated s)
    (several : (os.rdyList.list p).headPtr ≠ (os.rdyList.list p).tailPtr) :
    ∃ first nodes, s.ready p = first :: nodes := by
  have listed := seated.rdy.listed p
  apply List.exists_cons_of_ne_nil
  intro empty
  exact several (by rw [listed.head, listed.tail, empty]; rfl)

theorem Inv.schedRoundRobinYield (inv : os.Inv s held calm) (ready : os.CallerReady) :
    ∃ r s' held', os.schedRoundRobinYield = some r ∧ os.Keeps s noSched r s' held' calm := by
  simp only [Os.schedRoundRobinYield]
  split
  · exact ⟨_, s, held, rfl, .refuse inv ready⟩
  · rename_i several
    obtain ⟨first, nodes, here⟩ := inv.cons_of_ne several
    obtain ⟨os', s', rotated, inv', woke, -⟩ := inv.rotate here
    exact ⟨_, s', held, by rw [rotated]; rfl,
      .woke inv' ready woke.sched woke.ready woke.times (by simp)⟩

theorem Inv.schedRoundRobin (inv : os.Inv s held calm) (prio : Nat) :
    ∃ os' s', os.schedRoundRobin prio = some os' ∧ os'.Inv s' held calm ∧ os.Woke s os' s' ∧
      s.SameTimes s' := by
  have stays : ∃ os' s', some os = some os' ∧ os'.Inv s' held calm ∧ os.Woke s os' s' ∧
      s.SameTimes s' := ⟨os, s, rfl, inv, .refl os s, ⟨rfl, rfl, rfl⟩⟩
  simp only [Os.schedRoundRobin]
  split
  · exact stays
  · rename_i t head
    split
    · exact stays
    · have counted : Inv { os with
          tcb.timeQuantaCtr :=
            Function.update os.tcb.timeQuantaCtr t (os.tcb.timeQuantaCtr t - 1) } s held calm :=
        inv.frame rfl rfl rfl rfl rfl rfl rfl
      have quiet : os.Woke s { os with
          tcb.timeQuantaCtr :=
            Function.update os.tcb.timeQuantaCtr t (os.tcb.timeQuantaCtr t - 1) } s :=
        ⟨rfl, rfl, rfl, fun _ => id, .refl s⟩
      split
      · exact ⟨_, s, rfl, counted, quiet, ⟨rfl, rfl, rfl⟩⟩
      split
      · exact ⟨_, s, rfl, counted, quiet, ⟨rfl, rfl, rfl⟩⟩
      · rename_i several
        split
        · exact ⟨_, s, rfl, counted, quiet, ⟨rfl, rfl, rfl⟩⟩
        · obtain ⟨first, nodes, here⟩ := inv.cons_of_ne several
          obtain ⟨os', s', rotated, inv', woke, times⟩ := counted.rotate here
          exact ⟨os', s', rotated, inv', quiet.trans woke, times⟩

end Os

end ExploreF407.Kernel
