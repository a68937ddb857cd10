import ExploreF407.Kernel.Waking

/-! # Tasks that change their state

What the services on tasks and time do to the lists: a task leaves the ready
list, becomes ready, or is suspended and resumed while it waits.
-/

namespace ExploreF407.Kernel

open Linked Urgency Inherit

variable {ι σ μ : Type}

namespace Os

variable {os os' os'' : Os ι σ μ} {s s' s'' : Lists ι (σ ⊕ μ)} {held held' : ι → List μ}
  {t r o : ι} {m : μ} {p : Nat} {state : TaskState} {ctr : ι → Nat}

theorem Rules.congr (rules : os.Rules held) (sem : os'.sem = os.sem)
    (mutex : os'.mutex = os.mutex) (objPtr : os'.pendList.objPtr = os.pendList.objPtr)
    (group : os'.tcb.mutexGrpHeadPtr = os.tcb.mutexGrpHeadPtr)
    (base : os'.tcb.basePrio = os.tcb.basePrio)
    (alive : ∀ r, os'.tcb.taskState r = .del ↔ os.tcb.taskState r = .del)
    (suspended : ∀ r, (os'.tcb.taskState r).held = true ↔ 0 < os'.tcb.suspendCtr r)
    (idle : os'.tcb.taskState os'.sched.idleTask = .rdy) : os'.Rules held where
  owned := {
    group := by simpa only [mutex, group] using rules.owned.group
    owner := by simpa only [mutex] using rules.owned.owner
    busy := by simpa only [mutex, objPtr] using rules.owned.busy }
  owns := by simpa only [mutex] using rules.owns
  nesting := by simpa only [mutex] using rules.nesting
  alive := by simpa only [ne_eq, alive] using rules.alive
  inside := by simpa only [ne_eq, alive, base] using rules.inside
  sems := by simpa only [sem, objPtr] using rules.sems
  mutexes := by simpa only [mutex] using rules.mutexes
  suspended := suspended
  idle := idle

theorem Rules.relist (rules : os.Rules held) (tcb : os'.tcb = os.tcb) (sem : os'.sem = os.sem)
    (mutex : os'.mutex = os.mutex) (objPtr : os'.pendList.objPtr = os.pendList.objPtr)
    (idle : os'.sched.idleTask = os.sched.idleTask) : os'.Rules held := by
  refine rules.congr sem mutex objPtr ?_ ?_ ?_ ?_ ?_
  · rw [tcb]
  · rw [tcb]
  · simp only [tcb, implies_true]
  · simpa only [tcb] using rules.suspended
  · simpa only [tcb, idle] using rules.idle

/-- The order of ready tasks, the counters of semaphores that nobody waits for, and fields that
    the rules do not speak of. -/
theorem Core.congr (core : os.Core s held) (rdy : Rdy os'.rdyList s'.ready)
    (members : ∀ t p, t ∈ s'.ready p ↔ t ∈ s.ready p) (pnd : Pnd os'.pendList s.waiting)
    (objPtr : os'.pendList.objPtr = os.pendList.objPtr) (waiting : s'.waiting = s.waiting)
    (timed : s'.timed = s.timed)
    (tcb : os'.tcb = { os.tcb with
      semCtr := os'.tcb.semCtr, tickCtrPrev := os'.tcb.tickCtrPrev
      timeQuanta := os'.tcb.timeQuanta, timeQuantaCtr := os'.tcb.timeQuantaCtr })
    (sem : ∀ t x, os.pendList.objPtr t = some (.inl x) →
      os'.sem.type x = os.sem.type x ∧ os'.sem.ctr x = os.sem.ctr x)
    (mutex : os'.mutex = os.mutex) (idle : os'.sched.idleTask = os.sched.idleTask) :
    os'.Core s' held where
  rdy := rdy
  pnd := waiting ▸ pnd
  placed := by
    intro t
    refine (core.placed t).frame (members t) ?_ ?_ ?_ ?_ ?_
    · rw [timed]
    · rw [tcb]
    · rw [tcb]
    · rw [tcb]
    · rw [objPtr]
  once := timed ▸ core.once
  inOrder := by
    rw [waiting, tcb]
    exact core.inOrder
  owned := {
    group := by
      rw [mutex, tcb]
      exact core.owned.group
    owner := by simpa only [mutex] using core.owned.owner
    busy := by simpa only [mutex, objPtr] using core.owned.busy }
  owns := by simpa only [mutex] using core.owns
  nesting := by simpa only [mutex] using core.nesting
  alive := by
    rw [tcb]
    exact core.alive
  inside := by
    rw [tcb]
    exact core.inside
  sems := by
    intro t x waits
    rw [objPtr] at waits
    obtain ⟨type, ctr⟩ := sem t x waits
    rw [type, ctr]
    exact core.sems t x waits
  mutexes := by simpa only [mutex] using core.mutexes
  suspended := by
    rw [tcb]
    exact core.suspended
  idle := by
    rw [tcb, idle]
    exact core.idle

variable [DecidableEq ι]

/-- The kernel when a task has another state and the suspensions are counted so. -/
abbrev restated (os : Os ι σ μ) (t : ι) (state : TaskState) (ctr : ι → Nat) : Os ι σ μ :=
  { os with
    tcb.taskState := Function.update os.tcb.taskState t state
    tcb.suspendCtr := ctr }

theorem Apart.restated (apart : os.Apart s t) : (os.restated t state ctr).Apart s t := by
  refine apart.congr rfl rfl ?_ (fun _ _ _ => rfl)
  intro r other
  simp only [Function.update_of_ne other, and_self]

theorem Rules.restated (rules : os.Rules held) (alive : state ≠ .del)
    (was : os.tcb.taskState t ≠ .del) (other : t ≠ os.sched.idleTask)
    (here : state.held = true ↔ 0 < ctr t) (others : ∀ r, r ≠ t → ctr r = os.tcb.suspendCtr r) :
    (os.restated t state ctr).Rules held := by
  refine rules.congr rfl rfl rfl rfl rfl ?_ ?_ ?_
  · intro r
    by_cases same : r = t
    · subst same
      simp [alive, was]
    · simp [same]
  · intro r
    by_cases same : r = t
    · subst same
      simpa using here
    · simpa [same, others r same] using rules.suspended r
  · simpa [other.symm] using rules.idle

/-- Neither state is that of a ready task, and the task pends in both or in none. -/
theorem Seated.restated (seated : os.Seated s) (notReady : os.tcb.taskState t ≠ .rdy)
    (stays : state ≠ .rdy) (was : os.tcb.taskState t ≠ .del)
    (pending : state.pending = (os.tcb.taskState t).pending)
    (timed : state.timed = (os.tcb.taskState t).timed) :
    (os.restated t state ctr).Seated s := by
  have place := seated.placed t
  refine (seated.apart t).restated.seated {
    ready := ?_, timed := ?_, fits := ?_, below := fun _ => place.below was }
  · intro q
    simpa [stays, notReady] using place.ready q
  · simpa [timed] using place.timed
  · simpa [Fits, pending] using place.fits

theorem Seated.untimed (seated : os.Seated s) (notReady : os.tcb.taskState t ≠ .rdy)
    (stays : state ≠ .rdy) (was : os.tcb.taskState t ≠ .del)
    (pending : state.pending = (os.tcb.taskState t).pending) (timed : state.timed = false) :
    (os.restated t state ctr).Seated (s.untime t) := by
  have place := seated.placed t
  refine (seated.apart t).untime.restated.seated {
    ready := ?_, timed := ?_, fits := ?_, below := fun _ => place.below was }
  · intro q
    simpa [Lists.untime, stays, notReady] using place.ready q
  · simp [Lists.untime, timed, seated.once.not_mem_erase]
  · simpa [Fits, pending] using place.fits

theorem Seated.awake (seated : os.Seated s) (ctr : ι → Nat) (notReady : os.tcb.taskState t ≠ .rdy)
    (was : os.tcb.taskState t ≠ .del) (idle : (os.tcb.taskState t).pending = false) :
    ∃ rl, osRdyListInsert os.rdyList os.sched.prioCur (os.tcb.prio t) t = some rl ∧
      Seated { os.restated t .rdy ctr with rdyList := rl }
        ((s.untime t).enready os.sched.prioCur (os.tcb.prio t) t) := by
  have place := seated.placed t
  have fresh : ∀ p, t ∉ s.ready p := fun p inside => notReady ((place.ready p).mp inside).1
  have apart : (os.restated t .rdy ctr).Apart (s.untime t) t :=
    (seated.apart t).untime.restated
  obtain ⟨rl, inserted, apart⟩ := apart.rdyListInsert fresh (place.below was)
  refine ⟨rl, inserted, apart.seated {
    ready := ?_, timed := ?_, fits := ?_, below := fun _ => place.below was }⟩
  · intro q
    simp [Lists.mem_enready, Lists.untime, fresh q, eq_comm]
  · simp [Lists.enready, Lists.untime, seated.once.not_mem_erase, TaskState.timed]
  · have free := seated.free idle
    simpa [Fits, TaskState.pending] using free

theorem Seated.asleep (seated : os.Seated s) (ready : os.tcb.taskState t = .rdy)
    (stays : state ≠ .rdy) (pending : state.pending = false) (timed : state.timed = false) :
    Seated ((os.restated t state ctr).rdyListRemove t) (s.unready t) := by
  have place := seated.placed t
  have member : t ∈ s.ready (os.tcb.prio t) := (place.ready _).mpr ⟨ready, rfl⟩
  have apart : (os.restated t state ctr).Apart s t := (seated.apart t).restated
  refine (apart.rdyListRemove member).seated {
    ready := ?_, timed := ?_, fits := ?_, below := fun _ => place.below (by simp [ready]) }
  · intro q
    have once := (seated.rdy.listed q).nodup
    simp [Lists.unready, once.not_mem_erase, rdyListRemove, stays]
  · have outside : t ∉ s.timed := by simp [place.timed, ready, TaskState.timed]
    simp [Lists.unready, rdyListRemove, timed, outside]
  · have free : os.pendList.objPtr t = none := seated.free (by simp [ready, TaskState.pending])
    simp [Fits, rdyListRemove, pending, free]

end Os

end ExploreF407.Kernel
