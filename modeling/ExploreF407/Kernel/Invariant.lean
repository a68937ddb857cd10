import ExploreF407.Kernel.ChangePrio

/-! # The invariant of the kernel

Beside the lists, the services keep rules about owners, semaphores, suspended
tasks and the idle task. `Core` leaves out the two parts that do not hold in the
middle of a service: the tick list while ticks pass, and the fairness of
priorities while a task ceases to wait for a mutex. Fairness is lost when a task
that waits for a mutex itself becomes less urgent, so it is claimed only where
nothing of the kind has happened.
-/

namespace ExploreF407.Kernel

open Linked Urgency Inherit

variable {ι σ μ : Type}

/-- Tasks may have left the list of delays, and nothing else has happened to deadlines. -/
structure Lists.Released {ο : Type} (s s' : Lists ι ο) : Prop where
  timed : ∀ t ∈ s'.timed, t ∈ s.timed
  due : s'.due = s.due
  now : s'.now = s.now

theorem Lists.Released.refl {ο : Type} (s : Lists ι ο) : s.Released s := ⟨fun _ => id, rfl, rfl⟩

theorem Lists.Released.trans {ο : Type} {s s' s'' : Lists ι ο} (first : s.Released s')
    (second : s'.Released s'') : s.Released s'' where
  timed := fun t member => first.timed t (second.timed t member)
  due := second.due.trans first.due
  now := second.now.trans first.now

theorem Lists.SameTimes.released {ο : Type} {s s' : Lists ι ο} (same : s.SameTimes s') :
    s.Released s' where
  timed := fun _ member => same.timed ▸ member
  due := same.due
  now := same.now

namespace Os

/-- What holds of tasks, mutexes and semaphores beside their places in the lists. -/
structure Rules (os : Os ι σ μ) (held : ι → List μ) : Prop where
  owned : os.Owned held
  owns : ∀ t m, os.mutex.ownerTcbPtr m = some t → m ∈ held t
  nesting : ∀ m, os.mutex.ownerNestingCtr m = 0 ↔ os.mutex.ownerTcbPtr m = none
  alive : ∀ r, held r ≠ [] → os.tcb.taskState r ≠ .del
  inside : ∀ r, os.tcb.taskState r ≠ .del → os.tcb.basePrio r < osCfgPrioMax
  /-- No task waits for a semaphore that can be had. -/
  sems : ∀ t x, os.pendList.objPtr t = some (.inl x) → os.sem.type x = true ∧ os.sem.ctr x = 0
  mutexes : ∀ m t, os.mutex.ownerTcbPtr m = some t → os.mutex.type m = true
  suspended : ∀ t, (os.tcb.taskState t).held = true ↔ 0 < os.tcb.suspendCtr t
  idle : os.tcb.taskState os.sched.idleTask = .rdy

structure Core (os : Os ι σ μ) (s : Lists ι (σ ⊕ μ)) (held : ι → List μ) : Prop
    extends Seated os s, Rules os held

/-- The kernel between two critical sections. -/
structure Inv (os : Os ι σ μ) (s : Lists ι (σ ⊕ μ)) (held : ι → List μ) (calm : Prop) : Prop
    extends Core os s held where
  tck : Tck os.tickList s.now s.due s.timed
  /-- Every task runs with the most urgent of its own priority and the priorities of the tasks
      that wait for its mutexes. -/
  fair : calm → ∀ t, Fair os.tcb.prio os.tcb.basePrio os.waitsFor t

/-- What a service does that only wakes tasks and changes priorities. -/
structure Woke (os : Os ι σ μ) (s : Lists ι (σ ⊕ μ)) (os' : Os ι σ μ) (s' : Lists ι (σ ⊕ μ)) :
    Prop where
  sched : os'.sched = os.sched
  sem : os'.sem = os.sem
  mutex : os'.mutex = os.mutex
  ready : ∀ t, os.tcb.taskState t = .rdy → os'.tcb.taskState t = .rdy
  times : s.Released s'

variable {os os' os'' : Os ι σ μ} {s s' s'' : Lists ι (σ ⊕ μ)} {held held' : ι → List μ}
  {t r o : ι} {m : μ} {p : Nat}

theorem Woke.refl (os : Os ι σ μ) (s : Lists ι (σ ⊕ μ)) : os.Woke s os s :=
  ⟨rfl, rfl, rfl, fun _ => id, .refl s⟩

theorem Woke.trans (first : os.Woke s os' s') (second : os'.Woke s' os'' s'') :
    os.Woke s os'' s'' where
  sched := second.sched.trans first.sched
  sem := second.sem.trans first.sem
  mutex := second.mutex.trans first.mutex
  ready := fun t state => second.ready t (first.ready t state)
  times := first.times.trans second.times

theorem Seated.waiting_eq_nil (seated : os.Seated s) {obj : σ ⊕ μ} :
    s.waiting obj = [] ↔ ∀ t, os.pendList.objPtr t ≠ some obj := by
  simp only [ne_eq, seated.pnd.object, List.eq_nil_iff_forall_not_mem]

theorem Seated.free (seated : os.Seated s) (idle : (os.tcb.taskState t).pending = false) :
    os.pendList.objPtr t = none := by
  have fits := (seated.placed t).fits
  simpa [Fits, idle] using fits

theorem waitsFor_eq_none (free : os.pendList.objPtr t = none) : os.waitsFor t = none := by
  simp only [waitsFor, pendMutex, free, Option.bind_none]

def ownerOf (os : Os ι σ μ) : σ ⊕ μ → Option ι := Sum.elim (fun _ => none) os.mutex.ownerTcbPtr

theorem waitsFor_eq_ownerOf {obj : σ ⊕ μ} (waits : os.pendList.objPtr t = some obj) :
    os.waitsFor t = os.ownerOf obj := by
  cases obj <;> simp [waitsFor, pendMutex, ownerOf, waits]

variable [DecidableEq ι]

/-! ## The end of a wait -/

/-- What has become of a task whose wait has ended, and of the others. -/
structure Ended (os : Os ι σ μ) (s : Lists ι (σ ⊕ μ)) (t : ι) (os' : Os ι σ μ)
    (s' : Lists ι (σ ⊕ μ)) : Prop where
  woke : os.Woke s os' s'
  timed : s'.timed = s.timed.erase t
  waiting : ∀ o, s'.waiting o = (s.waiting o).erase t
  tickList : os'.tickList =
    if (os.tcb.taskState t).timed then osTickListRemove os.tickList t else os.tickList
  waits : os'.waitsFor = Function.update os.waitsFor t none
  prio : os'.tcb.prio = os.tcb.prio
  basePrio : os'.tcb.basePrio = os.tcb.basePrio
  state : os'.tcb.taskState = Function.update os.tcb.taskState t (os.tcb.taskState t).woken
  objPtr : os'.pendList.objPtr = Function.update os.pendList.objPtr t none

theorem Rules.ended {l : PendLists ι (σ ⊕ μ)} {rl : RdyLists ι} {status : PendStatus}
    (rules : os.Rules held) (pends : (os.tcb.taskState t).pending = true)
    (objs : l.objPtr = Function.update os.pendList.objPtr t none) :
    Rules (os.ended l rl t status) held := by
  have alive : os.tcb.taskState t ≠ .del := by
    intro state
    simp [state, TaskState.pending] at pends
  have before : ∀ r obj, l.objPtr r = some obj → os.pendList.objPtr r = some obj := by
    intro r obj waits
    by_cases same : r = t
    · subst same
      simp [objs] at waits
    · simpa [objs, same] using waits
  have deleted : ∀ r, (os.ended l rl t status).tcb.taskState r ≠ .del →
      os.tcb.taskState r ≠ .del := by
    intro r state
    by_cases same : r = t
    · exact same ▸ alive
    · simpa [Os.ended, same] using state
  refine { owned := ?_, owns := rules.owns, nesting := rules.nesting, alive := ?_, inside := ?_
           sems := ?_, mutexes := rules.mutexes, suspended := ?_, idle := ?_ }
  · exact { rules.owned with
      busy := fun r m waits => rules.owned.busy r m (before r (.inr m) waits) }
  · intro r owns
    by_cases same : r = t
    · subst same
      simp only [Os.ended, Function.update_self, TaskState.woken]
      split <;> simp
    · simpa [Os.ended, same] using rules.alive r owns
  · exact fun r state => rules.inside r (deleted r state)
  · exact fun r x waits => rules.sems r x (before r (.inl x) waits)
  · intro r
    by_cases same : r = t
    · subst same
      have both : (os.tcb.taskState r).woken.held = (os.tcb.taskState r).held := by
        simp only [TaskState.woken]
        split
        · simp_all [TaskState.held]
        · simp_all [TaskState.held]
      simpa [Os.ended, both] using rules.suspended r
    · simpa [Os.ended, same] using rules.suspended r
  · have other : os.sched.idleTask ≠ t := by
      rintro rfl
      simp [rules.idle, TaskState.pending] at pends
    simpa [Os.ended, other] using rules.idle

variable [DecidableEq σ] [DecidableEq μ]

theorem Core.pendEnd (core : os.Core s held) (pends : (os.tcb.taskState t).pending = true)
    (status : PendStatus) :
    ∃ os' s', (os.pendListRemove t).bind (fun os => os.pendEnd t status) = some os' ∧
      os'.Core s' held ∧ os.Ended s t os' s' := by
  obtain ⟨l, rl, done, objs, seated⟩ := core.toSeated.pendEnd pends status
  refine ⟨_, _, done, { seated, core.toRules.ended pends objs with }, ?_⟩
  have other : ∀ r, os.tcb.taskState r = .rdy → r ≠ t := by
    rintro r state rfl
    simp [state, TaskState.pending] at pends
  refine { woke := ?_, timed := Lists.wake_timed .., waiting := ?_, tickList := rfl, waits := ?_
           prio := rfl, basePrio := rfl, state := rfl, objPtr := objs }
  · refine { sched := rfl, sem := rfl, mutex := rfl, ready := ?_, times := ?_ }
    · intro r state
      simpa [ended, other r state] using state
    · refine { timed := ?_, due := Lists.wake_due .., now := Lists.wake_now .. }
      intro r member
      rw [Lists.wake_timed] at member
      exact List.mem_of_mem_erase member
  · intro o
    rw [Lists.wake_waiting]
    rfl
  · funext r
    by_cases same : r = t
    · subst same
      simp [waitsFor, pendMutex, ended, objs]
    · simp [waitsFor, pendMutex, ended, objs, same]

omit [DecidableEq σ] [DecidableEq μ] in
theorem Seated.tck_erase (seated : os.Seated s) (tck : Tck os.tickList s.now s.due s.timed) (t : ι) :
    Tck (if (os.tcb.taskState t).timed then osTickListRemove os.tickList t else os.tickList)
      s.now s.due (s.timed.erase t) := by
  have place := (seated.placed t).timed
  cases timed : (os.tcb.taskState t).timed with
  | true => simpa only [if_true] using tck.erase (place.mpr timed)
  | false =>
      have outside : t ∉ s.timed := by simp [place, timed]
      simpa [List.erase_of_not_mem outside] using tck

omit [DecidableEq σ] [DecidableEq μ] in
theorem Ended.tck (ended : os.Ended s t os' s') (core : os.Core s held)
    (tck : Tck os.tickList s.now s.due s.timed) : Tck os'.tickList s'.now s'.due s'.timed := by
  rw [ended.tickList, ended.timed, ended.woke.times.due, ended.woke.times.now]
  exact core.toSeated.tck_erase tck t

omit [DecidableEq σ] [DecidableEq μ] in
theorem Ended.settled (ended : os.Ended s t os' s') {o : Option ι} (waits : os.waitsFor t = o)
    (settled : Settled os.tcb.prio os.tcb.basePrio os.waitsFor o) :
    Settled os'.tcb.prio os'.tcb.basePrio os'.waitsFor o := by
  rw [ended.prio, ended.basePrio, ended.waits]
  exact settled.leave waits (Function.update_self ..) fun w other =>
    Function.update_of_ne other none os.waitsFor

/-! ## Changes of priorities -/

omit [DecidableEq ι] [DecidableEq σ] [DecidableEq μ] in
theorem Rules.reprioritised {prio : ι → Nat} {r : RdyLists ι} {l : PendLists ι (σ ⊕ μ)}
    (rules : os.Rules held) (objs : l.objPtr = os.pendList.objPtr) :
    Rules (os.reprioritised prio r l) held where
  owned := rules.owned.reprioritised objs
  owns := rules.owns
  nesting := rules.nesting
  alive := rules.alive
  inside := rules.inside
  sems := by simpa only [Os.reprioritised, objs] using rules.sems
  mutexes := rules.mutexes
  suspended := rules.suspended
  idle := rules.idle

structure Repriced (os : Os ι σ μ) (s : Lists ι (σ ⊕ μ)) (os' : Os ι σ μ)
    (s' : Lists ι (σ ⊕ μ)) : Prop where
  sched : os'.sched = os.sched
  sem : os'.sem = os.sem
  mutex : os'.mutex = os.mutex
  tickList : os'.tickList = os.tickList
  tcb : os'.tcb = { os.tcb with prio := os'.tcb.prio }
  objPtr : os'.pendList.objPtr = os.pendList.objPtr
  times : s.SameTimes s'

namespace Repriced

omit [DecidableEq ι] [DecidableEq σ] [DecidableEq μ]

theorem refl (os : Os ι σ μ) (s : Lists ι (σ ⊕ μ)) : os.Repriced s os s :=
  ⟨rfl, rfl, rfl, rfl, rfl, rfl, ⟨rfl, rfl, rfl⟩⟩

variable (repriced : os.Repriced s os' s')

include repriced

theorem state : os'.tcb.taskState = os.tcb.taskState := by rw [repriced.tcb]

theorem basePrio : os'.tcb.basePrio = os.tcb.basePrio := by rw [repriced.tcb]

theorem waits : os'.waitsFor = os.waitsFor := by
  funext t
  simp only [waitsFor, pendMutex, repriced.objPtr, repriced.mutex]

theorem woke : os.Woke s os' s' where
  sched := repriced.sched
  sem := repriced.sem
  mutex := repriced.mutex
  ready := fun t state => by simpa only [repriced.state] using state
  times := repriced.times.released

theorem tck (tck : Tck os.tickList s.now s.due s.timed) :
    Tck os'.tickList s'.now s'.due s'.timed := by
  simpa only [repriced.tickList, repriced.times.timed, repriced.times.due, repriced.times.now]
    using tck

end Repriced

section ChangePrio

variable [Fintype ι] [Fintype μ]

omit [DecidableEq σ] [DecidableEq μ] [Fintype μ] in
theorem Core.handOn_ends (core : os.Core s held) (t : ι) (p : Nat) :
    ∃ prio, handOn os.tcb.basePrio os.waitsFor (changeRounds ι) os.tcb.prio t p = some prio := by
  refine Inherit.handOn_ends core.owned.waitsFor_ne ∅ (by simp) (by simp) ?_
  simp only [changeRounds, rounds, Finset.card_empty]
  omega

/-- A task gets another priority, and the tasks along its chain those that are handed on. -/
theorem Core.changePrio (core : os.Core s held) (here : os.tcb.taskState t ≠ .del)
    (below : p < osCfgPrioMax) :
    ∃ os' s', os.changePrio (changeRounds ι) t p = some os' ∧ os'.Core s' held ∧
      os.Repriced s os' s' ∧
      handOn os.tcb.basePrio os.waitsFor (changeRounds ι) os.tcb.prio t p = some os'.tcb.prio := by
  obtain ⟨prio, handed⟩ := core.handOn_ends t p
  obtain ⟨r, l, s', changed, objs, times, seated⟩ :=
    core.toSeated.changePrio core.owned core.alive core.inside here below handed
  exact ⟨_, s', changed, { seated, core.toRules.reprioritised objs with },
    ⟨rfl, rfl, rfl, rfl, rfl, objs, times⟩, handed⟩

theorem Core.raise (core : os.Core s held) (here : os.tcb.taskState t ≠ .del)
    (raised : p < os.tcb.prio t) :
    ∃ os' s', os.changePrio (changeRounds ι) t p = some os' ∧ os'.Core s' held ∧
      os.Repriced s os' s' ∧ (∀ x, os.tcb.prio x ≤ p → os'.tcb.prio x = os.tcb.prio x) ∧
      ∀ base : ι → Nat, (∀ r, r ≠ t → Fair os.tcb.prio base os.waitsFor r) →
        IsLeast (claims os.tcb.prio base os.waitsFor t) p →
        ∀ x, Fair os'.tcb.prio base os'.waitsFor x := by
  have below := raised.trans ((core.placed t).below here)
  have enough : (Finset.univ.filter fun r => p < os.tcb.prio r).card < changeRounds ι := by
    have few : (Finset.univ.filter fun r => p < os.tcb.prio r).card ≤ Fintype.card ι :=
      Finset.card_le_univ _
    simp only [changeRounds, rounds]
    omega
  obtain ⟨os', s', changed, core', repriced, handed⟩ := core.changePrio here below
  obtain ⟨prio, handed', kept, fair⟩ : ∃ prio,
      handOn os.tcb.basePrio os.waitsFor (changeRounds ι) os.tcb.prio t p = some prio ∧ _ :=
    handOn_raise core.owned.waitsFor_ne raised enough
  cases handed'.symm.trans handed
  refine ⟨os', s', changed, core', repriced, kept, fun base others least => ?_⟩
  rw [repriced.waits]
  exact fair base others least

theorem Core.settle (core : os.Core s held) (here : os.tcb.taskState t ≠ .del)
    (below : p < osCfgPrioMax) :
    ∃ os' s', os.changePrio (changeRounds ι) t p = some os' ∧ os'.Core s' held ∧
      os.Repriced s os' s' ∧ (os.waitsFor t = none →
        (∀ r, r ≠ t → Fair os.tcb.prio os.tcb.basePrio os.waitsFor r) →
        IsLeast (claims os.tcb.prio os.tcb.basePrio os.waitsFor t) p →
        ∀ x, Fair os'.tcb.prio os'.tcb.basePrio os'.waitsFor x) := by
  obtain ⟨os', s', changed, core', repriced, handed⟩ := core.changePrio here below
  refine ⟨os', s', changed, core', repriced, fun free others least x => ?_⟩
  have set : os'.tcb.prio = Function.update os.tcb.prio t p :=
    Option.some.inj (handed.symm.trans (handOn_free free))
  rw [repriced.waits, repriced.basePrio, set]
  exact fair_update others least (core.owned.waitsFor_ne t) (by simp [free])

/-- The owner of a mutex gives back the priority it had from a task that has ceased to wait. -/
theorem Core.disinherit (core : os.Core s held) (here : os.tcb.taskState o ≠ .del) (t : ι) :
    ∃ os' s', os.disinherit o t = some os' ∧ os'.Core s' held ∧ os.Repriced s os' s' ∧
      (os.waitsFor o = none → (∀ r, r ≠ o → Fair os.tcb.prio os.tcb.basePrio os.waitsFor r) →
        IsLeast (insert (os.tcb.prio t) (claims os.tcb.prio os.tcb.basePrio os.waitsFor o))
          (os.tcb.prio o) →
        ∀ x, Fair os'.tcb.prio os'.tcb.basePrio os'.waitsFor x) := by
  have settles : (∀ r, r ≠ o → Fair os.tcb.prio os.tcb.basePrio os.waitsFor r) →
      Fair os.tcb.prio os.tcb.basePrio os.waitsFor o →
      ∀ x, Fair os.tcb.prio os.tcb.basePrio os.waitsFor x := by
    intro others fair x
    by_cases same : x = o
    · exact same ▸ fair
    · exact others x same
  simp only [Os.disinherit]
  by_cases inherited : os.tcb.prio o ≠ os.tcb.basePrio o ∧ os.tcb.prio o = os.tcb.prio t
  · obtain ⟨p, found, entitled⟩ := core.owned.prioNew core.toSeated o (core.inside o here)
    simp only [if_pos inherited, found, Option.bind_some]
    by_cases stays : p = os.tcb.prio o
    · refine ⟨os, s, if_neg (not_not.mpr stays), core, .refl os s, fun _ others _ => ?_⟩
      exact settles others (by rwa [stays] at entitled)
    · have below : p < osCfgPrioMax :=
        (entitled.2 (Set.mem_insert ..)).trans_lt (core.inside o here)
      obtain ⟨os', s', changed, core', repriced, fair⟩ := core.settle here below
      exact ⟨os', s', by rw [if_pos stays, changed], core', repriced,
        fun free others _ => fair free others entitled⟩
  · refine ⟨os, s, if_neg inherited, core, .refl os s, fun _ others least => ?_⟩
    refine settles others ⟨?_, fun q member => least.2 (Set.mem_insert_of_mem _ member)⟩
    rcases Set.mem_insert_iff.mp least.1 with same | entitled
    · -- its own priority is as urgent as that of the task that has left
      have own : os.tcb.prio o = os.tcb.basePrio o := by
        by_contra differs
        exact inherited ⟨differs, same⟩
      exact own ▸ Set.mem_insert ..
    · exact entitled

end ChangePrio

end Os

end ExploreF407.Kernel
