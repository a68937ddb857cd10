import ExploreF407.Kernel.Os

/-! # The lists of the kernel

What the pointers of the kernel stand for: the lists of ready tasks, of tasks
that wait for an object and of tasks that wait for a time. The kernel is sound
when each task stands in the lists that its state tells. For every function
there is one step on the lists.
-/

namespace ExploreF407.Kernel

open Urgency

/-- The lists that the pointers stand for, with the deadlines of the tasks and the time. -/
structure Lists (ι ο : Type) where
  ready : Nat → List ι
  waiting : ο → List ι
  timed : List ι
  due : ι → Nat
  now : Nat

namespace Lists

variable {ι ο : Type} [DecidableEq ι] {s : Lists ι ο} {t r : ι} {d p q prioCur : Nat}

def unready (s : Lists ι ο) (t : ι) : Lists ι ο := { s with ready := fun p => (s.ready p).erase t }

def unwait (s : Lists ι ο) (t : ι) : Lists ι ο :=
  { s with waiting := fun o => (s.waiting o).erase t }

def untime (s : Lists ι ο) (t : ι) : Lists ι ο := { s with timed := s.timed.erase t }

/-- A task becomes ready: last among those with the priority of the running task, first among
    those with another one. -/
def enready (s : Lists ι ο) (prioCur p : Nat) (t : ι) : Lists ι ο :=
  { s with
    ready := Function.update s.ready p
      (if p = prioCur then s.ready p ++ [t] else t :: s.ready p) }

def enwait [DecidableEq ο] (s : Lists ι ο) (prio : ι → Nat) (o : ο) (t : ι) : Lists ι ο :=
  { s with waiting := Function.update s.waiting o (enqueue prio t (s.waiting o)) }

def entime (s : Lists ι ο) (d : Nat) (t : ι) : Lists ι ο :=
  { s with
    due := Function.update s.due t d
    timed := enqueue (Function.update s.due t d) t s.timed }

omit [DecidableEq ι] in
theorem mem_enready : r ∈ (s.enready prioCur p t).ready q ↔ r ∈ s.ready q ∨ r = t ∧ q = p := by
  by_cases same : q = p
  · subst same
    simp only [enready, Function.update_self]
    split <;> simp [or_comm]
  · simp [enready, same]

theorem mem_entime : r ∈ (s.entime d t).timed ↔ r ∈ s.timed ∨ r = t := by
  simp [entime, or_comm]

end Lists

variable {ι σ μ : Type}

/-- A task that is not suspended becomes ready. -/
def Lists.wake (s : Lists ι (σ ⊕ μ)) (os : Os ι σ μ) (t : ι) : Lists ι (σ ⊕ μ) :=
  if (os.tcb.taskState t).held then s else s.enready os.sched.prioCur (os.tcb.prio t) t

section Wake

variable (s : Lists ι (σ ⊕ μ)) (os : Os ι σ μ) (t : ι)

@[simp] theorem Lists.wake_waiting : (s.wake os t).waiting = s.waiting := by
  simp only [wake]
  split <;> rfl

@[simp] theorem Lists.wake_timed : (s.wake os t).timed = s.timed := by
  simp only [wake]
  split <;> rfl

@[simp] theorem Lists.wake_due : (s.wake os t).due = s.due := by
  simp only [wake]
  split <;> rfl

@[simp] theorem Lists.wake_now : (s.wake os t).now = s.now := by
  simp only [wake]
  split <;> rfl

end Wake

/-- A task that pends does so for an object of the kind that `PendOn` names, or for a signal to
    itself. -/
def Fits (state : TaskState) (on : PendOn) (obj : Option (σ ⊕ μ)) : Prop :=
  if state.pending then
    match on, obj with
    | .sem, some (.inl _) | .mutex, some (.inr _) | .taskSem, none => True
    | _, _ => False
  else obj = none

namespace Os

/-- The task stands in the lists that its state tells. -/
structure Placed (os : Os ι σ μ) (s : Lists ι (σ ⊕ μ)) (t : ι) : Prop where
  ready : ∀ p, t ∈ s.ready p ↔ os.tcb.taskState t = .rdy ∧ os.tcb.prio t = p
  timed : t ∈ s.timed ↔ (os.tcb.taskState t).timed = true
  fits : Fits (os.tcb.taskState t) (os.tcb.pendOn t) (os.pendList.objPtr t)
  below : os.tcb.taskState t ≠ .del → os.tcb.prio t < osCfgPrioMax

/-- Every task has its place in the lists, and those that wait for an object stand in the order
    of their priorities. -/
structure Seated (os : Os ι σ μ) (s : Lists ι (σ ⊕ μ)) : Prop where
  rdy : Rdy os.rdyList s.ready
  pnd : Pnd os.pendList s.waiting
  placed : ∀ t, os.Placed s t
  once : s.timed.Nodup
  inOrder : ∀ o, InOrder os.tcb.prio (s.waiting o)

/-- The same while the task `t` is on its way from list to list. -/
structure Apart (os : Os ι σ μ) (s : Lists ι (σ ⊕ μ)) (t : ι) : Prop where
  rdy : Rdy os.rdyList s.ready
  pnd : Pnd os.pendList s.waiting
  placed : ∀ r, r ≠ t → os.Placed s r
  once : s.timed.Nodup
  inOrder : ∀ o, InOrder os.tcb.prio (s.waiting o)

/-- The kernel between two calls. -/
structure Sound (os : Os ι σ μ) (s : Lists ι (σ ⊕ μ)) : Prop extends Seated os s where
  tck : Tck os.tickList s.now s.due s.timed

variable {os os' : Os ι σ μ} {s s' : Lists ι (σ ⊕ μ)} {t r : ι}

theorem Placed.frame (placed : os.Placed s t) (ready : ∀ p, t ∈ s'.ready p ↔ t ∈ s.ready p)
    (timed : t ∈ s'.timed ↔ t ∈ s.timed)
    (state : os'.tcb.taskState t = os.tcb.taskState t) (prio : os'.tcb.prio t = os.tcb.prio t)
    (on : os'.tcb.pendOn t = os.tcb.pendOn t)
    (obj : os'.pendList.objPtr t = os.pendList.objPtr t) : os'.Placed s' t where
  ready := by simpa only [ready, state, prio] using placed.ready
  timed := by simpa only [timed, state] using placed.timed
  fits := by simpa only [state, on, obj] using placed.fits
  below := by simpa only [state, prio] using placed.below

theorem Seated.apart (seated : os.Seated s) (t : ι) : os.Apart s t where
  rdy := seated.rdy
  pnd := seated.pnd
  placed := fun r _ => seated.placed r
  once := seated.once
  inOrder := seated.inOrder

namespace Apart

theorem seated (apart : os.Apart s t) (placed : os.Placed s t) : os.Seated s where
  rdy := apart.rdy
  pnd := apart.pnd
  placed := by
    intro r
    by_cases same : r = t
    · exact same ▸ placed
    · exact apart.placed r same
  once := apart.once
  inOrder := apart.inOrder

theorem congr (apart : os.Apart s t) (rdy : os'.rdyList = os.rdyList)
    (pnd : os'.pendList = os.pendList)
    (others : ∀ r, r ≠ t → os'.tcb.taskState r = os.tcb.taskState r ∧ os'.tcb.prio r = os.tcb.prio r ∧
      os'.tcb.pendOn r = os.tcb.pendOn r)
    (prio : ∀ o, ∀ r ∈ s.waiting o, os'.tcb.prio r = os.tcb.prio r) : os'.Apart s t where
  rdy := rdy ▸ apart.rdy
  pnd := pnd ▸ apart.pnd
  placed := by
    intro r other
    obtain ⟨state, prio, on⟩ := others r other
    exact (apart.placed r other).frame (fun _ => .rfl) .rfl state prio on (by rw [pnd])
  once := apart.once
  inOrder := by
    intro o
    apply (apart.inOrder o).imp_of_mem
    intro x y memberX memberY le
    rwa [prio o x memberX, prio o y memberY]

variable [DecidableEq ι] [DecidableEq σ] [DecidableEq μ]

theorem pendListRemove (apart : os.Apart s t) :
    ∃ l, osPendListRemove os.pendList t = some l ∧
      l.objPtr = Function.update os.pendList.objPtr t none ∧
      Apart { os with pendList := l } (s.unwait t) t := by
  obtain ⟨l, removed, objs, pnd⟩ := apart.pnd.erase t
  refine ⟨l, removed, objs, ?_⟩
  refine { rdy := apart.rdy, pnd := pnd, placed := ?_, once := apart.once, inOrder := ?_ }
  · intro r other
    refine (apart.placed r other).frame (fun _ => .rfl) .rfl rfl rfl rfl ?_
    simp only [objs, Function.update_of_ne other]
  · exact fun o => (apart.inOrder o).sublist List.erase_sublist

omit [DecidableEq σ] [DecidableEq μ] in
theorem rdyListInsert (apart : os.Apart s t) (fresh : ∀ p, t ∉ s.ready p)
    (below : os.tcb.prio t < osCfgPrioMax) :
    ∃ r, osRdyListInsert os.rdyList os.sched.prioCur (os.tcb.prio t) t = some r ∧
      Apart { os with rdyList := r } (s.enready os.sched.prioCur (os.tcb.prio t) t) t := by
  obtain ⟨r, inserted, rdy⟩ := apart.rdy.insert below fresh os.sched.prioCur
  refine ⟨r, inserted, ?_⟩
  refine {
    rdy := rdy, pnd := apart.pnd, placed := ?_, once := apart.once, inOrder := apart.inOrder }
  intro r other
  refine (apart.placed r other).frame ?_ .rfl rfl rfl rfl rfl
  intro p
  simp only [Lists.mem_enready, other, false_and, or_false]

omit [DecidableEq σ] [DecidableEq μ] in
theorem rdyListRemove (apart : os.Apart s t) (member : t ∈ s.ready (os.tcb.prio t)) :
    Apart (os.rdyListRemove t) (s.unready t) t := by
  refine {
    rdy := apart.rdy.erase member, pnd := apart.pnd, placed := ?_, once := apart.once
    inOrder := apart.inOrder }
  intro r other
  refine (apart.placed r other).frame ?_ .rfl rfl rfl rfl rfl
  intro p
  exact List.mem_erase_of_ne other

omit [DecidableEq σ] [DecidableEq μ] in
theorem untime (apart : os.Apart s t) : os.Apart (s.untime t) t :=
  { apart with
    once := apart.once.erase t
    placed := fun r other =>
      (apart.placed r other).frame (fun _ => .rfl) (List.mem_erase_of_ne other) rfl rfl rfl rfl }

omit [DecidableEq σ] [DecidableEq μ] in
theorem entime (apart : os.Apart s t) (fresh : t ∉ s.timed) (d : Nat) :
    os.Apart (s.entime d t) t :=
  { apart with
    once := (enqueue_perm _ t s.timed).nodup_iff.mpr (List.nodup_cons.mpr ⟨fresh, apart.once⟩)
    placed := fun r other =>
      (apart.placed r other).frame (fun _ => .rfl) (by simp [Lists.mem_entime, other])
        rfl rfl rfl rfl }

theorem enlist [Fintype ι] (apart : os.Apart s t) (obj : σ ⊕ μ)
    (free : os.pendList.objPtr t = none) :
    ∃ l, Kernel.enlist (rounds ι) os.pendList os.tcb.prio obj t = some l ∧
      l.objPtr = Function.update os.pendList.objPtr t (some obj) ∧
      Apart { os with pendList := l } (s.enwait os.tcb.prio obj t) t := by
  have short : (s.waiting obj).length < rounds ι :=
    Nat.lt_succ_of_le (apart.pnd.listed obj).nodup.length_le_card
  obtain ⟨l, listed, objs, pnd⟩ := apart.pnd.enlist os.tcb.prio obj short free
  refine ⟨l, listed, objs, {
    rdy := apart.rdy, pnd := pnd, placed := ?_, once := apart.once, inOrder := ?_ }⟩
  · intro r other
    refine (apart.placed r other).frame (fun _ => .rfl) .rfl rfl rfl rfl ?_
    simp only [objs, Function.update_of_ne other]
  · intro o
    by_cases same : o = obj
    · subst same
      simpa [Lists.enwait] using (apart.inOrder o).enqueue t
    · simpa [Lists.enwait, same] using apart.inOrder o

end Apart

/-! ## A task is woken -/

/-- The kernel after `OS_Post` or `OS_PendAbort` has ended the wait of a task. -/
def ended [DecidableEq ι] (os : Os ι σ μ) (l : PendLists ι (σ ⊕ μ)) (r : RdyLists ι) (t : ι)
    (status : PendStatus) : Os ι σ μ :=
  { os with
    pendList := l
    rdyList := r
    tickList := if (os.tcb.taskState t).timed then osTickListRemove os.tickList t else os.tickList
    tcb.taskState := Function.update os.tcb.taskState t (os.tcb.taskState t).woken
    tcb.pendStatus := Function.update os.tcb.pendStatus t status
    tcb.pendOn := Function.update os.tcb.pendOn t .nothing }

variable [DecidableEq ι] [DecidableEq σ] [DecidableEq μ]

theorem Seated.pendEnd (seated : os.Seated s) (pends : (os.tcb.taskState t).pending = true)
    (status : PendStatus) :
    ∃ l r, (os.pendListRemove t).bind (fun os => os.pendEnd t status) =
        some (os.ended l r t status) ∧
      l.objPtr = Function.update os.pendList.objPtr t none ∧
      Seated (os.ended l r t status) (((s.unwait t).untime t).wake os t) := by
  have place := seated.placed t
  have notReady : ∀ p, t ∉ s.ready p := by
    intro p member
    have state := ((place.ready p).mp member).1
    simp [state, TaskState.pending] at pends
  have below : os.tcb.prio t < osCfgPrioMax := by
    apply place.below
    intro state
    simp [state, TaskState.pending] at pends
  obtain ⟨l, removed, objs, unlisted⟩ := (seated.apart t).pendListRemove
  have untimed := unlisted.untime
  have untimed' : t ∉ s.timed.erase t := seated.once.not_mem_erase
  have gone : l.objPtr t = none := by simp only [objs, Function.update_self]
  have others : ∀ r, r ≠ t → ∀ x : TaskState,
      Function.update os.tcb.taskState t x r = os.tcb.taskState r :=
    fun r other x => Function.update_of_ne other x os.tcb.taskState
  cases held : (os.tcb.taskState t).held with
  | false =>
      obtain ⟨r, inserted, apart⟩ := untimed.rdyListInsert notReady below
      refine ⟨l, r, ?_, objs, ?_⟩
      · cases state : os.tcb.taskState t <;>
          simp_all [Os.pendListRemove, Os.pendEnd, Os.rdyListInsert, Os.tickListRemove,
            TaskState.pending, TaskState.held, TaskState.timed, TaskState.woken, ended]
      · simp only [Lists.wake, held, Bool.false_eq_true, if_false]
        apply Apart.seated (t := t)
        · refine apart.congr rfl rfl ?_ ?_
          · intro q other
            simp only [ended, Function.update_of_ne other, and_self]
          · exact fun _ _ _ => rfl
        · refine { ready := ?_, timed := ?_, fits := ?_, below := fun _ => below }
          · intro p
            simp only [Lists.mem_enready, ended, TaskState.woken, held, Lists.untime, Lists.unwait,
              notReady, Function.update_self, Bool.false_eq_true, if_false, false_or, true_and]
            exact eq_comm
          · simp [Lists.enready, ended, TaskState.woken, held, Lists.untime, Lists.unwait,
              TaskState.timed, untimed']
          · simp [Fits, ended, TaskState.woken, held, TaskState.pending, gone]
  | true =>
      refine ⟨l, os.rdyList, ?_, objs, ?_⟩
      · cases state : os.tcb.taskState t <;>
          simp_all [Os.pendListRemove, Os.pendEnd, Os.rdyListInsert, Os.tickListRemove,
            TaskState.pending, TaskState.held, TaskState.timed, TaskState.woken, ended]
      · simp only [Lists.wake, held, if_true]
        apply Apart.seated (t := t)
        · refine untimed.congr rfl rfl ?_ ?_
          · intro q other
            simp only [ended, Function.update_of_ne other, and_self]
          · exact fun _ _ _ => rfl
        · refine { ready := ?_, timed := ?_, fits := ?_, below := fun _ => below }
          · intro p
            simp [ended, TaskState.woken, held, Lists.untime, Lists.unwait, notReady]
          · simp [ended, TaskState.woken, held, Lists.untime, Lists.unwait,
              TaskState.timed, untimed']
          · simp [Fits, ended, TaskState.woken, held, TaskState.pending, gone]

end Os

end ExploreF407.Kernel
