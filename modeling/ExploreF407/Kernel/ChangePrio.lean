import ExploreF407.Kernel.Owners

/-! # Changes of priorities

`OS_TaskChangePrio` moves a task to the place of its new priority and goes on
with the owner of the mutex for which the task pends. To the priorities it does
what `Inherit.handOn` does, and the lists follow them, so that it ends even where
tasks pend for each other in a circle.
-/

namespace ExploreF407.Kernel

open Linked Urgency Inherit

variable {ι σ μ : Type}

/-- No deadline and no time has changed. -/
structure Lists.SameTimes {ο : Type} (s s' : Lists ι ο) : Prop where
  timed : s'.timed = s.timed
  due : s'.due = s.due
  now : s'.now = s.now

theorem Lists.SameTimes.trans {ο : Type} {s s' s'' : Lists ι ο} (first : s.SameTimes s')
    (second : s'.SameTimes s'') : s.SameTimes s'' where
  timed := second.timed.trans first.timed
  due := second.due.trans first.due
  now := second.now.trans first.now

namespace Os

variable {os os' : Os ι σ μ} {s s' : Lists ι (σ ⊕ μ)} {held : ι → List μ} {t r : ι} {m : μ} {p : Nat}

/-- The kernel with other priorities, and the lists that go with them. -/
def reprioritised (os : Os ι σ μ) (prio : ι → Nat) (r : RdyLists ι) (l : PendLists ι (σ ⊕ μ)) :
    Os ι σ μ :=
  { os with tcb.prio := prio, rdyList := r, pendList := l }

variable [DecidableEq ι] [DecidableEq σ] [DecidableEq μ] [Fintype ι]

omit [DecidableEq σ] [DecidableEq μ] [Fintype ι] in
theorem Seated.moved {r : RdyLists ι} {nodes : List ι} (seated : os.Seated s)
    (state : os.tcb.taskState t = .rdy) (below : p < osCfgPrioMax)
    (rdy : Rdy r (Function.update (fun q => (s.ready q).erase t) p nodes))
    (inside : ∀ x, x ∈ nodes ↔ x = t ∨ x ∈ (s.ready p).erase t) :
    Seated (os.reprioritised (Function.update os.tcb.prio t p) r os.pendList)
      { s with ready := Function.update (fun q => (s.ready q).erase t) p nodes } := by
  have place := seated.placed t
  have fresh : ∀ q, t ∉ (s.ready q).erase t := fun q => (seated.rdy.listed q).nodup.not_mem_erase
  have free : os.pendList.objPtr t = none := by
    have fits := place.fits
    simpa [Fits, state, TaskState.pending] using fits
  have outside : ∀ o, t ∉ s.waiting o := by
    intro o inside
    rw [(seated.pnd.object t o).mpr inside] at free
    cases free
  refine { rdy := rdy, pnd := seated.pnd, placed := ?_, once := seated.once, inOrder := ?_ }
  · intro x
    by_cases same : x = t
    · subst same
      refine { ready := ?_, timed := place.timed, fits := place.fits, below := ?_ }
      · intro q
        by_cases here : q = p
        · subst here
          simp [reprioritised, state, inside]
        · simp [reprioritised, state, here, fresh q, Ne.symm here]
      · simpa [reprioritised] using fun _ => below
    · refine (seated.placed x).frame ?_ .rfl rfl ?_ rfl rfl
      · intro q
        by_cases here : q = p
        · subst here
          simp [inside, same, List.mem_erase_of_ne same]
        · simp [here, List.mem_erase_of_ne same]
      · simp [reprioritised, same]
  · exact fun o => (seated.inOrder o).update (outside o) p

theorem Seated.setPrio_ready (seated : os.Seated s) (state : os.tcb.taskState t = .rdy)
    (below : p < osCfgPrioMax) :
    ∃ r s', os.setPrio t p =
        some (os.reprioritised (Function.update os.tcb.prio t p) r os.pendList) ∧
      s.SameTimes s' ∧
      Seated (os.reprioritised (Function.update os.tcb.prio t p) r os.pendList) s' := by
  have member : t ∈ s.ready (os.tcb.prio t) := ((seated.placed t).ready _).mpr ⟨state, rfl⟩
  have removed := seated.rdy.erase member
  have fresh : ∀ q, t ∉ (s.ready q).erase t := fun q => (seated.rdy.listed q).nodup.not_mem_erase
  -- the task stands first in the list if it is running, and last otherwise
  obtain ⟨r, nodes, set, rdy, inside⟩ : ∃ r nodes, os.setPrio t p =
        some (os.reprioritised (Function.update os.tcb.prio t p) r os.pendList) ∧
      Rdy r (Function.update (fun q => (s.ready q).erase t) p nodes) ∧
      ∀ x, x ∈ nodes ↔ x = t ∨ x ∈ (s.ready p).erase t := by
    by_cases running : t = os.sched.tcbCur
    · refine ⟨_, _, ?_, removed.insertHead below fresh, by simp⟩
      simp only [setPrio, state, rdyListRemove]
      exact if_pos running
    · obtain ⟨r, inserted, rdy⟩ := removed.insertTail below fresh
      refine ⟨r, _, ?_, rdy, by simp [or_comm]⟩
      simp only [setPrio, state, rdyListRemove]
      refine (if_neg running).trans ?_
      simp only [inserted, Option.map_some]
      rfl
  refine ⟨r, { s with ready := Function.update (fun q => (s.ready q).erase t) p nodes }, set,
    ⟨rfl, rfl, rfl⟩, ?_⟩
  exact seated.moved state below rdy inside

theorem Seated.setPrio_waiting (seated : os.Seated s) (obj : σ ⊕ μ)
    (waits : os.pendList.objPtr t = some obj) (below : p < osCfgPrioMax) :
    ∃ l s', os.setPrio t p =
        some (os.reprioritised (Function.update os.tcb.prio t p) os.rdyList l) ∧
      l.objPtr = os.pendList.objPtr ∧ s.SameTimes s' ∧
      Seated (os.reprioritised (Function.update os.tcb.prio t p) os.rdyList l) s' := by
  have place := seated.placed t
  have fits := place.fits
  have member := (seated.pnd.object t obj).mp waits
  have short : (s.waiting obj).length < rounds ι :=
    Nat.lt_succ_of_le (seated.pnd.listed obj).nodup.length_le_card
  obtain ⟨l, moved, objs, pnd⟩ :=
    seated.pnd.reorder (Function.update os.tcb.prio t p) member short
  have fresh : t ∉ (s.waiting obj).erase t := (seated.pnd.listed obj).nodup.not_mem_erase
  have notReady : os.tcb.taskState t ≠ .rdy := by
    intro state
    simp [Fits, state, TaskState.pending, waits] at fits
  have set : os.setPrio t p =
      some (os.reprioritised (Function.update os.tcb.prio t p) os.rdyList l) := by
    have moved' : pendListChangePrio { os with tcb.prio := Function.update os.tcb.prio t p } t =
        some (os.reprioritised (Function.update os.tcb.prio t p) os.rdyList l) := by
      simp only [pendListChangePrio, moved, Option.map_some]
      rfl
    cases state : os.tcb.taskState t <;> simp [Fits, state, TaskState.pending, waits] at fits <;>
      cases on : os.tcb.pendOn t <;> simp [on] at fits <;>
      simpa only [setPrio, state, on] using moved'
  let s' := { s with
    waiting := Function.update s.waiting obj
      (enqueue (Function.update os.tcb.prio t p) t ((s.waiting obj).erase t)) }
  refine ⟨l, s', set, objs, ⟨rfl, rfl, rfl⟩, ?_⟩
  refine { rdy := seated.rdy, pnd := pnd, placed := ?_, once := seated.once, inOrder := ?_ }
  · intro x
    by_cases same : x = t
    · subst same
      refine { ready := ?_, timed := place.timed, fits := ?_, below := ?_ }
      · intro q
        have nowhere : x ∉ s.ready q := fun inside => notReady ((place.ready q).mp inside).1
        simp [reprioritised, s', notReady, nowhere]
      · simpa only [reprioritised, objs] using fits
      · simpa [reprioritised] using fun _ => below
    · refine (seated.placed x).frame (fun _ => .rfl) .rfl rfl ?_ rfl ?_
      · simp [reprioritised, same]
      · simp only [reprioritised, objs]
  · intro o
    by_cases here : o = obj
    · subst here
      have rest : InOrder os.tcb.prio ((s.waiting o).erase t) :=
        (seated.inOrder o).sublist List.erase_sublist
      have order := (rest.update fresh p).enqueue t
      simpa [reprioritised, s'] using order
    · have outside : t ∉ s.waiting o := fun inside => here (seated.pnd.apart inside member)
      simpa [reprioritised, s', here] using (seated.inOrder o).update outside p

theorem Seated.setPrio_elsewhere (seated : os.Seated s) (state : os.tcb.taskState t ≠ .rdy)
    (alive : os.tcb.taskState t ≠ .del) (free : os.pendList.objPtr t = none)
    (below : p < osCfgPrioMax) :
    os.setPrio t p =
        some (os.reprioritised (Function.update os.tcb.prio t p) os.rdyList os.pendList) ∧
      Seated (os.reprioritised (Function.update os.tcb.prio t p) os.rdyList os.pendList) s := by
  have place := seated.placed t
  have fits := place.fits
  have outside : ∀ o, t ∉ s.waiting o := by
    intro o inside
    rw [(seated.pnd.object t o).mpr inside] at free
    cases free
  refine ⟨?_, ?_⟩
  · cases pends : (os.tcb.taskState t).pending with
    | true =>
        have on : os.tcb.pendOn t = .taskSem := by
          cases on : os.tcb.pendOn t <;> simp [Fits, pends, free, on] at fits ⊢
        cases state' : os.tcb.taskState t <;> simp [state', TaskState.pending] at pends <;>
          simp only [setPrio, state', on] <;> rfl
    | false =>
        cases state' : os.tcb.taskState t <;>
          simp [state', TaskState.pending] at pends state alive <;>
          simp only [setPrio, state'] <;> rfl
  · refine {
      rdy := seated.rdy, pnd := seated.pnd, placed := ?_, once := seated.once, inOrder := ?_ }
    · intro x
      by_cases same : x = t
      · subst same
        refine { ready := ?_, timed := place.timed, fits := place.fits, below := ?_ }
        · intro q
          have nowhere : x ∉ s.ready q := fun inside => state ((place.ready q).mp inside).1
          simp [reprioritised, state, nowhere]
        · simpa [reprioritised] using fun _ => below
      · refine (seated.placed x).frame (fun _ => .rfl) .rfl rfl ?_ rfl rfl
        simp [reprioritised, same]
    · exact fun o => (seated.inOrder o).update (outside o) p

theorem Seated.setPrio (seated : os.Seated s) (alive : os.tcb.taskState t ≠ .del)
    (below : p < osCfgPrioMax) :
    ∃ r l s', os.setPrio t p = some (os.reprioritised (Function.update os.tcb.prio t p) r l) ∧
      l.objPtr = os.pendList.objPtr ∧ s.SameTimes s' ∧
      Seated (os.reprioritised (Function.update os.tcb.prio t p) r l) s' := by
  by_cases state : os.tcb.taskState t = .rdy
  · obtain ⟨r, s', set, times, seated'⟩ := seated.setPrio_ready state below
    exact ⟨r, os.pendList, s', set, rfl, times, seated'⟩
  · rcases obj : os.pendList.objPtr t with _ | obj'
    · obtain ⟨set, seated'⟩ := seated.setPrio_elsewhere state alive obj below
      exact ⟨os.rdyList, os.pendList, s, set, rfl, ⟨rfl, rfl, rfl⟩, seated'⟩
    · obtain ⟨l, s', set, objs, times, seated'⟩ := seated.setPrio_waiting obj' obj below
      exact ⟨os.rdyList, l, s', set, objs, times, seated'⟩

/-! ## Along the owners -/

omit [DecidableEq ι] [DecidableEq σ] [DecidableEq μ] [Fintype ι] in
theorem waitsFor_reprioritised {prio : ι → Nat} {r : RdyLists ι} {l : PendLists ι (σ ⊕ μ)}
    (objs : l.objPtr = os.pendList.objPtr) :
    (os.reprioritised prio r l).waitsFor = os.waitsFor := by
  funext t
  simp only [waitsFor, pendMutex, reprioritised, objs]

omit [DecidableEq ι] [DecidableEq σ] [DecidableEq μ] [Fintype ι] in
theorem Owned.reprioritised {prio : ι → Nat} {r : RdyLists ι} {l : PendLists ι (σ ⊕ μ)}
    (owned : os.Owned held) (objs : l.objPtr = os.pendList.objPtr) :
    (os.reprioritised prio r l).Owned held where
  group := owned.group
  owner := owned.owner
  busy := by simpa only [Os.reprioritised, objs] using owned.busy

omit [DecidableEq ι] [DecidableEq σ] [DecidableEq μ] [Fintype ι] in
theorem Owned.waitsFor_ne (owned : os.Owned held) (t : ι) : os.waitsFor t ≠ some t := by
  intro waits
  obtain ⟨m, obj, owner⟩ := waitsFor_eq_some.mp waits
  obtain ⟨o, owner', other, -⟩ := owned.busy t m obj
  exact other (Option.some.inj (owner'.symm.trans owner))

/-- Where `OS_TaskChangePrio` goes on: at the owner of a mutex, and nowhere else. -/
theorem changePrio_succ [Fintype μ] (fuel : Nat) {os₁ : Os ι σ μ} (seated : os.Seated s)
    (owned : os.Owned held) (set : os.setPrio t p = some os₁)
    (objs : os₁.pendList.objPtr = os.pendList.objPtr)
    (owners : os₁.mutex.ownerTcbPtr = os.mutex.ownerTcbPtr) :
    (os.waitsFor t = none ∧ os.changePrio (fuel + 1) t p = some os₁) ∨
      ∃ o, os.waitsFor t = some o ∧ os.changePrio (fuel + 1) t p =
        if p < os.tcb.prio t then
          if os₁.tcb.prio o ≤ p then some os₁ else os₁.changePrio fuel o p
        else if os₁.tcb.prio o = os.tcb.prio t then
          (os₁.prioNew o).bind fun q =>
            if q = os₁.tcb.prio o then some os₁ else os₁.changePrio fuel o q
        else os₁.changePrio fuel o p := by
  have fits := (seated.placed t).fits
  by_cases pends : (os.tcb.taskState t).pending = true ∧ os.tcb.pendOn t = .mutex
  · obtain ⟨m, obj⟩ : ∃ m, os.pendList.objPtr t = some (.inr m) := by
      rcases obj : os.pendList.objPtr t with _ | _ | m
      · simp [Fits, pends, obj] at fits
      · simp [Fits, pends, obj] at fits
      · exact ⟨m, rfl⟩
    obtain ⟨o, owner, -, -⟩ := owned.busy t m obj
    have waits : os.waitsFor t = some o := waitsFor_eq_some.mpr ⟨m, obj, owner⟩
    have mutex : os₁.pendMutex t = some m := pendMutex_eq_some.mpr (by rw [objs, obj])
    refine .inr ⟨o, waits, ?_⟩
    simp only [changePrio, set, Option.bind_some, if_pos pends, mutex, owners, owner]
  · have free : os.waitsFor t = none := by
      rcases obj : os.pendList.objPtr t with _ | _ | m
      · simp [waitsFor, pendMutex, obj]
      · simp [waitsFor, pendMutex, obj]
      · refine absurd ?_ pends
        cases pending : (os.tcb.taskState t).pending
        · simp [Fits, pending, obj] at fits
        · cases on : os.tcb.pendOn t <;> simp [Fits, pending, obj, on] at fits ⊢
    refine .inl ⟨free, ?_⟩
    simp only [changePrio, set, Option.bind_some, if_neg pends]

/-- To the priorities `OS_TaskChangePrio` does what `handOn` does, and the lists follow. -/
theorem Seated.changePrio [Fintype μ] {fuel : Nat} {prio : ι → Nat} (seated : os.Seated s)
    (owned : os.Owned held) (alive : ∀ r, held r ≠ [] → os.tcb.taskState r ≠ .del)
    (inside : ∀ r, os.tcb.taskState r ≠ .del → os.tcb.basePrio r < osCfgPrioMax)
    (here : os.tcb.taskState t ≠ .del) (below : p < osCfgPrioMax)
    (passed : handOn os.tcb.basePrio os.waitsFor fuel os.tcb.prio t p = some prio) :
    ∃ r l s', os.changePrio fuel t p = some (os.reprioritised prio r l) ∧
      l.objPtr = os.pendList.objPtr ∧ s.SameTimes s' ∧
      Seated (os.reprioritised prio r l) s' := by
  induction fuel generalizing os s t p with
  | zero => simp [handOn] at passed
  | succ fuel ih =>
      obtain ⟨r, l, s₁, set, objs, times, seated₁⟩ := seated.setPrio here below
      have sameWaits : (os.reprioritised (Function.update os.tcb.prio t p) r l).waitsFor =
          os.waitsFor := waitsFor_reprioritised objs
      rcases changePrio_succ fuel seated owned set objs rfl with
        ⟨free, done⟩ | ⟨o, waits, step⟩
      · cases (handOn_free free).symm.trans passed
        exact ⟨r, l, s₁, done, objs, times, seated₁⟩
      have aliveO := alive o (owned.owns_some waits)
      -- the priority that the owner is entitled to now
      have asked : (os.reprioritised (Function.update os.tcb.prio t p) r l).prioNew o =
          some (entitled (Function.update os.tcb.prio t p) os.tcb.basePrio os.waitsFor o) := by
        obtain ⟨q, found, least⟩ :=
          (owned.reprioritised objs).prioNew seated₁ o (inside o aliveO)
        rw [sameWaits] at least
        rw [found, least.unique (entitled_isLeast ..)]
        rfl
      have step' : os.changePrio (fuel + 1) t p =
          (onward (Function.update os.tcb.prio t p) os.tcb.basePrio os.waitsFor
            (os.tcb.prio t) p o).elim (some (os.reprioritised (Function.update os.tcb.prio t p) r l))
            ((os.reprioritised (Function.update os.tcb.prio t p) r l).changePrio fuel o) := by
        rw [step, asked, Option.bind_some, onward_elim]
        rfl
      rcases next : onward (Function.update os.tcb.prio t p) os.tcb.basePrio os.waitsFor
        (os.tcb.prio t) p o with _ | q
      · rw [next] at step'
        cases (handOn_stops waits next).symm.trans passed
        exact ⟨r, l, s₁, step', objs, times, seated₁⟩
      · rw [next] at step'
        rw [handOn_goes_on waits next, ← sameWaits] at passed
        obtain ⟨r', l', s', changed, objs', times', seated'⟩ :=
          ih seated₁ (owned.reprioritised objs) alive inside aliveO
            ((onward_le waits next).trans_lt below) passed
        exact ⟨r', l', s', step'.trans changed, objs'.trans objs, times.trans times', seated'⟩

end Os

end ExploreF407.Kernel
