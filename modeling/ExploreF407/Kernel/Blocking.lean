import ExploreF407.Kernel.Keeps

/-! # Tasks that are put to wait

The running task leaves the ready list. It waits for an object in the order of
priorities, for a signal to itself or for nothing, and with a timeout also in the
order of deadlines.
-/

namespace ExploreF407.Kernel

open Linked Urgency Inherit

variable {ι σ μ : Type}

namespace Os

variable {os os' os'' : Os ι σ μ} {s s' s'' : Lists ι (σ ⊕ μ)} {held held' : ι → List μ}
  {t r o : ι} {m : μ} {p d : Nat} {noSched : Bool} {state : TaskState} {on : PendOn}
  {calm : Prop}

section Ready

variable (core : os.Core s held) (ready : os.tcb.taskState t = .rdy)

include core ready

theorem Core.ready_mem : t ∈ s.ready (os.tcb.prio t) :=
  ((core.placed t).ready _).mpr ⟨ready, rfl⟩

theorem Core.ready_free : os.pendList.objPtr t = none :=
  core.toSeated.free (by simp [ready, TaskState.pending])

theorem Core.ready_untimed : t ∉ s.timed := by
  simp [(core.placed t).timed, ready, TaskState.timed]

theorem Core.ready_below : os.tcb.prio t < osCfgPrioMax :=
  (core.placed t).below (by simp [ready])

end Ready

variable [DecidableEq ι]

structure Blocked (os : Os ι σ μ) (s : Lists ι (σ ⊕ μ)) (t : ι) (obj : Option (σ ⊕ μ))
    (os' : Os ι σ μ) (s' : Lists ι (σ ⊕ μ)) : Prop where
  sched : os'.sched = os.sched
  sem : os'.sem = os.sem
  mutex : os'.mutex = os.mutex
  prio : os'.tcb.prio = os.tcb.prio
  basePrio : os'.tcb.basePrio = os.tcb.basePrio
  objPtr : os'.pendList.objPtr = Function.update os.pendList.objPtr t obj
  now : s'.now = s.now
  due : ∀ r, r ≠ t → s'.due r = s.due r

theorem Blocked.waits {obj : Option (σ ⊕ μ)} (blocked : os.Blocked s t obj os' s') :
    os'.waitsFor = Function.update os.waitsFor t (obj.bind os.ownerOf) := by
  funext r
  by_cases same : r = t
  · subst same
    rcases obj with _ | _ | m <;>
      simp [waitsFor, pendMutex, blocked.objPtr, blocked.mutex, ownerOf]
  · simp [waitsFor, pendMutex, blocked.objPtr, blocked.mutex, same]

section Rounds

variable [Fintype ι]

theorem Apart.tickListInsert {tickBase time delta : Nat} (apart : os.Apart s t) (fresh : t ∉ s.timed)
    (tck : Tck os.tickList s.now s.due s.timed)
    (atDelta : tickSub (tickAdd time tickBase) os.tickList.ctr = delta) (some' : delta ≠ 0) :
    ∃ l, os.tickListInsert t tickBase time = some ({ os with tickList := l }, true) ∧
      Apart { os with tickList := l } (s.entime (s.now + delta) t) t ∧
      Tck l s.now (s.entime (s.now + delta) t).due (s.entime (s.now + delta) t).timed := by
  have enough : s.timed.length < rounds ι := Nat.lt_succ_of_le apart.once.length_le_card
  obtain ⟨l, inserted, tck'⟩ := tck.insert fresh enough atDelta some'
  refine ⟨l, ?_, ?_, tck'⟩
  · simp only [Os.tickListInsert, inserted, Option.map_some]
  · exact (apart.entime fresh _).congr rfl rfl (fun _ _ => ⟨rfl, rfl, rfl⟩) (fun _ _ _ => rfl)

theorem tickSub_tickAdd {time ctr : Nat} (small : time < 2 ^ 32) (fits : ctr < 2 ^ 32) :
    tickSub (tickAdd time ctr) ctr = time := by
  simp only [tickSub, tickAdd]
  omega

def pendState (timeout : Nat) : TaskState := if 0 < timeout then .pendTimeout else .pend

theorem Apart.taskBlock {timeout : Nat} (apart : os.Apart s t)
    (member : t ∈ s.ready (os.tcb.prio t)) (fresh : t ∉ s.timed)
    (tck : Tck os.tickList s.now s.due s.timed) (small : timeout < 2 ^ 32) :
    ∃ tick s', os.taskBlock t timeout = some (Os.rdyListRemove { os with
          tickList := tick
          tcb.taskState := Function.update os.tcb.taskState t (pendState timeout) } t) ∧
      Apart (Os.rdyListRemove { os with
          tickList := tick
          tcb.taskState := Function.update os.tcb.taskState t (pendState timeout) } t) s' t ∧
      Tck tick s'.now s'.due s'.timed ∧ (t ∈ s'.timed ↔ 0 < timeout) ∧ (∀ q, t ∉ s'.ready q) ∧
      s'.waiting = s.waiting ∧ s'.now = s.now ∧ (∀ r, r ≠ t → s'.due r = s.due r) ∧
      (0 < timeout → s'.due t = s.now + timeout) := by
  have gone : ∀ q, t ∉ (s.ready q).erase t := fun q => (apart.rdy.listed q).nodup.not_mem_erase
  have others : ∀ r, r ≠ t → Function.update os.tcb.taskState t (pendState timeout) r =
      os.tcb.taskState r := fun r other => Function.update_of_ne other _ os.tcb.taskState
  by_cases timed : 0 < timeout
  · have atDelta : tickSub (tickAdd timeout os.tickList.ctr) os.tickList.ctr = timeout := by
      apply tickSub_tickAdd small
      rw [tck.ctr]
      omega
    obtain ⟨tick, inserted, apart₁, tck'⟩ := apart.tickListInsert fresh tck atDelta (by omega)
    have apart₂ : Apart { os with
        tickList := tick
        tcb.taskState := Function.update os.tcb.taskState t (pendState timeout) }
        (s.entime (s.now + timeout) t) t :=
      apart₁.congr rfl rfl (fun r other => ⟨others r other, rfl, rfl⟩) (fun _ _ _ => rfl)
    refine ⟨tick, (s.entime (s.now + timeout) t).unready t, ?_, apart₂.rdyListRemove member, tck',
      ?_, gone, rfl, rfl, ?_, ?_⟩
    · simp [Os.taskBlock, pendState, timed, inserted]
    · simp [Lists.unready, Lists.mem_entime, timed]
    · intro r other
      simp [Lists.unready, Lists.entime, other]
    · simp [Lists.unready, Lists.entime]
  · have apart₂ : Apart { os with
        tickList := os.tickList
        tcb.taskState := Function.update os.tcb.taskState t (pendState timeout) } s t :=
      apart.congr rfl rfl (fun r other => ⟨others r other, rfl, rfl⟩) (fun _ _ _ => rfl)
    refine ⟨os.tickList, s.unready t, ?_, apart₂.rdyListRemove member, tck, ?_, gone, rfl, rfl,
      fun _ _ => rfl, fun more => absurd more timed⟩
    · simp [Os.taskBlock, pendState, timed]
    · simp [Lists.unready, fresh, timed]

variable [DecidableEq σ] [DecidableEq μ]

omit [Fintype ι] [DecidableEq σ] [DecidableEq μ] in
theorem Rules.block {obj : Option (σ ⊕ μ)} (rules : os.Rules held)
    (ready : os.tcb.taskState t = .rdy) (other : t ≠ os.sched.idleTask)
    (sem : ∀ x, obj = some (.inl x) → os.sem.type x = true ∧ os.sem.ctr x = 0)
    (busy : ∀ m, obj = some (.inr m) → ∃ o, os.mutex.ownerTcbPtr m = some o ∧ o ≠ t)
    (alive : state ≠ .del) (free : state.held = false)
    (states : os'.tcb.taskState = Function.update os.tcb.taskState t state)
    (counts : os'.tcb.suspendCtr = os.tcb.suspendCtr)
    (objPtr : os'.pendList.objPtr = Function.update os.pendList.objPtr t obj)
    (sems : os'.sem = os.sem) (mutex : os'.mutex = os.mutex) (sched : os'.sched = os.sched)
    (group : os'.tcb.mutexGrpHeadPtr = os.tcb.mutexGrpHeadPtr)
    (base : os'.tcb.basePrio = os.tcb.basePrio) : os'.Rules held where
  owned := {
    group := by simpa only [mutex, group] using rules.owned.group
    owner := by simpa only [mutex] using rules.owned.owner
    busy := by
      intro r m waits
      rw [mutex]
      by_cases same : r = t
      · subst same
        obtain ⟨o, owner, notT⟩ := busy m (by simpa [objPtr] using waits)
        exact ⟨o, owner, notT, rules.owns o m owner⟩
      · exact rules.owned.busy r m (by simpa [objPtr, same] using waits) }
  owns := by simpa only [mutex] using rules.owns
  nesting := by simpa only [mutex] using rules.nesting
  alive := by
    intro r owns
    by_cases same : r = t
    · simpa [states, same] using alive
    · simpa [states, same] using rules.alive r owns
  inside := by
    intro r _
    rw [base]
    by_cases same : r = t
    · exact same ▸ rules.inside t (by simp [ready])
    · apply rules.inside r
      simpa [states, same] using ‹os'.tcb.taskState r ≠ .del›
  sems := by
    intro r x waits
    rw [sems]
    by_cases same : r = t
    · subst same
      exact sem x (by simpa [objPtr] using waits)
    · exact rules.sems r x (by simpa [objPtr, same] using waits)
  mutexes := by simpa only [mutex] using rules.mutexes
  suspended := by
    intro r
    have before := rules.suspended r
    by_cases same : r = t
    · subst same
      have never : ¬ 0 < os.tcb.suspendCtr r := by simpa [ready, TaskState.held] using before
      simp [states, counts, free, never]
    · simpa [states, counts, same] using before
  idle := by
    rw [sched, states, Function.update_of_ne other.symm]
    exact rules.idle

theorem Core.pend {obj : Option (σ ⊕ μ)} {timeout : Nat} (core : os.Core s held)
    (tck : Tck os.tickList s.now s.due s.timed) (ready : os.tcb.taskState t = .rdy)
    (other : t ≠ os.sched.idleTask) (small : timeout < 2 ^ 32) (fits : Fits .pend on obj)
    (sem : ∀ x, obj = some (.inl x) → os.sem.type x = true ∧ os.sem.ctr x = 0)
    (busy : ∀ m, obj = some (.inr m) → ∃ o, os.mutex.ownerTcbPtr m = some o ∧ o ≠ t) :
    ∃ os' s', os.pend obj t on timeout = some os' ∧ os'.Core s' held ∧
      Tck os'.tickList s'.now s'.due s'.timed ∧ os.Blocked s t obj os' s' ∧
      (0 < timeout → t ∈ s'.timed ∧ s'.due t = s.now + timeout) := by
  let os₁ : Os ι σ μ := { os with
    tcb.pendOn := Function.update os.tcb.pendOn t on
    tcb.pendStatus := Function.update os.tcb.pendStatus t .ok }
  have apart₁ : os₁.Apart s t := by
    refine (core.toSeated.apart t).congr rfl rfl ?_ (fun _ _ _ => rfl)
    intro r notT
    exact ⟨rfl, rfl, Function.update_of_ne notT on os.tcb.pendOn⟩
  obtain ⟨tick, s₁, blocked, apart₂, tck', timed, gone, waiting, now, due, deadline⟩ :=
    apart₁.taskBlock (core.ready_mem ready) (core.ready_untimed ready) tck small
  have pends : (pendState timeout).pending = true ∧ (pendState timeout).held = false ∧
      pendState timeout ≠ .rdy ∧ pendState timeout ≠ .del ∧
      ((pendState timeout).timed = true ↔ 0 < timeout) := by
    by_cases timed : 0 < timeout <;>
      simp [pendState, timed, TaskState.pending, TaskState.held, TaskState.timed]
  obtain ⟨pending, free, stays, alive, timed'⟩ := pends
  have fits' : Fits (pendState timeout) on obj := by
    have same : (pendState timeout).pending = TaskState.pend.pending := pending
    simpa only [Fits, same] using fits
  have place : ∀ (l : PendLists ι (σ ⊕ μ)) (s' : Lists ι (σ ⊕ μ)), s'.ready = s₁.ready →
      s'.timed = s₁.timed → l.objPtr t = obj → Placed { Os.rdyListRemove { os₁ with
        tickList := tick
        tcb.taskState := Function.update os.tcb.taskState t (pendState timeout) } t with
        pendList := l } s' t := by
    intro l s' sameReady sameTimed obj
    refine { ready := ?_, timed := ?_, fits := ?_, below := fun _ => core.ready_below ready }
    · intro q
      simp [sameReady, gone q, rdyListRemove, stays]
    · simpa [sameTimed, rdyListRemove, timed'] using timed
    · simpa [rdyListRemove, os₁, obj] using fits'
  cases obj with
  | none =>
      have free' := core.ready_free ready
      have objs : os.pendList.objPtr = Function.update os.pendList.objPtr t none := by
        rw [← free', Function.update_eq_self]
      refine ⟨_, s₁, ?_, ⟨apart₂.seated (place os.pendList s₁ rfl rfl free'), ?_⟩, tck', ?_,
        fun more => ⟨timed.mpr more, deadline more⟩⟩
      · simp only [Os.pend, Option.bind_eq_bind]
        rw [blocked]
        have same : Function.update os₁.pendList.objPtr t none = os₁.pendList.objPtr := objs.symm
        simp only [Option.bind_some, rdyListRemove, same]
      · exact core.toRules.block ready other sem busy alive free rfl rfl objs rfl rfl rfl rfl rfl
      · exact ⟨rfl, rfl, rfl, rfl, rfl, objs, now, due⟩
  | some obj =>
      obtain ⟨l, listed, objs, apart₃⟩ := apart₂.enlist obj (core.ready_free ready)
      have waits : l.objPtr t = some obj := by rw [objs, Function.update_self]
      refine ⟨_, _, ?_, ⟨apart₃.seated (place l _ rfl rfl waits), ?_⟩, tck', ?_,
        fun more => ⟨timed.mpr more, deadline more⟩⟩
      · simp only [Os.pend, Option.bind_eq_bind]
        rw [blocked]
        simp only [Option.bind_some]
        rw [show enlist (rounds ι) _ _ obj t = some l from listed]
        rfl
      · exact core.toRules.block ready other sem busy alive free rfl rfl objs rfl rfl rfl rfl rfl
      · exact ⟨rfl, rfl, rfl, rfl, rfl, objs, now, due⟩

omit [Fintype ι] [DecidableEq σ] [DecidableEq μ] in
theorem Blocked.waits_none {obj : Option (σ ⊕ μ)} (blocked : os.Blocked s t obj os' s')
    (free : os.pendList.objPtr t = none) (noOwner : obj.bind os.ownerOf = none) :
    os'.waitsFor = os.waitsFor := by
  rw [blocked.waits, noOwner, ← waitsFor_eq_none free, Function.update_eq_self]

theorem Inv.pend {obj : Option (σ ⊕ μ)} {timeout : Nat} (inv : os.Inv s held calm)
    (ready : os.tcb.taskState t = .rdy) (other : t ≠ os.sched.idleTask) (small : timeout < 2 ^ 32)
    (fits : Fits .pend on obj)
    (sem : ∀ x, obj = some (.inl x) → os.sem.type x = true ∧ os.sem.ctr x = 0)
    (noMutex : ∀ m, obj ≠ some (.inr m)) :
    ∃ os' s', os.pend obj t on timeout = some os' ∧ os'.Inv s' held calm ∧ os.Blocked s t obj os' s' ∧
      (0 < timeout → t ∈ s'.timed ∧ s'.due t = s.now + timeout) := by
  obtain ⟨os', s', pended, core, tck, blocked, deadline⟩ :=
    inv.toCore.pend inv.tck ready other small fits sem (fun m waits => absurd waits (noMutex m))
  have noOwner : obj.bind os.ownerOf = none := by
    rcases obj with _ | _ | m
    · rfl
    · rfl
    · exact absurd rfl (noMutex m)
  refine ⟨os', s', pended, { core with tck := tck, fair := ?_ }, blocked, deadline⟩
  rw [blocked.waits_none (inv.toCore.ready_free ready) noOwner, blocked.prio, blocked.basePrio]
  exact inv.fair

/-! ## Services that wait -/

omit [DecidableEq ι] [Fintype ι] [DecidableEq σ] [DecidableEq μ] in
theorem Keeps.blocked [DecidableEq ι] {obj : Option (σ ⊕ μ)} (inv : os'.Inv s' held calm)
    (blocked : os.Blocked s t obj os' s') (untimed : t ∉ s.timed)
    (task : os.sched.intNestingCtr = 0) (unlocked : os.sched.lockNestingCtr = 0)
    {reply : Option (ErrCode × Nat)} : Keeps os s noSched ⟨os', reply, true⟩ s' held calm where
  inv := inv
  idleTask := by rw [blocked.sched]
  tcbCur := by rw [blocked.sched]
  tcbHighRdy := by rw [blocked.sched]
  pendSv := by rw [blocked.sched]
  nesting := by rw [blocked.sched]
  lock := by simp only [blocked.sched, le_sup_left]
  now := blocked.now
  due := by
    intro r member _
    have other : r ≠ t := by
      rintro rfl
      exact untimed member
    exact blocked.due r other
  caller := by
    intro _
    refine .inr ⟨rfl, ?_⟩
    simp only [blocked.sched, unlocked]
  isr := fun isr => absurd task isr.ne'
  quiet := by simp

end Rounds

end Os

end ExploreF407.Kernel
