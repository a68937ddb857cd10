import ExploreF407.Kernel.States

/-! # Ticks

With a tick the tasks go on whose time has come, one round of the loop for each
of them. An owner that ran more urgently for the sake of such a task gets its
priority back before the next round.
-/

namespace ExploreF407.Kernel

open Linked Urgency Inherit

variable {ι σ μ : Type} [DecidableEq ι] [DecidableEq σ] [DecidableEq μ]

namespace Os

variable {os os' os'' : Os ι σ μ} {s s' s'' : Lists ι (σ ⊕ μ)} {held held' : ι → List μ}
  {t r o : ι} {m : μ} {p : Nat} {calm : Prop}

/-- The state of a task that pends without a timeout. -/
def untimedState (state : TaskState) : TaskState := if state.held then .pendSuspended else .pend

variable [Fintype ι] [Fintype μ]

/-- The timeout of a wait ends it as an abort would end a wait without timeout. -/
theorem tickExpire_eq (timed : (os.tcb.taskState t).timed = true)
    (pends : (os.tcb.taskState t).pending = true) :
    os.tickExpire t =
      (if os.tcb.pendOn t = .mutex then (os.pendMutex t).map os.mutex.ownerTcbPtr
        else some none).bind fun owner =>
          (((os.restated t (untimedState (os.tcb.taskState t)) os.tcb.suspendCtr).pendListRemove
            t).bind fun os => os.pendEnd t .timeout).bind fun os =>
              match owner with
              | none => some os
              | some owner => os.disinherit owner t := by
  cases state : os.tcb.taskState t <;>
    simp [state, TaskState.timed, TaskState.pending] at timed pends
  · cases removed : osPendListRemove os.pendList t <;>
      cases inserted : osRdyListInsert os.rdyList os.sched.prioCur (os.tcb.prio t) t <;>
      by_cases mutex : os.tcb.pendOn t = .mutex <;>
      rcases owner : (os.pendMutex t).map os.mutex.ownerTcbPtr with _ | _ | o <;>
      simp [tickExpire, state, pendListRemove, untimedState, TaskState.held, pendEnd, rdyListInsert,
        removed, inserted, mutex, owner]
  · cases removed : osPendListRemove os.pendList t <;>
      by_cases mutex : os.tcb.pendOn t = .mutex <;>
      rcases owner : (os.pendMutex t).map os.mutex.ownerTcbPtr with _ | _ | o <;>
      simp [tickExpire, state, pendListRemove, untimedState, TaskState.held, pendEnd, removed,
        mutex, owner]

theorem Core.tickExpire (core : os.Core s held) (timed : (os.tcb.taskState t).timed = true) :
    ∃ os' s', os.tickExpire t = some os' ∧ os'.Core s' held ∧ os.Woke s os' s' ∧
      os'.tickList = os.tickList ∧ s'.timed = s.timed.erase t ∧
      (∀ x o, os'.waitsFor x = some o → os.waitsFor x = some o) ∧
      ((∀ o, os.waitsFor t = some o → os.waitsFor o = none) →
        (∀ x, Fair os.tcb.prio os.tcb.basePrio os.waitsFor x) →
        ∀ x, Fair os'.tcb.prio os'.tcb.basePrio os'.waitsFor x) := by
  have notReady : os.tcb.taskState t ≠ .rdy := by
    intro state
    simp [state, TaskState.timed] at timed
  have alive : os.tcb.taskState t ≠ .del := by
    intro state
    simp [state, TaskState.timed] at timed
  have other : t ≠ os.sched.idleTask := by
    rintro rfl
    exact notReady core.idle
  have others : ∀ r, os.tcb.taskState r = .rdy → r ≠ t := by
    rintro r state rfl
    exact notReady state
  have count : ∀ state : TaskState, state.held = (os.tcb.taskState t).held →
      (state.held = true ↔ 0 < os.tcb.suspendCtr t) := by
    intro state same
    rw [same]
    exact core.suspended t
  have times : ∀ s' : Lists ι (σ ⊕ μ), s'.timed = s.timed.erase t → s'.due = s.due →
      s'.now = s.now → s.Released s' := by
    intro s' timed due now
    exact ⟨fun r member => List.mem_of_mem_erase (timed ▸ member), due, now⟩
  cases pends : (os.tcb.taskState t).pending with
  | false =>
      cases state : os.tcb.taskState t <;>
        simp [state, TaskState.timed, TaskState.pending] at timed pends
      · -- `OS_TASK_STATE_DLY`
        obtain ⟨rl, inserted, seated⟩ := core.toSeated.awake os.tcb.suspendCtr notReady alive
          (by simp [state, TaskState.pending])
        have rules : (os.restated t .rdy os.tcb.suspendCtr).Rules held := by
          refine core.toRules.restated (by simp) alive other ?_ (fun _ _ => rfl)
          exact count .rdy (by simp [state, TaskState.held])
        refine ⟨_, _, ?_, ⟨seated, rules.relist rfl rfl rfl rfl rfl⟩, ?_, rfl, rfl, fun _ _ => id,
          fun _ => id⟩
        · simp only [Os.tickExpire, state, rdyListInsert, inserted, Option.map_some]
        · refine ⟨rfl, rfl, rfl, ?_, times _ rfl rfl rfl⟩
          intro r ready
          simp [others r ready, ready]
      · -- `OS_TASK_STATE_DLY_SUSPENDED`
        have seated : (os.restated t .suspended os.tcb.suspendCtr).Seated (s.untime t) :=
          core.toSeated.untimed notReady (by simp) alive (by simp [state, TaskState.pending])
            (by simp [TaskState.timed])
        have rules : (os.restated t .suspended os.tcb.suspendCtr).Rules held := by
          refine core.toRules.restated (by simp) alive other ?_ (fun _ _ => rfl)
          exact count .suspended (by simp [state, TaskState.held])
        refine ⟨_, _, ?_, { seated, rules with }, ?_, rfl, rfl, fun _ _ => id, fun _ => id⟩
        · simp only [Os.tickExpire, state]
        · refine ⟨rfl, rfl, rfl, ?_, times _ rfl rfl rfl⟩
          intro r ready
          simp [others r ready, ready]
  | true =>
      let state := untimedState (os.tcb.taskState t)
      have facts : state ≠ .rdy ∧ state ≠ .del ∧ state.pending = true ∧ state.timed = false ∧
          state.held = (os.tcb.taskState t).held := by
        cases was : os.tcb.taskState t <;>
          simp [was, TaskState.pending, TaskState.timed, state, untimedState, TaskState.held]
            at pends timed ⊢
      obtain ⟨stays, alive', pending, timed', held'⟩ := facts
      have seated : (os.restated t state os.tcb.suspendCtr).Seated (s.untime t) :=
        core.toSeated.untimed notReady stays alive (pending.trans pends.symm) timed'
      have rules : (os.restated t state os.tcb.suspendCtr).Rules held :=
        core.toRules.restated alive' alive other (count state held') (fun _ _ => rfl)
      have core₀ : (os.restated t state os.tcb.suspendCtr).Core (s.untime t) held :=
        { seated, rules with }
      obtain ⟨os₁, s₁, done, core₁, ended⟩ := core₀.pendEnd (t := t) (by simpa using pending) .timeout
      have timed₁ : s₁.timed = s.timed.erase t := by
        rw [ended.timed]
        exact List.erase_of_not_mem core.once.not_mem_erase
      have tickList : os₁.tickList = os.tickList := by
        rw [ended.tickList]
        simp [timed']
      have woke : os.Woke s os₁ s₁ := by
        refine ⟨ended.woke.sched, ended.woke.sem, ended.woke.mutex, ?_, ?_⟩
        · intro r ready
          apply ended.woke.ready
          simpa [others r ready] using ready
        · exact times s₁ timed₁ ended.woke.times.due ended.woke.times.now
      rw [tickExpire_eq timed pends]
      have fits := (core.placed t).fits
      by_cases mutex : os.tcb.pendOn t = .mutex
      · obtain ⟨m, obj⟩ : ∃ m, os.pendList.objPtr t = some (.inr m) := by
          rcases obj : os.pendList.objPtr t with _ | _ | m
          · simp [Fits, pends, mutex, obj] at fits
          · simp [Fits, pends, mutex, obj] at fits
          · exact ⟨m, rfl⟩
        obtain ⟨o, owner, -⟩ := core.owned.busy t m obj
        have owner₁ : os₁.mutex.ownerTcbPtr m = some o := by rw [woke.mutex, owner]
        have waits : os.waitsFor t = some o := waitsFor_eq_some.mpr ⟨m, obj, owner⟩
        obtain ⟨os₂, s₂, settled, core₂, repriced, fair₂⟩ :=
          core₁.disinherit (core₁.owner_alive owner₁) t
        refine ⟨os₂, s₂, ?_, core₂, woke.trans repriced.woke, repriced.tickList.trans tickList,
          repriced.times.timed.trans timed₁, ?_, ?_⟩
        · simp only [if_pos mutex, pendMutex_eq_some.mpr obj, Option.map_some, Option.bind_some,
            owner]
          rw [done]
          exact settled
        · rw [repriced.waits]
          exact ended.before
        · intro rests fair
          obtain ⟨rest, least⟩ := ended.left fair waits
          rw [← ended.prio] at least
          exact fair₂ (ended.free o (rests o waits)) rest least
      · have free : os.waitsFor t = none := by
          rcases obj : os.pendList.objPtr t with _ | _ | m
          · simp [waitsFor, pendMutex, obj]
          · simp [waitsFor, pendMutex, obj]
          · refine absurd ?_ mutex
            cases on : os.tcb.pendOn t <;> simp [Fits, pends, obj, on] at fits ⊢
        refine ⟨os₁, s₁, ?_, core₁, woke, tickList, timed₁, ended.before, ?_⟩
        · simp only [if_neg mutex, Option.bind_some]
          rw [done]
          rfl
        · intro _ fair x
          exact (ended.settled free (Settled.of_fair fair none)).fair x (Option.some_ne_none x).symm

/-! ## The loop -/

/-- No owner of a mutex for which a task pends with a timeout pends for a mutex itself. -/
def OwnersRest (os : Os ι σ μ) (s : Lists ι (σ ⊕ μ)) : Prop :=
  ∀ t ∈ s.timed, ∀ o, os.waitsFor t = some o → os.waitsFor o = none

theorem Core.tickLoop {fuel ticks : Nat} {rest : List ι} (core : os.Core s held)
    (fair : calm → ∀ x, Fair os.tcb.prio os.tcb.basePrio os.waitsFor x)
    (rests : calm → os.OwnersRest s) (first : s.timed = t :: rest)
    (passing : Passing os.tickList s.now s.due s.timed ticks) (enough : s.timed.length < fuel) :
    ∃ os' s', Os.tickLoop fuel os t ticks = some os' ∧ os'.Inv s' held calm ∧ os.Woke s os' s' ∧
      ∀ x, x ∈ s'.timed ↔ x ∈ s.timed ∧ s.now < s.due x := by
  induction fuel generalizing os s t rest ticks with
  | zero => simp at enough
  | succ fuel ih =>
      rw [first] at passing
      have timed : (os.tcb.taskState t).timed = true :=
        (core.placed t).timed.mp (by simp [first])
      by_cases due : s.due t ≤ s.now
      · have gone : (s.timed.erase t) = rest := by simp [first]
        obtain ⟨os₁, s₁, expired, core₁, woke, tickList, timed₁, before, fair'⟩ :=
          core.tickExpire timed
        rw [gone] at timed₁
        have member : t ∈ s.timed := by simp [first]
        have fair₁ : calm → ∀ x, Fair os₁.tcb.prio os₁.tcb.basePrio os₁.waitsFor x :=
          fun calm => fair' (rests calm t member) (fair calm)
        have rests₁ : calm → os₁.OwnersRest s₁ := by
          intro calm x inside o waits
          have free := rests calm x (woke.times.timed x inside) o (before x o waits)
          exact Option.eq_none_iff_forall_ne_some.mpr fun r waitsR => by
            simp [before o r waitsR] at free
        obtain ⟨passing₁, head⟩ := passing.pop due
        have goesOn : ∀ x, x ∈ s.timed ∧ s.now < s.due x ↔ x ∈ rest ∧ s.now < s.due x := by
          intro x
          rw [first, List.mem_cons]
          constructor
          · rintro ⟨rfl | member, later⟩
            · omega
            · exact ⟨member, later⟩
          · rintro ⟨member, later⟩
            exact ⟨.inr member, later⟩
        have core₂ : Core { os₁ with tickList := (tickPop os.tickList t ticks).1 } s₁ held :=
          core₁.congr core₁.rdy (fun _ _ => .rfl) core₁.pnd rfl rfl rfl rfl (fun _ _ _ => ⟨rfl, rfl⟩)
            rfl rfl
        have stays : ∀ x, x ∈ s₁.timed ∧ s₁.now < s₁.due x ↔ x ∈ s.timed ∧ s.now < s.due x := by
          intro x
          rw [goesOn x, timed₁, woke.times.now, woke.times.due]
        rw [← timed₁, ← woke.times.now, ← woke.times.due] at passing₁
        simp only [Os.tickLoop, if_pos (passing.remain_eq_zero.mpr due), expired, Option.bind_some,
          tickList, head]
        cases rest with
        | nil =>
            have tck := passing₁.done (by simp [timed₁])
            refine ⟨_, s₁, rfl, { core₂ with tck := tck, fair := fair₁ }, ?_, ?_⟩
            · exact { woke with }
            · intro x
              rw [← stays x]
              simp [timed₁]
        | cons t' rest =>
            have shorter : s₁.timed.length < fuel := by
              rw [timed₁]
              simpa [first] using enough
            obtain ⟨os', s', done, inv', woke', left⟩ :=
              ih core₂ fair₁ rests₁ timed₁ passing₁ shorter
            refine ⟨os', s', done, inv', ?_, ?_⟩
            · have woke₂ : os.Woke s { os₁ with tickList := (tickPop os.tickList t ticks).1 } s₁ :=
                { woke with }
              exact woke₂.trans woke'
            · exact fun x => (left x).trans (stays x)
      · have later : s.now < s.due t := not_le.mp due
        have tck := passing.done (by simpa using later)
        rw [← first] at tck
        refine ⟨os, s, ?_, { core with tck := tck, fair := fair }, .refl os s, ?_⟩
        · simp only [Os.tickLoop, if_neg (passing.remain_eq_zero.not.mpr due)]
        · exact fun x => ⟨fun member => ⟨member, (tck.ahead x member).1⟩, And.left⟩

theorem Inv.tickUpdate (inv : os.Inv s held calm) (rests : calm → os.OwnersRest s) (ticks : Nat)
    (small : ticks < 2 ^ 32) :
    ∃ os' s', os.tickUpdate ticks = some os' ∧ os'.Inv s' held calm ∧
      os.Woke { s with now := s.now + ticks } os' s' ∧
      ∀ x, x ∈ s'.timed ↔ x ∈ s.timed ∧ s.now + ticks < s.due x := by
  let now := s.now + ticks
  let s₁ : Lists ι (σ ⊕ μ) := { s with now := now }
  have ctr : tickAdd os.tickList.ctr ticks = now % 2 ^ 32 := by
    rw [inv.tck.ctr]
    simp only [tickAdd, now]
    omega
  have core : ∀ l, Core { os with tickList := l } s₁ held :=
    fun l => inv.toCore.congr inv.rdy (fun _ _ => .rfl) inv.pnd rfl rfl rfl rfl
      (fun _ _ _ => ⟨rfl, rfl⟩) rfl rfl
  have head := inv.tck.linked.head
  rcases pointer : os.tickList.tcbPtr with _ | t
  · have empty : s.timed = [] := List.head?_eq_none_iff.mp (head.symm.trans pointer)
    have tck : Tck { os.tickList with ctr := tickAdd os.tickList.ctr ticks } now s.due s.timed := by
      rw [empty]
      refine { linked := ?_, counts := trivial, ctr := ctr, ahead := by simp }
      simpa [empty] using inv.tck.linked
    refine ⟨_, s₁, ?_, { core _ with tck := tck, fair := inv.fair }, ?_, ?_⟩
    · simp only [Os.tickUpdate, tickListUpdate, pointer]
    · exact ⟨rfl, rfl, rfl, fun _ => id, .refl s₁⟩
    · simp [s₁, empty]
  · obtain ⟨rest, first⟩ := List.head?_eq_some_iff.mp (head.symm.trans pointer)
    have counts := inv.tck.counts
    have linked := inv.tck.linked
    have ahead := inv.tck.ahead
    rw [first] at counts linked ahead
    let l := { os.tickList with ctr := tickAdd os.tickList.ctr ticks }
    have passing : Passing (tickPass l t ticks).1 now s.due (t :: rest) (tickPass l t ticks).2 :=
      Passing.pass linked counts (Nat.le_add_right ..) (Nat.add_sub_cancel_left ..).symm ctr
        (fun p member => (ahead p member).2) small
    have enough : s₁.timed.length < rounds ι := Nat.lt_succ_of_le inv.once.length_le_card
    rw [← first] at passing
    obtain ⟨os', s', done, inv', woke, left⟩ :=
      (core (tickPass l t ticks).1).tickLoop inv.fair rests first passing enough
    refine ⟨os', s', ?_, inv', { woke with }, left⟩
    simpa only [Os.tickUpdate, tickListUpdate, pointer, l] using done

end Os

end ExploreF407.Kernel
