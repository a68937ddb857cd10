import ExploreF407.Kernel.Signals

/-! # What the services on tasks and time keep

Delays, the creation of tasks, suspension and changes of priorities.
-/

namespace ExploreF407.Kernel

open Linked Urgency Inherit

variable {ι σ μ : Type}

namespace Os

variable {os os' : Os ι σ μ} {s s' : Lists ι (σ ⊕ μ)} {held : ι → List μ} {t : ι} {p : Nat}
  {noSched : Bool} {state : TaskState} {ctr : ι → Nat} {calm : Prop}

variable [DecidableEq ι]

/-! ## Time -/

section Delay

variable [Fintype ι]

theorem Inv.dly_zero {tickBase time : Nat} (inv : os.Inv s held calm)
    (ready : os.tcb.taskState t = .rdy)
    (zero : tickSub (tickAdd time tickBase) os.tickList.ctr = 0) :
    ∃ os', os.tickListInsert t tickBase time = some (os', false) ∧ os'.Inv s held calm ∧
      os'.sched = os.sched ∧ os'.tcb = os.tcb := by
  have inv' : Inv { os with tickList := { os.tickList with
      remain := Function.update os.tickList.remain t 0 } } s held calm :=
    { toCore := inv.toCore.congr inv.rdy (fun _ _ => .rfl) inv.pnd rfl rfl rfl rfl
        (fun _ _ _ => ⟨rfl, rfl⟩) rfl rfl
      tck := inv.tck.outside (inv.toCore.ready_untimed ready) 0
      fair := inv.fair }
  refine ⟨_, ?_, inv', rfl, rfl⟩
  simp only [tickListInsert, osTickListInsert, if_pos zero, Option.map_some]

theorem Inv.dly {tickBase time delta : Nat} (inv : os.Inv s held calm)
    (ready : os.tcb.taskState t = .rdy) (other : t ≠ os.sched.idleTask)
    (atDelta : tickSub (tickAdd time tickBase) os.tickList.ctr = delta) (some' : delta ≠ 0) :
    ∃ l s', os.tickListInsert t tickBase time = some ({ os with tickList := l }, true) ∧
      Inv (Os.rdyListRemove { os with
        tickList := l, tcb.taskState := Function.update os.tcb.taskState t .dly } t) s' held calm ∧
      Blocked os s t none (Os.rdyListRemove { os with
        tickList := l, tcb.taskState := Function.update os.tcb.taskState t .dly } t) s' ∧
      t ∈ s'.timed ∧ s'.due t = s.now + delta := by
  have free := inv.toCore.ready_free ready
  obtain ⟨l, inserted, apart, tck⟩ :=
    (inv.toSeated.apart t).tickListInsert (inv.toCore.ready_untimed ready) inv.tck atDelta some'
  have apart' : Apart (Os.rdyListRemove { os with
      tickList := l, tcb.taskState := Function.update os.tcb.taskState t .dly } t)
      ((s.entime (s.now + delta) t).unready t) t := by
    refine Apart.rdyListRemove ?_ (inv.toCore.ready_mem ready)
    refine apart.congr rfl rfl ?_ (fun _ _ _ => rfl)
    intro r notT
    exact ⟨Function.update_of_ne notT TaskState.dly os.tcb.taskState, rfl, rfl⟩
  have objs : os.pendList.objPtr = Function.update os.pendList.objPtr t none := by
    rw [← free, Function.update_eq_self]
  have place : Placed (Os.rdyListRemove { os with
      tickList := l, tcb.taskState := Function.update os.tcb.taskState t .dly } t)
      ((s.entime (s.now + delta) t).unready t) t := by
    refine { ready := ?_, timed := ?_, fits := ?_, below := fun _ => inv.toCore.ready_below ready }
    · intro q
      have once : t ∉ (s.ready q).erase t := (inv.rdy.listed q).nodup.not_mem_erase
      simp [Lists.unready, Lists.entime, once, rdyListRemove]
    · simp [Lists.unready, Lists.mem_entime, rdyListRemove, TaskState.timed]
    · simp [Fits, rdyListRemove, TaskState.pending, free]
  have rules : Rules (Os.rdyListRemove { os with
      tickList := l, tcb.taskState := Function.update os.tcb.taskState t .dly } t) held :=
    Rules.block inv.toRules ready other (by simp) (by simp) (by simp)
      (by simp [TaskState.held]) rfl rfl objs rfl rfl rfl rfl rfl
  have blocked : Blocked os s t none (Os.rdyListRemove { os with
      tickList := l, tcb.taskState := Function.update os.tcb.taskState t .dly } t)
      ((s.entime (s.now + delta) t).unready t) := by
    refine ⟨rfl, rfl, rfl, rfl, rfl, objs, rfl, ?_⟩
    intro r notT
    simp [Lists.unready, Lists.entime, notT]
  refine ⟨l, _, inserted, ⟨⟨apart'.seated place, rules⟩, tck, ?_⟩, blocked, ?_, ?_⟩
  · rw [blocked.waits_none free rfl, blocked.prio, blocked.basePrio]
    exact inv.fair
  · simp [Lists.unready, Lists.mem_entime]
  · simp [Lists.unready, Lists.entime]

/-- A delay is over at once, or the task goes to the place of its deadline. -/
theorem tickListInsertDly_cases (os : Os ι σ μ) (t : ι) (dly : Nat) (opt : TimeOpt) :
    os.tickListInsertDly t dly opt = some (os, .timeZeroDly) ∨
      ∃ tickBase prev, os.tickListInsertDly t dly opt =
          (Os.tickListInsert { os with tcb.tickCtrPrev := prev } t tickBase dly).map (fun
            | (os, true) =>
                ({ os with tcb.taskState := Function.update os.tcb.taskState t .dly }, .none)
            | (os, false) => (os, .timeZeroDly)) ∧
        (opt = .dly ∨ opt = .timeout → tickBase = os.tickList.ctr) := by
  cases opt with
  | dly | timeout => exact .inr ⟨os.tickList.ctr, os.tcb.tickCtrPrev, rfl, fun _ => rfl⟩
  | match' => exact .inr ⟨0, os.tcb.tickCtrPrev, rfl, by simp⟩
  | periodic =>
      by_cases zero : dly = 0
      · exact .inl (by simp [tickListInsertDly, zero])
      · exact .inr ⟨_, _, by simp only [tickListInsertDly, if_neg zero]; rfl, by simp⟩

theorem Inv.timeDly (inv : os.Inv s held calm) (ready : os.CallerReady)
    (task : os.sched.intNestingCtr = 0) (unlocked : os.sched.lockNestingCtr = 0)
    (other : os.sched.tcbCur ≠ os.sched.idleTask) (dly : Nat) (opt : TimeOpt) :
    ∃ r s' held', os.timeDly dly opt = some r ∧ os.Keeps s noSched r s' held' calm ∧
      (r.sched = true → opt = .dly ∨ opt = .timeout → dly < 2 ^ 32 →
        os.sched.tcbCur ∈ s'.timed ∧ s'.due os.sched.tcbCur = s.now + dly) := by
  have here := ready task
  simp only [Os.timeDly]
  rcases os.tickListInsertDly_cases os.sched.tcbCur dly opt with
    atOnce | ⟨tickBase, prev, insert, base⟩
  · exact ⟨_, s, held, by rw [atOnce]; rfl, .refuse inv ready, by simp⟩
  · have inv₁ : Inv { os with tcb.tickCtrPrev := prev } s held calm :=
      inv.frame rfl rfl rfl rfl rfl rfl rfl
    by_cases zero : tickSub (tickAdd dly tickBase) os.tickList.ctr = 0
    · obtain ⟨os', inserted, inv', sched, tcb⟩ := inv₁.dly_zero here zero
      refine ⟨_, s, held, by rw [insert, inserted]; rfl, ?_, by simp⟩
      exact .same inv' ready sched (by rw [tcb]) (by rw [tcb]) ⟨rfl, rfl, rfl⟩
    · obtain ⟨l, s', inserted, inv', blocked, timed, due⟩ := inv₁.dly here other rfl zero
      refine ⟨_, s', held, by rw [insert, inserted]; rfl, ?_, ?_⟩
      · have blocked' : os.Blocked s os.sched.tcbCur none _ s' := { blocked with }
        exact .blocked inv' blocked' (inv.toCore.ready_untimed here) task unlocked
      · intro _ relative small
        refine ⟨timed, ?_⟩
        rw [due, base relative]
        congr 1
        apply tickSub_tickAdd small
        rw [inv.tck.ctr]
        omega

end Delay

theorem Inv.awake {tick : TickList ι} (inv : os.Inv s held calm) (ctr : ι → Nat)
    (notReady : os.tcb.taskState t ≠ .rdy) (was : os.tcb.taskState t ≠ .del)
    (idle : (os.tcb.taskState t).pending = false)
    (count : ctr t = 0) (others : ∀ r, r ≠ t → ctr r = os.tcb.suspendCtr r)
    (tck : Tck tick s.now s.due (s.timed.erase t)) :
    ∃ rl s', osRdyListInsert os.rdyList os.sched.prioCur (os.tcb.prio t) t = some rl ∧
      Inv { os.restated t .rdy ctr with rdyList := rl, tickList := tick } s' held calm ∧
      s.Released s' := by
  have other : t ≠ os.sched.idleTask := by
    rintro rfl
    exact notReady inv.idle
  obtain ⟨rl, inserted, seated⟩ := inv.toSeated.awake ctr notReady was idle
  have rules : (os.restated t .rdy ctr).Rules held :=
    inv.toRules.restated (by simp) was other (by simp [count, TaskState.held]) others
  have core : Core { os.restated t .rdy ctr with rdyList := rl }
      ((s.untime t).enready os.sched.prioCur (os.tcb.prio t) t) held :=
    ⟨seated, rules.relist rfl rfl rfl rfl rfl⟩
  refine ⟨rl, (s.untime t).enready os.sched.prioCur (os.tcb.prio t) t, inserted,
    { toCore := ?_, tck := tck, fair := inv.fair }, ?_⟩
  · exact core.congr core.rdy (fun _ _ => .rfl) core.pnd rfl rfl rfl rfl (fun _ _ _ => ⟨rfl, rfl⟩)
      rfl rfl
  · exact ⟨fun r member => List.mem_of_mem_erase member, rfl, rfl⟩

/-- A task that is not ready has another state of the same kind, and waits for its time no
    longer. -/
theorem Inv.untimed {tick : TickList ι} (inv : os.Inv s held calm)
    (notReady : os.tcb.taskState t ≠ .rdy) (was : os.tcb.taskState t ≠ .del)
    (stays : state ≠ .rdy) (alive : state ≠ .del)
    (pending : state.pending = (os.tcb.taskState t).pending) (timed : state.timed = false)
    (count : state.held = true ↔ 0 < ctr t) (others : ∀ r, r ≠ t → ctr r = os.tcb.suspendCtr r)
    (tck : Tck tick s.now s.due (s.timed.erase t)) :
    Inv { os.restated t state ctr with tickList := tick } (s.untime t) held calm := by
  have other : t ≠ os.sched.idleTask := by
    rintro rfl
    exact notReady inv.idle
  have core : (os.restated t state ctr).Core (s.untime t) held :=
    ⟨inv.toSeated.untimed notReady stays was pending timed,
      inv.toRules.restated alive was other count others⟩
  refine { toCore := ?_, tck := tck, fair := inv.fair }
  exact core.congr core.rdy (fun _ _ => .rfl) core.pnd rfl rfl rfl rfl (fun _ _ _ => ⟨rfl, rfl⟩)
    rfl rfl

theorem Inv.restated (inv : os.Inv s held calm) (notReady : os.tcb.taskState t ≠ .rdy)
    (was : os.tcb.taskState t ≠ .del) (stays : state ≠ .rdy) (alive : state ≠ .del)
    (pending : state.pending = (os.tcb.taskState t).pending)
    (timed : state.timed = (os.tcb.taskState t).timed) (count : state.held = true ↔ 0 < ctr t)
    (others : ∀ r, r ≠ t → ctr r = os.tcb.suspendCtr r) : (os.restated t state ctr).Inv s held calm := by
  have other : t ≠ os.sched.idleTask := by
    rintro rfl
    exact notReady inv.idle
  exact {
    toSeated := inv.toSeated.restated notReady stays was pending timed
    toRules := inv.toRules.restated alive was other count others
    tck := inv.tck
    fair := inv.fair }

theorem ready_restated (notReady : os.tcb.taskState t ≠ .rdy) (r : ι)
    (ready : os.tcb.taskState r = .rdy) : Function.update os.tcb.taskState t state r = .rdy := by
  have other : r ≠ t := by
    rintro rfl
    exact notReady ready
  simpa [other] using ready

theorem Inv.timeDlyResume (inv : os.Inv s held calm) (ready : os.CallerReady) (t : ι) :
    ∃ r s' held', os.timeDlyResume t = some r ∧ os.Keeps s noSched r s' held' calm := by
  have erased : (os.tcb.taskState t).timed = true →
      Tck (osTickListRemove os.tickList t) s.now s.due (s.timed.erase t) :=
    fun timed => inv.tck.erase ((inv.placed t).timed.mpr timed)
  simp only [Os.timeDlyResume]
  cases state : os.tcb.taskState t with
  | dly =>
      have notReady : os.tcb.taskState t ≠ .rdy := by simp [state]
      have count : os.tcb.suspendCtr t = 0 := by
        simpa [state, TaskState.held] using inv.suspended t
      obtain ⟨rl, s', inserted, inv', times⟩ := inv.awake os.tcb.suspendCtr notReady
        (by simp [state]) (by simp [state, TaskState.pending]) count (fun _ _ => rfl)
        (erased (by simp [state, TaskState.timed]))
      simp only [tickListRemove, rdyListInsert, inserted, Option.map_some, Option.bind_some]
      exact ⟨_, s', held, rfl, .woke inv' ready rfl (ready_restated notReady) times (by simp)⟩
  | dlySuspended =>
      have notReady : os.tcb.taskState t ≠ .rdy := by simp [state]
      have count : TaskState.suspended.held = true ↔ 0 < os.tcb.suspendCtr t := by
        simpa [state, TaskState.held] using inv.suspended t
      have inv' : Inv { os.restated t .suspended os.tcb.suspendCtr with
          tickList := osTickListRemove os.tickList t } (s.untime t) held calm :=
        inv.untimed notReady (by simp [state]) (by simp) (by simp)
          (by simp [state, TaskState.pending]) (by simp [TaskState.timed]) count (fun _ _ => rfl)
          (erased (by simp [state, TaskState.timed]))
      refine ⟨_, s.untime t, held, rfl, ?_⟩
      exact .woke inv' ready rfl (ready_restated notReady)
        ⟨fun r member => List.mem_of_mem_erase member, rfl, rfl⟩ (by simp)
  | _ => exact ⟨_, s, held, rfl, .refuse inv ready⟩

/-! ## Suspension -/

theorem Inv.asleep (inv : os.Inv s held calm) (ready : os.tcb.taskState t = .rdy)
    (other : t ≠ os.sched.idleTask) (count : 0 < ctr t)
    (others : ∀ r, r ≠ t → ctr r = os.tcb.suspendCtr r) :
    Inv ((os.restated t .suspended ctr).rdyListRemove t) (s.unready t) held calm := by
  have rules : (os.restated t .suspended ctr).Rules held :=
    inv.toRules.restated (by simp) (by simp [ready]) other (by simp [count, TaskState.held]) others
  exact {
    toSeated := inv.toSeated.asleep ready (by simp) (by simp [TaskState.pending])
      (by simp [TaskState.timed])
    toRules := rules.relist rfl rfl rfl rfl rfl
    tck := inv.tck
    fair := inv.fair }

/-- A task that is not ready is suspended once more, or resumed to what it waits for. -/
theorem Inv.keeps_restated (inv : os.Inv s held calm) (ready : os.CallerReady)
    (notReady : os.tcb.taskState t ≠ .rdy) (was : os.tcb.taskState t ≠ .del)
    (stays : state ≠ .rdy) (alive : state ≠ .del)
    (pending : state.pending = (os.tcb.taskState t).pending)
    (timed : state.timed = (os.tcb.taskState t).timed) (count : state.held = true ↔ 0 < ctr t)
    (others : ∀ r, r ≠ t → ctr r = os.tcb.suspendCtr r) :
    ∃ r s' held', (os.restated t state ctr).served 0 true = some r ∧
      os.Keeps s noSched r s' held' calm :=
  ⟨_, s, held, rfl, .woke (inv.restated notReady was stays alive pending timed count others) ready
    rfl (ready_restated notReady) ⟨fun _ => id, rfl, rfl⟩ (by simp)⟩

theorem restated_self (os : Os ι σ μ) (t : ι) (ctr : ι → Nat) :
    os.restated t (os.tcb.taskState t) ctr = { os with tcb.suspendCtr := ctr } := by
  simp only [Os.restated, Function.update_eq_self]

theorem Inv.keeps_suspendCtr (inv : os.Inv s held calm) (ready : os.CallerReady)
    (suspended : (os.tcb.taskState t).held = true) {n : Nat} (more : 0 < n) :
    ∃ r s' held', served { os with
        tcb.suspendCtr := Function.update os.tcb.suspendCtr t n } 0 true = some r ∧
      os.Keeps s noSched r s' held' calm := by
  rw [← restated_self os t]
  have notReady : os.tcb.taskState t ≠ .rdy := by
    intro state
    simp [state, TaskState.held] at suspended
  have alive : os.tcb.taskState t ≠ .del := by
    intro state
    simp [state, TaskState.held] at suspended
  refine inv.keeps_restated ready notReady alive notReady alive rfl rfl ?_ ?_
  · simp [suspended, more]
  · exact fun r notT => Function.update_of_ne notT n os.tcb.suspendCtr

theorem Inv.taskSuspend (inv : os.Inv s held calm) (ready : os.CallerReady)
    (task : os.sched.intNestingCtr = 0) (notIdle : t ≠ os.sched.idleTask) :
    ∃ r s' held', os.taskSuspend t = some r ∧ os.Keeps s noSched r s' held' calm := by
  have others : ∀ r, r ≠ t → Function.update os.tcb.suspendCtr t 1 r = os.tcb.suspendCtr r :=
    fun r notT => Function.update_of_ne notT 1 os.tcb.suspendCtr
  have again : (os.tcb.taskState t).held = true → ∃ r s' held',
      (if os.tcb.suspendCtr t = nestingCtrMax then os.refuse .taskSuspendCtrOvf
      else served { os with
        tcb.suspendCtr := Function.update os.tcb.suspendCtr t (os.tcb.suspendCtr t + 1) } 0 true) =
        some r ∧ os.Keeps s noSched r s' held' calm := by
    intro suspended
    split
    · exact ⟨_, s, held, rfl, .refuse inv ready⟩
    · exact inv.keeps_suspendCtr ready suspended (by omega)
  simp only [Os.taskSuspend]
  split
  · exact ⟨_, s, held, rfl, .refuse inv ready⟩
  · rename_i unlocked
    cases state : os.tcb.taskState t with
    | rdy =>
        have once : 0 < Function.update os.tcb.suspendCtr t 1 t := by simp
        have inv' := inv.asleep state notIdle once others
        refine ⟨_, s.unready t, held, rfl, ?_⟩
        refine ⟨inv', rfl, rfl, rfl, rfl, rfl, le_max_left .., rfl, fun _ _ _ => rfl, ?_,
          fun isr => absurd task isr.ne', by simp⟩
        intro level
        by_cases same : os.sched.tcbCur = t
        · have lock : ¬ 0 < os.sched.lockNestingCtr := fun more => unlocked ⟨same.symm, more⟩
          exact .inr ⟨rfl, by simpa [rdyListRemove] using lock⟩
        · exact .inl (by simpa [rdyListRemove, same] using ready level)
    | dly | pend | pendTimeout =>
        refine inv.keeps_restated ready ?_ ?_ ?_ ?_ ?_ ?_ ?_ others <;>
          simp [state, TaskState.pending, TaskState.timed, TaskState.held]
    | del => exact ⟨_, s, held, rfl, .refuse inv ready⟩
    | suspended | dlySuspended | pendSuspended | pendTimeoutSuspended =>
        exact again (by simp [state, TaskState.held])

theorem Inv.taskResume (inv : os.Inv s held calm) (ready : os.CallerReady) (t : ι) :
    ∃ r s' held', os.taskResume t = some r ∧ os.Keeps s noSched r s' held' calm := by
  let less := Function.update os.tcb.suspendCtr t (os.tcb.suspendCtr t - 1)
  have others : ∀ r, r ≠ t → less r = os.tcb.suspendCtr r :=
    fun r notT => Function.update_of_ne notT _ os.tcb.suspendCtr
  have atT : less t = os.tcb.suspendCtr t - 1 := Function.update_self ..
  have stays : (os.tcb.taskState t).held = true → less t ≠ 0 → ∃ r s' held',
      served { os with tcb.suspendCtr := less } 0 true = some r ∧ os.Keeps s noSched r s' held' calm :=
    fun suspended more => inv.keeps_suspendCtr ready suspended (by omega)
  -- the task goes on waiting, suspended once less or no longer
  have resumes : ∀ state : TaskState, (os.tcb.taskState t).held = true → state.held = false →
      (os.tcb.taskState t).pending = true ∨ (os.tcb.taskState t).timed = true →
      state.pending = (os.tcb.taskState t).pending → state.timed = (os.tcb.taskState t).timed →
      ∃ r s' held', (if less t = 0 then os.restated t state less
        else { os with tcb.suspendCtr := less }).served 0 true = some r ∧
        os.Keeps s noSched r s' held' calm := by
    intro state suspended free waits pending timed
    have facts : os.tcb.taskState t ≠ .rdy ∧ os.tcb.taskState t ≠ .del ∧ state ≠ .rdy ∧
        state ≠ .del := by
      refine ⟨?_, ?_, ?_, ?_⟩ <;> intro same <;>
        simp_all [TaskState.held, TaskState.pending, TaskState.timed]
    by_cases zero : less t = 0
    · simp only [if_pos zero]
      exact inv.keeps_restated ready facts.1 facts.2.1 facts.2.2.1 facts.2.2.2 pending timed
        (by simp [free, zero]) others
    · simp only [if_neg zero]
      exact stays suspended zero
  simp only [Os.taskResume]
  cases state : os.tcb.taskState t with
  | rdy | dly | pend | pendTimeout | del => exact ⟨_, s, held, rfl, .refuse inv ready⟩
  | dlySuspended =>
      exact resumes .dly (by simp [state, TaskState.held]) (by simp [TaskState.held])
        (by simp [state, TaskState.timed]) (by simp [state, TaskState.pending])
        (by simp [state, TaskState.timed])
  | pendSuspended =>
      exact resumes .pend (by simp [state, TaskState.held]) (by simp [TaskState.held])
        (by simp [state, TaskState.pending]) (by simp [state, TaskState.pending])
        (by simp [state, TaskState.timed])
  | pendTimeoutSuspended =>
      exact resumes .pendTimeout (by simp [state, TaskState.held]) (by simp [TaskState.held])
        (by simp [state, TaskState.pending]) (by simp [state, TaskState.pending])
        (by simp [state, TaskState.timed])
  | suspended =>
      by_cases zero : less t = 0
      · have notReady : os.tcb.taskState t ≠ .rdy := by simp [state]
        have outside : t ∉ s.timed := by simp [(inv.placed t).timed, state, TaskState.timed]
        have tck : Tck os.tickList s.now s.due (s.timed.erase t) := by
          rw [List.erase_of_not_mem outside]
          exact inv.tck
        obtain ⟨rl, s', inserted, inv', times⟩ := inv.awake less notReady (by simp [state])
          (by simp [state, TaskState.pending]) zero others tck
        simp only [less] at zero
        simp only [rdyListInsert, zero, if_true, inserted, Option.map_some, Option.bind_some]
        exact ⟨_, s', held, rfl,
          .woke inv' ready rfl (ready_restated notReady) times (by simp)⟩
      · have more := zero
        simp only [less] at more
        simp only [if_neg more]
        exact stays (by simp [state, TaskState.held]) zero

/-! ## Creation -/

section Create

variable (inv : os.Inv s held calm) (deleted : os.tcb.taskState t = .del)

include inv deleted

omit [DecidableEq ι] in
theorem Inv.nowhere : (∀ q, t ∉ s.ready q) ∧ (∀ o, t ∉ s.waiting o) ∧ t ∉ s.timed ∧
    os.pendList.objPtr t = none ∧ held t = [] ∧ ∀ r, os.waitsFor r ≠ some t := by
  have place := inv.placed t
  have free : os.pendList.objPtr t = none :=
    inv.toSeated.free (by simp [deleted, TaskState.pending])
  have owns : held t = [] := by
    by_contra some'
    exact inv.alive t some' deleted
  refine ⟨?_, ?_, ?_, free, owns, ?_⟩
  · intro q
    simp [place.ready, deleted]
  · intro o
    rw [← inv.pnd.object, free]
    simp
  · simp [place.timed, deleted, TaskState.timed]
  · intro r waits
    obtain ⟨m, -, owner⟩ := waitsFor_eq_some.mp waits
    have member := inv.owns t m owner
    simp [owns] at member

theorem Inv.create {ready : Nat → List ι} (below : p < osCfgPrioMax) (rdy : Rdy os'.rdyList ready)
    (members : ∀ r q, r ∈ ready q ↔ r ∈ s.ready q ∨ r = t ∧ q = p)
    (pnd : Pnd os'.pendList s.waiting)
    (objPtr : os'.pendList.objPtr = Function.update os.pendList.objPtr t none)
    (tck : Tck os'.tickList s.now s.due s.timed)
    (state : os'.tcb.taskState = Function.update os.tcb.taskState t .rdy)
    (prio : os'.tcb.prio = Function.update os.tcb.prio t p)
    (base : os'.tcb.basePrio = Function.update os.tcb.basePrio t p)
    (on : os'.tcb.pendOn = Function.update os.tcb.pendOn t .nothing)
    (count : os'.tcb.suspendCtr = Function.update os.tcb.suspendCtr t 0)
    (group : os'.tcb.mutexGrpHeadPtr = Function.update os.tcb.mutexGrpHeadPtr t none)
    (sem : os'.sem = os.sem) (mutex : os'.mutex = os.mutex)
    (idle : os'.sched.idleTask = os.sched.idleTask) :
    os'.Inv { s with ready := ready } held calm := by
  obtain ⟨notReady, notWaiting, notTimed, free, owns, alone⟩ := inv.nowhere deleted
  have objs : os'.pendList.objPtr = os.pendList.objPtr := by
    rw [objPtr, ← free, Function.update_eq_self]
  have waits : os'.waitsFor = os.waitsFor := by
    funext r
    simp only [waitsFor, pendMutex, objs, mutex]
  have alive : ∀ r, r ≠ t → os'.tcb.taskState r = os.tcb.taskState r := by
    intro r notT
    rw [state, Function.update_of_ne notT]
  refine {
    rdy := rdy, pnd := pnd, placed := ?_, once := inv.once, inOrder := ?_
    owned := ?_, owns := ?_, nesting := ?_, alive := ?_, inside := ?_, sems := ?_, mutexes := ?_
    suspended := ?_, idle := ?_, tck := tck, fair := ?_ }
  · intro r
    by_cases same : r = t
    · subst same
      refine { ready := ?_, timed := ?_, fits := ?_, below := ?_ }
      · intro q
        simp only [members, notReady q, state, prio, Function.update_self, false_or, true_and]
        exact eq_comm
      · simp [notTimed, state, TaskState.timed]
      · simp [Fits, state, objPtr, TaskState.pending]
      · simp [prio, below]
    · refine (inv.placed r).frame ?_ .rfl (alive r same) ?_ ?_ ?_
      · intro q
        simp [members, same]
      · rw [prio, Function.update_of_ne same]
      · rw [on, Function.update_of_ne same]
      · rw [objs]
  · intro o
    rw [prio]
    exact (inv.inOrder o).update (notWaiting o) p
  · refine { group := ?_, owner := ?_, busy := ?_ }
    · intro r
      by_cases same : r = t
      · subst same
        simp [group, owns, Points]
      · simpa [group, mutex, same] using inv.owned.group r
    · simpa only [mutex] using inv.owned.owner
    · simpa only [mutex, objs] using inv.owned.busy
  · simpa only [mutex] using inv.owns
  · simpa only [mutex] using inv.nesting
  · intro r some'
    have other : r ≠ t := by
      rintro rfl
      exact some' owns
    rw [alive r other]
    exact inv.alive r some'
  · intro r
    by_cases same : r = t
    · simpa [base, same] using fun _ => below
    · simpa [base, alive r same, same] using inv.inside r
  · simpa only [sem, objs] using inv.sems
  · simpa only [mutex] using inv.mutexes
  · intro r
    by_cases same : r = t
    · simp [state, count, same, TaskState.held]
    · simpa [count, alive r same, same] using inv.suspended r
  · rw [idle, state]
    by_cases same : os.sched.idleTask = t
    · simp [same]
    · simpa [same] using inv.idle
  · intro fair r
    rw [waits]
    by_cases same : r = t
    · subst same
      exact isLeast_claims.mpr ⟨by simp [prio, base], fun w waits => absurd waits (alone w),
        .inl (by simp [prio, base])⟩
    · refine (inv.fair fair r).congr ?_ (fun _ => .rfl) ?_ ?_
      · rw [base, Function.update_of_ne same]
      · intro w waitsR
        have other : w ≠ t := by
          rintro rfl
          simp [waitsFor_eq_none free] at waitsR
        rw [prio, Function.update_of_ne other]
      · rw [prio, Function.update_of_ne same]

theorem Inv.taskCreate (ready : os.CallerReady) {prio : Nat} (below : prio < osCfgPrioMax)
    (timeQuanta : Nat) :
    ∃ r s' held', os.taskCreate t prio timeQuanta = some r ∧ os.Keeps s noSched r s' held' calm := by
  simp only [Os.taskCreate]
  obtain ⟨notReady, notWaiting, notTimed, -⟩ := inv.nowhere deleted
  obtain ⟨rl, inserted, rdy⟩ := (inv.rdy.elsewhere notReady).insertTail below notReady
  have members : ∀ r q, r ∈ Function.update s.ready prio (s.ready prio ++ [t]) q ↔
      r ∈ s.ready q ∨ r = t ∧ q = prio := by
    intro r q
    by_cases same : q = prio
    · subst same
      simp
    · simp [same]
  have tck := (inv.tck.elsewhere notTimed).outside notTimed 0
  have notCaller : ∀ r, os.tcb.taskState r = .rdy → r ≠ t := by
    rintro r state rfl
    simp [deleted] at state
  simp only [taskInitTCB, inserted, Option.bind_some]
  refine ⟨_, { s with ready := Function.update s.ready prio (s.ready prio ++ [t]) }, held, rfl, ?_⟩
  refine .woke ?_ ready ?_ ?_ ?_ ?_
  · exact inv.create deleted below rdy members (inv.pnd.elsewhere notWaiting) rfl tck rfl
      (by simp) (by simp) rfl rfl rfl rfl rfl rfl
  · rfl
  · intro r state
    simp [notCaller r state, state]
  · exact ⟨fun _ => id, rfl, rfl⟩
  · simp

end Create

/-! ## Changes of priorities -/

/-- The priority that `OSTaskChangePrio` asks for is the one the task is entitled to. -/
theorem Inv.prioNew_changed [Fintype μ] (inv : os.Inv s held calm) (below : p < osCfgPrioMax)
    (core : Core { os with tcb.basePrio := Function.update os.tcb.basePrio t p } s held) :
    ∃ q, (if os.tcb.mutexGrpHeadPtr t ≠ none ∧ os.tcb.prio t < p then
        (Os.mutexGrpPrioFindHighest { os with
          tcb.basePrio := Function.update os.tcb.basePrio t p } t).map (min p)
        else some p) = some q ∧ q ≤ p ∧ (p < os.tcb.prio t → q = p) ∧
      (calm → IsLeast
        (claims os.tcb.prio (Function.update os.tcb.basePrio t p) os.waitsFor t) q) := by
  by_cases search : os.tcb.mutexGrpHeadPtr t ≠ none ∧ os.tcb.prio t < p
  · obtain ⟨q, found, least⟩ := core.owned.prioNew core.toSeated t (by simpa using below)
    refine ⟨q, ?_, least.2 ?_, fun more => absurd search.2 more.not_gt, fun _ => least⟩
    · rw [if_pos search, ← found]
      simp only [Os.prioNew, Function.update_self]
      congr 1
      funext h
      simp only [min_def]
      split <;> split <;> omega
    · simp [claims]
  · refine ⟨p, if_neg search, le_rfl, fun _ => rfl, fun calm => ?_⟩
    refine isLeast_claims.mpr ⟨by simp, ?_, .inl (by simp)⟩
    intro w waits
    have owns : os.tcb.mutexGrpHeadPtr t ≠ none := by
      obtain ⟨m, -, owner⟩ := waitsFor_eq_some.mp waits
      have member := inv.owns t m owner
      have chain := inv.owned.group t
      rcases list : held t with _ | ⟨m', rest⟩
      · simp [list] at member
      · rw [list] at chain
        simp [chain.1]
    have urgent : p ≤ os.tcb.prio t := by
      by_contra more
      exact search ⟨owns, not_le.mp more⟩
    exact urgent.trans ((inv.fair calm t).le waits)

theorem Inv.taskChangePrio [DecidableEq σ] [DecidableEq μ] [Fintype ι] [Fintype μ]
    (inv : os.Inv s held calm) (ready : os.CallerReady) (alive : os.tcb.taskState t ≠ .del)
    {prioNew : Nat} (below : prioNew < osCfgPrioMax)
    (gentle : calm → prioNew < os.tcb.prio t ∨ os.waitsFor t = none) :
    ∃ r s' held', os.taskChangePrio t prioNew = some r ∧ os.Keeps s noSched r s' held' calm := by
  let os₁ : Os ι σ μ := { os with
    tcb.basePrio := Function.update os.tcb.basePrio t prioNew }
  have core : os₁.Core s held := by
    refine { inv.toSeated, inv.toRules with
      placed := ?_, owned := { inv.owned with }, inside := ?_ }
    · exact fun r => (inv.placed r).frame (fun _ => .rfl) .rfl rfl rfl rfl rfl
    · intro r
      by_cases same : r = t
      · simpa [os₁, same] using fun _ => below
      · simpa [os₁, same] using inv.inside r
  have others : calm → ∀ r, r ≠ t → Fair os₁.tcb.prio os₁.tcb.basePrio os₁.waitsFor r := by
    intro calm r notT
    exact (inv.fair calm r).congr (Function.update_of_ne notT prioNew os.tcb.basePrio)
      (fun _ => .rfl) (fun _ _ => rfl) rfl
  obtain ⟨q, asked, le, raises, least⟩ := inv.prioNew_changed below core
  have changed : ∃ os' s', os₁.changePrio (changeRounds ι) t q = some os' ∧
      os'.Inv s' held calm ∧ os.Woke s os' s' := by
    by_cases raised : q < os.tcb.prio t
    · obtain ⟨os', s', changed, core', repriced, -, fair⟩ := core.raise alive raised
      refine ⟨os', s', changed, { core' with tck := repriced.tck inv.tck, fair := ?_ },
        { repriced.woke with }⟩
      rw [repriced.basePrio]
      exact fun calm => fair os₁.tcb.basePrio (others calm) (least calm)
    · obtain ⟨os', s', changed, core', repriced, fair⟩ := core.settle alive (le.trans_lt below)
      refine ⟨os', s', changed, { core' with tck := repriced.tck inv.tck, fair := ?_ },
        { repriced.woke with }⟩
      intro calm
      have free : os.waitsFor t = none :=
        (gentle calm).resolve_left fun more => raised ((raises more).trans_lt more)
      exact fair free (others calm) (least calm)
  obtain ⟨os', s', changed, inv', woke⟩ := changed
  have keeps : os.Keeps s noSched ⟨os', some (.none, 0), true⟩ s' held calm :=
    .woke inv' ready woke.sched woke.ready woke.times (by simp)
  refine ⟨_, s', held, ?_, keeps⟩
  simp only [Os.taskChangePrio]
  by_cases search : os.tcb.mutexGrpHeadPtr t ≠ none ∧ os.tcb.prio t < prioNew
  · rw [if_pos search] at asked
    simp only [if_pos search, Option.bind_eq_bind]
    rw [asked, Option.bind_some]
    exact congrArg (Option.bind · fun os => os.served 0 true) changed
  · rw [if_neg search] at asked
    cases asked
    simp only [if_neg search, Option.bind_eq_bind]
    exact congrArg (Option.bind · fun os => os.served 0 true) changed

end Os

end ExploreF407.Kernel
