import ExploreF407.Kernel.CpuSteps

/-! # Runs of the kernel

What holds in every state that the processor reaches from the start, whatever the
tasks call and whenever interrupts come.
-/

namespace ExploreF407.Kernel

open Linked Urgency Delta Inherit Machine

variable {ι σ μ : Type} [DecidableEq ι] [DecidableEq σ] [DecidableEq μ]

/-! ## The start -/

namespace Os

variable {os os' : Os ι σ μ} {s : Lists ι (σ ⊕ μ)} {held : ι → List μ} {idle : ι} {tenth : Nat}
  {tasks : List (ι × Nat × Nat)} {calm : Prop}

/-- How many of the tasks have a priority that `OSTaskCreate` accepts. -/
def accepted (tasks : List (ι × Nat × Nat)) : Nat :=
  tasks.countP fun task => decide (task.2.1 ≤ osCfgPrioMax - 2)

omit [DecidableEq σ] [DecidableEq μ] in
theorem entry_taskCreate (task : os.sched.intNestingCtr = 0) {t : ι}
    (other : t ≠ os.sched.idleTask) {prio timeQuanta : Nat} :
    os.entry (.taskCreate t prio timeQuanta) = .none ↔ prio ≤ osCfgPrioMax - 2 := by
  simp only [entry, unlessIsr, task, lt_irrefl, if_false, osCfgPrioMax, ne_eq, other,
    not_false_eq_true, and_true]
  split_ifs <;> simp only [true_iff, false_iff] <;> omega

omit [DecidableEq σ] [DecidableEq μ] in
theorem Inv.createTasks (inv : os.Inv s held calm) (starts : os.sched.tcbCur = os.sched.idleTask)
    (task : os.sched.intNestingCtr = 0) (small : os.taskQty < 2 ^ 16)
    (once : (os.sched.idleTask :: tasks.map Prod.fst).Nodup)
    (fresh : ∀ t ∈ tasks.map Prod.fst, os.tcb.taskState t = .del) :
    ∃ os' s' held', Os.createTasks tasks os = some os' ∧ os'.Inv s' held' calm ∧
      os'.sched = os.sched ∧ os'.taskQty = (os.taskQty + accepted tasks) % 2 ^ 16 := by
  induction tasks generalizing os s held with
  | nil => exact ⟨os, s, held, rfl, inv, rfl, (Nat.mod_eq_of_lt small).symm⟩
  | cons first tasks ih =>
      obtain ⟨t, prio, timeQuanta⟩ := first
      simp only [List.map_cons, List.forall_mem_cons] at fresh
      simp only [List.map_cons, List.nodup_cons, List.mem_cons, not_or] at once
      have other : t ≠ os.sched.idleTask := fun same => once.1.1 same.symm
      simp only [Os.createTasks, entry_taskCreate task other]
      by_cases accepts : prio ≤ osCfgPrioMax - 2
      · have ready : os.CallerReady := by
          intro _
          rw [starts]
          exact inv.idle
        have below : prio < osCfgPrioMax := by
          simp only [osCfgPrioMax] at accepts ⊢
          omega
        obtain ⟨r, s₁, held₁, created, keeps⟩ : ∃ r s₁ held₁,
            os.taskCreate t prio timeQuanta = some r ∧ os.Keeps s false r s₁ held₁ calm :=
          inv.taskCreate fresh.1 ready below timeQuanta
        obtain ⟨sched, qty, frame⟩ := taskCreate_frame created
        have fresh' : ∀ x ∈ tasks.map Prod.fst, r.os.tcb.taskState x = .del := by
          intro x member
          have apart : x ≠ t := fun same => once.2.1 (same ▸ member)
          rw [frame x apart]
          exact fresh.2 x member
        obtain ⟨os', s', held', rest, inv', same, count⟩ :=
          ih keeps.inv (by rw [sched]; exact starts) (by rw [sched]; exact task)
            (by rw [qty]; exact Nat.mod_lt _ (by decide))
            (by rw [sched]; exact List.nodup_cons.mpr ⟨once.1.2, once.2.2⟩) fresh'
        refine ⟨os', s', held', ?_, inv', same.trans sched, ?_⟩
        · rw [if_pos accepts, created, Option.bind_some, rest]
        · rw [count, qty, Nat.mod_add_mod, accepted, accepted, List.countP_cons_of_pos (by simpa)]
          congr 1
          omega
      · obtain ⟨os', s', held', rest, inv', same, count⟩ :=
          ih inv starts task small (List.nodup_cons.mpr ⟨once.1.2, once.2.2⟩) fresh.2
        refine ⟨os', s', held', by rw [if_neg accepts, rest], inv', same, ?_⟩
        rw [count, accepted, accepted, List.countP_cons_of_neg (by simpa using accepts)]

end Os

namespace Cpu

open Os

variable {c c' c₀ c₁ c₂ c₃ : Cpu ι σ μ} {s s' : Lists ι (σ ⊕ μ)} {held held' : ι → List μ}
  {t idle : ι} {a : Action ι σ μ} {as : List (Action ι σ μ)} {tenth : Nat}
  {tasks : List (ι × Nat × Nat)} {calm : Prop}

omit [DecidableEq σ] [DecidableEq μ] in
theorem good_boot (tenth : Nat) (once : (idle :: tasks.map Prod.fst).Nodup) :
    ∃ started : Except ErrCode (Cpu ι σ μ), boot idle tenth tasks = some started ∧
      ((∃ c, started = .ok c) ↔ kernelTaskCnt < (1 + accepted tasks) % 2 ^ 16) ∧
      ∀ c, started = .ok c → ∃ s held, c.Good s held calm := by
  obtain ⟨r, s₁, created, inv₁⟩ : ∃ r s, (osInit idle tenth : Os ι σ μ).taskCreate idle
      (osCfgPrioMax - 1) 0 = some r ∧ r.os.Inv s (fun _ => []) calm := osInit_idle idle tenth
  obtain ⟨sched₁, qty₁, frame⟩ := taskCreate_frame created
  have same₁ : r.os.sched.idleTask = idle := by rw [sched₁]; rfl
  have fresh : ∀ t ∈ tasks.map Prod.fst, r.os.tcb.taskState t = .del := by
    intro t member
    rw [frame t fun same => (List.nodup_cons.mp once).1 (same ▸ member)]
    rfl
  obtain ⟨os, s, held, rest, inv, sched, qty⟩ :=
    inv₁.createTasks (by rw [sched₁]; rfl) (by rw [sched₁]; rfl)
      (by rw [qty₁]; exact Nat.mod_lt _ (by decide)) (by rw [same₁]; exact once) fresh
  have accepts : (osInit idle tenth : Os ι σ μ).entry (.taskCreate idle (osCfgPrioMax - 1) 0) =
      .none := by
    simp [entry, unlessIsr, osInit]
  have all : createTasks ((idle, osCfgPrioMax - 1, 0) :: tasks)
      (osInit idle tenth : Os ι σ μ) = some os := by
    rw [Os.createTasks, if_pos accepts, created, Option.bind_some, rest]
  have count : os.taskQty = (1 + accepted tasks) % 2 ^ 16 := by
    rw [qty, qty₁, Nat.mod_add_mod]
    rfl
  simp only [boot, all, Option.bind_some, osStart]
  by_cases few : os.taskQty ≤ kernelTaskCnt
  · rw [if_pos few]
    refine ⟨_, rfl, ⟨?_, ?_⟩, ?_⟩
    · rintro ⟨c, same⟩
      cases same
    · intro more
      rw [← count] at more
      omega
    · intro c same
      cases same
  · obtain ⟨t, head, ready, urgent⟩ := inv.highRdy
    rw [if_neg few, head]
    let os' : Os ι σ μ := { os with
      sched.prioHighRdy := osPrioGetHighest os.rdyList.prioTbl
      sched.prioCur := osPrioGetHighest os.rdyList.prioTbl
      sched.tcbHighRdy := t
      sched.tcbCur := t }
    have inv' : os'.Inv s held calm := inv.frame rfl rfl rfl rfl rfl rfl rfl
    have vars : os.sched = (osInit idle tenth : Os ι σ μ).sched := sched.trans sched₁
    have stays : os'.sched.pendSv ≠ true := by simp [os', vars, osInit]
    have unlocked : os'.sched.lockNestingCtr = 0 := by simp [os', vars, osInit]
    refine ⟨_, rfl, ⟨fun _ => by omega, fun _ => ⟨_, rfl⟩⟩, ?_⟩
    rintro _ ⟨⟩
    exact ⟨s, held, { inv' with
      entered := ⟨by simp, by simp⟩, few := unlocked.le.trans (Nat.zero_le _)
      running := fun _ _ => ready
      locked := fun more => absurd unlocked more.ne'
      switching := fun pending => absurd pending stays
      next := fun _ pending => absurd pending stays
      current := fun _ _ _ _ => ⟨ready, urgent⟩ }⟩

variable [Fintype ι] [Fintype μ]

/-- The tasks have been created, the kernel has been started, and since then these actions have
    been done. -/
def Reached (idle : ι) (tenth : Nat) (tasks : List (ι × Nat × Nat)) (as : List (Action ι σ μ))
    (c : Cpu ι σ μ) : Prop :=
  ∃ c₀, boot idle tenth tasks = some (.ok c₀) ∧ Runs Cpu.step Enabled c₀ as c

/-- The state after these actions, computed. -/
def after (idle : ι) (tenth : Nat) (tasks : List (ι × Nat × Nat)) (as : List (Action ι σ μ)) :
    Option (Cpu ι σ μ) :=
  (boot idle tenth tasks).bind fun started => started.toOption.bind fun c =>
    execute Cpu.step Enabled c as

theorem exists_reached {P : Cpu ι σ μ → Prop} [DecidablePred P]
    (done : (after idle tenth tasks as).any (fun c => decide (P c)) = true) :
    ∃ c, Reached idle tenth tasks as c ∧ P c := by
  obtain ⟨c, ends, holds⟩ := (Option.any_eq_true ..).mp done
  obtain ⟨started, booted, ends⟩ := Option.bind_eq_some_iff.mp ends
  obtain ⟨c₀, starts, ran⟩ := Option.bind_eq_some_iff.mp ends
  cases started with
  | error err => cases starts
  | ok c₁ =>
      cases starts
      exact ⟨c, ⟨c₀, booted, .of_execute ran⟩, of_decide_eq_true holds⟩

/-- A run keeps the invariant, and where its steps are calm the priorities too. -/
theorem Good.runs {ok : Cpu ι σ μ → Action ι σ μ → Prop} (good : c.Good s held calm)
    (run : Runs Cpu.step ok c as c')
    (allowed : ∀ c a, ok c a → c.Enabled a ∧ (calm → c.Calm a)) :
    ∃ s' held', c'.Good s' held' calm := by
  induction run with
  | start => exact ⟨s, held, good⟩
  | next _ may moved ih =>
      obtain ⟨s₁, held₁, good₁⟩ := ih
      obtain ⟨s₂, held₂, good₂, -⟩ := good₁.moved (allowed _ _ may).1 (allowed _ _ may).2 moved
      exact ⟨s₂, held₂, good₂⟩

theorem good_after {ok : Cpu ι σ μ → Action ι σ μ → Prop}
    (once : (idle :: tasks.map Prod.fst).Nodup) (booted : boot idle tenth tasks = some (.ok c₀))
    (run : Runs Cpu.step ok c₀ as c)
    (allowed : ∀ c a, ok c a → c.Enabled a ∧ (calm → c.Calm a)) :
    ∃ s held, c.Good s held calm := by
  obtain ⟨started, booted', -, starts⟩ : ∃ started : Except ErrCode (Cpu ι σ μ), _ :=
    good_boot tenth once
  obtain ⟨s, held, good⟩ := starts c₀ (Option.some.inj (booted'.symm.trans booted))
  exact good.runs run allowed

theorem Reached.good (once : (idle :: tasks.map Prod.fst).Nodup)
    (reached : Reached idle tenth tasks as c) : ∃ s held, c.Good s held False := by
  obtain ⟨c₀, booted, run⟩ := reached
  exact good_after once booted run fun _ _ enabled => ⟨enabled, False.elim⟩

theorem Good.moves (good : c.Good s held False) (enabled : c.Enabled a)
    (moved : c.step a = some c') : ∃ s' held', c'.Good s' held' False ∧ Passed c s a c' s' :=
  good.moved enabled False.elim moved

/-! ## What may come next is done -/

/-- The kernel starts if there are more tasks than those of its own, and whatever may come next is
    done: no function follows a null pointer, and every loop ends. -/
theorem enabled_done (tenth : Nat) (once : (idle :: tasks.map Prod.fst).Nodup) :
    (∃ started : Except ErrCode (Cpu ι σ μ), boot idle tenth tasks = some started ∧
      ((∃ c, started = .ok c) ↔ kernelTaskCnt < (1 + accepted tasks) % 2 ^ 16)) ∧
      ∀ as (c : Cpu ι σ μ), Reached idle tenth tasks as c → ∀ a, c.Enabled a →
        ∃ c', c.step a = some c' := by
  constructor
  · obtain ⟨started, booted, starts, -⟩ : ∃ started : Except ErrCode (Cpu ι σ μ), _ ∧ _ ∧
        ∀ c, started = .ok c → ∃ s held, c.Good s held False := good_boot tenth once
    exact ⟨started, booted, starts⟩
  · intro as c reached a enabled
    obtain ⟨s, held, good⟩ := reached.good once
    obtain ⟨c', _, _, moved, -⟩ := good.step enabled False.elim
    exact ⟨c', moved⟩

/-- Two tasks, and those for timers and statistics. -/
def twoTasks : List (Fin 5 × Nat × Nat) := [(1, 10, 0), (2, 20, 0), (3, 29, 0), (4, 30, 0)]

/-- The tests of a call and then its critical section. -/
def serve (call : Call (Fin 5) (Fin 1) (Fin 1)) : List (Action (Fin 5) (Fin 1) (Fin 1)) :=
  [.call call, .critical call]

/-- The first task waits for a signal of a semaphore. -/
def waitForSignal (timeout : Nat) : List (Action (Fin 5) (Fin 1) (Fin 1)) :=
  serve (.semCreate 0 0) ++ serve (.semPend 0 timeout false) ++ [.sched, .pendSv]

theorem enabled_done_two :
    ∃ c : Cpu (Fin 5) (Fin 1) (Fin 1), Reached 0 100 twoTasks (waitForSignal 5) c ∧
      ∃ c', c.step (.call (.semPost 0 true false)) = some c' := by
  obtain ⟨c, reached, enabled⟩ := exists_reached
    (P := fun c => c.Enabled (.call (.semPost 0 true false)))
    (by decide : (after 0 100 twoTasks (waitForSignal 5)).any _ = true)
  exact ⟨c, reached, (enabled_done 100 (by decide)).2 _ c reached _ enabled⟩

/-! ## The running task -/

/-- Between two calls, the running task is ready and no ready task is more urgent, unless the
    scheduler is locked or the choice of the next task has been put off. -/
theorem running_urgent (once : (idle :: tasks.map Prod.fst).Nodup)
    (reached : Reached idle tenth tasks as c) (atTask : c.AtTask)
    (unlocked : c.os.sched.lockNestingCtr = 0) (before : c.task c.os.sched.tcbCur ≠ .sched)
    (prompt : c.putOff = false) :
    c.os.tcb.taskState c.os.sched.tcbCur = .rdy ∧
      ∀ r, c.os.tcb.taskState r = .rdy → c.os.tcb.prio c.os.sched.tcbCur ≤ c.os.tcb.prio r := by
  obtain ⟨s, held, good⟩ := reached.good once
  exact ⟨(good.current atTask unlocked before prompt).ready,
    (good.current atTask unlocked before prompt).least⟩

theorem running_urgent_two :
    ∃ c : Cpu (Fin 5) (Fin 1) (Fin 1), Reached 0 100 twoTasks (waitForSignal 5) c ∧
      c.os.sched.tcbCur = 2 ∧ c.os.tcb.taskState 2 = .rdy := by
  obtain ⟨c, reached, running, atTask, unlocked, before, prompt⟩ := exists_reached
    (P := fun c => c.os.sched.tcbCur = 2 ∧ c.AtTask ∧ c.os.sched.lockNestingCtr = 0 ∧
      c.task c.os.sched.tcbCur ≠ .sched ∧ c.putOff = false)
    (by decide : (after 0 100 twoTasks (waitForSignal 5)).any _ = true)
  have ready := (running_urgent (by decide) reached atTask unlocked before prompt).1
  exact ⟨c, reached, running, running ▸ ready⟩

/-- While the scheduler is locked the running task is ready, and every step leaves it running. The
    locks do not count past 250. -/
theorem locked_keeps_running (once : (idle :: tasks.map Prod.fst).Nodup)
    (reached : Reached idle tenth tasks as c) (locked : 0 < c.os.sched.lockNestingCtr)
    (enabled : c.Enabled a) (moved : c.step a = some c') :
    c.os.tcb.taskState c.os.sched.tcbCur = .rdy ∧
      c'.os.sched.tcbCur = c.os.sched.tcbCur ∧ c'.os.sched.lockNestingCtr ≤ 250 := by
  obtain ⟨s, held, good⟩ := reached.good once
  obtain ⟨idle', ready⟩ := good.locked locked
  obtain ⟨_, _, good', passed⟩ := good.moves enabled moved
  refine ⟨ready, passed.running ?_, good'.few⟩
  rintro rfl
  cases idle'.symm.trans enabled.2

/-- The first task locks the scheduler, and is interrupted. -/
def lockAndInterrupt : List (Action (Fin 5) (Fin 1) (Fin 1)) := serve .schedLock ++ [.intEnter]

theorem locked_keeps_running_two :
    ∃ c c' : Cpu (Fin 5) (Fin 1) (Fin 1), Reached 0 100 twoTasks lockAndInterrupt c ∧
      c.step .intExit = some c' ∧ c'.os.sched.tcbCur = c.os.sched.tcbCur := by
  obtain ⟨c, reached, locked, enabled, done⟩ := exists_reached
    (P := fun c => 0 < c.os.sched.lockNestingCtr ∧ c.Enabled .intExit ∧
      (c.step .intExit).isSome = true)
    (by decide : (after 0 100 twoTasks lockAndInterrupt).any _ = true)
  obtain ⟨c', moved⟩ := Option.isSome_iff_exists.mp done
  exact ⟨c, c', reached, moved,
    (locked_keeps_running (by decide) reached locked enabled moved).2.1⟩

/-- A task is suspended just as long as its suspensions count to more than zero, and the idle task
    is ready at all times. -/
theorem suspended_iff (once : (idle :: tasks.map Prod.fst).Nodup)
    (reached : Reached idle tenth tasks as c) :
    (∀ t, (c.os.tcb.taskState t).held = true ↔ 0 < c.os.tcb.suspendCtr t) ∧
      c.os.tcb.taskState c.os.sched.idleTask = .rdy := by
  obtain ⟨s, held, good⟩ := reached.good once
  exact ⟨good.suspended, good.idle⟩

/-- The first task suspends the second one. -/
def suspendOther : List (Action (Fin 5) (Fin 1) (Fin 1)) := serve (.taskSuspend 2)

theorem suspended_iff_two :
    ∃ c : Cpu (Fin 5) (Fin 1) (Fin 1), Reached 0 100 twoTasks suspendOther c ∧
      0 < c.os.tcb.suspendCtr 2 := by
  obtain ⟨c, reached, state⟩ := exists_reached
    (P := fun c => (c.os.tcb.taskState 2).held = true)
    (by decide : (after 0 100 twoTasks suspendOther).any _ = true)
  exact ⟨c, reached, ((suspended_iff (by decide) reached).1 2).mp state⟩

/-! ## Priorities -/

/-- A task runs with the most urgent of its own priority and the priorities of the tasks that
    wait for a mutex of its, as long as every step is calm. -/
theorem prio_isLeast (once : (idle :: tasks.map Prod.fst).Nodup)
    (booted : boot idle tenth tasks = some (.ok c₀))
    (run : Runs Cpu.step (fun c a => c.Enabled a ∧ c.Calm a) c₀ as c) (t : ι) :
    IsLeast (insert (c.os.tcb.basePrio t) (c.os.tcb.prio ''
      { w | ∃ m, c.os.pendList.objPtr w = some (.inr m) ∧ c.os.mutex.ownerTcbPtr m = some t }))
      (c.os.tcb.prio t) := by
  obtain ⟨s, held, good⟩ : ∃ s held, c.Good s held True :=
    good_after once booted run fun _ _ may => ⟨may.1, fun _ => may.2⟩
  have fair := good.fair trivial t
  simpa only [Fair, claims, waitsFor_eq_some] using fair

/-- The second task takes a mutex while the first one waits for a time, and the first one asks for
    it then. -/
def raisePrio : List (Action (Fin 5) (Fin 1) (Fin 1)) :=
  serve (.mutexCreate 0) ++ serve (.timeDly 1 .dly) ++ [.sched, .pendSv] ++
    serve (.mutexPend 0 0 false) ++ [.intEnter, .timeTick, .tickUpdate, .intExit, .pendSv] ++
    serve (.mutexPend 0 0 false) ++ [.sched, .pendSv]

theorem prio_isLeast_two :
    ∃ c₀ c : Cpu (Fin 5) (Fin 1) (Fin 1), boot 0 100 twoTasks = some (.ok c₀) ∧
      Runs Cpu.step Enabled c₀ raisePrio c ∧ c.os.tcb.basePrio 2 = 20 ∧ c.os.tcb.prio 2 = 10 ∧
      IsLeast (insert 20 (c.os.tcb.prio '' { w | ∃ m, c.os.pendList.objPtr w = some (.inr m) ∧
        c.os.mutex.ownerTcbPtr m = some 2 })) 10 := by
  obtain ⟨c₀, ⟨c₁, booted, same⟩, calmly⟩ := exists_reached
    (P := fun c₀ : Cpu (Fin 5) (Fin 1) (Fin 1) =>
      (execute Cpu.step (fun c a => c.Enabled a ∧ c.Calm a) c₀ raisePrio).any
        (fun c => decide (c.os.tcb.basePrio 2 = 20 ∧ c.os.tcb.prio 2 = 10)) = true)
    (by decide : (after 0 100 twoTasks []).any _ = true)
  obtain rfl : c₁ = c₀ := (Runs.start : Runs Cpu.step Enabled c₁ [] c₁).unique same
  obtain ⟨c, run, base, prio⟩ := exists_run calmly
  have least := prio_isLeast (by decide) booted run 2
  rw [base, prio] at least
  exact ⟨c₁, c, booted, run.weaken fun _ _ may => may.1, base, prio, least⟩

/-- The first task owns the mutex and waits for a time, the second one waits for the mutex, and a
    third one gives the second one a lower priority. -/
def lowerWaiter : List (Action (Fin 5) (Fin 1) (Fin 1)) :=
  serve (.mutexCreate 0) ++ serve (.mutexPend 0 0 false) ++ serve (.timeDly 9 .dly) ++
    [.sched, .pendSv] ++ serve (.mutexPend 0 0 false) ++ [.sched, .pendSv] ++
    serve (.taskChangePrio 2 25)

-- the owner is given the low priority too, although its own one is more urgent
example : (after 0 100 twoTasks lowerWaiter).map
    (fun c => (c.os.tcb.basePrio 1, c.os.tcb.prio 1)) = some (10, 25) := by decide

/-! ## The lists -/

/-- The pointers of the kernel make up lists, and each task stands in those that its state tells:
    of the ready ones in that of its priority, of the waiting ones in that of the object it pends
    for, in the order of priorities, and in the tick list, where the differences count, if it waits
    for a time. -/
theorem lists_of_states (once : (idle :: tasks.map Prod.fst).Nodup)
    (reached : Reached idle tenth tasks as c) :
    ∃ s, c.os.Seated s ∧ Tck c.os.tickList s.now s.due s.timed := by
  obtain ⟨s, held, good⟩ := reached.good once
  exact ⟨s, good.toSeated, good.tck⟩

theorem lists_of_states_two :
    ∃ c : Cpu (Fin 5) (Fin 1) (Fin 1), Reached 0 100 twoTasks (waitForSignal 5) c ∧
      c.os.tcb.taskState 1 = .pendTimeout ∧
      ∃ s, c.os.Seated s ∧ Tck c.os.tickList s.now s.due s.timed := by
  obtain ⟨c, reached, state⟩ := exists_reached
    (P := fun c => c.os.tcb.taskState 1 = .pendTimeout)
    (by decide : (after 0 100 twoTasks (waitForSignal 5)).any _ = true)
  exact ⟨c, reached, state, lists_of_states (by decide) reached⟩

/-! ## Semaphores and mutexes -/

/-- No task waits for what it could have: a semaphore that has a waiting task is at zero, and a
    mutex that has one is owned by another task, which has not been deleted. -/
theorem waits_for_taken (once : (idle :: tasks.map Prod.fst).Nodup)
    (reached : Reached idle tenth tasks as c) :
    (∀ t x, c.os.pendList.objPtr t = some (.inl x) →
      c.os.sem.type x = true ∧ c.os.sem.ctr x = 0) ∧
      ∀ t m, c.os.pendList.objPtr t = some (.inr m) →
        ∃ o, c.os.mutex.ownerTcbPtr m = some o ∧ o ≠ t ∧ c.os.tcb.taskState o ≠ .del := by
  obtain ⟨s, held, good⟩ := reached.good once
  refine ⟨good.sems, ?_⟩
  intro t m waits
  obtain ⟨o, owner, other, member⟩ := good.owned.busy t m waits
  exact ⟨o, owner, other, good.alive o (List.ne_nil_of_mem member)⟩

theorem waits_for_taken_two :
    ∃ c : Cpu (Fin 5) (Fin 1) (Fin 1), Reached 0 100 twoTasks raisePrio c ∧
      ∃ o, c.os.mutex.ownerTcbPtr 0 = some o ∧ o ≠ 1 ∧ c.os.tcb.taskState o ≠ .del := by
  obtain ⟨c, reached, waits⟩ := exists_reached
    (P := fun c => c.os.pendList.objPtr 1 = some (.inr 0))
    (by decide : (after 0 100 twoTasks raisePrio).any _ = true)
  exact ⟨c, reached, (waits_for_taken (by decide) reached).2 1 0 waits⟩

/-- The group of a task lists the mutexes that it owns, and a mutex is nested as long as it has an
    owner. -/
theorem groups_of_owners (once : (idle :: tasks.map Prod.fst).Nodup)
    (reached : Reached idle tenth tasks as c) :
    ∃ held : ι → List μ,
      (∀ t, Points c.os.mutex.grpNextPtr (c.os.tcb.mutexGrpHeadPtr t) (held t)) ∧
      (∀ t m, m ∈ held t ↔ c.os.mutex.ownerTcbPtr m = some t) ∧
      ∀ m, c.os.mutex.ownerNestingCtr m = 0 ↔ c.os.mutex.ownerTcbPtr m = none := by
  obtain ⟨s, held, good⟩ := reached.good once
  exact ⟨held, good.owned.group, fun t m => ⟨good.owned.owner t m, good.owns t m⟩, good.nesting⟩

theorem groups_of_owners_two :
    ∃ c : Cpu (Fin 5) (Fin 1) (Fin 1), Reached 0 100 twoTasks raisePrio c ∧
      ∃ held : Fin 5 → List (Fin 1), 0 ∈ held 2 ∧
        Points c.os.mutex.grpNextPtr (c.os.tcb.mutexGrpHeadPtr 2) (held 2) := by
  obtain ⟨c, reached, owner⟩ := exists_reached
    (P := fun c => c.os.mutex.ownerTcbPtr 0 = some 2)
    (by decide : (after 0 100 twoTasks raisePrio).any _ = true)
  obtain ⟨held, group, owned, -⟩ := groups_of_owners (by decide) reached
  exact ⟨c, reached, held, (owned 2 0).mpr owner, group 2⟩

/-! ## Timeouts -/

/-- The action may come next, and the task waits for a time. -/
def Waiting (t : ι) (c : Cpu ι σ μ) (a : Action ι σ μ) : Prop :=
  c.Enabled a ∧ (c.os.tcb.taskState t).timed = true

instance (t : ι) (c : Cpu ι σ μ) (a : Action ι σ μ) : Decidable (Waiting t c a) := by
  unfold Waiting
  infer_instance

theorem Good.waits {d : Nat} (good : c.Good s held False)
    (deadline : (c.os.tcb.taskState t).timed = true → s.due t = d)
    (run : Runs Cpu.step (Waiting t) c as c') :
    ∃ s' held', c'.Good s' held' False ∧ s'.now = s.now + as.count .tickUpdate ∧
      ((c'.os.tcb.taskState t).timed = true → s'.due t = d) := by
  induction run with
  | start => exact ⟨s, held, good, by simp, deadline⟩
  | @next as c₁ a c₂ _ waiting moved ih =>
      obtain ⟨s₁, held₁, good₁, now₁, due₁⟩ := ih
      obtain ⟨s₂, held₂, good₂, passed⟩ := good₁.moves waiting.1 moved
      refine ⟨s₂, held₂, good₂, ?_, ?_⟩
      · have counted : (as ++ [a]).count .tickUpdate = as.count .tickUpdate + ticks a := by
          rw [List.count_append]
          cases a <;> rfl
        rw [passed.now, now₁, counted, Nat.add_assoc]
      · intro still
        rw [passed.due t ((good₁.timed t).mpr waiting.2) ((good₂.timed t).mpr still)]
        exact due₁ waiting.2

/-- A wait that is not ended otherwise ends at the tick that the timeout tells, counted from the
    critical section of the call, and at no other one. -/
theorem tick_ends_wait {call : Call ι σ μ} {d : Nat} {bs : List (Action ι σ μ)}
    (once : (idle :: tasks.map Prod.fst).Nodup) (reached : Reached idle tenth tasks as c)
    (enabled : c.Enabled (.critical call)) (task : c.os.sched.intNestingCtr = 0)
    (timeout : call.timeout = some d) (positive : 0 < d)
    (called : c.step (.critical call) = some c₁)
    (run : Runs Cpu.step (Waiting c.os.sched.tcbCur) c₁ bs c₂)
    (waiting : Waiting c.os.sched.tcbCur c₂ .tickUpdate)
    (ticked : c₂.step .tickUpdate = some c₃) :
    (c₃.os.tcb.taskState c.os.sched.tcbCur).timed = true ↔ bs.count .tickUpdate + 1 < d := by
  obtain ⟨s, held, good⟩ := reached.good once
  obtain ⟨s₁, held₁, good₁, passed₁⟩ := good.moves enabled called
  obtain ⟨s₂, held₂, good₂, now₂, due₂⟩ :=
    good₁.waits (passed₁.deadline call d rfl task timeout positive) run
  obtain ⟨s₃, held₃, good₃, passed₃⟩ := good₂.moves waiting.1 ticked
  have now₁ : s₁.now = s.now := passed₁.now
  rw [← good₃.timed, passed₃.expired rfl, good₂.timed, due₂ waiting.2, now₂, now₁]
  simp only [waiting.2, true_and]
  omega

/-- The first task has made the tests of a call. -/
def beforePend : List (Action (Fin 5) (Fin 1) (Fin 1)) :=
  serve (.semCreate 0 0) ++ [.call (.semPend 0 2 false)]

/-- The running task pends, another one takes over, and the first of two ticks passes. -/
def untilTick : List (Action (Fin 5) (Fin 1) (Fin 1)) :=
  [.sched, .pendSv, .intEnter, .timeTick, .tickUpdate, .timeTick]

theorem tick_ends_wait_two :
    ∃ c c₁ c₂ c₃ : Cpu (Fin 5) (Fin 1) (Fin 1),
      Reached 0 100 twoTasks beforePend c ∧
      c.step (.critical (.semPend 0 2 false)) = some c₁ ∧
      Runs Cpu.step (Waiting 1) c₁ untilTick c₂ ∧
      c₂.step .tickUpdate = some c₃ ∧ (c₃.os.tcb.taskState 1).timed = false := by
  obtain ⟨c, reached, enabled, task, running, more⟩ := exists_reached
    (P := fun c => c.Enabled (.critical (.semPend 0 2 false)) ∧ c.os.sched.intNestingCtr = 0 ∧
      c.os.sched.tcbCur = 1 ∧ (c.step (.critical (.semPend 0 2 false))).any (fun c₁ =>
        (execute Cpu.step (Waiting 1) c₁ untilTick).any fun c₂ =>
          decide (Waiting 1 c₂ .tickUpdate ∧ (c₂.step .tickUpdate).isSome = true)) = true)
    (by decide : (after 0 100 twoTasks beforePend).any _ = true)
  obtain ⟨c₁, called, more⟩ := (Option.any_eq_true ..).mp more
  obtain ⟨c₂, run, waiting, done⟩ := exists_run more
  obtain ⟨c₃, ticked⟩ := Option.isSome_iff_exists.mp done
  rw [← running] at run waiting
  have ends := tick_ends_wait (by decide) reached enabled task rfl (by decide) called run waiting
    ticked
  rw [running] at ends run
  refine ⟨c, c₁, c₂, c₃, reached, called, run, ticked, ?_⟩
  simpa [untilTick] using ends

end Cpu

end ExploreF407.Kernel
