import ExploreF407.Kernel.Cpu

/-! # What every step of the processor keeps

Whatever tasks and interrupts do in whatever order, no function follows a null
pointer and every loop ends, and the kernel comes to a state with its invariant.
-/

namespace ExploreF407.Kernel

open Linked Urgency Inherit

variable {ι σ μ : Type} [DecidableEq ι] [DecidableEq σ] [DecidableEq μ]

namespace Os

variable {os os' : Os ι σ μ} {s s' : Lists ι (σ ⊕ μ)} {held held' : ι → List μ} {t r : ι}
  {calm : Prop}

section Critical

variable [Fintype ι] [Fintype μ]

/-- Every critical section is done, and with a timeout the caller waits until it has passed. -/
theorem Inv.critical {call : Call ι σ μ} (inv : os.Inv s held calm) (ready : os.CallerReady)
    (notIdle : os.sched.intNestingCtr = 0 → os.sched.tcbCur ≠ os.sched.idleTask)
    (fit : os.sched.intNestingCtr = 0 → call.Fit os.sched.idleTask os.sched.lockNestingCtr)
    (fromIsr : 0 < os.sched.intNestingCtr → call.fromIsr = true) (proper : call.Proper os)
    (gentle : calm → call.Gentle os) :
    ∃ r s' held', os.critical call = some r ∧ os.Keeps s call.noSched r s' held' calm ∧
      ∀ timeout ∈ call.timeout, r.sched = true → 0 < timeout →
        os.sched.tcbCur ∈ s'.timed ∧ s'.due os.sched.tcbCur = s.now + timeout := by
  obtain ⟨small, sem, mutex, fresh⟩ := proper
  have task : call.fromIsr = false → os.sched.intNestingCtr = 0 := by
    intro no
    by_contra isr
    cases no.symm.trans (fromIsr (Nat.pos_of_ne_zero isr))
  have untimed : ∀ {r : Option (Served ι σ μ)},
      (∃ r' s' held', r = some r' ∧ os.Keeps s call.noSched r' s' held' calm) →
      call.timeout = none →
      ∃ r' s' held', r = some r' ∧ os.Keeps s call.noSched r' s' held' calm ∧
        ∀ timeout ∈ call.timeout, r'.sched = true → 0 < timeout →
          os.sched.tcbCur ∈ s'.timed ∧ s'.due os.sched.tcbCur = s.now + timeout := by
    rintro r ⟨r', s', held', done, keeps⟩ none'
    refine ⟨r', s', held', done, keeps, ?_⟩
    simp [none']
  cases call with
  | schedLock => exact untimed (inv.schedLock ready (task rfl) (fit (task rfl))) rfl
  | schedUnlock => exact untimed (inv.schedUnlock ready (task rfl)) rfl
  | schedRoundRobinCfg en dfltTimeQuanta tenth =>
      exact untimed (inv.schedRoundRobinCfg ready en dfltTimeQuanta tenth) rfl
  | schedRoundRobinYield => exact untimed (inv.schedRoundRobinYield ready) rfl
  | semCreate x cnt => exact untimed (inv.semCreate ready x cnt) rfl
  | semDel x always => exact untimed (inv.semDel ready x always) rfl
  | semPend x timeout nonBlocking =>
      obtain ⟨r, s', held', done, keeps, deadline⟩ :=
        inv.semPend ready notIdle (sem x rfl) (small timeout rfl) fromIsr
      refine ⟨r, s', held', done, keeps, ?_⟩
      rintro _ ⟨⟩
      exact deadline
  | semPendAbort x all noSched => exact untimed (inv.semPendAbort ready x all) rfl
  | semPost x all noSched => exact untimed (inv.semPost ready x all) rfl
  | semSet x cnt => exact untimed (inv.semSet ready x cnt) rfl
  | taskSemPend timeout nonBlocking =>
      obtain ⟨r, s', held', done, keeps, deadline⟩ :=
        inv.taskSemPend ready (task rfl) (notIdle (task rfl)) (small timeout rfl) nonBlocking
      refine ⟨r, s', held', done, keeps, ?_⟩
      rintro _ ⟨⟩
      exact deadline
  | taskSemPost t noSched => exact untimed (inv.taskSemPost ready t) rfl
  | taskSemPendAbort t noSched => exact untimed (inv.taskSemPendAbort ready gentle) rfl
  | taskSemSet t cnt => exact untimed (inv.taskSemSet ready t cnt) rfl
  | timeDly dly opt =>
      obtain ⟨r, s', held', done, keeps, deadline⟩ :=
        inv.timeDly ready (task rfl) (fit (task rfl)) (notIdle (task rfl)) dly opt
      refine ⟨r, s', held', done, keeps, ?_⟩
      intro timeout member yields _
      cases opt <;>
        simp only [Call.timeout, Option.mem_def, Option.some.injEq, reduceCtorEq] at member
      · subst member
        exact deadline yields (.inl rfl) (small _ rfl)
      · subst member
        exact deadline yields (.inr rfl) (small _ rfl)
  | timeDlyResume t => exact untimed (inv.timeDlyResume ready t) rfl
  | taskCreate t prio timeQuanta =>
      exact untimed (inv.taskCreate fresh ready (fit (task rfl)) timeQuanta) rfl
  | taskSuspend t => exact untimed (inv.taskSuspend ready (task rfl) (fit (task rfl))) rfl
  | taskResume t => exact untimed (inv.taskResume ready t) rfl
  | taskChangePrio t prioNew =>
      exact untimed (inv.taskChangePrio ready (fresh t rfl) (fit (task rfl)) gentle) rfl
  | mutexCreate m => exact untimed (inv.mutexCreate ready m) rfl
  | mutexDel m always => exact untimed (inv.mutexDel ready gentle always) rfl
  | mutexPend m timeout nonBlocking =>
      obtain ⟨r, s', held', done, keeps, deadline⟩ :=
        inv.mutexPend ready (task rfl) (notIdle (task rfl)) (mutex m rfl) (small timeout rfl)
          nonBlocking
      refine ⟨r, s', held', done, keeps, ?_⟩
      rintro _ ⟨⟩
      exact deadline
  | mutexPendAbort m all noSched => exact untimed (inv.mutexPendAbort ready gentle all noSched) rfl
  | mutexPost m noSched => exact untimed (inv.mutexPost ready (task rfl) m noSched) rfl

end Critical

omit [DecidableEq ι] [DecidableEq σ] [DecidableEq μ] in
theorem Inv.highRdy (inv : os.Inv s held calm) :
    ∃ t, Kernel.highRdy os.rdyList = some t ∧ os.tcb.taskState t = .rdy ∧
      ∀ r, os.tcb.taskState r = .rdy → os.tcb.prio t ≤ os.tcb.prio r := by
  have listed : ∀ r, os.tcb.taskState r = .rdy → r ∈ s.ready (os.tcb.prio r) :=
    fun r ready => ((inv.placed r).ready _).mpr ⟨ready, rfl⟩
  have some' : s.ready (os.tcb.prio os.sched.idleTask) ≠ [] :=
    List.ne_nil_of_mem (listed _ inv.idle)
  obtain ⟨⟨filled, least⟩, head⟩ := inv.rdy.highRdy_eq some'
  obtain ⟨t, rest, here⟩ := List.exists_cons_of_ne_nil filled
  have member : t ∈ s.ready (osPrioGetHighest os.rdyList.prioTbl) := by simp [here]
  obtain ⟨ready, prio⟩ := ((inv.placed t).ready _).mp member
  refine ⟨t, by rw [head, here]; rfl, ready, ?_⟩
  intro r readyR
  exact prio.trans_le (least (List.ne_nil_of_mem (listed r readyR)))

omit [DecidableEq σ] [DecidableEq μ] in
theorem Inv.choose (inv : os.Inv s held calm) :
    ∃ t, os.choose = some { os with
        sched.prioHighRdy := osPrioGetHighest os.rdyList.prioTbl
        sched.tcbHighRdy := t
        sched.pendSv := os.sched.pendSv || decide (t ≠ os.sched.tcbCur) } ∧
      os.tcb.taskState t = .rdy ∧
      ∀ r, os.tcb.taskState r = .rdy → os.tcb.prio t ≤ os.tcb.prio r := by
  obtain ⟨t, head, ready, urgent⟩ := inv.highRdy
  refine ⟨t, ?_, ready, urgent⟩
  simp only [Os.choose, head, Option.map_some]

end Os

namespace Cpu

open Os

variable {c c' : Cpu ι σ μ} {s s' : Lists ι (σ ⊕ μ)} {held held' : ι → List μ} {t : ι}
  {calm : Prop} {a : Action ι σ μ}

structure Urgent (os : Os ι σ μ) (t : ι) : Prop where
  ready : os.tcb.taskState t = .rdy
  least : ∀ r, os.tcb.taskState r = .rdy → os.tcb.prio t ≤ os.tcb.prio r

/-- What the tests of a call have found holds until its critical section. -/
structure Entered (c : Cpu ι σ μ) : Prop where
  task : ∀ t call, c.task t = .entered call → t ≠ c.os.sched.idleTask ∧
    call.Fit c.os.sched.idleTask
      (if t = c.os.sched.tcbCur then c.os.sched.lockNestingCtr else 0)
  isr : ∀ n call, c.isr n = .entered call → call.fromIsr = true

/-- What holds of the processor between two steps. -/
structure Good (c : Cpu ι σ μ) (s : Lists ι (σ ⊕ μ)) (held : ι → List μ) (calm : Prop) : Prop
    extends c.os.Inv s held calm where
  entered : c.Entered
  few : c.os.sched.lockNestingCtr ≤ 250
  /-- The running task is ready until it calls `OSSched`. -/
  running : c.os.sched.pendSv = false → c.task c.os.sched.tcbCur ≠ .sched →
    c.os.tcb.taskState c.os.sched.tcbCur = .rdy
  locked : 0 < c.os.sched.lockNestingCtr →
    c.os.sched.pendSv = false ∧ c.os.tcb.taskState c.os.sched.tcbCur = .rdy
  switching : c.os.sched.pendSv = true → c.os.tcb.taskState c.os.sched.tcbHighRdy = .rdy
  next : c.os.sched.intNestingCtr = 0 → c.os.sched.pendSv = true → Urgent c.os c.os.sched.tcbHighRdy
  /-- The running task is as urgent as any ready one. -/
  current : c.AtTask → c.os.sched.lockNestingCtr = 0 → c.task c.os.sched.tcbCur ≠ .sched →
    c.putOff = false → Urgent c.os c.os.sched.tcbCur

def ticks : Action ι σ μ → Nat
  | .tickUpdate => 1
  | _ => 0

/-- What a step does to the deadlines of the tasks that wait for a time. -/
structure Passed (c : Cpu ι σ μ) (s : Lists ι (σ ⊕ μ)) (a : Action ι σ μ) (c' : Cpu ι σ μ)
    (s' : Lists ι (σ ⊕ μ)) : Prop where
  now : s'.now = s.now + ticks a
  due : ∀ t ∈ s.timed, t ∈ s'.timed → s'.due t = s.due t
  expired : a = .tickUpdate → ∀ t, t ∈ s'.timed ↔ t ∈ s.timed ∧ s.now + 1 < s.due t
  /-- A task that begins to wait is due when its timeout will have passed. -/
  deadline : ∀ call d, a = .critical call → c.os.sched.intNestingCtr = 0 → call.timeout = some d →
    0 < d → (c'.os.tcb.taskState c.os.sched.tcbCur).timed = true →
    s'.due c.os.sched.tcbCur = s.now + d
  /-- Only `PendSV` makes another task the running one. -/
  running : a ≠ .pendSv → c'.os.sched.tcbCur = c.os.sched.tcbCur

/-! ## Places -/

section Places

variable {os : Os ι σ μ} {place : Place ι σ μ} {putOff : Bool}

omit [DecidableEq ι] [DecidableEq σ] [DecidableEq μ] in
theorem place_isr (isr : 0 < c.os.sched.intNestingCtr) :
    c.place = c.isr c.os.sched.intNestingCtr := if_pos isr

omit [DecidableEq ι] [DecidableEq σ] [DecidableEq μ] in
theorem place_task (task : c.os.sched.intNestingCtr = 0) :
    c.place = c.task c.os.sched.tcbCur := if_neg (by omega)

omit [DecidableEq σ] [DecidableEq μ] in
theorem goOn_isr (isr : 0 < c.os.sched.intNestingCtr) :
    c.goOn os place =
      { c with os := os, isr := Function.update c.isr c.os.sched.intNestingCtr place } := if_pos isr

omit [DecidableEq σ] [DecidableEq μ] in
theorem goOn_task (task : c.os.sched.intNestingCtr = 0) :
    c.goOn os place =
      { c with os := os, task := Function.update c.task c.os.sched.tcbCur place } :=
  if_neg (by omega)

omit [DecidableEq σ] [DecidableEq μ] in
@[simp] theorem goOn_os : (c.goOn os place).os = os := by
  unfold goOn
  split <;> rfl

omit [DecidableEq σ] [DecidableEq μ] in
theorem Entered.inIsr (entered : c.Entered) (idle : os.sched.idleTask = c.os.sched.idleTask)
    (cur : os.sched.tcbCur = c.os.sched.tcbCur)
    (lock : os.sched.lockNestingCtr = c.os.sched.lockNestingCtr)
    (fromIsr : ∀ call, place = .entered call → call.fromIsr = true) (n : Nat) :
    Entered ⟨os, c.task, Function.update c.isr n place, putOff⟩ where
  task := by
    intro t call here
    simp only [idle, cur, lock]
    exact entered.task t call here
  isr := by
    intro k call here
    dsimp only at here
    by_cases same : k = n
    · subst same
      rw [Function.update_self] at here
      exact fromIsr call here
    · rw [Function.update_of_ne same] at here
      exact entered.isr k call here

omit [DecidableEq σ] [DecidableEq μ] in
theorem Entered.atTask (entered : c.Entered) (idle : os.sched.idleTask = c.os.sched.idleTask)
    (cur : os.sched.tcbCur = c.os.sched.tcbCur)
    (fits : ∀ call, place = .entered call → c.os.sched.tcbCur ≠ c.os.sched.idleTask ∧
      call.Fit c.os.sched.idleTask os.sched.lockNestingCtr) :
    Entered ⟨os, Function.update c.task c.os.sched.tcbCur place, c.isr, putOff⟩ where
  task := by
    intro t call here
    dsimp only at here
    simp only [idle, cur]
    by_cases same : t = c.os.sched.tcbCur
    · subst same
      rw [Function.update_self] at here
      rw [if_pos rfl]
      exact fits call here
    · rw [Function.update_of_ne same] at here
      have kept := entered.task t call here
      rw [if_neg same] at kept ⊢
      exact kept
  isr := entered.isr

end Places

/-- What the services that an interrupt calls do not change. -/
structure Interrupted (os os' : Os ι σ μ) : Prop where
  idleTask : os'.sched.idleTask = os.sched.idleTask
  tcbCur : os'.sched.tcbCur = os.sched.tcbCur
  tcbHighRdy : os'.sched.tcbHighRdy = os.sched.tcbHighRdy
  pendSv : os'.sched.pendSv = os.sched.pendSv
  nesting : os'.sched.intNestingCtr = os.sched.intNestingCtr
  lock : os'.sched.lockNestingCtr = os.sched.lockNestingCtr
  ready : ∀ t, os.tcb.taskState t = .rdy → os'.tcb.taskState t = .rdy

omit [DecidableEq ι] [DecidableEq σ] [DecidableEq μ] in
theorem interrupted_of_woke {os os' : Os ι σ μ} (woke : os.Woke s os' s') :
    Interrupted os os' := by
  constructor <;> first | rw [woke.sched] | exact woke.ready

omit [DecidableEq σ] [DecidableEq μ] in
theorem Good.inIsr {os' : Os ι σ μ} {place : Place ι σ μ} (good : c.Good s held calm)
    (isr : 0 < c.os.sched.intNestingCtr) (inv : os'.Inv s' held' calm)
    (same : Interrupted c.os os') (fromIsr : ∀ call, place = .entered call → call.fromIsr = true)
    (putOff : Bool) :
    Good ⟨os', c.task, Function.update c.isr c.os.sched.intNestingCtr place, putOff⟩ s' held'
      calm := by
  have nested : os'.sched.intNestingCtr ≠ 0 := by
    rw [same.nesting]
    omega
  refine { inv with
    entered := good.entered.inIsr same.idleTask same.tcbCur same.lock fromIsr _
    few := ?_, running := ?_, locked := ?_, switching := ?_, next := ?_, current := ?_ }
  · simp only [same.lock]
    exact good.few
  · intro idle before
    simp only [same.tcbCur, same.pendSv] at idle before ⊢
    exact same.ready _ (good.running idle before)
  · intro more
    simp only [same.lock] at more
    simp only [same.tcbCur, same.pendSv]
    exact ⟨(good.locked more).1, same.ready _ (good.locked more).2⟩
  · intro pending
    simp only [same.tcbHighRdy, same.pendSv] at pending ⊢
    exact same.ready _ (good.switching pending)
  · exact fun task => absurd task nested
  · exact fun task => absurd task.1 nested

/-! ## Steps -/

variable [Fintype ι] [Fintype μ]

omit [DecidableEq σ] [DecidableEq μ] [Fintype ι] [Fintype μ] in
theorem Good.timed (good : c.Good s held calm) (t : ι) :
    t ∈ s.timed ↔ (c.os.tcb.taskState t).timed = true := (good.placed t).timed

omit [DecidableEq ι] [DecidableEq σ] [DecidableEq μ] [Fintype ι] [Fintype μ] in
theorem passed_of_same (times : s.SameTimes s') (quiet : ticks a = 0)
    (notCritical : ∀ call, a ≠ .critical call)
    (running : a ≠ .pendSv → c'.os.sched.tcbCur = c.os.sched.tcbCur) : Passed c s a c' s' := by
  refine ⟨by rw [quiet, times.now]; rfl, fun t _ _ => by rw [times.due], ?_, ?_, running⟩
  · rintro rfl
    cases quiet
  · exact fun call _ same => absurd same (notCritical call)

omit [DecidableEq σ] [DecidableEq μ] [Fintype ι] [Fintype μ] in
/-- A caller that has passed the tests waits at the critical section. -/
theorem Good.call {call : Call ι σ μ} (good : c.Good s held calm)
    (enabled : c.Enabled (.call call)) {place : Place ι σ μ}
    (goesOn : place = if c.os.entry call = .none then .entered call else .calls) :
    (c.goOn c.os place).Good s held calm := by
  obtain ⟨level, here, -⟩ := enabled
  have passes : ∀ call', place = .entered call' → c.os.entry call' = .none := by
    rintro call' rfl
    split_ifs at goesOn with tests
    obtain rfl := Place.entered.inj goesOn
    exact tests
  by_cases isr : 0 < c.os.sched.intNestingCtr
  · rw [goOn_isr isr]
    exact good.inIsr isr good.toInv ⟨rfl, rfl, rfl, rfl, rfl, rfl, fun _ => id⟩
      (fun call' same => entry_fromIsr (passes call' same) isr) c.putOff
  · obtain ⟨⟨task, idle⟩, other⟩ := level.resolve_left isr
    rw [place_task task] at here
    have before : c.task c.os.sched.tcbCur ≠ .sched := by simp [here]
    rw [goOn_task task]
    refine { good.toInv with
      entered := good.entered.atTask rfl rfl ?_
      few := good.few, running := fun _ _ => good.running idle before, locked := good.locked
      switching := good.switching, next := good.next
      current := fun atTask unlocked _ => good.current atTask unlocked before }
    exact fun call' same => ⟨other, entry_fit (passes call' same) task⟩

theorem Good.critical {call : Call ι σ μ} (good : c.Good s held calm)
    (enabled : c.Enabled (.critical call)) (calmly : calm → c.Calm (.critical call)) :
    ∃ c' s' held', c.step (.critical call) = some c' ∧ c'.Good s' held' calm ∧
      Passed c s (.critical call) c' s' := by
  obtain ⟨level, here, proper, -⟩ := enabled
  have atTask : c.os.sched.intNestingCtr = 0 → c.AtTask ∧
      c.task c.os.sched.tcbCur = .entered call := by
    intro task
    refine ⟨level.resolve_left (by omega), ?_⟩
    rwa [place_task task] at here
  have fit : c.os.sched.intNestingCtr = 0 → c.os.sched.tcbCur ≠ c.os.sched.idleTask ∧
      call.Fit c.os.sched.idleTask c.os.sched.lockNestingCtr := by
    intro task
    simpa only [if_true] using good.entered.task _ call (atTask task).2
  have fromIsr : 0 < c.os.sched.intNestingCtr → call.fromIsr = true := by
    intro isr
    rw [place_isr isr] at here
    exact good.entered.isr _ call here
  have before : c.os.sched.intNestingCtr = 0 → c.task c.os.sched.tcbCur ≠ .sched := by
    intro task
    simp [(atTask task).2]
  have ready : c.os.CallerReady := fun task =>
    good.running (atTask task).1.2 (before task)
  obtain ⟨r, s', held', done, keeps, deadline⟩ := good.toInv.critical ready
    (fun task => (fit task).1) (fun task => (fit task).2) fromIsr proper calmly
  simp only [Cpu.step, done, Option.map_some]
  refine ⟨_, s', held', rfl, ?_, ?_⟩
  · by_cases isr : 0 < c.os.sched.intNestingCtr
    · rw [goOn_isr isr]
      obtain ⟨lock, kept⟩ := keeps.isr isr
      refine good.inIsr isr keeps.inv ⟨keeps.idleTask, keeps.tcbCur, keeps.tcbHighRdy,
        keeps.pendSv, keeps.nesting, lock, kept⟩ ?_ _
      intro call' same
      split_ifs at same
    · have task := Nat.eq_zero_of_not_pos isr
      obtain ⟨⟨-, idle⟩, -⟩ := atTask task
      have idle' : r.os.sched.pendSv = false := keeps.pendSv.trans idle
      have stays : r.os.sched.pendSv ≠ true := by simp [idle']
      rw [goOn_task task]
      refine { keeps.inv with
        entered := good.entered.atTask keeps.idleTask keeps.tcbCur ?_
        few := ?_, running := ?_, locked := ?_, switching := ?_, next := ?_, current := ?_ }
      · intro call' same
        split_ifs at same
      · exact keeps.lock.trans (max_le good.few le_rfl)
      · intro _ after
        simp only [keeps.tcbCur, Function.update_self] at after ⊢
        refine (keeps.caller task).resolve_right ?_
        rintro ⟨yields, -⟩
        simp [yields, task] at after
      · intro more
        refine ⟨idle', ?_⟩
        simp only [keeps.tcbCur]
        refine (keeps.caller task).resolve_right ?_
        rintro ⟨-, unlocked⟩
        exact more.ne' unlocked
      · exact fun pending => absurd pending stays
      · exact fun _ pending => absurd pending stays
      · intro _ unlocked after prompt
        simp only [keeps.tcbCur, Function.update_self, Bool.or_eq_false_iff]
          at unlocked after prompt ⊢
        have quiet : r.sched = false := by
          by_contra yields
          simp [yields, task] at after
        obtain putOff | locked | ⟨lock, state, prio⟩ := keeps.quiet quiet
        · simp [putOff] at prompt
        · omega
        · rw [lock] at unlocked
          have urgent := good.current ⟨task, idle⟩ unlocked (before task) prompt.1
          exact ⟨by rw [state]; exact urgent.ready, by rw [state, prio]; exact urgent.least⟩
  · refine ⟨keeps.now, keeps.due, by simp, ?_, fun _ => by simpa using keeps.tcbCur⟩
    rintro _ d ⟨⟩ task timeout some' timed
    simp only [goOn_os] at timed
    refine (deadline d timeout ?_ some').2
    obtain state | ⟨yields, -⟩ := keeps.caller task
    · simp [state, TaskState.timed] at timed
    · exact yields

omit [DecidableEq σ] [DecidableEq μ] [Fintype ι] [Fintype μ] in
theorem good_of_choose {os : Os ι σ μ} (inv : os.Inv s held calm)
    (unlocked : os.sched.lockNestingCtr = 0) :
    ∃ os', os.choose = some os' ∧ os'.sched.tcbCur = os.sched.tcbCur ∧
      ∀ task isr putOff, Entered ⟨os, task, isr, putOff⟩ →
        ∀ later, Good ⟨os', task, isr, later⟩ s held calm := by
  obtain ⟨t, chose, ready, urgent⟩ := inv.choose
  have stays : (os.sched.pendSv || decide (t ≠ os.sched.tcbCur)) = false → t = os.sched.tcbCur := by
    simp
  let os' : Os ι σ μ := { os with
    sched.prioHighRdy := osPrioGetHighest os.rdyList.prioTbl
    sched.tcbHighRdy := t
    sched.pendSv := os.sched.pendSv || decide (t ≠ os.sched.tcbCur) }
  have inv' : os'.Inv s held calm := inv.frame rfl rfl rfl rfl rfl rfl rfl
  refine ⟨os', chose, rfl, ?_⟩
  intro task isr putOff entered later
  refine { inv' with
    entered := ⟨entered.task, entered.isr⟩, few := unlocked.le.trans (Nat.zero_le _)
    running := ?_, locked := ?_, switching := ?_, next := ?_, current := ?_ }
  · exact fun idle _ => (congrArg os.tcb.taskState (stays idle)).symm.trans ready
  · exact fun more => absurd unlocked more.ne'
  · exact fun _ => ready
  · exact fun _ _ => ⟨ready, urgent⟩
  · intro atTask _ _ _
    have same := stays atTask.2
    exact ⟨(congrArg os.tcb.taskState same).symm.trans ready,
      fun r readyR => (congrArg os.tcb.prio same).symm.le.trans (urgent r readyR)⟩

theorem Good.step (good : c.Good s held calm) (enabled : c.Enabled a) (calmly : calm → c.Calm a) :
    ∃ c' s' held', c.step a = some c' ∧ c'.Good s' held' calm ∧ Passed c s a c' s' := by
  have still : s.SameTimes s := ⟨rfl, rfl, rfl⟩
  cases a with
  | call call =>
      exact ⟨_, s, held, rfl, good.call enabled rfl,
        passed_of_same still rfl (by simp) fun _ => by rw [goOn_os]⟩
  | critical call => exact good.critical enabled calmly
  | sched =>
      obtain ⟨⟨task, idle⟩, -⟩ := enabled
      have notIsr : ¬ 0 < c.os.sched.intNestingCtr := by omega
      have entered : Entered ⟨c.os, Function.update c.task c.os.sched.tcbCur .calls, c.isr,
          c.putOff⟩ := good.entered.atTask rfl rfl (by simp)
      simp only [Cpu.step, osSched, if_neg notIsr, goOn_task task]
      by_cases locked : 0 < c.os.sched.lockNestingCtr
      · rw [if_pos locked]
        refine ⟨_, s, held, rfl, ?_, passed_of_same still rfl (by simp) fun _ => rfl⟩
        have ready := (good.locked locked).2
        refine { good.toInv with
          entered := ⟨entered.task, entered.isr⟩, few := good.few
          running := fun _ _ => ready, locked := good.locked, switching := good.switching
          next := good.next, current := ?_ }
        exact fun _ unlocked => absurd unlocked locked.ne'
      · rw [if_neg locked]
        obtain ⟨os', chose, same, good'⟩ := good_of_choose good.toInv (by omega)
        exact ⟨_, s, held, by rw [chose]; rfl, good' _ _ _ entered _,
          passed_of_same still rfl (by simp) fun _ => same⟩
  | intEnter =>
      have small : ¬ 250 ≤ c.os.sched.intNestingCtr := not_le.mpr enabled
      let os' : Os ι σ μ := { c.os with sched.intNestingCtr := c.os.sched.intNestingCtr + 1 }
      have inv' : os'.Inv s held calm := good.toInv.frame rfl rfl rfl rfl rfl rfl rfl
      have nested : c.os.intEnter = os' := if_neg small
      have idle : os'.sched.idleTask = c.os.sched.idleTask := rfl
      have entered : Entered ⟨os', c.task,
          Function.update c.isr (c.os.sched.intNestingCtr + 1) .calls, c.putOff⟩ :=
        good.entered.inIsr idle rfl rfl (fun _ same => by cases same) _
      simp only [Cpu.step, nested]
      refine ⟨_, s, held, rfl, ?_, passed_of_same still rfl (by simp) fun _ => rfl⟩
      exact { inv' with
        entered := entered, few := good.few
        running := good.running, locked := good.locked, switching := good.switching
        next := fun task => absurd task (Nat.succ_ne_zero _)
        current := fun task => absurd task.1 (Nat.succ_ne_zero _) }
  | intExit =>
      have nested : ¬ c.os.sched.intNestingCtr = 0 := Nat.pos_iff_ne_zero.mp enabled.1
      let os₁ : Os ι σ μ := { c.os with sched.intNestingCtr := c.os.sched.intNestingCtr - 1 }
      have inv₁ : os₁.Inv s held calm := good.toInv.frame rfl rfl rfl rfl rfl rfl rfl
      have entered : Entered ⟨os₁, c.task, c.isr, c.putOff⟩ :=
        ⟨good.entered.task, good.entered.isr⟩
      -- without a choice, the interrupts are still nested or the scheduler is locked
      have stays : 0 < os₁.sched.intNestingCtr ∨ 0 < c.os.sched.lockNestingCtr →
          (c.chosen os₁).Good s held calm := by
        intro either
        refine { inv₁ with
          entered := ⟨entered.task, entered.isr⟩, few := good.few
          running := good.running, locked := good.locked, switching := good.switching
          next := ?_, current := ?_ }
        · intro task pending
          obtain more | locked := either
          · exact absurd task more.ne'
          · have idle := (good.locked locked).1
            cases idle.symm.trans pending
        · intro task unlocked
          obtain more | locked := either
          · exact absurd task.1 more.ne'
          · exact absurd unlocked locked.ne'
      simp only [Cpu.step, intExit, if_neg nested]
      by_cases more : 0 < c.os.sched.intNestingCtr - 1
      · exact ⟨_, s, held, by rw [if_pos more]; rfl, stays (.inl more),
          passed_of_same still rfl (by simp) fun _ => rfl⟩
      rw [if_neg more]
      by_cases locked : 0 < c.os.sched.lockNestingCtr
      · exact ⟨_, s, held, by rw [if_pos locked]; rfl, stays (.inr locked),
          passed_of_same still rfl (by simp) fun _ => rfl⟩
      · rw [if_neg locked]
        have unlocked : os₁.sched.lockNestingCtr = 0 := Nat.eq_zero_of_not_pos locked
        obtain ⟨os', chose, same, good'⟩ := good_of_choose inv₁ unlocked
        exact ⟨_, s, held, congrArg (Option.map c.chosen) chose, good' _ _ _ entered _,
          passed_of_same still rfl (by simp) fun _ => same⟩
  | timeTick =>
      refine ⟨_, s, held, rfl, ?_, passed_of_same still rfl (by simp) fun _ => by rw [goOn_os]⟩
      rw [goOn_isr enabled.1]
      refine good.inIsr enabled.1 good.toInv ⟨rfl, rfl, rfl, rfl, rfl, rfl, fun _ => id⟩ ?_ c.putOff
      intro call same
      split_ifs at same
  | roundRobin prio =>
      obtain ⟨os', s', rotated, inv', woke, times⟩ := good.toInv.schedRoundRobin prio
      simp only [Cpu.step, rotated, Option.map_some]
      refine ⟨_, s', held, rfl, ?_, ?_⟩
      · rw [goOn_isr enabled.1]
        exact good.inIsr enabled.1 inv' (interrupted_of_woke woke) (by simp) c.putOff
      · exact passed_of_same times rfl (by simp) fun _ => by rw [goOn_os, woke.sched]
  | tickUpdate =>
      have rests : calm → c.os.OwnersRest s := fun holds t inside =>
        calmly holds t ((good.timed t).mp inside)
      obtain ⟨os', s', passed, inv', woke, expired⟩ :=
        good.toInv.tickUpdate rests 1 (by decide)
      simp only [Cpu.step, passed, Option.map_some]
      refine ⟨_, s', held, rfl, ?_, ?_⟩
      · rw [goOn_isr enabled.1]
        exact good.inIsr enabled.1 inv' (interrupted_of_woke woke) (by simp) c.putOff
      · refine ⟨woke.times.now, fun t _ _ => congrFun woke.times.due t, fun _ => expired,
          by simp, ?_⟩
        intro _
        rw [goOn_os, woke.sched]
  | pendSv =>
      obtain ⟨task, pending⟩ := enabled
      have urgent := good.next task pending
      have unlocked : ¬ 0 < c.os.sched.lockNestingCtr := by
        intro locked
        cases (good.locked locked).1.symm.trans pending
      have zero : c.os.sched.lockNestingCtr = 0 := Nat.eq_zero_of_not_pos unlocked
      let os' : Os ι σ μ := c.os.pendSvHandler
      have inv' : os'.Inv s held calm := good.toInv.frame rfl rfl rfl rfl rfl rfl rfl
      refine ⟨{ c with os := os' }, s, held, rfl, ?_,
        passed_of_same still rfl (by simp) (by simp)⟩
      refine { inv' with
        entered := ⟨?_, good.entered.isr⟩, few := good.few
        running := fun _ _ => urgent.ready
        locked := fun locked => absurd locked unlocked
        switching := fun still => absurd still (by simp [os', pendSvHandler])
        next := fun _ still => absurd still (by simp [os', pendSvHandler])
        current := fun _ _ _ _ => ⟨urgent.ready, urgent.least⟩ }
      -- the scheduler is not locked, so the tests of all tasks have found the same
      intro t call here
      have kept := good.entered.task t call here
      simp only [zero, ite_self] at kept
      simpa only [os', pendSvHandler, zero, ite_self] using kept

theorem Good.moved (good : c.Good s held calm) (enabled : c.Enabled a) (calmly : calm → c.Calm a)
    (moved : c.step a = some c') : ∃ s' held', c'.Good s' held' calm ∧ Passed c s a c' s' := by
  obtain ⟨c₁, s', held', moved', good', passed⟩ := good.step enabled calmly
  obtain rfl := Option.some.inj (moved'.symm.trans moved)
  exact ⟨s', held', good', passed⟩

end Cpu

/-! ## The start -/

namespace Os

variable {os os' : Os ι σ μ} {s s' : Lists ι (σ ⊕ μ)} {held held' : ι → List μ} {t r : ι}
  {prio timeQuanta : Nat}

omit [DecidableEq σ] [DecidableEq μ] in
theorem taskCreate_frame {r : Served ι σ μ} (created : os.taskCreate t prio timeQuanta = some r) :
    r.os.sched = os.sched ∧ r.os.taskQty = (os.taskQty + 1) % 2 ^ 16 ∧
      ∀ x, x ≠ t → r.os.tcb.taskState x = os.tcb.taskState x := by
  simp only [Os.taskCreate, served] at created
  obtain ⟨rl, -, same⟩ := Option.bind_eq_some_iff.mp created
  cases same
  exact ⟨rfl, rfl, fun x other => Function.update_of_ne other _ _⟩

omit [DecidableEq σ] [DecidableEq μ] in
theorem osInit_idle (idle : ι) (tenth : Nat) :
    ∃ r s, (osInit idle tenth : Os ι σ μ).taskCreate idle (osCfgPrioMax - 1) 0 = some r ∧
      r.os.Inv s (fun _ => []) calm := by
  have empty : Rdy (osInit idle tenth : Os ι σ μ).rdyList (fun _ => []) := {
    listed := fun _ => .empty
    apart := by simp
    marked := by simp [osInit] }
  have nowhere : ∀ p : Nat, idle ∉ (fun _ => [] : Nat → List ι) p := by simp
  have below : osCfgPrioMax - 1 < 32 := by simp [osCfgPrioMax]
  obtain ⟨rl, inserted, rdy⟩ := (empty.elsewhere nowhere).insertTail below nowhere
  simp only [Os.taskCreate]
  simp only [taskInitTCB, inserted, Option.bind_some]
  refine ⟨_, { ready := Function.update (fun _ => []) (osCfgPrioMax - 1) [idle]
               waiting := fun _ => [], timed := [], due := fun _ => 0, now := 0 }, rfl, ?_⟩
  refine { rdy := rdy, pnd := ?_, placed := ?_, once := List.nodup_nil, inOrder := ?_
           owned := ?_, owns := ?_, nesting := ?_, alive := ?_, inside := ?_, sems := ?_
           mutexes := ?_, suspended := ?_, idle := ?_, tck := ?_, fair := ?_ }
  · exact { listed := fun _ => .empty, object := by simp [osInit, Function.update_apply] }
  · intro t
    by_cases same : t = idle
    · subst same
      refine { ready := ?_, timed := ?_, fits := ?_, below := ?_ }
      · intro p
        by_cases here : p = osCfgPrioMax - 1
        · simp [here]
        · simp [here, Ne.symm here]
      · simp [TaskState.timed]
      · simp [Fits, TaskState.pending, osInit]
      · simp [osCfgPrioMax]
    · refine { ready := ?_, timed := ?_, fits := ?_, below := ?_ }
      · intro p
        by_cases here : p = osCfgPrioMax - 1
        · simp [here, same, osInit]
        · simp [here, same, osInit]
      · simp [same, osInit, TaskState.timed]
      · simp [Fits, TaskState.pending, osInit, same]
      · simp [osInit, same]
  · intro o
    exact List.Pairwise.nil
  · refine { group := ?_, owner := by simp, busy := ?_ }
    · intro t
      simp [osInit, Function.update_apply, Points]
    · simp [osInit, Function.update_apply]
  · simp [osInit]
  · simp [osInit]
  · simp
  · intro t state
    by_cases same : t = idle
    · simp [same, osCfgPrioMax]
    · simp [osInit, same] at state
  · simp [osInit, Function.update_apply]
  · simp [osInit]
  · intro t
    by_cases same : t = idle
    · simp [same, TaskState.held]
    · simp [osInit, same, TaskState.held]
  · simp [osInit]
  · exact { linked := .empty, counts := trivial, ctr := rfl, ahead := by simp }
  · intro _ t
    refine isLeast_claims.mpr ⟨le_rfl, ?_, .inl rfl⟩
    intro w waits
    obtain ⟨m, -, owner⟩ := waitsFor_eq_some.mp waits
    cases owner

end Os

end ExploreF407.Kernel
