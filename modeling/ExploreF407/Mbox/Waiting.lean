import ExploreF407.Mbox.SysArch

/-! # Waiting for a message or a semaphore

`sys_arch_mbox_fetch` and `sys_arch_sem_wait` as they run among other tasks: while the caller is
blocked, time passes, and it is another task or the tick that ends the wait.
-/

namespace ExploreF407.Mbox.Waiting

open Kernel Lwip

variable {α β σ : Type*}

/-- `PendStatus` of a task that has been blocked. A post hands what it posts to the task. -/
inductive Woken (β : Type*) where
  | ok (value : β)
  | abort
  | timeout
  | del
  | other
  deriving Repr, DecidableEq

/-- The `switch` behind the wait. -/
def Woken.result : Woken β → Except OsErr β
  | .ok value => .ok value
  | .abort => .error .pendAbort
  | .timeout => .error .timeout
  | .del => .error .objDel
  | .other => .error .statusInvalid

/-- What befalls a caller that would block: whether the scheduler is locked, how the wait ends,
    and the ticks that pass. -/
structure Wait (β : Type*) where
  timeoutMs : Nat
  locked : Bool
  woken : Woken β
  ticks : Nat
  /-- Without a timeout the tick does not end the wait. -/
  forever : timeoutMs = 0 → woken ≠ .timeout

/-- A pend call to its end. -/
def pend (call : Pend σ β) (w : Wait β) : Except OsErr β :=
  match call with
  | .granted value _ => .ok value
  | .failed err => .error err
  | .blocked => if w.locked then .error .schedLocked else w.woken.result

/-- `OSTickCtr` after the call. -/
def Wait.now (w : Wait β) (starttick : Nat) : Nat := (starttick + w.ticks) % 2 ^ 32

/-- `sys_arch_mbox_fetch`, with what it leaves in `*msg`. `sem` is the semaphore as it is when it
    is posted, with the head of its pend list. -/
def sysArchMboxFetch (queue : OsQ α) (w : Wait α) (sem : OsSem) (head : Option Unit)
    (starttick : Nat) : Option α × Nat :=
  let elapsetick := elapsedTicks starttick (w.now starttick)
  match pend (osQPend queue .blocking) w with
  | .error _ => (none, sysArchTimeout)
  | .ok msg => match osSemPost sem head with
      | .error _ => (some msg, sysArchTimeout)
      | .ok _ => (some msg, elapsetick)

def sysArchSemWait (sem : OsSem) (w : Wait Unit) (starttick : Nat) : Nat :=
  match pend (osSemPend sem .blocking) w with
  | .error _ => sysArchTimeout
  | .ok _ => elapsedTicks starttick (w.now starttick)

/-- Among no other tasks, where a wait can only run into its timeout, this is the function of
    `Mbox.SysArch`. -/
theorem sysArchMboxFetch_alone {mbox mbox' : SysMbox α} {msg : Option α} {w : Wait α}
    {starttick elapsed : Nat} (alone : w.woken = .timeout)
    (done : Mbox.sysArchMboxFetch mbox w.timeoutMs starttick (w.now starttick) =
      some (mbox', msg, elapsed)) :
    sysArchMboxFetch mbox.msgQueen w mbox.msgSem none starttick = (msg, elapsed) := by
  unfold Mbox.sysArchMboxFetch at done
  unfold sysArchMboxFetch pend
  cases call : osQPend mbox.msgQueen .blocking with
  | granted value queen =>
      simp only [call] at done ⊢
      cases post : osSemPost mbox.msgSem (none : Option Unit) with
      | error err =>
          simp only [post] at done
          cases done
          rfl
      | ok sem =>
          simp only [post] at done
          cases done
          rfl
  | failed err =>
      simp only [call] at done ⊢
      cases done
      rfl
  | blocked =>
      simp only [call] at done ⊢
      split at done
      · cases done
      · cases done
        cases w.locked with
        | true => rfl
        | false => simp only [alone, Woken.result, Bool.false_eq_true, if_false]

/-! ## What has been obtained -/

/-- The caller has been given a message, or the semaphore: at once, or by the post that has ended
    its wait. -/
def Obtained (call : Pend σ β) (w : Wait β) : Prop :=
  match call with
  | .granted _ _ => True
  | .failed _ => False
  | .blocked => w.locked = false ∧ ∃ value, w.woken = .ok value

theorem pend_ok_iff (call : Pend σ β) (w : Wait β) :
    (∃ value, pend call w = .ok value) ↔ Obtained call w := by
  unfold pend Obtained
  cases call with
  | granted value obj => simp
  | failed err => simp
  | blocked =>
      cases w.locked with
      | true => simp
      | false => cases w.woken <;> simp [Woken.result]

/-- The counter may wrap: the time is known up to a multiple of 2^32. -/
theorem elapsedTicks_now (w : Wait β) (starttick : Nat) :
    elapsedTicks starttick (w.now starttick) = w.ticks % 2 ^ 32 := by
  unfold elapsedTicks Wait.now
  omega

theorem osSemPost_ok_iff (sem : OsSem) (head : Option Unit) :
    (∃ sem', osSemPost sem head = .ok sem') ↔
      sem.type = .sem ∧ (head = none → sem.ctr ≠ osSemCtrMax) := by
  unfold osSemPost
  split
  · rename_i other
    simp [other]
  · rename_i created
    cases head with
    | some task => simpa using created
    | none =>
        by_cases full : sem.ctr = osSemCtrMax
        · simp [full]
        · simpa [full] using created

/-- `SYS_ARCH_TIMEOUT` tells whether something was obtained. -/
def FetchTells (queue : OsQ α) (w : Wait α) (sem : OsSem) (head : Option Unit) (starttick : Nat) :
    Prop :=
  (sysArchMboxFetch queue w sem head starttick).2 = sysArchTimeout ↔
    ¬ Obtained (osQPend queue .blocking) w

def WaitTells (sem : OsSem) (w : Wait Unit) (starttick : Nat) : Prop :=
  sysArchSemWait sem w starttick = sysArchTimeout ↔ ¬ Obtained (osSemPend sem .blocking) w

theorem elapsedTicks_eq_timeout (w : Wait β) (starttick : Nat) :
    elapsedTicks starttick (w.now starttick) = sysArchTimeout ↔ w.ticks % 2 ^ 32 = 2 ^ 32 - 1 := by
  rw [elapsedTicks_now]
  rfl

theorem fetchTells_iff (queue : OsQ α) (w : Wait α) (sem : OsSem) (head : Option Unit)
    (starttick : Nat) :
    FetchTells queue w sem head starttick ↔
      (Obtained (osQPend queue .blocking) w → w.ticks % 2 ^ 32 ≠ 2 ^ 32 - 1 ∧
        sem.type = .sem ∧ (head = none → sem.ctr ≠ osSemCtrMax)) := by
  unfold FetchTells sysArchMboxFetch
  rw [← pend_ok_iff, ← osSemPost_ok_iff sem head]
  cases pend (osQPend queue .blocking) w with
  | error err => simp
  | ok msg =>
      cases osSemPost sem head with
      | error err => simp
      | ok sem' => simp [elapsedTicks_eq_timeout]

theorem waitTells_iff (sem : OsSem) (w : Wait Unit) (starttick : Nat) :
    WaitTells sem w starttick ↔
      (Obtained (osSemPend sem .blocking) w → w.ticks % 2 ^ 32 ≠ 2 ^ 32 - 1) := by
  unfold WaitTells sysArchSemWait
  rw [← pend_ok_iff]
  cases pend (osSemPend sem .blocking) w with
  | error err => simp
  | ok value => simp [elapsedTicks_eq_timeout]

/-- The result is right unless something is obtained after a time that looks like
    `SYS_ARCH_TIMEOUT`, or a message whose credit cannot be given back. -/
theorem timeouts_tell_iff (queue : OsQ α) (w : Wait α) (credits : OsSem) (head : Option Unit)
    (sem : OsSem) (v : Wait Unit) (starttick : Nat) :
    (FetchTells queue w credits head starttick ↔
      (Obtained (osQPend queue .blocking) w → w.ticks % 2 ^ 32 ≠ 2 ^ 32 - 1 ∧
        credits.type = .sem ∧ (head = none → credits.ctr ≠ osSemCtrMax))) ∧
    (WaitTells sem v starttick ↔
      (Obtained (osSemPend sem .blocking) v → v.ticks % 2 ^ 32 ≠ 2 ^ 32 - 1)) :=
  ⟨fetchTells_iff queue w credits head starttick, waitTells_iff sem v starttick⟩

/-- A wait without a timeout that is ended by a post after 2^32 - 1 ticks. -/
def longWait (value : β) : Wait β where
  timeoutMs := 0
  locked := false
  woken := .ok value
  ticks := 2 ^ 32 - 1
  forever := nofun

theorem message_lost_after_longWait :
    ¬ FetchTells (.created [] 4) (longWait 7) (.created 3) none 100 ∧
      ¬ WaitTells (.created 0) (longWait ()) 100 := by
  constructor
  · intro tells
    exact tells.mp (by decide) ⟨rfl, 7, rfl⟩
  · intro tells
    exact tells.mp (by decide) ⟨rfl, (), rfl⟩

end ExploreF407.Mbox.Waiting
