import ExploreF407.Lib.Fifo
import ExploreF407.Mbox.Credit

/-! # Exactly-once delivery

Two invariants carry the result. The lane says where the messages that have entered
are: behind those already taken, in the queue, and nowhere while a fetcher sleeps.
The journal keeps the books of the messages by their serial numbers: what has
entered, what a thread still has to send, and what the callers were told.
-/

namespace ExploreF407.Mbox

open Kernel Machine

variable {τ α : Type*} [Fintype τ] [DecidableEq τ]

/-! ## The lane -/

def Lane (n : Nat) (s : World τ α) : Prop :=
  ∃ xs c, s.mbox = .created n xs c ∧ InOrder s.entered xs s.taken ∧
    ((∃ t, s.pc t = .fetchBlocked) → xs = [])

namespace Lane

omit [Fintype τ] in
/-- A thread that does not fall asleep on the queue keeps the sleepers as they
    are. -/
theorem sleepers {pc : τ → Pc α} {t : τ} {p : Pc α} (awake : p ≠ .fetchBlocked)
    (asleep : ∃ u, Function.update pc t p u = .fetchBlocked) : ∃ u, pc u = .fetchBlocked := by
  obtain ⟨u, sleeps⟩ := asleep
  by_cases same : u = t
  · subst same
    rw [Function.update_self] at sleeps
    exact absurd sleeps awake
  · rw [Function.update_of_ne same] at sleeps
    exact ⟨u, sleeps⟩

omit [Fintype τ] [DecidableEq τ] in
theorem init (n : Capacity) : Lane n.size (World.init n : World τ α) := by
  refine ⟨[], n.size, ?_, InOrder.none, fun _ => rfl⟩
  simp only [World.init, sysMboxNew_blank]

theorem step {n : Nat} {s s' : World τ α} {a : Act τ α} (lane : Lane n s)
    (moved : s.step a = some s') : Lane n s' := by
  obtain ⟨xs, c, created, order, asleep⟩ := lane
  cases step_moves created moved with
  | postTakes idle => exact ⟨_, _, rfl, order, fun h => asleep (sleepers (by simp) h)⟩
  | postWaits idle => exact ⟨_, _, created, order, fun h => asleep (sleepers (by simp) h)⟩
  | putHands mid waits =>
      have empty := asleep ⟨_, waits⟩
      subst empty
      exact ⟨_, _, created, order.pass _, fun _ => rfl⟩
  | putEnters mid unawaited room free =>
      refine ⟨_, _, rfl, order.enter _, ?_⟩
      intro sleeping
      obtain ⟨u, sleeps⟩ := sleepers (by simp) sleeping
      exact absurd sleeps (unawaited u)
  | putFails mid refused =>
      exact ⟨_, _, created, order, fun h => asleep (sleepers (by simp) h)⟩
  | tryHands idle waits =>
      have empty := asleep ⟨_, waits⟩
      subst empty
      exact ⟨_, _, created, order.pass _, fun _ => rfl⟩
  | tryEnters idle unawaited room free =>
      refine ⟨_, _, rfl, order.enter _, ?_⟩
      intro sleeping
      obtain ⟨u, sleeps⟩ := sleepers (by simp) sleeping
      exact absurd sleeps (unawaited u)
  | tryFails idle refused => exact ⟨_, _, created, order, asleep⟩
  | tryTakes mid => exact ⟨_, _, rfl, order, fun h => asleep (sleepers (by simp) h)⟩
  | tryMisses mid => exact ⟨_, _, created, order, fun h => asleep (sleepers (by simp) h)⟩
  | fetches idle contents call =>
      subst contents
      refine ⟨_, _, rfl, order.leave, ?_⟩
      intro sleeping
      cases asleep (sleepers (by simp) sleeping)
  | fetchWaits idle contents => exact ⟨_, _, created, order, fun _ => contents⟩
  | tryfetchEmpty idle => exact ⟨_, _, created, order, asleep⟩
  | givesOn mid waits =>
      refine ⟨_, _, created, order, ?_⟩
      intro sleeping
      exact asleep (sleepers (by simp) (sleepers (by simp) sleeping))
  | givesBack mid below => exact ⟨_, _, rfl, order, fun h => asleep (sleepers (by simp) h)⟩
  | overflows mid => exact ⟨_, _, created, order, fun h => asleep (sleepers (by simp) h)⟩
  | timesOut waits => exact ⟨_, _, created, order, fun h => asleep (sleepers (by simp) h)⟩

end Lane

/-! ## The journal -/

/-- The message a thread has accepted from its caller and not sent yet. -/
def Pc.unsent : Pc α → Option (Msg α)
  | .postBlocked msg | .postMid msg => some msg
  | _ => none

omit [Fintype τ] in
theorem unsent_update {pc : τ → Pc α} {t u : τ} {q : Pc α} {m : Msg α}
    (holds : (Function.update pc t q u).unsent = some m) :
    u = t ∧ q.unsent = some m ∨ u ≠ t ∧ (pc u).unsent = some m := by
  by_cases here : u = t
  · subst here
    rw [Function.update_self] at holds
    exact .inl ⟨rfl, holds⟩
  · rw [Function.update_of_ne here] at holds
    exact .inr ⟨here, holds⟩

omit [Fintype τ] in
theorem tryMid_update {pc : τ → Pc α} {t u : τ} {q : Pc α} {m : Msg α}
    (stands : Function.update pc t q u = .tryMid m) : q = .tryMid m ∨ pc u = .tryMid m := by
  by_cases here : u = t
  · subst here
    rw [Function.update_self] at stands
    exact .inl stands
  · rw [Function.update_of_ne here] at stands
    exact .inr stands

structure Journal (pc : τ → Pc α) (calls : Nat) (entered posted refused : List (Msg α)) :
    Prop where
  once : entered.Nodup
  old : ∀ m ∈ entered ++ refused, m.call < calls
  unsentOld : ∀ t m, (pc t).unsent = some m → m.call < calls
  unsentOut : ∀ t m, (pc t).unsent = some m → m ∉ entered ++ refused
  unsentOne : ∀ t u m, (pc t).unsent = some m → (pc u).unsent = some m → t = u
  ahead : ∀ t m, pc t = .tryMid m → m ∈ entered
  posted : ∀ m ∈ posted, m ∈ entered
  refused : ∀ m ∈ refused, m ∉ entered

namespace Journal

variable {pc : τ → Pc α} {calls : Nat} {entered posted refused : List (Msg α)} {t : τ}

omit [Fintype τ] [DecidableEq τ] in
theorem init : Journal (fun _ : τ => (.idle : Pc α)) 0 [] [] [] := by
  constructor <;> simp [Pc.unsent]

omit [Fintype τ] [DecidableEq τ] in
theorem fresh (journal : Journal pc calls entered posted refused) (ptr : α) :
    (⟨calls, ptr⟩ : Msg α) ∉ entered ++ refused := by
  intro member
  exact Nat.lt_irrefl _ (journal.old _ member)

omit [Fintype τ] in
theorem goes (journal : Journal pc calls entered posted refused) {p q : Pc α}
    (stood : pc t = p) (unsent : q.unsent = none ∨ q.unsent = p.unsent)
    (sent : ∀ m, q ≠ .tryMid m) :
    Journal (Function.update pc t q) calls entered posted refused := by
  have same : ∀ u m, (Function.update pc t q u).unsent = some m → (pc u).unsent = some m := by
    intro u m holds
    rcases unsent_update holds with ⟨rfl, now⟩ | ⟨-, before⟩
    · rcases unsent with none | kept
      · rw [none] at now
        cases now
      · rw [stood, ← kept]
        exact now
    · exact before
  refine { journal with unsentOld := ?_, unsentOut := ?_, unsentOne := ?_, ahead := ?_ }
  · exact fun u m holds => journal.unsentOld u m (same u m holds)
  · exact fun u m holds => journal.unsentOut u m (same u m holds)
  · exact fun u v m holds holds' => journal.unsentOne u v m (same u m holds) (same v m holds')
  · intro u m stands
    rcases tryMid_update stands with now | before
    · exact absurd now (sent m)
    · exact journal.ahead u m before

omit [Fintype τ] in
theorem called (journal : Journal pc calls entered posted refused) (ptr : α) {q : Pc α}
    (unsent : q.unsent = some ⟨calls, ptr⟩) :
    Journal (Function.update pc t q) (calls + 1) entered posted refused := by
  have new : ∀ m, q.unsent = some m → m = ⟨calls, ptr⟩ := by
    intro m holds
    rw [unsent] at holds
    exact (Option.some.inj holds).symm
  have apart : ∀ u, (pc u).unsent ≠ some ⟨calls, ptr⟩ := by
    intro u holds
    exact Nat.lt_irrefl _ (journal.unsentOld u _ holds)
  refine { journal with old := ?_, unsentOld := ?_, unsentOut := ?_, unsentOne := ?_, ahead := ?_ }
  · exact fun m member => Nat.lt_succ_of_lt (journal.old m member)
  · intro u m holds
    rcases unsent_update holds with ⟨-, now⟩ | ⟨-, before⟩
    · rw [new m now]
      exact Nat.lt_succ_self _
    · exact Nat.lt_succ_of_lt (journal.unsentOld u m before)
  · intro u m holds
    rcases unsent_update holds with ⟨-, now⟩ | ⟨-, before⟩
    · rw [new m now]
      exact journal.fresh ptr
    · exact journal.unsentOut u m before
  · intro u v m holds holds'
    rcases unsent_update holds with ⟨here, now⟩ | ⟨-, before⟩
    · rcases unsent_update holds' with ⟨here', -⟩ | ⟨-, before'⟩
      · rw [here, here']
      · rw [new m now] at before'
        exact absurd before' (apart v)
    · rcases unsent_update holds' with ⟨-, now'⟩ | ⟨-, before'⟩
      · rw [new m now'] at before
        exact absurd before (apart u)
      · exact journal.unsentOne u v m before before'
  · intro u m stands
    rcases tryMid_update stands with now | before
    · rw [now] at unsent
      cases unsent
    · exact journal.ahead u m before

omit [Fintype τ] [DecidableEq τ] in
/-- A message enters that is neither among those which entered before nor held by a
    thread. -/
theorem enters (journal : Journal pc calls entered posted refused) {m : Msg α}
    (older : m.call < calls) (new : m ∉ entered ++ refused)
    (released : ∀ u, (pc u).unsent ≠ some m) :
    Journal pc calls (entered ++ [m]) posted refused := by
  rw [List.mem_append, not_or] at new
  constructor
  case once => exact journal.once.append (List.nodup_singleton m) (by simpa using new.1)
  case old =>
    intro m' member
    simp only [List.mem_append, List.mem_singleton] at member
    rcases member with (before | rfl) | out
    · exact journal.old m' (List.mem_append_left _ before)
    · exact older
    · exact journal.old m' (List.mem_append_right _ out)
  case unsentOld => exact journal.unsentOld
  case unsentOut =>
    intro u m' holds member
    simp only [List.mem_append, List.mem_singleton] at member
    rcases member with (before | rfl) | out
    · exact journal.unsentOut u m' holds (List.mem_append_left _ before)
    · exact released u holds
    · exact journal.unsentOut u m' holds (List.mem_append_right _ out)
  case unsentOne => exact journal.unsentOne
  case ahead => exact fun u m' stands => List.mem_append_left _ (journal.ahead u m' stands)
  case posted => exact fun m' told => List.mem_append_left _ (journal.posted m' told)
  case refused =>
    intro m' out member
    rcases List.mem_append.mp member with before | this
    · exact journal.refused m' out before
    · rw [List.mem_singleton.mp this] at out
      exact new.2 out

omit [Fintype τ] [DecidableEq τ] in
theorem counted (journal : Journal pc calls entered posted refused) :
    Journal pc (calls + 1) entered posted refused := by
  refine { journal with old := ?_, unsentOld := ?_ }
  · exact fun m member => Nat.lt_succ_of_lt (journal.old m member)
  · exact fun u m holds => Nat.lt_succ_of_lt (journal.unsentOld u m holds)

omit [Fintype τ] [DecidableEq τ] in
theorem confirms (journal : Journal pc calls entered posted refused) {m : Msg α}
    (entered' : m ∈ entered) : Journal pc calls entered (posted ++ [m]) refused := by
  refine { journal with posted := ?_ }
  intro m' member
  rcases List.mem_append.mp member with before | this
  · exact journal.posted m' before
  · rw [List.mem_singleton.mp this]
    exact entered'

omit [Fintype τ] in
theorem sends (journal : Journal pc calls entered posted refused) {m : Msg α}
    (mid : pc t = .postMid m) :
    Journal (Function.update pc t .idle) calls (entered ++ [m]) (posted ++ [m]) refused := by
  have held : (pc t).unsent = some m := by rw [mid]; rfl
  have away : Journal (Function.update pc t .idle) calls entered posted refused :=
    journal.goes mid (.inl rfl) (by simp)
  have released : ∀ u, (Function.update pc t .idle u).unsent ≠ some m := by
    intro u holds
    rcases unsent_update holds with ⟨-, now⟩ | ⟨other, before⟩
    · cases now
    · exact other (journal.unsentOne u t m before held)
  apply confirms
  · exact away.enters (journal.unsentOld t m held) (journal.unsentOut t m held) released
  · simp

omit [Fintype τ] in
theorem sendsAhead (journal : Journal pc calls entered posted refused) (ptr : α) :
    Journal (Function.update pc t (.tryMid ⟨calls, ptr⟩)) (calls + 1)
      (entered ++ [⟨calls, ptr⟩]) posted refused := by
  have apart : ∀ u, (pc u).unsent ≠ some ⟨calls, ptr⟩ := by
    intro u holds
    exact Nat.lt_irrefl _ (journal.unsentOld u _ holds)
  have inside := journal.counted.enters (Nat.lt_succ_self _) (journal.fresh ptr) apart
  have unsent : ∀ u m, (Function.update pc t (.tryMid ⟨calls, ptr⟩) u).unsent = some m →
      (pc u).unsent = some m := by
    intro u m holds
    rcases unsent_update holds with ⟨-, now⟩ | ⟨-, before⟩
    · cases now
    · exact before
  refine { inside with unsentOld := ?_, unsentOut := ?_, unsentOne := ?_, ahead := ?_ }
  · exact fun u m holds => inside.unsentOld u m (unsent u m holds)
  · exact fun u m holds => inside.unsentOut u m (unsent u m holds)
  · exact fun u v m holds holds' =>
      inside.unsentOne u v m (unsent u m holds) (unsent v m holds')
  · intro u m stands
    rcases tryMid_update stands with now | before
    · cases now
      simp
    · exact inside.ahead u m before

omit [Fintype τ] [DecidableEq τ] in
theorem refuses (journal : Journal pc calls entered posted refused) (ptr : α) :
    Journal pc (calls + 1) entered posted (refused ++ [⟨calls, ptr⟩]) := by
  have next := journal.counted
  have new := journal.fresh ptr
  rw [List.mem_append, not_or] at new
  refine { next with old := ?_, unsentOut := ?_, refused := ?_ }
  · intro m member
    simp only [List.mem_append, List.mem_singleton] at member
    rcases member with inside | before | rfl
    · exact next.old m (List.mem_append_left _ inside)
    · exact next.old m (List.mem_append_right _ before)
    · exact Nat.lt_succ_self _
  · intro u m holds member
    simp only [List.mem_append, List.mem_singleton] at member
    rcases member with inside | before | rfl
    · exact next.unsentOut u m holds (List.mem_append_left _ inside)
    · exact next.unsentOut u m holds (List.mem_append_right _ before)
    · exact Nat.lt_irrefl _ (journal.unsentOld u _ holds)
  · intro m member
    rcases List.mem_append.mp member with before | this
    · exact journal.refused m before
    · rw [List.mem_singleton.mp this]
      exact new.1

end Journal

def World.Journalled (s : World τ α) : Prop :=
  Journal s.pc s.calls s.entered s.posted s.refused

/-- The message pool is not empty when a message is posted. -/
def Act.PoolFree : Act τ α → Prop
  | .postPut _ nbrFree _ | .trypost _ _ nbrFree _ => 0 < nbrFree
  | _ => True

/-- An `OSQPost` after its `OSSemPend` finds a waiting fetcher or room in the queue,
    an `OSSemPend` after its `OSQPost` finds a credit. -/
def World.SecondSucceeds (s : World τ α) : Act τ α → Prop
  | .postPut _ _ none => s.mbox.msgQueen.msgQ.nbrEntries < s.mbox.msgQueen.msgQ.nbrEntriesSize
  | .trypostPend _ => 0 < s.mbox.msgSem.ctr
  | _ => True

def World.Regular (s : World τ α) (a : Act τ α) : Prop := a.PoolFree ∧ s.SecondSucceeds a

theorem World.Journalled.step {n : Nat} {s s' : World τ α} {a : Act τ α} (lane : Lane n s)
    (journal : s.Journalled) (regular : s.Regular a) (moved : s.step a = some s') :
    s'.Journalled := by
  obtain ⟨xs, c, created, -, -⟩ := lane
  obtain ⟨pool, second⟩ := regular
  cases step_moves created moved with
  | postTakes idle => exact Journal.called journal _ rfl
  | postWaits idle => exact Journal.called journal _ rfl
  | putHands mid waits =>
      have sent := Journal.sends journal mid
      exact sent.goes (stands_still mid waits (by simp) .idle) (.inl rfl) (by simp)
  | putEnters mid unawaited room free => exact Journal.sends journal mid
  | putFails mid refused =>
      simp only [Act.PoolFree] at pool
      simp only [World.SecondSucceeds, created, OsMsgQ.nbrEntries] at second
      omega
  | @tryHands t ptr nbrFree w _ idle waits =>
      have sent := Journal.sendsAhead (t := t) journal ptr
      exact sent.goes (stands_still idle waits (by simp) _) (.inl rfl) (by simp)
  | tryEnters idle unawaited room free => exact Journal.sendsAhead journal _
  | tryFails idle refused => exact Journal.refuses journal _
  | tryTakes mid =>
      have told := Journal.confirms journal (journal.ahead _ _ mid)
      exact told.goes mid (.inl rfl) (by simp)
  | tryMisses mid => exact absurd second (by simp [World.SecondSucceeds, created])
  | fetches idle contents call => exact Journal.goes journal idle (.inl rfl) (by simp)
  | fetchWaits idle contents => exact Journal.goes journal idle (.inl rfl) (by simp)
  | tryfetchEmpty idle => exact journal
  | givesOn mid waits =>
      have free : Journal (Function.update s.pc _ .idle) s.calls s.entered s.posted s.refused :=
        Journal.goes journal mid (.inl rfl) (by simp)
      exact free.goes (stands_still mid waits (by simp) .idle) (.inr rfl) (by simp)
  | givesBack mid below => exact Journal.goes journal mid (.inl rfl) (by simp)
  | overflows mid => exact Journal.goes journal mid (.inl rfl) (by simp)
  | timesOut waits => exact Journal.goes journal waits (.inl rfl) (by simp)

/-- What the mailbox promises about its messages: what was posted has entered, once;
    the messages are taken once and in the order in which they entered, and a
    refused one never. -/
structure World.DeliversOnce (s : World τ α) : Prop where
  entersOnce : s.entered.Nodup
  posted : ∀ m ∈ s.posted, m ∈ s.entered
  takenOnce : s.taken.Nodup
  order : InOrder s.entered s.mbox.msgQueen.msgQ.entries s.taken
  refused : ∀ m ∈ s.refused, m ∉ s.taken

omit [Fintype τ] [DecidableEq τ] in
theorem Lane.deliversOnce {n : Nat} {s : World τ α} (lane : Lane n s) (journal : s.Journalled) :
    s.DeliversOnce := by
  obtain ⟨xs, c, created, order, -⟩ := lane
  constructor
  case entersOnce => exact journal.once
  case posted => exact journal.posted
  case takenOnce => exact order.outs_nodup journal.once
  case order => rw [created]; exact order
  case refused =>
    intro m out taken
    exact journal.refused m out (order.outs_prefix.subset taken)

/-- A step that is not regular although the pool is not empty tells a caller the
    wrong thing: posted without having entered, or refused with the message in the
    mailbox. -/
theorem irregular_step {n : Nat} {s s' : World τ α} {a : Act τ α} (lane : Lane n s)
    (journal : s.Journalled) (pool : a.PoolFree) (irregular : ¬ s.SecondSucceeds a)
    (moved : s.step a = some s') :
    (∃ m ∈ s'.posted, m ∉ s'.entered) ∨ ∃ m ∈ s'.refused, m ∈ s'.entered := by
  obtain ⟨xs, c, created, -, -⟩ := lane
  cases step_moves created moved with
  | @putFails t nbrFree msg _ mid refused =>
      have out := journal.unsentOut t msg (by rw [mid]; rfl)
      refine .inl ⟨msg, by simp, ?_⟩
      exact fun member => out (List.mem_append_left _ member)
  | @tryMisses t msg mid => exact .inr ⟨msg, by simp, journal.ahead t msg mid⟩
  | putEnters mid unawaited room free =>
      refine absurd ?_ irregular
      simpa only [World.SecondSucceeds, created, OsMsgQ.nbrEntries] using room
  | tryTakes mid =>
      refine absurd ?_ irregular
      simp [World.SecondSucceeds, created]
  | fetches idle contents call => rcases call with rfl | rfl <;> exact absurd trivial irregular
  | postTakes | postWaits | putHands | tryHands | tryEnters | tryFails | fetchWaits
  | tryfetchEmpty | givesOn | givesBack | overflows | timesOut => exact absurd trivial irregular

/-- Messages are delivered exactly once in every run in which the second kernel call
    of each posting operation succeeds, and the first one that does not succeed
    tells its caller the wrong thing. -/
theorem delivered_once_while_regular (n : Capacity) {as : List (Act τ α)} {s : World τ α}
    (run : Runs World.step World.Regular (World.init n) as s) :
    s.DeliversOnce ∧
      ∀ a s', a.PoolFree → ¬ s.SecondSucceeds a → s.step a = some s' →
        (∃ m ∈ s'.posted, m ∉ s'.entered) ∨ ∃ m ∈ s'.refused, m ∈ s'.entered := by
  have kept : Lane n.size s ∧ s.Journalled := by
    apply run.invariant
    · exact ⟨Lane.init n, Journal.init⟩
    · intro t a u before regular moved
      obtain ⟨lane, journal⟩ := before
      exact ⟨lane.step moved, journal.step lane regular moved⟩
  obtain ⟨lane, journal⟩ := kept
  refine ⟨lane.deliversOnce journal, ?_⟩
  intro a s' pool irregular moved
  exact irregular_step lane journal pool irregular moved

omit [Fintype τ] [DecidableEq τ] in
instance (a : Act τ α) : Decidable a.PoolFree :=
  match a with
  | .postPut .. | .trypost .. => inferInstanceAs (Decidable (0 < _))
  | .post .. | .trypostPend _ | .fetch _ | .tryfetch _ | .fetchPost .. | .fetchTimeout _ =>
      .isTrue trivial

omit [Fintype τ] [DecidableEq τ] in
instance (s : World τ α) (a : Act τ α) : Decidable (s.SecondSucceeds a) :=
  match a with
  | .postPut _ _ none | .trypostPend _ => inferInstanceAs (Decidable (_ < _))
  | .post .. | .postPut _ _ (some _) | .trypost .. | .fetch _ | .tryfetch _ | .fetchPost ..
  | .fetchTimeout _ => .isTrue trivial

omit [Fintype τ] [DecidableEq τ] in
instance (s : World τ α) (a : Act τ α) : Decidable (s.Regular a) :=
  inferInstanceAs (Decidable (a.PoolFree ∧ s.SecondSucceeds a))

/-- Two messages pass through a mailbox of one place; the fetcher then still holds
    the credit that a further tryposter misses. -/
theorem delivered_once_while_regular_two :
    ∃ s s' : World (Fin 2) Unit,
      Runs World.step World.Regular (World.init .one)
        [.trypost 0 () 1 none, .trypostPend 0, .fetch 1, .fetchPost 1 none, .post 0 (),
          .postPut 0 1 none, .tryfetch 1, .trypost 0 () 1 none] s ∧
      s.DeliversOnce ∧ s.taken = [⟨0, ()⟩, ⟨1, ()⟩] ∧ s.step (.trypostPend 0) = some s' ∧
      ((∃ m ∈ s'.posted, m ∉ s'.entered) ∨ ∃ m ∈ s'.refused, m ∈ s'.entered) := by
  have exhibited : ∃ s : World (Fin 2) Unit,
      Runs World.step World.Regular (World.init .one)
        [.trypost 0 () 1 none, .trypostPend 0, .fetch 1, .fetchPost 1 none, .post 0 (),
          .postPut 0 1 none, .tryfetch 1, .trypost 0 () 1 none] s ∧
      s.mbox.msgSem.ctr = 0 ∧ s.taken = [⟨0, ()⟩, ⟨1, ()⟩] ∧
        (s.step (.trypostPend 0)).isSome = true := exists_run (by decide)
  obtain ⟨s, run, spent, taken, moves⟩ := exhibited
  obtain ⟨s', moved⟩ := Option.isSome_iff_exists.mp moves
  obtain ⟨delivers, wrong⟩ := delivered_once_while_regular .one run
  have irregular : ¬ s.SecondSucceeds (.trypostPend 0) := by
    simp [World.SecondSucceeds, spent]
  have told := wrong (.trypostPend 0) s' trivial irregular moved
  exact ⟨s, s', run, delivers, taken, moved, told⟩

/-- A tryposter that enqueues while a fetcher still holds the only credit is
    refused, and its message is delivered. -/
theorem refused_message_delivered :
    ¬ ∀ (as : List (Act (Fin 2) Unit)) (s : World (Fin 2) Unit),
      Runs World.step (fun _ a => a.PoolFree) (World.init .one) as s → s.DeliversOnce := by
  intro delivers
  have exhibited : ∃ s : World (Fin 2) Unit,
      Runs World.step (fun _ a => a.PoolFree) (World.init .one)
        [.trypost 0 () 1 none, .trypostPend 0, .fetch 1, .trypost 0 () 1 none, .trypostPend 0,
          .fetchPost 1 none, .fetch 1] s ∧
      (⟨1, ()⟩ : Msg Unit) ∈ s.refused ∧ (⟨1, ()⟩ : Msg Unit) ∈ s.taken := exists_run (by decide)
  obtain ⟨s, run, refused, taken⟩ := exhibited
  exact (delivers _ s run).refused _ refused taken

end ExploreF407.Mbox
