import ExploreF407.Lib.Machine
import ExploreF407.Mbox.Threads

/-! # Where the credits are

A credit of the mailbox is in `msg_sem`, stands behind a message in `msg_queen`, or
is in the hands of a thread between its two kernel calls. A thread that has
enqueued before it takes its credit owes one. The balance of these holds in every
reachable state once the credits that were lost and the messages that came in
without one are counted.
-/

namespace ExploreF407.Mbox

open Kernel Machine

variable {τ α : Type*} [Fintype τ] [DecidableEq τ]

/-- What a thread holds between its two kernel calls, negative for a debt. -/
def Pc.holds : Pc α → Int
  | .postMid _ | .fetchMid _ => 1
  | .tryMid _ => -1
  | .idle | .postBlocked _ | .fetchBlocked => 0

def Balanced (n : Nat) (s : World τ α) : Prop :=
  ∃ xs c, s.mbox = .created n xs c ∧
    (c : Int) + xs.length + census Pc.holds s.pc + s.lost = n + s.surplus

namespace Balanced

omit [DecidableEq τ] in
theorem init (n : Capacity) : Balanced n.size (World.init n : World τ α) := by
  refine ⟨[], n.size, ?_, ?_⟩
  · simp only [World.init, sysMboxNew_blank]
  · have nothing : census Pc.holds (World.init n : World τ α).pc = 0 :=
      census_eq_zero fun _ => rfl
    rw [nothing]
    rfl

theorem step {n : Nat} {s s' : World τ α} {a : Act τ α} (balanced : Balanced n s)
    (moved : s.step a = some s') : Balanced n s' := by
  obtain ⟨xs, c, created, balance⟩ := balanced
  cases step_moves created moved with
  | @postTakes t ptr _ idle =>
      have held := census_goes Pc.holds idle (.postMid ⟨s.calls, ptr⟩)
      simp only [Pc.holds] at held
      exact ⟨_, _, rfl, by push_cast at balance; dsimp only; omega⟩
  | @postWaits t ptr idle =>
      have held := census_goes Pc.holds idle (.postBlocked ⟨s.calls, ptr⟩)
      simp only [Pc.holds] at held
      exact ⟨_, _, created, by dsimp only; omega⟩
  | @putHands t nbrFree w msg _ mid waits =>
      have held := census_both_go Pc.holds mid waits (by simp) .idle (.fetchMid msg)
      simp only [Pc.holds] at held
      exact ⟨_, _, created, by dsimp only; omega⟩
  | putEnters mid unawaited room free =>
      have held := census_goes Pc.holds mid .idle
      simp only [Pc.holds] at held
      exact ⟨_, _, rfl, by simp only [List.length_append, List.length_singleton]; omega⟩
  | putFails mid refused =>
      have held := census_goes Pc.holds mid .idle
      simp only [Pc.holds] at held
      exact ⟨_, _, created, by dsimp only; omega⟩
  | @tryHands t ptr nbrFree w _ idle waits =>
      have held := census_both_go Pc.holds idle waits (by simp) (.tryMid ⟨s.calls, ptr⟩)
        (.fetchMid ⟨s.calls, ptr⟩)
      simp only [Pc.holds] at held
      exact ⟨_, _, created, by dsimp only; omega⟩
  | @tryEnters t ptr nbrFree _ idle unawaited room free =>
      have held := census_goes Pc.holds idle (.tryMid ⟨s.calls, ptr⟩)
      simp only [Pc.holds] at held
      exact ⟨_, _, rfl, by simp only [List.length_append, List.length_singleton]; omega⟩
  | tryFails idle refused => exact ⟨xs, c, created, balance⟩
  | tryTakes mid =>
      have held := census_goes Pc.holds mid .idle
      simp only [Pc.holds] at held
      exact ⟨_, _, rfl, by push_cast at balance; dsimp only; omega⟩
  | tryMisses mid =>
      have held := census_goes Pc.holds mid .idle
      simp only [Pc.holds] at held
      exact ⟨_, _, created, by dsimp only; omega⟩
  | @fetches t a msg rest _ idle contents call =>
      have held := census_goes Pc.holds idle (.fetchMid msg)
      simp only [Pc.holds] at held
      rw [contents, List.length_cons] at balance
      exact ⟨_, _, rfl, by dsimp only; omega⟩
  | fetchWaits idle contents =>
      have held := census_goes Pc.holds idle .fetchBlocked
      simp only [Pc.holds] at held
      exact ⟨_, _, created, by dsimp only; omega⟩
  | tryfetchEmpty idle => exact ⟨xs, c, created, balance⟩
  | @givesOn t w got msg _ mid waits =>
      have held := census_both_go Pc.holds mid waits (by simp) .idle (.postMid msg)
      simp only [Pc.holds] at held
      exact ⟨_, _, created, by dsimp only; omega⟩
  | givesBack mid below =>
      have held := census_goes Pc.holds mid .idle
      simp only [Pc.holds] at held
      exact ⟨_, _, rfl, by dsimp only; omega⟩
  | overflows mid =>
      have held := census_goes Pc.holds mid .idle
      simp only [Pc.holds] at held
      exact ⟨_, _, created, by dsimp only; omega⟩
  | timesOut waits =>
      have held := census_goes Pc.holds waits .idle
      simp only [Pc.holds] at held
      exact ⟨_, _, created, by dsimp only; omega⟩

theorem run {n : Capacity} {ok : World τ α → Act τ α → Prop} {as : List (Act τ α)}
    {s : World τ α} (run : Runs World.step ok (World.init n) as s) : Balanced n.size s := by
  apply run.invariant (init n)
  intro s a s' balanced _ moved
  exact balanced.step moved

end Balanced

/-- No operation is between its two kernel calls. -/
def World.Quiet (s : World τ α) : Prop := ∀ t, (s.pc t).between = false

omit [DecidableEq τ] in
instance (s : World τ α) : Decidable s.Quiet :=
  inferInstanceAs (Decidable (∀ t, (s.pc t).between = false))

/-- What the mailbox promises about its credits. -/
def World.CreditsConserved (n : Capacity) (s : World τ α) : Prop :=
  s.Quiet → s.mbox.msgSem.ctr + s.mbox.msgQueen.msgQ.nbrEntries = n.size

omit [DecidableEq τ] in
theorem Balanced.quiet {n : Nat} {s : World τ α} (balanced : Balanced n s) (quiet : s.Quiet) :
    s.mbox.msgSem.ctr + s.mbox.msgQueen.msgQ.nbrEntries + s.lost = n + s.surplus := by
  obtain ⟨xs, c, created, balance⟩ := balanced
  have nothing : census Pc.holds s.pc = 0 := by
    apply census_eq_zero
    intro t
    have outside := quiet t
    cases stands : s.pc t <;> rw [stands] at outside <;> first | rfl | cases outside
  rw [created]
  simp only [OsMsgQ.nbrEntries]
  omega

/-! ## When the balance is the promised one -/

/-- The kernel call goes as its caller takes for granted: `OSQPost` of a poster
    finds room and a message block, `OSSemPend` of a tryposter finds a credit,
    `OSSemPost` of a fetcher finds the counter below its maximum. -/
def World.InStep (s : World τ α) : Act τ α → Prop
  | .postPut _ nbrFree none =>
      s.mbox.msgQueen.msgQ.nbrEntries < s.mbox.msgQueen.msgQ.nbrEntriesSize ∧ 0 < nbrFree
  | .trypostPend _ => 0 < s.mbox.msgSem.ctr
  | .fetchPost _ none => s.mbox.msgSem.ctr ≠ osSemCtrMax
  | _ => True

omit [Fintype τ] [DecidableEq τ] in
instance (s : World τ α) (a : Act τ α) : Decidable (s.InStep a) :=
  match a with
  | .postPut _ _ none => inferInstanceAs (Decidable (_ ∧ _))
  | .trypostPend _ => inferInstanceAs (Decidable (_ < _))
  | .fetchPost _ none => inferInstanceAs (Decidable (_ ≠ _))
  | .post .. | .postPut _ _ (some _) | .trypost .. | .fetch _ | .tryfetch _
  | .fetchPost _ (some _) | .fetchTimeout _ => .isTrue trivial

/-- A step out of line loses a credit or makes one up, any other step does
    neither. -/
theorem mishaps_step {n : Nat} {s s' : World τ α} {a : Act τ α} (balanced : Balanced n s)
    (moved : s.step a = some s') :
    if s.InStep a then s'.lost = s.lost ∧ s'.surplus = s.surplus
    else s'.lost = s.lost + 1 ∧ s'.surplus = s.surplus ∨
      s'.lost = s.lost ∧ s'.surplus = s.surplus + 1 := by
  obtain ⟨xs, c, created, -⟩ := balanced
  cases step_moves created moved with
  | putFails mid refused =>
      rw [if_neg]
      · exact .inl ⟨rfl, rfl⟩
      · simp only [World.InStep, created, OsMsgQ.nbrEntries]
        omega
  | tryMisses mid =>
      rw [if_neg]
      · exact .inr ⟨rfl, rfl⟩
      · simp [World.InStep, created]
  | overflows mid =>
      rw [if_neg]
      · exact .inl ⟨rfl, rfl⟩
      · simp [World.InStep, created]
  | putEnters mid unawaited room free =>
      rw [if_pos]
      · exact ⟨rfl, rfl⟩
      · simp only [World.InStep, created, OsMsgQ.nbrEntries]
        exact ⟨room, free⟩
  | tryTakes mid =>
      rw [if_pos]
      · exact ⟨rfl, rfl⟩
      · simp [World.InStep, created]
  | givesBack mid below =>
      rw [if_pos]
      · exact ⟨rfl, rfl⟩
      · simpa [World.InStep, created] using below
  | fetches idle contents call =>
      rcases call with rfl | rfl <;> exact ⟨rfl, rfl⟩
  | postTakes | postWaits | putHands | tryHands | tryEnters | tryFails | fetchWaits
  | tryfetchEmpty | givesOn | timesOut => exact ⟨rfl, rfl⟩

/-- As long as every kernel call goes in step, the two mishap counts stay where
    they are. -/
theorem mishaps_run {n : Nat} {s t : World τ α} {as : List (Act τ α)} (balanced : Balanced n s)
    (run : Runs World.step World.InStep s as t) : t.lost = s.lost ∧ t.surplus = s.surplus := by
  have kept : Balanced n t ∧ t.lost = s.lost ∧ t.surplus = s.surplus := by
    apply run.invariant
    · exact ⟨balanced, rfl, rfl⟩
    · intro u a v here inStep moved
      obtain ⟨before, lost, surplus⟩ := here
      have same := mishaps_step before moved
      rw [if_pos inStep] at same
      exact ⟨before.step moved, same.1.trans lost, same.2.trans surplus⟩
  exact kept.2

/-- The credits are conserved in every run whose steps are in step, and are no
    longer conserved once a step has been out of it. -/
theorem credits_conserved_while_in_step (n : Capacity) {as : List (Act τ α)} {s : World τ α}
    (run : Runs World.step World.InStep (World.init n) as s) :
    s.CreditsConserved n ∧
      ∀ a u bs t, ¬ s.InStep a → s.step a = some u → Runs World.step World.InStep u bs t →
        t.Quiet → t.mbox.msgSem.ctr + t.mbox.msgQueen.msgQ.nbrEntries ≠ n.size := by
  have balanced : Balanced n.size s := Balanced.run run
  obtain ⟨lost, surplus⟩ := mishaps_run (Balanced.init n) run
  change s.lost = 0 at lost
  change s.surplus = 0 at surplus
  constructor
  · intro quiet
    have sum := balanced.quiet quiet
    omega
  · intro a u bs t out moved rest quiet
    have mishap := mishaps_step balanced moved
    rw [if_neg out] at mishap
    have after : Balanced n.size u := balanced.step moved
    obtain ⟨lostAfter, surplusAfter⟩ := mishaps_run after rest
    have final : Balanced n.size t := by
      apply rest.invariant after
      intro v b v' there _ next
      exact there.step next
    have sum := final.quiet quiet
    omega

def Capacity.one : Capacity := ⟨1, by decide, by decide⟩

/-- One task posts and fetches on a mailbox of one place; the credit is back. When
    it posts again and the message pool is empty, the credit is gone. -/
theorem credits_conserved_while_in_step_one :
    ∃ s t : World (Fin 1) Unit,
      Runs World.step World.InStep (World.init .one)
        [.post 0 (), .postPut 0 1 none, .fetch 0, .fetchPost 0 none, .post 0 ()] s ∧
      s.CreditsConserved .one ∧ s.step (.postPut 0 0 none) = some t ∧
      t.mbox.msgSem.ctr + t.mbox.msgQueen.msgQ.nbrEntries ≠ 1 := by
  have exhibited : ∃ s : World (Fin 1) Unit,
      Runs World.step World.InStep (World.init .one)
        [.post 0 (), .postPut 0 1 none, .fetch 0, .fetchPost 0 none, .post 0 ()] s ∧
      ¬ s.InStep (.postPut 0 0 none) ∧
        (s.step (.postPut 0 0 none)).any (fun t => decide t.Quiet) = true :=
    exists_run (by decide)
  obtain ⟨s, run, out, stops⟩ := exhibited
  obtain ⟨t, moved, quiet⟩ := (Option.any_eq_true ..).mp stops
  obtain ⟨conserved, broken⟩ := credits_conserved_while_in_step .one run
  exact ⟨s, t, run, conserved, moved,
    broken _ t [] t out moved .start (of_decide_eq_true quiet)⟩

/-- A post whose message finds the pool empty keeps the credit it has taken. -/
theorem credits_not_conserved :
    ¬ ∀ (as : List (Act (Fin 1) Unit)) (s : World (Fin 1) Unit),
      Runs World.step Machine.anyStep (World.init .one) as s → s.CreditsConserved .one := by
  intro conserved
  have exhibited : ∃ s : World (Fin 1) Unit,
      Runs World.step Machine.anyStep (World.init .one) [.post 0 (), .postPut 0 0 none] s ∧
      s.Quiet ∧ s.mbox.msgSem.ctr + s.mbox.msgQueen.msgQ.nbrEntries = 0 := exists_run (by decide)
  obtain ⟨s, run, quiet, none⟩ := exhibited
  have sum := conserved _ s run quiet
  rw [none] at sum
  cases sum

end ExploreF407.Mbox
