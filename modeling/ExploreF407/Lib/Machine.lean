import Mathlib

/-! # Runs of a labelled machine

A machine is a partial step function `σ → α → Option σ`. Everything that is not
decided by the state (which thread moves, what the environment answers) is part
of the label, so a list of labels determines a run. `Runs` carries a guard on
each step: the guard is where a result says what it assumes of the environment,
or which steps it excludes.
-/

namespace Machine

variable {σ α : Type*} {step : σ → α → Option σ} {ok ok' : σ → α → Prop}

/-- `Runs step ok s as t`: from `s` the labels `as` lead to `t`, and every step
    is taken in a state where `ok` allows its label. -/
inductive Runs (step : σ → α → Option σ) (ok : σ → α → Prop) (s : σ) : List α → σ → Prop where
  | start : Runs step ok s [] s
  | next {as t a u} : Runs step ok s as t → ok t a → step t a = some u →
      Runs step ok s (as ++ [a]) u

def anyStep (_ : σ) (_ : α) : Prop := True

instance (s : σ) (a : α) : Decidable (anyStep s a) := .isTrue trivial

/-- What holds at the start and is kept by every allowed step holds in every
    state that is reached. -/
theorem Runs.invariant {Inv : σ → Prop} {s t as} (run : Runs step ok s as t) (init : Inv s)
    (keep : ∀ t a u, Inv t → ok t a → step t a = some u → Inv u) : Inv t := by
  induction run with
  | start => exact init
  | next _ allowed moved ih => exact keep _ _ _ ih allowed moved

theorem Runs.weaken {s t as} (run : Runs step ok s as t) (sub : ∀ t a, ok t a → ok' t a) :
    Runs step ok' s as t := by
  induction run with
  | start => exact .start
  | next _ allowed moved ih => exact .next ih (sub _ _ allowed) moved

theorem Runs.trans {s t u as bs} (first : Runs step ok s as t) (second : Runs step ok t bs u) :
    Runs step ok s (as ++ bs) u := by
  induction second with
  | start => simpa using first
  | next _ allowed moved ih =>
      rw [← List.append_assoc]
      exact .next ih allowed moved

theorem Runs.one {s u a} (allowed : ok s a) (moved : step s a = some u) : Runs step ok s [a] u :=
  .next .start allowed moved

/-- The labels determine the run, whatever the guards. -/
theorem Runs.unique {s t u as} (left : Runs step ok s as t) (right : Runs step ok' s as u) :
    t = u := by
  induction left generalizing u with
  | start =>
      generalize none : [] = bs at right
      cases right with
      | start => rfl
      | next => simp at none
  | @next as t a t' _ _ moved ih =>
      generalize more : as ++ [a] = bs at right
      cases right with
      | start => simp at more
      | next before _ moved' =>
          obtain ⟨rfl, same⟩ := List.append_inj' more rfl
          cases same
          cases ih before
          exact Option.some.inj (moved.symm.trans moved')

def execute (step : σ → α → Option σ) (ok : σ → α → Prop) [∀ s a, Decidable (ok s a)] :
    σ → List α → Option σ
  | s, [] => some s
  | s, a :: as => if ok s a then (step s a).bind (fun u => execute step ok u as) else none

/-- A run can be exhibited by executing it. -/
theorem Runs.of_execute [∀ s a, Decidable (ok s a)] {s t as}
    (done : execute step ok s as = some t) : Runs step ok s as t := by
  induction as generalizing s with
  | nil =>
      simp only [execute, Option.some.injEq] at done
      subst done
      exact .start
  | cons a as ih =>
      by_cases allowed : ok s a
      · rw [execute, if_pos allowed, Option.bind_eq_some_iff] at done
        obtain ⟨u, moved, rest⟩ := done
        exact (Runs.one allowed moved).trans (ih rest)
      · rw [execute, if_neg allowed] at done
        cases done

/-- The same, with a decidable property of the state that is reached. -/
theorem exists_run [∀ s a, Decidable (ok s a)] {P : σ → Prop} [DecidablePred P] {s as}
    (done : (execute step ok s as).any (fun t => decide (P t)) = true) :
    ∃ t, Runs step ok s as t ∧ P t := by
  obtain ⟨t, ends, holds⟩ := (Option.any_eq_true ..).mp done
  exact ⟨t, Runs.of_execute ends, of_decide_eq_true holds⟩

/-! ## Machines that reply

A component called from outside answers every call. `replies` collects the
answers; `none` means that a call did not return.
-/

variable {ρ β : Type*}

def replies (call : σ → α → Option (σ × β)) : σ → List α → Option (σ × List β)
  | s, [] => some (s, [])
  | s, a :: as => do
      let (t, b) ← call s a
      let (u, bs) ← replies call t as
      return (u, b :: bs)

theorem replies_cons {call : σ → α → Option (σ × β)} {s a as u bs} :
    replies call s (a :: as) = some (u, bs) ↔
      ∃ t b rest, call s a = some (t, b) ∧ replies call t as = some (u, rest) ∧ bs = b :: rest := by
  simp only [replies, Option.bind_eq_bind, Option.bind_eq_some_iff, Option.pure_def,
    Option.some.injEq, Prod.mk.injEq, Prod.exists]
  constructor
  · rintro ⟨t, b, called, u', rest, more, rfl, rfl⟩
    exact ⟨t, b, rest, called, more, rfl⟩
  · rintro ⟨t, b, rest, called, more, rfl⟩
    exact ⟨t, b, called, u, rest, more, rfl, rfl⟩

/-- Forward simulation: if one call of the specification is matched by one call
    of the implementation with the same reply, so is every sequence of calls. -/
theorem replies_simulated {spec : ρ → α → Option (ρ × β)} {impl : σ → α → Option (σ × β)}
    {R : ρ → σ → Prop} {good : α → Prop}
    (sim : ∀ r s a r' b, R r s → good a → spec r a = some (r', b) →
      ∃ s', impl s a = some (s', b) ∧ R r' s')
    {r s as r' bs} (related : R r s) (allGood : ∀ a ∈ as, good a)
    (run : replies spec r as = some (r', bs)) :
    ∃ s', replies impl s as = some (s', bs) ∧ R r' s' := by
  induction as generalizing r s bs with
  | nil =>
      simp only [replies, Option.some.injEq, Prod.mk.injEq] at run
      obtain ⟨rfl, rfl⟩ := run
      exact ⟨s, rfl, related⟩
  | cons a as ih =>
      obtain ⟨t, b, rest, called, more, rfl⟩ := replies_cons.mp run
      obtain ⟨s₁, implCalled, related₁⟩ := sim r s a t b related (allGood a (by simp)) called
      obtain ⟨s₂, implMore, related₂⟩ :=
        ih related₁ (fun c member => allGood c (List.mem_cons_of_mem _ member)) more
      exact ⟨s₂, replies_cons.mpr ⟨s₁, b, rest, implCalled, implMore, rfl⟩, related₂⟩

end Machine
