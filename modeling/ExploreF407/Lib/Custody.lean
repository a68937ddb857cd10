import ExploreF407.Lib.Machine

/-! # What is given out and given back

`tally` counts the steps of a run of one kind. `Custody` is about objects numbered in
the order in which they are given out, of which at most one is in hand: each of the
others has been given back exactly once.
-/

namespace Machine

variable {σ α ι : Type*} {step : σ → α → Option σ} {ok : σ → α → Prop}

/-- How many of the steps that the labels lead through satisfy `p`. -/
def tally (step : σ → α → Option σ) (p : σ → α → Prop) [∀ s a, Decidable (p s a)] :
    σ → List α → Nat
  | _, [] => 0
  | s, a :: as => (if p s a then 1 else 0) + ((step s a).map fun t => tally step p t as).getD 0

theorem Runs.tally_append {p : σ → α → Prop} [∀ s a, Decidable (p s a)] {s t : σ} {as : List α}
    (run : Runs step ok s as t) (bs : List α) :
    tally step p s (as ++ bs) = tally step p s as + tally step p t bs := by
  induction run generalizing bs with
  | start => simp [tally]
  | @next as t a u _ _ moved ih =>
      have one : tally step p t [a] = if p t a then 1 else 0 := by simp [tally, moved]
      have more : tally step p t (a :: bs) = (if p t a then 1 else 0) + tally step p u bs := by
        simp [tally, moved]
      calc tally step p s (as ++ [a] ++ bs)
        _ = tally step p s as + ((if p t a then 1 else 0) + tally step p u bs) := by
          rw [List.append_assoc, List.singleton_append, ih, more]
        _ = tally step p s (as ++ [a]) + tally step p u bs := by
          rw [ih, one, Nat.add_assoc]

theorem Runs.tally_next {p : σ → α → Prop} [∀ s a, Decidable (p s a)] {s t u : σ} {as : List α}
    {a : α} (run : Runs step ok s as t) (moved : step t a = some u) :
    tally step p s (as ++ [a]) = tally step p s as + if p t a then 1 else 0 := by
  rw [run.tally_append]
  simp [tally, moved]

/-- An invariant of the state and of how often steps of each of several kinds were taken. -/
theorem Runs.invariant_tally {p : ι → σ → α → Prop} [∀ i s a, Decidable (p i s a)]
    {Inv : σ → (ι → Nat) → Prop} {s t : σ} {as : List α} (run : Runs step ok s as t)
    (init : Inv s fun _ => 0)
    (keep : ∀ t a u n, Inv t n → ok t a → step t a = some u →
      Inv u fun i => n i + if p i t a then 1 else 0) :
    Inv t fun i => tally step (p i) s as := by
  induction run with
  | start => exact init
  | next before allowed moved ih =>
      simpa only [before.tally_next moved] using keep _ _ _ _ ih allowed moved

end Machine

/-- `made` objects have been given out, `held` is in hand, and `back` counts how often
    each has been given back. -/
structure Custody (made : Nat) (held : Option Nat) (back : Nat → Nat) : Prop where
  held_made : ∀ c, held = some c → c < made
  back_made : ∀ c < made, back c = if held = some c then 0 else 1
  unmade : ∀ c, made ≤ c → back c = 0

namespace Custody

variable {made : Nat} {back back' : Nat → Nat}

theorem init : Custody 0 none fun _ => 0 where
  held_made := nofun
  back_made := nofun
  unmade := fun _ _ => rfl

theorem takes (custody : Custody made none back) : Custody (made + 1) (some made) back where
  held_made := by
    intro c same
    cases same
    exact Nat.lt_succ_self _
  back_made := by
    intro c inside
    rcases Nat.lt_succ_iff_lt_or_eq.mp inside with old | rfl
    · simpa [Nat.ne_of_gt old] using custody.back_made c old
    · simpa using custody.unmade c le_rfl
  unmade := fun c beyond => custody.unmade c (Nat.le_of_succ_le beyond)

theorem gives {held : Nat} (custody : Custody made (some held) back)
    (once : ∀ c, back' c = back c + if c = held then 1 else 0) : Custody made none back' where
  held_made := nofun
  back_made := by
    intro c inside
    have before := custody.back_made c inside
    by_cases same : held = c
    · subst same
      simpa [before] using once held
    · have other : c ≠ held := fun same' => same same'.symm
      simpa [before, same, other] using once c
  unmade := by
    intro c beyond
    have other : c ≠ held := by
      have := custody.held_made held rfl
      omega
    simpa [other, custody.unmade c beyond] using once c

theorem uncounted {p : Nat → Prop} [DecidablePred p] (none : ∀ c, ¬ p c) :
    (fun c => back c + if p c then 1 else 0) = back := by
  funext c
  rw [if_neg (none c), Nat.add_zero]

theorem back_le {held : Option Nat} (custody : Custody made held back) (c : Nat) : back c ≤ 1 := by
  by_cases inside : c < made
  · rw [custody.back_made c inside]
    split <;> omega
  · rw [custody.unmade c (Nat.le_of_not_lt inside)]
    exact Nat.zero_le 1

end Custody
