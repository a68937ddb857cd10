import Mathlib

/-! # Filling lines

Items are set one after the other along a line. An item that does not fit where the line has
come to begins the next line, where it is set in any case.
-/

namespace Lines

variable {β : Type*} (fits : β → Prop) [DecidablePred fits] (next : β → β) (first again : β)

/-- The line and the place on it, for an item that comes to `s`. -/
def settle (s : Nat × β) : Nat × β := if fits s.2 then s else (s.1 + 1, again)

def spot : Nat → Nat × β
  | 0 => settle fits again (0, first)
  | i + 1 => settle fits again ((spot i).1, next (spot i).2)

variable {fits next first again} {s : Nat × β} {i j m m₀ : Nat}

/-- Two items are on one line, the first of them before the other, or on different lines. -/
theorem spot_le (order : i ≤ j) :
    (spot fits next first again i).1 < (spot fits next first again j).1 ∨
      (spot fits next first again i).1 = (spot fits next first again j).1 ∧
        (spot fits next first again j).2 = next^[j - i] (spot fits next first again i).2 := by
  induction j, order using Nat.le_induction with
  | base => simp
  | succ j order ih =>
      simp only [spot, settle]
      split
      · rcases ih with before | ⟨same, along⟩
        · exact .inl before
        · refine .inr ⟨same, ?_⟩
          rw [along, Nat.succ_sub order, Function.iterate_succ_apply']
      · rcases ih with before | ⟨same, -⟩
        · exact .inl (Nat.lt_succ_of_lt before)
        · exact .inl (same ▸ Nat.lt_succ_self _)

theorem spot_line_mono (order : i ≤ j) :
    (spot fits next first again i).1 ≤ (spot fits next first again j).1 := by
  have later : (spot fits next first again i).1 < (spot fits next first again j).1 ∨ _ :=
    spot_le order
  rcases later with before | ⟨same, -⟩
  · exact before.le
  · exact same.le

/-! ## Lines of equal length -/

theorem next_row {q d : Nat} (more : q % d + 1 < d) :
    (q + 1) / d = q / d ∧ (q + 1) % d = q % d + 1 := by
  have positive : 0 < d := by omega
  apply (Nat.div_mod_unique positive).mpr
  refine ⟨?_, more⟩
  have whole := Nat.mod_add_div q d
  omega

theorem next_column {q d : Nat} (last : q % d + 1 = d) :
    (q + 1) / d = q / d + 1 ∧ (q + 1) % d = 0 := by
  have positive : 0 < d := by omega
  apply (Nat.div_mod_unique positive).mpr
  refine ⟨?_, positive⟩
  have whole := Nat.mod_add_div q d
  rw [Nat.mul_add, Nat.mul_one]
  omega

/-- When `m₀` items fit on the first line and `m` on each of the others, these are the places
    of the items. -/
theorem spot_eq (head : ∀ j < m₀, fits (next^[j] first)) (head' : ¬ fits (next^[m₀] first))
    (some' : 0 < m) (tail : ∀ j, 0 < j → j < m → fits (next^[j] again))
    (tail' : ¬ fits (next^[m] again)) (i : Nat) :
    spot fits next first again i =
      if i < m₀ then (0, next^[i] first) else (1 + (i - m₀) / m, next^[(i - m₀) % m] again) := by
  induction i with
  | zero =>
      rcases Nat.eq_zero_or_pos m₀ with rfl | one
      · simpa [spot, settle] using head'
      · simpa [spot, settle, one] using head 0 one
  | succ i ih =>
      simp only [spot, ih]
      rcases Nat.lt_trichotomy (i + 1) m₀ with inner | rfl | outer
      · have fit := head (i + 1) inner
        rw [Function.iterate_succ_apply'] at fit
        simp only [show i < m₀ by omega, inner, if_true, settle, fit, Function.iterate_succ_apply']
      · have over' := head'
        rw [Function.iterate_succ_apply'] at over'
        simp [settle, over']
      · obtain ⟨d, rfl⟩ := Nat.exists_eq_add_of_le (Nat.lt_succ_iff.mp outer)
        have here : m₀ + d - m₀ = d := by omega
        have there : m₀ + d + 1 - m₀ = d + 1 := by omega
        simp only [show ¬ m₀ + d < m₀ by omega, show ¬ m₀ + d + 1 < m₀ by omega, if_false, here,
          there, settle, ← Function.iterate_succ_apply', Nat.succ_eq_add_one]
        rcases Nat.lt_or_ge (d % m + 1) m with inner | last
        · obtain ⟨line, place⟩ := next_row inner
          simp only [tail _ (Nat.succ_pos _) inner, if_true, line, place]
        · have full : d % m + 1 = m := Nat.le_antisymm (Nat.mod_lt d some') last
          obtain ⟨line, place⟩ := next_column full
          simp only [full, tail', if_false, line, place, Function.iterate_zero, id_eq]
          rw [Nat.add_assoc]

end Lines
