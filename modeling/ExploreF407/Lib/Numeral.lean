import Mathlib

/-! # Positional numerals

The digits of a number in a base, without leading zeros. Zero has one digit. `units`
has the lowest digit first, as repeated division finds them.
-/

namespace Numeral

variable {b n k : Nat}

def units (b n : Nat) : List Nat := if n = 0 then [0] else Nat.digits b n

def numeral (b n : Nat) : List Nat := (units b n).reverse

/-- The number with the digits `ds`, the highest one first. -/
def value (b : Nat) (ds : List Nat) : Nat := ds.foldl (fun v d => v * b + d) 0

theorem units_step (base : 1 < b) (n : Nat) :
    units b n = n % b :: if n / b = 0 then [] else units b (n / b) := by
  unfold units
  by_cases zero : n = 0
  · subst zero
    simp
  · rw [if_neg zero, Nat.digits_def' base (Nat.pos_of_ne_zero zero)]
    split
    · rename_i none
      rw [none, Nat.digits_zero]
    · rfl

theorem length_units_pos (base : 1 < b) : 0 < (units b n).length := by
  rw [units_step base]
  simp

theorem length_units_le (base : 1 < b) (positive : 0 < k) :
    (units b n).length ≤ k ↔ n < b ^ k := by
  unfold units
  split
  · rename_i zero
    subst zero
    simp only [List.length_singleton]
    exact iff_of_true positive (Nat.pow_pos (by omega))
  · exact Nat.digits_length_le_iff base n

theorem lt_of_mem_units (base : 1 < b) {d : Nat} (member : d ∈ units b n) : d < b := by
  unfold units at member
  split at member
  · simp only [List.mem_singleton] at member
    omega
  · exact Nat.digits_lt_base base member

@[simp] theorem length_numeral : (numeral b n).length = (units b n).length := by
  simp [numeral]

theorem lt_of_mem_numeral (base : 1 < b) {d : Nat} (member : d ∈ numeral b n) : d < b :=
  lt_of_mem_units base (List.mem_reverse.mp member)

/-- Reading a numeral gives the number back. -/
theorem value_numeral : value b (numeral b n) = n := by
  have read : ∀ ds : List Nat, value b ds.reverse = Nat.ofDigits b ds := by
    intro ds
    rw [value, List.foldl_reverse, Nat.ofDigits_eq_foldr]
    apply congrArg (fun f => List.foldr f 0 ds)
    funext d v
    rw [Nat.cast_id]
    ring
  rw [numeral, read, units]
  split
  · rename_i zero
    simp [zero]
  · exact Nat.ofDigits_digits b n

theorem le_length_units (base : 1 < b) (positive : 0 < k) :
    k ≤ (units b n).length ↔ k = 1 ∨ b ^ (k - 1) ≤ n := by
  by_cases one : k = 1
  · have := length_units_pos (n := n) base
    exact iff_of_true (by omega) (.inl one)
  · have short := length_units_le (n := n) base (k := k - 1) (by omega)
    omega

theorem leftpad_numeral (long : k ≤ (units b n).length) :
    List.leftpad k 0 (numeral b n) = numeral b n := by
  rw [List.leftpad, length_numeral, Nat.sub_eq_zero_of_le long]
  rfl

end Numeral
