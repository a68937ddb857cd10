import Mathlib

/-! # Circular lists with absolute positions

The cells of a circular list of `n` cells are visited over and over. Numbering the
visits gives every cell one position in each window of `n` consecutive positions.
-/

namespace Ring

variable {n : Nat} [NeZero n]

def slot (n : Nat) [NeZero n] (k : Nat) : Fin n := Fin.ofNat n k

theorem slot_zero : slot n 0 = 0 := rfl

theorem slot_succ (k : Nat) : slot n (k + 1) = slot n k + 1 := by
  simp only [slot]
  ext
  simp [Fin.add_def]

def after (i : Fin n) (d : Nat) : Fin n := slot n (i.val + d)

@[simp] theorem after_zero (i : Fin n) : after i 0 = i := by
  simp only [after, slot]
  ext
  simp

theorem after_succ (i : Fin n) (d : Nat) : after i (d + 1) = after i d + 1 := by
  rw [after, ← Nat.add_assoc, slot_succ]
  rfl

theorem after_slot (k d : Nat) : after (slot n k) d = slot n (k + d) := by
  simp only [after, slot]
  ext
  simp

theorem slot_add_self (k : Nat) : slot n (k + n) = slot n k := by
  simp only [slot]
  ext
  simp

/-- Two positions of one window that fall on the same cell are equal. -/
theorem slot_inj {a j k : Nat} (fromJ : a ≤ j) (belowJ : j < a + n) (fromK : a ≤ k)
    (belowK : k < a + n) (same : slot n j = slot n k) : j = k := by
  have cells : j % n = k % n := congrArg Fin.val same
  rcases Nat.le_total j k with le | le
  · have small : k - j < n := by omega
    have divides : n ∣ k - j :=
      Nat.dvd_of_mod_eq_zero (Nat.sub_mod_eq_zero_of_mod_eq cells.symm)
    have zero := Nat.eq_zero_of_dvd_of_lt divides small
    omega
  · have small : j - k < n := by omega
    have divides : n ∣ j - k :=
      Nat.dvd_of_mod_eq_zero (Nat.sub_mod_eq_zero_of_mod_eq cells)
    have zero := Nat.eq_zero_of_dvd_of_lt divides small
    omega

theorem exists_slot (a : Nat) (i : Fin n) : ∃ k, a ≤ k ∧ k < a + n ∧ slot n k = i := by
  have injective : Function.Injective (fun d : Fin n => slot n (a + d)) := by
    intro d e same
    have positions := slot_inj (a := a) (by omega) (by omega) (by omega) (by omega) same
    omega
  obtain ⟨d, meets⟩ := Finite.injective_iff_surjective.mp injective i
  exact ⟨a + d, by omega, by omega, meets⟩

variable {κ : Type*}

theorem update_slot_of_ne {a j k : Nat} (fromJ : a ≤ j) (belowJ : j < a + n) (fromK : a ≤ k)
    (belowK : k < a + n) (apart : j ≠ k) (cells : Fin n → κ) (x : κ) :
    Function.update cells (slot n k) x (slot n j) = cells (slot n j) := by
  apply Function.update_of_ne
  intro same
  exact apart (slot_inj fromJ belowJ fromK belowK same)

end Ring
