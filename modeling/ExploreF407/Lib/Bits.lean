import Mathlib

/-! # Sets of small numbers in the bits of words

The first number is the most significant bit of the first word. A word answers
for the numbers below its width, a table of words for those below the sum of the
widths.
-/

namespace Bits

variable {n i j : Nat} {w : BitVec n} {tbl : List (BitVec n)}

def bit (n i : Nat) : BitVec n := 1#n <<< (n - 1 - i)

theorem getMsbD_bit (inside : i < n) (j : Nat) : (bit n i).getMsbD j = decide (j = i) := by
  simp only [bit, BitVec.getMsbD_eq_getLsbD, BitVec.getLsbD_shiftLeft, BitVec.getLsbD_one]
  grind

theorem getMsbD_set (inside : i < n) (j : Nat) :
    (w ||| bit n i).getMsbD j = (w.getMsbD j || decide (j = i)) := by
  simp only [BitVec.getMsbD_or, getMsbD_bit inside]

theorem getMsbD_clear (inside : i < n) (j : Nat) :
    (w &&& ~~~bit n i).getMsbD j = (w.getMsbD j && !decide (j = i)) := by
  simp only [BitVec.getMsbD_and, BitVec.getMsbD_not, getMsbD_bit inside]
  by_cases below : j < n
  · simp [below]
  · simp [BitVec.getMsbD_of_ge w j (Nat.le_of_not_lt below)]

theorem clz_lt (some' : w ≠ 0#n) : w.clz.toNat < n := by
  have less := BitVec.clz_lt_iff_ne_zero.mpr some'
  have bound : (BitVec.ofNat n n).toNat ≤ n := by
    simp only [BitVec.toNat_ofNat]
    exact Nat.mod_le n (2 ^ n)
  exact lt_of_lt_of_le (BitVec.lt_def.mp less) bound

theorem clz_isLeast (some' : w ≠ 0#n) : IsLeast {i | w.getMsbD i = true} w.clz.toNat := by
  have inside := clz_lt some'
  constructor
  · have here := BitVec.getLsbD_true_clz_of_ne_zero (by omega) some'
    simpa [BitVec.getMsbD_eq_getLsbD, inside] using here
  · intro i member
    by_contra less
    have high := Nat.lt_of_not_le less
    simp only [Set.mem_ofPred_eq, BitVec.getMsbD_eq_getLsbD, Bool.and_eq_true,
      decide_eq_true_eq] at member
    have large := Nat.ge_two_pow_of_testBit member.2
    have small := BitVec.toNat_lt_two_pow_sub_clz (x := w)
    have order : 2 ^ (n - w.clz.toNat) ≤ 2 ^ (n - 1 - i) :=
      Nat.pow_le_pow_right (by omega) (by omega)
    omega

theorem exists_bit (some' : w ≠ 0#n) : ∃ i < n, w.getMsbD i = true :=
  ⟨_, clz_lt some', (clz_isLeast some').1⟩

/-! ## Tables -/

def member (tbl : List (BitVec n)) (i : Nat) : Bool := (tbl.getD (i / n) 0#n).getMsbD (i % n)

def first : List (BitVec n) → Option Nat
  | [] => none
  | w :: rest => if w = 0#n then (first rest).map (n + ·) else some w.clz.toNat

theorem member_head (inside : i < n) : member (w :: tbl) i = w.getMsbD i := by
  simp [member, Nat.div_eq_of_lt inside, Nat.mod_eq_of_lt inside]

theorem member_tail (some' : 0 < n) (i : Nat) : member (w :: tbl) (n + i) = member tbl i := by
  simp [member, Nat.add_div_left i some', Nat.add_mod_left]

theorem member_modify (inside : i < n * tbl.length) (f : BitVec n → BitVec n) (j : Nat) :
    member (tbl.modify (i / n) f) j =
      if j / n = i / n then (f (tbl.getD (i / n) 0#n)).getMsbD (j % n) else member tbl j := by
  have here : i / n < tbl.length := Nat.div_lt_of_lt_mul inside
  have word := List.getElem?_eq_getElem here
  by_cases same : j / n = i / n
  · simp [member, same, word]
  · have other : ¬ i / n = j / n := fun equal => same equal.symm
    simp [member, same, other]

theorem first_isLeast (some' : 0 < n) {p : Nat} (found : first tbl = some p) :
    IsLeast {i | member tbl i = true} p := by
  induction tbl generalizing p with
  | nil => cases found
  | cons w rest ih =>
      simp only [first] at found
      split at found
      · rename_i empty
        obtain ⟨q, deeper, rfl⟩ := Option.map_eq_some_iff.mp found
        obtain ⟨here, least⟩ := ih deeper
        constructor
        · simpa only [Set.mem_ofPred_eq, member_tail some'] using here
        · intro i inTable
          by_cases inside : i < n
          · simp [member_head inside, empty] at inTable
          · obtain ⟨k, rfl⟩ := Nat.exists_eq_add_of_le (Nat.le_of_not_lt inside)
            simp only [Set.mem_ofPred_eq, member_tail some'] at inTable
            exact Nat.add_le_add_left (least inTable) n
      · rename_i filled
        cases found
        obtain ⟨here, least⟩ := clz_isLeast filled
        constructor
        · simpa only [Set.mem_ofPred_eq, member_head (clz_lt filled)] using here
        · intro i inTable
          by_cases inside : i < n
          · simp only [Set.mem_ofPred_eq, member_head inside] at inTable
            exact least inTable
          · have := clz_lt filled
            omega

theorem first_eq_none (some' : 0 < n) :
    first tbl = none ↔ ∀ i, member tbl i = false := by
  induction tbl with
  | nil => simp [first, member]
  | cons w rest ih =>
      simp only [first]
      split
      · rename_i empty
        simp only [Option.map_eq_none_iff, ih]
        constructor
        · intro none i
          by_cases inside : i < n
          · simp [member_head inside, empty]
          · obtain ⟨k, rfl⟩ := Nat.exists_eq_add_of_le (Nat.le_of_not_lt inside)
            simpa only [member_tail some'] using none k
        · intro none i
          simpa only [member_tail some'] using none (n + i)
      · rename_i filled
        obtain ⟨i, inside, here⟩ := exists_bit filled
        simp only [reduceCtorEq, false_iff, not_forall]
        exact ⟨i, by simp [member_head inside, here]⟩

end Bits
