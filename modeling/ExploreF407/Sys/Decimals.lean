import ExploreF407.Sys.Printing

/-! # What `_ftoa` prints

The integer part and the digits behind the point are printed by separate calls. Nothing
puts in the zeros that come first behind the point, and nothing takes the sign off the
part behind it.
-/

namespace ExploreF407.Sys

open Numeral

def truncate (x : ℚ) : Int := if 0 ≤ x then ⌊x⌋ else ⌈x⌉

/-- The decimal fraction `t / 10 ^ precision`. -/
def decimalText (precision : Nat) (t : Int) : List UInt8 :=
  (if t < 0 then [45] else []) ++ numeralText 10 (t.natAbs / 10 ^ precision) ++
    46 :: (List.leftpad precision 0 (numeral 10 (t.natAbs % 10 ^ precision))).map index

example : decimalText 2 (-106) = "-1.06".toList.map (·.toUInt8) := by decide

/-! ## Truncation -/

section

variable {x : ℚ} {p : Nat}

theorem truncate_of_nonneg (nonneg : 0 ≤ x) : truncate x = ⌊x⌋₊ := by
  rw [truncate, if_pos nonneg, Int.natCast_floor_eq_floor nonneg]

theorem truncate_of_neg (neg : x < 0) : truncate x = -⌊-x⌋₊ := by
  rw [truncate, if_neg (not_le.mpr neg), Int.natCast_floor_eq_floor (by linarith), Int.floor_neg,
    neg_neg]

theorem natAbs_truncate (x : ℚ) : (truncate x).natAbs = ⌊|x|⌋₊ := by
  rcases le_or_gt 0 x with nonneg | neg
  · rw [truncate_of_nonneg nonneg, abs_of_nonneg nonneg, Int.natAbs_natCast]
  · rw [truncate_of_neg neg, abs_of_neg neg, Int.natAbs_neg, Int.natAbs_natCast]

theorem truncate_nonneg : 0 ≤ truncate x ↔ -1 < x := by
  rcases le_or_gt 0 x with nonneg | neg
  · rw [truncate_of_nonneg nonneg]
    exact iff_of_true (Int.natCast_nonneg _) (by linarith)
  · rw [truncate_of_neg neg]
    have small : ⌊-x⌋₊ = 0 ↔ -1 < x := by
      rw [Nat.floor_eq_zero]
      constructor <;> intro _ <;> linarith
    rw [← small]
    omega

theorem toInt_eq (small : |x| < 2 ^ 31) : toInt x = truncate x := by
  obtain ⟨low, high⟩ := abs_lt.mp small
  unfold toInt truncate
  split
  · have above : 0 ≤ ⌊x⌋ := Int.floor_nonneg.mpr ‹_›
    have below : ⌊x⌋ < 2 ^ 31 := Int.floor_lt.mpr (by exact_mod_cast high)
    omega
  · have below : ⌈x⌉ ≤ 0 := Int.ceil_le.mpr (by push_cast; linarith)
    have above : -2 ^ 31 < ⌈x⌉ := Int.lt_ceil.mpr (by exact_mod_cast low)
    omega

theorem natAbs_truncate_lt (small : |x| < 2 ^ 31) : (truncate x).natAbs < 2 ^ 31 := by
  rw [natAbs_truncate]
  exact (Nat.floor_lt (abs_nonneg x)).mpr (by exact_mod_cast small)

/-- The integer part is what is left when the decimals are dropped. -/
theorem natAbs_truncate_div (num : ℚ) (p : Nat) :
    (truncate (num * 10 ^ p)).natAbs / 10 ^ p = (truncate num).natAbs := by
  have positive : (0 : ℚ) < 10 ^ p := by positivity
  have scaled : |num * 10 ^ p| / ((10 ^ p : Nat) : ℚ) = |num| := by
    rw [abs_mul, abs_of_pos positive]
    push_cast
    exact mul_div_cancel_right₀ _ positive.ne'
  rw [natAbs_truncate, natAbs_truncate, ← Nat.floor_div_natCast, scaled]

end

/-! ## The pieces of the text -/

section

variable {s : Buffer} {k i : Nat} {xs ys : List UInt8}

namespace Buffer

theorem write_again (far : xs.length ≤ ys.length) : (s.write k xs).write k ys = s.write k ys := by
  funext j
  rcases Nat.lt_or_ge j k with before | behind
  · rw [write_outside (.inl before), write_outside (.inl before), write_outside (.inl before)]
  · obtain ⟨d, rfl⟩ := Nat.exists_eq_add_of_le behind
    rcases Nat.lt_or_ge d ys.length with inside | outside
    · have here := List.getElem?_eq_getElem inside
      rw [write_get here, write_get here]
    · rw [write_outside (.inr (by omega)), write_outside (.inr (by omega)),
        write_outside (.inr (by omega))]

theorem write_over (inside : i ≤ xs.length) (far : xs.length ≤ i + ys.length) :
    (s.write k xs).write (k + i) ys = s.write k (xs.take i ++ ys) := by
  have taken : (xs.take i).length = i := by
    rw [List.length_take]
    omega
  have split : s.write k xs = (s.write k (xs.take i)).write (k + i) (xs.drop i) := by
    conv_lhs => rw [← List.take_append_drop i xs, ← write_write, taken]
  rw [split, write_again (by rw [List.length_drop]; omega)]
  conv_lhs => rw [← taken]
  rw [taken, ← write_write, taken]

end Buffer

end

variable {num : ℚ} {p : Nat} {s : Buffer}

theorem stringLength_eq {left n : Nat} (room : (units 10 n).length ≤ left) :
    stringLength left n = (units 10 n).length := by
  induction left generalizing n with
  | zero =>
      have := length_units_pos (n := n) (b := 10) (by omega)
      omega
  | succ left ih =>
      have step := units_step (b := 10) (by omega) n
      rw [stringLength]
      split
      · rename_i last
        rw [step, if_pos last]
        rfl
      · rename_i more
        rw [if_neg more] at step
        rw [step, List.length_cons] at room ⊢
        rw [ih (by omega)]

/-- What is printed behind the point. -/
def fraction (num : ℚ) (precision : Nat) : Nat :=
  (toInt (num * ipow 10 precision - ((truncate num * ipow 10 precision).bmod (2 ^ 32) : Int))
    % 2 ^ 32).toNat

/-- The integer part as it remains once the point has been put in. -/
def integerText (t : Int) : List UInt8 := (signedText 10 t).take (units 10 t.natAbs).length

theorem signedText_ten {t : Int} (small : t.natAbs < 2 ^ 31) :
    signedText 10 t = (if t < 0 then [45] else []) ++ numeralText 10 t.natAbs := by
  unfold signedText
  by_cases negative : t < 0
  · have magnitude : (-t).toNat = t.natAbs := by omega
    rw [if_pos ⟨rfl, negative⟩, if_pos negative, magnitude, List.singleton_append]
  · have magnitude : (t % 2 ^ 32).toNat = t.natAbs := by omega
    rw [if_neg (fun both => negative both.2), if_neg negative, magnitude, List.nil_append]

theorem clip_short {w : List UInt8} (short : w.length ≤ 11) : clip w = w :=
  if_pos (Nat.lt_succ_of_le short)

theorem length_numeralText_le {n : Nat} (small : n < 2 ^ 32) :
    (numeralText 10 n).length ≤ 10 := by
  rw [numeralText, List.length_map, length_numeral, length_units_le (by omega) (by omega)]
  omega

theorem fraction_lt (num : ℚ) (p : Nat) : fraction num p < 2 ^ 32 := by
  unfold fraction
  omega

theorem ftoa_eq (small : |num| < 2 ^ 31) :
    ftoa .exact num p s =
      s.write 0 (integerText (truncate num) ++ 46 :: (numeralText 10 (fraction num p)) ++ [0]) := by
  have magnitude := natAbs_truncate_lt small
  have digits := length_numeralText_le (n := (truncate num).natAbs) (by omega)
  have sign := signedText_ten magnitude
  have length : (numeralText 10 (truncate num).natAbs).length =
      (units 10 (truncate num).natAbs).length := by
    rw [numeralText, List.length_map, length_numeral]
  have between : (signedText 10 (truncate num)).length ≤ (units 10 (truncate num).natAbs).length + 1 ∧
      (units 10 (truncate num).natAbs).length ≤ (signedText 10 (truncate num)).length := by
    rw [sign, List.length_append, length]
    split <;> simp only [List.length_cons, List.length_nil] <;> omega
  have counted : stringLength 10 (truncate num).natAbs = (units 10 (truncate num).natAbs).length :=
    stringLength_eq (by omega)
  have first := clip_short (w := signedText 10 (truncate num)) (by omega)
  have behind := clip_short (Nat.le_succ_of_le (length_numeralText_le (fraction_lt num p)))
  have point : (s.write 0 (signedText 10 (truncate num) ++ [0])).write
      (0 + (units 10 (truncate num).natAbs).length)
        (46 :: (numeralText 10 (fraction num p) ++ [0])) = _ :=
    Buffer.write_over
    (by rw [List.length_append]; omega)
    (by simp only [List.length_append, List.length_cons, List.length_nil]; omega)
  rw [List.take_append_of_le_length between.2, Nat.zero_add] at point
  unfold ftoa
  simp only [Fpu.exact, id, toInt_eq small, counted]
  rw [itoa_eq (by omega) (by omega) (by omega), first, uitoa_eq (by omega)]
  change ((s.write 0 (signedText 10 (truncate num) ++ [0])).set _ 46).write _
    (clip (numeralText 10 (fraction num p)) ++ [0]) = _
  rw [behind, Buffer.set_write, point, integerText, List.append_assoc, List.cons_append]

/-! ## When the text is right -/

theorem ipow_ten (short : p ≤ 9) : ipow 10 p = 10 ^ p := by
  have all : ∀ p : Fin 10, ipow 10 p = 10 ^ p.val := by decide
  exact all ⟨p, Nat.lt_succ_of_le short⟩

theorem natAbs_truncate_mul_le (num : ℚ) (p : Nat) :
    (truncate num * 10 ^ p).natAbs ≤ (truncate (num * 10 ^ p)).natAbs := by
  rw [Int.natAbs_mul, ← natAbs_truncate_div num p, Int.natAbs_pow]
  exact Nat.div_mul_le_self _ _

theorem scaled_eq (short : p ≤ 9) (small : |num * 10 ^ p| < 2 ^ 31) :
    (truncate num * ipow 10 p).bmod (2 ^ 32) = truncate num * 10 ^ p := by
  have magnitude := natAbs_truncate_lt small
  have product := natAbs_truncate_mul_le num p
  rw [ipow_ten short]
  apply Int.bmod_eq_of_le <;> norm_num <;> omega

/-- What is left of the scaled number when the integer part is taken away is cut off as a
    whole. -/
theorem toInt_rest (small : |num * 10 ^ p| < 2 ^ 31) (above : -1 < num * 10 ^ p) :
    toInt (num * 10 ^ p - (truncate num * 10 ^ p : Int)) =
      truncate (num * 10 ^ p) - truncate num * 10 ^ p := by
  have positive : (0 : ℚ) < 10 ^ p := by positivity
  rcases le_or_gt 0 num with nonneg | neg
  · have scaled : 0 ≤ num * 10 ^ p := mul_nonneg nonneg positive.le
    have floor : (truncate num : ℚ) ≤ num := by
      rw [truncate, if_pos nonneg]
      exact Int.floor_le num
    have rest : 0 ≤ num * 10 ^ p - (truncate num * 10 ^ p : Int) := by
      push_cast
      exact sub_nonneg.mpr (mul_le_mul_of_nonneg_right floor positive.le)
    have part : 0 ≤ (truncate num : ℚ) * 10 ^ p := by
      apply mul_nonneg _ positive.le
      rw [truncate, if_pos nonneg]
      exact_mod_cast Int.floor_nonneg.mpr nonneg
    rw [toInt_eq]
    · rw [truncate, if_pos rest, Int.floor_sub_intCast]
      conv_rhs => rw [truncate, if_pos scaled]
    · rw [abs_of_nonneg scaled] at small
      rw [abs_of_nonneg rest]
      push_cast
      linarith
  · -- Only the decimals that are cut off are not zero.
    have none : truncate (num * 10 ^ p) = 0 := by
      have nonneg := truncate_nonneg.mpr above
      have scaled : num * 10 ^ p < 0 := mul_neg_of_neg_of_pos neg positive
      rw [truncate_of_neg scaled] at nonneg ⊢
      omega
    have none' : truncate num = 0 := by
      have whole := natAbs_truncate_div num p
      rw [none, Int.natAbs_zero, Nat.zero_div] at whole
      exact Int.natAbs_eq_zero.mp whole.symm
    rw [none', none, zero_mul, Int.cast_zero, sub_zero, toInt_eq small, none]
    rfl

theorem fraction_eq (short : p ≤ 9) (small : |num * 10 ^ p| < 2 ^ 31) (above : -1 < num * 10 ^ p) :
    fraction num p = (truncate (num * 10 ^ p)).natAbs % 10 ^ p := by
  have whole := natAbs_truncate_div num p
  have magnitude := natAbs_truncate_lt small
  have nonneg := truncate_nonneg.mpr above
  have rest := toInt_rest small above
  have nonneg' : 0 ≤ truncate num := by
    have one : (1 : ℚ) ≤ 10 ^ p := one_le_pow₀ (by norm_num)
    rw [truncate_nonneg]
    by_contra below
    have scaled : num * 10 ^ p ≤ num := by nlinarith
    linarith
  obtain ⟨n, all⟩ := Int.eq_ofNat_of_zero_le nonneg
  obtain ⟨m, units⟩ := Int.eq_ofNat_of_zero_le nonneg'
  rw [fraction, scaled_eq short small, ipow_ten short]
  push_cast at rest ⊢
  rw [rest, all, units, Int.natAbs_natCast]
  rw [all, Int.natAbs_natCast] at magnitude
  rw [all, units, Int.natAbs_natCast, Int.natAbs_natCast] at whole
  have parts := Nat.div_add_mod' n (10 ^ p)
  rw [whole] at parts
  have difference : (n : Int) - m * 10 ^ p = (n % 10 ^ p : Nat) := by
    rw [sub_eq_iff_eq_add']
    exact_mod_cast parts.symm
  rw [difference]
  have le := Nat.mod_le n (10 ^ p)
  omega

/-- Nine digits at most come out of the power that has overflowed first. -/
theorem fraction_ten (small : |num * 10 ^ 10| < 2 ^ 31) (above : -1 < num * 10 ^ 10) :
    fraction num 10 < 10 ^ 9 := by
  have power : ipow 10 10 = 1410065408 := by decide
  obtain ⟨low, high⟩ := abs_lt.mp small
  have none : truncate num = 0 := by
    rw [← Int.natAbs_eq_zero, natAbs_truncate, Nat.floor_eq_zero, abs_lt]
    constructor <;> linarith
  have below : |num * 1410065408| < 10 ^ 9 := by
    rw [abs_lt]
    constructor <;> linarith
  have sign : 0 ≤ truncate (num * 1410065408) := truncate_nonneg.mpr (by linarith)
  have magnitude := natAbs_truncate (num * 1410065408)
  have floor : ⌊|num * 1410065408|⌋₊ < 10 ^ 9 :=
    (Nat.floor_lt (abs_nonneg _)).mpr (by exact_mod_cast below)
  rw [fraction, power, none, zero_mul, Int.zero_bmod, Int.cast_zero, sub_zero]
  push_cast
  rw [toInt_eq (below.trans (by norm_num))]
  omega

theorem integerText_of_nonneg {t : Int} (nonneg : 0 ≤ t) (small : t.natAbs < 2 ^ 31) :
    integerText t = numeralText 10 t.natAbs := by
  rw [integerText, signedText_ten small, if_neg (not_lt.mpr nonneg), List.nil_append]
  apply List.take_of_length_le
  rw [numeralText, List.length_map, length_numeral]

/-- Behind the point the digits are padded only where that does nothing. -/
theorem fraction_padded_iff (some' : 1 ≤ p) (small : |num * 10 ^ p| < 2 ^ 31)
    (above : -1 < num * 10 ^ p) :
    numeralText 10 (fraction num p) =
        (List.leftpad p 0 (numeral 10 ((truncate (num * 10 ^ p)).natAbs % 10 ^ p))).map index ↔
      p ≤ 9 ∧ (p = 1 ∨ 10 ^ (p - 1) ≤ (truncate (num * 10 ^ p)).natAbs % 10 ^ p) := by
  rw [← le_length_units (by omega) some']
  constructor
  · intro same
    have lengths := congrArg List.length same
    simp only [numeralText, List.length_map, List.length_leftpad, length_numeral] at lengths
    have ten := length_numeralText_le (fraction_lt num p)
    simp only [numeralText, List.length_map, length_numeral] at ten
    have short : p ≤ 9 := by
      by_contra long
      obtain rfl : p = 10 := by omega
      have nine := (length_units_le (b := 10) (k := 9) (by omega) (by omega)).mpr
        (fraction_ten small above)
      omega
    rw [fraction_eq short small above] at lengths
    exact ⟨short, by omega⟩
  · rintro ⟨short, long⟩
    rw [fraction_eq short small above, leftpad_numeral long, numeralText]

theorem length_integerText {t : Int} (small : t.natAbs < 2 ^ 31) :
    (integerText t).length = (units 10 t.natAbs).length := by
  rw [integerText, signedText_ten small, List.length_take, List.length_append, numeralText,
    List.length_map, length_numeral]
  omega

theorem negative_wrong {t : Int} (small : t.natAbs < 2 ^ 31) (rest rest' : List UInt8) :
    integerText t ++ 46 :: rest ≠ 45 :: numeralText 10 t.natAbs ++ rest' := by
  intro same
  have length := length_integerText small
  have whole : (numeralText 10 t.natAbs).length = (units 10 t.natAbs).length := by
    rw [numeralText, List.length_map, length_numeral]
  have some' := length_units_pos (n := t.natAbs) (b := 10) (by omega)
  generalize (units 10 t.natAbs).length = n at length whole some'
  obtain ⟨last, rfl⟩ : ∃ last, n = last + 1 := ⟨_, (Nat.sub_add_cancel some').symm⟩
  have inside : last < (numeralText 10 t.natAbs).length := by omega
  have point : (integerText t ++ 46 :: rest)[last + 1]? = some 46 := by
    rw [List.getElem?_append_right (Nat.le_of_eq length), length, Nat.sub_self,
      List.getElem?_cons_zero]
  have digit : (45 :: numeralText 10 t.natAbs ++ rest')[last + 1]? =
      some (numeralText 10 t.natAbs)[last] := by
    rw [List.cons_append, List.getElem?_cons_succ, List.getElem?_append_left inside,
      List.getElem?_eq_getElem inside]
  rw [same, digit, Option.some.injEq] at point
  have large : 48 ≤ (numeralText 10 t.natAbs)[last] :=
    le_of_mem_numeralText (by omega) (by omega) (List.getElem_mem inside)
  rw [point] at large
  exact absurd large (by decide)

theorem ftoa_spells (small : |num| < 2 ^ 31) (w : List UInt8) :
    (ftoa .exact num p s).Spells 0 w ↔
      integerText (truncate num) ++ 46 :: numeralText 10 (fraction num p) = w := by
  have spelled : (ftoa .exact num p s).Spells 0
      (integerText (truncate num) ++ 46 :: numeralText 10 (fraction num p)) := by
    rw [ftoa_eq small]
    apply Buffer.write_spells
    intro zero
    rcases List.mem_append.mp zero with integer | decimals
    · exact signedText_ne (by omega) (by omega) 0 (List.mem_of_mem_take integer) rfl
    · rcases List.mem_cons.mp decimals with point | digit
      · cases point
      · exact (numeralText_ne (by omega) (by omega) digit).1 rfl
  constructor
  · exact spelled.unique
  · rintro rfl
    exact spelled

/-- When `_ftoa` prints the number it is given, cut off after `precision` decimals: the number
    has no sign then, there is no zero to be put in behind the point, and the power of ten
    does not overflow. -/
theorem ftoa_prints_iff (some' : 1 ≤ p) (small : |num| * 10 ^ p < 2 ^ 31) (s : Buffer) :
    (ftoa .exact num p s).Spells 0 (decimalText p (truncate (num * 10 ^ p))) ↔
      p ≤ 9 ∧ -1 < num * 10 ^ p ∧
        (p = 1 ∨ 10 ^ (p - 1) ≤ (truncate (num * 10 ^ p)).natAbs % 10 ^ p) := by
  have one : (1 : ℚ) ≤ 10 ^ p := one_le_pow₀ (by norm_num)
  have scaled : |num * 10 ^ p| < 2 ^ 31 := by
    rwa [abs_mul, abs_of_pos (zero_lt_one.trans_le one)]
  have integer : |num| < 2 ^ 31 := by
    have smaller : |num| ≤ |num| * 10 ^ p := le_mul_of_one_le_right (abs_nonneg num) one
    exact smaller.trans_lt small
  have magnitude := natAbs_truncate_lt integer
  rw [ftoa_spells integer, decimalText, natAbs_truncate_div]
  by_cases above : -1 < num * 10 ^ p
  · have nonneg : 0 ≤ truncate num := by
      rw [truncate_nonneg]
      by_contra below
      have lower : num * 10 ^ p ≤ num := by nlinarith
      linarith
    rw [integerText_of_nonneg nonneg magnitude, if_neg (not_lt.mpr (truncate_nonneg.mpr above)),
      List.nil_append, List.append_cancel_left_eq, List.cons.injEq,
      fraction_padded_iff some' scaled above]
    tauto
  · rw [if_pos (not_le.mp fun nonneg => above (truncate_nonneg.mp nonneg)), List.append_assoc]
    apply iff_of_false
    · rw [← List.append_assoc]
      exact negative_wrong magnitude _ _
    · exact fun holds => above holds.2.1

theorem ftoa_prints_iff_half :
    (ftoa .exact (5 / 2) 2 .zeroed).Spells 0 (decimalText 2 (truncate (5 / 2 * 10 ^ 2))) ↔
      2 ≤ 9 ∧ -1 < (5 / 2 : ℚ) * 10 ^ 2 ∧
        (2 = 1 ∨ 10 ^ (2 - 1) ≤ (truncate (5 / 2 * 10 ^ 2)).natAbs % 10 ^ 2) :=
  ftoa_prints_iff (by omega) (by rw [abs_of_pos] <;> norm_num) .zeroed

/-- For 1.0625 it prints "1.6". -/
theorem ftoa_zero_lost :
    ¬ (ftoa .exact (17 / 16) 2 .zeroed).Spells 0
      (decimalText 2 (truncate (17 / 16 * 10 ^ 2))) ∧
    (ftoa .exact (17 / 16) 2 .zeroed).Spells 0 [49, 46, 54] := by
  have hundredths : truncate (17 / 16 * 10 ^ 2) = 106 := by norm_num [truncate]
  have whole : truncate (17 / 16) = 1 := by norm_num [truncate]
  have behind : fraction (17 / 16) 2 = 6 := by
    rw [fraction_eq (by omega) (by rw [abs_of_pos] <;> norm_num) (by norm_num), hundredths]
    rfl
  have integer : |(17 / 16 : ℚ)| < 2 ^ 31 := by rw [abs_of_pos] <;> norm_num
  rw [ftoa_spells integer, ftoa_spells integer, hundredths, whole, behind]
  decide

end ExploreF407.Sys
