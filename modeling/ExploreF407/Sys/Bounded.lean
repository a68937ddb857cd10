import ExploreF407.Sys.Decimals

/-! # What the conversions write

The conversions once more, with every write and every product looked at: they stop at a
write behind the `size` bytes of the buffer, and at an `int` that overflows. With room for
the digits, and an `int` for every product, they do what `_uitoa`, `_itoa` and `_ftoa` do.
-/

namespace ExploreF407.Sys

open Numeral

def signed (x : Int) : Option Int := if -2 ^ 31 ≤ x ∧ x < 2 ^ 31 then some x else none

def Buffer.put (size : Nat) (s : Buffer) (i : Nat) (c : UInt8) : Option Buffer :=
  if i < size then some (s.set i c) else none

/-- `putDigits`. -/
def putDigitsIn (size radix at' : Nat) : Nat → Nat → Nat → Buffer → Option (Nat × Buffer)
  | 0, _, i, s => do
      let s ← s.put size (at' + i - 2) 46
      let s ← s.put size (at' + i - 1) 46
      return (i, s)
  | left + 1, num, i, s => do
      let s ← s.put size (at' + i) (index (num % radix))
      if num / radix = 0 then return (i + 1, s)
      else putDigitsIn size radix at' left (num / radix) (i + 1) s

/-- `reverse`. -/
def reverseIn (size at' k i : Nat) (s : Buffer) : Option Buffer :=
  (List.range' k ((i - 1) / 2 + 1 - k)).foldlM (fun s j => do
    let t ← s.put size (at' + j) (s (at' + (i - 1 + k - j)))
    t.put size (at' + (i - 1 + k - j)) (s (at' + j))) s

/-- `_uitoa`. -/
def uitoaIn (size num radix at' : Nat) (s : Buffer) : Option Buffer := do
  let (i, s) ← putDigitsIn size radix at' (digit2StringLengthLimit - 1) num 0 s
  let s ← s.put size (at' + i) 0
  reverseIn size at' 0 i s

/-- `_itoa`. -/
def itoaIn (size : Nat) (num : Int) (radix at' : Nat) (s : Buffer) : Option Buffer := do
  let (i, s) ← if radix = 10 ∧ num < 0 then do
      let negated ← signed (-num)
      let s ← s.put size at' 45
      putDigitsIn size radix at' (digit2StringLengthLimit - 2) (negated % 2 ^ 32).toNat 1 s
    else putDigitsIn size radix at' (digit2StringLengthLimit - 1) (num % 2 ^ 32).toNat 0 s
  let s ← s.put size (at' + i) 0
  reverseIn size at' (if s at' = 45 then 1 else 0) i s

/-- `_ipow`. -/
def ipowIn (num : Int) : Nat → Option Int
  | 0 => some 1
  | power + 1 => do
      let result ← ipowIn num power
      signed (result * num)

/-- `_ftoa`, and the number `flo_part` it prints behind the point. -/
def ftoaIn (fpu : Fpu) (size : Nat) (num : ℚ) (precision : Nat) (s : Buffer) :
    Option (Nat × Buffer) := do
  let intPart ← signed (truncate num)
  let s ← itoaIn size intPart 10 0 s
  let length := stringLength 10 intPart.natAbs
  let s ← s.put size length 46
  let power ← ipowIn 10 precision
  let scaled ← signed (intPart * power)
  let rest ← signed (truncate (fpu.single (fpu.single (num * power) - fpu.single scaled)))
  let floPart := (rest % 2 ^ 32).toNat
  let s ← uitoaIn size floPart 10 (length + 1) s
  return (floPart, s)

/-! ## Writes within the buffer -/

section

variable {size radix at' left num i k : Nat} {s : Buffer} {c : UInt8}

theorem put_eq (inside : i < size) : s.put size i c = some (s.set i c) := if_pos inside

theorem putDigitsIn_eq (base : 1 < radix) (digits : (units radix num).length ≤ left)
    (room : at' + i + (units radix num).length ≤ size) :
    putDigitsIn size radix at' left num i s = some (putDigits radix at' left num i s) := by
  induction left generalizing num i s with
  | zero =>
      have := length_units_pos (n := num) base
      omega
  | succ left ih =>
      have step := units_step base num
      rw [putDigitsIn, putDigits, put_eq (by rw [step, List.length_cons] at room; omega)]
      simp only [Option.bind_eq_bind, Option.bind_some]
      split
      · rfl
      · rename_i more
        rw [if_neg more] at step
        rw [step, List.length_cons] at digits room
        exact ih (by omega) (by omega)

theorem foldlM_eq_some {α β : Type} {f : β → α → Option β} {g : β → α → β} {as : List α} (b : β)
    (goes : ∀ a ∈ as, ∀ b, f b a = some (g b a)) : as.foldlM f b = some (as.foldl g b) := by
  induction as generalizing b with
  | nil => rfl
  | cons a as ih =>
      rw [List.foldlM_cons, goes a List.mem_cons_self, List.foldl_cons]
      exact ih _ fun c member => goes c (List.mem_cons_of_mem _ member)

theorem reverseIn_eq (some' : 0 < i) (room : at' + i ≤ size) :
    reverseIn size at' k i s = some (reverse at' k i s) := by
  apply foldlM_eq_some
  intro j member b
  have round := List.mem_range'_1.mp member
  rw [put_eq (by omega), Option.bind_eq_bind, Option.bind_some, put_eq (by omega)]

theorem fst_putDigits (base : 1 < radix) (digits : (units radix num).length ≤ left) :
    (putDigits radix at' left num i s).1 = i + (units radix num).length := by
  rw [putDigits_eq base]
  simp [digits]

/-- The NUL goes behind the digits, and is the last byte that is needed. -/
theorem uitoaIn_eq (base : 1 < radix) (digits : (units radix num).length ≤ 11)
    (room : at' + (units radix num).length < size) :
    uitoaIn size num radix at' s = some (uitoa num radix at' s) := by
  have some' := length_units_pos (n := num) base
  have end' : (putDigits radix at' 11 _ 0 s).1 = 0 + _ := fst_putDigits base digits
  unfold uitoaIn uitoa
  rw [digit2StringLengthLimit, putDigitsIn_eq base digits (by omega)]
  simp only [Option.bind_eq_bind, Option.bind_some]
  rw [put_eq (by omega)]
  exact reverseIn_eq (by omega) (by omega)

theorem itoaIn_eq {num : Int} (base : 1 < radix) (nonneg : 0 ≤ num) (small : num < 2 ^ 32)
    (digits : (units radix num.natAbs).length ≤ 11)
    (room : at' + (units radix num.natAbs).length < size) :
    itoaIn size num radix at' s = some (itoa num radix at' s) := by
  have unsigned : (num % 2 ^ 32).toNat = num.natAbs := by omega
  have plain : ¬ (radix = 10 ∧ num < 0) := fun both => absurd both.2 (not_lt.mpr nonneg)
  have some' := length_units_pos (n := num.natAbs) base
  have end' : (putDigits radix at' 11 _ 0 s).1 = 0 + _ := fst_putDigits base digits
  unfold itoaIn itoa
  simp only [if_neg plain, unsigned, digit2StringLengthLimit]
  rw [putDigitsIn_eq base digits (by omega)]
  simp only [Option.bind_eq_bind, Option.bind_some]
  rw [put_eq (by omega)]
  exact reverseIn_eq (by omega) (by omega)

end

theorem ipowIn_ten {p : Nat} (short : p ≤ 9) : ipowIn 10 p = some (10 ^ p) := by
  have all : ∀ p : Fin 10, ipowIn 10 p = some (10 ^ p.val) := by decide
  exact all ⟨p, Nat.lt_succ_of_le short⟩

theorem signed_eq {x : Int} (low : -2 ^ 31 ≤ x) (high : x < 2 ^ 31) : signed x = some x :=
  if_pos ⟨low, high⟩

theorem signed_eq_some {x y : Int} : signed x = some y ↔ x = y ∧ -2 ^ 31 ≤ x ∧ x < 2 ^ 31 := by
  rw [signed, Option.ite_none_right_eq_some, Option.some.injEq, and_comm]

section

variable {num : ℚ} {p size : Nat} {s : Buffer}

theorem rest_bounds (nonneg : 0 ≤ num) :
    0 ≤ num * 10 ^ p - (truncate num * 10 ^ p : Int) ∧
      num * 10 ^ p - (truncate num * 10 ^ p : Int) ≤ num * 10 ^ p := by
  have positive : (0 : ℚ) < 10 ^ p := by positivity
  have below : (⌊num⌋ : ℚ) * 10 ^ p ≤ num * 10 ^ p :=
    mul_le_mul_of_nonneg_right (Int.floor_le num) positive.le
  have above : (0 : ℚ) ≤ ⌊num⌋ * 10 ^ p :=
    mul_nonneg (by exact_mod_cast Int.floor_nonneg.mpr nonneg) positive.le
  rw [truncate, if_pos nonneg]
  push_cast
  constructor <;> linarith

theorem abs_scaled_lt (nonneg : 0 ≤ num) (small : num * 10 ^ p < 2 ^ 31) :
    |num * 10 ^ p| < 2 ^ 31 ∧ |num| < 2 ^ 31 := by
  have one : (1 : ℚ) ≤ 10 ^ p := one_le_pow₀ (by norm_num)
  rw [abs_of_nonneg nonneg, abs_of_nonneg (mul_nonneg nonneg (zero_le_one.trans one))]
  exact ⟨small, (le_mul_of_one_le_right nonneg one).trans_lt small⟩

theorem truncate_rest (short : p ≤ 9) (nonneg : 0 ≤ num) (small : num * 10 ^ p < 2 ^ 31) :
    (truncate (num * 10 ^ p - (truncate num * 10 ^ p : Int))).natAbs < 2 ^ 31 ∧
      (truncate (num * 10 ^ p - (truncate num * 10 ^ p : Int)) % 2 ^ 32).toNat =
        fraction num p := by
  obtain ⟨restNonneg, restLe⟩ := rest_bounds (p := p) nonneg
  have restSmall : |num * 10 ^ p - (truncate num * 10 ^ p : Int)| < 2 ^ 31 := by
    rw [abs_of_nonneg restNonneg]
    exact restLe.trans_lt small
  have power : ((10 ^ p : Int) : ℚ) = 10 ^ p := by push_cast; rfl
  refine ⟨natAbs_truncate_lt restSmall, ?_⟩
  rw [fraction, scaled_eq short (abs_scaled_lt nonneg small).1, ipow_ten short, power,
    toInt_eq restSmall]

/-- With no overflow and with room for the digits on both sides of the point, `_ftoa`
    comes to its end. -/
theorem ftoaIn_eq (short : p ≤ 9) (nonneg : 0 ≤ num) (small : num * 10 ^ p < 2 ^ 31)
    (room : (units 10 (truncate num).natAbs).length + 1 + (units 10 (fraction num p)).length <
      size) :
    ftoaIn .exact size num p s = some (fraction num p, ftoa .exact num p s) := by
  obtain ⟨scaledSmall, numSmall⟩ := abs_scaled_lt nonneg small
  obtain ⟨rest, printed⟩ := truncate_rest short nonneg small
  have integer : 0 ≤ truncate num := truncate_nonneg.mpr (by linarith)
  have magnitude := natAbs_truncate_lt numSmall
  have product := (natAbs_truncate_mul_le num p).trans_lt (natAbs_truncate_lt scaledSmall)
  have tenDigits : (units 10 (truncate num).natAbs).length ≤ 10 :=
    (length_units_le (by omega) (by omega)).mpr (by omega)
  have counted := stringLength_eq tenDigits
  have power : ((10 ^ p : Int) : ℚ) = 10 ^ p := by push_cast; rfl
  -- One fact for each line of the function that may stop.
  have intPart : signed (truncate num) = some (truncate num) := signed_eq (by omega) (by omega)
  have before : itoaIn size (truncate num) 10 0 s = some (itoa (truncate num) 10 0 s) :=
    itoaIn_eq (by omega) integer (by omega) (by omega) (by omega)
  have point (t : Buffer) : t.put size (units 10 (truncate num).natAbs).length 46 =
      some (t.set (units 10 (truncate num).natAbs).length 46) := put_eq (by omega)
  have scaled : signed (truncate num * 10 ^ p) = some (truncate num * 10 ^ p) :=
    signed_eq (by omega) (by omega)
  have floPart : signed (truncate (num * 10 ^ p - (truncate num * 10 ^ p : Int))) =
      some (truncate (num * 10 ^ p - (truncate num * 10 ^ p : Int))) :=
    signed_eq (by omega) (by omega)
  have behind (t : Buffer) :
      uitoaIn size (fraction num p) 10 ((units 10 (truncate num).natAbs).length + 1) t =
        some (uitoa (fraction num p) 10 ((units 10 (truncate num).natAbs).length + 1) t) := by
    have digits := length_numeralText_le (fraction_lt num p)
    rw [numeralText, List.length_map, length_numeral] at digits
    exact uitoaIn_eq (by omega) (by omega) (by omega)
  have ended : ftoaIn .exact size num p s = some (fraction num p,
      uitoa (fraction num p) 10 ((units 10 (truncate num).natAbs).length + 1)
        ((itoa (truncate num) 10 0 s).set (units 10 (truncate num).natAbs).length 46)) := by
    simp only [ftoaIn, Fpu.exact, id, intPart, before, counted, point, ipowIn_ten short, scaled,
      power, floPart, printed, behind, Option.bind_eq_bind, Option.bind_some, Option.pure_def]
  have whole : ftoa .exact num p s = uitoa (fraction num p) 10
      ((units 10 (truncate num).natAbs).length + 1)
        ((itoa (truncate num) 10 0 s).set (units 10 (truncate num).natAbs).length 46) := by
    simp only [ftoa, fraction, Fpu.exact, id, toInt_eq numSmall, counted]
  rw [ended, whole]

/-! ## The text of a FLOAT cell -/

theorem fraction_le (nonneg : 0 ≤ num) (small : num * 10 ^ 2 < 2 ^ 31) : fraction num 2 ≤ 99 := by
  have above : -1 < num * 10 ^ 2 := by linarith [mul_nonneg nonneg (by norm_num : (0 : ℚ) ≤ 10 ^ 2)]
  rw [fraction_eq (by omega) (abs_scaled_lt nonneg small).1 above]
  omega

/-- Eight digits, the point, two digits and the NUL make twelve bytes. -/
theorem cell_room (nonneg : 0 ≤ num) (small : num * 10 ^ 2 < 2 ^ 31) :
    (units 10 (truncate num).natAbs).length + 1 + (units 10 (fraction num 2)).length <
      digit2StringLengthLimit := by
  have whole := natAbs_truncate_div num 2
  have magnitude := natAbs_truncate_lt (abs_scaled_lt nonneg small).1
  have eight : (units 10 (truncate num).natAbs).length ≤ 8 :=
    (length_units_le (by omega) (by omega)).mpr (by omega)
  have two : (units 10 (fraction num 2)).length ≤ 2 := by
    have := fraction_le nonneg small
    exact (length_units_le (by omega) (by omega)).mpr (by omega)
  rw [digit2StringLengthLimit]
  omega

/-- Has 24 binary digits, as a `float` does. -/
def IsSingle (x : ℚ) : Prop := ∃ m e : Int, |m| < 2 ^ 24 ∧ x = m * 2 ^ e

theorem IsSingle.integer (single : IsSingle num) (large : 2 ^ 24 ≤ num) : ∃ n : Int, num = n := by
  obtain ⟨m, e, digits, rfl⟩ := single
  have short : (m : ℚ) < 2 ^ 24 := by exact_mod_cast (le_abs_self m).trans_lt digits
  have positive : (0 : ℚ) < 2 ^ e := by positivity
  have whole : 0 ≤ e := by
    by_contra fraction
    have le : (2 : ℚ) ^ e ≤ 1 := zpow_le_one_of_nonpos₀ (by norm_num) (by omega)
    nlinarith
  obtain ⟨n, rfl⟩ := Int.eq_ofNat_of_zero_le whole
  exact ⟨m * 2 ^ n, by push_cast; rfl⟩

theorem IsSingle.scaled (single : IsSingle num) (nonneg : 0 ≤ num)
    (product : truncate num * 100 < 2 ^ 31) : num * 100 < 2 ^ 31 := by
  rw [truncate, if_pos nonneg] at product
  rcases lt_or_ge num (2 ^ 24) with short | large
  · linarith
  · obtain ⟨n, rfl⟩ := single.integer large
    rw [Int.floor_intCast] at product
    exact_mod_cast product

end

/-- What is asked of `_ftoa` for a FLOAT cell: with the number scaled by a hundred an `int`
    it comes to its end with no overflow and no write outside the twelve bytes of `String`,
    and prints a number of at most two digits behind the point. A `float` for which it
    comes to its end is so. -/
theorem ftoa_fits {num : ℚ} (nonneg : 0 ≤ num) (s : Buffer) :
    (num * 100 < 2 ^ 31 → ∃ floPart ≤ 99,
      ftoaIn .exact digit2StringLengthLimit num 2 s = some (floPart, ftoa .exact num 2 s) ∧
        ∀ j, digit2StringLengthLimit ≤ j → ftoa .exact num 2 s j = s j) ∧
      ∀ fpu, IsSingle num → (ftoaIn fpu digit2StringLengthLimit num 2 s).isSome →
        num * 100 < 2 ^ 31 := by
  constructor
  · intro small
    have small' : num * 10 ^ 2 < 2 ^ 31 := by linarith
    have room := cell_room nonneg small'
    refine ⟨fraction num 2, fraction_le nonneg small',
      ftoaIn_eq (by omega) nonneg small' room, ?_⟩
    intro j beyond
    rw [ftoa_eq (abs_scaled_lt nonneg small').2]
    apply Buffer.write_outside
    have integer := length_integerText (natAbs_truncate_lt (abs_scaled_lt nonneg small').2)
    simp only [List.length_append, List.length_cons, List.length_nil, numeralText, List.length_map,
      length_numeral, integer]
    omega
  · intro fpu single ends
    apply single.scaled nonneg
    obtain ⟨result, ends⟩ := Option.isSome_iff_exists.mp ends
    simp only [ftoaIn, ipowIn_ten (p := 2) (by omega), Option.bind_eq_bind,
      Option.bind_eq_some_iff] at ends
    obtain ⟨intPart, integer, -, -, -, -, power, hundred, scaled, product, -⟩ := ends
    cases hundred
    obtain ⟨rfl, -⟩ := signed_eq_some.mp integer
    exact (signed_eq_some.mp product).2.2

/-- The largest number of hundredths takes all twelve bytes. -/
theorem ftoa_fits_largest : ∃ floPart ≤ 99,
    ftoaIn .exact digit2StringLengthLimit (2147483647 / 100) 2 .zeroed =
      some (floPart, ftoa .exact (2147483647 / 100) 2 .zeroed) := by
  have nonneg : (0 : ℚ) ≤ 2147483647 / 100 := by norm_num
  have fits := (ftoa_fits nonneg .zeroed).1 (by norm_num)
  obtain ⟨floPart, two, ends, -⟩ := fits
  exact ⟨floPart, two, ends⟩

end ExploreF407.Sys
