import Mathlib

/-! # Numbers as text

The conversions of `system.c`. They write into a buffer of bytes that the caller
provides, from the index `at'` on.
-/

namespace ExploreF407.Sys

/-- Rounding to single and to double precision. -/
structure Fpu where
  single : ℚ → ℚ
  double : ℚ → ℚ
  single_nonneg : ∀ x, 0 ≤ x → 0 ≤ single x
  double_nonneg : ∀ x, 0 ≤ x → 0 ≤ double x

/-- Arithmetic that never has to round. -/
def Fpu.exact : Fpu where
  single := id
  double := id
  single_nonneg := fun _ nonneg => nonneg
  double_nonneg := fun _ nonneg => nonneg

/-- The memory behind a `char *`. -/
def Buffer := Nat → UInt8

def Buffer.set (s : Buffer) (i : Nat) (c : UInt8) : Buffer :=
  fun j => if j = i then c else s j

def digit2StringLengthLimit : Nat := 12

/-- The string in the buffer, of which no more than `limit` bytes are looked at. -/
def Buffer.text (s : Buffer) (limit : Nat) : List UInt8 :=
  ((List.range limit).map s).takeWhile (· ≠ 0)

def index (d : Nat) : UInt8 := UInt8.ofNat (if d < 10 then 48 + d else 55 + d)

/-- The digits, the last one first. `left` is how far `i` is from the limit. -/
def putDigits (radix at' : Nat) : Nat → Nat → Nat → Buffer → Nat × Buffer
  | 0, _, i, s => (i, (s.set (at' + i - 2) 46).set (at' + i - 1) 46)
  | left + 1, num, i, s =>
      let s := s.set (at' + i) (index (num % radix))
      if num / radix = 0 then (i + 1, s) else putDigits radix at' left (num / radix) (i + 1) s

/-- The bytes from `k` up to `i` in reverse order. -/
def reverse (at' k i : Nat) (s : Buffer) : Buffer :=
  (List.range' k ((i - 1) / 2 + 1 - k)).foldl (fun s j =>
    (s.set (at' + j) (s (at' + (i - 1 + k - j)))).set (at' + (i - 1 + k - j)) (s (at' + j))) s

def uitoa (num radix at' : Nat) (s : Buffer) : Buffer :=
  let (i, s) := putDigits radix at' (digit2StringLengthLimit - 1) num 0 s
  reverse at' 0 i (s.set (at' + i) 0)

/-- `_itoa`; `unsigned` is 32 bits wide. -/
def itoa (num : Int) (radix at' : Nat) (s : Buffer) : Buffer :=
  let negative := radix = 10 ∧ num < 0
  let numAbs := ((if negative then -num else num) % 2 ^ 32).toNat
  let (i, s) := if negative then
      putDigits radix at' (digit2StringLengthLimit - 2) numAbs 1 (s.set at' 45)
    else putDigits radix at' (digit2StringLengthLimit - 1) numAbs 0 s
  let s := s.set (at' + i) 0
  reverse at' (if s at' = 45 then 1 else 0) i s

def ipow (num : Int) : Nat → Int
  | 0 => 1
  | power + 1 => (ipow num power * num).bmod (2 ^ 32)

/-- The conversion of a `float` to `int`. -/
def toInt (x : ℚ) : Int :=
  max (-2 ^ 31) (min (2 ^ 31 - 1) (if 0 ≤ x then ⌊x⌋ else ⌈x⌉))

/-- The loop that counts `string_length`; no `int` has more than ten digits. -/
def stringLength : Nat → Nat → Nat
  | 0, _ => 0
  | left + 1, intPart => if intPart / 10 = 0 then 1 else stringLength left (intPart / 10) + 1

def ftoa (fpu : Fpu) (num : ℚ) (precision : Nat) (s : Buffer) : Buffer :=
  let intPart := toInt num
  let s := itoa intPart 10 0 s
  let length := stringLength 10 intPart.natAbs
  let s := s.set length 46
  let scaled := (intPart * ipow 10 precision).bmod (2 ^ 32)
  let floPart :=
    toInt (fpu.single (fpu.single (num * ipow 10 precision) - fpu.single scaled))
  uitoa (floPart % 2 ^ 32).toNat 10 (length + 1) s

example : (uitoa 2407 10 0 fun _ => 0).text 12 = [50, 52, 48, 55] := by decide

end ExploreF407.Sys
