import ExploreF407.Lib.Numeral
import ExploreF407.Sys.Numerals

/-! # What `_itoa` and `_uitoa` print

Both leave the numeral of the number and a NUL behind, at the place they were given. A
numeral of more than eleven digits is cut down to two points and its last nine digits.
-/

namespace ExploreF407.Sys

open Numeral

namespace Buffer

variable {s : Buffer} {k i : Nat} {c : UInt8} {bytes xs ys : List UInt8}

/-- The bytes are in the buffer from `k` on, and the rest is as it was. -/
def write (s : Buffer) (k : Nat) (bytes : List UInt8) : Buffer :=
  fun j => if k ≤ j then (bytes[j - k]?).getD (s j) else s j

def zeroed : Buffer := fun _ => 0

/-- The string that starts at `k`. -/
def Spells (s : Buffer) (k : Nat) (w : List UInt8) : Prop :=
  (∀ i c, w[i]? = some c → s (k + i) = c ∧ c ≠ 0) ∧ s (k + w.length) = 0

theorem write_get (at' : bytes[i]? = some c) : s.write k bytes (k + i) = c := by
  simp [write, at']

theorem write_outside {j : Nat} (outside : j < k ∨ k + bytes.length ≤ j) :
    s.write k bytes j = s j := by
  rcases outside with before | behind
  · exact if_neg (Nat.not_le_of_lt before)
  · unfold write
    rw [List.getElem?_eq_none (by omega)]
    split <;> rfl

@[simp] theorem write_nil : s.write k [] = s := by
  funext j
  simp [write]

theorem set_write : (s.set k c).write (k + 1) bytes = s.write k (c :: bytes) := by
  funext j
  rcases Nat.lt_trichotomy j k with before | rfl | behind
  · rw [write_outside (.inl (by omega)), write_outside (.inl before), set, if_neg (by omega)]
  · simp [write, set]
  · have next : j - k = j - (k + 1) + 1 := by omega
    simp only [write, set, if_pos (Nat.succ_le_of_lt behind), if_pos (Nat.le_of_lt behind), next,
      List.getElem?_cons_succ, if_neg (Nat.ne_of_gt behind)]

theorem write_write : (s.write k xs).write (k + xs.length) ys = s.write k (xs ++ ys) := by
  induction xs generalizing s k with
  | nil => simp
  | cons x xs ih =>
      have further : k + (x :: xs).length = k + 1 + xs.length := by
        simp only [List.length_cons]
        omega
      rw [← set_write, further, ih, List.cons_append, ← set_write]

theorem write_set : (s.write k xs).set (k + xs.length) c = s.write k (xs ++ [c]) := by
  rw [← write_write, ← set_write, write_nil]

theorem write_set_inside (inside : i < xs.length) :
    (s.write k xs).set (k + i) c = s.write k (xs.set i c) := by
  funext j
  rcases Nat.lt_or_ge j k with before | behind
  · rw [set, if_neg (by omega), write_outside (.inl before), write_outside (.inl before)]
  · obtain ⟨d, rfl⟩ := Nat.exists_eq_add_of_le behind
    simp only [set, write, if_pos behind, Nat.add_sub_cancel_left, List.getElem?_set,
      Nat.add_left_cancel_iff]
    by_cases same : d = i
    · subst same
      simp [inside]
    · rw [if_neg same, if_neg (Ne.symm same)]

theorem write_set_behind (s : Buffer) (k : Nat) (xs : List UInt8) (i : Nat) (c : UInt8) :
    (s.write k xs).set (k + xs.length + i) c = (s.set (k + xs.length + i) c).write k xs := by
  funext j
  rcases eq_or_ne j (k + xs.length + i) with rfl | other
  · rw [write_outside (.inr (by omega)), set, set, if_pos rfl, if_pos rfl]
  · simp only [set, write, if_neg other]

/-- A buffer spells the bytes that were written into it with a NUL behind, and nothing
    else. -/
theorem write_spells (nonzero : 0 ∉ xs) : (s.write k (xs ++ [0])).Spells k xs := by
  constructor
  · intro i c at'
    obtain ⟨below, -⟩ := List.getElem?_eq_some_iff.mp at'
    refine ⟨write_get (by rw [List.getElem?_append_left below, at']), ?_⟩
    rintro rfl
    exact nonzero (List.mem_of_getElem? at')
  · exact write_get (by simp)

theorem Spells.unique {v w : List UInt8} (left : s.Spells k v) (right : s.Spells k w) : v = w := by
  have none : ∀ {v w : List UInt8}, s.Spells k v → s.Spells k w → w.length ≤ v.length := by
    intro v w left right
    by_contra longer
    have there := List.getElem?_eq_getElem (Nat.lt_of_not_le longer)
    obtain ⟨here, nonzero⟩ := right.1 _ _ there
    exact nonzero (here.symm.trans left.2)
  have lengths : v.length = w.length := Nat.le_antisymm (none right left) (none left right)
  apply List.ext_getElem lengths
  intro i below below'
  have first := (left.1 i _ (List.getElem?_eq_getElem below)).1
  have second := (right.1 i _ (List.getElem?_eq_getElem below')).1
  exact first.symm.trans second

end Buffer

/-! ## The loops

`putDigits` leaves the digits in reverse order, and `reverse` turns them round.
-/

def numeralText (radix num : Nat) : List UInt8 := (numeral radix num).map index

example : (List.range 16).map index = "0123456789ABCDEF".toList.map (·.toUInt8) := by decide

section

variable {radix at' left num i k : Nat} {s : Buffer} {bytes : List UInt8}

/-- `putDigits` writes the digits it has room for, and puts two points over the last ones
    if there are more. -/
theorem putDigits_eq (base : 1 < radix) :
    putDigits radix at' left num i s =
      let ds := (units radix num).map index
      if ds.length ≤ left then (i + ds.length, s.write (at' + i) ds)
      else (i + left, ((s.write (at' + i) (ds.take left)).set (at' + (i + left) - 2) 46).set
        (at' + (i + left) - 1) 46) := by
  induction left generalizing num i s with
  | zero =>
      have some' := length_units_pos (n := num) base
      simp only [List.length_map, List.take_zero, Buffer.write_nil]
      rw [if_neg (by omega), putDigits]
      rfl
  | succ left ih =>
      rw [putDigits]
      by_cases last : num / radix = 0
      · have one : units radix num = [num % radix] := by rw [units_step base, if_pos last]
        simp only [one, last, if_true, List.map_cons, List.map_nil, List.length_singleton]
        rw [if_pos (by omega), ← Buffer.set_write, Buffer.write_nil]
      · have more : units radix num = num % radix :: units radix (num / radix) := by
          rw [units_step base, if_neg last]
        simp only [more, last, if_false, ih, List.map_cons, List.length_cons, List.take_succ_cons,
          Nat.add_le_add_iff_right, ← Nat.add_assoc, Buffer.set_write,
          Nat.add_right_comm i 1]

theorem swaps_eq {n m : Nat} (half : 2 * m ≤ n + 1) (j : Nat) :
    (List.range' k m).foldl (fun s j =>
      (s.set (at' + j) (s (at' + (k + n - 1 + k - j)))).set (at' + (k + n - 1 + k - j))
        (s (at' + j))) s j =
      if at' + k ≤ j ∧ j < at' + k + n ∧ (j < at' + k + m ∨ at' + k + n ≤ j + m) then
        s (at' + k + (at' + k + n - 1 - j))
      else s j := by
  induction m generalizing j with
  | zero =>
      rw [if_neg (by omega)]
      rfl
  | succ m ih =>
      have here : at' + (k + n - 1 + k - (k + m)) = at' + k + n - 1 - m := by omega
      rw [List.range'_1_concat, List.foldl_append]
      simp only [List.foldl_cons, List.foldl_nil, Buffer.set, ih (by omega), here, ← Nat.add_assoc]
      rcases eq_or_ne j (at' + k + n - 1 - m) with rfl | behind
      · rw [if_pos rfl, if_neg (by omega), if_pos (by omega)]
        congr 1
        omega
      · rw [if_neg behind]
        rcases eq_or_ne j (at' + k + m) with rfl | before
        · rw [if_pos rfl, if_neg (by omega), if_pos (by omega)]
          congr 1
          omega
        · rw [if_neg before]
          apply if_congr _ rfl rfl
          omega

/-- `reverse` turns the bytes round, from the first one or from the second one on. -/
theorem reverse_write (sign : k ≤ 1) (some' : 0 < bytes.length) :
    reverse at' k (k + bytes.length) (s.write (at' + k) bytes) =
      s.write (at' + k) bytes.reverse := by
  funext j
  rw [reverse, swaps_eq (by omega)]
  rcases Nat.lt_or_ge j (at' + k) with before | behind
  · rw [if_neg (by omega), Buffer.write_outside (.inl before), Buffer.write_outside (.inl before)]
  · obtain ⟨x, rfl⟩ := Nat.exists_eq_add_of_le behind
    rcases Nat.lt_or_ge x bytes.length with inside | outside
    · have mirrored : bytes.reverse[x]? = some bytes[bytes.length - 1 - x] := by
        rw [List.getElem?_reverse inside, List.getElem?_eq_getElem]
      rw [Buffer.write_get mirrored]
      split
      · rw [show at' + k + bytes.length - 1 - (at' + k + x) = bytes.length - 1 - x by omega]
        exact Buffer.write_get (List.getElem?_eq_getElem (by omega))
      · -- Only the byte in the middle is not swapped.
        have middle : bytes.length - 1 - x = x := by omega
        simp only [middle]
        exact Buffer.write_get (List.getElem?_eq_getElem inside)
    · rw [if_neg (by omega), Buffer.write_outside (.inr (by omega)),
        Buffer.write_outside (.inr (by simpa using outside))]

/-- What becomes of a text with no room for all its digits. -/
def clip (w : List UInt8) : List UInt8 :=
  if w.length < digit2StringLengthLimit then w else [46, 46] ++ w.drop (w.length - 9)

theorem length_clip (w : List UInt8) : (clip w).length < digit2StringLengthLimit := by
  unfold clip
  split
  · assumption
  · simp only [List.length_append, List.length_cons, List.length_nil, List.length_drop,
      digit2StringLengthLimit] at *
    omega

theorem length_clip_pos (base : 1 < radix) (num : Nat) :
    0 < (clip (numeralText radix num)).length := by
  have some' := length_units_pos (n := num) base
  unfold clip
  split <;> simp [numeralText, some']

theorem putDigits_clip (base : 1 < radix) :
    putDigits radix at' (digit2StringLengthLimit - 1) num 0 s =
      ((clip (numeralText radix num)).length,
        s.write at' (clip (numeralText radix num)).reverse) := by
  rw [putDigits_eq base]
  have turned : numeralText radix num = ((units radix num).map index).reverse := by
    rw [numeralText, numeral, List.map_reverse]
  rw [turned]
  generalize (units radix num).map index = ds
  simp only [clip, List.length_reverse, digit2StringLengthLimit, Nat.zero_add, Nat.add_zero]
  by_cases short : ds.length ≤ 11
  · rw [if_pos short, if_pos (by omega), List.length_reverse, List.reverse_reverse]
  · have long : 11 < ds.length := by omega
    have two : ds.take 11 = ds.take 9 ++ [ds[9], ds[10]] := by
      rw [← List.take_concat_get' ds 10 (by omega), ← List.take_concat_get' ds 9 (by omega),
        List.append_assoc]
      rfl
    have nine : (ds.take 9).length = 9 := by
      rw [List.length_take]
      omega
    have points : ((ds.take 11).set 9 46).set 10 46 = ds.take 9 ++ [46, 46] := by
      simp [two, nine]
    have turned : ([46, 46] ++ ds.reverse.drop (ds.length - 9)).reverse = ds.take 9 ++ [46, 46] := by
      rw [List.reverse_append, ← List.reverse_take, List.reverse_reverse]
      rfl
    rw [if_neg short, if_neg (by omega), turned, ← points,
      ← Buffer.write_set_inside (by rw [List.length_set, List.length_take]; omega),
      ← Buffer.write_set_inside (by rw [List.length_take]; omega)]
    simp only [List.length_append, List.length_cons, List.length_nil, List.length_drop,
      List.length_reverse]
    congr 1
    omega

theorem reverse_printed (at' : Nat) (s : Buffer) {w : List UInt8} (sign : k ≤ 1) (some' : 0 < w.length) :
    reverse at' k (k + w.length) ((s.write (at' + k) w.reverse).set (at' + (k + w.length)) 0) =
      s.write (at' + k) (w ++ [0]) := by
  have behind := Buffer.write_set_behind s (at' + k) w.reverse 0 0
  simp only [List.length_reverse, Nat.add_zero, Nat.add_assoc] at behind
  have turned : reverse at' k (k + w.reverse.length)
      ((s.set (at' + (k + w.length)) 0).write (at' + k) w.reverse) = _ :=
    reverse_write sign (by simpa using some')
  rw [List.length_reverse, List.reverse_reverse] at turned
  have last := Buffer.write_set_behind s (at' + k) w 0 0
  simp only [Nat.add_zero] at last
  rw [behind, turned, ← Buffer.write_set, last, Nat.add_assoc]

theorem uitoa_eq (base : 1 < radix) :
    uitoa num radix at' s = s.write at' (clip (numeralText radix num) ++ [0]) := by
  have turned := reverse_printed at' s (Nat.zero_le 1) (length_clip_pos base num)
  simp only [Nat.zero_add, Nat.add_zero] at turned
  rw [uitoa, putDigits_clip base]
  exact turned

/-- The numeral with its sign; numerals of bases other than ten have none. -/
def signedText (radix : Nat) (num : Int) : List UInt8 :=
  if radix = 10 ∧ num < 0 then 45 :: numeralText 10 (-num).toNat
  else numeralText radix (num % 2 ^ 32).toNat

theorem le_index {d : Nat} (small : d < 16) : 48 ≤ index d := by
  have all : ∀ d : Fin 16, 48 ≤ index d := by decide
  exact all ⟨d, small⟩

theorem le_of_mem_numeralText (base : 1 < radix) (high : radix ≤ 16) {c : UInt8}
    (member : c ∈ numeralText radix num) : 48 ≤ c := by
  obtain ⟨d, digit, rfl⟩ := List.mem_map.mp member
  exact le_index (Nat.lt_of_lt_of_le (lt_of_mem_numeral base digit) high)

theorem numeralText_ne (base : 1 < radix) (high : radix ≤ 16) {c : UInt8}
    (member : c ∈ numeralText radix num) : c ≠ 0 ∧ c ≠ 45 := by
  have digit := le_of_mem_numeralText base high member
  constructor <;> (rintro rfl; exact absurd digit (by decide))

theorem signedText_ne {num : Int} (base : 1 < radix) (high : radix ≤ 16) :
    ∀ c ∈ signedText radix num, c ≠ 0 := by
  intro c member
  unfold signedText at member
  split at member
  · rcases List.mem_cons.mp member with rfl | digit
    · decide
    · exact (numeralText_ne (by omega) (by omega) digit).1
  · exact (numeralText_ne base high member).1

theorem clip_forall {w : List UInt8} {P : UInt8 → Prop} (point : P 46) (all : ∀ c ∈ w, P c) :
    ∀ c ∈ clip w, P c := by
  intro c member
  unfold clip at member
  split at member
  · exact all c member
  · rcases List.mem_append.mp member with two | digit
    · simp only [List.mem_cons, List.not_mem_nil, or_false, or_self] at two
      rwa [two]
    · exact all c (List.mem_of_mem_drop digit)

theorem itoa_eq {num : Int} (base : 1 < radix) (high : radix ≤ 16) (low : -2 ^ 31 ≤ num) :
    itoa num radix at' s = s.write at' (clip (signedText radix num) ++ [0]) := by
  unfold itoa signedText
  by_cases negative : radix = 10 ∧ num < 0
  · obtain ⟨rfl, below⟩ := negative
    have small : (-num % 2 ^ 32).toNat = (-num).toNat := by omega
    have short : (numeralText 10 (-num).toNat).length ≤ 10 := by
      simp only [numeralText, List.length_map, length_numeral]
      rw [length_units_le (by omega) (by omega)]
      omega
    have whole : clip (45 :: numeralText 10 (-num).toNat) = 45 :: numeralText 10 (-num).toNat :=
      if_pos (by
        rw [List.length_cons, digit2StringLengthLimit]
        omega)
    have room : putDigits 10 at' 10 (-num).toNat 1 (s.set at' 45) = _ := putDigits_eq (by omega)
    have turned := reverse_printed at' (s.set at' 45) (w := numeralText 10 (-num).toNat) le_rfl
      (by simpa [numeralText] using length_units_pos (by omega))
    simp only [numeralText, numeral, List.map_reverse, List.length_reverse, List.reverse_reverse]
      at short turned room whole
    rw [if_pos short] at room
    simp only [below, true_and, if_true, small, digit2StringLengthLimit, room, numeralText,
      numeral, List.map_reverse, whole]
    have sign : (((s.set at' 45).write (at' + 1) ((units 10 (-num).toNat).map index)).set
        (at' + (1 + ((units 10 (-num).toNat).map index).length)) 0) at' = 45 := by
      rw [Buffer.set, if_neg (by omega), Buffer.write_outside (.inl (by omega)), Buffer.set,
        if_pos rfl]
    rw [if_pos sign, turned, Buffer.set_write, List.cons_append]
  · have turned := reverse_printed at' s (Nat.zero_le 1)
      (length_clip_pos base (num % 2 ^ 32).toNat)
    simp only [Nat.zero_add, Nat.add_zero] at turned
    simp only [if_neg negative, putDigits_clip base]
    have some' := length_clip_pos base (num % 2 ^ 32).toNat
    have plain : ∀ c ∈ clip (numeralText radix (num % 2 ^ 32).toNat), c ≠ 0 ∧ c ≠ 45 :=
      clip_forall (by decide) fun c => numeralText_ne base high
    generalize clip (numeralText radix (num % 2 ^ 32).toNat) = w at turned some' plain
    have first : ((s.write at' w.reverse).set (at' + w.length) 0) at' ≠ 45 := by
      have nonempty : 0 < w.reverse.length := by simpa using some'
      have head : w.reverse[0]? = some w.reverse[0] := List.getElem?_eq_getElem nonempty
      rw [Buffer.set, if_neg (by omega)]
      have digit := Buffer.write_get (s := s) (k := at') head
      rw [Nat.add_zero] at digit
      rw [digit]
      exact (plain _ (List.mem_reverse.mp (List.getElem_mem _))).2
    rw [if_neg first]
    exact turned

end

/-! ## Reading a numeral back -/

def digitValue (c : UInt8) : Nat := if c.toNat < 58 then c.toNat - 48 else c.toNat - 55

def readText (radix : Nat) (w : List UInt8) : Int :=
  if w.head? = some 45 then -(value radix (w.tail.map digitValue) : Int)
  else value radix (w.map digitValue)

/-- `num` as `_itoa` understands it: signed only in base ten. -/
def itoaValue (radix : Nat) (num : Int) : Int := if radix = 10 then num else num % 2 ^ 32

variable {radix : Nat}

theorem digitValue_index {d : Nat} (small : d < 16) : digitValue (index d) = d := by
  have all : ∀ d : Fin 16, digitValue (index d) = d := by decide
  exact all ⟨d, small⟩

theorem value_numeralText (base : 1 < radix) (high : radix ≤ 16) (num : Nat) :
    value radix ((numeralText radix num).map digitValue) = num := by
  have same : (numeralText radix num).map digitValue = numeral radix num := by
    rw [numeralText, List.map_map]
    conv_rhs => rw [← List.map_id (numeral radix num)]
    apply List.map_congr_left
    intro d member
    exact digitValue_index (Nat.lt_of_lt_of_le (lt_of_mem_numeral base member) high)
  rw [same, value_numeral]

theorem readText_numeralText (base : 1 < radix) (high : radix ≤ 16) (num : Nat) :
    readText radix (numeralText radix num) = num := by
  have plain : (numeralText radix num).head? ≠ some 45 := by
    intro sign
    exact (numeralText_ne base high (List.mem_of_mem_head? sign)).2 rfl
  rw [readText, if_neg plain, value_numeralText base high]

theorem readText_signedText (base : 1 < radix) (high : radix ≤ 16) {num : Int}
    (below : num < 2 ^ 31) : readText radix (signedText radix num) = itoaValue radix num := by
  unfold signedText itoaValue
  by_cases negative : radix = 10 ∧ num < 0
  · obtain ⟨rfl, sign⟩ := negative
    rw [if_pos ⟨rfl, sign⟩, readText, List.head?_cons, if_pos rfl, List.tail_cons,
      value_numeralText (by omega) (by omega), if_pos rfl]
    omega
  · rw [if_neg negative, readText_numeralText base high]
    split <;> omega

/-- From the buffer `before` a conversion at `at'` makes the buffer `after`: the text `w`,
    cut down if it is too long, and a NUL within the twelve bytes there are; a text with
    room reads as `num`. -/
structure Printed (radix at' : Nat) (before after : Buffer) (w : List UInt8) (num : Int) :
    Prop where
  spelled : after.Spells at' (clip w)
  within : ∀ j, j < at' ∨ at' + digit2StringLengthLimit ≤ j → after j = before j
  readBack : w.length < digit2StringLengthLimit → readText radix (clip w) = num

theorem Printed.of_write {at' : Nat} {s : Buffer} {w : List UInt8} {num : Int}
    (nonzero : ∀ c ∈ w, c ≠ 0) (read : readText radix w = num) :
    Printed radix at' s (s.write at' (clip w ++ [0])) w num := by
  constructor
  · exact Buffer.write_spells fun zero => clip_forall (by decide) nonzero 0 zero rfl
  · intro j outside
    have short := length_clip w
    apply Buffer.write_outside
    rw [List.length_append, List.length_singleton]
    omega
  · intro room
    rw [clip, if_pos room, read]

/-- Both conversions print the numeral of their number. -/
theorem numerals_printed (base : 2 ≤ radix) (high : radix ≤ 16) (at' : Nat) (s : Buffer) :
    (∀ num : Nat, num < 2 ^ 32 →
      Printed radix at' s (uitoa num radix at' s) (numeralText radix num) num) ∧
    ∀ num : Int, -2 ^ 31 ≤ num → num < 2 ^ 31 →
      Printed radix at' s (itoa num radix at' s) (signedText radix num) (itoaValue radix num) := by
  constructor
  · intro num _
    rw [uitoa_eq base]
    apply Printed.of_write _ (readText_numeralText base high num)
    exact fun c member => (numeralText_ne base high member).1
  · intro num low below
    rw [itoa_eq base high low]
    exact Printed.of_write (signedText_ne base high) (readText_signedText base high below)

/-- The longest numeral with a sign. -/
theorem numerals_printed_min :
    Printed 10 0 .zeroed (itoa (-2 ^ 31) 10 0 .zeroed) (signedText 10 (-2 ^ 31))
      (itoaValue 10 (-2 ^ 31)) :=
  (numerals_printed (by omega) (by omega) 0 _).2 _ (by omega) (by omega)

end ExploreF407.Sys
