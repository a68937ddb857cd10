import ExploreF407.Lcd.Panel
import ExploreF407.Lib.Lines
import ExploreF407.Lib.Overlay

/-! # The picture of a character

`LCD_ShowChar` colours the points of a box one after the other, column by column. Where the
box does not leave the 16-bit coordinates, the result is the glyph laid over the panel.
-/

namespace ExploreF407.Lcd

open Overlay

def glyphBit (font : Font) (size : Nat) (ch : UInt8) (k r : Nat) : Bool :=
  (font size (ch - 32) (k * columnBytes size + r / 8)).toNat.testBit (7 - r % 8)

@[simp] theorem Pen.draw_panel (pen : Pen) (color : UInt16) :
    (pen.draw color).panel = drawPoint pen.panel pen.xpos pen.ypos color := rfl

@[simp] theorem Pen.draw_xpos (pen : Pen) (color : UInt16) : (pen.draw color).xpos = pen.xpos := rfl

@[simp] theorem Pen.draw_ypos (pen : Pen) (color : UInt16) : (pen.draw color).ypos = pen.ypos := rfl

@[simp] theorem Pen.draw_dots (pen : Pen) (color : UInt16) :
    (pen.draw color).dots = pen.dots ++ [((pen.xpos, pen.ypos), color)] := rfl

/-- Where the pen goes after a point, and whether the inner loop is left there. -/
def moved (dir : Dir) (size xpos0 ypos0 xpos ypos : Nat) : (Nat × Nat) × Bool :=
  match dir with
  | .crosswise =>
      if (ypos + 1) % 2 ^ 16 = ypos0 + size then (((xpos + 1) % 2 ^ 16, ypos0), true)
      else ((xpos, (ypos + 1) % 2 ^ 16), false)
  | .vertical =>
      if (xpos + 1) % 2 ^ 16 = xpos0 + size then ((xpos0, (ypos + (2 ^ 16 - 1)) % 2 ^ 16), true)
      else (((xpos + 1) % 2 ^ 16, ypos), false)

theorem showBits_succ (dir : Dir) (size xpos0 ypos0 : Nat) (color : UInt16) (n : Nat)
    (temp0 : UInt8) (pen : Pen) :
    showBits dir size xpos0 ypos0 color (n + 1) temp0 pen =
      let next := moved dir size xpos0 ypos0 pen.xpos pen.ypos
      let pen' : Pen :=
        { pen.draw (if temp0 &&& 0x80 ≠ 0 then color else white) with
          xpos := next.1.1
          ypos := next.1.2 }
      if next.2 then pen' else showBits dir size xpos0 ypos0 color n (temp0 <<< 1) pen' := by
  conv_lhs => unfold showBits
  unfold moved
  generalize (if temp0 &&& 0x80 ≠ 0 then color else white) = ink
  cases dir with
  | crosswise =>
      by_cases last : (pen.ypos + 1) % 2 ^ 16 = ypos0 + size
      · simp only [Pen.draw_xpos, Pen.draw_ypos, last, if_true]
      · simp only [Pen.draw_xpos, Pen.draw_ypos, last, if_false, Bool.false_eq_true]
  | vertical =>
      by_cases last : (pen.xpos + 1) % 2 ^ 16 = xpos0 + size
      · simp only [Pen.draw_xpos, Pen.draw_ypos, last, if_true]
      · simp only [Pen.draw_xpos, Pen.draw_ypos, last, if_false, Bool.false_eq_true]

/-- The arguments of a call of `LCD_ShowChar`. -/
structure Stamp where
  font : Font
  dir : Dir
  xpos : Nat
  ypos : Nat
  ch : UInt8
  size : Nat
  color : UInt16

namespace Stamp

def spot (g : Stamp) (k r : Nat) : Nat × Nat :=
  match g.dir with
  | .crosswise => (g.xpos + k, g.ypos + r)
  | .vertical => (g.xpos + r, g.ypos - k)

/-- The points that the character takes up. -/
def Box (g : Stamp) (point : Nat × Nat) : Prop :=
  match g.dir with
  | .crosswise => g.xpos ≤ point.1 ∧ point.1 < g.xpos + g.size / 2 ∧
      g.ypos ≤ point.2 ∧ point.2 < g.ypos + g.size
  | .vertical => g.xpos ≤ point.1 ∧ point.1 < g.xpos + g.size ∧
      point.2 ≤ g.ypos ∧ g.ypos < point.2 + g.size / 2

instance (g : Stamp) : DecidablePred g.Box := fun point =>
  match turn : g.dir with
  | .crosswise => decidable_of_iff (g.xpos ≤ point.1 ∧ point.1 < g.xpos + g.size / 2 ∧
      g.ypos ≤ point.2 ∧ point.2 < g.ypos + g.size) (by simp only [Box, turn])
  | .vertical => decidable_of_iff (g.xpos ≤ point.1 ∧ point.1 < g.xpos + g.size ∧
      point.2 ≤ g.ypos ∧ g.ypos < point.2 + g.size / 2) (by simp only [Box, turn])

def cell (g : Stamp) (point : Nat × Nat) : Option (Nat × Nat) :=
  if g.Box point then
    match g.dir with
    | .crosswise => some (point.1 - g.xpos, point.2 - g.ypos)
    | .vertical => some (g.ypos - point.2, point.1 - g.xpos)
  else none

def Unwrapped (g : Stamp) : Prop :=
  match g.dir with
  | .crosswise => g.xpos + g.size / 2 ≤ 2 ^ 16 ∧ g.ypos + g.size < 2 ^ 16
  | .vertical => g.xpos + g.size < 2 ^ 16 ∧ g.size / 2 ≤ g.ypos + 1 ∧ g.ypos < 2 ^ 16

def ink (g : Stamp) (k r : Nat) : UInt16 :=
  if glyphBit g.font g.size g.ch k r then g.color else white

def glyph (g : Stamp) (point : Nat × Nat) : Option UInt16 :=
  (g.cell point).map fun (k, r) => g.ink k r

theorem cell_bounds {g : Stamp} {point : Nat × Nat} {k r : Nat}
    (here : g.cell point = some (k, r)) :
    k < g.size / 2 ∧ r < g.size ∧ point = g.spot k r := by
  unfold cell at here
  split at here
  · rename_i inside
    unfold Box at inside
    unfold spot
    cases dir : g.dir with
    | crosswise =>
        simp only [dir, Option.some.injEq, Prod.mk.injEq] at here inside ⊢
        refine ⟨by omega, by omega, ?_⟩
        ext <;> simp only <;> omega
    | vertical =>
        simp only [dir, Option.some.injEq, Prod.mk.injEq] at here inside ⊢
        refine ⟨by omega, by omega, ?_⟩
        ext <;> simp only <;> omega
  · cases here

theorem cell_spot {g : Stamp} (unwrapped : g.Unwrapped) {k r : Nat} (col : k < g.size / 2)
    (row : r < g.size) : g.cell (g.spot k r) = some (k, r) := by
  unfold Unwrapped at unwrapped
  cases dir : g.dir with
  | crosswise => simp [cell, Box, spot, dir, col, row]
  | vertical =>
      simp only [dir] at unwrapped
      have back : g.ypos - (g.ypos - k) = k := by omega
      have below : g.ypos < g.ypos - k + g.size / 2 := by omega
      simp [cell, Box, spot, dir, row, back, below]

theorem cell_eq_none {g : Stamp} {point : Nat × Nat} : g.cell point = none ↔ ¬ g.Box point := by
  unfold cell
  split
  · rename_i inside
    cases g.dir <;> simp [inside]
  · rename_i outside
    simp [outside]

theorem glyph_eq_none {g : Stamp} {point : Nat × Nat} (outside : ¬ g.Box point) :
    g.glyph point = none := by
  simp [glyph, cell_eq_none.mpr outside]

theorem glyph_of_box {g : Stamp} {point : Nat × Nat} (inside : g.Box point) :
    ∃ k r, k < g.size / 2 ∧ r < g.size ∧ g.glyph point = some (g.ink k r) := by
  cases here : g.cell point with
  | none => exact absurd inside (cell_eq_none.mp here)
  | some cell =>
      obtain ⟨k, r⟩ := cell
      obtain ⟨col, row, -⟩ := cell_bounds here
      exact ⟨k, r, col, row, by simp [glyph, here]⟩

theorem glyph_spot {g : Stamp} (unwrapped : g.Unwrapped) {k r : Nat} (col : k < g.size / 2)
    (row : r < g.size) : g.Box (g.spot k r) ∧ g.glyph (g.spot k r) = some (g.ink k r) := by
  have here := cell_spot unwrapped col row
  constructor
  · by_contra outside
    rw [cell_eq_none.mpr outside] at here
    cases here
  · simp [glyph, here]

/-! ## The order of the points -/

def firstPoints (g : Stamp) (q : Nat) (point : Nat × Nat) : Option UInt16 :=
  (g.cell point).bind fun (k, r) => if k * g.size + r < q then some (g.ink k r) else none

def dotAt (g : Stamp) (q : Nat) : Dot :=
  (g.spot (q / g.size) (q % g.size), g.ink (q / g.size) (q % g.size))

def penAt (g : Stamp) (p : Panel) (q : Nat) : Pen where
  panel := overlay (g.firstPoints q) p
  xpos := match g.dir with
    | .crosswise => (g.xpos + q / g.size) % 2 ^ 16
    | .vertical => g.xpos + q % g.size
  ypos := match g.dir with
    | .crosswise => g.ypos + q % g.size
    | .vertical => (g.ypos + 2 ^ 16 - q / g.size) % 2 ^ 16
  dots := (List.range q).map g.dotAt

variable {g : Stamp} {p : Panel} {q n : Nat} {temp0 : UInt8}

theorem firstPoints_zero : g.firstPoints 0 = fun _ => none := by
  funext point
  cases here : g.cell point <;> simp [firstPoints, here]

theorem firstPoints_all : g.firstPoints (g.size * (g.size / 2)) = g.glyph := by
  funext point
  cases here : g.cell point with
  | none => simp [firstPoints, glyph, here]
  | some cell =>
      obtain ⟨k, r⟩ := cell
      obtain ⟨col, row, -⟩ := cell_bounds here
      have inside : k * g.size + r < g.size * (g.size / 2) := by
        calc k * g.size + r
          _ < k * g.size + g.size := Nat.add_lt_add_left row _
          _ = g.size * (k + 1) := by ring
          _ ≤ g.size * (g.size / 2) := Nat.mul_le_mul_left _ col
      simp [firstPoints, glyph, here, inside]

theorem inside_bounds (inside : q < g.size * (g.size / 2)) :
    0 < g.size ∧ q / g.size < g.size / 2 ∧ q % g.size < g.size := by
  have positive : 0 < g.size := by
    apply Nat.pos_of_ne_zero
    intro zero
    simp [zero] at inside
  exact ⟨positive, Nat.div_lt_of_lt_mul inside, Nat.mod_lt q positive⟩

theorem firstPoints_succ (unwrapped : g.Unwrapped) (inside : q < g.size * (g.size / 2)) :
    g.firstPoints (q + 1) = Function.update (g.firstPoints q) (g.spot (q / g.size) (q % g.size))
      (some (g.ink (q / g.size) (q % g.size))) := by
  obtain ⟨positive, col, row⟩ := inside_bounds inside
  funext point
  by_cases same : point = g.spot (q / g.size) (q % g.size)
  · subst same
    have last : q / g.size * g.size + q % g.size < q + 1 := by
      rw [Nat.div_add_mod']
      exact Nat.lt_succ_self q
    simp only [firstPoints, cell_spot unwrapped col row, Option.bind_some, if_pos last,
      Function.update_self]
  · rw [Function.update_of_ne same]
    unfold firstPoints
    cases here : g.cell point with
    | none => rfl
    | some cell =>
        obtain ⟨k, r⟩ := cell
        obtain ⟨_, below, at'⟩ := cell_bounds here
        have other : k * g.size + r ≠ q := by
          rintro rfl
          apply same
          have div : (k * g.size + r) / g.size = k := by
            rw [Nat.add_comm, Nat.add_mul_div_right _ _ positive, Nat.div_eq_of_lt below,
              Nat.zero_add]
          have mod : (k * g.size + r) % g.size = r := by
            rw [Nat.add_comm, Nat.add_mul_mod_self_right, Nat.mod_eq_of_lt below]
          rw [div, mod, at']
        have order : k * g.size + r < q + 1 ↔ k * g.size + r < q := by omega
        simp only [Option.bind_some, order]

theorem penAt_spot (unwrapped : g.Unwrapped) (inside : q < g.size * (g.size / 2)) :
    ((g.penAt p q).xpos, (g.penAt p q).ypos) = g.spot (q / g.size) (q % g.size) := by
  obtain ⟨-, col, -⟩ := inside_bounds inside
  unfold Unwrapped at unwrapped
  cases dir : g.dir with
  | crosswise =>
      simp only [dir] at unwrapped
      have below : g.xpos + q / g.size < 2 ^ 16 :=
        Nat.lt_of_lt_of_le (Nat.add_lt_add_left col _) unwrapped.1
      simp only [penAt, spot, dir, Nat.mod_eq_of_lt below]
  | vertical =>
      simp only [dir] at unwrapped
      simp only [penAt, spot, dir, Prod.mk.injEq, true_and]
      generalize q / g.size = k at col
      omega

theorem penAt_draws (unwrapped : g.Unwrapped) (inside : q < g.size * (g.size / 2)) :
    { (g.penAt p q).draw (g.ink (q / g.size) (q % g.size)) with
      xpos := (g.penAt p (q + 1)).xpos
      ypos := (g.penAt p (q + 1)).ypos } = g.penAt p (q + 1) := by
  obtain ⟨-, col, row⟩ := inside_bounds inside
  have new : g.firstPoints q (g.spot (q / g.size) (q % g.size)) = none := by
    simp [firstPoints, cell_spot unwrapped col row, Nat.div_add_mod']
  have panel : drawPoint (g.penAt p q).panel (g.penAt p q).xpos (g.penAt p q).ypos
      (g.ink (q / g.size) (q % g.size)) = (g.penAt p (q + 1)).panel := by
    unfold drawPoint
    rw [penAt_spot unwrapped inside]
    simp only [penAt]
    rw [overlay_update new, firstPoints_succ unwrapped inside]
  have dots : (g.penAt p q).dots ++ [(((g.penAt p q).xpos, (g.penAt p q).ypos),
      g.ink (q / g.size) (q % g.size))] = (g.penAt p (q + 1)).dots := by
    rw [penAt_spot unwrapped inside]
    simp only [penAt, List.range_succ, List.map_append, List.map_singleton, dotAt]
  simp only [Pen.draw, panel, dots]

/-- The pen moves on along the column, and is taken to the next one at the end. -/
theorem moved_penAt (unwrapped : g.Unwrapped) (inside : q < g.size * (g.size / 2)) :
    moved g.dir g.size g.xpos g.ypos (g.penAt p q).xpos (g.penAt p q).ypos =
      (((g.penAt p (q + 1)).xpos, (g.penAt p (q + 1)).ypos), decide (q % g.size + 1 = g.size)) := by
  obtain ⟨-, col, row⟩ := inside_bounds inside
  unfold Unwrapped at unwrapped
  unfold moved
  cases dir : g.dir with
  | crosswise =>
      simp only [dir] at unwrapped ⊢
      have test : ((g.penAt p q).ypos + 1) % 2 ^ 16 = g.ypos + (q % g.size + 1) := by
        simp only [penAt, dir]
        omega
      by_cases last : q % g.size + 1 = g.size
      · obtain ⟨column, first⟩ := Lines.next_column last
        rw [if_pos (by rw [test, last]), decide_eq_true last]
        simp only [penAt, dir, column, first, Nat.add_zero, Prod.mk.injEq, and_true]
        omega
      · obtain ⟨column, next⟩ := Lines.next_row (Nat.lt_of_le_of_ne row last)
        rw [if_neg (by rw [test]; omega), decide_eq_false last, test]
        simp only [penAt, dir, column, next]
  | vertical =>
      simp only [dir] at unwrapped ⊢
      have test : ((g.penAt p q).xpos + 1) % 2 ^ 16 = g.xpos + (q % g.size + 1) := by
        simp only [penAt, dir]
        omega
      by_cases last : q % g.size + 1 = g.size
      · obtain ⟨column, first⟩ := Lines.next_column last
        rw [if_pos (by rw [test, last]), decide_eq_true last]
        simp only [penAt, dir, column, first, Nat.add_zero, Prod.mk.injEq, true_and, and_true]
        generalize q / g.size = k at col
        omega
      · obtain ⟨column, next⟩ := Lines.next_row (Nat.lt_of_le_of_ne row last)
        rw [if_neg (by rw [test]; omega), decide_eq_false last, test]
        simp only [penAt, dir, column, next]

/-! ## The bits of a byte -/

def shifted (j : Nat) (byte : UInt8) : UInt8 := (fun b : UInt8 => b <<< 1)^[j] byte

theorem shifted_succ (j : Nat) (byte : UInt8) : shifted (j + 1) byte = shifted j byte <<< 1 :=
  Function.iterate_succ_apply' ..

theorem shifted_testBit (byte : UInt8) {i j : Nat} (below : i + j < 8) :
    (shifted j byte).toNat.testBit (i + j) = byte.toNat.testBit i := by
  induction j with
  | zero => rfl
  | succ j ih =>
      have some : 1 ≤ i + (j + 1) := by omega
      have left : i + (j + 1) - 1 = i + j := by omega
      rw [shifted_succ, UInt8.toNat_shiftLeft, Nat.testBit_mod_two_pow]
      simp [below, Nat.testBit_shiftLeft, some, left, ih (by omega)]

theorem top_testBit (byte : UInt8) : decide (byte &&& 0x80 ≠ 0) = byte.toNat.testBit 7 := by
  have all : ∀ b : Fin 256,
      decide (UInt8.ofNat b.1 &&& 0x80 ≠ 0) = (UInt8.ofNat b.1).toNat.testBit 7 := by
    decide +kernel
  simpa using all ⟨byte.toNat, byte.toNat_lt⟩

theorem top_shifted (byte : UInt8) {j : Nat} (below : j < 8) :
    decide (shifted j byte &&& 0x80 ≠ 0) = byte.toNat.testBit (7 - j) := by
  have seven : 7 - j + j = 7 := by omega
  have bit := shifted_testBit byte (i := 7 - j) (j := j) (by omega)
  rw [seven] at bit
  rw [top_testBit, bit]

/-- What is known of `temp0` before the pen draws point `q`, with `n` bits left. -/
structure Reads (g : Stamp) (q n : Nat) (temp0 : UInt8) : Prop where
  aligned : n + q % g.size % 8 = 8
  inside : q < g.size * (g.size / 2)
  byte : temp0 = shifted (q % g.size % 8)
    (g.font g.size (g.ch - 32) (q / g.size * columnBytes g.size + q % g.size / 8))

theorem Reads.ink (reads : g.Reads q (n + 1) temp0) :
    (if temp0 &&& 0x80 ≠ 0 then g.color else white) = g.ink (q / g.size) (q % g.size) := by
  obtain ⟨aligned, -, rfl⟩ := reads
  have top := top_shifted
    (g.font g.size (g.ch - 32) (q / g.size * columnBytes g.size + q % g.size / 8))
    (j := q % g.size % 8) (by omega)
  unfold Stamp.ink glyphBit
  rw [← top]
  simp

theorem Reads.next (reads : g.Reads q (n + 2) temp0) (more : q % g.size + 1 < g.size) :
    g.Reads (q + 1) (n + 1) (temp0 <<< 1) := by
  obtain ⟨aligned, inside, rfl⟩ := reads
  obtain ⟨-, col, -⟩ := inside_bounds inside
  obtain ⟨column, row⟩ := Lines.next_row more
  refine ⟨by omega, ?_, ?_⟩
  · calc q + 1
      _ = g.size * (q / g.size) + (q % g.size + 1) := by rw [← Nat.add_assoc, Nat.div_add_mod]
      _ < g.size * (q / g.size) + g.size := Nat.add_lt_add_left more _
      _ = g.size * (q / g.size + 1) := by ring
      _ ≤ g.size * (g.size / 2) := Nat.mul_le_mul_left _ col
  · have same : (q % g.size + 1) / 8 = q % g.size / 8 := by omega
    have later : (q % g.size + 1) % 8 = q % g.size % 8 + 1 := by omega
    rw [column, row, same, later, shifted_succ]

theorem showBits_step (unwrapped : g.Unwrapped) (reads : g.Reads q (n + 1) temp0) :
    showBits g.dir g.size g.xpos g.ypos g.color (n + 1) temp0 (g.penAt p q) =
      if q % g.size + 1 = g.size then g.penAt p (q + 1)
      else showBits g.dir g.size g.xpos g.ypos g.color n (temp0 <<< 1) (g.penAt p (q + 1)) := by
  have drawn := penAt_draws (p := p) unwrapped reads.inside
  rw [showBits_succ, moved_penAt unwrapped reads.inside]
  simp only [reads.ink, drawn, decide_eq_true_eq]

/-- The inner loop draws the points of a byte, up to the end of the column. -/
theorem showBits_eq (unwrapped : g.Unwrapped) (reads : g.Reads q (n + 1) temp0) :
    showBits g.dir g.size g.xpos g.ypos g.color (n + 1) temp0 (g.penAt p q) =
      g.penAt p (q + min (n + 1) (g.size - q % g.size)) := by
  obtain ⟨-, -, row⟩ := inside_bounds reads.inside
  induction n generalizing q temp0 with
  | zero =>
      have one : min (0 + 1) (g.size - q % g.size) = 1 := by omega
      rw [showBits_step unwrapped reads, one]
      split <;> rfl
  | succ n ih =>
      rw [showBits_step unwrapped reads]
      split
      · rename_i last
        have one : min (n + 1 + 1) (g.size - q % g.size) = 1 := by omega
        rw [one]
      · rename_i more
        have below : q % g.size + 1 < g.size := Nat.lt_of_le_of_ne row more
        have next := (Lines.next_row below).2
        rw [ih (reads.next below) (by omega), next]
        congr 1
        omega

/-! ## The bytes of a character -/

/-- The number of points that the first `t` bytes stand for. -/
def pointsOf (size t : Nat) : Nat := t / columnBytes size * size + 8 * (t % columnBytes size)

theorem columnBytes_bounds {size m : Nat} (below : m < columnBytes size) : 8 * m < size := by
  unfold columnBytes at below
  split at below <;> omega

theorem columnBytes_enough (size : Nat) : size ≤ 8 * columnBytes size := by
  unfold columnBytes
  split <;> omega

theorem pointsOf_place {size t : Nat} (inside : t < charSize size) :
    8 * (t % columnBytes size) < size ∧ pointsOf size t / size = t / columnBytes size ∧
      pointsOf size t % size = 8 * (t % columnBytes size) := by
  have some : 0 < columnBytes size := by
    apply Nat.pos_of_ne_zero
    intro zero
    simp [charSize, zero] at inside
  have row := columnBytes_bounds (Nat.mod_lt t some)
  refine ⟨row, (Nat.div_mod_unique (Nat.zero_lt_of_lt row)).mpr ⟨?_, row⟩⟩
  unfold pointsOf
  ring

theorem reads_byte {t : Nat} (inside : t < charSize g.size) :
    g.Reads (pointsOf g.size t) 8 (g.font g.size (g.ch - 32) t) := by
  obtain ⟨row, column, rest⟩ := pointsOf_place inside
  have col : t / columnBytes g.size < g.size / 2 := Nat.div_lt_of_lt_mul inside
  refine ⟨by omega, ?_, ?_⟩
  · calc pointsOf g.size t
      _ < t / columnBytes g.size * g.size + g.size := Nat.add_lt_add_left row _
      _ = g.size * (t / columnBytes g.size + 1) := by ring
      _ ≤ g.size * (g.size / 2) := Nat.mul_le_mul_left _ col
  · have first : 8 * (t % columnBytes g.size) % 8 = 0 := by omega
    have same : 8 * (t % columnBytes g.size) / 8 = t % columnBytes g.size := by omega
    rw [column, rest, first, same, Nat.div_add_mod']
    rfl

theorem pointsOf_succ {size t : Nat} (inside : t < charSize size) :
    pointsOf size t + min 8 (size - 8 * (t % columnBytes size)) = pointsOf size (t + 1) := by
  obtain ⟨row, -, -⟩ := pointsOf_place inside
  have some : 0 < columnBytes size := by
    apply Nat.pos_of_ne_zero
    intro zero
    simp [charSize, zero] at inside
  rcases Nat.lt_or_eq_of_le (Nat.mod_lt t some) with more | last
  · obtain ⟨column, next⟩ := Lines.next_row more
    have full := columnBytes_bounds more
    simp only [pointsOf, column, next]
    omega
  · obtain ⟨column, next⟩ := Lines.next_column last
    have enough := columnBytes_enough size
    simp only [pointsOf, column, next, Nat.add_mul]
    omega

theorem pointsOf_all {size : Nat} (wide : 1 < size) :
    pointsOf size (charSize size) = size * (size / 2) := by
  have enough := columnBytes_enough size
  have some : 0 < columnBytes size := by omega
  simp only [pointsOf, charSize, Nat.mul_div_cancel_left _ some, Nat.mul_mod_right,
    Nat.mul_zero, Nat.add_zero]
  exact Nat.mul_comm ..

theorem showBits_byte (unwrapped : g.Unwrapped) {t : Nat} (inside : t < charSize g.size) :
    showBits g.dir g.size g.xpos g.ypos g.color 8 (g.font g.size (g.ch - 32) t)
        (g.penAt p (pointsOf g.size t)) = g.penAt p (pointsOf g.size (t + 1)) := by
  rw [showBits_eq unwrapped (reads_byte inside), (pointsOf_place inside).2.2, pointsOf_succ inside]

theorem showCharPen_eq (unwrapped : g.Unwrapped) (wide : 1 < g.size) (p : Panel) :
    showCharPen g.font g.dir p g.xpos g.ypos g.ch g.size g.color =
      g.penAt p (g.size * (g.size / 2)) := by
  have start : ({ panel := p, xpos := g.xpos, ypos := g.ypos, dots := [] } : Pen) =
      g.penAt p 0 := by
    unfold Unwrapped at unwrapped
    unfold penAt
    rw [firstPoints_zero, overlay_none]
    cases dir : g.dir <;> simp only [dir] at unwrapped ⊢ <;> congr 1 <;> simp <;> omega
  have prefixes : ∀ t ≤ charSize g.size, (List.range t).foldl (fun pen temp2 =>
      showBits g.dir g.size g.xpos g.ypos g.color 8 (g.font g.size (g.ch - 32) temp2) pen)
      (g.penAt p 0) = g.penAt p (pointsOf g.size t) := by
    intro t
    induction t with
    | zero => simp [pointsOf]
    | succ t ih =>
        intro inside
        rw [List.range_succ, List.foldl_append, ih (Nat.le_of_succ_le inside)]
        exact showBits_byte unwrapped inside
  unfold showCharPen
  rw [start, prefixes _ (Nat.le_refl _), pointsOf_all wide]

theorem showChar_eq (unwrapped : g.Unwrapped) (wide : 1 < g.size) (p : Panel) :
    showChar g.font g.dir p g.xpos g.ypos g.ch g.size g.color = overlay g.glyph p := by
  unfold showChar
  rw [showCharPen_eq unwrapped wide]
  simp only [penAt, firstPoints_all]

end Stamp

end ExploreF407.Lcd
