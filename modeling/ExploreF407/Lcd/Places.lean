import ExploreF407.Lcd.Strings
import ExploreF407.Lib.Lines

/-! # The places of the characters on the panel

The characters of a string fill lines. As long as the coordinates of the lines do not wrap, the
loop sets the characters as lines are filled, and stops at the first line that leaves the range.
Along a line the coordinates may wrap.
-/

namespace ExploreF407.Lcd

open Lines

abbrev bspLcdResolutionWidth : Nat := 480

abbrev bspLcdResolutionHeight : Nat := 800

structure Rect.OnPanel (range : Rect) : Prop where
  xposStart : range.xposStart ≤ bspLcdResolutionWidth
  xposStop : range.xposStop ≤ bspLcdResolutionWidth
  yposStart : range.yposStart ≤ bspLcdResolutionHeight
  yposStop : range.yposStop ≤ bspLcdResolutionHeight

/-- A rectangle on the panel; what is beyond the panel is cut off. -/
def Rect.ofPanel (xposStart xposStop yposStart yposStop : Nat) : Rect where
  xposStart := min xposStart bspLcdResolutionWidth
  xposStop := min xposStop bspLcdResolutionWidth
  yposStart := min yposStart bspLcdResolutionHeight
  yposStop := min yposStop bspLcdResolutionHeight
  xposStart_lt := (Nat.min_le_right ..).trans_lt (by decide)
  xposStop_lt := (Nat.min_le_right ..).trans_lt (by decide)
  yposStart_lt := (Nat.min_le_right ..).trans_lt (by decide)
  yposStop_lt := (Nat.min_le_right ..).trans_lt (by decide)

theorem Rect.onPanel_ofPanel (xposStart xposStop yposStart yposStop : Nat) :
    (Rect.ofPanel xposStart xposStop yposStart yposStop).OnPanel :=
  ⟨Nat.min_le_right .., Nat.min_le_right .., Nat.min_le_right .., Nat.min_le_right ..⟩

/-- The fields of `BSP_LCDSpaceTypedef` are 8 bits wide. -/
structure Space.Narrow (space : Space) : Prop where
  lineSpace : space.lineSpace < 2 ^ 8
  wordSpace : space.wordSpace < 2 ^ 8

instance (space : Space) : Decidable space.Narrow :=
  decidable_of_iff (space.lineSpace < 2 ^ 8 ∧ space.wordSpace < 2 ^ 8)
    ⟨fun ⟨line, word⟩ => ⟨line, word⟩, fun ⟨line, word⟩ => ⟨line, word⟩⟩

theorem fontWidth_bounds {size width : Nat} (supported : fontWidth size = some width) :
    size = 2 * width ∧ 6 ≤ width ∧ width ≤ 12 := by
  simp only [fontWidth] at supported
  grind

namespace Layout

variable {l : Layout}

def Inside (l : Layout) (point : Nat × Nat) : Prop :=
  match l.dir with
  | .crosswise => l.range.xposStart ≤ point.1 ∧ point.1 ≤ l.range.xposStop ∧
      l.range.yposStart ≤ point.2 ∧ point.2 ≤ l.range.yposStop
  | .vertical => l.range.xposStart ≤ point.1 ∧ point.1 ≤ l.range.xposStop ∧
      l.range.yposStop ≤ point.2 ∧ point.2 ≤ l.range.yposStart

/-! ## The order of the characters -/

/-- The character at `b` is behind that at `a`: further on in the line, or on a later line. -/
def Behind (l : Layout) (a b : Cursor) : Prop :=
  match l.dir with
  | .crosswise => a.ypos + l.yposOffset ≤ b.ypos ∨ a.ypos = b.ypos ∧ a.xpos + l.xposOffset ≤ b.xpos
  | .vertical => a.xpos + l.xposOffset ≤ b.xpos ∨ a.xpos = b.xpos ∧ b.ypos + l.yposOffset ≤ a.ypos

theorem Behind.trans {a b c : Cursor} (first : l.Behind a b) (second : l.Behind b c) :
    l.Behind a c := by
  cases dir : l.dir <;> simp only [Behind, dir] at first second ⊢ <;> omega

theorem Behind.apart {a b : Cursor} {dir : Dir} {range : Rect} {space : Space} {size width : Nat}
    (supported : fontWidth size = some width)
    (behind : (ofSize dir range space size width).Behind a b) {font : Font} {color : UInt16}
    {ch ch' : UInt8} {point : Nat × Nat}
    (inside : ((ofSize dir range space size width).stamp font size color a ch).Box point) :
    ¬ ((ofSize dir range space size width).stamp font size color b ch').Box point := by
  obtain ⟨two, -, -⟩ := fontWidth_bounds supported
  cases dir <;> simp only [Behind, Stamp.Box, stamp, ofSize] at behind inside ⊢ <;> omega

/-! ## Lines -/

def lineAt (l : Layout) (k : Nat) : Nat :=
  match l.dir with
  | .crosswise => l.range.yposStart + if k = 0 then 0 else k * l.yposOffset + l.space.lineSpace
  | .vertical => l.range.xposStart + if k = 0 then 0 else k * l.xposOffset + l.space.lineSpace

def LineFits (l : Layout) (k : Nat) : Prop :=
  match l.dir with
  | .crosswise => l.lineAt k + l.yposOffset ≤ l.range.yposStop
  | .vertical => l.lineAt k + l.xposOffset ≤ l.range.xposStop

instance (l : Layout) (k : Nat) : Decidable (l.LineFits k) :=
  match turn : l.dir with
  | .crosswise => decidable_of_iff (l.lineAt k + l.yposOffset ≤ l.range.yposStop)
      (by simp only [LineFits, turn])
  | .vertical => decidable_of_iff (l.lineAt k + l.xposOffset ≤ l.range.xposStop)
      (by simp only [LineFits, turn])

/-- The line goes on at the coordinate `u`. -/
def GoesOn (l : Layout) (u : Nat) : Prop :=
  match l.dir with
  | .crosswise => u + l.xposOffset ≤ l.range.xposStop
  | .vertical => l.range.yposStop + l.yposOffset + l.space.wordSpace ≤ u

instance (l : Layout) (u : Nat) : Decidable (l.GoesOn u) :=
  match turn : l.dir with
  | .crosswise => decidable_of_iff (u + l.xposOffset ≤ l.range.xposStop) (by simp only [GoesOn, turn])
  | .vertical => decidable_of_iff (l.range.yposStop + l.yposOffset + l.space.wordSpace ≤ u)
      (by simp only [GoesOn, turn])

def firstAt (l : Layout) : Nat :=
  match l.dir with
  | .crosswise => (l.range.xposStart + l.space.wordSpace) % 2 ^ 16
  | .vertical => (l.range.yposStart + (2 ^ 16 - l.yposOffset / 2)) % 2 ^ 16

def againAt (l : Layout) : Nat :=
  match l.dir with
  | .crosswise => (l.range.xposStart + l.space.wordSpace) % 2 ^ 16
  | .vertical => (l.range.yposStart + (2 ^ 16 - l.space.wordSpace)) % 2 ^ 16

def nextAt (l : Layout) (u : Nat) : Nat :=
  match l.dir with
  | .crosswise => (u + l.xposOffset + l.space.wordSpace) % 2 ^ 16
  | .vertical => (u + (2 ^ 16 - (l.yposOffset + l.space.wordSpace))) % 2 ^ 16

def spot (l : Layout) (i : Nat) : Nat × Nat := Lines.spot l.GoesOn l.nextAt l.firstAt l.againAt i

def cursorAt (l : Layout) (s : Nat × Nat) : Cursor :=
  match l.dir with
  | .crosswise => ⟨s.2, l.lineAt s.1, s.1⟩
  | .vertical => ⟨l.lineAt s.1, s.2, s.1⟩

/-- The next line has a coordinate of 16 bits. -/
def Roomy (l : Layout) : Prop := ∀ k, k = 0 ∨ l.LineFits k → l.lineAt (k + 1) < 2 ^ 16 ∧ k + 1 < 2 ^ 16

theorem start_cursorAt (l : Layout) : l.start = l.cursorAt (0, l.firstAt) := by
  cases dir : l.dir <;> simp [start, cursorAt, lineAt, firstAt, dir]

theorem advance_cursorAt (s : Nat × Nat) :
    l.advance (l.cursorAt s) = l.cursorAt (s.1, l.nextAt s.2) := by
  cases dir : l.dir <;> simp only [advance, cursorAt, nextAt, dir]

theorem newline_cursorAt {s : Nat × Nat} (room : l.lineAt (s.1 + 1) < 2 ^ 16)
    (count : s.1 + 1 < 2 ^ 16) :
    l.newline (l.cursorAt s) = l.cursorAt (s.1 + 1, l.againAt) := by
  cases dir : l.dir <;>
    simp only [lineAt, dir, Nat.succ_ne_zero, if_false, ← Nat.add_assoc] at room <;>
    simp only [newline, cursorAt, againAt, lineAt, dir, Nat.mod_eq_of_lt count, Nat.succ_ne_zero,
      if_false, ← Nat.add_assoc, Nat.mod_eq_of_lt room]

theorem place_cursorAt {s : Nat × Nat}
    (room : ¬ l.GoesOn s.2 → l.lineAt (s.1 + 1) < 2 ^ 16 ∧ s.1 + 1 < 2 ^ 16) :
    l.place (l.cursorAt s) =
      if l.LineFits (settle l.GoesOn l.againAt s).1 then
        some (l.cursorAt (settle l.GoesOn l.againAt s)) else none := by
  simp only [place, settle]
  by_cases on : l.GoesOn s.2
  · simp only [on, if_true]
    cases dir : l.dir <;> simp only [GoesOn, dir] at on <;> simp only [cursorAt, LineFits, dir] <;>
      grind
  · obtain ⟨line, count⟩ := room on
    have broken := newline_cursorAt line count
    simp only [on, if_false]
    cases dir : l.dir <;> simp only [GoesOn, cursorAt, dir] at on broken <;>
      simp only [cursorAt, LineFits, dir, broken] <;> grind

theorem LineFits.mono {j k : Nat} (fits : l.LineFits k) (before : j ≤ k) : l.LineFits j := by
  cases dir : l.dir <;> simp only [LineFits, lineAt, dir] at fits ⊢
  · have rows := Nat.mul_le_mul_right l.yposOffset before
    grind
  · have rows := Nat.mul_le_mul_right l.xposOffset before
    grind

theorem slotFrom_last (c : Cursor) (i : Nat) :
    l.slotFrom c (i + 1) = (l.slotFrom c i).bind fun a => l.place (l.advance a) := by
  induction i generalizing c with
  | zero => simp [slotFrom]
  | succ i ih =>
      cases placed : l.place c with
      | none => simp [slotFrom, placed]
      | some a => rw [slotFrom_succ placed, slotFrom_succ placed, ih]

/-- The characters have the places of filled lines, up to the first line that leaves the
    range. -/
theorem slot_eq (roomy : l.Roomy) (i : Nat) :
    l.slot i = if l.LineFits (l.spot i).1 then some (l.cursorAt (l.spot i)) else none := by
  induction i with
  | zero =>
      obtain ⟨room, count⟩ := roomy 0 (.inl rfl)
      simp only [slot, slotFrom, start_cursorAt, spot, Lines.spot]
      exact place_cursorAt fun _ => ⟨room, count⟩
  | succ i ih =>
      have step : l.slot (i + 1) = (l.slot i).bind fun a => l.place (l.advance a) :=
        slotFrom_last _ _
      have later : (l.spot i).1 ≤ (l.spot (i + 1)).1 := spot_line_mono (Nat.le_succ i)
      rw [step, ih]
      by_cases fits : l.LineFits (l.spot i).1
      · obtain ⟨room, count⟩ := roomy _ (.inr fits)
        simp only [fits, if_true, Option.bind_some, advance_cursorAt]
        exact place_cursorAt fun _ => ⟨room, count⟩
      · have out : ¬ l.LineFits (l.spot (i + 1)).1 := fun fits' => fits (fits'.mono later)
        simp only [fits, out, if_false, Option.bind_none]

/-! ## Lines on the turned panel

The closed form of the places, with coordinates that may wrap.
-/

def pitch (l : Layout) : Nat :=
  match l.dir with
  | .crosswise => l.xposOffset + l.space.wordSpace
  | .vertical => l.yposOffset + l.space.wordSpace

/-- How many characters a line of the turned panel takes from `u` on. -/
def fill (l : Layout) (u : Nat) : Nat := (u - l.range.yposStop) / l.pitch

def firstFill (l : Layout) : Nat := l.fill l.firstAt

/-- How many characters the other lines take: the first of them is not checked. -/
def laterFill (l : Layout) : Nat := l.fill (l.nextAt l.againAt) + 1

def lineOf (l : Layout) (i : Nat) : Nat :=
  if i < l.firstFill then 0 else 1 + (i - l.firstFill) / l.laterFill

/-- The coordinate of character `i` of a string on the turned panel. -/
def placeOf (l : Layout) (i : Nat) : Nat :=
  if i < l.firstFill then l.firstAt - i * l.pitch
  else
    match (i - l.firstFill) % l.laterFill with
    | 0 => l.againAt
    | r + 1 => l.nextAt l.againAt - r * l.pitch

/-! The first characters of the first two lines. -/

theorem lineOf_first (some' : 0 < l.firstFill) : l.lineOf 0 = 0 := if_pos some'

theorem placeOf_first (some' : 0 < l.firstFill) : l.placeOf 0 = l.firstAt := by
  simp only [placeOf, some', if_true, Nat.zero_mul, Nat.sub_zero]

theorem lineOf_second : l.lineOf l.firstFill = 1 := by
  simp only [lineOf, Nat.lt_irrefl, if_false, Nat.sub_self, Nat.zero_div]

theorem placeOf_second : l.placeOf l.firstFill = l.againAt := by
  simp only [placeOf, Nat.lt_irrefl, if_false, Nat.sub_self, Nat.zero_mod]

theorem lineOf_third (more : 1 < l.laterFill) : l.lineOf (l.firstFill + 1) = 1 := by
  simp only [lineOf, show ¬ l.firstFill + 1 < l.firstFill by omega, if_false,
    Nat.add_sub_cancel_left, Nat.div_eq_of_lt more]

theorem placeOf_third (more : 1 < l.laterFill) :
    l.placeOf (l.firstFill + 1) = l.nextAt l.againAt := by
  simp only [placeOf, show ¬ l.firstFill + 1 < l.firstFill by omega, if_false,
    Nat.add_sub_cancel_left, Nat.mod_eq_of_lt more, Nat.zero_mul, Nat.sub_zero]

section

variable {u j : Nat} (turned : l.dir = .vertical) (some' : 0 < l.pitch) (small : l.pitch ≤ 2 ^ 16)
include turned

theorem firstAt_lt : l.firstAt < 2 ^ 16 := by
  simp only [firstAt, turned]
  omega

theorem againAt_lt : l.againAt < 2 ^ 16 := by
  simp only [againAt, turned]
  omega

theorem nextAt_lt (u : Nat) : l.nextAt u < 2 ^ 16 := by
  simp only [nextAt, turned]
  omega

include small in
theorem nextAt_of_le (below : u < 2 ^ 16) (enough : l.pitch ≤ u) : l.nextAt u = u - l.pitch := by
  simp only [pitch, turned] at small enough
  simp only [nextAt, pitch, turned]
  omega

include small in
theorem nextAt_iterate (below : u < 2 ^ 16) (enough : j * l.pitch ≤ u) :
    l.nextAt^[j] u = u - j * l.pitch := by
  induction j with
  | zero => simp
  | succ j ih =>
      rw [Nat.succ_mul] at enough
      rw [Function.iterate_succ_apply', ih (by omega),
        nextAt_of_le turned small (by omega) (by omega), Nat.succ_mul, Nat.sub_sub]

theorem placeOf_lt (i : Nat) : l.placeOf i < 2 ^ 16 := by
  have first := firstAt_lt turned
  have again := againAt_lt turned
  have next := nextAt_lt turned l.againAt
  simp only [placeOf]
  split
  · omega
  · split <;> omega

theorem goesOn_iff : l.GoesOn u ↔ l.range.yposStop + l.pitch ≤ u := by
  simp only [GoesOn, pitch, turned, Nat.add_assoc]

include some' small in
theorem goesOn_fill (below : u < 2 ^ 16) :
    (∀ j < l.fill u, l.GoesOn (l.nextAt^[j] u)) ∧ ¬ l.GoesOn (l.nextAt^[l.fill u] u) := by
  have whole := Nat.div_mul_le_self (u - l.range.yposStop) l.pitch
  have rest := Nat.lt_div_mul_add (a := u - l.range.yposStop) some'
  constructor
  · intro j inner
    have more : (j + 1) * l.pitch ≤ l.fill u * l.pitch := Nat.mul_le_mul_right _ inner
    simp only [fill] at more
    rw [Nat.succ_mul] at more
    rw [goesOn_iff turned, nextAt_iterate turned small below (by omega)]
    omega
  · rw [goesOn_iff turned, fill, nextAt_iterate turned small below (by omega)]
    omega

include some' small in
theorem spot_turned (i : Nat) : l.spot i = (l.lineOf i, l.placeOf i) := by
  obtain ⟨head, head'⟩ := goesOn_fill turned some' small (firstAt_lt turned)
  obtain ⟨tail, tail'⟩ := goesOn_fill turned some' small (nextAt_lt turned l.againAt)
  have closed : l.spot i =
      if i < l.firstFill then (0, l.nextAt^[i] l.firstAt)
      else (1 + (i - l.firstFill) / l.laterFill,
        l.nextAt^[(i - l.firstFill) % l.laterFill] l.againAt) :=
    spot_eq head head' (Nat.succ_pos _)
    (by
      rintro (_ | j) some' inner
      · omega
      · exact tail j (Nat.lt_of_succ_lt_succ inner))
    tail' i
  have along (u j : Nat) (below : u < 2 ^ 16) (inner : j ≤ l.fill u) :
      l.nextAt^[j] u = u - j * l.pitch := by
    have whole := Nat.div_mul_le_self (u - l.range.yposStop) l.pitch
    have part := Nat.mul_le_mul_right l.pitch inner
    simp only [fill] at part
    exact nextAt_iterate turned small below (by omega)
  rw [closed]
  simp only [lineOf, placeOf]
  split
  · rename_i inner
    rw [along _ _ (firstAt_lt turned) inner.le]
  · have inner := Nat.mod_lt (i - l.firstFill) (show 0 < l.laterFill from Nat.succ_pos _)
    generalize (i - l.firstFill) % l.laterFill = r at inner
    cases r with
    | zero => rfl
    | succ r =>
        have inner : r ≤ l.fill (l.nextAt l.againAt) := by
          simp only [laterFill] at inner
          omega
        simp only [Function.iterate_succ_apply, along _ _ (nextAt_lt turned _) inner]

end

/-! ## The panel -/

section

variable {dir : Dir} {range : Rect} {space : Space} {size width : Nat}

theorem pitch_ofSize : (ofSize dir range space size width).pitch = width + space.wordSpace := by
  cases dir <;> simp only [ofSize, pitch]

theorem roomy (panel : range.OnPanel) (narrow : space.Narrow)
    (supported : fontWidth size = some width) : (ofSize dir range space size width).Roomy := by
  obtain ⟨two, low, high⟩ := fontWidth_bounds supported
  obtain ⟨left, right, top, bottom⟩ := panel
  have spaces := narrow.lineSpace
  intro k fits
  simp only [bspLcdResolutionWidth, bspLcdResolutionHeight] at left right top bottom
  have rows : k ≤ k * size := Nat.le_mul_of_pos_right k (by omega)
  cases dir <;>
    simp only [LineFits, lineAt, ofSize, Nat.succ_ne_zero, if_false, Nat.succ_mul] at fits ⊢ <;>
    grind

end

end Layout

end ExploreF407.Lcd
