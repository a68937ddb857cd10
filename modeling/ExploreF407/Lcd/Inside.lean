import ExploreF407.Lcd.Places
import ExploreF407.Lcd.Written

/-! # Whether printed text stays inside its range

`BSP_LCDPrintString` checks the range before it draws, but the first character of a new line
is only checked across the lines.
-/

namespace ExploreF407.Lcd

open Overlay

namespace Layout

variable {font : Font} {dir : Dir} {range : Rect} {space : Space} {text : List UInt8}
  {size width k : Nat} {color : UInt16} {ch : UInt8} {point : Nat × Nat} {s : Nat × Nat}

/-- A character at the coordinate `u` does not leave the range along its line. -/
def AlongInside (l : Layout) (u : Nat) : Prop :=
  match l.dir with
  | .crosswise => l.range.xposStart ≤ u ∧ u + l.xposOffset ≤ l.range.xposStop + 1
  | .vertical => u ≤ l.range.yposStart ∧ l.range.yposStop + l.yposOffset ≤ u + 1

theorem unwrapped_crosswise (panel : range.OnPanel) (supported : fontWidth size = some width)
    (line : (ofSize .crosswise range space size width).LineFits s.1) (room : s.2 + width ≤ 2 ^ 16) :
    ((ofSize .crosswise range space size width).stamp font size color
      ((ofSize .crosswise range space size width).cursorAt s) ch).Unwrapped := by
  obtain ⟨two, -, -⟩ := fontWidth_bounds supported
  have bottom := panel.yposStop
  simp only [bspLcdResolutionHeight] at bottom
  simp only [LineFits, lineAt, ofSize] at line
  simp only [Stamp.Unwrapped, stamp, cursorAt, lineAt, ofSize]
  omega

theorem writes_inside_iff (panel : range.OnPanel) (supported : fontWidth size = some width)
    (line : (ofSize dir range space size width).LineFits s.1) (coordinate : s.2 < 2 ^ 16)
    (room : dir = .crosswise → s.2 + width ≤ 2 ^ 16) :
    (∀ point, ((ofSize dir range space size width).stamp font size color
        ((ofSize dir range space size width).cursorAt s) ch).Writes point →
      (ofSize dir range space size width).Inside point) ↔
      (ofSize dir range space size width).AlongInside s.2 := by
  obtain ⟨two, low, high⟩ := fontWidth_bounds supported
  have left := panel.xposStart
  have right := panel.xposStop
  have top := panel.yposStart
  have bottom := panel.yposStop
  simp only [bspLcdResolutionWidth, bspLcdResolutionHeight] at left right top bottom
  have wide : 1 < size := by omega
  cases dir with
  | crosswise =>
      have unwrapped : ((ofSize .crosswise range space size width).stamp font size color
          ((ofSize .crosswise range space size width).cursorAt s) ch).Unwrapped :=
        unwrapped_crosswise panel supported line (room rfl)
      simp only [LineFits, lineAt, ofSize] at line
      simp only [Stamp.writes_iff_box unwrapped wide]
      simp only [Stamp.Box, stamp, cursorAt, lineAt, Inside, AlongInside, ofSize]
      constructor
      · intro inside
        have first := inside (s.2, _) ⟨le_refl _, by simp only; omega, le_refl _, by simp only; omega⟩
        have last := inside (s.2 + width - 1, _)
          ⟨by simp only; omega, by simp only; omega, le_refl _, by simp only; omega⟩
        simp only at first last
        omega
      · intro along point box
        omega
  | vertical =>
      simp only [LineFits, lineAt, ofSize] at line
      by_cases over' : s.2 + 1 < width
      · refine iff_of_false ?_ ?_
        · intro inside
          have last := inside _ (Stamp.writes_row (y := 65535) rfl wide
            (by simp only [stamp, cursorAt, lineAt, ofSize]; omega)
            (by simp only [stamp, cursorAt, ofSize]; omega) (by omega)
            (by simp only [stamp, cursorAt, ofSize]; omega))
          simp only [Inside, ofSize] at last
          omega
        · simp only [AlongInside, ofSize]
          omega
      · have unwrapped : ((ofSize .vertical range space size width).stamp font size color
            ((ofSize .vertical range space size width).cursorAt s) ch).Unwrapped := by
          simp only [Stamp.Unwrapped, stamp, cursorAt, lineAt, ofSize]
          omega
        simp only [Stamp.writes_iff_box unwrapped wide]
        simp only [Stamp.Box, stamp, cursorAt, lineAt, Inside, AlongInside, ofSize]
        constructor
        · intro inside
          have first := inside (_, s.2)
            ⟨le_refl _, by simp only; omega, le_refl _, by simp only; omega⟩
          have last := inside (_, s.2 + 1 - width)
            ⟨le_refl _, by simp only; omega, by simp only; omega, by simp only; omega⟩
          simp only at first last
          omega
        · intro along point box
          omega

theorem spot_zero_broken {l : Layout} (broken : ¬ l.GoesOn l.firstAt) :
    l.spot 0 = (1, l.againAt) := by
  simp only [spot, Lines.spot, Lines.settle, broken, if_false, Nat.zero_add]

theorem along_crosswise (panel : range.OnPanel) (narrow : space.Narrow)
    (supported : fontWidth size = some width) (k : Nat) :
    let s := (ofSize .crosswise range space size width).spot k
    range.xposStart + space.wordSpace ≤ s.2 ∧
      (s.2 + width ≤ range.xposStop ∨ s.2 = range.xposStart + space.wordSpace ∧ 1 ≤ s.1) := by
  obtain ⟨two, low, high⟩ := fontWidth_bounds supported
  obtain ⟨left, right, top, bottom⟩ := panel
  have spaces := narrow.wordSpace
  simp only [bspLcdResolutionWidth] at left right
  induction k with
  | zero =>
      simp only [spot, Lines.spot, Lines.settle, GoesOn, firstAt, againAt, ofSize]
      grind
  | succ k ih =>
      simp only [spot, Lines.spot, Lines.settle, GoesOn, firstAt, againAt, nextAt, ofSize] at ih ⊢
      grind

/-- The coordinates have 16 bits, and no character of a panel that is not turned wraps. -/
theorem spot_lt (dir : Dir) (panel : range.OnPanel) (narrow : space.Narrow)
    (supported : fontWidth size = some width) (k : Nat) :
    ((ofSize dir range space size width).spot k).2 < 2 ^ 16 ∧
      (dir = .crosswise → ((ofSize dir range space size width).spot k).2 + width ≤ 2 ^ 16) := by
  obtain ⟨two, low, high⟩ := fontWidth_bounds supported
  have spaces := narrow.wordSpace
  cases dir with
  | crosswise =>
      obtain ⟨-, stop⟩ := along_crosswise panel narrow supported k
      obtain ⟨left, right, -, -⟩ := panel
      simp only [bspLcdResolutionWidth] at left right
      omega
  | vertical =>
      have turned : (ofSize .vertical range space size width).dir = .vertical := rfl
      have pitch : (ofSize .vertical range space size width).pitch = width + space.wordSpace :=
        pitch_ofSize
      rw [spot_turned turned (by omega) (by omega)]
      exact ⟨placeOf_lt turned k, by simp⟩

/-- When what is printed stays inside its range. -/
def Contained (dir : Dir) (range : Rect) (space : Space) (size width n : Nat) : Prop :=
  n = 0 ∨
    match dir with
    | .crosswise =>
        range.xposStart + space.wordSpace + width ≤ range.xposStop + 1 ∨
          range.yposStop < range.yposStart + 2 * size + space.lineSpace
    | .vertical =>
        range.xposStop < range.xposStart + size ∨
          width / 2 ≤ range.yposStart ∧
            (n ≤ firstLine ∨ range.xposStop < range.xposStart + 2 * size + space.lineSpace ∨
              range.yposStop + width + space.wordSpace ≤ range.yposStart + 1 ∧
                (n ≤ firstLine + 1 ∨ width + 2 * space.wordSpace ≤ range.yposStart))
where
  /-- The number of characters on the first line. -/
  firstLine : Nat := (range.yposStart - width / 2 - range.yposStop) / (width + space.wordSpace)

theorem firstAt_eq (start : width / 2 ≤ range.yposStart) :
    (ofSize .vertical range space size width).firstAt = range.yposStart - width / 2 := by
  have small := range.yposStart_lt
  simp only [firstAt, ofSize]
  omega

theorem firstFill_eq (start : width / 2 ≤ range.yposStart) :
    (ofSize .vertical range space size width).firstFill =
      Contained.firstLine range space width := by
  simp only [firstFill, fill, firstAt_eq start, pitch_ofSize]
  rfl

theorem againAt_eq (again : space.wordSpace ≤ range.yposStart) :
    (ofSize .vertical range space size width).againAt = range.yposStart - space.wordSpace := by
  have small := range.yposStart_lt
  simp only [againAt, ofSize]
  omega

theorem mul_le_of_lt_fill {l : Layout} {u : Nat} (inner : k < l.fill u) (some' : 0 < l.pitch) :
    (k + 1) * l.pitch ≤ u - l.range.yposStop :=
  (Nat.le_div_iff_mul_le some').mp inner

/-! ### Characters that are inside -/

theorem along_line (panel : range.OnPanel) (narrow : space.Narrow)
    (supported : fontWidth size = some width)
    (room : range.xposStart + space.wordSpace + width ≤ range.xposStop + 1 ∨
      range.yposStop < range.yposStart + 2 * size + space.lineSpace)
    (line : (ofSize .crosswise range space size width).LineFits
      ((ofSize .crosswise range space size width).spot k).1) :
    (ofSize .crosswise range space size width).AlongInside
      ((ofSize .crosswise range space size width).spot k).2 := by
  obtain ⟨start, stop⟩ := along_crosswise panel narrow supported k
  simp only [AlongInside]
  refine ⟨by simp only [ofSize] at start ⊢; omega, ?_⟩
  rcases stop with inner | ⟨first, later⟩
  · simp only [ofSize] at inner ⊢
    omega
  · have one := line.mono later
    simp only [LineFits, lineAt, ofSize] at one first ⊢
    grind

theorem along_firstLine (some' : 0 < width) (start : width / 2 ≤ range.yposStart)
    (inner : k < (ofSize .vertical range space size width).firstFill) :
    (ofSize .vertical range space size width).AlongInside
      ((ofSize .vertical range space size width).placeOf k) := by
  have pitch : (ofSize .vertical range space size width).pitch = width + space.wordSpace :=
    pitch_ofSize
  have fill := mul_le_of_lt_fill inner (by omega)
  rw [Nat.succ_mul, pitch, firstAt_eq start] at fill
  simp only [placeOf, inner, if_true, AlongInside, pitch, firstAt_eq start]
  simp only [ofSize] at fill ⊢
  omega

/-- On another line of the turned panel, if a character fits along it, and the coordinate
    behind the first one is on the panel where it is used. -/
theorem along_laterLine (some' : 0 < width) (small : width + space.wordSpace ≤ 2 ^ 16)
    (outer : ¬ k < (ofSize .vertical range space size width).firstFill)
    (again : range.yposStop + width + space.wordSpace ≤ range.yposStart + 1)
    (high : k = (ofSize .vertical range space size width).firstFill ∨
      width + 2 * space.wordSpace ≤ range.yposStart) :
    (ofSize .vertical range space size width).AlongInside
      ((ofSize .vertical range space size width).placeOf k) := by
  have top := range.yposStart_lt
  have turned : (ofSize .vertical range space size width).dir = .vertical := rfl
  have pitch : (ofSize .vertical range space size width).pitch = width + space.wordSpace :=
    pitch_ofSize
  have againAt : (ofSize .vertical range space size width).againAt =
      range.yposStart - space.wordSpace := againAt_eq (by omega)
  simp only [placeOf, outer, if_false]
  split
  · rw [againAt]
    simp only [AlongInside, ofSize]
    omega
  · rename_i r place
    have later : k ≠ (ofSize .vertical range space size width).firstFill := by
      rintro rfl
      rw [Nat.sub_self, Nat.zero_mod] at place
      cases place
    have high := high.resolve_left later
    have next : (ofSize .vertical range space size width).nextAt
        (range.yposStart - space.wordSpace) =
          range.yposStart - space.wordSpace - (width + space.wordSpace) := by
      rw [nextAt_of_le turned (by omega) (by omega) (by omega), pitch]
    have inner := Nat.mod_lt (k - (ofSize .vertical range space size width).firstFill)
      (show 0 < (ofSize .vertical range space size width).laterFill from Nat.succ_pos _)
    rw [place] at inner
    have fill := mul_le_of_lt_fill (Nat.lt_of_succ_lt_succ inner) (by omega)
    rw [againAt, next, Nat.succ_mul, pitch] at fill
    rw [againAt, next, pitch]
    simp only [AlongInside, ofSize] at fill ⊢
    omega

theorem Contained.along {n : Nat} (contained : Contained dir range space size width n)
    (panel : range.OnPanel) (narrow : space.Narrow) (supported : fontWidth size = some width)
    (below : k < n)
    (line : (ofSize dir range space size width).LineFits
      ((ofSize dir range space size width).spot k).1) :
    (ofSize dir range space size width).AlongInside
      ((ofSize dir range space size width).spot k).2 := by
  obtain ⟨two, low, high⟩ := fontWidth_bounds supported
  have contained := contained.resolve_left (by omega)
  cases dir with
  | crosswise => exact along_line panel narrow supported contained line
  | vertical =>
      have spaces := narrow.wordSpace
      have turned : (ofSize .vertical range space size width).dir = .vertical := rfl
      have pitch : (ofSize .vertical range space size width).pitch = width + space.wordSpace :=
        pitch_ofSize
      simp only [spot_turned turned (by omega) (by omega)] at line ⊢
      simp only at contained
      by_cases first : k < (ofSize .vertical range space size width).firstFill
      · have zero : (ofSize .vertical range space size width).lineOf k = 0 := if_pos first
        rw [zero] at line
        simp only [LineFits, lineAt, if_true, ofSize] at line
        exact along_firstLine (by omega) (by omega) first
      · have later : 1 ≤ (ofSize .vertical range space size width).lineOf k := by
          simp only [lineOf, first, if_false]
          exact Nat.le_add_right 1 _
        have one := line.mono later
        simp only [LineFits, lineAt, ofSize] at one
        obtain ⟨start, rest⟩ := contained.resolve_left (by grind)
        have fill : (ofSize .vertical range space size width).firstFill =
            Contained.firstLine range space width := firstFill_eq start
        rw [← fill] at rest
        obtain ⟨again, high⟩ := (rest.resolve_left (by omega)).resolve_left (by grind)
        exact along_laterLine (by omega) (by omega) first again (high.imp_left (by omega))

/-! ### Characters that are not inside -/

theorem not_along_start (panel : range.OnPanel) (narrow : space.Narrow)
    (supported : fontWidth size = some width) (over' : range.yposStart < width / 2) :
    let l := ofSize .vertical range space size width
    0 < l.firstFill ∧ ¬ l.AlongInside l.firstAt := by
  obtain ⟨two, low, high⟩ := fontWidth_bounds supported
  have spaces := narrow.wordSpace
  have bottom := panel.yposStop
  simp only [bspLcdResolutionHeight] at bottom
  have firstAt : (ofSize .vertical range space size width).firstAt =
      range.yposStart + 2 ^ 16 - width / 2 := by
    simp only [Layout.firstAt, ofSize]
    omega
  constructor
  · apply Nat.div_pos
    · rw [firstAt, pitch_ofSize]
      simp only [ofSize]
      omega
    · rw [pitch_ofSize]
      omega
  · simp only [AlongInside, firstAt]
    simp only [ofSize]
    omega

/-- The second character of a line is far behind the panel, if its coordinate is below row 0. -/
theorem not_along_again (panel : range.OnPanel) (narrow : space.Narrow)
    (supported : fontWidth size = some width)
    (again : range.yposStop + width + space.wordSpace ≤ range.yposStart + 1)
    (over' : range.yposStart < width + 2 * space.wordSpace) :
    let l := ofSize .vertical range space size width
    1 < l.laterFill ∧ ¬ l.AlongInside (l.nextAt l.againAt) := by
  obtain ⟨two, low, high⟩ := fontWidth_bounds supported
  have spaces := narrow.wordSpace
  have top := panel.yposStart
  simp only [bspLcdResolutionHeight] at top
  have next : (ofSize .vertical range space size width).nextAt
      (ofSize .vertical range space size width).againAt =
        range.yposStart - space.wordSpace + 2 ^ 16 - (width + space.wordSpace) := by
    simp only [nextAt, againAt, ofSize]
    omega
  constructor
  · apply Nat.succ_lt_succ
    apply Nat.div_pos
    · rw [next, pitch_ofSize]
      simp only [ofSize]
      omega
    · rw [pitch_ofSize]
      omega
  · simp only [AlongInside, next]
    simp only [ofSize]
    omega

/-- Where the rectangle and the string do not meet the condition, some character is drawn that
    is not inside. -/
theorem contained_of_along {n : Nat} (panel : range.OnPanel) (narrow : space.Narrow)
    (supported : fontWidth size = some width)
    (along : ∀ k < n, (ofSize dir range space size width).LineFits
        ((ofSize dir range space size width).spot k).1 →
      (ofSize dir range space size width).AlongInside
        ((ofSize dir range space size width).spot k).2) :
    Contained dir range space size width n := by
  obtain ⟨two, low, high⟩ := fontWidth_bounds supported
  have spaces := narrow.wordSpace
  by_contra out
  cases dir with
  | crosswise =>
      obtain ⟨left, right, top, bottom⟩ := panel
      simp only [bspLcdResolutionWidth, bspLcdResolutionHeight] at left right top bottom
      simp only [Contained, not_or, Nat.not_le, Nat.not_lt] at out
      obtain ⟨nonempty, wide, tall⟩ := out
      have broken : ¬ (ofSize .crosswise range space size width).GoesOn
          (ofSize .crosswise range space size width).firstAt := by
        simp only [GoesOn, firstAt, ofSize]
        omega
      have first := along 0 (Nat.pos_of_ne_zero nonempty)
      rw [spot_zero_broken broken] at first
      have line : (ofSize .crosswise range space size width).LineFits 1 := by
        simp only [LineFits, lineAt, ofSize]
        grind
      have inside := first line
      simp only [AlongInside, againAt, ofSize] at inside
      omega
  | vertical =>
      have turned : (ofSize .vertical range space size width).dir = .vertical := rfl
      have pitch : (ofSize .vertical range space size width).pitch = width + space.wordSpace :=
        pitch_ofSize
      simp only [spot_turned turned (by omega) (by omega)] at along
      simp only [Contained, not_or] at out
      obtain ⟨nonempty, tall, out⟩ := out
      have zero : (ofSize .vertical range space size width).LineFits 0 := by
        simp only [LineFits, lineAt, ofSize]
        grind
      -- The first line starts inside.
      have start : width / 2 ≤ range.yposStart := by
        by_contra over'
        obtain ⟨some', outside⟩ :=
          not_along_start panel narrow supported (Nat.lt_of_not_le over')
        have first := along 0 (Nat.pos_of_ne_zero nonempty)
        simp only [lineOf_first some', placeOf_first some'] at first
        exact outside (first zero)
      have out := fun rest => out ⟨start, rest⟩
      have fill : (ofSize .vertical range space size width).firstFill =
          Contained.firstLine range space width := firstFill_eq start
      rw [← fill] at out
      simp only [imp_false, not_or] at out
      obtain ⟨more, low', out⟩ := out
      have one : (ofSize .vertical range space size width).LineFits 1 := by
        simp only [LineFits, lineAt, ofSize]
        grind
      -- So does the second line.
      have second := along _ (Nat.lt_of_not_le more)
      simp only [lineOf_second, placeOf_second] at second
      have inside := second one
      simp only [AlongInside, againAt, ofSize] at inside
      have again : range.yposStop + width + space.wordSpace ≤ range.yposStart + 1 := by omega
      have out := fun rest => out ⟨again, rest⟩
      simp only [imp_false, not_or, Nat.not_le] at out
      -- But its second character does not.
      obtain ⟨two', outside⟩ := not_along_again panel narrow supported again out.2
      have third := along _ out.1
      simp only [lineOf_third two', placeOf_third two'] at third
      exact outside (third one)

/-! ## `BSP_LCDPrintString` -/

theorem printString_panel (supported : fontWidth size = some width) (p : Panel)
    (cursor : Nat × Nat) :
    (printString font dir { panel := p, cursor := cursor } range space text size color).1.panel =
      ((ofSize dir range space size width).printChars font size color text
        (ofSize dir range space size width).start { panel := p, cursor := cursor }).1.panel := by
  simp only [printString, supported]
  split <;> rename_i printed <;> rw [printed]

theorem printString_writes (panel : range.OnPanel) (narrow : space.Narrow)
    (supported : fontWidth size = some width) {cursor : Nat × Nat} :
    (∃ p : Panel, (printString font dir { panel := p, cursor := cursor } range space text size
      color).1.panel point ≠ p point) ↔
      ∃ k ch, text[k]? = some ch ∧
        (ofSize dir range space size width).LineFits
          ((ofSize dir range space size width).spot k).1 ∧
        ((ofSize dir range space size width).stamp font size color
          ((ofSize dir range space size width).cursorAt
            ((ofSize dir range space size width).spot k)) ch).Writes point := by
  have room : (ofSize dir range space size width).Roomy := roomy panel narrow supported
  have slots := slot_eq room
  simp only [slot] at slots
  simp only [printString_panel supported]
  refine (printChars_writes (c := (ofSize dir range space size width).start)
    { panel := fun _ => white, cursor := cursor }).trans ?_
  simp only [slots, Option.ite_none_right_eq_some, Option.some.injEq]
  constructor
  · intro written
    obtain ⟨k, ch, a, there, ⟨line, rfl⟩, writes⟩ := written
    exact ⟨k, ch, there, line, writes⟩
  · intro written
    obtain ⟨k, ch, there, line, writes⟩ := written
    exact ⟨k, ch, _, there, ⟨line, rfl⟩, writes⟩

end Layout

/-- For both directions, every range on the panel, every spacing, every size there is a font
    for and every string: all points that are written lie inside the range exactly under the
    condition `Contained`. -/
theorem printString_inside_iff (font : Font) (dir : Dir) (cursor : Nat × Nat) (range : Rect)
    (space : Space) (text : List UInt8) (size width : Nat) (color : UInt16)
    (panel : range.OnPanel) (narrow : space.Narrow) (supported : fontWidth size = some width) :
    (∀ point, (∃ p : Panel, (printString font dir { panel := p, cursor := cursor } range space text
        size color).1.panel point ≠ p point) →
      (Layout.ofSize dir range space size width).Inside point) ↔
      Layout.Contained dir range space size width text.length := by
  have coordinate := Layout.spot_lt dir panel narrow supported
  simp only [Layout.printString_writes panel narrow supported]
  constructor
  · intro inside
    apply Layout.contained_of_along panel narrow supported
    intro k below line
    obtain ⟨small, room⟩ := coordinate k
    have own : ∀ point, ((Layout.ofSize dir range space size width).stamp font size color
        ((Layout.ofSize dir range space size width).cursorAt
          ((Layout.ofSize dir range space size width).spot k)) text[k]).Writes point →
        (Layout.ofSize dir range space size width).Inside point := by
      intro point writes
      exact inside point ⟨k, text[k], List.getElem?_eq_getElem below, line, writes⟩
    exact (Layout.writes_inside_iff panel supported line small room).mp own
  · intro contained point written
    obtain ⟨k, ch, there, line, writes⟩ := written
    obtain ⟨below, -⟩ := List.getElem?_eq_some_iff.mp there
    obtain ⟨small, room⟩ := coordinate k
    exact (Layout.writes_inside_iff panel supported line small room).mpr
      (contained.along panel narrow supported below line) point writes

def wholePanel : Rect := .ofPanel 0 bspLcdResolutionWidth bspLcdResolutionHeight 0

theorem printString_inside_iff_whole :
    let space : Space := { lineSpace := 2, wordSpace := 2 }
    ∀ point, (∃ p : Panel, (printString (fun _ _ _ => 0) .vertical { panel := p, cursor := (0, 0) }
        wholePanel space [49, 50, 51] 16 black).1.panel point ≠ p point) →
      (Layout.ofSize .vertical wholePanel space 16 8).Inside point := by
  intro space
  apply (printString_inside_iff (fun _ _ _ => 0) .vertical (0, 0) wholePanel space [49, 50, 51] 16 8
    black (Rect.onPanel_ofPanel ..) (by decide) rfl).mpr
  exact .inr (.inr ⟨by decide, .inl (by decide)⟩)

def slit : Rect := .ofPanel 0 5 0 100

/-- A character is drawn over the right edge: after the line break only the rows are checked. -/
theorem printString_not_inside :
    slit.OnPanel ∧
      ¬ ∀ point, (∃ p : Panel, (printString (fun _ _ _ => 0) .crosswise
          { panel := p, cursor := (0, 0) } slit { lineSpace := 0, wordSpace := 0 } [65] 16
          black).1.panel point ≠ p point) →
        (Layout.ofSize .crosswise slit { lineSpace := 0, wordSpace := 0 } 16 8).Inside point := by
  refine ⟨Rect.onPanel_ofPanel .., fun always => ?_⟩
  have outside : _ ∧ 7 ≤ 5 ∧ _ := always (7, 16) ⟨fun _ => black, by decide +kernel⟩
  omega

end ExploreF407.Lcd
