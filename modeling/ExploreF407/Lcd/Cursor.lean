import ExploreF407.Lcd.Calls
import ExploreF407.Lcd.Inside

/-! # The cursor behind a string

The loop goes on behind the last character, and the cursor is recorded another character
further. On the turned panel that may be beyond row 0.
-/

namespace ExploreF407.Lcd

open Lines

def getCursor (lcd : Screen) : Nat × Nat := lcd.cursor

theorem Stamp.writes_above_iff {g : Stamp} {c : Nat} (turned : g.dir = .vertical)
    (wide : 1 < g.size) (right : g.xpos + g.size < 2 ^ 16) (small : g.ypos < 2 ^ 16) :
    (∀ point, g.Writes point → c < point.2) ↔ c + g.size / 2 ≤ g.ypos := by
  by_cases low : g.ypos + 1 < g.size / 2
  · refine iff_of_false ?_ (by omega)
    intro above
    exact Nat.not_lt_zero c (above _ (writes_row turned wide right low (by omega) (by omega)))
  · have unwrapped : g.Unwrapped := by
      simp only [Unwrapped, turned]
      omega
    simp only [writes_iff_box unwrapped wide]
    simp only [Box, turned]
    constructor
    · intro above
      have first := above (g.xpos, g.ypos + 1 - g.size / 2)
        ⟨le_refl _, by simp only; omega, by simp only; omega, by simp only; omega⟩
      simp only at first
      omega
    · intro beyond point box
      omega

namespace Layout

variable {font : Font} {dir : Dir} {range : Rect} {space : Space} {text : List UInt8}
  {size width i k : Nat} {color : UInt16} {l : Layout} {s : Nat × Nat}

/-- The cursor is on the line of the last character, at its end or beyond. -/
def Past (l : Layout) (last : Cursor) (cursor : Nat × Nat) : Prop :=
  match l.dir with
  | .crosswise => cursor.2 = last.ypos ∧ last.xpos + l.xposOffset ≤ cursor.1
  | .vertical => cursor.1 = last.xpos ∧ cursor.2 + l.yposOffset ≤ last.ypos

/-- The points of a rectangle that starts at the cursor. -/
def Ahead (l : Layout) (cursor point : Nat × Nat) : Prop :=
  match l.dir with
  | .crosswise => cursor.1 ≤ point.1 ∧ cursor.2 ≤ point.2
  | .vertical => cursor.1 ≤ point.1 ∧ point.2 ≤ cursor.2

/-- Behind `n` characters there is room for another two on the line. -/
def Continues (l : Layout) (n : Nat) : Prop :=
  match l.dir with
  | .crosswise => True
  | .vertical =>
      if n ≤ l.firstFill then (n + 1) * l.pitch ≤ l.firstAt
      else
        let r := (n - 1 - l.firstFill) % l.laterFill
        (r + 2) * l.pitch ≤ l.againAt ∨
          -- The line went on at the other end of the rows.
          l.againAt < l.pitch ∧ 2 ^ 16 + l.yposOffset ≤ (r + 2) * l.pitch ∧
            (r + 2) * l.pitch ≤ 2 ^ 16 + l.againAt

theorem past_crosswise (across : l.dir = .crosswise) {c : Nat × Nat} :
    l.Past (l.cursorAt s) c ↔ c.2 = l.lineAt s.1 ∧ s.2 + l.xposOffset ≤ c.1 := by
  simp only [Past, cursorAt, across]

theorem past_vertical (turned : l.dir = .vertical) {c : Nat × Nat} :
    l.Past (l.cursorAt s) c ↔ c.1 = l.lineAt s.1 ∧ c.2 + l.yposOffset ≤ s.2 := by
  simp only [Past, cursorAt, turned]

/-! ## Characters of one line -/

theorem lineAt_lt {j k : Nat} (before : j < k) :
    match l.dir with
    | .crosswise => l.lineAt j + l.yposOffset ≤ l.lineAt k
    | .vertical => l.lineAt j + l.xposOffset ≤ l.lineAt k := by
  cases dir : l.dir <;> simp only [lineAt, dir]
  · have rows := Nat.mul_le_mul_right l.yposOffset (Nat.succ_le_of_lt before)
    rw [Nat.succ_mul] at rows
    grind
  · have rows := Nat.mul_le_mul_right l.xposOffset (Nat.succ_le_of_lt before)
    rw [Nat.succ_mul] at rows
    grind

theorem along_mono (panel : range.OnPanel) (narrow : space.Narrow)
    (supported : fontWidth size = some width) (order : k ≤ i)
    (same : ((ofSize .crosswise range space size width).spot k).1 =
      ((ofSize .crosswise range space size width).spot i).1) :
    ((ofSize .crosswise range space size width).spot k).2 ≤
      ((ofSize .crosswise range space size width).spot i).2 := by
  obtain ⟨two, low, high⟩ := fontWidth_bounds supported
  have spaces := narrow.wordSpace
  have right := panel.xposStop
  have left := panel.xposStart
  simp only [bspLcdResolutionWidth] at left right
  induction i, order using Nat.le_induction with
  | base => exact le_refl _
  | succ i order ih =>
      have line : ((ofSize .crosswise range space size width).spot k).1 ≤
          ((ofSize .crosswise range space size width).spot i).1 := spot_line_mono order
      obtain ⟨-, stop⟩ := along_crosswise panel narrow supported i
      have unfolded : (ofSize .crosswise range space size width).spot (i + 1) =
          settle (ofSize .crosswise range space size width).GoesOn
            (ofSize .crosswise range space size width).againAt
            (((ofSize .crosswise range space size width).spot i).1,
              (ofSize .crosswise range space size width).nextAt
                ((ofSize .crosswise range space size width).spot i).2) := rfl
      rw [unfolded] at same ⊢
      simp only [settle] at same ⊢
      split at same
      · rename_i on
        rw [if_pos on]
        have ih := ih same
        simp only [nextAt, ofSize] at ih stop ⊢
        omega
      · simp only at same
        omega

/-- On a line of the turned panel no character but the first can be behind the last. -/
theorem placeOf_mono (order : k ≤ i) (same : l.lineOf k = l.lineOf i) :
    l.placeOf i ≤ l.placeOf k ∨ l.firstFill ≤ i ∧ l.placeOf k = l.againAt := by
  by_cases inner : i < l.firstFill
  · have inner' : k < l.firstFill := by omega
    have steps := Nat.mul_le_mul_right l.pitch order
    left
    simp only [placeOf, inner, inner', if_true]
    omega
  · have outer : ¬ k < l.firstFill := by
      intro inner'
      simp only [lineOf, inner, inner', if_true, if_false] at same
      exact Nat.ne_of_lt (Nat.lt_add_right _ Nat.one_pos) same
    simp only [lineOf, inner, outer, if_false, Nat.add_left_cancel_iff] at same
    have here := Nat.mod_add_div (i - l.firstFill) l.laterFill
    have there := Nat.mod_add_div (k - l.firstFill) l.laterFill
    rw [same] at there
    have columns : (k - l.firstFill) % l.laterFill ≤ (i - l.firstFill) % l.laterFill := by omega
    simp only [placeOf, inner, outer, if_false]
    generalize (k - l.firstFill) % l.laterFill = q at columns
    generalize (i - l.firstFill) % l.laterFill = r at columns
    cases q with
    | zero => exact .inr ⟨by omega, rfl⟩
    | succ q =>
        cases r with
        | zero => omega
        | succ r =>
            have steps := Nat.mul_le_mul_right l.pitch (Nat.le_of_succ_le_succ columns)
            left
            simp only
            omega

theorem exists_first (outer : l.firstFill ≤ i) :
    ∃ k ≤ i, l.lineOf k = l.lineOf i ∧ l.placeOf k = l.againAt := by
  have some' : 0 < l.laterFill := Nat.succ_pos _
  have whole := Nat.div_add_mod (i - l.firstFill) l.laterFill
  have start : i - (i - l.firstFill) % l.laterFill - l.firstFill =
      l.laterFill * ((i - l.firstFill) / l.laterFill) := by omega
  have later : ¬ i - (i - l.firstFill) % l.laterFill < l.firstFill := by omega
  refine ⟨i - (i - l.firstFill) % l.laterFill, Nat.sub_le .., ?_, ?_⟩
  · simp only [lineOf, later, show ¬ i < l.firstFill by omega, if_false, start,
      Nat.mul_div_cancel_left _ some']
  · simp only [placeOf, later, if_false, start, Nat.mul_mod_right]

/-- Only the first and the last character of a line matter for its lowest place. -/
theorem le_placeOf_iff {u : Nat} :
    (∀ k ≤ i, l.lineOf k = l.lineOf i → u ≤ l.placeOf k) ↔
      u ≤ l.placeOf i ∧ (l.firstFill ≤ i → u ≤ l.againAt) := by
  constructor
  · intro all
    refine ⟨all i (le_refl i) rfl, fun outer => ?_⟩
    obtain ⟨k, order, same, place⟩ := exists_first outer
    exact place ▸ all k order same
  · intro ends k order same
    obtain ⟨last, first⟩ := ends
    rcases placeOf_mono order same with before | ⟨outer, place⟩
    · exact last.trans before
    · exact place ▸ first outer

theorem continues_iff (turned : l.dir = .vertical) (some' : 0 < l.pitch)
    (small : 2 * l.pitch < 2 ^ 16) :
    l.Continues (i + 1) ↔ 2 * l.pitch ≤ l.placeOf i ∧
      (l.firstFill ≤ i → l.placeOf i + l.yposOffset ≤ l.againAt + 2 * l.pitch) := by
  have again := againAt_lt turned
  have glyph : l.yposOffset ≤ l.pitch := by
    simp only [pitch, turned]
    omega
  simp only [Continues, turned]
  by_cases inner : i < l.firstFill
  · have fill := mul_le_of_lt_fill inner some'
    simp only [placeOf, inner, Nat.succ_le_of_lt inner, show ¬ l.firstFill ≤ i by omega, if_true,
      false_imp_iff, and_true]
    rw [Nat.succ_mul, Nat.succ_mul]
    rw [Nat.succ_mul] at fill
    omega
  · have column := Nat.mod_lt (i - l.firstFill) (show 0 < l.laterFill from Nat.succ_pos _)
    simp only [placeOf, inner, show ¬ i + 1 ≤ l.firstFill by omega, if_false, Nat.add_sub_cancel,
      show l.firstFill ≤ i by omega, true_imp_iff]
    generalize (i - l.firstFill) % l.laterFill = r at column
    cases r with
    | zero =>
        simp only [Nat.zero_add]
        omega
    | succ r =>
        have fill := mul_le_of_lt_fill (Nat.lt_of_succ_lt_succ column) some'
        have next : l.nextAt l.againAt =
            if l.pitch ≤ l.againAt then l.againAt - l.pitch
            else l.againAt + 2 ^ 16 - l.pitch := by
          simp only [pitch, turned] at small ⊢
          simp only [nextAt, turned]
          split <;> omega
        rw [Nat.succ_mul] at fill
        rw [show r + 1 + 2 = r + 3 by omega, Nat.add_mul]
        simp only
        split at next <;> omega

/-! ## The recorded cursor -/

theorem printString_last (panel : range.OnPanel) (narrow : space.Narrow)
    (supported : fontWidth size = some width) (nonempty : text ≠ []) (lcd : Screen)
    (printed : (printString font dir lcd range space text size color).2 = none) :
    let l := ofSize dir range space size width
    let s := l.spot (text.length - 1)
    let lcd' := (printString font dir lcd range space text size color).1
    (∃ ch, lcd'.calls.getLast? = some (l.cursorAt s, ch)) ∧ l.LineFits s.1 ∧
      getCursor lcd' = l.record (l.advance (l.cursorAt s)) := by
  intro l s lcd'
  obtain ⟨last, complete, screen⟩ := printString_ok supported printed
  obtain ⟨calls, makes⟩ := exists_makes font l size color text l.start lcd
  obtain ⟨a, ends, rfl⟩ := makes.behind complete nonempty
  have recorded : lcd'.calls = lcd.calls ++ calls := by
    simp only [lcd', screen]
    exact makes
  have one : calls.length = text.length := by
    rw [← makes.complete complete, List.length_map]
  have place := List.getLast?_eq_getElem? (l := calls)
  have room : l.Roomy := roomy panel narrow supported
  have slots : l.slotFrom l.start (text.length - 1) =
      if l.LineFits s.1 then some (l.cursorAt s) else none := slot_eq room (text.length - 1)
  rw [ends, one, makes.getElem?, slots] at place
  split at place
  · rename_i line
    rw [Option.bind_some, Eq.comm, Option.map_eq_some_iff] at place
    obtain ⟨ch, -, rfl⟩ := place
    refine ⟨⟨ch, ?_⟩, line, ?_⟩
    · rw [recorded, List.getLast?_append, ends, Option.some_or]
    · simp only [getCursor, lcd', screen, l]
  · cases place

theorem record_crosswise (panel : range.OnPanel) (narrow : space.Narrow)
    (supported : fontWidth size = some width) (i : Nat) :
    let l := ofSize .crosswise range space size width
    l.record (l.advance (l.cursorAt (l.spot i))) =
      ((l.spot i).2 + 2 * l.pitch, l.lineAt (l.spot i).1) := by
  obtain ⟨two, low, high⟩ := fontWidth_bounds supported
  obtain ⟨-, stop⟩ := along_crosswise panel narrow supported i
  have spaces := narrow.wordSpace
  have right := panel.xposStop
  have left := panel.xposStart
  simp only [bspLcdResolutionWidth] at left right
  simp only [pitch_ofSize]
  generalize (ofSize .crosswise range space size width).spot i = s at stop
  simp only [record, advance, cursorAt, lineAt, ofSize, Prod.mk.injEq, and_true]
  omega

/-- The tail takes the cursor another character further, without a check. -/
theorem record_vertical (turned : l.dir = .vertical) (small : 2 * l.pitch < 2 ^ 16)
    (below : s.2 < 2 ^ 16) :
    l.record (l.advance (l.cursorAt s)) =
      (l.lineAt s.1, if 2 * l.pitch ≤ s.2 then s.2 - 2 * l.pitch
        else s.2 + 2 ^ 16 - 2 * l.pitch) := by
  simp only [pitch, turned] at small ⊢
  simp only [record, advance, cursorAt, turned, Prod.mk.injEq, true_and]
  split <;> omega

/-- On a panel that is not turned the cursor is behind everything that was printed. -/
theorem free_crosswise (panel : range.OnPanel) (narrow : space.Narrow)
    (supported : fontWidth size = some width) (order : k ≤ i) {ch : UInt8} {point : Nat × Nat}
    (line : (ofSize .crosswise range space size width).LineFits
      ((ofSize .crosswise range space size width).spot k).1)
    (writes : ((ofSize .crosswise range space size width).stamp font size color
      ((ofSize .crosswise range space size width).cursorAt
        ((ofSize .crosswise range space size width).spot k)) ch).Writes point) :
    let l := ofSize .crosswise range space size width
    ¬ l.Ahead ((l.spot i).2 + 2 * l.pitch, l.lineAt (l.spot i).1) point := by
  obtain ⟨two, low, high⟩ := fontWidth_bounds supported
  obtain ⟨-, room⟩ := spot_lt .crosswise panel narrow supported k
  have later : ((ofSize .crosswise range space size width).spot k).1 ≤
      ((ofSize .crosswise range space size width).spot i).1 := spot_line_mono order
  have wide : 1 < size := by omega
  rw [Stamp.writes_iff_box (unwrapped_crosswise panel supported line (room rfl)) wide] at writes
  have mono := along_mono panel narrow supported order
  simp only [pitch_ofSize]
  rcases Nat.lt_or_eq_of_le later with before | same
  · have below := lineAt_lt (l := ofSize .crosswise range space size width) before
    simp only [Stamp.Box, stamp, cursorAt, Ahead, ofSize] at writes below ⊢
    omega
  · have along := mono same
    simp only [Stamp.Box, stamp, cursorAt, Ahead, ofSize] at writes along ⊢
    omega

/-- On the turned panel the rectangle is free exactly when all characters of the last line end
    before row `c`. -/
theorem free_vertical_iff (narrow : space.Narrow) (supported : fontWidth size = some width)
    {c : Nat} (length : text.length = i + 1)
    (line : (ofSize .vertical range space size width).LineFits
      ((ofSize .vertical range space size width).lineOf i)) :
    let l := ofSize .vertical range space size width
    (∀ point, (∃ k ch, text[k]? = some ch ∧ l.LineFits (l.spot k).1 ∧
        (l.stamp font size color (l.cursorAt (l.spot k)) ch).Writes point) →
      ¬ l.Ahead (l.lineAt (l.lineOf i), c) point) ↔
      ∀ k ≤ i, l.lineOf k = l.lineOf i → c + width ≤ l.placeOf k := by
  intro l
  obtain ⟨two, low, high⟩ := fontWidth_bounds supported
  have spaces := narrow.wordSpace
  have turned : l.dir = .vertical := rfl
  have pitch : l.pitch = width + space.wordSpace := pitch_ofSize
  have spots := spot_turned turned (by omega) (by omega)
  have wide : 1 < size := by omega
  have edge := range.xposStop_lt
  have right (k : Nat) (fits : l.LineFits (l.lineOf k)) :
      l.lineAt (l.lineOf k) + size < 2 ^ 16 := by
    simp only [LineFits, l, ofSize] at fits ⊢
    omega
  have ends (k : Nat) (ch : UInt8) (fits : l.LineFits (l.lineOf k)) :
      (∀ point, (l.stamp font size color (l.cursorAt (l.lineOf k, l.placeOf k)) ch).Writes point →
        c < point.2) ↔ c + width ≤ l.placeOf k := by
    rw [show width = size / 2 by omega]
    exact Stamp.writes_above_iff turned wide (right k fits) (placeOf_lt turned k)
  simp only [spots]
  constructor
  · intro free k order same
    have below : k < text.length := by omega
    have fits : l.LineFits (l.lineOf k) := same ▸ line
    apply (ends k text[k] fits).mp
    intro point writes
    obtain ⟨left, -⟩ := Stamp.writes_in_rows turned wide (right k fits) writes
    have outside := free point ⟨k, text[k], List.getElem?_eq_getElem below, fits, writes⟩
    simp only [Ahead, turned, not_and, Nat.not_le] at outside
    exact outside (same ▸ left)
  · intro before point written ahead
    obtain ⟨k, ch, there, fits, writes⟩ := written
    obtain ⟨left, above⟩ := ahead
    obtain ⟨below, -⟩ := List.getElem?_eq_some_iff.mp there
    have order : k ≤ i := by omega
    have later : (l.spot k).1 ≤ (l.spot i).1 := spot_line_mono order
    rw [spots, spots] at later
    rcases Nat.lt_or_eq_of_le later with earlier | same
    · obtain ⟨-, end'⟩ := Stamp.writes_in_rows turned wide (right k fits) writes
      have rows := lineAt_lt (l := l) earlier
      simp only [l, stamp, cursorAt, ofSize] at end' rows left
      omega
    · have behind := (ends k ch fits).mpr (before k order same) point writes
      simp only at above
      omega

end Layout

/-- For both directions, every range on the panel, every spacing, every size there is a font
    for and every string that is not empty: after a call without an error, the cursor is on the
    last line behind the last character, and a rectangle that starts there has no point in
    common with what was written, exactly under the condition `Continues`. -/
theorem printString_cursor_iff (font : Font) (dir : Dir) (lcd : Screen) (range : Rect)
    (space : Space) (text : List UInt8) (size width : Nat) (color : UInt16)
    (panel : range.OnPanel) (narrow : space.Narrow) (supported : fontWidth size = some width)
    (nonempty : text ≠ [])
    (printed : (printString font dir lcd range space text size color).2 = none) :
    let l := Layout.ofSize dir range space size width
    let lcd' := (printString font dir lcd range space text size color).1
    let cursor := getCursor lcd'
    ((∃ a ∈ lcd'.calls.getLast?, l.Past a.1 cursor) ∧
      ∀ point, (∃ p : Panel, (printString font dir { panel := p, cursor := lcd.cursor } range space
        text size color).1.panel point ≠ p point) → ¬ l.Ahead cursor point) ↔
      l.Continues text.length := by
  intro l lcd' cursor
  obtain ⟨i, length⟩ : ∃ i, text.length = i + 1 :=
    Nat.exists_eq_succ_of_ne_zero (mt List.length_eq_zero_iff.mp nonempty)
  obtain ⟨⟨ch, last⟩, line, recorded⟩ :=
    Layout.printString_last panel narrow supported nonempty lcd printed
  rw [length, Nat.add_sub_cancel] at last line recorded
  simp only [Layout.printString_writes panel narrow supported, l, lcd', last, Option.mem_some_iff,
    exists_eq_left', cursor, recorded]
  cases dir with
  | crosswise =>
      rw [Layout.record_crosswise panel narrow supported]
      refine iff_of_true ⟨?_, ?_⟩ trivial
      · refine (Layout.past_crosswise rfl).mpr ⟨rfl, ?_⟩
        simp only [Layout.pitch_ofSize]
        simp only [Layout.ofSize]
        omega
      · intro point written
        obtain ⟨k, ch, there, fits, writes⟩ := written
        obtain ⟨below, -⟩ := List.getElem?_eq_some_iff.mp there
        exact Layout.free_crosswise panel narrow supported (by omega) fits writes
  | vertical =>
      obtain ⟨two, low, high⟩ := fontWidth_bounds supported
      have spaces := narrow.wordSpace
      have turned : (Layout.ofSize .vertical range space size width).dir = .vertical := rfl
      have pitch : (Layout.ofSize .vertical range space size width).pitch =
          width + space.wordSpace := Layout.pitch_ofSize
      have below := Layout.placeOf_lt turned i
      rw [Layout.spot_turned turned (by omega) (by omega)] at line ⊢
      rw [Layout.record_vertical turned (by omega) below, length,
        Layout.continues_iff turned (by omega) (by omega)]
      refine (and_congr Iff.rfl (Layout.free_vertical_iff narrow supported length line)).trans ?_
      have glyph : (Layout.ofSize .vertical range space size width).yposOffset = width := rfl
      simp only [Layout.past_vertical turned, true_and, Layout.le_placeOf_iff, glyph]
      split
      · omega
      · omega

theorem printString_cursor_iff_whole :
    let lcd : Screen := { panel := fun _ => white, cursor := (0, 0) }
    let space : Space := { lineSpace := 2, wordSpace := 2 }
    let text : List UInt8 := [49, 50, 51]
    let l := Layout.ofSize .vertical wholePanel space 16 8
    let lcd' := (printString (fun _ _ _ => 0) .vertical lcd wholePanel space text 16 black).1
    let cursor := getCursor lcd'
    (∃ a ∈ lcd'.calls.getLast?, l.Past a.1 cursor) ∧
      ∀ point, (∃ p : Panel, (printString (fun _ _ _ => 0) .vertical
        { panel := p, cursor := (0, 0) } wholePanel space text 16 black).1.panel point ≠ p point) →
        ¬ l.Ahead cursor point := by
  intro lcd space text l lcd' cursor
  apply (printString_cursor_iff (fun _ _ _ => 0) .vertical lcd wholePanel space text 16 8 black
    (Rect.onPanel_ofPanel ..) (by decide) rfl (by simp [text]) (by decide)).mpr
  change if _ then _ else _
  rw [if_pos (by decide)]
  decide

def lowest : Rect := .ofPanel 0 40 30 0

/-- The last of two characters stands on row 16, and the cursor is left on row 65532. -/
theorem printString_cursor_wraps :
    let lcd : Screen := { panel := fun _ => white, cursor := (0, 0) }
    let space : Space := { lineSpace := 2, wordSpace := 2 }
    let text : List UInt8 := [65, 66]
    let l := Layout.ofSize .vertical lowest space 16 8
    let printed := printString (fun _ _ _ => 0) .vertical lcd lowest space text 16 black
    lowest.OnPanel ∧ printed.2 = none ∧ getCursor printed.1 = (0, 65532) ∧
      ¬ ∃ a ∈ printed.1.calls.getLast?, l.Past a.1 (getCursor printed.1) := by
  intro lcd space text l printed
  refine ⟨Rect.onPanel_ofPanel .., by decide, by decide, ?_⟩
  have ends : printed.1.calls.getLast? = some (⟨0, 16, 0⟩, 66) := by decide
  intro behind
  obtain ⟨a, last, -, past⟩ := behind
  rw [ends, Option.mem_some_iff] at last
  subst last
  exact absurd past (by decide)

end ExploreF407.Lcd
