import ExploreF407.Lcd.Glyph

/-! # The calls of `LCD_DrawPoint`

The picture of a character does not tell how often a point was drawn. The record that
`LCD_ShowChar` keeps of its calls does.
-/

namespace ExploreF407.Lcd

def replay (dots : List Dot) (p : Panel) : Panel :=
  dots.foldl (fun p dot => drawPoint p dot.1.1 dot.1.2 dot.2) p

theorem replay_append (dots more : List Dot) (p : Panel) :
    replay (dots ++ more) p = replay more (replay dots p) :=
  List.foldl_append ..

theorem showBits_replay (dir : Dir) (size xpos0 ypos0 : Nat) (color : UInt16) (n : Nat)
    (temp0 : UInt8) {pen : Pen} {p : Panel} (drawn : pen.panel = replay pen.dots p) :
    (showBits dir size xpos0 ypos0 color n temp0 pen).panel =
      replay (showBits dir size xpos0 ypos0 color n temp0 pen).dots p := by
  induction n generalizing temp0 pen with
  | zero =>
      unfold showBits
      exact drawn
  | succ n ih =>
      have more (ink : UInt16) : (pen.draw ink).panel = replay (pen.draw ink).dots p := by
        rw [Pen.draw_panel, Pen.draw_dots, replay_append, drawn]
        rfl
      rw [showBits_succ]
      simp only
      split
      · exact more _
      · exact ih _ (more _)

theorem showChar_replay (font : Font) (dir : Dir) (p : Panel) (xpos ypos : Nat) (asc2 : UInt8)
    (size : Nat) (color : UInt16) :
    showChar font dir p xpos ypos asc2 size color =
      replay (showCharPen font dir p xpos ypos asc2 size color).dots p := by
  apply List.foldlRecOn (motive := fun pen : Pen => pen.panel = replay pen.dots p)
  · rfl
  · intro pen drawn temp2 _
    exact showBits_replay dir size xpos ypos color 8 (font size (asc2 - 32) temp2) drawn

namespace Stamp

def pen (g : Stamp) (p : Panel) : Pen :=
  showCharPen g.font g.dir p g.xpos g.ypos g.ch g.size g.color

variable {g : Stamp} {p : Panel} {n : Nat}

/-- Column by column, from the first point of the glyph to the last. -/
theorem dots_eq (unwrapped : g.Unwrapped) (wide : 1 < g.size) :
    (g.pen p).dots = (List.range (g.size * (g.size / 2))).map g.dotAt :=
  congrArg Pen.dots (showCharPen_eq unwrapped wide p)

/-! ## Each point once -/

/-- The points of the box have 16-bit coordinates. -/
def Fits (g : Stamp) : Prop :=
  match g.dir with
  | .crosswise => g.xpos + g.size / 2 ≤ 2 ^ 16 ∧ g.ypos + g.size ≤ 2 ^ 16
  | .vertical => g.xpos + g.size ≤ 2 ^ 16 ∧ g.size / 2 ≤ g.ypos + 1 ∧ g.ypos < 2 ^ 16

/-- Every point of the box is drawn once and no other point is, with the colour that the font
    bit of its column and row says. -/
structure Rendered (g : Stamp) (dots : List Dot) : Prop where
  once : ∀ point, (dots.map Prod.fst).count point = if g.Box point then 1 else 0
  ink : ∀ c < g.size / 2, ∀ r < g.size, (g.spot c r, g.ink c r) ∈ dots

theorem dotAt_index (positive : 0 < g.size) {c r : Nat} (row : r < g.size) :
    g.dotAt (c * g.size + r) = (g.spot c r, g.ink c r) := by
  have place : (c * g.size + r) / g.size = c ∧ (c * g.size + r) % g.size = r :=
    (Nat.div_mod_unique positive).mpr ⟨by ring, row⟩
  unfold dotAt
  rw [place.1, place.2]

theorem index_inside {c r : Nat} (col : c < g.size / 2) (row : r < g.size) :
    c * g.size + r < g.size * (g.size / 2) := by
  calc c * g.size + r
    _ < c * g.size + g.size := Nat.add_lt_add_left row _
    _ = g.size * (c + 1) := by ring
    _ ≤ g.size * (g.size / 2) := Nat.mul_le_mul_left _ col

theorem spots_nodup (unwrapped : g.Unwrapped) :
    ((List.range (g.size * (g.size / 2))).map fun q => (g.dotAt q).1).Nodup := by
  apply List.Nodup.map_on _ List.nodup_range
  intro q inside q' inside' same
  obtain ⟨-, col, row⟩ := inside_bounds (List.mem_range.mp inside)
  obtain ⟨-, col', row'⟩ := inside_bounds (List.mem_range.mp inside')
  have here := cell_spot unwrapped col row
  have there := cell_spot unwrapped col' row'
  have spot : g.spot (q / g.size) (q % g.size) = g.spot (q' / g.size) (q' % g.size) := same
  rw [spot, there, Option.some.injEq, Prod.mk.injEq] at here
  rw [← Nat.div_add_mod q g.size, ← Nat.div_add_mod q' g.size, here.1, here.2]

theorem mem_spots (unwrapped : g.Unwrapped) (point : Nat × Nat) :
    point ∈ (List.range (g.size * (g.size / 2))).map (fun q => (g.dotAt q).1) ↔ g.Box point := by
  constructor
  · intro member
    obtain ⟨q, inside, rfl⟩ := List.mem_map.mp member
    obtain ⟨-, col, row⟩ := inside_bounds (List.mem_range.mp inside)
    exact (glyph_spot unwrapped col row).1
  · intro inside
    cases here : g.cell point with
    | none => exact absurd inside (cell_eq_none.mp here)
    | some cell =>
        obtain ⟨c, r⟩ := cell
        obtain ⟨col, row, rfl⟩ := cell_bounds here
        refine List.mem_map.mpr ⟨c * g.size + r, List.mem_range.mpr (index_inside col row), ?_⟩
        rw [dotAt_index (Nat.zero_lt_of_lt row) row]

theorem rendered_of_unwrapped (unwrapped : g.Unwrapped) (wide : 1 < g.size) :
    g.Rendered (g.pen p).dots where
  once := by
    intro point
    rw [dots_eq unwrapped wide, List.map_map]
    split
    · rename_i inside
      exact List.count_eq_one_of_mem (spots_nodup unwrapped) ((mem_spots unwrapped point).mpr inside)
    · rename_i outside
      exact List.count_eq_zero.mpr fun member => outside ((mem_spots unwrapped point).mp member)
  ink := by
    intro c col r row
    rw [dots_eq unwrapped wide]
    refine List.mem_map.mpr ⟨c * g.size + r, List.mem_range.mpr (index_inside col row), ?_⟩
    exact dotAt_index (Nat.zero_lt_of_lt row) row

/-! ## A box at the end of the coordinates -/

/-- The pen has drawn the first `j` points of the line `pos`. -/
structure Along (pos : Nat → Nat × Nat) (j : Nat) (pen : Pen) : Prop where
  place : (pen.xpos, pen.ypos) = pos j
  drawn : pen.dots.map Prod.fst = (List.range j).map pos

/-- Where the end of a column is not seen, the points go on in a line. -/
theorem Along.showBits {dir : Dir} {size xpos0 ypos0 : Nat} {pos : Nat → Nat × Nat}
    (straight : ∀ j, moved dir size xpos0 ypos0 (pos j).1 (pos j).2 = (pos (j + 1), false))
    (color : UInt16) (temp0 : UInt8) {j : Nat} {pen : Pen} (along : Along pos j pen) :
    Along pos (j + n) (showBits dir size xpos0 ypos0 color n temp0 pen) := by
  induction n generalizing temp0 j pen with
  | zero =>
      unfold Lcd.showBits
      exact along
  | succ n ih =>
      have next : moved dir size xpos0 ypos0 pen.xpos pen.ypos = (pos (j + 1), false) := by
        rw [← straight j, ← along.place]
      rw [showBits_succ, next, show j + (n + 1) = j + 1 + n by omega]
      simp only [Bool.false_eq_true, if_false]
      apply ih
      refine ⟨rfl, ?_⟩
      simp only [Pen.draw_dots, List.map_append, List.map_singleton, along.drawn, along.place,
        List.range_succ]

theorem along_pen {pos : Nat → Nat × Nat} (start : pos 0 = (g.xpos, g.ypos))
    (straight : ∀ j, moved g.dir g.size g.xpos g.ypos (pos j).1 (pos j).2 = (pos (j + 1), false)) :
    Along pos (8 * charSize g.size) (g.pen p) := by
  have bytes : ∀ t, Along pos (8 * t) ((List.range t).foldl (fun pen temp2 =>
      showBits g.dir g.size g.xpos g.ypos g.color 8 (g.font g.size (g.ch - 32) temp2) pen)
      { panel := p, xpos := g.xpos, ypos := g.ypos, dots := [] }) := by
    intro t
    induction t with
    | zero => exact ⟨start.symm, rfl⟩
    | succ t ih =>
        rw [List.range_succ, List.foldl_append, Nat.mul_succ]
        exact ih.showBits straight g.color _
  exact bytes _

/-- The coordinate behind the end of a column has 16 bits. -/
def ColumnEnds (g : Stamp) : Prop :=
  match g.dir with
  | .crosswise => g.ypos + g.size < 2 ^ 16
  | .vertical => g.xpos + g.size < 2 ^ 16

theorem unwrapped_of_fits (fits : g.Fits) (ends : g.ColumnEnds) : g.Unwrapped := by
  unfold Fits at fits
  unfold ColumnEnds at ends
  unfold Unwrapped
  cases dir : g.dir with
  | crosswise =>
      simp only [dir] at fits ends ⊢
      exact ⟨fits.1, ends⟩
  | vertical =>
      simp only [dir] at fits ends ⊢
      exact ⟨ends, fits.2⟩

/-- The first point behind a column whose end is not seen is drawn, at coordinate 0. -/
theorem not_rendered (fits : g.Fits) (supported : g.size = 12 ∨ g.size = 16 ∨ g.size = 24)
    (endless : ¬ g.ColumnEnds) : ¬ g.Rendered (g.pen p).dots := by
  intro rendered
  have many : g.size < 8 * charSize g.size := by
    rcases supported with size | size | size
    · rw [size]
      decide
    · rw [size]
      decide
    · rw [size]
      decide
  have drawn : ∀ pos : Nat → Nat × Nat, pos 0 = (g.xpos, g.ypos) →
      (∀ j, moved g.dir g.size g.xpos g.ypos (pos j).1 (pos j).2 = (pos (j + 1), false)) →
      g.Box (pos g.size) := by
    intro pos start straight
    by_contra outside
    have none := rendered.once (pos g.size)
    rw [if_neg outside, List.count_eq_zero] at none
    apply none
    rw [(along_pen start straight).drawn]
    exact List.mem_map.mpr ⟨g.size, List.mem_range.mpr many, rfl⟩
  unfold Fits at fits
  unfold ColumnEnds at endless
  cases dir : g.dir with
  | crosswise =>
      simp only [dir] at fits endless
      have inside := drawn (fun j => (g.xpos, (g.ypos + j) % 2 ^ 16)) ?_ ?_
      · unfold Box at inside
        simp only [dir] at inside
        omega
      · simp only [Nat.add_zero, Prod.mk.injEq, true_and]
        omega
      · intro j
        have on : ((g.ypos + j) % 2 ^ 16 + 1) % 2 ^ 16 ≠ g.ypos + g.size := by omega
        simp only [moved, dir, on, if_false, Prod.mk.injEq, true_and, and_true]
        omega
  | vertical =>
      simp only [dir] at fits endless
      have inside := drawn (fun j => ((g.xpos + j) % 2 ^ 16, g.ypos)) ?_ ?_
      · unfold Box at inside
        simp only [dir] at inside
        omega
      · simp only [Nat.add_zero, Prod.mk.injEq, and_true]
        omega
      · intro j
        have on : ((g.xpos + j) % 2 ^ 16 + 1) % 2 ^ 16 ≠ g.xpos + g.size := by omega
        simp only [moved, dir, on, if_false, Prod.mk.injEq, and_true]
        omega

/-- `LCD_ShowChar` draws the glyph point by point, exactly if the end of a column can be seen. -/
theorem showChar_rendered_iff (fits : g.Fits)
    (supported : g.size = 12 ∨ g.size = 16 ∨ g.size = 24) (p : Panel) :
    showChar g.font g.dir p g.xpos g.ypos g.ch g.size g.color = replay (g.pen p).dots p ∧
      (g.Rendered (g.pen p).dots ↔ g.ColumnEnds) := by
  refine ⟨showChar_replay .., ?_, ?_⟩
  · intro rendered
    by_contra endless
    exact not_rendered fits supported endless rendered
  · intro ends
    exact rendered_of_unwrapped (unwrapped_of_fits fits ends) (by omega)

def letterA (ypos size : Nat) : Stamp where
  font := fun _ _ t => UInt8.ofNat (17 * t)
  dir := .crosswise
  xpos := 10
  ypos := ypos
  ch := 65
  size := size
  color := black

theorem letterA_rendered : (letterA 20 12).Rendered ((letterA 20 12).pen fun _ => white).dots := by
  have fits : (letterA 20 12).Fits := ⟨by decide, by decide⟩
  have ends : (letterA 20 12).ColumnEnds := by
    show 20 + 12 < 2 ^ 16
    decide
  exact (showChar_rendered_iff fits (.inl rfl) _).2.mpr ends

/-- The last 16 coordinates: the box fits, and the first column does not end. -/
theorem letterA_not_rendered : (letterA 65520 16).Fits ∧
    ¬ (letterA 65520 16).Rendered ((letterA 65520 16).pen fun _ => white).dots := by
  have fits : (letterA 65520 16).Fits := ⟨by decide, by decide⟩
  have endless : ¬ (letterA 65520 16).ColumnEnds := by
    show ¬ 65520 + 16 < 2 ^ 16
    decide
  exact ⟨fits, not_rendered fits (.inr (.inl rfl)) endless⟩

end Stamp

end ExploreF407.Lcd
