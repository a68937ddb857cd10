import ExploreF407.Lcd.Strings

/-! # The points that printing writes

A string writes the points its characters write. A character whose box does not leave the
coordinates writes that box; on the turned panel one that does goes on at the other end of the
rows.
-/

namespace ExploreF407.Lcd

open Overlay

variable {font : Font} {size xpos ypos : Nat} {color : UInt16} {ch : UInt8} {point : Nat × Nat}

instance colorNontrivial : Nontrivial UInt16 := ⟨black, white, by decide⟩

/-! ## Characters -/

/-- Where the pen goes does not depend on what is on the panel. -/
theorem showBits_drawing (dir : Dir) (size xpos0 ypos0 : Nat) (color : UInt16) (n : Nat)
    (temp0 : UInt8) (xpos ypos : Nat) (dots : List Dot) :
    ∃ f x y dots', Drawing f ∧ ∀ p, showBits dir size xpos0 ypos0 color n temp0
      { panel := p, xpos := xpos, ypos := ypos, dots := dots } =
        { panel := f p, xpos := x, ypos := y, dots := dots' } := by
  induction n generalizing temp0 xpos ypos dots with
  | zero => exact ⟨_, xpos, ypos, dots, .id, fun p => rfl⟩
  | succ n ih =>
      have first := Drawing.update (xpos, ypos) (if temp0 &&& 0x80 ≠ 0 then color else white)
      have next : (moved dir size xpos0 ypos0 xpos ypos).2 = true ∨
          (moved dir size xpos0 ypos0 xpos ypos).2 = false := Bool.eq_or_eq_not _ true
      simp only [showBits_succ, Pen.draw, drawPoint]
      rcases next with last | more
      · exact ⟨_, _, _, _, first, fun p => by rw [if_pos last]⟩
      · obtain ⟨f, x, y, dots', drawing, rest⟩ := ih (temp0 <<< 1)
          (moved dir size xpos0 ypos0 xpos ypos).1.1 (moved dir size xpos0 ypos0 xpos ypos).1.2
          (dots ++ [((xpos, ypos), if temp0 &&& 0x80 ≠ 0 then color else white)])
        refine ⟨_, x, y, dots', drawing.comp first, fun p => ?_⟩
        simp only [more, Bool.false_eq_true, if_false, rest]

theorem showChar_drawing (font : Font) (dir : Dir) (xpos ypos : Nat) (ch : UInt8) (size : Nat)
    (color : UInt16) : Drawing fun p => showChar font dir p xpos ypos ch size color := by
  have bytes : ∀ (l : List Nat) (x y : Nat) (dots : List Dot), ∃ f x' y' dots', Drawing f ∧ ∀ p,
      l.foldl (fun pen temp2 => showBits dir size xpos ypos color 8 (font size (ch - 32) temp2) pen)
        { panel := p, xpos := x, ypos := y, dots := dots } =
          { panel := f p, xpos := x', ypos := y', dots := dots' } := by
    intro l
    induction l with
    | nil => exact fun x y dots => ⟨_, x, y, dots, .id, fun p => rfl⟩
    | cons temp2 l ih =>
        intro x y dots
        obtain ⟨f, x', y', dots', drawing, byte⟩ := showBits_drawing dir size xpos ypos color 8
          (font size (ch - 32) temp2) x y dots
        obtain ⟨g, x'', y'', dots'', drawing', rest⟩ := ih x' y' dots'
        refine ⟨_, x'', y'', dots'', drawing'.comp drawing, fun p => ?_⟩
        simp only [List.foldl_cons, byte, rest]
  obtain ⟨f, x, y, dots, drawing, all⟩ := bytes (List.range (charSize size)) xpos ypos []
  have same : (fun p => showChar font dir p xpos ypos ch size color) = f := by
    funext p
    simp only [showChar, showCharPen, all]
  rwa [same]

/-- A call of `LCD_ShowChar` changes the point on some panel. -/
def Stamp.Writes (g : Stamp) (point : Nat × Nat) : Prop :=
  Overlay.Writes (fun p => showChar g.font g.dir p g.xpos g.ypos g.ch g.size g.color) point

theorem Stamp.writes_iff_box {g : Stamp} (unwrapped : g.Unwrapped) (wide : 1 < g.size) :
    g.Writes point ↔ g.Box point := by
  simp only [Stamp.Writes, Stamp.showChar_eq unwrapped wide, writes_overlay]
  constructor
  · intro drawn
    by_contra outside
    simp [Stamp.glyph_eq_none outside] at drawn
  · intro inside
    obtain ⟨k, r, -, -, shown⟩ := Stamp.glyph_of_box inside
    simp [shown]

/-! ## Over the end of the rows -/

/-- The second pen is `s` rows further on. -/
structure Shifted (s : Nat) (pen pen' : Pen) : Prop where
  xpos : pen'.xpos = pen.xpos
  row : pen.ypos < 2 ^ 16
  ypos : pen'.ypos = (pen.ypos + s) % 2 ^ 16
  panel : ∀ x y, y < 2 ^ 16 → pen'.panel (x, (y + s) % 2 ^ 16) = pen.panel (x, y)

theorem Shifted.draw {s : Nat} {pen pen' : Pen} (shifted : Shifted s pen pen') (c : UInt16)
    {x y : Nat} (row : y < 2 ^ 16) :
    drawPoint pen'.panel pen'.xpos pen'.ypos c (x, (y + s) % 2 ^ 16) =
      drawPoint pen.panel pen.xpos pen.ypos c (x, y) := by
  have here := shifted.row
  simp only [drawPoint, shifted.xpos, shifted.ypos]
  by_cases same : (x, y) = (pen.xpos, pen.ypos)
  · simp only [Prod.mk.injEq] at same
    obtain ⟨rfl, rfl⟩ := same
    simp only [Function.update_self]
  · have apart : (x, (y + s) % 2 ^ 16) ≠ (pen.xpos, (pen.ypos + s) % 2 ^ 16) := by
      simp only [ne_eq, Prod.mk.injEq] at same ⊢
      rintro ⟨rfl, rows⟩
      exact same ⟨rfl, by omega⟩
    simp only [Function.update_of_ne same, Function.update_of_ne apart]
    exact shifted.panel x y row

theorem Shifted.showBits {s : Nat} {pen pen' : Pen} (shifted : Shifted s pen pen')
    (size xpos0 ypos0 ypos0' : Nat) (color : UInt16) (n : Nat) (temp0 : UInt8) :
    Shifted s (showBits .vertical size xpos0 ypos0 color n temp0 pen)
      (showBits .vertical size xpos0 ypos0' color n temp0 pen') := by
  induction n generalizing temp0 pen pen' with
  | zero => exact shifted
  | succ n ih =>
      have row := shifted.row
      unfold Lcd.showBits
      generalize (if temp0 &&& 0x80 ≠ 0 then color else white) = ink
      simp only [Pen.draw_xpos, Pen.draw_ypos, shifted.xpos]
      by_cases last : (pen.xpos + 1) % 2 ^ 16 = xpos0 + size
      · simp only [last, if_true]
        refine ⟨rfl, ?_, ?_, fun x y inside => shifted.draw ink inside⟩
        · simp only
          omega
        · simp only [shifted.ypos]
          omega
      · simp only [last, if_false]
        apply ih
        exact ⟨rfl, row, shifted.ypos, fun x y inside => shifted.draw ink inside⟩

theorem Shifted.showChar {s : Nat} {p p' : Panel} (row : ypos < 2 ^ 16)
    (panels : ∀ x y, y < 2 ^ 16 → p' (x, (y + s) % 2 ^ 16) = p (x, y)) {x y : Nat}
    (inside : y < 2 ^ 16) :
    Lcd.showChar font .vertical p' xpos ((ypos + s) % 2 ^ 16) ch size color
        (x, (y + s) % 2 ^ 16) =
      Lcd.showChar font .vertical p xpos ypos ch size color (x, y) := by
  have start : Shifted s { panel := p, xpos := xpos, ypos := ypos, dots := [] }
      { panel := p', xpos := xpos, ypos := (ypos + s) % 2 ^ 16, dots := [] } :=
    ⟨rfl, row, rfl, panels⟩
  have drawn := List.foldl_rel (l := List.range (charSize size)) start fun temp2 _ _ _ shifted =>
    shifted.showBits size xpos ypos ((ypos + s) % 2 ^ 16) color 8 (font size (ch - 32) temp2)
  exact drawn.panel x y inside

/-- A character of the turned panel that begins too close to row 0 goes on in the last rows. -/
theorem Stamp.writes_row {g : Stamp} {y : Nat} (turned : g.dir = .vertical) (wide : 1 < g.size)
    (right : g.xpos + g.size < 2 ^ 16) (low : g.ypos + 1 < g.size / 2) (small : y < 2 ^ 16)
    (row : (g.ypos + (2 ^ 16 - y)) % 2 ^ 16 < g.size / 2) : g.Writes (g.xpos, y) := by
  have room : g.size < 2 ^ 16 := by omega
  let g' : Stamp := { g with ypos := g.ypos + g.size / 2 }
  have unwrapped : g'.Unwrapped := by
    simp only [Unwrapped, g', turned]
    omega
  have inside : g'.Box (g.xpos, (y + g.size / 2) % 2 ^ 16) := by
    simp only [Box, g', turned]
    omega
  obtain ⟨k, r, -, -, shown⟩ := glyph_of_box inside
  have moved (p : Panel) (even : ∀ i j, p i = p j) :
      Lcd.showChar g.font g.dir p g.xpos g.ypos g.ch g.size g.color (g.xpos, y) = g'.ink k r := by
    have start : (g.ypos + g.size / 2) % 2 ^ 16 = g'.ypos := Nat.mod_eq_of_lt (by omega)
    have shifted : Lcd.showChar g.font .vertical p g.xpos ((g.ypos + g.size / 2) % 2 ^ 16) g.ch g.size
        g.color (g.xpos, (y + g.size / 2) % 2 ^ 16) = _ :=
      Shifted.showChar (by omega) (fun x y _ => even _ _) small
    rw [start] at shifted
    rw [turned, ← shifted]
    have drawn := congrFun (showChar_eq unwrapped wide p) (g.xpos, (y + g.size / 2) % 2 ^ 16)
    rw [overlay_of_some shown] at drawn
    simpa only [g', turned] using drawn
  obtain ⟨other, different⟩ := exists_ne (g'.ink k r)
  refine ⟨fun _ => other, fun same => different ?_⟩
  exact same.symm.trans (moved _ fun _ _ => rfl)

/-- The rows of a character start at `xpos0` and end before `xpos0 + size`. -/
structure InRows (xpos0 size : Nat) (p : Panel) (pen : Pen) : Prop where
  left : xpos0 ≤ pen.xpos
  right : pen.xpos < xpos0 + size
  kept : ∀ point : Nat × Nat, ¬ (xpos0 ≤ point.1 ∧ point.1 < xpos0 + size) →
    pen.panel point = p point

theorem InRows.draw {p : Panel} {pen : Pen} (rows : InRows xpos size p pen) (c : UInt16) :
    ∀ point : Nat × Nat, ¬ (xpos ≤ point.1 ∧ point.1 < xpos + size) →
      drawPoint pen.panel pen.xpos pen.ypos c point = p point := by
  intro point outside
  have apart : point ≠ (pen.xpos, pen.ypos) := by
    rintro rfl
    exact outside ⟨rows.left, rows.right⟩
  rw [drawPoint, Function.update_of_ne apart]
  exact rows.kept point outside

theorem InRows.showBits {p : Panel} {pen : Pen} (rows : InRows xpos size p pen)
    (room : xpos + size < 2 ^ 16) (ypos0 : Nat) (color : UInt16) (n : Nat) (temp0 : UInt8) :
    InRows xpos size p (showBits .vertical size xpos ypos0 color n temp0 pen) := by
  induction n generalizing temp0 pen with
  | zero => exact rows
  | succ n ih =>
      have left := rows.left
      have right := rows.right
      unfold Lcd.showBits
      generalize (if temp0 &&& 0x80 ≠ 0 then color else white) = ink
      have kept := rows.draw ink
      simp only [Pen.draw_xpos, Pen.draw_ypos]
      by_cases last : (pen.xpos + 1) % 2 ^ 16 = xpos + size
      · simp only [last, if_true]
        refine ⟨?_, ?_, kept⟩
        · exact Nat.le_refl _
        · simp only
          omega
      · simp only [last, if_false]
        apply ih
        refine ⟨?_, ?_, kept⟩
        · simp only
          omega
        · simp only
          omega

theorem Stamp.writes_in_rows {g : Stamp} (turned : g.dir = .vertical) (wide : 1 < g.size)
    (right : g.xpos + g.size < 2 ^ 16) (writes : g.Writes point) :
    g.xpos ≤ point.1 ∧ point.1 < g.xpos + g.size := by
  by_contra outside
  obtain ⟨p, changed⟩ := writes
  have start : InRows g.xpos g.size p
      { panel := p, xpos := g.xpos, ypos := g.ypos, dots := [] } :=
    ⟨Nat.le_refl _, Nat.lt_add_of_pos_right (Nat.zero_lt_of_lt wide), fun _ _ => rfl⟩
  have rows := List.foldlRecOn (List.range (charSize g.size)) _ start fun pen rows temp2 _ =>
    rows.showBits right g.ypos g.color 8 (g.font g.size (g.ch - 32) temp2)
  refine changed ?_
  simp only [turned]
  exact rows.kept point outside

/-! ## Strings -/

namespace Layout

variable {l : Layout} {text : List UInt8} {c : Cursor}

theorem printChars_drawing (font : Font) (l : Layout) (size : Nat) (color : UInt16)
    (text : List UInt8) (c : Cursor) (lcd : Screen) :
    Drawing fun p => (l.printChars font size color text c { lcd with panel := p }).1.panel := by
  induction text generalizing c lcd with
  | nil => exact .id
  | cons ch chs ih =>
      simp only [printChars]
      cases l.place c with
      | none => exact .id
      | some a =>
          exact (ih (l.advance a) (lcd.showChar font l.dir size color a ch)).comp
            (showChar_drawing font l.dir a.xpos a.ypos ch size color)

theorem printChars_writes (lcd : Screen) :
    Writes (fun p => (l.printChars font size color text c { lcd with panel := p }).1.panel) point ↔
      ∃ k ch a, text[k]? = some ch ∧ l.slotFrom c k = some a ∧
        (l.stamp font size color a ch).Writes point := by
  induction text generalizing c lcd with
  | nil => simpa [printChars] using not_writes_id
  | cons ch chs ih =>
      cases placed : l.place c with
      | none =>
          have nowhere (k : Nat) : l.slotFrom c k = none := by
            cases k <;> simp [slotFrom, placed]
          simpa [printChars, placed, nowhere] using not_writes_id
      | some first =>
          simp only [printChars, placed]
          have drawing := printChars_drawing font l size color chs (l.advance first)
            (lcd.showChar font l.dir size color first ch)
          have both := writes_comp drawing (i := point) (f := fun p =>
            showChar font l.dir p first.xpos first.ypos ch size color)
          refine both.trans ?_
          rw [ih]
          constructor
          · rintro (here | ⟨k, ch', a, there, at', writes⟩)
            · exact ⟨0, ch, first, rfl, placed, here⟩
            · exact ⟨k + 1, ch', a, there, (slotFrom_succ placed k).trans at', writes⟩
          · rintro ⟨k, ch', a, there, at', writes⟩
            cases k with
            | zero =>
                obtain rfl : ch = ch' := by simpa using there
                obtain rfl := Option.some.inj (placed.symm.trans at')
                exact .inl writes
            | succ k =>
                rw [slotFrom_succ placed] at at'
                exact .inr ⟨k, ch', a, there, at', writes⟩

end Layout

end ExploreF407.Lcd
