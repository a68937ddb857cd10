import ExploreF407.Lcd.CellPlaces
import ExploreF407.Lib.Machine

/-! # What a cell of a table shows

`BSP_LCDPrintCell` prints over what is in the cell, and does not look at the result of
`BSP_LCDPrintString`. A text that is too long is cut off, and one that is shorter than the
last leaves the end of that to be seen.
-/

namespace ExploreF407.Lcd

open Overlay Sys Machine Layout

/-- The character `ch` at the place of character `k`. -/
def glyphAt (font : Font) (dir : Dir) (cellArea : Rect) (k : Nat) (ch : UInt8) : Stamp where
  font := font
  dir := dir
  xpos := (cellPlace dir cellArea k).1
  ypos := (cellPlace dir cellArea k).2
  ch := ch
  size := 16
  color := black

/-- The cell shows the text: every character is inside the rectangle and can be seen at its
    place, and all the rest is background. So is the border, which the frame leaves white. -/
structure Shows (font : Font) (dir : Dir) (cellArea : Rect) (text : List UInt8) (p : Panel) :
    Prop where
  inside : ∀ k < text.length, InCell dir cellArea (cellPlace dir cellArea k)
  glyphs : ∀ k ch, text[k]? = some ch → ∀ point, (glyphAt font dir cellArea k ch).Box point →
    (glyphAt font dir cellArea k ch).glyph point = some (p point)
  background : ∀ point, (ofCell dir cellArea).Inside point →
    (∀ k ch, text[k]? = some ch → ¬ (glyphAt font dir cellArea k ch).Box point) →
    p point = white

def Blank (font : Font) (ch : UInt8) : Prop := ∀ k < 8, ∀ r < 16, glyphBit font 16 ch k r = false

instance (font : Font) (ch : UInt8) : Decidable (Blank font ch) :=
  inferInstanceAs (Decidable (∀ k < 8, ∀ r < 16, glyphBit font 16 ch k r = false))

/-- The cell has room for the text, and what the text does not cover of the one before has no
    ink. -/
def Tidy (font : Font) (dir : Dir) (cellArea : Rect) (old text : List UInt8) : Prop :=
  CellHolds dir cellArea text.length ∧ ∀ ch ∈ old.drop text.length, Blank font ch

instance (font : Font) (dir : Dir) (cellArea : Rect) (old text : List UInt8) :
    Decidable (Tidy font dir cellArea old text) :=
  inferInstanceAs (Decidable (_ ∧ _))

/-! ## Printing over a text -/

section

variable {font : Font} {dir : Dir} {cellArea : Rect} {old text : List UInt8} {ch : UInt8}
  {n i j k : Nat} {point : Nat × Nat}

theorem stamp_cellCursor : (ofCell dir cellArea).stamp font 16 black (cellCursor dir cellArea k) ch =
    glyphAt font dir cellArea k ch := by
  cases dir <;> rfl

theorem glyphAt_unwrapped (inside : InCell dir cellArea (cellPlace dir cellArea k)) (font : Font)
    (ch : UInt8) : (glyphAt font dir cellArea k ch).Unwrapped := by
  have right := cellArea.xposStop_lt
  have top := cellArea.yposStart_lt
  have bottom := cellArea.yposStop_lt
  cases dir <;> simp only [InCell, Stamp.Unwrapped, glyphAt] at inside ⊢ <;> omega

theorem glyphAt_inside (inside : InCell dir cellArea (cellPlace dir cellArea k))
    (covers : (glyphAt font dir cellArea k ch).Box point) :
    (ofCell dir cellArea).Inside point := by
  cases dir <;> simp only [InCell, Inside, Stamp.Box, glyphAt, ofCell, ofSize] at * <;> omega

theorem glyphAt_apart {ch' : UInt8} (holds : CellHolds dir cellArea n) (order : i < j)
    (below : j < n) (covers : (glyphAt font dir cellArea i ch).Box point) :
    ¬ (glyphAt font dir cellArea j ch').Box point := by
  have width : fontWidth 16 = some 8 := rfl
  have behind : (Layout.ofSize dir cellArea cellSpace 16 8).Behind (cellCursor dir cellArea i)
      (cellCursor dir cellArea j) := behind_cell holds order below
  rw [← stamp_cellCursor] at covers ⊢
  exact behind.apart width covers

theorem glyphAt_ink {c r : Nat} : (glyphAt font dir cellArea k ch).ink c r =
    if glyphBit font 16 ch c r then black else white :=
  rfl

theorem blank_glyph (blank : Blank font ch) (covers : (glyphAt font dir cellArea k ch).Box point) :
    (glyphAt font dir cellArea k ch).glyph point = some white := by
  obtain ⟨c, r, col, row, shown⟩ := Stamp.glyph_of_box covers
  have none : glyphBit font 16 ch c r = false := blank c (by simpa [glyphAt] using col) r row
  rw [shown, glyphAt_ink, none]
  rfl

theorem picture_glyphAt (holds : CellHolds dir cellArea text.length)
    (there : text[k]? = some ch) (covers : (glyphAt font dir cellArea k ch).Box point) :
    (ofCell dir cellArea).picture font 16 black text (ofCell dir cellArea).start point =
      (glyphAt font dir cellArea k ch).glyph point := by
  obtain ⟨below, -⟩ := List.getElem?_eq_some_iff.mp there
  rw [← stamp_cellCursor] at covers ⊢
  apply picture_eq_glyph _ there (slot_cell holds below) covers
  intro i j a b order inner left right ch ch' first
  have left' := slot_cell holds (order.trans inner)
  have right' := slot_cell holds inner
  obtain rfl := Option.some.inj (left'.symm.trans left)
  obtain rfl := Option.some.inj (right'.symm.trans right)
  rw [stamp_cellCursor] at first ⊢
  exact glyphAt_apart holds order inner first

theorem picture_away (holds : CellHolds dir cellArea text.length)
    (away : ∀ k ch, text[k]? = some ch → ¬ (glyphAt font dir cellArea k ch).Box point) :
    (ofCell dir cellArea).picture font 16 black text (ofCell dir cellArea).start point = none := by
  apply picture_eq_none
  intro k ch a there at'
  obtain ⟨below, -⟩ := List.getElem?_eq_some_iff.mp there
  have place := slot_cell holds below
  obtain rfl := Option.some.inj (place.symm.trans at')
  rw [stamp_cellCursor]
  exact away k ch there

theorem printChars_cell (holds : CellHolds dir cellArea text.length) (font : Font) (lcd : Screen) :
    ((ofCell dir cellArea).printChars font 16 black text (ofCell dir cellArea).start lcd).1.panel =
      overlay ((ofCell dir cellArea).picture font 16 black text (ofCell dir cellArea).start)
        lcd.panel := by
  apply (printChars_eq (by decide) lcd _).1
  intro k below
  refine ⟨_, slot_cell holds below, fun ch => ?_⟩
  rw [stamp_cellCursor]
  exact glyphAt_unwrapped (holds.inCell below) font ch

theorem Shows.prints {lcd : Screen} (shows : Shows font dir cellArea old lcd.panel)
    (tidy : Tidy font dir cellArea old text) : Shows font dir cellArea text
      ((ofCell dir cellArea).printChars font 16 black text (ofCell dir cellArea).start
        lcd).1.panel := by
  obtain ⟨holds, blank⟩ := tidy
  rw [printChars_cell holds]
  refine ⟨fun k below => holds.inCell below, ?_, ?_⟩
  · intro k ch there point covers
    have shown := picture_glyphAt holds there covers
    obtain ⟨c, r, -, -, colour⟩ := Stamp.glyph_of_box covers
    rw [overlay_of_some (shown.trans colour)]
    exact colour
  · intro point inside away
    rw [overlay_of_none (picture_away holds away)]
    by_cases covered : ∃ k ch, old[k]? = some ch ∧ (glyphAt font dir cellArea k ch).Box point
    · obtain ⟨k, ch, there, covers⟩ := covered
      have behind : text.length ≤ k := by
        apply Nat.le_of_not_lt
        intro below
        exact away k text[k] (List.getElem?_eq_getElem below) covers
      have left : ch ∈ old.drop text.length := by
        apply List.mem_of_getElem? (i := k - text.length)
        rw [List.getElem?_drop, Nat.add_sub_cancel' behind]
        exact there
      have white' := blank_glyph (blank ch left) covers
      have shown := shows.glyphs k ch there point covers
      exact Option.some.inj (shown.symm.trans white')
    · apply shows.background point inside
      intro k ch there covers
      exact covered ⟨k, ch, there, covers⟩

theorem Shows.untidy {lcd : Screen} (shows : Shows font dir cellArea old lcd.panel)
    (ends : CellEnds dir cellArea) (untidy : ¬ Tidy font dir cellArea old text) :
    ¬ Shows font dir cellArea text
      ((ofCell dir cellArea).printChars font 16 black text (ofCell dir cellArea).start
        lcd).1.panel := by
  intro after
  have holds := holds_of_inCell ends after.inside
  have before := holds_of_inCell ends shows.inside
  apply untidy
  refine ⟨holds, ?_⟩
  intro ch left k col r row
  obtain ⟨i, there⟩ := List.getElem?_of_mem left
  rw [List.getElem?_drop] at there
  obtain ⟨below, -⟩ := List.getElem?_eq_some_iff.mp there
  have inside := shows.inside _ below
  let g := glyphAt font dir cellArea (text.length + i) ch
  obtain ⟨covers, shown⟩ : g.Box (g.spot k r) ∧ g.glyph (g.spot k r) = some (g.ink k r) :=
    Stamp.glyph_spot (glyphAt_unwrapped inside font ch) (by simpa [g, glyphAt] using col) row
  have away : ∀ j ch', text[j]? = some ch' →
      ¬ (glyphAt font dir cellArea j ch').Box (g.spot k r) := by
    intro j ch' there' covers'
    obtain ⟨inner, -⟩ := List.getElem?_eq_some_iff.mp there'
    exact glyphAt_apart before (by omega) below covers' covers
  have same : ((ofCell dir cellArea).printChars font 16 black text (ofCell dir cellArea).start
      lcd).1.panel (g.spot k r) = lcd.panel (g.spot k r) := by
    rw [printChars_cell holds]
    exact overlay_of_none (picture_away holds away)
  have blankThere := after.background (g.spot k r) (glyphAt_inside inside covers) away
  have here := shows.glyphs _ ch there (g.spot k r) covers
  rw [same] at blankThere
  rw [blankThere] at here
  have ink : g.ink k r = white := Option.some.inj (shown.symm.trans here)
  cases bit : glyphBit font 16 ch k r with
  | false => rfl
  | true =>
      simp only [g, glyphAt_ink, bit] at ink
      exact absurd ink (by decide)

end

/-! ## A cell over time -/

/-- The panel, `String`, the text of the last content that has a format, and what the last
    call returned. -/
structure Cell where
  screen : Screen
  string : Buffer
  shown : List UInt8
  returned : Option (Option BspError)

namespace Cell

/-- The panel has been cleared, and `BSP_LCDTableFrameInit` has drawn the frame. -/
def start (cellArea : Rect) : Cell where
  screen := { panel := drawRect (fun _ => white) cellArea white, cursor := (0, 0) }
  string := fun _ => 0
  shown := []
  returned := none

def step (font : Font) (fpu : Fpu) (dir : Dir) (cellArea : Rect) (s : Cell) (content : Content) :
    Option Cell :=
  let (screen, string, err) := printCell font fpu dir s.screen s.string cellArea content
  some
    { screen := screen
      string := string
      shown := ((content.text fpu s.string).map Prod.fst).getD s.shown
      returned := some err }

/-- The text has room in the cell, and leaves no ink of the one before. -/
def Tidy (font : Font) (fpu : Fpu) (dir : Dir) (cellArea : Rect) (s : Cell) (content : Content) :
    Prop :=
  ∀ text ∈ (content.text fpu s.string).map Prod.fst, Lcd.Tidy font dir cellArea s.shown text

instance (font : Font) (fpu : Fpu) (dir : Dir) (cellArea : Rect) (s : Cell) (content : Content) :
    Decidable (s.Tidy font fpu dir cellArea content) :=
  inferInstanceAs (Decidable (∀ text ∈ (content.text fpu s.string).map Prod.fst,
    Lcd.Tidy font dir cellArea s.shown text))

variable {font : Font} {fpu : Fpu} {dir : Dir} {cellArea : Rect}

theorem frame_white (cellArea : Rect) : (start cellArea).screen.panel = fun _ => white := by
  have row (x y n : Nat) : writeRam (fun _ => white) x y n white = fun _ => white := by
    funext point
    simp [writeRam]
  have column (x : Nat) :
      drawColumn (fun _ => white) cellArea x white = fun _ => white := by
    simp only [drawColumn]
    apply List.foldl_fixed'
    intro y
    split
    · exact row ..
    · exact row ..
  simp only [start, drawRect, row, column]

theorem shows_start : Shows font dir cellArea (start cellArea).shown
    (start cellArea).screen.panel where
  inside := nofun
  glyphs := nofun
  background := by
    intro point _ _
    rw [frame_white]

theorem printCell_panel (font : Font) (dir : Dir) (cellArea : Rect) {s : Cell}
    {content : Content} {text : List UInt8} {string : Buffer}
    (reads : content.text fpu s.string = some (text, string)) :
    (printCell font fpu dir s.screen s.string cellArea content).1.panel =
      ((Layout.ofCell dir cellArea).printChars font 16 black text
        (Layout.ofCell dir cellArea).start s.screen).1.panel := by
  have width : fontWidth 16 = some 8 := rfl
  simp only [printCell, reads, printString, width, Layout.ofCell]
  split <;> rename_i printed <;> rw [printed]

theorem step_text {s s' : Cell} {content : Content} {text : List UInt8} {string : Buffer}
    (reads : content.text fpu s.string = some (text, string))
    (moved : s.step font fpu dir cellArea content = some s') :
    s'.returned = some none ∧ s'.shown = text ∧ s'.screen.panel =
      ((Layout.ofCell dir cellArea).printChars font 16 black text
        (Layout.ofCell dir cellArea).start s.screen).1.panel := by
  have panel := printCell_panel font dir cellArea reads
  simp only [step, Option.some.injEq] at moved
  subst moved
  exact ⟨by simp [printCell, reads], by simp [reads], panel⟩

theorem shows_run {contents : List Content} {s : Cell}
    (run : Runs (step font fpu dir cellArea) (Tidy font fpu dir cellArea) (start cellArea)
      contents s) :
    Shows font dir cellArea s.shown s.screen.panel := by
  apply run.invariant shows_start
  intro t content u before tidy moved
  cases reads : content.text fpu t.string with
  | none =>
      simp only [step, printCell, reads, Option.some.injEq] at moved
      subst moved
      exact before
  | some result =>
      obtain ⟨text, string⟩ := result
      obtain ⟨-, shown, panel⟩ := step_text reads moved
      rw [shown, panel]
      exact before.prints (tidy text (by simp [reads]))

end Cell

/-- After each call that reports no error the cell shows the text of its content, in a run
    in which every text has room and leaves no ink of the one before. Where the coordinates of
    the cell do not wrap, every other call reports no error as well, and the cell shows
    something else. -/
theorem cell_shows_while_tidy (font : Font) (fpu : Fpu) (dir : Dir) (cellArea : Rect)
    {contents : List Content} {s : Cell}
    (run : Runs (Cell.step font fpu dir cellArea) (Cell.Tidy font fpu dir cellArea)
      (Cell.start cellArea) contents s) :
    (s.returned = some none → Shows font dir cellArea s.shown s.screen.panel) ∧
      (CellEnds dir cellArea → ∀ content, ¬ s.Tidy font fpu dir cellArea content →
        ∃ s', s.step font fpu dir cellArea content = some s' ∧ s'.returned = some none ∧
          ¬ Shows font dir cellArea s'.shown s'.screen.panel) := by
  have shows := Cell.shows_run run
  refine ⟨fun _ => shows, ?_⟩
  intro ends content untidy
  obtain ⟨s', moved⟩ : ∃ s', s.step font fpu dir cellArea content = some s' := ⟨_, rfl⟩
  refine ⟨s', moved, ?_⟩
  cases reads : content.text fpu s.string with
  | none => exact absurd (by simp [Cell.Tidy, reads]) untidy
  | some result =>
      obtain ⟨text, string⟩ := result
      obtain ⟨returned, shown, panel⟩ := Cell.step_text reads moved
      refine ⟨returned, ?_⟩
      rw [shown, panel]
      apply shows.untidy ends
      intro tidy
      apply untidy
      simpa [Cell.Tidy, reads] using tidy

/-- The row of "1" in `ASC2_1608`; the other characters are left out. -/
def fontOfOne : Font := fun size asc2 temp2 =>
  if size = 16 ∧ asc2 = 17 then
    [0x00, 0x00, 0x08, 0x04, 0x08, 0x04, 0x1F, 0xFC, 0x00, 0x04, 0x00, 0x04, 0x00, 0x00, 0x00,
      0x00].getD temp2 0
  else 0

def smallCell : Rect where
  xposStart := 0
  xposStop := 50
  yposStart := 0
  yposStop := 20
  xposStart_lt := by decide
  xposStop_lt := by decide
  yposStart_lt := by decide
  yposStop_lt := by decide

/-- A number that grows by a digit. -/
theorem cell_shows_while_tidy_one : ∃ s : Cell, s.shown = [49, 49] ∧
    Shows fontOfOne .crosswise smallCell s.shown s.screen.panel := by
  have exhibited : ∃ s : Cell, Runs (Cell.step fontOfOne .exact .crosswise smallCell)
      (Cell.Tidy fontOfOne .exact .crosswise smallCell) (Cell.start smallCell)
      [.uint8 1, .string [49, 49]] s ∧ s.returned = some none ∧ s.shown = [49, 49] :=
    exists_run (by decide +kernel)
  obtain ⟨s, run, returned, shown⟩ := exhibited
  exact ⟨s, shown, (cell_shows_while_tidy fontOfOne .exact .crosswise smallCell run).1 returned⟩

/-- A number that loses a digit: the second digit of 11 stays beside the 1. -/
theorem old_digit_stays :
    ¬ ∀ (font : Font) (fpu : Fpu) (dir : Dir) (cellArea : Rect) (contents : List Content)
      (s : Cell), Runs (Cell.step font fpu dir cellArea) anyStep (Cell.start cellArea) contents s →
      s.returned = some none →
      Shows font dir cellArea s.shown s.screen.panel := by
  intro always
  have exhibited : ∃ s : Cell, Runs (Cell.step fontOfOne .exact .crosswise smallCell)
      (Cell.Tidy fontOfOne .exact .crosswise smallCell) (Cell.start smallCell) [.uint8 11] s ∧
      s.shown = [49, 49] ∧ (Content.text .exact s.string (.uint8 1)).map Prod.fst = some [49] :=
    exists_run (by decide +kernel)
  obtain ⟨s, run, shown, next⟩ := exhibited
  obtain ⟨⟨text, string⟩, reads, rfl⟩ := Option.map_eq_some_iff.mp next
  obtain ⟨s', moved⟩ : ∃ s', s.step fontOfOne .exact .crosswise smallCell (.uint8 1) = some s' :=
    ⟨_, rfl⟩
  obtain ⟨returned, shown', panel⟩ := Cell.step_text reads moved
  have both : Runs (Cell.step fontOfOne .exact .crosswise smallCell) anyStep
      (Cell.start smallCell) [.uint8 11, .uint8 1] s' :=
    (run.weaken fun _ _ _ => trivial).next trivial moved
  have shows := always _ _ _ _ _ s' both returned
  rw [shown', panel] at shows
  refine (Cell.shows_run run).untidy (by decide) ?_ shows
  rw [shown]
  decide +kernel

end ExploreF407.Lcd
