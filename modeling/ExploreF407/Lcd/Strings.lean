import ExploreF407.Lcd.Glyph

/-! # The picture of a string

The places of the characters do not depend on which characters they are. A string whose
characters all have a place is laid over the panel, the later glyphs over the earlier.
-/

namespace ExploreF407.Lcd

open Overlay

namespace Layout

/-- The place of the character number `k` of a string that is printed from `c` on. -/
def slotFrom (l : Layout) (c : Cursor) : Nat → Option Cursor
  | 0 => l.place c
  | k + 1 => (l.place c).bind fun c => l.slotFrom (l.advance c) k

/-- The same for a string that is printed from the start. -/
def slot (l : Layout) (k : Nat) : Option Cursor := l.slotFrom l.start k

def stamp (font : Font) (l : Layout) (size : Nat) (color : UInt16) (c : Cursor) (ch : UInt8) :
    Stamp :=
  { font := font, dir := l.dir, xpos := c.xpos, ypos := c.ypos, ch := ch, size := size,
    color := color }

/-- The glyphs of a string that is printed from `c` on. -/
def picture (font : Font) (l : Layout) (size : Nat) (color : UInt16) :
    List UInt8 → Cursor → Nat × Nat → Option UInt16
  | [], _ => fun _ => none
  | ch :: chs, c => match l.place c with
      | none => fun _ => none
      | some c => onto (picture font l size color chs (l.advance c))
          (l.stamp font size color c ch).glyph

variable {font : Font} {l : Layout} {size : Nat} {color : UInt16} {text : List UInt8}
  {c : Cursor} {point : Nat × Nat}

theorem slotFrom_succ {first : Cursor} (placed : l.place c = some first) (k : Nat) :
    l.slotFrom c (k + 1) = l.slotFrom (l.advance first) k := by
  simp [slotFrom, placed]

/-- Where all characters have a place, and their boxes do not wrap, the string is printed
    completely. -/
theorem printChars_eq (wide : 1 < size) (lcd : Screen)
    (fits : ∀ k < text.length, ∃ a, l.slotFrom c k = some a ∧
      ∀ ch, (l.stamp font size color a ch).Unwrapped) :
    (l.printChars font size color text c lcd).1.panel =
        overlay (l.picture font size color text c) lcd.panel ∧
      ∃ last, (l.printChars font size color text c lcd).2 = .ok last := by
  induction text generalizing c lcd with
  | nil => exact ⟨rfl, c, rfl⟩
  | cons ch chs ih =>
      obtain ⟨first, placed, unwrapped⟩ := fits 0 (by simp)
      have placed : l.place c = some first := placed
      have shown : (lcd.showChar font l.dir size color first ch).panel =
          overlay (l.stamp font size color first ch).glyph lcd.panel :=
        Stamp.showChar_eq (unwrapped ch) wide lcd.panel
      have rest : ∀ k < chs.length, ∃ a, l.slotFrom (l.advance first) k = some a ∧
          ∀ ch, (l.stamp font size color a ch).Unwrapped := by
        intro k below
        rw [← slotFrom_succ placed]
        exact fits (k + 1) (by simpa using below)
      obtain ⟨painted, last, ends⟩ := ih (lcd.showChar font l.dir size color first ch) rest
      simp only [printChars, picture, placed]
      refine ⟨?_, last, ends⟩
      rw [painted, shown, overlay_overlay]

theorem picture_eq_none
    (outside : ∀ k ch a, text[k]? = some ch → l.slotFrom c k = some a →
      ¬ (l.stamp font size color a ch).Box point) :
    l.picture font size color text c point = none := by
  induction text generalizing c with
  | nil => rfl
  | cons ch chs ih =>
      unfold picture
      cases placed : l.place c with
      | none => rfl
      | some first =>
          have here := outside 0 ch first rfl placed
          have rest := ih (c := l.advance first) (by
            intro k ch' a there at'
            exact outside (k + 1) ch' a (by simpa using there)
              (by rwa [slotFrom_succ placed]))
          simp [onto, rest, Stamp.glyph_eq_none here]

/-- Where no two boxes meet, a point in one of them shows the glyph of its character. -/
theorem picture_eq_glyph
    (apart : ∀ i j a b, i < j → j < text.length → l.slotFrom c i = some a →
      l.slotFrom c j = some b → ∀ ch ch', (l.stamp font size color a ch).Box point →
        ¬ (l.stamp font size color b ch').Box point)
    {k : Nat} {ch : UInt8} {a : Cursor} (there : text[k]? = some ch)
    (at' : l.slotFrom c k = some a) (inside : (l.stamp font size color a ch).Box point) :
    l.picture font size color text c point = (l.stamp font size color a ch).glyph point := by
  induction text generalizing c k with
  | nil => simp at there
  | cons first chs ih =>
      unfold picture
      cases placed : l.place c with
      | none => cases k <;> simp [slotFrom, placed] at at'
      | some start =>
          cases k with
          | zero =>
              obtain rfl : first = ch := by simpa using there
              obtain rfl : start = a := Option.some.inj (placed.symm.trans at')
              have above : l.picture font size color chs (l.advance start) point = none := by
                apply picture_eq_none
                intro j ch' b there' at''
                obtain ⟨below, -⟩ := List.getElem?_eq_some_iff.mp there'
                exact apart 0 (j + 1) start b (Nat.succ_pos j) (by simpa using below) at'
                  (by rwa [slotFrom_succ placed]) first ch' inside
              simp [onto, above]
          | succ k =>
              rw [slotFrom_succ placed] at at'
              have rest := ih (c := l.advance start) (by
                intro i j b b' order below left right
                exact apart (i + 1) (j + 1) b b' (Nat.succ_lt_succ order) (by simpa using below)
                  (by rwa [slotFrom_succ placed]) (by rwa [slotFrom_succ placed]))
                (by simpa using there) at'
              obtain ⟨col, row, -, -, shown⟩ := Stamp.glyph_of_box inside
              simp [onto, rest, shown]

end Layout

end ExploreF407.Lcd
