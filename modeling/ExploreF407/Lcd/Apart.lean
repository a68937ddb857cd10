import ExploreF407.Lcd.Calls
import ExploreF407.Lcd.Places

/-! # Characters do not overlap

In a range that is wide enough, and as long as no sum of coordinates wraps, every character is
set behind the one before or at the start of the next line.
-/

namespace ExploreF407.Lcd

open Lines

namespace Layout

variable {l : Layout} {n : Nat} {a b c : Cursor} {s : Nat × Nat}

def along (l : Layout) (c : Cursor) : Nat :=
  match l.dir with
  | .crosswise => c.xpos
  | .vertical => c.ypos

/-- The range has room for a character and two word spaces along the line. -/
def Wide (l : Layout) : Prop :=
  match l.dir with
  | .crosswise =>
      l.range.xposStart + l.xposOffset + 2 * l.space.wordSpace ≤ l.range.xposStop
  | .vertical => l.range.yposStop + l.yposOffset + 2 * l.space.wordSpace ≤ l.range.yposStart

/-- None of the sums that the loop computes for `n` characters from `c` on exceeds 16 bits. -/
def SumsFit (l : Layout) : Nat → Cursor → Prop
  | 0, _ => True
  | n + 1, c =>
      (¬ l.GoesOn (l.along c) → l.lineAt (c.lineNum + 1) < 2 ^ 16) ∧
        match l.place c with
        | none => True
        | some a =>
            (l.dir = .crosswise → a.xpos + l.xposOffset + l.space.wordSpace < 2 ^ 16) ∧
              l.SumsFit n (l.advance a)

instance decidableSumsFit (l : Layout) : (n : Nat) → (c : Cursor) → Decidable (l.SumsFit n c)
  | 0, _ => .isTrue trivial
  | n + 1, c =>
      match placed : l.place c with
      | none => decidable_of_iff (¬ l.GoesOn (l.along c) → l.lineAt (c.lineNum + 1) < 2 ^ 16)
          (by simp only [SumsFit, placed, and_true])
      | some a =>
          have := decidableSumsFit l n (l.advance a)
          decidable_of_iff ((¬ l.GoesOn (l.along c) → l.lineAt (c.lineNum + 1) < 2 ^ 16) ∧
            (l.dir = .crosswise → a.xpos + l.xposOffset + l.space.wordSpace < 2 ^ 16) ∧
              l.SumsFit n (l.advance a)) (by simp only [SumsFit, placed])

/-- The call for the character after `a` is made at `b`: on the same line, or on the next. -/
def Follows (l : Layout) (a b : Cursor) : Prop :=
  match l.dir with
  | .crosswise =>
      b.lineNum = a.lineNum ∧ b.ypos = a.ypos ∧
          b.xpos = a.xpos + l.xposOffset + l.space.wordSpace ∨
        b.lineNum = a.lineNum + 1 ∧ a.ypos + l.yposOffset ≤ b.ypos ∧
          b.xpos = l.range.xposStart + l.space.wordSpace
  | .vertical =>
      b.lineNum = a.lineNum ∧ b.xpos = a.xpos ∧
          b.ypos + l.yposOffset + l.space.wordSpace = a.ypos ∨
        b.lineNum = a.lineNum + 1 ∧ a.xpos + l.xposOffset ≤ b.xpos ∧
          b.ypos + l.space.wordSpace = l.range.yposStart

theorem Follows.behind (follows : l.Follows a b) : l.Behind a b := by
  cases dir : l.dir <;> simp only [Follows, Behind, dir] at follows ⊢ <;> omega

theorem Wide.again (wide : l.Wide) : l.GoesOn l.againAt := by
  have right := l.range.xposStop_lt
  have top := l.range.yposStart_lt
  cases dir : l.dir <;> simp only [Wide, GoesOn, againAt, dir] at wide ⊢ <;> omega

theorem Wide.settle (wide : l.Wide) (s : Nat × Nat) : l.GoesOn (settle l.GoesOn l.againAt s).2 := by
  simp only [Lines.settle]
  split
  · assumption
  · exact wide.again

theorem Wide.follows (wide : l.Wide) (on : l.GoesOn s.2) (small : s.2 < 2 ^ 16)
    (sum : l.dir = .crosswise → s.2 + l.xposOffset + l.space.wordSpace < 2 ^ 16) :
    l.Follows (l.cursorAt s) (l.cursorAt (Lines.settle l.GoesOn l.againAt (s.1, l.nextAt s.2))) := by
  have right := l.range.xposStop_lt
  have top := l.range.yposStart_lt
  simp only [Lines.settle]
  split
  · cases dir : l.dir <;> simp only [Wide, GoesOn, Follows, cursorAt, nextAt, dir] at * <;> grind
  · cases dir : l.dir <;>
      simp only [Wide, GoesOn, Follows, cursorAt, againAt, lineAt, dir] at * <;> grind

@[simp] theorem along_cursorAt : l.along (l.cursorAt s) = s.2 := by
  cases dir : l.dir <;> simp only [along, cursorAt, dir]

@[simp] theorem lineNum_cursorAt : (l.cursorAt s).lineNum = s.1 := by
  cases dir : l.dir <;> simp only [cursorAt, dir]

theorem settle_lt (small : s.2 < 2 ^ 16) :
    (Lines.settle l.GoesOn l.againAt s).2 < 2 ^ 16 := by
  have left := l.range.xposStart_lt
  have again : l.againAt < 2 ^ 16 := by
    cases dir : l.dir <;> simp only [againAt, dir] <;> omega
  simp only [Lines.settle]
  split
  · exact small
  · exact again

theorem nextAt_small (u : Nat) : l.nextAt u < 2 ^ 16 := by
  cases dir : l.dir <;> simp only [nextAt, dir] <;> omega

/-- The character stands on a line and a coordinate that do not leave the range. -/
structure Stands (l : Layout) (a : Cursor) (s : Nat × Nat) : Prop where
  at' : a = l.cursorAt s
  on : l.GoesOn s.2
  line : l.LineFits s.1
  small : s.2 < 2 ^ 16

theorem Wide.place (wide : l.Wide) (tall : 0 < l.xposOffset ∧ 0 < l.yposOffset)
    (small : s.2 < 2 ^ 16)
    (sum : ¬ l.GoesOn (l.along (l.cursorAt s)) →
      l.lineAt ((l.cursorAt s).lineNum + 1) < 2 ^ 16)
    (placed : l.place (l.cursorAt s) = some a) :
    l.Stands a (Lines.settle l.GoesOn l.againAt s) := by
  simp only [along_cursorAt, lineNum_cursorAt] at sum
  have count (k : Nat) : k ≤ l.lineAt k := by
    have columns : k ≤ k * l.xposOffset := Nat.le_mul_of_pos_right k tall.1
    have rows : k ≤ k * l.yposOffset := Nat.le_mul_of_pos_right k tall.2
    cases dir : l.dir <;> simp only [lineAt, dir] <;> grind
  rw [place_cursorAt fun broken => ⟨sum broken, (count _).trans_lt (sum broken)⟩,
    Option.ite_none_right_eq_some, Option.some.injEq] at placed
  exact ⟨placed.2.symm, wide.settle s, placed.1, settle_lt small⟩

theorem Wide.chain {font : Font} {size : Nat} {color : UInt16} {text : List UInt8} {lcd : Screen}
    {calls : List (Cursor × UInt8)} (wide : l.Wide)
    (tall : 0 < l.xposOffset ∧ 0 < l.yposOffset) (small : s.2 < 2 ^ 16)
    (sums : l.SumsFit text.length (l.cursorAt s))
    (makes : l.Makes font size color text (l.cursorAt s) lcd calls) :
    calls.IsChain (fun a b => l.Follows a.1 b.1) ∧
      (∀ a ∈ calls.head?, a.1 = l.cursorAt (Lines.settle l.GoesOn l.againAt s)) ∧
      ∀ a ∈ calls, ∃ s', l.Stands a.1 s' := by
  induction text generalizing s lcd calls with
  | nil => simp [makes.nil]
  | cons ch chs ih =>
      obtain ⟨line, sums⟩ := sums
      cases placed : l.place (l.cursorAt s) with
      | none => simp [makes.out placed]
      | some a =>
          simp only [placed] at sums
          obtain ⟨sum, sums⟩ := sums
          obtain ⟨rest, rfl, later⟩ := makes.cons placed
          have stands := wide.place tall small line placed
          have here := stands.at'
          subst here
          rw [advance_cursorAt] at sums later
          obtain ⟨chain, head, rest⟩ := ih (nextAt_small _) sums later
          refine ⟨?_, ?_, ?_⟩
          · rw [List.isChain_cons]
            refine ⟨?_, chain⟩
            intro b next
            rw [head b next]
            apply wide.follows stands.on stands.small
            intro dir
            simpa only [cursorAt, dir] using sum dir
          · intro b first
            cases first
            rfl
          · intro b member
            rcases List.mem_cons.mp member with rfl | later
            · exact ⟨_, stands⟩
            · exact rest b later

theorem Stands.unwrapped {dir : Dir} {range : Rect} {space : Space} {size width : Nat}
    (supported : fontWidth size = some width)
    (stands : (ofSize dir range space size width).Stands a s) (font : Font) (color : UInt16)
    (ch : UInt8) : ((ofSize dir range space size width).stamp font size color a ch).Unwrapped := by
  obtain ⟨two, low, high⟩ := fontWidth_bounds supported
  obtain ⟨rfl, on, line, small⟩ := stands
  have right := range.xposStop_lt
  have bottom := range.yposStop_lt
  cases dir <;>
    simp only [GoesOn, LineFits, Stamp.Unwrapped, stamp, cursorAt, ofSize] at on line small ⊢ <;>
    omega

end Layout

/-- For both directions, every size there is a font for, every string and every range wide
    enough: without an error, there has been one call of `LCD_ShowChar` for each character in the
    order of the string, each following the one before, and no two boxes have a point in
    common. -/
theorem printString_characters_apart (font : Font) (dir : Dir) (lcd : Screen) (range : Rect)
    (space : Space) (text : List UInt8) (size width : Nat) (color : UInt16)
    (supported : fontWidth size = some width)
    (wide : (Layout.ofSize dir range space size width).Wide)
    (sums : (Layout.ofSize dir range space size width).SumsFit text.length
      (Layout.ofSize dir range space size width).start)
    (printed : (printString font dir lcd range space text size color).2 = none) :
    let l := Layout.ofSize dir range space size width
    let lcd' := (printString font dir lcd range space text size color).1
    ∃ calls, lcd'.calls = lcd.calls ++ calls ∧
      lcd'.panel = calls.foldl
        (fun p a => showChar font dir p a.1.xpos a.1.ypos a.2 size color) lcd.panel ∧
      calls.map Prod.snd = text ∧
      calls.IsChain (fun a b => l.Follows a.1 b.1) ∧
      (∀ a ∈ calls, (l.stamp font size color a.1 a.2).Unwrapped) ∧
      calls.Pairwise fun a b => ∀ point,
        ¬ ((l.stamp font size color a.1 a.2).Box point ∧
          (l.stamp font size color b.1 b.2).Box point) := by
  intro l lcd'
  obtain ⟨two, low, high⟩ := fontWidth_bounds supported
  obtain ⟨last, complete, screen⟩ := printString_ok supported printed
  have tall : 0 < l.xposOffset ∧ 0 < l.yposOffset := by
    simp only [l, Layout.ofSize]
    cases dir <;> simp only <;> omega
  have small : l.firstAt < 2 ^ 16 := by
    simp only [l, Layout.ofSize, Layout.firstAt]
    cases dir <;> simp only <;> omega
  obtain ⟨calls, makes⟩ := Layout.exists_makes font l size color text l.start lcd
  have made : calls.map Prod.snd = text := makes.complete complete
  have drawn := makes.panel
  have recorded : (l.printChars font size color text l.start lcd).1.calls = lcd.calls ++ calls :=
    makes
  have direction : l.dir = dir := by cases dir <;> rfl
  have start := Layout.start_cursorAt l
  rw [show (Layout.ofSize dir range space size width).start = l.start from rfl, start] at sums
  rw [start] at makes
  obtain ⟨chain, -, stands⟩ := wide.chain tall small sums makes
  refine ⟨calls, ?_, ?_, made, chain, ?_, ?_⟩
  · simp only [lcd', screen]
    exact recorded
  · simp only [lcd', screen]
    rwa [direction] at drawn
  · intro a member
    obtain ⟨s, stands⟩ := stands a member
    exact stands.unwrapped supported font color a.2
  · have order : calls.Pairwise fun a b => l.Behind a.1 b.1 := by
      have : IsTrans (Cursor × UInt8) fun a b => l.Behind a.1 b.1 := ⟨fun _ _ _ => .trans⟩
      exact List.isChain_iff_pairwise.mp (chain.imp fun a b => Layout.Follows.behind)
    refine order.imp ?_
    intro a b behind point both
    obtain ⟨first, second⟩ := both
    exact behind.apart supported first second

def twoLines : Rect := .ofPanel 0 40 60 0

theorem printString_characters_apart_six :
    let lcd : Screen := { panel := fun _ => white, cursor := (0, 0) }
    let space : Space := { lineSpace := 2, wordSpace := 2 }
    let text : List UInt8 := [69, 114, 114, 111, 114, 58]
    let l := Layout.ofSize .vertical twoLines space 16 8
    let lcd' := (printString (fun _ _ _ => 0) .vertical lcd twoLines space text 16 black).1
    ∃ calls, lcd'.calls = lcd.calls ++ calls ∧
      lcd'.panel = calls.foldl
        (fun p a => showChar (fun _ _ _ => 0) .vertical p a.1.xpos a.1.ypos a.2 16 black)
        lcd.panel ∧
      calls.map Prod.snd = text ∧
      calls.IsChain (fun a b => l.Follows a.1 b.1) ∧
      (∀ a ∈ calls, (l.stamp (fun _ _ _ => 0) 16 black a.1 a.2).Unwrapped) ∧
      calls.Pairwise fun a b => ∀ point,
        ¬ ((l.stamp (fun _ _ _ => 0) 16 black a.1 a.2).Box point ∧
          (l.stamp (fun _ _ _ => 0) 16 black b.1 b.2).Box point) :=
  printString_characters_apart (fun _ _ _ => 0) .vertical _ twoLines _ _ 16 8 black rfl
    (by change 0 + 8 + 4 ≤ 60; decide) (by decide) rfl

end ExploreF407.Lcd
