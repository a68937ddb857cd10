import ExploreF407.Lcd.Strings

/-! # The calls of `LCD_ShowChar`

`BSP_LCDPrintString` makes its calls in the order of the string, and nothing else changes the
panel.
-/

namespace ExploreF407.Lcd

namespace Layout

variable {font : Font} {l : Layout} {size : Nat} {color : UInt16} {text : List UInt8}
  {c a : Cursor} {lcd : Screen} {calls : List (Cursor × UInt8)} {ch : UInt8}

/-- The loop adds the calls to the record. -/
def Makes (font : Font) (l : Layout) (size : Nat) (color : UInt16) (text : List UInt8) (c : Cursor)
    (lcd : Screen) (calls : List (Cursor × UInt8)) : Prop :=
  (l.printChars font size color text c lcd).1.calls = lcd.calls ++ calls

theorem exists_makes (font : Font) (l : Layout) (size : Nat) (color : UInt16) (text : List UInt8)
    (c : Cursor) (lcd : Screen) : ∃ calls, l.Makes font size color text c lcd calls := by
  unfold Makes
  induction text generalizing c lcd with
  | nil => exact ⟨[], (List.append_nil _).symm⟩
  | cons ch chs ih =>
      simp only [printChars]
      cases l.place c with
      | none => exact ⟨[], (List.append_nil _).symm⟩
      | some a =>
          obtain ⟨calls, makes⟩ := ih (l.advance a) (lcd.showChar font l.dir size color a ch)
          refine ⟨(a, ch) :: calls, ?_⟩
          rw [makes]
          simp [Screen.showChar]

theorem Makes.nil (makes : l.Makes font size color [] c lcd calls) : calls = [] :=
  List.self_eq_append_right.mp makes

theorem Makes.out (makes : l.Makes font size color (ch :: text) c lcd calls)
    (out : l.place c = none) : calls = [] := by
  simp only [Makes, printChars, out] at makes
  exact List.self_eq_append_right.mp makes

theorem Makes.cons (makes : l.Makes font size color (ch :: text) c lcd calls)
    (placed : l.place c = some a) : ∃ rest, calls = (a, ch) :: rest ∧
      l.Makes font size color text (l.advance a) (lcd.showChar font l.dir size color a ch) rest := by
  obtain ⟨rest, later⟩ := exists_makes font l size color text (l.advance a)
    (lcd.showChar font l.dir size color a ch)
  refine ⟨rest, ?_, later⟩
  simp only [Makes, printChars, placed] at makes later
  rw [later, Screen.showChar, List.append_assoc] at makes
  exact (List.append_cancel_left makes).symm

theorem Makes.panel (makes : l.Makes font size color text c lcd calls) :
    (l.printChars font size color text c lcd).1.panel = calls.foldl
      (fun p a => showChar font l.dir p a.1.xpos a.1.ypos a.2 size color) lcd.panel := by
  induction text generalizing c lcd calls with
  | nil =>
      rw [makes.nil]
      rfl
  | cons ch chs ih =>
      simp only [printChars]
      cases placed : l.place c with
      | none =>
          rw [makes.out placed]
          rfl
      | some a =>
          obtain ⟨rest, rfl, later⟩ := makes.cons placed
          exact ih later

theorem Makes.complete (makes : l.Makes font size color text c lcd calls) {last : Cursor}
    (printed : (l.printChars font size color text c lcd).2 = .ok last) :
    calls.map Prod.snd = text := by
  induction text generalizing c lcd calls with
  | nil =>
      rw [makes.nil]
      rfl
  | cons ch chs ih =>
      simp only [printChars] at printed
      cases placed : l.place c with
      | none => simp [placed] at printed
      | some a =>
          simp only [placed] at printed
          obtain ⟨rest, rfl, later⟩ := makes.cons placed
          rw [List.map_cons, ih later printed]

theorem Makes.getElem? (makes : l.Makes font size color text c lcd calls) (k : Nat) :
    calls[k]? = (l.slotFrom c k).bind fun a => text[k]?.map fun ch => (a, ch) := by
  induction text generalizing c k lcd calls with
  | nil =>
      rw [makes.nil]
      cases l.slotFrom c k <;> rfl
  | cons ch chs ih =>
      cases placed : l.place c with
      | none =>
          have nowhere : l.slotFrom c k = none := by
            cases k <;> simp [slotFrom, placed]
          simp only [makes.out placed, nowhere, Option.bind_none, List.getElem?_nil]
      | some a =>
          obtain ⟨rest, rfl, later⟩ := makes.cons placed
          cases k with
          | zero => simp [slotFrom, placed]
          | succ k =>
              rw [slotFrom_succ placed, List.getElem?_cons_succ, List.getElem?_cons_succ]
              exact ih later k

theorem Makes.behind (makes : l.Makes font size color text c lcd calls) {last : Cursor}
    (printed : (l.printChars font size color text c lcd).2 = .ok last) (nonempty : text ≠ []) :
    ∃ a, calls.getLast? = some a ∧ last = l.advance a.1 := by
  induction text generalizing c lcd calls with
  | nil => exact absurd rfl nonempty
  | cons ch chs ih =>
      simp only [printChars] at printed
      cases placed : l.place c with
      | none => simp [placed] at printed
      | some a =>
          simp only [placed] at printed
          obtain ⟨rest, rfl, later⟩ := makes.cons placed
          cases chs with
          | nil =>
              simp only [printChars, Except.ok.injEq] at printed
              rw [later.nil]
              exact ⟨(a, ch), rfl, printed.symm⟩
          | cons next chs =>
              obtain ⟨b, ends, rfl⟩ := ih later printed (by simp)
              refine ⟨b, ?_, rfl⟩
              rw [List.getLast?_cons, ends, Option.getD_some]

end Layout

theorem printString_ok {font : Font} {dir : Dir} {lcd : Screen} {range : Rect} {space : Space}
    {text : List UInt8} {size width : Nat} {color : UInt16}
    (supported : fontWidth size = some width)
    (printed : (printString font dir lcd range space text size color).2 = none) :
    let l := Layout.ofSize dir range space size width
    ∃ last, (l.printChars font size color text l.start lcd).2 = .ok last ∧
      (printString font dir lcd range space text size color).1 =
        { (l.printChars font size color text l.start lcd).1 with cursor := l.record last } := by
  simp only [printString, supported] at printed ⊢
  split at printed
  · rename_i lcd' last result
    refine ⟨last, ?_⟩
    simp only [result, and_self]
  · cases printed

end ExploreF407.Lcd
