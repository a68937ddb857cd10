import ExploreF407.Lcd.Places

/-! # The border that `BSP_LCDDrawRect` draws

Its four lines are half-open: each begins at a start coordinate and ends before a stop coordinate.
-/

namespace ExploreF407.Lcd

def InColumn (rect : Rect) (xpos : Nat) (point : Nat × Nat) : Prop :=
  point.1 = xpos ∧
    ((rect.yposStart ≤ point.2 ∧ point.2 < rect.yposStop) ∨
      (rect.yposStop < point.2 ∧ point.2 ≤ rect.yposStart))

/-- The points of a horizontal line; there are none where the corners are given from right to
    left. -/
def InRow (rect : Rect) (ypos : Nat) (point : Nat × Nat) : Prop :=
  point.2 = ypos ∧ rect.xposStart ≤ point.1 ∧ point.1 < rect.xposStop

def Drawn (rect : Rect) (point : Nat × Nat) : Prop :=
  InRow rect rect.yposStart point ∨ InRow rect rect.yposStop point ∨
    InColumn rect rect.xposStart point ∨ InColumn rect rect.xposStop point

/-- `q` is `p` with the points `S` coloured. -/
def Paints (p q : Panel) (color : UInt16) (S : Nat × Nat → Prop) : Prop :=
  ∀ point, (S point → q point = color) ∧ (¬ S point → q point = p point)

variable {p q r : Panel} {color : UInt16} {S T : Nat × Nat → Prop} {rect : Rect}
  {point : Nat × Nat}

theorem Paints.nothing : Paints p p color fun _ => False :=
  fun _ => ⟨False.elim, fun _ => rfl⟩

theorem Paints.then (first : Paints p q color S) (second : Paints q r color T) :
    Paints p r color fun point => S point ∨ T point := by
  intro point
  obtain ⟨in₁, out₁⟩ := first point
  obtain ⟨in₂, out₂⟩ := second point
  by_cases there : T point
  · exact ⟨fun _ => in₂ there, fun outside => absurd (.inr there) outside⟩
  · constructor
    · intro inside
      exact (out₂ there).trans (in₁ (inside.resolve_right there))
    · intro outside
      exact (out₂ there).trans (out₁ fun here => outside (.inl here))

theorem Paints.congr (paints : Paints p q color S) (same : ∀ point, S point ↔ T point) :
    Paints p q color T := by
  intro point
  rw [← same point]
  exact paints point

theorem writeRam_paints (p : Panel) (xpos ypos n : Nat) (color : UInt16) :
    Paints p (writeRam p xpos ypos n color) color
      fun point => point.2 = ypos ∧ xpos ≤ point.1 ∧ point.1 < xpos + n :=
  fun _ => ⟨fun inside => if_pos inside, fun outside => if_neg outside⟩

theorem foldl_paints (p : Panel) (xpos : Nat) (row : Nat → Nat) (n : Nat) (color : UInt16) :
    Paints p ((List.range n).foldl (fun p temp => writeRam p xpos (row temp) 1 color) p) color
      fun point => point.1 = xpos ∧ ∃ temp < n, point.2 = row temp := by
  induction n with
  | zero => exact Paints.nothing.congr fun point => by simp
  | succ n ih =>
      rw [List.range_succ, List.foldl_append]
      apply (ih.then (writeRam_paints _ xpos (row n) 1 color)).congr
      intro point
      constructor
      · intro inside
        rcases inside with ⟨here, temp, before, at'⟩ | ⟨at', left, right⟩
        · exact ⟨here, temp, Nat.lt_succ_of_lt before, at'⟩
        · exact ⟨by omega, n, Nat.lt_succ_self n, at'⟩
      · intro inside
        obtain ⟨here, temp, before, at'⟩ := inside
        rcases Nat.lt_succ_iff_lt_or_eq.mp before with less | rfl
        · exact .inl ⟨here, temp, less, at'⟩
        · exact .inr ⟨at', by omega, by omega⟩

theorem drawColumn_paints (p : Panel) (rect : Rect) (xpos : Nat) (color : UInt16) :
    Paints p (drawColumn p rect xpos color) color (InColumn rect xpos) := by
  have stop := rect.yposStop_lt
  unfold drawColumn
  by_cases down : rect.yposStop > rect.yposStart
  · simp only [down, if_true]
    apply (foldl_paints p xpos (fun temp => (rect.yposStart + temp) % 2 ^ 16) _ color).congr
    intro point
    unfold InColumn
    constructor
    · intro inside
      obtain ⟨here, temp, before, at'⟩ := inside
      rw [Nat.mod_eq_of_lt (by omega)] at at'
      exact ⟨here, by omega⟩
    · intro inside
      obtain ⟨here, between⟩ := inside
      refine ⟨here, point.2 - rect.yposStart, by omega, ?_⟩
      rw [Nat.mod_eq_of_lt (by omega)]
      omega
  · simp only [down, if_false]
    apply (foldl_paints p xpos (fun temp => rect.yposStart - temp) _ color).congr
    intro point
    unfold InColumn
    constructor
    · intro inside
      obtain ⟨here, temp, before, at'⟩ := inside
      exact ⟨here, by omega⟩
    · intro inside
      obtain ⟨here, between⟩ := inside
      exact ⟨here, rect.yposStart - point.2, by omega, by omega⟩

theorem drawRect_paints (p : Panel) (rect : Rect) (color : UInt16) :
    Paints p (drawRect p rect color) color (Drawn rect) := by
  unfold drawRect
  apply ((((writeRam_paints p _ _ _ color).then (writeRam_paints _ _ _ _ color)).then
    (drawColumn_paints _ rect _ color)).then (drawColumn_paints _ rect _ color)).congr
  intro point
  unfold Drawn InRow
  have width : rect.xposStart ≤ point.1 ∧ point.1 < rect.xposStart + (rect.xposStop - rect.xposStart) ↔
      rect.xposStart ≤ point.1 ∧ point.1 < rect.xposStop := by omega
  simp only [width, or_assoc]

/-! ## The closed frame -/

/-- The four edges of the box that the two corners span, corners included. -/
def OnFrame (rect : Rect) (point : Nat × Nat) : Prop :=
  (min rect.xposStart rect.xposStop ≤ point.1 ∧ point.1 ≤ max rect.xposStart rect.xposStop ∧
    min rect.yposStart rect.yposStop ≤ point.2 ∧ point.2 ≤ max rect.yposStart rect.yposStop) ∧
  (point.1 = rect.xposStart ∨ point.1 = rect.xposStop ∨ point.2 = rect.yposStart ∨
    point.2 = rect.yposStop)

/-- Exactly the frame is drawn, on every panel and in every colour. -/
def ClosedFrame (rect : Rect) : Prop :=
  ∀ p color, Paints p (drawRect p rect color) color (OnFrame rect)

theorem Drawn.onFrame (drawn : Drawn rect point) : OnFrame rect point := by
  unfold Drawn InRow InColumn at drawn
  unfold OnFrame
  omega

theorem drawRect_beside (p : Panel) (color : UInt16) (beside : ¬ OnFrame rect point) :
    drawRect p rect color point = p point :=
  (drawRect_paints p rect color point).2 fun drawn => beside drawn.onFrame

/-- With the corners from left to right, the stop corner is all that is missing. -/
theorem drawn_iff (order : rect.xposStart < rect.xposStop) :
    Drawn rect point ↔ OnFrame rect point ∧ point ≠ (rect.xposStop, rect.yposStop) := by
  unfold Drawn InRow InColumn OnFrame
  rw [ne_eq, Prod.ext_iff]
  omega

/-- With the corners from right to left, only the vertical lines are drawn. -/
theorem drawn_iff_of_ge (order : rect.xposStop ≤ rect.xposStart) :
    Drawn rect point ↔ InColumn rect rect.xposStart point ∨ InColumn rect rect.xposStop point := by
  unfold Drawn InRow InColumn
  omega

theorem not_drawn_stop (rect : Rect) : ¬ Drawn rect (rect.xposStop, rect.yposStop) := by
  unfold Drawn InRow InColumn
  omega

theorem onFrame_stop (rect : Rect) : OnFrame rect (rect.xposStop, rect.yposStop) := by
  unfold OnFrame
  omega

theorem stop_kept (rect : Rect) :
    drawRect (fun _ => white) rect black (rect.xposStop, rect.yposStop) = white :=
  (drawRect_paints _ rect black _).2 (not_drawn_stop rect)

/-- The stop corner is never part of what is drawn, so that no frame is closed. -/
theorem drawRect_not_closed (rect : Rect) : ¬ ClosedFrame rect := by
  intro closed
  have drawn := (closed (fun _ => white) black _).1 (onFrame_stop rect)
  rw [stop_kept] at drawn
  exact absurd drawn (by decide)

/-- The frame from (10, 20) to (30, 40). -/
theorem drawRect_not_closed_ten : ¬ ClosedFrame (Rect.ofPanel 10 30 20 40) := by
  intro closed
  have drawn := (closed (fun _ => white) black _).1 (onFrame_stop _)
  rw [stop_kept] at drawn
  exact absurd drawn (by decide)

end ExploreF407.Lcd
