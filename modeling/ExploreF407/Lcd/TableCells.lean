import ExploreF407.Lcd.TableFrame

/-! # The links of the cells of a table

Each round of `BSP_LCDTableFrameInit` links its cell to the cells before and behind it. It does
not ask whether the cell is the last one, whose link leads behind the array.
-/

namespace ExploreF407.Lcd

open Linked

namespace Sheet

def prev (s : Sheet) (k : Nat) : Option Nat := (s.cells k).prevPtr

def next (s : Sheet) (k : Nat) : Option Nat := (s.cells k).nextPtr

/-- The first `n` cells are a list that begins and ends with a null pointer, in the order of the
    array. -/
def Listed (s : Sheet) (n : Nat) : Prop := Both s.prev s.next (List.range n)

/-- The first `n` cells have got their links. -/
def LinkedTo (s : Sheet) (n : Nat) : Prop :=
  ∀ k < n, s.prev k = (if k = 0 then none else some (k - 1)) ∧ s.next k = some (k + 1)

variable {s : Sheet} {n : Nat}

theorem LinkedTo.mono {m : Nat} (linked : s.LinkedTo n) (le : m ≤ n) : s.LinkedTo m :=
  fun k below => linked k (below.trans_le le)

theorem LinkedTo.between (linked : s.LinkedTo n) :
    Between s.prev s.next none (List.range n) (some n) := by
  apply between_range
  · intro k below
    exact (linked k below).1
  · intro k below
    rw [(linked k below).2]
    split
    · rfl
    · have last : k + 1 = n := by omega
      rw [last]

theorem LinkedTo.walk_eq (linked : s.LinkedTo n) {k : Nat} (some' : 0 < n) (inside : k ≤ n) :
    walk s.next 0 k = some k := by
  have first : (List.range n).head? = some 0 := by
    rw [List.head?_eq_getElem?, List.getElem?_range some']
  rw [linked.between.walk_eq first (by rwa [List.length_range])]
  rcases Nat.lt_or_eq_of_le inside with below | rfl
  · rw [List.getElem?_range below, Option.some_or]
  · rw [List.getElem?_eq_none (Nat.le_of_eq List.length_range), Option.none_or]

end Sheet

/-! ## Rounds -/

section Rounds

variable {ι κ : Type*} {nodes : TableNodes ι κ} {table : Table ι κ} {turns left k : Nat}
  {temp : UInt16} {line : ι} {row : κ} {s s' : Sheet}

theorem writtenCell_links (cell : TableCell) :
    (writtenCell nodes table k line row cell).prevPtr = (if k = 0 then none else some (k - 1)) ∧
      (writtenCell nodes table k line row cell).nextPtr = some (k + 1) := by
  unfold writtenCell
  split
  · rename_i first
    subst first
    exact ⟨rfl, rfl⟩
  · exact ⟨rfl, rfl⟩

theorem Sheet.LinkedTo.put (linked : s.LinkedTo k) :
    (s.put nodes table k line row).LinkedTo (k + 1) := by
  intro j below
  simp only [Sheet.prev, Sheet.next, Sheet.put, Sheet.drawCell, Sheet.assign]
  by_cases here : j = k
  · subst here
    rw [Function.update_self]
    exact writtenCell_links (s.cells j)
  · rw [Function.update_of_ne here]
    exact linked j (by omega)

theorem frameCell_ok {at' : ι × κ}
    (ends : frameCell nodes table turns temp line row s = (s', .ok at')) :
    ∃ p q, s' = s.put nodes table temp.toNat p q := by
  cases lineFound : nodes.otherLine turns (temp.toNat / table.rowCnt.toNat) line with
  | error stop =>
      have lost : ∃ s₁, frameCell nodes table turns temp line row s = (s₁, .error stop) ∧
          s₁.filled = s.filled := frameCell_lineLost lineFound
      obtain ⟨s₁, stops, -⟩ := lost
      cases stops.symm.trans ends
  | ok p =>
      cases rowFound : nodes.cellRow turns (temp.toNat % table.rowCnt.toNat) row with
      | error stop =>
          obtain ⟨s₁, stops, -⟩ := frameCell_rowLost (s := s) lineFound rowFound
          cases stops.symm.trans ends
      | ok q =>
          cases (frameCell_found (s := s) lineFound rowFound).symm.trans ends
          exact ⟨p, q, rfl⟩

/-- A loop that ends is at its end, or it has finished a cell and goes on. -/
theorem frameCells_ok
    (ends : frameCells nodes table turns left temp line row s = (s', .ok ())) :
    (table.product ≤ temp.toNat ∧ s' = s) ∨
      ∃ left' line' row' p q, left = left' + 1 ∧
        frameCells nodes table turns left' (temp + 1) line' row'
          (s.put nodes table temp.toNat p q) = (s', .ok ()) := by
  unfold frameCells at ends
  split at ends
  · cases ends
  · split at ends
    · cases left with
      | zero => cases ends
      | succ left =>
          simp only at ends
          split at ends
          · cases ends
          · rename_i s₁ line' row' round
            obtain ⟨p, q, rfl⟩ := frameCell_ok round
            exact .inr ⟨left, line', row', p, q, rfl, ends⟩
    · rename_i beyond
      cases ends
      exact .inl ⟨Nat.le_of_not_lt beyond, rfl⟩

/-- `temp++`, also where it wraps. -/
theorem temp_succ_le (temp : UInt16) : (temp + 1).toNat ≤ temp.toNat + 1 := by
  rw [UInt16.toNat_add]
  exact Nat.mod_le _ _

/-- A loop that ends has linked all cells, whatever the lists of lines and rows look like. -/
theorem frameCells_linked
    (ends : frameCells nodes table turns left temp line row s = (s', .ok ()))
    (linked : s.LinkedTo temp.toNat) : s'.LinkedTo table.product := by
  induction left generalizing temp line row s with
  | zero =>
      rcases frameCells_ok ends with ⟨beyond, rfl⟩ | ⟨left', _, _, _, _, more, -⟩
      · exact linked.mono beyond
      · cases more
  | succ left ih =>
      rcases frameCells_ok ends with ⟨beyond, rfl⟩ | ⟨left', line', row', p, q, more, rest⟩
      · exact linked.mono beyond
      · cases more
        exact ih rest (linked.put.mono (temp_succ_le temp))

theorem init_linked (returns : bspLcdTableFrameInit nodes table turns s = (s', .ok ())) :
    s'.LinkedTo table.product := by
  have none : s.LinkedTo (0 : UInt16).toNat := fun k below => absurd below (Nat.not_lt_zero k)
  unfold bspLcdTableFrameInit at returns
  split at returns
  · cases returns
  · split at returns
    · cases returns
    · split at returns
      · cases returns
      · split at returns
        · cases returns
        · exact frameCells_linked returns none

/-- Where `BSP_LCDTableFrameInit` returns `BSP_ERROR_NONE` the cells are linked in both
    directions and in their order, but the last one is in front of an element that the array
    does not have: a walker comes there behind the last cell, and no null pointer ends the list. -/
theorem tableFrameInit_not_listed (some' : 0 < table.product)
    (returns : bspLcdTableFrameInit nodes table turns s = (s', .ok ())) :
    Between s'.prev s'.next none (List.range table.product) (some table.product) ∧
      (∀ k ≤ table.product, walk s'.next 0 k = some k) ∧ ¬ s'.Listed table.product := by
  have linked := init_linked returns
  have cells : List.range table.product ≠ [] := by
    intro nil
    rw [List.range_eq_nil] at nil
    omega
  exact ⟨linked.between, fun k inside => linked.walk_eq some' inside,
    linked.between.not_both cells (Option.some_ne_none _)⟩

end Rounds

/-- A table of four cells. -/
theorem tableFrameInit_not_listed_two : ∃ s',
    bspLcdTableFrameInit (listNodes [0, 1] [0, 1]) (listTable [0, 1] [0, 1] 2 2) 4 blankSheet =
      (s', .ok ()) ∧ walk s'.next 0 4 = some 4 ∧ ¬ s'.Listed 4 := by
  have reached : Reached (listNodes [0, 1] [0, 1]) (listTable [0, 1] [0, 1] 2 2) [0, 1] [0, 1]
      4 1 1 := ⟨by decide, by decide⟩
  obtain ⟨ls, rs, -, -, returns⟩ := init_ends blankSheet wellFormed_two.lists (by decide)
    (by decide) (by decide) reached 0 (by decide) (by decide)
  obtain ⟨-, walks, unlisted⟩ := tableFrameInit_not_listed (by decide) returns
  exact ⟨_, returns, walks 4 (by decide), unlisted⟩

/-- A single cell is the first one and the last one at once. Its `NextPtr` is not NULL. -/
theorem tableFrameInit_not_listed_one : ∃ s',
    bspLcdTableFrameInit (listNodes [0] [0]) (listTable [0] [0] 1 1) 1 blankSheet = (s', .ok ()) ∧
      0 < (listTable [0] [0] 1 1).product ∧ s'.next 0 = some 1 ∧
      ¬ s'.Listed (listTable [0] [0] 1 1).product := by
  have reached : Reached (listNodes [0] [0]) (listTable [0] [0] 1 1) [0] [0] 1 0 0 :=
    ⟨by decide, by decide⟩
  obtain ⟨ls, rs, -, -, returns⟩ := init_ends blankSheet (listNodes_lists [0] [0] 1 1) (by decide)
    (by decide) (by decide) reached 0 (by decide) (by decide)
  have linked := init_linked returns
  have next := (linked 0 (by decide)).2
  refine ⟨_, returns, by decide, next, ?_⟩
  intro listed
  cases next.symm.trans listed.2.1

end ExploreF407.Lcd
