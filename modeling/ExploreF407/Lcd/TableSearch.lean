import ExploreF407.Lcd.Table
import ExploreF407.Lib.Linked

/-! # Where the searches of a table lead

A search moves a pointer along the links of one direction. In a doubly linked list it finds the
nearest node with the number in that direction. Where there is none it is given up, unless it
has begun at the last node of that direction.
-/

namespace ExploreF407.Lcd

open Linked

section Search

variable {ι : Type*} {link prev next : ι → Option ι} {num : ι → Nat} {want turns : Nat}
  {p q : ι} {rest nodes : List ι} {i k : Nat}

theorem seek_eq (points : Points link (link p) rest) (enough : rest.length < turns) :
    seek link num want turns p =
      match (p :: rest).find? fun q => decide (num q = want) with
      | some q => .ok q
      | none => .error (if rest = [] then .null else .table) := by
  induction rest generalizing p turns with
  | nil =>
      obtain ⟨turns, rfl⟩ := Nat.exists_eq_succ_of_ne_zero (Nat.ne_of_gt enough)
      unfold seek
      rw [show link p = none from points]
      by_cases here : num p = want
      · simp [here]
      · simp [here, Ne.symm here]
  | cons q rest ih =>
      obtain ⟨turns, rfl⟩ := Nat.exists_eq_succ_of_ne_zero (Nat.ne_zero_of_lt enough)
      obtain ⟨forth, points⟩ := points
      have search := ih points (Nat.lt_of_succ_lt_succ enough)
      have last : link q = none ↔ rest = [] := by
        cases rest with
        | nil => simp [show link q = none from points]
        | cons r rest => simp [show link q = some r from points.1]
      unfold seek
      rw [forth]
      by_cases here : num p = want
      · simp [here]
      · simp only [Ne.symm here, if_false, last]
        rw [search]
        by_cases there : num q = want
        · simp [here, there]
        · cases rest with
          | nil => simp [here, there]
          | cons r rest => simp [here, there]

theorem number_at (here : nodes[i]? = some p) : (nodes.map num)[i]? = some (num p) := by
  rw [List.getElem?_map, here]
  rfl

theorem node_at (here : (nodes.map num)[k]? = some want) :
    ∃ q, nodes[k]? = some q ∧ num q = want := by
  rw [List.getElem?_map] at here
  exact Option.map_eq_some_iff.mp here

theorem seek_next (linked : Both prev next nodes) (here : nodes[i]? = some p)
    (enough : nodes.length ≤ turns) :
    seek next num want turns p =
      match (ahead (fun q => decide (num q = want)) nodes i).bind (nodes[·]?) with
      | some q => .ok q
      | none => .error (if i + 1 = nodes.length then .null else .table) := by
  obtain ⟨inside, at'⟩ := List.getElem?_eq_some_iff.mp here
  have behind : nodes.drop i = p :: nodes.drop (i + 1) := by
    rw [← at']
    exact List.drop_eq_getElem_cons inside
  have short : (nodes.drop (i + 1)).length < turns := by
    rw [List.length_drop]
    omega
  have last : nodes.drop (i + 1) = [] ↔ i + 1 = nodes.length := by
    rw [List.drop_eq_nil_iff]
    omega
  rw [seek_eq (linked.points_next here) short, ← behind, find?_drop]
  simp only [last]

theorem seek_prev (linked : Both prev next nodes) (here : nodes[i]? = some p)
    (enough : nodes.length ≤ turns) :
    seek prev num want turns p =
      match (back (fun q => decide (num q = want)) nodes i).bind (nodes[·]?) with
      | some q => .ok q
      | none => .error (if i = 0 then .null else .table) := by
  obtain ⟨inside, at'⟩ := List.getElem?_eq_some_iff.mp here
  have before : (nodes.take (i + 1)).reverse = p :: (nodes.take i).reverse := by
    rw [List.take_add_one, here]
    simp
  have short : (nodes.take i).reverse.length < turns := by
    rw [List.length_reverse, List.length_take]
    omega
  have first : (nodes.take i).reverse = [] ↔ i = 0 := by
    rw [List.reverse_eq_nil_iff, List.take_eq_nil_iff]
    have some' : nodes ≠ [] := by
      intro none
      simp [none] at inside
    simp [some']
  rw [seek_eq (linked.points_prev here) short, ← before, find?_take_reverse inside]
  simp only [first]

/-- A pointer that is where it should be needs no branch of its own. -/
theorem select_eq :
    select num want (seek prev num want turns) (seek next num want turns) p =
      if want < num p then seek prev num want turns p else seek next num want turns p := by
  unfold select
  by_cases here : want = num p
  · unfold seek
    simp [here]
  · simp only [here, if_false]

theorem select_found (linked : Both prev next nodes) (here : nodes[i]? = some p)
    (enough : nodes.length ≤ turns) (found : goTo (nodes.map num) i want = some k) :
    ∃ q, nodes[k]? = some q ∧
      select num want (seek prev num want turns) (seek next num want turns) p = .ok q := by
  obtain ⟨q, there, -⟩ := node_at (of_goTo found)
  refine ⟨q, there, ?_⟩
  rw [goTo, number_at here, Option.bind_some, ahead_map, back_map] at found
  rw [select_eq]
  split at found
  · rename_i less
    rw [if_pos less, seek_prev linked here enough, found, Option.bind_some, there]
  · rename_i more
    rw [if_neg more, seek_next linked here enough, found, Option.bind_some, there]

theorem select_lost (linked : Both prev next nodes) (here : nodes[i]? = some p)
    (enough : nodes.length ≤ turns) (lost : goTo (nodes.map num) i want = none) :
    select num want (seek prev num want turns) (seek next num want turns) p =
      .error (if AtEdge (nodes.map num) i want then .null else .table) := by
  obtain ⟨inside, -⟩ := List.getElem?_eq_some_iff.mp here
  have edge : AtEdge (nodes.map num) i want ↔
      (want < num p ∧ i = 0) ∨ (num p < want ∧ i + 1 = nodes.length) := by
    simp only [AtEdge, number_at here, List.length_map, Option.mem_def, Option.some.injEq,
      exists_eq_left']
  rw [goTo, number_at here, Option.bind_some, ahead_map, back_map] at lost
  rw [select_eq]
  split at lost
  · rename_i less
    have not_more : ¬ num p < want := by omega
    rw [if_pos less, seek_prev linked here enough, lost]
    simp only [Option.bind_none, edge, less, not_more, true_and, false_and, or_false]
  · rename_i more
    have less : num p < want := by
      apply Nat.lt_of_le_of_ne (Nat.le_of_not_lt more)
      intro same
      obtain ⟨k, found⟩ : ∃ k, ahead (fun q => decide (num q = want)) nodes i = some k :=
        ahead_of here (Nat.le_refl i) (decide_eq_true same)
      rw [lost] at found
      cases found
    rw [if_neg more, seek_next linked here enough, lost]
    simp only [Option.bind_none, edge, less, more, true_and, false_and, false_or]

end Search

variable {ι κ : Type*} {nodes : TableNodes ι κ} {table : Table ι κ} {lines : List ι} {rows : List κ}

theorem firstLine_zero (turns : Nat) : nodes.firstLine turns 0 = nodes.otherLine turns 0 := by
  funext p
  unfold TableNodes.firstLine TableNodes.otherLine select
  by_cases here : 0 = nodes.lineNum p
  · simp only [here, if_true]
  · have more : 0 < nodes.lineNum p := Nat.pos_of_ne_zero (Ne.symm here)
    simp only [here, more, if_false, if_true]

/-- The lines and the rows of a table are two doubly linked lists. -/
structure TableLists (nodes : TableNodes ι κ) (table : Table ι κ) (lines : List ι)
    (rows : List κ) : Prop where
  lineHead : table.tableLinePtr = lines.head?
  rowHead : table.tableRowPtr = rows.head?
  lineLinks : Both nodes.linePrev nodes.lineNext lines
  rowLinks : Both nodes.rowPrev nodes.rowNext rows

/-- The numbers of the lines and of the rows, in the order of the lists. -/
def lineNums (nodes : TableNodes ι κ) (lines : List ι) : List Nat := lines.map nodes.lineNum

def rowNums (nodes : TableNodes ι κ) (rows : List κ) : List Nat := rows.map nodes.rowNum

end ExploreF407.Lcd
