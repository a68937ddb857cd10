import Mathlib

/-! # Doubly linked lists in memory

A link is a function from nodes to nodes, `none` where the pointer is null. The nodes of a
list are given in order; a search along the links of one direction is a search in a part of
that list.
-/

namespace Linked

variable {ι : Type*}

/-- From the pointer the link leads through these nodes, and then there is none. -/
def Points (link : ι → Option ι) : Option ι → List ι → Prop
  | pointer, [] => pointer = none
  | pointer, p :: rest => pointer = some p ∧ Points link (link p) rest

/-- `nodes` are linked in both directions, behind the node `before`. -/
def Behind (prev next : ι → Option ι) : Option ι → List ι → Prop
  | _, [] => True
  | before, p :: rest =>
      prev p = before ∧ next p = rest.head? ∧ Behind prev next (some p) rest

/-- `nodes` are a doubly linked list that begins and ends with a null pointer. -/
def Both (prev next : ι → Option ι) (nodes : List ι) : Prop := Behind prev next none nodes

variable {prev next : ι → Option ι} {before : Option ι} {nodes done : List ι} {p : ι}

theorem Behind.points_next (linked : Behind prev next before nodes) :
    Points next nodes.head? nodes := by
  induction nodes generalizing before with
  | nil => rfl
  | cons p rest ih =>
      obtain ⟨-, forth, linked⟩ := linked
      refine ⟨rfl, ?_⟩
      rw [forth]
      exact ih linked

theorem Behind.drop {left right : List ι} (linked : Behind prev next before (left ++ right)) :
    ∃ before, Behind prev next before right := by
  induction left generalizing before with
  | nil => exact ⟨before, linked⟩
  | cons p left ih => exact ih linked.2.2

theorem Behind.points_prev {left right : List ι}
    (linked : Behind prev next before (left ++ p :: right)) (back : Points prev before done) :
    Points prev (prev p) (left.reverse ++ done) := by
  induction left generalizing before done with
  | nil =>
      rw [linked.1]
      exact back
  | cons q left ih =>
      obtain ⟨here, -, linked⟩ := linked
      rw [List.reverse_cons, List.append_assoc]
      apply ih linked
      refine ⟨rfl, ?_⟩
      rw [here]
      exact back

theorem split_at {i : Nat} (here : nodes[i]? = some p) :
    nodes = nodes.take i ++ p :: nodes.drop (i + 1) := by
  obtain ⟨inside, rfl⟩ := List.getElem?_eq_some_iff.mp here
  rw [← List.drop_eq_getElem_cons inside, List.take_append_drop]

theorem Both.points_next (linked : Both prev next nodes) {i : Nat} (here : nodes[i]? = some p) :
    Points next (next p) (nodes.drop (i + 1)) := by
  unfold Both at linked
  rw [split_at here] at linked
  obtain ⟨_, -, forth, rest⟩ := linked.drop
  rw [forth]
  exact rest.points_next

/-- What lies before the node at position `i`, from the nearest on. -/
theorem Both.points_prev (linked : Both prev next nodes) {i : Nat} (here : nodes[i]? = some p) :
    Points prev (prev p) (nodes.take i).reverse := by
  unfold Both at linked
  rw [split_at here] at linked
  have back : Points prev (prev p) ((nodes.take i).reverse ++ []) := linked.points_prev rfl
  rwa [List.append_nil] at back

theorem Both.prev_head (linked : Both prev next nodes) (here : nodes.head? = some p) :
    prev p = none := by
  cases nodes with
  | nil => cases here
  | cons q rest =>
      cases here
      exact linked.1

/-! ## Nodes between two others -/

/-- `nodes` are linked in both directions, behind the node `before` and in front of the node
    `after`. -/
def Between (prev next : ι → Option ι) : Option ι → List ι → Option ι → Prop
  | _, [], _ => True
  | before, p :: rest, after =>
      prev p = before ∧ next p = rest.head?.or after ∧ Between prev next (some p) rest after

variable {after : Option ι}

theorem between_none :
    Between prev next before nodes none ↔ Behind prev next before nodes := by
  induction nodes generalizing before with
  | nil => exact Iff.rfl
  | cons p rest ih => simp only [Between, Behind, Option.or_none, ih]

/-- The link of a node leads to the one behind it, that of the last node to `after`. -/
theorem Between.next_at (linked : Between prev next before nodes after) {i : Nat}
    (here : nodes[i]? = some p) : next p = nodes[i + 1]?.or after := by
  induction nodes generalizing before i with
  | nil => cases here
  | cons q rest ih =>
      obtain ⟨-, forth, linked⟩ := linked
      cases i with
      | zero =>
          cases here
          rw [forth, List.head?_eq_getElem?, List.getElem?_cons_succ]
      | succ i => exact ih linked here

/-- Nodes in front of another one are no list of their own: nothing ends it. -/
theorem Between.not_both (linked : Between prev next before nodes after) (some' : nodes ≠ [])
    (more : after ≠ none) : ¬ Both prev next nodes := by
  intro both
  have positive := List.length_pos_iff.mpr some'
  have last := List.getElem?_eq_getElem (Nat.sub_lt positive Nat.one_pos)
  have behind : nodes[nodes.length - 1 + 1]? = none := by
    rw [Nat.sub_add_cancel positive]
    exact List.getElem?_eq_none (Nat.le_refl _)
  have ends := (between_none.mpr both).next_at last
  have goes := linked.next_at last
  rw [behind, Option.none_or] at ends goes
  exact more (goes.symm.trans ends)

theorem between_range {prev next : Nat → Option Nat} {after : Option Nat} (n : Nat)
    (prev_eq : ∀ k < n, prev k = if k = 0 then none else some (k - 1))
    (next_eq : ∀ k < n, next k = if k + 1 < n then some (k + 1) else after) :
    Between prev next none (List.range n) after := by
  have part : ∀ m k, k + m = n →
      Between prev next (if k = 0 then none else some (k - 1)) (List.range' k m) after := by
    intro m
    induction m with
    | zero => intro k _; trivial
    | succ m ih =>
        intro k total
        refine ⟨prev_eq k (by omega), ?_, ?_⟩
        · have next := next_eq k (by omega)
          cases m with
          | zero => rwa [if_neg (by omega)] at next
          | succ m => rwa [if_pos (by omega)] at next
        · have rest := ih (k + 1) (by omega)
          simpa using rest
  have whole := part n 0 (Nat.zero_add n)
  rwa [← List.range_eq_range'] at whole

theorem both_range {prev next : Nat → Option Nat} (n : Nat)
    (prev_eq : ∀ k < n, prev k = if k = 0 then none else some (k - 1))
    (next_eq : ∀ k < n, next k = if k + 1 < n then some (k + 1) else none) :
    Both prev next (List.range n) :=
  between_none.mp (between_range n prev_eq next_eq)

/-- Where a walker along the links is after `n` moves. -/
def walk (link : ι → Option ι) (p : ι) : Nat → Option ι
  | 0 => some p
  | n + 1 => (walk link p n).bind link

/-- A walker from the first node comes to each node in turn, and then to what is behind them. -/
theorem Between.walk_eq (linked : Between prev next before nodes after)
    (first : nodes.head? = some p) {n : Nat} (inside : n ≤ nodes.length) :
    walk next p n = nodes[n]?.or after := by
  induction n with
  | zero =>
      rw [List.head?_eq_getElem?] at first
      rw [walk, first, Option.some_or]
  | succ n ih =>
      have here := List.getElem?_eq_getElem (Nat.lt_of_succ_le inside)
      rw [walk, ih (Nat.le_of_succ_le inside), here, Option.some_or, Option.bind_some]
      exact linked.next_at here

/-! ## The nearest element -/

section Nearest

variable {α : Type*} (P : α → Bool) (xs : List α)

/-- The position of the nearest element with `P`, from position `i` on. -/
def ahead (i : Nat) : Option Nat := ((xs.drop i).findIdx? P).map (i + ·)

/-- The position of the nearest element with `P`, from position `i` back. -/
def back (i : Nat) : Option Nat := ((xs.take (i + 1)).reverse.findIdx? P).map (i - ·)

variable {P xs} {i k : Nat}

theorem find?_drop : (xs.drop i).find? P = (ahead P xs i).bind (xs[·]?) := by
  simp only [List.find?_eq_bind_findIdx?_getElem?, ahead, Option.bind_map, Function.comp_def,
    List.getElem?_drop]

theorem getElem?_take_reverse (inside : i < xs.length) {j : Nat} (before : j ≤ i) :
    (xs.take (i + 1)).reverse[j]? = xs[i - j]? := by
  have length : (xs.take (i + 1)).length = i + 1 := by
    rw [List.length_take]
    omega
  have last : i + 1 - 1 - j = i - j := by omega
  rw [List.getElem?_reverse (by omega), length, last, List.getElem?_take_of_lt (by omega)]

theorem find?_take_reverse (inside : i < xs.length) :
    (xs.take (i + 1)).reverse.find? P = (back P xs i).bind (xs[·]?) := by
  simp only [List.find?_eq_bind_findIdx?_getElem?, back, Option.bind_map, Function.comp_def]
  cases found : (xs.take (i + 1)).reverse.findIdx? P with
  | none => rfl
  | some j =>
      obtain ⟨there, -⟩ := List.findIdx?_eq_some_iff_getElem.mp found
      rw [List.length_reverse, List.length_take] at there
      exact getElem?_take_reverse inside (by omega)

theorem ahead_map {β : Type*} (f : β → α) (ys : List β) :
    ahead P (ys.map f) i = ahead (fun y => P (f y)) ys i := by
  simp only [ahead, ← List.map_drop, List.findIdx?_map, Function.comp_def]

theorem back_map {β : Type*} (f : β → α) (ys : List β) :
    back P (ys.map f) i = back (fun y => P (f y)) ys i := by
  simp only [back, ← List.map_take, ← List.map_reverse, List.findIdx?_map, Function.comp_def]

theorem of_ahead (found : ahead P xs i = some k) : ∃ x, xs[k]? = some x ∧ P x := by
  obtain ⟨j, at', rfl⟩ := Option.map_eq_some_iff.mp found
  obtain ⟨inside, here, -⟩ := List.findIdx?_eq_some_iff_getElem.mp at'
  rw [List.getElem_drop] at here
  rw [List.length_drop] at inside
  exact ⟨_, List.getElem?_eq_getElem (by omega), here⟩

theorem of_back (inside : i < xs.length) (found : back P xs i = some k) :
    ∃ x, xs[k]? = some x ∧ P x := by
  obtain ⟨j, at', rfl⟩ := Option.map_eq_some_iff.mp found
  obtain ⟨below, here, -⟩ := List.findIdx?_eq_some_iff_getElem.mp at'
  have same := List.getElem?_eq_getElem below
  rw [List.length_reverse, List.length_take] at below
  rw [getElem?_take_reverse inside (by omega)] at same
  exact ⟨_, same, here⟩

theorem ahead_of {m : Nat} {x : α} (there : xs[m]? = some x) (order : i ≤ m) (here : P x) :
    ∃ k, ahead P xs i = some k := by
  have member : x ∈ xs.drop i := by
    apply List.mem_iff_getElem?.mpr
    refine ⟨m - i, ?_⟩
    rw [List.getElem?_drop, Nat.add_sub_cancel' order]
    exact there
  obtain ⟨j, found⟩ : ∃ j, (xs.drop i).findIdx? P = some j :=
    ⟨_, List.findIdx?_eq_some_of_exists ⟨x, member, here⟩⟩
  exact ⟨i + j, by rw [ahead, found]; rfl⟩

theorem back_of {m : Nat} {x : α} (there : xs[m]? = some x) (order : m ≤ i) (here : P x) :
    ∃ k, back P xs i = some k := by
  have member : x ∈ (xs.take (i + 1)).reverse := by
    apply List.mem_reverse.mpr
    apply List.mem_iff_getElem?.mpr
    refine ⟨m, ?_⟩
    rw [List.getElem?_take_of_lt (by omega)]
    exact there
  obtain ⟨j, found⟩ : ∃ j, (xs.take (i + 1)).reverse.findIdx? P = some j :=
    ⟨_, List.findIdx?_eq_some_of_exists ⟨x, member, here⟩⟩
  exact ⟨i - j, by rw [back, found]; rfl⟩

end Nearest

/-! ## A cursor that looks for numbers -/

section Cursor

variable {α : Type*} [LinearOrder α] (nums : List α)

/-- The position of the nearest `want`, looked for from position `i` back where it is smaller
    than the number there, and onwards otherwise. -/
def goTo (i : Nat) (want : α) : Option Nat :=
  (nums[i]?).bind fun num =>
    if want < num then back (fun x => decide (x = want)) nums i
    else ahead (fun x => decide (x = want)) nums i

/-- Position `i` is the last one in the direction in which `want` is looked for. -/
def AtEdge (i : Nat) (want : α) : Prop :=
  ∃ num ∈ nums[i]?, (want < num ∧ i = 0) ∨ (num < want ∧ i + 1 = nums.length)

instance decidableAtEdge (i : Nat) (want : α) : Decidable (AtEdge nums i want) :=
  match here : nums[i]? with
  | none => .isFalse (by simp [AtEdge, here])
  | some num =>
      decidable_of_iff ((want < num ∧ i = 0) ∨ (num < want ∧ i + 1 = nums.length))
        (by simp [AtEdge, here])

/-- Where a cursor stands that began at the first position, after it has looked for
    `want 0`, …, `want (n - 1)`. -/
def trail (want : Nat → α) : Nat → Option Nat
  | 0 => some 0
  | n + 1 => (trail want n).bind fun i => goTo nums i (want n)

variable {nums} {i k n : Nat} {want : α}

theorem of_goTo (found : goTo nums i want = some k) : nums[k]? = some want := by
  obtain ⟨num, here, found⟩ := Option.bind_eq_some_iff.mp found
  obtain ⟨inside, -⟩ := List.getElem?_eq_some_iff.mp here
  split at found
  · obtain ⟨x, there, same⟩ := of_back inside found
    rw [there, of_decide_eq_true same]
  · obtain ⟨x, there, same⟩ := of_ahead found
    rw [there, of_decide_eq_true same]

theorem AtEdge.lost (edge : AtEdge nums i want) : goTo nums i want = none := by
  obtain ⟨num, here, edge⟩ := edge
  by_contra found
  obtain ⟨k, found⟩ := Option.ne_none_iff_exists'.mp found
  have there := of_goTo found
  have same : k = i := by
    obtain ⟨inside, -⟩ := List.getElem?_eq_some_iff.mp there
    rw [goTo, here, Option.bind_some] at found
    rcases edge with ⟨less, first⟩ | ⟨more, last⟩
    · rw [if_pos less] at found
      obtain ⟨m, -, rfl⟩ := Option.map_eq_some_iff.mp found
      omega
    · rw [if_neg more.not_gt] at found
      obtain ⟨m, -, rfl⟩ := Option.map_eq_some_iff.mp found
      omega
  rw [same, here] at there
  cases there
  rcases edge with ⟨less, -⟩ | ⟨more, -⟩
  · exact lt_irrefl _ less
  · exact lt_irrefl _ more

theorem goTo_range {i want : Nat} (from' : i < n) (below : want < n) :
    goTo (List.range n) i want = some want := by
  have there : (List.range n)[want]? = some want := List.getElem?_range below
  obtain ⟨k, found⟩ : ∃ k, goTo (List.range n) i want = some k := by
    unfold goTo
    rw [List.getElem?_range from', Option.bind_some]
    split
    · rename_i less
      exact back_of there less.le (decide_eq_true rfl)
    · rename_i more
      exact ahead_of there (Nat.le_of_not_lt more) (decide_eq_true rfl)
  have at' := of_goTo found
  obtain ⟨inside, same⟩ := List.getElem?_eq_some_iff.mp at'
  rw [List.getElem_range] at same
  rw [found, same]

theorem head_of_goTo_zero {nums : List Nat} (first : goTo nums 0 0 = some k) :
    nums[0]? = some 0 := by
  obtain ⟨num, here, -⟩ := Option.bind_eq_some_iff.mp first
  cases num with
  | zero => exact here
  | succ num =>
      have edge : AtEdge nums 0 0 := ⟨num + 1, here, .inl ⟨Nat.succ_pos num, rfl⟩⟩
      rw [edge.lost] at first
      cases first

theorem goTo_zero {nums : List Nat} (first : goTo nums 0 0 = some k) (inside : i < nums.length) :
    ∃ m, goTo nums i 0 = some m := by
  have at' := List.getElem?_eq_getElem inside
  unfold goTo
  rw [at', Option.bind_some]
  split
  · exact back_of (head_of_goTo_zero first) (Nat.zero_le i) (decide_eq_true rfl)
  · rename_i least
    exact ahead_of at' (Nat.le_refl i) (decide_eq_true (Nat.eq_zero_of_not_pos least))

theorem of_trail {want : Nat → α} (found : trail nums want (n + 1) = some k) :
    nums[k]? = some (want n) := by
  obtain ⟨i, -, found⟩ := Option.bind_eq_some_iff.mp found
  exact of_goTo found

theorem trail_range {want : Nat → Nat} (some' : 0 < k) (below : ∀ m ≤ n, want m < k) :
    trail (List.range k) want (n + 1) = some (want n) := by
  induction n with
  | zero => exact goTo_range some' (below 0 (Nat.le_refl 0))
  | succ n ih =>
      rw [trail, ih fun m before => below m (Nat.le_succ_of_le before), Option.bind_some]
      exact goTo_range (below n (Nat.le_succ n)) (below (n + 1) (Nat.le_refl _))

theorem trail_before {want : Nat → α} (found : trail nums want n = some k) {m : Nat}
    (before : m ≤ n) : ∃ i, trail nums want m = some i := by
  induction n, before using Nat.le_induction generalizing k with
  | base => exact ⟨k, found⟩
  | succ n _ ih =>
      obtain ⟨i, found, -⟩ := Option.bind_eq_some_iff.mp found
      exact ih found

theorem trail_inside {want : Nat → α} (some' : nums ≠ []) (found : trail nums want n = some k) :
    k < nums.length := by
  cases n with
  | zero =>
      cases found
      exact List.length_pos_iff.mpr some'
  | succ n => exact (List.getElem?_eq_some_iff.mp (of_trail found)).1

end Cursor

end Linked
