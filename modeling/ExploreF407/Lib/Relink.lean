import ExploreF407.Lib.Linked

/-! # Changing the links of a list

A store to one link leaves every list alone that does not contain the node. The
other lemmas say which list there is after the store: behind a new first node,
or with the end of one list led on to another.
-/

namespace Linked

variable {ι : Type*} {link link' : ι → Option ι} {pointer pointer' : Option ι}
  {nodes left right : List ι} {p q : ι}

theorem Points.head (chain : Points link pointer nodes) : pointer = nodes.head? := by
  cases nodes with
  | nil => exact chain
  | cons p rest => exact chain.1

theorem Points.frame (chain : Points link pointer nodes) (same : ∀ p ∈ nodes, link' p = link p) :
    Points link' pointer nodes := by
  induction nodes generalizing pointer with
  | nil => exact chain
  | cons p rest ih =>
      obtain ⟨here, chain⟩ := chain
      refine ⟨here, ?_⟩
      simp only [same p (List.mem_cons_self ..)]
      exact ih chain fun q member => same q (List.mem_cons_of_mem p member)

/-- The pointer determines the list. -/
theorem Points.unique (chain : Points link pointer left) (chain' : Points link pointer right) :
    left = right := by
  induction left generalizing pointer right with
  | nil =>
      cases right with
      | nil => rfl
      | cons q right => cases chain.symm.trans chain'.1
  | cons p left ih =>
      cases right with
      | nil => cases chain.1.symm.trans chain'
      | cons q right =>
          cases chain.1.symm.trans chain'.1
          simp only [ih chain.2 chain'.2]

theorem Points.behind (chain : Points link pointer (left ++ p :: right)) :
    Points link (link p) right := by
  induction left generalizing pointer with
  | nil => exact chain.2
  | cons q left ih => exact ih chain.2

theorem Points.nodup (chain : Points link pointer nodes) : nodes.Nodup := by
  induction nodes generalizing pointer with
  | nil => exact List.nodup_nil
  | cons p rest ih =>
      refine List.nodup_cons.mpr ⟨?_, ih chain.2⟩
      intro member
      obtain ⟨left, right, rfl⟩ := List.append_of_mem member
      have whole : Points link pointer ((p :: left) ++ p :: right) := chain
      have same := chain.2.unique whole.behind
      have lengths := congrArg List.length same
      simp only [List.length_append, List.length_cons] at lengths
      omega

/-! ## Looking along a link -/

/-- Follow the link up to the first node with `stop`; the walk ends with `none` at a null pointer.
    There is no result when `fuel` rounds do not suffice. -/
def seek (link : ι → Option ι) (stop : ι → Bool) : Nat → Option ι → Option (Option ι)
  | 0, _ => none
  | _ + 1, none => some none
  | fuel + 1, some p => if stop p then some (some p) else seek link stop fuel (link p)

theorem Points.seek_eq (chain : Points link pointer nodes) (stop : ι → Bool) {fuel : Nat}
    (enough : nodes.length < fuel) : seek link stop fuel pointer = some (nodes.find? stop) := by
  induction nodes generalizing pointer fuel with
  | nil =>
      obtain ⟨fuel, rfl⟩ := Nat.exists_eq_add_of_lt enough
      cases chain
      simp [seek]
  | cons p rest ih =>
      obtain ⟨fuel, rfl⟩ : ∃ n, fuel = n + 1 := ⟨fuel - 1, by omega⟩
      obtain ⟨rfl, chain⟩ := chain
      simp only [List.length_cons, Nat.add_lt_add_iff_right] at enough
      cases stops : stop p with
      | true => simp [seek, stops]
      | false => simp [seek, stops, ih chain enough]

section Store

variable [DecidableEq ι]

theorem Points.elsewhere {x : Option ι} (chain : Points link pointer nodes) (fresh : p ∉ nodes) :
    Points (Function.update link p x) pointer nodes := by
  apply chain.frame
  intro q member
  have other : q ≠ p := by
    rintro rfl
    exact fresh member
  exact Function.update_of_ne other x link

theorem Points.push (chain : Points link pointer nodes) (fresh : p ∉ nodes) :
    Points (Function.update link p pointer) (some p) (p :: nodes) := by
  refine ⟨rfl, ?_⟩
  simp only [Function.update_self]
  exact chain.elsewhere fresh

theorem Points.join (front : Points link pointer (left ++ [p])) (back : Points link pointer' right)
    (apart : ∀ q ∈ left ++ [p], q ∉ right) :
    Points (Function.update link p pointer') pointer (left ++ p :: right) := by
  induction left generalizing pointer with
  | nil =>
      refine ⟨front.1, ?_⟩
      simp only [Function.update_self]
      exact back.elsewhere (apart p (List.mem_cons_self ..))
  | cons q left ih =>
      have other : q ≠ p := by
        rintro rfl
        exact (List.nodup_cons.mp front.nodup).1 (List.mem_append_right left List.mem_cons_self)
      refine ⟨front.1, ?_⟩
      simp only [Function.update_of_ne other]
      exact ih front.2 fun q member => apart q (List.mem_cons_of_mem _ member)

theorem Points.skip {q : ι} (chain : Points link pointer (left ++ q :: p :: right)) :
    Points (Function.update link q (link p)) pointer (left ++ q :: right) := by
  induction left generalizing pointer with
  | nil =>
      have once := List.nodup_cons.mp chain.nodup
      obtain ⟨here, next, rest⟩ := chain
      refine ⟨here, ?_⟩
      simp only [Function.update_self]
      exact rest.elsewhere fun member => once.1 (List.mem_cons_of_mem p member)
  | cons r left ih =>
      have other : r ≠ q := by
        rintro rfl
        exact (List.nodup_cons.mp chain.nodup).1 (List.mem_append_right left List.mem_cons_self)
      refine ⟨chain.1, ?_⟩
      simp only [Function.update_of_ne other]
      exact ih chain.2

end Store

end Linked
