import Mathlib

/-! # Lists in the order of urgency

The least key stands first, and among equal keys what has come first: a new
element goes behind all that are as urgent.
-/

namespace Urgency

variable {ι κ : Type*} [LinearOrder κ] {key : ι → κ} {x y : ι} {k : κ} {xs left right : List ι}

def enqueue (key : ι → κ) (x : ι) (xs : List ι) : List ι :=
  xs.orderedInsert (fun a b => key a < key b) x

/-- No element stands before a more urgent one. -/
def InOrder (key : ι → κ) (xs : List ι) : Prop := xs.Pairwise fun a b => key a ≤ key b

theorem enqueue_eq (key : ι → κ) (x : ι) (xs : List ι) :
    enqueue key x xs = xs.takeWhile (fun y => decide (key y ≤ key x)) ++
      x :: xs.dropWhile (fun y => decide (key y ≤ key x)) := by
  simp only [enqueue, List.orderedInsert_eq_take_drop, not_lt]

theorem enqueue_update [DecidableEq ι] (key : ι → κ) (k : κ) (fresh : x ∉ xs) :
    enqueue (Function.update key x k) x xs = xs.takeWhile (fun y => decide (key y ≤ k)) ++
      x :: xs.dropWhile (fun y => decide (key y ≤ k)) := by
  induction xs with
  | nil => rfl
  | cons y xs ih =>
      obtain ⟨other, fresh⟩ := not_or.mp (List.mem_cons.not.mp fresh)
      have here := Function.update_of_ne (Ne.symm other) k key
      have rest := ih fresh
      simp only [enqueue, List.orderedInsert_cons, here, Function.update_self] at rest ⊢
      by_cases less : k < key y
      · simp [less]
      · simp [less, not_lt.mp less, rest]

theorem enqueue_perm (key : ι → κ) (x : ι) (xs : List ι) : (enqueue key x xs).Perm (x :: xs) :=
  List.perm_orderedInsert _ x xs

@[simp] theorem mem_enqueue : y ∈ enqueue key x xs ↔ y = x ∨ y ∈ xs :=
  List.mem_orderedInsert _

theorem InOrder.enqueue (order : InOrder key xs) (x : ι) : InOrder key (enqueue key x xs) := by
  induction xs with
  | nil => simp [InOrder, Urgency.enqueue]
  | cons y xs ih =>
      obtain ⟨first, order⟩ := List.pairwise_cons.mp order
      have rest := ih order
      simp only [InOrder, Urgency.enqueue, List.orderedInsert_cons] at rest ⊢
      split
      · rename_i less
        refine List.pairwise_cons.mpr ⟨?_, List.pairwise_cons.mpr ⟨first, order⟩⟩
        intro z member
        rcases List.mem_cons.mp member with rfl | member
        · exact less.le
        · exact less.le.trans (first z member)
      · rename_i more
        refine List.pairwise_cons.mpr ⟨?_, rest⟩
        intro z member
        rcases (List.mem_orderedInsert _).mp member with rfl | member
        · exact not_lt.mp more
        · exact first z member

theorem InOrder.update [DecidableEq ι] (order : InOrder key xs) (outside : x ∉ xs) (k : κ) :
    InOrder (Function.update key x k) xs := by
  apply List.Pairwise.imp_of_mem _ order
  intro y z memberY memberZ le
  have other : ∀ w ∈ xs, w ≠ x := by
    rintro w member rfl
    exact outside member
  simpa only [Function.update_of_ne (other y memberY), Function.update_of_ne (other z memberZ)]

end Urgency
