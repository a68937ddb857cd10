import Mathlib

/-! # Frames in a stream of segments

A stream is the list of its segments' "last of its frame" flags. `frameOf wire k`
numbers the frame to which the segment at position `k` belongs: it counts the
frames that end before it.
-/

namespace Framing

variable {wire : List Bool}

def frameOf (wire : List Bool) (k : Nat) : Nat := (wire.take k).count true

/-- A frame starts at position `k`. -/
def Boundary (wire : List Bool) : Nat → Prop
  | 0 => True
  | k + 1 => wire[k]? = some true

/-- No frame ends in the positions from `a` up to `b`. -/
def Unbroken (wire : List Bool) (a b : Nat) : Prop := ∀ k, a ≤ k → k < b → wire[k]? = some false

theorem frameOf_succ {k : Nat} {last : Bool} (at' : wire[k]? = some last) :
    frameOf wire (k + 1) = frameOf wire k + if last then 1 else 0 := by
  rw [frameOf, frameOf, List.take_add_one, at', List.count_append]
  cases last <;> simp

theorem frameOf_mono {a b : Nat} (le : a ≤ b) : frameOf wire a ≤ frameOf wire b :=
  (List.take_sublist_take_left le).count_le true

theorem frameOf_append {k : Nat} (le : k ≤ wire.length) (last : Bool) :
    frameOf (wire ++ [last]) k = frameOf wire k := by
  rw [frameOf, List.take_append_of_le_length le, frameOf]

theorem Unbroken.frameOf_eq {a b : Nat} (unbroken : Unbroken wire a b) (le : a ≤ b) :
    frameOf wire b = frameOf wire a := by
  induction le with
  | refl => rfl
  | step le ih =>
      rw [frameOf_succ (unbroken _ le (Nat.lt_succ_self _))]
      exact ih fun k from' below => unbroken k from' (Nat.lt_succ_of_lt below)

theorem Boundary.frameOf_lt {g k : Nat} (boundary : Boundary wire g) (before : k < g) :
    frameOf wire k < frameOf wire g := by
  cases g with
  | zero => omega
  | succ g =>
      rw [frameOf_succ boundary]
      have le : frameOf wire k ≤ frameOf wire g := frameOf_mono (by omega)
      simp only [if_true]
      omega

theorem boundary_append {g : Nat} (le : g ≤ wire.length) (last : Bool) :
    Boundary (wire ++ [last]) g ↔ Boundary wire g := by
  cases g with
  | zero => exact Iff.rfl
  | succ g => rw [Boundary, Boundary, List.getElem?_append_left le]

theorem Unbroken.append {a b : Nat} (unbroken : Unbroken wire a b) (last : Bool) :
    Unbroken (wire ++ [last]) a b := by
  intro k from' below
  have here := unbroken k from' below
  obtain ⟨inside, -⟩ := List.getElem?_eq_some_iff.mp here
  rw [List.getElem?_append_left inside]
  exact here

theorem Unbroken.not_boundary {a b k : Nat} (unbroken : Unbroken wire a b) (after : a < k)
    (le : k ≤ b) : ¬ Boundary wire k := by
  obtain ⟨k, rfl⟩ : ∃ j, k = j + 1 := ⟨k - 1, by omega⟩
  rw [Boundary, unbroken k (by omega) (by omega)]
  simp

theorem Unbroken.snoc {a b : Nat} (unbroken : Unbroken wire a b) (here : wire[b]? = some false) :
    Unbroken wire a (b + 1) := by
  intro k from' below
  rcases Nat.lt_succ_iff_lt_or_eq.mp below with before | rfl
  · exact unbroken k from' before
  · exact here

/-! ## Pieces of a stream -/

variable {α β : Type*}

theorem length_flatMap_le {f g : β → List α} {xs : List β}
    (short : ∀ x ∈ xs, (f x).length ≤ (g x).length) :
    (xs.flatMap f).length ≤ (xs.flatMap g).length := by
  induction xs with
  | nil => exact Nat.le_refl _
  | cons x xs ih =>
      simp only [List.flatMap_cons, List.length_append]
      apply Nat.add_le_add (short x (by simp))
      apply ih fun y member => short y (List.mem_cons_of_mem x member)

/-- Pieces no longer than the originals make up the same stream only if each is its
    original. -/
theorem flatMap_eq_iff {f g : β → List α} {xs : List β}
    (short : ∀ x ∈ xs, (f x).length ≤ (g x).length) :
    xs.flatMap f = xs.flatMap g ↔ ∀ x ∈ xs, f x = g x := by
  constructor
  · intro same
    induction xs with
    | nil => simp
    | cons x xs ih =>
        have here := short x (by simp)
        have later := fun y member => short y (List.mem_cons_of_mem x member)
        have rest := length_flatMap_le later
        have total := congrArg List.length same
        simp only [List.flatMap_cons, List.length_append] at total
        simp only [List.flatMap_cons] at same
        obtain ⟨same, sames⟩ := List.append_inj same (by omega)
        intro y member
        rcases List.mem_cons.mp member with rfl | member
        · exact same
        · exact ih later sames y member
  · intro each
    exact List.flatMap_congr each

end Framing
