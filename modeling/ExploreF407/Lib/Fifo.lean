import Mathlib

/-! # Bounded first-in first-out buffers

The buffer itself, and the law every such buffer obeys over its whole life: what
has gone in is what has come out followed by what is still inside.
-/

/-- A queue that never holds more than `n` items. -/
structure BoundedFifo (n : Nat) (α : Type*) where
  items : List α
  bounded : items.length ≤ n

namespace BoundedFifo

variable {n : Nat} {α : Type*}

def empty : BoundedFifo n α := ⟨[], Nat.zero_le n⟩

def push (q : BoundedFifo n α) (x : α) (room : q.items.length < n) : BoundedFifo n α :=
  ⟨q.items ++ [x], by rw [List.length_append]; exact room⟩

def tail (q : BoundedFifo n α) : BoundedFifo n α :=
  ⟨q.items.tail, by rw [List.length_tail]; exact Nat.le_trans (Nat.sub_le _ 1) q.bounded⟩

@[simp] theorem push_items (q : BoundedFifo n α) (x : α) (room : q.items.length < n) :
    (q.push x room).items = q.items ++ [x] := rfl

end BoundedFifo

/-- `InOrder ins items outs`: of everything that went in, `outs` has come out in
    the order of arrival and `items` is still inside. -/
def InOrder {α : Type*} (ins items outs : List α) : Prop := ins = outs ++ items

namespace InOrder

variable {α : Type*} {ins items outs : List α}

theorem none : InOrder ([] : List α) [] [] := rfl

theorem enter (h : InOrder ins items outs) (x : α) : InOrder (ins ++ [x]) (items ++ [x]) outs := by
  rw [InOrder, h, List.append_assoc]

theorem leave {x : α} (h : InOrder ins (x :: items) outs) : InOrder ins items (outs ++ [x]) := by
  rw [InOrder, h, List.append_assoc, List.singleton_append]

/-- An item may go straight through when nothing waits before it. -/
theorem pass (h : InOrder ins [] outs) (x : α) : InOrder (ins ++ [x]) [] (outs ++ [x]) :=
  leave (enter h x)

theorem outs_prefix (h : InOrder ins items outs) : outs <+: ins := ⟨items, h.symm⟩

theorem outs_nodup (h : InOrder ins items outs) (once : ins.Nodup) : outs.Nodup :=
  once.sublist h.outs_prefix.sublist

end InOrder
