import ExploreF407.Lib.Ring

/-! # Bytes in a ring of chunks

A ring of `n` chunks of `B` cells holds a stream from the chunk `base` on: position `i` of
the stream is cell `i % B` of the chunk `i / B` links further on. As long as the stream is
no longer than the ring, writing its next cells keeps those before.
-/

namespace Chunks

open Ring

variable {n B : Nat} [NeZero n] {κ : Type*} {base : Fin n} {mem mem' : Fin n → Nat → κ}
  {done xs : List κ} {i j k off r t : Nat}

theorem position (inside : r < B) : (j * B + r) / B = j ∧ (j * B + r) % B = r := by
  rw [Nat.mul_comm]
  constructor
  · rw [Nat.mul_add_div (by omega), Nat.div_eq_of_lt inside, Nat.add_zero]
  · rw [Nat.mul_add_mod, Nat.mod_eq_of_lt inside]

theorem exists_position (positive : 0 < B) (i : Nat) : ∃ j r, r < B ∧ i = j * B + r :=
  ⟨i / B, i % B, Nat.mod_lt i positive, (Nat.div_add_mod' i B).symm⟩

theorem chunk_le (before : k * B + r < j * B + off) (fits : off ≤ B) :
    k < j ∨ k = j ∧ r < off := by
  rcases Nat.lt_trichotomy k j with earlier | rfl | later
  · exact .inl earlier
  · exact .inr ⟨rfl, by omega⟩
  · have := Nat.mul_le_mul_right B later
    rw [Nat.succ_mul] at this
    omega

theorem after_inj {a b : Nat} (left : a < n) (right : b < n)
    (same : after base a = after base b) : a = b := by
  have := slot_inj (a := base.val) (n := n) (by omega) (by omega) (by omega) (by omega) same
  omega

/-- The stream lies in the ring. -/
def Holds (B : Nat) (mem : Fin n → Nat → κ) (base : Fin n) (done : List κ) : Prop :=
  ∀ i x, done[i]? = some x → mem (after base (i / B)) (i % B) = x

theorem Holds.nil : Holds B mem base [] := by
  intro i x at'
  cases at'

/-- Cells written behind the end of the stream, within a chunk, while the ring has room. -/
theorem Holds.append (holds : Holds B mem base done) (positive : 0 < B)
    (end' : done.length = j * B + off) (inside : off + xs.length ≤ B)
    (room : done.length + xs.length ≤ n * B)
    (new : ∀ k x, xs[k]? = some x → mem' (after base j) (off + k) = x)
    (same : ∀ d o, ¬ (d = after base j ∧ off ≤ o ∧ o < off + xs.length) → mem' d o = mem d o) :
    Holds B mem' base (done ++ xs) := by
  intro i x at'
  obtain ⟨k, r, small, rfl⟩ := exists_position positive i
  rcases Nat.lt_or_ge (k * B + r) done.length with before | behind
  · rw [List.getElem?_append_left before] at at'
    have kept := holds _ x at'
    obtain ⟨chunk, cell⟩ := position (j := k) small
    rw [chunk, cell] at kept ⊢
    rw [← kept]
    apply same
    rintro ⟨cells, low, high⟩
    rcases chunk_le (end' ▸ before) (by omega) with earlier | ⟨rfl, below⟩
    · -- Where something is written, chunk `j` is one of the `n`.
      have small : j < n := by
        by_contra large
        have := Nat.mul_le_mul_right B (Nat.le_of_not_lt large)
        omega
      have := after_inj (earlier.trans small) small cells
      omega
    · omega
  · rw [List.getElem?_append_right behind] at at'
    obtain ⟨below, -⟩ := List.getElem?_eq_some_iff.mp at'
    obtain ⟨d, here⟩ : ∃ d, k * B + r = j * B + (off + d) := ⟨k * B + r - done.length, by omega⟩
    obtain ⟨chunk, cell⟩ := position (j := j) (r := off + d) (B := B) (by omega)
    rw [here, chunk, cell]
    apply new
    rw [← at']
    congr 1
    omega

/-- The chunks one after the other, cut off where the stream ends. -/
theorem flatten (f : Nat → Nat → κ) (positive : 0 < B) (m : Nat) :
    (List.range m).flatMap (fun j => (List.range (min B (t - j * B))).map (f j)) =
      (List.range (min t (m * B))).map fun i => f (i / B) (i % B) := by
  induction m with
  | zero => simp
  | succ m ih =>
      have cells : (List.range (min B (t - m * B))).map (f m) =
          (List.range (min B (t - m * B))).map
            ((fun i => f (i / B) (i % B)) ∘ (m * B + ·)) := by
        apply List.map_congr_left
        intro r member
        obtain ⟨chunk, cell⟩ := position (j := m) (r := r) (B := B) (by grind)
        simp only [Function.comp_apply, chunk, cell]
      have more : min t ((m + 1) * B) = min t (m * B) + min B (t - m * B) := by
        rw [Nat.succ_mul]
        omega
      rw [List.range_succ, List.flatMap_append, ih, List.flatMap_singleton, more, List.range_add,
        List.map_append, List.map_map, cells]
      rcases Nat.le_total (m * B) t with long | short
      · rw [Nat.min_eq_right long]
      · simp [Nat.sub_eq_zero_of_le short]

end Chunks
