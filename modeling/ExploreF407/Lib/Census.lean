import Mathlib

/-! # Counting over a family of threads

`census w pc` adds up a weight over all threads. A thread that changes its place
changes the sum by the difference of the two weights, stated additively so that
it holds for natural numbers too.
-/

variable {τ κ M : Type*} [Fintype τ] [DecidableEq τ] [AddCommMonoid M]

omit [Fintype τ] in
theorem stands_still {pc : τ → κ} {t u : τ} {p p' : κ} (stood : pc t = p) (other : pc u = p')
    (apart : p ≠ p') (q : κ) : Function.update pc t q u = p' := by
  have ne : u ≠ t := by
    intro same
    rw [same, stood] at other
    exact apart other
  rw [Function.update_of_ne ne, other]

def census (w : κ → M) (pc : τ → κ) : M := ∑ t, w (pc t)

theorem census_goes (w : κ → M) {pc : τ → κ} {t : τ} {p : κ} (stood : pc t = p) (q : κ) :
    census w (Function.update pc t q) + w p = census w pc + w q := by
  have moved : ∑ i ∈ Finset.univ.erase t, w (Function.update pc t q i) =
      ∑ i ∈ Finset.univ.erase t, w (pc i) := by
    apply Finset.sum_congr rfl
    intro i member
    rw [Function.update_of_ne (Finset.ne_of_mem_erase member)]
  have after := Finset.add_sum_erase Finset.univ (fun i => w (Function.update pc t q i))
    (Finset.mem_univ t)
  have before := Finset.add_sum_erase Finset.univ (fun i => w (pc i)) (Finset.mem_univ t)
  simp only [Function.update_self, moved] at after
  simp only [stood] at before
  simp only [census, ← after, ← before]
  rw [add_right_comm, add_comm (w q) (w p), add_right_comm]

theorem census_both_go (w : κ → M) {pc : τ → κ} {t u : τ} {p p' : κ} (stood : pc t = p)
    (other : pc u = p') (apart : p ≠ p') (q q' : κ) :
    census w (Function.update (Function.update pc t q) u q') + (w p' + w p) =
      census w pc + (w q + w q') := by
  rw [← add_assoc, census_goes w (stands_still stood other apart q) q', add_right_comm,
    census_goes w stood q, add_assoc]

omit [DecidableEq τ] in
theorem census_eq_zero {w : κ → M} {pc : τ → κ} (none : ∀ t, w (pc t) = 0) :
    census w pc = 0 :=
  Finset.sum_eq_zero fun t _ => none t
