import Mathlib

/-! # A maximum that is kept while the samples come in -/

variable {α : Type*} [LinearOrder α] {start m : α} {S : Set α}

/-- `m` is the maximum of the samples `S`, where it begins at `start`. -/
structure Peak (start m : α) (S : Set α) : Prop where
  above : ∀ x ∈ S, start ≤ x ∧ x ≤ m
  reached : m = start ∨ m ∈ S

namespace Peak

theorem empty : Peak start start (∅ : Set α) where
  above := nofun
  reached := .inl rfl

/-- The update of a maximum by a comparison with the new sample. -/
theorem insert (peak : Peak start m S) {x : α} (le : start ≤ x) :
    Peak start (if x > m then x else m) (insert x S) where
  above := by
    intro y member
    rcases Set.mem_insert_iff.mp member with rfl | member
    · grind
    · grind [peak.above y member]
  reached := by
    split
    · exact .inr (Set.mem_insert x S)
    · rcases peak.reached with same | member
      · exact .inl same
      · exact .inr (Set.mem_insert_of_mem x member)

theorem isGreatest (peak : Peak start m S) {x : α} (member : x ∈ S) : IsGreatest S m := by
  constructor
  · rcases peak.reached with same | reached
    · have bounds := peak.above x member
      have only : x = m := le_antisymm bounds.2 (same ▸ bounds.1)
      exact only ▸ member
    · exact reached
  · intro y member
    exact (peak.above y member).2

end Peak
