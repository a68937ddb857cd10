import Mathlib

/-! # Blocks that are shared out among lists

Every block is in exactly one list, and there only once. Whatever moves blocks
from one list to another keeps this, and the lengths add up to the number of
blocks.
-/

variable {ι κ : Type*}

/-- The lists `part` share out the blocks. -/
structure Shares (blocks : Finset ι) (part : κ → List ι) : Prop where
  nodup : ∀ c, (part c).Nodup
  apart : ∀ c d b, b ∈ part c → b ∈ part d → c = d
  whole : ∀ b, b ∈ blocks ↔ ∃ c, b ∈ part c

namespace Shares

variable {blocks : Finset ι} {part part' : κ → List ι} {c d : κ}

theorem init [DecidableEq κ] {all : List ι} (once : all.Nodup) (each : ∀ b, b ∈ blocks ↔ b ∈ all) :
    Shares blocks fun e => if e = c then all else [] where
  nodup := by
    intro e
    split
    · exact once
    · exact List.nodup_nil
  apart := by
    intro e f b inE inF
    grind
  whole := by
    intro b
    simp only [each]
    constructor
    · intro member
      exact ⟨c, by simpa using member⟩
    · rintro ⟨e, member⟩
      grind

/-- Blocks move between two lists: together these hold the same blocks as before. -/
theorem move (shares : Shares blocks part) (other : c ≠ d)
    (moved : (part' c ++ part' d).Perm (part c ++ part d))
    (rest : ∀ e, e ≠ c → e ≠ d → part' e = part e) : Shares blocks part' := by
  have together : ∀ b, b ∈ part' c ∨ b ∈ part' d ↔ b ∈ part c ∨ b ∈ part d := by
    intro b
    simpa using moved.mem_iff (a := b)
  have once : (part' c ++ part' d).Nodup := by
    refine moved.nodup_iff.mpr (List.nodup_append'.mpr ⟨shares.nodup c, shares.nodup d, ?_⟩)
    intro b inC inD
    exact other (shares.apart c d b inC inD)
  obtain ⟨onceC, onceD, apartCD⟩ := List.nodup_append'.mp once
  -- a block of `c` or `d` has been in `c` or `d`
  have inside : ∀ e b, b ∈ part' e → e = c ∨ e = d ∨ (b ∈ part e ∧ b ∉ part c ∧ b ∉ part d) := by
    intro e b member
    by_cases atC : e = c
    · exact .inl atC
    · by_cases atD : e = d
      · exact .inr (.inl atD)
      · simp only [rest e atC atD] at member
        refine .inr (.inr ⟨member, ?_, ?_⟩)
        · intro inC
          exact atC (shares.apart e c b member inC)
        · intro inD
          exact atD (shares.apart e d b member inD)
  refine { nodup := ?_, apart := ?_, whole := ?_ }
  · intro e
    by_cases atC : e = c
    · exact atC ▸ onceC
    · by_cases atD : e = d
      · exact atD ▸ onceD
      · simp only [rest e atC atD]
        exact shares.nodup e
  · intro e f b inE inF
    have both := together b
    have := apartCD (a := b)
    have same := shares.apart e f b
    rcases inside e b inE with rfl | rfl | before <;> rcases inside f b inF with rfl | rfl | after <;>
      grind
  · intro b
    simp only [shares.whole b]
    constructor
    · rintro ⟨e, member⟩
      by_cases atC : e = c
      · rcases (together b).mpr (.inl (atC ▸ member)) with inC | inD
        · exact ⟨c, inC⟩
        · exact ⟨d, inD⟩
      · by_cases atD : e = d
        · rcases (together b).mpr (.inr (atD ▸ member)) with inC | inD
          · exact ⟨c, inC⟩
          · exact ⟨d, inD⟩
        · exact ⟨e, by simpa only [rest e atC atD] using member⟩
    · rintro ⟨e, member⟩
      rcases inside e b member with rfl | rfl | ⟨member, -, -⟩
      · rcases (together b).mp (.inl member) with inC | inD
        · exact ⟨_, inC⟩
        · exact ⟨_, inD⟩
      · rcases (together b).mp (.inr member) with inC | inD
        · exact ⟨_, inC⟩
        · exact ⟨_, inD⟩
      · exact ⟨e, member⟩

theorem two_le [DecidableEq ι] (shares : Shares blocks part) (other : c ≠ d) :
    (part c).length + (part d).length ≤ blocks.card := by
  have once : (part c ++ part d).Nodup := by
    refine List.nodup_append'.mpr ⟨shares.nodup c, shares.nodup d, ?_⟩
    intro b inC inD
    exact other (shares.apart c d b inC inD)
  have inside : (part c ++ part d).toFinset ⊆ blocks := by
    intro b member
    rcases List.mem_append.mp (List.mem_toFinset.mp member) with inC | inD
    · exact (shares.whole b).mpr ⟨c, inC⟩
    · exact (shares.whole b).mpr ⟨d, inD⟩
  have few := Finset.card_le_card inside
  rwa [List.toFinset_card_of_nodup once, List.length_append] at few

theorem total [Fintype κ] [DecidableEq ι] (shares : Shares blocks part) :
    ∑ e, (part e).length = blocks.card := by
  have union : blocks = Finset.univ.biUnion fun e => (part e).toFinset := by
    ext b
    simp [shares.whole b]
  have disjoint : ∀ e ∈ Finset.univ, ∀ f ∈ Finset.univ, e ≠ f →
      Disjoint (part e).toFinset (part f).toFinset := by
    intro e _ f _ different
    simp only [Finset.disjoint_left, List.mem_toFinset]
    intro b inE inF
    exact different (shares.apart e f b inE inF)
  calc ∑ e, (part e).length
    _ = ∑ e, (part e).toFinset.card := by
      refine Finset.sum_congr rfl ?_
      intro e _
      exact (List.toFinset_card_of_nodup (shares.nodup e)).symm
    _ = blocks.card := by
      conv_rhs => rw [union]
      exact (Finset.card_biUnion disjoint).symm

end Shares
