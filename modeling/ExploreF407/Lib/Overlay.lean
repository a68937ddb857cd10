import Mathlib

/-! # Pictures laid over one another

A picture colours some of the points. Laid over a ground that colours all of them, it
hides what is under it and leaves the rest.
-/

namespace Overlay

variable {ι κ : Type*}

/-- The ground `p` with the picture laid over it. -/
def overlay (picture : ι → Option κ) (p : ι → κ) : ι → κ := fun i => (picture i).getD (p i)

def onto (top bottom : ι → Option κ) : ι → Option κ := fun i => (top i).or (bottom i)

variable {top bottom picture picture' : ι → Option κ} {p : ι → κ} {i : ι} {c : κ}

theorem overlay_none (p : ι → κ) : overlay (fun _ => none) p = p := rfl

theorem overlay_of_some (here : picture i = some c) : overlay picture p i = c := by
  simp [overlay, here]

theorem overlay_of_none (here : picture i = none) : overlay picture p i = p i := by
  simp [overlay, here]

theorem overlay_overlay : overlay top (overlay bottom p) = overlay (onto top bottom) p := by
  funext i
  cases here : top i <;> simp [overlay, onto, here]

theorem overlay_update [DecidableEq ι] (new : picture i = none) :
    Function.update (overlay picture p) i c = overlay (Function.update picture i (some c)) p := by
  funext j
  by_cases same : j = i
  · subst same
    simp [overlay]
  · simp [overlay, Function.update_of_ne same]

/-! ## Drawings -/

/-- Every point gets a colour of its own or is left as it was. -/
def Drawing (f : (ι → κ) → ι → κ) : Prop := ∀ i, (∀ p q, f p i = f q i) ∨ ∀ p, f p i = p i

def Writes (f : (ι → κ) → ι → κ) (i : ι) : Prop := ∃ p, f p i ≠ p i

variable {f g : (ι → κ) → ι → κ}

theorem Drawing.id : Drawing fun p : ι → κ => p := fun _ => .inr fun _ => rfl

theorem Drawing.update [DecidableEq ι] (i : ι) (c : κ) :
    Drawing fun p => Function.update p i c := by
  intro j
  by_cases same : j = i
  · subst same
    left
    intro p q
    simp only [Function.update_self]
  · right
    intro p
    exact Function.update_of_ne same ..

theorem Drawing.comp (later : Drawing g) (earlier : Drawing f) : Drawing fun p => g (f p) := by
  intro i
  rcases later i with sets | keeps
  · exact .inl fun p q => sets (f p) (f q)
  · rcases earlier i with sets' | keeps'
    · left
      intro p q
      simp only [keeps, sets' p q]
    · right
      intro p
      simp only [keeps, keeps']

theorem not_writes_id : ¬ Writes (fun p : ι → κ => p) i := by
  rintro ⟨p, changed⟩
  exact changed rfl

theorem writes_of_sets [Nontrivial κ] (sets : ∀ p q, f p i = f q i) : Writes f i := by
  obtain ⟨k, -⟩ := exists_pair_ne κ
  obtain ⟨other, different⟩ := exists_ne (f (fun _ => k) i)
  refine ⟨fun _ => other, ?_⟩
  rw [sets _ fun _ => k]
  exact different.symm

theorem writes_comp [Nontrivial κ] (later : Drawing g) :
    Writes (fun p => g (f p)) i ↔ Writes f i ∨ Writes g i := by
  rcases later i with sets | keeps
  · exact iff_of_true (writes_of_sets fun p q => sets (f p) (f q)) (.inr (writes_of_sets sets))
  · have kept : ¬ Writes g i := by
      rintro ⟨p, changed⟩
      exact changed (keeps p)
    simp only [Writes, keeps] at kept ⊢
    simp

theorem writes_overlay [Nontrivial κ] : Writes (overlay picture) i ↔ (picture i).isSome := by
  cases here : picture i with
  | none =>
      refine iff_of_false ?_ (by simp)
      rintro ⟨p, changed⟩
      exact changed (overlay_of_none here)
  | some c =>
      refine iff_of_true (writes_of_sets fun p q => ?_) (by simp)
      rw [overlay_of_some here, overlay_of_some here]

end Overlay
