import ExploreF407.Lib.Urgency

/-! # Delta lists

In a delta list each node stores how much later it is due than the node before
it, the first one how much later than now. The deadlines themselves are in the
order of the list.
-/

namespace Delta

open Urgency

variable {ι : Type*} {remain remain' due due' : ι → Nat} {now now' d : Nat}
  {nodes left right : List ι} {p q : ι}

/-- The nodes store the differences of these deadlines. -/
def Counts (remain due : ι → Nat) : Nat → List ι → Prop
  | _, [] => True
  | now, p :: rest => due p = now + remain p ∧ Counts remain due (due p) rest

/-- Where a node behind these ones counts from. -/
def lastDue (due : ι → Nat) : Nat → List ι → Nat
  | now, [] => now
  | _, p :: rest => lastDue due (due p) rest

theorem counts_append : Counts remain due now (left ++ right) ↔
    Counts remain due now left ∧ Counts remain due (lastDue due now left) right := by
  induction left generalizing now with
  | nil => simp [Counts, lastDue]
  | cons p left ih => simp only [List.cons_append, Counts, lastDue, ih, and_assoc]

theorem lastDue_le (le : now ≤ d) (each : ∀ p ∈ nodes, due p ≤ d) : lastDue due now nodes ≤ d := by
  induction nodes generalizing now with
  | nil => exact le
  | cons p rest ih =>
      obtain ⟨here, behind⟩ := List.forall_mem_cons.mp each
      exact ih here behind

namespace Counts

theorem frame (counts : Counts remain due now nodes)
    (same : ∀ p ∈ nodes, remain' p = remain p ∧ due' p = due p) :
    Counts remain' due' now nodes := by
  induction nodes generalizing now with
  | nil => trivial
  | cons p rest ih =>
      obtain ⟨here, counts⟩ := counts
      obtain ⟨sameRemain, sameDue⟩ := same p List.mem_cons_self
      have behind := ih counts fun q member => same q (List.mem_cons_of_mem p member)
      refine ⟨?_, ?_⟩
      · simp only [sameRemain, sameDue, here]
      · simpa only [sameDue] using behind

theorem le_due (counts : Counts remain due now nodes) : ∀ p ∈ nodes, now ≤ due p := by
  induction nodes generalizing now with
  | nil => nofun
  | cons p rest ih =>
      obtain ⟨here, counts⟩ := counts
      intro q member
      rcases List.mem_cons.mp member with rfl | member
      · omega
      · have later := ih counts q member
        omega

theorem inOrder (counts : Counts remain due now nodes) : InOrder due nodes := by
  induction nodes generalizing now with
  | nil => exact List.Pairwise.nil
  | cons p rest ih => exact List.pairwise_cons.mpr ⟨counts.2.le_due, ih counts.2⟩

theorem le_lastDue (counts : Counts remain due now left) : now ≤ lastDue due now left := by
  induction left generalizing now with
  | nil => exact le_rfl
  | cons p rest ih =>
      have here := counts.1
      have behind := ih counts.2
      simp only [lastDue]
      omega

theorem restart (counts : Counts remain due now nodes)
    (first : ∀ q ∈ nodes.head?, due q = now' + remain' q)
    (others : ∀ q ∈ nodes.tail, remain' q = remain q) : Counts remain' due now' nodes := by
  cases nodes with
  | nil => trivial
  | cons p rest =>
      refine ⟨first p rfl, ?_⟩
      apply counts.2.frame
      intro q member
      exact ⟨others q member, rfl⟩

theorem insert (counts : Counts remain due now (left ++ right))
    (after : lastDue due now left ≤ d) (new : due' p = d)
    (atNew : remain' p = d - lastDue due now left)
    (atNext : ∀ q ∈ right.head?, due q = d + remain' q)
    (others : ∀ q ∈ left ++ right.tail, remain' q = remain q)
    (same : ∀ q ∈ left ++ right, due' q = due q) :
    Counts remain' due' now (left ++ p :: right) := by
  obtain ⟨front, back⟩ := counts_append.mp counts
  have front' : Counts remain' due' now left := by
    apply front.frame
    intro q member
    exact ⟨others q (List.mem_append_left _ member), same q (List.mem_append_left right member)⟩
  have last : ∀ now, ∀ xs : List ι, (∀ q ∈ xs, due' q = due q) →
      lastDue due' now xs = lastDue due now xs := by
    intro now xs equal
    induction xs generalizing now with
    | nil => rfl
    | cons r xs ih =>
        obtain ⟨here, rest⟩ := List.forall_mem_cons.mp equal
        simp only [lastDue, here, ih _ rest]
  have ends := last now left fun q member => same q (List.mem_append_left right member)
  refine counts_append.mpr ⟨front', ?_, ?_⟩
  · simp only [new, atNew, ends]
    omega
  · simp only [new]
    have back' := back.restart atNext fun q member => others q (List.mem_append_right left member)
    apply back'.frame
    intro q member
    exact ⟨rfl, same q (List.mem_append_right left member)⟩

theorem remove (counts : Counts remain due now (left ++ p :: right))
    (atNext : ∀ q ∈ right.head?, remain' q = remain q + remain p)
    (others : ∀ q ∈ left ++ right.tail, remain' q = remain q) :
    Counts remain' due now (left ++ right) := by
  obtain ⟨front, here, back⟩ := counts_append.mp counts
  refine counts_append.mpr ⟨?_, ?_⟩
  · apply front.frame
    intro q member
    exact ⟨others q (List.mem_append_left _ member), rfl⟩
  · apply back.restart
    · intro q first
      have stored : due q = due p + remain q := by
        cases right with
        | nil => cases first
        | cons r rest =>
            cases first
            exact back.1
      have more := atNext q first
      omega
    · exact fun q member => others q (List.mem_append_right left member)

end Counts

end Delta
