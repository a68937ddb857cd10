import Mathlib

/-! # Priority inheritance

Each task has a priority of its own, and may wait for one other task. A task is
to run with the most urgent of its own priority and the priorities of the tasks
that wait for it; the least value is the most urgent. When the priority of one
task changes, at most the task it waits for comes to need another one, and so on
along the chain. The chain need not end: tasks may wait for each other in a
circle.
-/

namespace Inherit

variable {ι κ : Type*} [LinearOrder κ] {prio prio' base base' : ι → κ} {waits waits' : ι → Option ι}
  {t r o : ι} {p q : κ}

/-- The priorities that a task is entitled to. -/
def claims (prio base : ι → κ) (waits : ι → Option ι) (t : ι) : Set κ :=
  insert (base t) (prio '' {w | waits w = some t})

/-- The task runs with the most urgent one. -/
def Fair (prio base : ι → κ) (waits : ι → Option ι) (t : ι) : Prop :=
  IsLeast (claims prio base waits t) (prio t)

omit [LinearOrder κ] in
theorem claims_congr (sameBase : base' t = base t)
    (sameWaits : ∀ w, waits' w = some t ↔ waits w = some t)
    (samePrio : ∀ w, waits w = some t → prio' w = prio w) :
    claims prio' base' waits' t = claims prio base waits t := by
  simp only [claims, sameBase, sameWaits]
  congr 1
  exact Set.image_congr fun w member => samePrio w member

theorem Fair.congr (fair : Fair prio base waits t) (sameBase : base' t = base t)
    (sameWaits : ∀ w, waits' w = some t ↔ waits w = some t)
    (samePrio : ∀ w, waits w = some t → prio' w = prio w) (same : prio' t = prio t) :
    Fair prio' base' waits' t := by
  rw [Fair, claims_congr sameBase sameWaits samePrio, same]
  exact fair

theorem Fair.le_base (fair : Fair prio base waits t) : prio t ≤ base t :=
  fair.2 (Set.mem_insert ..)

theorem Fair.le (fair : Fair prio base waits t) (waiting : waits r = some t) : prio t ≤ prio r :=
  fair.2 (Set.mem_insert_of_mem _ ⟨r, waiting, rfl⟩)

theorem isLeast_insert_image {tasks : Set ι} : IsLeast (insert q (prio '' tasks)) p ↔
    p ≤ q ∧ (∀ w ∈ tasks, p ≤ prio w) ∧ (p = q ∨ ∃ w ∈ tasks, prio w = p) := by
  simp only [IsLeast, mem_lowerBounds, Set.mem_insert_iff, Set.mem_image, forall_eq_or_imp,
    forall_exists_index, and_imp, forall_apply_eq_imp_iff₂]
  tauto

theorem isLeast_claims : IsLeast (claims prio base waits t) p ↔
    p ≤ base t ∧ (∀ w, waits w = some t → p ≤ prio w) ∧
      (p = base t ∨ ∃ w, waits w = some t ∧ prio w = p) :=
  isLeast_insert_image

/-! ## Tasks that begin and cease to wait -/

/-- A task ceases to wait for `o`: the others run fair as before, and `o` runs with the most
    urgent of the priority that has left and those it is entitled to. -/
theorem leave (fair : ∀ r, Fair prio base waits r) (waiting : waits t = some o)
    (gone : waits' t = none) (same : ∀ w, w ≠ t → waits' w = waits w) :
    (∀ r, r ≠ o → Fair prio base waits' r) ∧
      IsLeast (insert (prio t) (claims prio base waits' o)) (prio o) := by
  refine ⟨?_, ?_⟩
  · intro r other
    apply (fair r).congr rfl ?_ (fun _ _ => rfl) rfl
    intro w
    by_cases atT : w = t
    · subst atT
      simp [gone, waiting, other.symm]
    · rw [same w atT]
  · obtain ⟨leBase, leOthers, attained⟩ := isLeast_claims.mp (fair o)
    have before : ∀ w, waits' w = some o → waits w = some o := by
      intro w waits'
      by_cases atT : w = t
      · subst atT
        simp [gone] at waits'
      · rwa [same w atT] at waits'
    refine ⟨?_, ?_⟩
    · rcases attained with atBase | ⟨w, waitsO, equal⟩
      · exact .inr (.inl atBase)
      · by_cases atT : w = t
        · subst atT
          exact .inl equal.symm
        · exact .inr (.inr ⟨w, (same w atT).trans waitsO, equal⟩)
    · rintro q (rfl | rfl | ⟨w, waitsO, rfl⟩)
      · exact leOthers t waiting
      · exact leBase
      · exact leOthers w (before w waitsO)

theorem join (fair : ∀ r, Fair prio base waits r) (free : waits t = none)
    (waiting : waits' t = some o) (same : ∀ w, w ≠ t → waits' w = waits w)
    (le : prio o ≤ prio t) (r : ι) : Fair prio base waits' r := by
  by_cases atO : r = o
  · subst atO
    obtain ⟨leBase, leOthers, attained⟩ := isLeast_claims.mp (fair r)
    refine isLeast_claims.mpr ⟨leBase, ?_, ?_⟩
    · intro w waits'
      by_cases atT : w = t
      · exact atT ▸ le
      · exact leOthers w ((same w atT).symm.trans waits')
    · rcases attained with atBase | ⟨w, waitsO, equal⟩
      · exact .inl atBase
      · have other : w ≠ t := by
          rintro rfl
          simp [free] at waitsO
        exact .inr ⟨w, (same w other).trans waitsO, equal⟩
  · apply (fair r).congr rfl ?_ (fun _ _ => rfl) rfl
    intro w
    by_cases atT : w = t
    · subst atT
      simp [free, waiting, Ne.symm atO]
    · rw [same w atT]

/-! ## Tasks that leave one after the other

While several tasks cease to wait for `o`, only that task may run with a
priority it is no longer entitled to.
-/

/-- All run fair, but `o` may run more urgently than it is entitled to. -/
structure Settled (prio base : ι → κ) (waits : ι → Option ι) (o : Option ι) : Prop where
  fair : ∀ r, o ≠ some r → Fair prio base waits r
  urgent : ∀ r, o = some r → prio r ∈ lowerBounds (claims prio base waits r)

theorem Settled.of_fair (fair : ∀ r, Fair prio base waits r) (o : Option ι) :
    Settled prio base waits o := ⟨fun r _ => fair r, fun r _ => (fair r).2⟩

theorem Settled.leave {o : Option ι} (settled : Settled prio base waits o) (waiting : waits t = o)
    (gone : waits' t = none) (same : ∀ w, w ≠ t → waits' w = waits w) :
    Settled prio base waits' o := by
  have before : ∀ r w, waits' w = some r → waits w = some r := by
    intro r w waits'
    by_cases atT : w = t
    · subst atT
      simp [gone] at waits'
    · rwa [same w atT] at waits'
  refine ⟨?_, ?_⟩
  · intro r other
    apply (settled.fair r other).congr rfl ?_ (fun _ _ => rfl) rfl
    intro w
    refine ⟨before r w, ?_⟩
    intro waitsR
    have notT : w ≠ t := by
      rintro rfl
      exact other (waiting.symm.trans waitsR)
    exact (same w notT).trans waitsR
  · rintro r atR q (rfl | ⟨w, waitsR, rfl⟩)
    · exact settled.urgent r atR (Set.mem_insert ..)
    · exact settled.urgent r atR (Set.mem_insert_of_mem _ ⟨w, before r w waitsR, rfl⟩)

section Change

variable [DecidableEq ι]

theorem fair_update (others : ∀ r, r ≠ t → Fair prio base waits r)
    (least : IsLeast (claims prio base waits t) p) (apart : waits t ≠ some t)
    (elsewhere : waits t ≠ some r) : Fair (Function.update prio t p) base waits r := by
  have frame : ∀ w, waits w = some r → Function.update prio t p w = prio w := by
    intro w waiting
    have other : w ≠ t := by
      rintro rfl
      exact elsewhere waiting
    exact Function.update_of_ne other p prio
  by_cases same : r = t
  · subst same
    rw [Fair, claims_congr rfl (fun _ => .rfl) frame, Function.update_self]
    exact least
  · exact (others r same).congr rfl (fun _ => .rfl) frame (Function.update_of_ne same p prio)

variable (fair : Fair prio base waits o) (waiting : waits t = some o) (apart : t ≠ o)

include fair waiting apart

/-- The changed task has become more urgent, but not more than the one it waits for. -/
theorem fair_of_le (raised : p < prio t) (le : prio o ≤ p) :
    Fair (Function.update prio t p) base waits o := by
  obtain ⟨leBase, leOthers, attained⟩ := isLeast_claims.mp fair
  have same : Function.update prio t p o = prio o := Function.update_of_ne apart.symm p prio
  refine isLeast_claims.mpr ⟨same ▸ leBase, ?_, ?_⟩
  · intro w waits'
    by_cases atT : w = t
    · subst atT
      simpa [same] using le
    · simpa [same, atT] using leOthers w waits'
  · rcases attained with atBase | ⟨w, waits', equal⟩
    · exact .inl (same.trans atBase)
    · refine .inr ⟨w, waits', ?_⟩
      have other : w ≠ t := by
        rintro rfl
        exact absurd (equal ▸ raised) (not_lt.mpr le)
      simp [same, other, equal]

theorem least_of_lt (more : p < prio o) :
    IsLeast (claims (Function.update prio t p) base waits o) p := by
  obtain ⟨leBase, leOthers, -⟩ := isLeast_claims.mp fair
  refine isLeast_claims.mpr ⟨more.le.trans leBase, ?_, .inr ⟨t, waiting, by simp⟩⟩
  intro w waits'
  by_cases atT : w = t
  · subst atT
    simp
  · simpa [atT] using more.le.trans (leOthers w waits')

end Change

/-! ## Handing a change on

A task that has become more urgent makes the tasks along its chain as urgent. A
task that has become less urgent has the one it waits for look for another
priority if both were as urgent. If they were not, it hands on its own new one,
and the other task may come to run less urgently than it is entitled to.
-/

section Pass

variable [DecidableEq ι] {prio base : ι → ℕ} {p q : ℕ} {fuel : ℕ}

/-- The most urgent priority that a task is entitled to. -/
noncomputable def entitled (prio base : ι → ℕ) (waits : ι → Option ι) (t : ι) : ℕ :=
  sInf (claims prio base waits t)

omit [DecidableEq ι] in
theorem entitled_isLeast (prio base : ι → ℕ) (waits : ι → Option ι) (t : ι) :
    IsLeast (claims prio base waits t) (entitled prio base waits t) :=
  ⟨Nat.sInf_mem ⟨_, Set.mem_insert ..⟩, fun _ member => Nat.sInf_le member⟩

omit [DecidableEq ι] in
theorem entitled_le (waiting : waits t = some o) : entitled prio base waits o ≤ prio t :=
  (entitled_isLeast prio base waits o).2 (Set.mem_insert_of_mem _ ⟨t, waiting, rfl⟩)

/-- The priority that the task `o` is given when that of `t`, which waits for it, has come from
    `before` to `p`; `prio` has the change. -/
noncomputable def onward (prio base : ι → ℕ) (waits : ι → Option ι) (before p : ℕ) (o : ι) :
    Option ℕ :=
  if p < before then
    if prio o ≤ p then none else some p
  else if prio o = before then
    if entitled prio base waits o = prio o then none else some (entitled prio base waits o)
  else some p

omit [DecidableEq ι] in
theorem onward_elim {β : Type*} (before p : ℕ) (stop : β) (goOn : ℕ → β) :
    (onward prio base waits before p o).elim stop goOn =
      if p < before then
        if prio o ≤ p then stop else goOn p
      else if prio o = before then
        if entitled prio base waits o = prio o then stop else goOn (entitled prio base waits o)
      else goOn p := by
  unfold onward
  split_ifs <;> rfl

/-- The task `t` is given the priority `p`, and the change is handed on. -/
noncomputable def handOn (base : ι → ℕ) (waits : ι → Option ι) :
    ℕ → (ι → ℕ) → ι → ℕ → Option (ι → ℕ)
  | 0, _, _, _ => none
  | fuel + 1, prio, t, p =>
      match waits t with
      | none => some (Function.update prio t p)
      | some o =>
          match onward (Function.update prio t p) base waits (prio t) p o with
          | none => some (Function.update prio t p)
          | some q => handOn base waits fuel (Function.update prio t p) o q

theorem handOn_free (free : waits t = none) :
    handOn base waits (fuel + 1) prio t p = some (Function.update prio t p) := by
  simp only [handOn, free]

theorem handOn_stops (waiting : waits t = some o)
    (stops : onward (Function.update prio t p) base waits (prio t) p o = none) :
    handOn base waits (fuel + 1) prio t p = some (Function.update prio t p) := by
  simp only [handOn, waiting, stops]

theorem handOn_goes_on (waiting : waits t = some o)
    (onward : onward (Function.update prio t p) base waits (prio t) p o = some q) :
    handOn base waits (fuel + 1) prio t p =
      handOn base waits fuel (Function.update prio t p) o q := by
  simp only [handOn, waiting, onward]

theorem onward_le (waiting : waits t = some o)
    (onward : onward (Function.update prio t p) base waits (prio t) p o = some q) : q ≤ p := by
  have asked : entitled (Function.update prio t p) base waits o ≤ Function.update prio t p t :=
    entitled_le waiting
  rw [Function.update_self] at asked
  simp only [Inherit.onward] at onward
  split_ifs at onward <;> simp only [Option.some.injEq] at onward <;> omega

variable [Fintype ι]

theorem card_raised (raised : p < prio t) :
    (Finset.univ.filter fun r => p < Function.update prio t p r).card <
      (Finset.univ.filter fun r => p < prio r).card := by
  apply Finset.card_lt_card
  refine Finset.ssubset_iff.mpr ⟨t, by simp, ?_⟩
  intro x member
  rcases Finset.mem_insert.mp member with rfl | member
  · simpa using raised
  · have less := (Finset.mem_filter.mp member).2
    have other : x ≠ t := by
      rintro rfl
      simp at less
    simpa [other] using less

/-- A task becomes more urgent, and with it the tasks along its chain that are less urgent. -/
theorem handOn_raise (apart : ∀ r, waits r ≠ some r) (raised : p < prio t)
    (enough : (Finset.univ.filter fun r => p < prio r).card < fuel) :
    ∃ prio', handOn base waits fuel prio t p = some prio' ∧
      (∀ x, prio x ≤ p → prio' x = prio x) ∧
      ∀ own : ι → ℕ, (∀ r, r ≠ t → Fair prio own waits r) →
        IsLeast (claims prio own waits t) p → ∀ x, Fair prio' own waits x := by
  induction fuel generalizing prio t with
  | zero => simp at enough
  | succ fuel ih =>
      have kept : ∀ x, prio x ≤ p → Function.update prio t p x = prio x := by
        intro x le
        have other : x ≠ t := by
          rintro rfl
          omega
        exact Function.update_of_ne other p prio
      rcases waiting : waits t with _ | o
      · refine ⟨_, handOn_free waiting, kept, fun own others least x => ?_⟩
        exact fair_update others least (apart t) (by simp [waiting])
      have other : t ≠ o := by
        rintro rfl
        exact apart t waiting
      have atO : Function.update prio t p o = prio o := Function.update_of_ne other.symm p prio
      have settled : ∀ own : ι → ℕ, (∀ r, r ≠ t → Fair prio own waits r) →
          IsLeast (claims prio own waits t) p → ∀ x, x ≠ o →
            Fair (Function.update prio t p) own waits x := by
        intro own others least x notO
        refine fair_update others least (apart t) ?_
        rw [waiting]
        exact fun same => notO (Option.some.inj same).symm
      by_cases stops : prio o ≤ p
      · have done : onward (Function.update prio t p) base waits (prio t) p o = none := by
          rw [onward, if_pos raised, if_pos (atO.trans_le stops)]
        refine ⟨_, handOn_stops waiting done, kept, fun own others least x => ?_⟩
        by_cases same : x = o
        · exact same ▸ fair_of_le (others o other.symm) waiting other raised stops
        · exact settled own others least x same
      · -- `o` comes next, and one task less is less urgent than `p`
        have more : p < prio o := not_le.mp stops
        have next : onward (Function.update prio t p) base waits (prio t) p o = some p := by
          rw [onward, if_pos raised, if_neg fun le => stops (atO.symm.trans_le le)]
        have fewer := card_raised raised
        obtain ⟨prio', passed, kept', fair⟩ : ∃ prio',
            handOn base waits fuel (Function.update prio t p) o p = some prio' ∧ _ :=
          ih (more.trans_eq atO.symm) (by omega)
        refine ⟨prio', (handOn_goes_on waiting next).trans passed, ?_, ?_⟩
        · intro x le
          have first := kept x le
          exact (kept' x (first.trans_le le)).trans first
        · intro own others least
          refine fair own (settled own others least) ?_
          exact least_of_lt (others o other.symm) waiting other more

/-- The handing on ends, whatever the chain: a task that comes a second time has its last priority
    already, and from there on tasks only become more urgent. -/
theorem handOn_ends (apart : ∀ r, waits r ≠ some r) (seen : Finset ι)
    (low : ∀ x ∈ seen, p ≤ prio x)
    (linked : ∀ x ∈ seen, waits x = some t ∨ ∃ y ∈ seen, waits x = some y ∧ prio y ≤ prio x)
    (enough : Fintype.card ι - seen.card + Fintype.card ι + 1 < fuel) :
    ∃ prio', handOn base waits fuel prio t p = some prio' := by
  induction fuel generalizing prio t p seen with
  | zero => omega
  | succ fuel ih =>
      have all : ∀ q : ℕ, ∀ f : ι → ℕ,
          (Finset.univ.filter fun r => q < f r).card ≤ Fintype.card ι :=
        fun q f => Finset.card_le_univ _
      by_cases raised : p < prio t
      · have few := all p prio
        obtain ⟨prio', passed, -⟩ : ∃ prio',
            handOn base waits (fuel + 1) prio t p = some prio' ∧ _ :=
          handOn_raise apart raised (by omega)
        exact ⟨prio', passed⟩
      rcases waiting : waits t with _ | o
      · exact ⟨_, handOn_free waiting⟩
      rcases next : onward (Function.update prio t p) base waits (prio t) p o with _ | q
      · exact ⟨_, handOn_stops waiting next⟩
      rw [handOn_goes_on waiting next]
      have le := onward_le waiting next
      by_cases member : t ∈ seen
      · -- the second visit
        have same : prio t = p := le_antisymm (not_lt.mp raised) (low t member)
        have stays : Function.update prio t p = prio := by rw [← same, Function.update_eq_self]
        have notAbove : prio o = p := by
          rcases linked t member with waitsSelf | ⟨y, seenY, waitsY, leY⟩
          · exact absurd waitsSelf (apart t)
          · cases waiting.symm.trans waitsY
            exact le_antisymm (leY.trans_eq same) (low o seenY)
        have more : q < prio o := by
          rw [stays, onward, if_neg raised, if_pos (notAbove.trans same.symm)] at next
          split_ifs at next with entitles
          simp only [Option.some.injEq] at next
          omega
        have few := all q prio
        obtain ⟨prio', passed, -⟩ : ∃ prio', handOn base waits fuel prio o q = some prio' ∧ _ :=
          handOn_raise apart more (by omega)
        exact ⟨prio', by rw [stays, passed]⟩
      · have fewer : seen.card < Fintype.card ι :=
          Finset.card_lt_univ_of_notMem member
        have counted := Finset.card_insert_of_notMem member
        refine ih (insert t seen) ?_ ?_ (by omega)
        · intro x inside
          by_cases atT : x = t
          · simpa [atT] using le
          · have before := low x ((Finset.mem_insert.mp inside).resolve_left atT)
            simpa [atT] using le.trans before
        · intro x inside
          by_cases atT : x = t
          · exact .inl (atT ▸ waiting)
          · have seenX := (Finset.mem_insert.mp inside).resolve_left atT
            refine .inr ?_
            rcases linked x seenX with waitsT | ⟨y, seenY, waitsY, leY⟩
            · exact ⟨t, Finset.mem_insert_self t seen, waitsT, by simpa [atT] using low x seenX⟩
            · have notT : y ≠ t := fun same => member (same ▸ seenY)
              exact ⟨y, Finset.mem_insert_of_mem seenY, waitsY, by simpa [atT, notT] using leY⟩

end Pass

/-! ## Handing over -/

section Handover

variable [DecidableEq ι]

/-- A task begins to wait for `o`, which has been made as urgent, as if its own priority were. -/
theorem join_raised (fair : ∀ r, Fair prio (Function.update base o (prio t)) waits r)
    (low : prio t ≤ base o) (free : waits t = none) (waiting : waits' t = some o)
    (same : ∀ w, w ≠ t → waits' w = waits w) (r : ι) : Fair prio base waits' r := by
  have le : prio o ≤ prio t := by simpa using (fair o).le_base
  have joined := join fair free waiting same le r
  by_cases atO : r = o
  · subst atO
    obtain ⟨-, leOthers, attained⟩ := isLeast_claims.mp joined
    refine isLeast_claims.mpr ⟨le.trans low, leOthers, ?_⟩
    rcases attained with atBase | others
    · exact .inr ⟨t, waiting, by simpa using atBase.symm⟩
    · exact .inr others
  · exact joined.congr (Function.update_of_ne atO (prio t) base).symm (fun _ => .rfl)
      (fun _ _ => rfl) rfl

/-- What the tasks in `group` wait for passes from `t` to the most urgent of them, and `t` goes
    back to the priority it is entitled to without them. -/
theorem handover {first : ι} {group : Set ι} (fair : ∀ r, Fair prio base waits r)
    (running : waits t = none) (waiting : ∀ w ∈ group, waits w = some t) (member : first ∈ group)
    (urgent : ∀ w ∈ group, prio first ≤ prio w) (gone : waits' first = none)
    (passed : ∀ w ∈ group, w ≠ first → waits' w = some first)
    (same : ∀ w, w ∉ group → waits' w = waits w)
    (least : IsLeast (claims prio base waits' t) p) (r : ι) :
    Fair (Function.update prio t p) base waits' r := by
  have outside : t ∉ group := by
    intro inside
    have circle := waiting t inside
    simp [running] at circle
  have still : waits' t = none := (same t outside).trans running
  have frame : ∀ r w, waits' w = some r → Function.update prio t p w = prio w := by
    intro r w waits'
    have other : w ≠ t := by
      rintro rfl
      simp [still] at waits'
    exact Function.update_of_ne other p prio
  have apart : first ≠ t := by
    rintro rfl
    exact outside member
  by_cases atT : r = t
  · subst atT
    rw [Fair, claims_congr rfl (fun _ => .rfl) (frame r), Function.update_self]
    exact least
  have stays : Function.update prio t p r = prio r := Function.update_of_ne atT p prio
  obtain ⟨leBase, leOthers, attained⟩ := isLeast_claims.mp (fair r)
  by_cases atFirst : r = first
  · subst atFirst
    refine isLeast_claims.mpr ⟨stays ▸ leBase, ?_, ?_⟩
    · intro w waitsR
      rw [stays, frame r w waitsR]
      by_cases inside : w ∈ group
      · exact urgent w inside
      · exact leOthers w ((same w inside).symm.trans waitsR)
    · rcases attained with atBase | ⟨w, waitsR, equal⟩
      · exact .inl (stays.trans atBase)
      · have inside : w ∉ group := fun inside =>
          atT (Option.some.inj (waitsR.symm.trans (waiting w inside)))
        have waits'R := (same w inside).trans waitsR
        exact .inr ⟨w, waits'R, by rw [frame r w waits'R, stays, equal]⟩
  · apply (fair r).congr rfl ?_ ?_ stays
    · intro w
      by_cases inside : w ∈ group
      · have before := waiting w inside
        have notT : ¬ t = r := fun same => atT same.symm
        by_cases isFirst : w = first
        · subst isFirst
          simp [gone, before, notT]
        · have notFirst : ¬ first = r := fun same => atFirst same.symm
          simp [passed w inside isFirst, before, notT, notFirst]
      · rw [same w inside]
    · intro w waitsR
      have other : w ≠ t := by
        rintro rfl
        simp [running] at waitsR
      exact Function.update_of_ne other p prio

end Handover

end Inherit
