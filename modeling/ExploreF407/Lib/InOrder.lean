import ExploreF407.Lib.Linked

/-! # Elements that stand in order

A list holds a pattern in order where the pattern is a sublist of it. A cursor that looks for one
element of the pattern after the other stands, after each, where the part looked for so far is
first complete.
-/

namespace Linked

section InOrder

variable {α : Type*}

/-- In `xs`, from position `y` on, the pattern is first complete at position `i`. -/
def Ends (pattern xs : List α) (y i : Nat) : Prop :=
  ∀ t, pattern.Sublist ((xs.take t).drop y) ↔ i < t

/-- The list holds the pattern, but only with its last element. -/
def NeedsLast (pattern xs : List α) : Prop :=
  pattern.Sublist xs ∧ ¬ pattern.Sublist xs.dropLast

instance decidableNeedsLast [DecidableEq α] (pattern xs : List α) :
    Decidable (NeedsLast pattern xs) :=
  inferInstanceAs (Decidable (_ ∧ _))

/-- Where round `n` begins, when a pattern that begins with `a` is looked for over and over: the
    first round at the first position, each other one at the last `a` that does not stand behind
    the end of the round before. -/
inductive RoundAt (a : α) (pattern xs : List α) : Nat → Nat → Prop
  | first : RoundAt a pattern xs 0 0
  | next {n y y' : Nat} (before : RoundAt a pattern xs n y)
      (complete : pattern.Sublist (xs.drop y))
      (last : IsGreatest {q | xs[q]? = some a ∧ ¬ pattern.Sublist ((xs.take q).drop y)} y') :
      RoundAt a pattern xs (n + 1) y'

variable {pattern xs : List α} {a : α} {y i : Nat}

theorem part_mono {t u : Nat} (order : t ≤ u) :
    ((xs.take t).drop y).Sublist ((xs.take u).drop y) :=
  (List.take_prefix_take_left order).sublist.drop y

theorem part_dropLast : (xs.drop y).dropLast = (xs.take (xs.length - 1)).drop y := by
  rw [List.dropLast_eq_take, List.length_drop, List.drop_take]
  congr 1
  omega

theorem ends_singleton (here : xs[y]? = some a) : Ends [a] xs y y := by
  intro t
  rw [List.singleton_sublist]
  constructor
  · intro member
    have some' := List.length_pos_of_mem member
    rw [List.length_drop, List.length_take] at some'
    omega
  · intro order
    apply List.mem_iff_getElem?.mpr
    refine ⟨0, ?_⟩
    rw [List.getElem?_drop, Nat.add_zero, List.getElem?_take_of_lt order, here]

namespace Ends

variable (ends : Ends pattern xs y i)

include ends

theorem inside : i < xs.length := by
  by_contra outside
  have whole := (ends (i + 1)).mpr (Nat.lt_succ_self i)
  rw [List.take_of_length_le (by omega), ← List.take_of_length_le (Nat.le_of_not_lt outside)]
    at whole
  exact Nat.lt_irrefl i ((ends i).mp whole)

theorem start_le : y ≤ i := by
  by_contra before
  have nil : ∀ t ≤ y, (xs.take t).drop y = [] := by
    intro t order
    exact List.drop_eq_nil_of_le ((List.length_take_le t xs).trans order)
  have whole := (ends (i + 1)).mpr (Nat.lt_succ_self i)
  rw [nil (i + 1) (by omega), ← nil i (by omega)] at whole
  exact Nat.lt_irrefl i ((ends i).mp whole)

theorem sublist_drop : pattern.Sublist (xs.drop y) := by
  have whole := (ends xs.length).mpr ends.inside
  rwa [List.take_length] at whole

theorem needsLast_iff : NeedsLast pattern (xs.drop y) ↔ i + 1 = xs.length := by
  have inside := ends.inside
  rw [NeedsLast, part_dropLast, ends, and_iff_right ends.sublist_drop]
  omega

theorem append_iff {t : Nat} :
    (pattern ++ [a]).Sublist ((xs.take t).drop y) ↔ ∃ q, i < q ∧ q < t ∧ xs[q]? = some a := by
  constructor
  · intro whole
    obtain ⟨left, right, part, before, behind⟩ := List.append_sublist_iff.mp whole
    have cut : left = (xs.take (min t (y + left.length))).drop y := by
      have split := congrArg (List.take left.length) part
      rw [List.take_left, List.take_drop, List.take_take, Nat.min_comm] at split
      exact split.symm
    rw [cut, ends] at before
    have rest : right = ((xs.take t).drop y).drop left.length := by
      rw [part, List.drop_left]
    rw [List.singleton_sublist, rest, List.drop_drop] at behind
    obtain ⟨j, there⟩ := List.mem_iff_getElem?.mp behind
    rw [List.getElem?_drop, List.getElem?_take] at there
    split at there
    · exact ⟨_, by omega, ‹_›, there⟩
    · cases there
  · rintro ⟨q, behind, order, there⟩
    have step : (xs.take (q + 1)).drop y = (xs.take q).drop y ++ [a] := by
      have start := ends.start_le
      obtain ⟨inside, -⟩ := List.getElem?_eq_some_iff.mp there
      rw [List.take_add_one, there, Option.toList_some, List.drop_append_of_le_length]
      rw [List.length_take]
      omega
    have upTo : (pattern ++ [a]).Sublist ((xs.take (q + 1)).drop y) := by
      rw [step]
      exact ((ends q).mpr behind).append (List.Sublist.refl [a])
    exact upTo.trans (part_mono order)

theorem append {k : Nat} (behind : i < k) (there : xs[k]? = some a)
    (nearest : ∀ q, i < q → q < k → xs[q]? ≠ some a) : Ends (pattern ++ [a]) xs y k := by
  intro t
  rw [ends.append_iff]
  constructor
  · rintro ⟨q, after, order, here⟩
    by_contra short
    exact nearest q after (by omega) here
  · intro order
    exact ⟨k, behind, order, there⟩

end Ends

/-! ## Rounds -/

theorem RoundAt.unique {n y' : Nat} (one : RoundAt a pattern xs n y)
    (other : RoundAt a pattern xs n y') : y = y' := by
  induction one generalizing y' with
  | first =>
      cases other
      rfl
  | next _ _ last ih =>
      cases other with
      | next before _ last' =>
          cases ih before
          exact last.unique last'

/-- Where `a` stands at the first position only, all rounds begin there. -/
theorem RoundAt.eq_zero {n : Nat} (once : ∀ q, xs[q]? = some a → q = 0)
    (round : RoundAt a pattern xs n y) : y = 0 := by
  cases round with
  | first => rfl
  | next _ _ last => exact once y last.1.1

theorem RoundAt.here {n : Nat} (round : RoundAt a pattern xs n y) (head : xs[0]? = some a) :
    xs[y]? = some a := by
  cases round with
  | first => exact head
  | next _ _ last => exact last.1.1

theorem RoundAt.exists_next {n : Nat} (round : RoundAt a pattern xs n y) (head : xs[0]? = some a)
    (some' : pattern ≠ []) (complete : pattern.Sublist (xs.drop y)) :
    ∃ y', RoundAt a pattern xs (n + 1) y' := by
  have nonempty : {q | xs[q]? = some a ∧ ¬ pattern.Sublist ((xs.take q).drop y)}.Nonempty := by
    refine ⟨y, round.here head, ?_⟩
    rw [List.drop_take_self, List.sublist_nil]
    exact some'
  have bounded : BddAbove {q | xs[q]? = some a ∧ ¬ pattern.Sublist ((xs.take q).drop y)} := by
    refine ⟨xs.length, ?_⟩
    rintro q ⟨there, -⟩
    exact (List.getElem?_eq_some_iff.mp there).1.le
  exact ⟨_, .next round complete
    ⟨Nat.sSup_mem nonempty bounded, fun _ member => le_csSup bounded member⟩⟩

end InOrder

/-! ## Cursors -/

section Cursor

variable {α : Type*} [LinearOrder α] {nums pattern : List α} {i j k y : Nat} {a num : α}

theorem goTo_here (here : nums[i]? = some a) : goTo nums i a = some i := by
  obtain ⟨inside, -⟩ := List.getElem?_eq_some_iff.mp here
  obtain ⟨rest, first⟩ : ∃ rest, nums.drop i = a :: rest := by
    rw [List.drop_eq_getElem_cons inside]
    exact ⟨_, by rw [(List.getElem?_eq_some_iff.mp here).2]⟩
  rw [goTo, here, Option.bind_some, if_neg (lt_irrefl a), ahead, first, List.findIdx?_cons,
    decide_eq_true rfl]
  rfl

theorem goTo_ahead (here : nums[i]? = some num) (less : num < a) (found : goTo nums i a = some k) :
    i < k ∧ ∀ q, i < q → q < k → nums[q]? ≠ some a := by
  have there := of_goTo found
  rw [goTo, here, Option.bind_some, if_neg less.not_gt] at found
  obtain ⟨m, first, rfl⟩ := Option.map_eq_some_iff.mp found
  obtain ⟨_, -, nearest⟩ := List.findIdx?_eq_some_iff_getElem.mp first
  constructor
  · apply Nat.lt_add_of_pos_right
    apply Nat.pos_of_ne_zero
    intro zero
    rw [zero, Nat.add_zero, here] at there
    cases there
    exact lt_irrefl _ less
  · intro q behind before at'
    obtain ⟨d, rfl⟩ := Nat.exists_eq_add_of_lt behind
    have none := nearest (d + 1) (by omega)
    rw [List.getElem_drop] at none
    obtain ⟨_, same⟩ := List.getElem?_eq_some_iff.mp at'
    exact none (decide_eq_true same)

theorem atEdge_ahead (here : nums[i]? = some num) (less : num < a) :
    AtEdge nums i a ↔ i + 1 = nums.length := by
  simp [AtEdge, here, less, less.not_gt]

theorem not_atEdge_here (here : nums[i]? = some a) : ¬ AtEdge nums i a := by
  simp [AtEdge, here]

theorem atEdge_back (here : nums[i]? = some num) (less : a < num) : AtEdge nums i a ↔ i = 0 := by
  simp [AtEdge, here, less, less.not_gt]

/-- The next number of a pattern that goes up is looked for behind the end of the others. -/
theorem Ends.goTo_next (ends : Ends pattern nums y i) (here : nums[i]? = some num)
    (less : num < a) (found : goTo nums i a = some k) : Ends (pattern ++ [a]) nums y k := by
  obtain ⟨behind, nearest⟩ := goTo_ahead here less found
  exact ends.append behind (of_goTo found) nearest

theorem Ends.exists_goTo (ends : Ends pattern nums y i) (here : nums[i]? = some num)
    (less : num < a) (whole : (pattern ++ [a]).Sublist (nums.drop y)) :
    ∃ k, goTo nums i a = some k := by
  rw [← List.take_length (l := nums), ends.append_iff] at whole
  obtain ⟨q, behind, -, there⟩ := whole
  rw [goTo, here, Option.bind_some, if_neg less.not_gt]
  exact ahead_of there behind.le (decide_eq_true rfl)

theorem goTo_back (here : nums[i]? = some num) (least : a ≤ num) (found : goTo nums i a = some k) :
    IsGreatest {q | nums[q]? = some a ∧ q ≤ i} k := by
  rcases least.eq_or_lt with same | less
  · subst same
    rw [goTo_here here] at found
    cases found
    exact ⟨⟨here, Nat.le_refl i⟩, fun q both => both.2⟩
  · have there := of_goTo found
    rw [goTo, here, Option.bind_some, if_pos less] at found
    obtain ⟨m, first, rfl⟩ := Option.map_eq_some_iff.mp found
    obtain ⟨_, -, nearest⟩ := List.findIdx?_eq_some_iff_getElem.mp first
    refine ⟨⟨there, Nat.sub_le i m⟩, ?_⟩
    rintro q ⟨at', order⟩
    by_contra nearer
    have inside := (List.getElem?_eq_some_iff.mp here).1
    have none := nearest (i - q) (by omega)
    have same := getElem?_take_reverse inside (Nat.sub_le i q)
    rw [show i - (i - q) = q by omega, at'] at same
    obtain ⟨_, same⟩ := List.getElem?_eq_some_iff.mp same
    exact none (decide_eq_true same)

theorem exists_goTo_back {q : Nat} (here : nums[i]? = some num) (least : a ≤ num)
    (there : nums[q]? = some a) (order : q ≤ i) : ∃ k, goTo nums i a = some k := by
  rcases least.eq_or_lt with same | less
  · subst same
    exact ⟨i, goTo_here here⟩
  · rw [goTo, here, Option.bind_some, if_pos less]
    exact back_of there order (decide_eq_true rfl)

/-- A cursor at the end of a round goes back to where the next one begins. -/
theorem RoundAt.goTo_next {n : Nat} (round : RoundAt a pattern nums n y)
    (ends : Ends pattern nums y i) (here : nums[i]? = some num) (least : a ≤ num)
    (found : goTo nums i a = some k) : RoundAt a pattern nums (n + 1) k := by
  refine .next round ends.sublist_drop ?_
  have greatest := goTo_back here least found
  have same : {q | nums[q]? = some a ∧ ¬ pattern.Sublist ((nums.take q).drop y)} =
      {q | nums[q]? = some a ∧ q ≤ i} := by
    ext q
    simp only [Set.mem_ofPred_eq, ends q, Nat.not_lt]
  rwa [same]

/-- Where a round has come to its end, there is a way back to the next one. -/
theorem RoundAt.exists_goTo {n : Nat} (next : RoundAt a pattern nums (n + 1) k)
    (ends : ∀ y, RoundAt a pattern nums n y → Ends pattern nums y i) (here : nums[i]? = some num)
    (least : a ≤ num) : ∃ q, goTo nums i a = some q := by
  cases next with
  | next before complete last =>
      have order := (ends _ before k).not.mp last.1.2
      exact exists_goTo_back here least last.1.1 (Nat.le_of_not_lt order)

end Cursor

end Linked
