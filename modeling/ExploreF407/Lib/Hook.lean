import ExploreF407.Lib.Relink

/-! # Surgery on doubly linked lists

A list is cut into segments, and segments are hooked together: the last node of
the front one and the first node of the back one get a new link each, where they
exist. Removing a node and inserting one are two ways of hooking segments.
-/

namespace Linked

variable {ι : Type*} {prev next prev' next' : ι → Option ι} {before after x y head tail : Option ι}
  {nodes left right : List ι} {p : ι}

theorem Between.frame (linked : Between prev next before nodes after)
    (same : ∀ q ∈ nodes, prev' q = prev q ∧ next' q = next q) :
    Between prev' next' before nodes after := by
  induction nodes generalizing before with
  | nil => trivial
  | cons q rest ih =>
      obtain ⟨back, forth, linked⟩ := linked
      obtain ⟨samePrev, sameNext⟩ := same q List.mem_cons_self
      refine ⟨samePrev.trans back, sameNext.trans forth, ?_⟩
      exact ih linked fun r member => same r (List.mem_cons_of_mem q member)

theorem between_append : Between prev next before (left ++ right) after ↔
    Between prev next before left (right.head?.or after) ∧
      Between prev next (left.getLast?.or before) right after := by
  induction left generalizing before with
  | nil => simp [Between]
  | cons q left ih =>
      have last : (left.getLast?.or (some q)) = (q :: left).getLast?.or before := by
        cases left <;> simp [List.getLast?_cons]
      have first : (left ++ right).head?.or after = left.head?.or (right.head?.or after) := by
        cases left <;> simp
      simp only [List.cons_append, Between, ih, last, first]
      tauto

/-- The pointers that are followed from one node to the next name each node once. -/
theorem Both.nodup (linked : Both prev next nodes) : nodes.Nodup :=
  (Behind.points_next linked).nodup

section Store

variable [DecidableEq ι]

/-- A store to the link of a node, where there is a node. -/
def hook (link : ι → Option ι) (node x : Option ι) : ι → Option ι :=
  match node with
  | none => link
  | some p => Function.update link p x

@[simp] theorem hook_none (link : ι → Option ι) : hook link none x = link := rfl

@[simp] theorem hook_some (link : ι → Option ι) : hook link (some p) x = Function.update link p x :=
  rfl

theorem hook_elsewhere {link : ι → Option ι} {node : Option ι} (other : some p ≠ node) :
    hook link node x p = link p := by
  cases node with
  | none => rfl
  | some q =>
      have different : p ≠ q := by
        rintro rfl
        exact other rfl
      exact Function.update_of_ne different x link

omit [DecidableEq ι] in
theorem ne_head (outside : p ∉ nodes) : some p ≠ nodes.head? := by
  intro same
  exact outside (List.mem_of_mem_head? same.symm)

omit [DecidableEq ι] in
theorem ne_getLast (outside : p ∉ nodes) : some p ≠ nodes.getLast? := by
  intro same
  exact outside (List.mem_of_getLast? same.symm)

theorem Between.relast (linked : Between prev next before left x) (once : left.Nodup) :
    Between prev (hook next left.getLast? y) before left y := by
  induction left generalizing before with
  | nil => trivial
  | cons q rest ih =>
      obtain ⟨back, forth, linked⟩ := linked
      obtain ⟨fresh, once⟩ := List.nodup_cons.mp once
      cases rest with
      | nil => exact ⟨back, by simp, trivial⟩
      | cons r rest =>
          have other : some q ≠ (r :: rest).getLast? := by
            intro same
            exact fresh (List.mem_of_getLast? same.symm)
          simp only [List.getLast?_cons_cons] at *
          exact ⟨back, (hook_elsewhere other).trans forth, ih linked once⟩

theorem Between.refirst (linked : Between prev next x right after) (once : right.Nodup) :
    Between (hook prev right.head? y) next y right after := by
  cases right with
  | nil => trivial
  | cons q rest =>
      obtain ⟨-, forth, linked⟩ := linked
      refine ⟨by simp, forth, linked.frame ?_⟩
      intro r member
      refine ⟨hook_elsewhere ?_, rfl⟩
      rintro same
      cases same
      exact (List.nodup_cons.mp once).1 member

theorem Between.join (front : Between prev next before left x)
    (back : Between prev next y right after) (once : (left ++ right).Nodup) :
    Between (hook prev right.head? (left.getLast?.or before))
      (hook next left.getLast? (right.head?.or after)) before (left ++ right) after := by
  obtain ⟨onceL, onceR, apart⟩ := List.nodup_append'.mp once
  refine between_append.mpr ⟨?_, ?_⟩
  · apply (front.relast onceL).frame
    intro q member
    exact ⟨hook_elsewhere (ne_head (apart member)), rfl⟩
  · apply (back.refirst onceR).frame
    intro q member
    exact ⟨rfl, hook_elsewhere (ne_getLast fun inside => apart inside member)⟩

end Store

/-- In a family of lists that share no node, a node is taken out of the list it stands in. -/
theorem update_erase {κ : Type*} [DecidableEq κ] [DecidableEq ι] {family : κ → List ι} {k : κ}
    (here : family k = left ++ p :: right) (once : p ∉ left ++ right)
    (apart : ∀ k', p ∈ family k' → k' = k) :
    Function.update family k (left ++ right) = fun k' => (family k').erase p := by
  funext k'
  by_cases same : k' = k
  · subst same
    have front : p ∉ left := fun member => once (List.mem_append_left right member)
    simp only [Function.update_self, here, List.erase_append_right _ front, List.erase_cons_head]
  · have outside : p ∉ family k' := fun member => same (apart k' member)
    simp only [Function.update_of_ne same, List.erase_of_not_mem outside]

/-! ## Lists with two ends -/

/-- A doubly linked list, with pointers to its first and its last node. -/
structure TwoEnded (prev next : ι → Option ι) (head tail : Option ι) (nodes : List ι) :
    Prop where
  linked : Both prev next nodes
  head : head = nodes.head?
  tail : tail = nodes.getLast?

namespace TwoEnded

theorem empty : TwoEnded prev next none none [] where
  linked := trivial
  head := rfl
  tail := rfl

theorem nodup (list : TwoEnded prev next head tail nodes) : nodes.Nodup := list.linked.nodup

theorem frame (list : TwoEnded prev next head tail nodes)
    (same : ∀ q ∈ nodes, prev' q = prev q ∧ next' q = next q) :
    TwoEnded prev' next' head tail nodes :=
  { list with linked := between_none.mp ((between_none.mpr list.linked).frame same) }

theorem head_eq_none (list : TwoEnded prev next head tail nodes) : head = none ↔ nodes = [] := by
  rw [list.head, List.head?_eq_none_iff]

theorem around (list : TwoEnded prev next head tail (left ++ p :: right)) :
    prev p = left.getLast? ∧ next p = right.head? := by
  have linked := (between_append.mp (between_none.mpr list.linked)).2
  simpa using And.intro linked.1 linked.2.1

variable [DecidableEq ι]

theorem remove (list : TwoEnded prev next head tail (left ++ p :: right)) :
    TwoEnded (hook prev right.head? left.getLast?) (hook next left.getLast? right.head?)
      (left.head?.or right.head?) (right.getLast?.or left.getLast?) (left ++ right) where
  linked := by
    obtain ⟨front, back⟩ := between_append.mp (between_none.mpr list.linked)
    have once := list.nodup.sublist ((List.sublist_cons_self p right).append_left left)
    simpa [Both, between_none] using front.join back.2.2 once
  head := List.head?_append.symm
  tail := by
    cases right <;> simp [List.getLast?_append]

theorem elsewhere (list : TwoEnded prev next head tail nodes) (outside : p ∉ nodes) :
    TwoEnded (Function.update prev p x) (Function.update next p y) head tail nodes := by
  apply list.frame
  intro q member
  have other : q ≠ p := by
    rintro rfl
    exact outside member
  simp only [Function.update_of_ne other, and_self]

omit [DecidableEq ι] in
theorem notMem_rest (list : TwoEnded prev next head tail (left ++ p :: right)) :
    p ∉ left ++ right := by
  have perm : (left ++ p :: right).Perm (p :: (left ++ right)) := List.perm_middle
  exact (List.nodup_cons.mp (perm.nodup_iff.mp list.nodup)).1

theorem insert (list : TwoEnded prev next head tail (left ++ right)) (fresh : p ∉ left ++ right) :
    TwoEnded (hook (Function.update prev p left.getLast?) right.head? (some p))
      (hook (Function.update next p right.head?) left.getLast? (some p))
      (left.head?.or (some p)) (right.getLast?.or (some p)) (left ++ p :: right) where
  linked := by
    obtain ⟨front, back⟩ := between_append.mp (between_none.mpr list.linked)
    obtain ⟨onceL, onceR, apart⟩ := List.nodup_append'.mp list.nodup
    have other : ∀ q ∈ left ++ right, q ≠ p := by
      rintro q member rfl
      exact fresh member
    -- none of the stores behind the first two is to the new node
    have notLast : some p ≠ left.getLast? :=
      ne_getLast fun inside => fresh (List.mem_append_left right inside)
    have notFirst : some p ≠ right.head? :=
      ne_head fun inside => fresh (List.mem_append_right left inside)
    simp only [Option.or_none] at front back
    apply between_none.mp
    refine between_append.mpr ⟨?_, ?_, ?_, ?_⟩
    · have front' := front.relast (y := some p) onceL
      simp only [List.head?_cons, Option.some_or]
      apply front'.frame
      intro q member
      have different := other q (List.mem_append_left right member)
      have notRight : some q ≠ right.head? := ne_head (apart member)
      constructor
      · simp only [hook_elsewhere notRight, Function.update_of_ne different]
      · by_cases last : some q = left.getLast?
        · simp [← last]
        · simp only [hook_elsewhere last, Function.update_of_ne different]
    · simp [hook_elsewhere notFirst]
    · simp [hook_elsewhere notLast]
    · have back' := back.refirst (y := some p) onceR
      apply back'.frame
      intro q member
      have different := other q (List.mem_append_right left member)
      have notLeft : some q ≠ left.getLast? := ne_getLast fun inside => apart inside member
      constructor
      · by_cases first : some q = right.head?
        · simp [← first]
        · simp only [hook_elsewhere first, Function.update_of_ne different]
      · simp only [hook_elsewhere notLeft, Function.update_of_ne different]
  head := by
    cases left <;> rfl
  tail := by
    cases right <;> simp [List.getLast?_append, List.getLast?_cons]

theorem rotate (list : TwoEnded prev next head tail (p :: nodes)) :
    Both (Function.update (hook prev nodes.head? none) p nodes.getLast?)
      (hook (Function.update next p none) nodes.getLast? (some p)) (nodes ++ [p]) := by
  have first : TwoEnded prev next head tail ([] ++ p :: nodes) := list
  have behind : TwoEnded (hook prev nodes.head? none) next nodes.head? nodes.getLast?
      (nodes ++ []) := by simpa using first.remove
  have outside : p ∉ nodes ++ [] := by simpa using first.notMem_rest
  simpa using (behind.insert outside).linked

end TwoEnded

end Linked
