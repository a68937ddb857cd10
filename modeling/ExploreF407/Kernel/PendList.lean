import ExploreF407.Lib.Hook
import ExploreF407.Lib.Urgency

/-! # Pend lists

The tasks that wait for a kernel object, in the order of their priorities, as
`os_core.c` links them through `PendPrevPtr` and `PendNextPtr`. `PendObjPtr`
leads back from a task to its object. As for the ready lists each field of the
task control blocks is one function, and there is no result where a null pointer
would be followed.
-/

namespace ExploreF407.Kernel

open Linked Urgency

structure OsPendList (ι : Type*) where
  headPtr : Option ι
  tailPtr : Option ι
  deriving Repr, DecidableEq

structure PendLists (ι ο : Type*) where
  prevPtr : ι → Option ι
  nextPtr : ι → Option ι
  objPtr : ι → Option ο
  list : ο → OsPendList ι

variable {ι ο : Type*} [DecidableEq ι] [DecidableEq ο]

/-! ## The functions -/

/-- The part of `OS_PendListInsertPrio` behind the search, where `tcbNext` is the task to stand
    behind the new one. -/
def linkBefore (l : PendLists ι ο) (o : ο) (t : ι) : Option ι → Option (PendLists ι ο)
  | none =>
      (l.list o).tailPtr.map fun tail =>
        { l with
          nextPtr := Function.update (Function.update l.nextPtr t none) tail (some t)
          prevPtr := Function.update l.prevPtr t (some tail)
          list := Function.update l.list o { l.list o with tailPtr := some t } }
  | some tcbNext =>
      match l.prevPtr tcbNext with
      | none =>
          some { l with
            nextPtr := Function.update l.nextPtr t (some tcbNext)
            prevPtr := Function.update (Function.update l.prevPtr t none) tcbNext (some t)
            list := Function.update l.list o { l.list o with headPtr := some t } }
      | some tcbPrev =>
          some { l with
            nextPtr := Function.update (Function.update l.nextPtr t (some tcbNext)) tcbPrev (some t)
            prevPtr := Function.update (Function.update l.prevPtr t (some tcbPrev)) tcbNext (some t) }

/-- `OS_PendListInsertPrio`; the search is given `fuel` rounds. -/
def osPendListInsertPrio (fuel : Nat) (l : PendLists ι ο) (prio : ι → Nat) (o : ο) (t : ι) :
    Option (PendLists ι ο) :=
  match (l.list o).headPtr with
  | none =>
      some { l with
        nextPtr := Function.update l.nextPtr t none
        prevPtr := Function.update l.prevPtr t none
        list := Function.update l.list o { headPtr := some t, tailPtr := some t } }
  | some head =>
      (seek l.nextPtr (fun q => decide (prio t < prio q)) fuel (some head)).bind (linkBefore l o t)

/-- The part of `OS_PendListRemove` that closes the gap. -/
def unlinkPend (l : PendLists ι ο) (o : ο) (t : ι) : Option (PendLists ι ο) :=
  (l.list o).headPtr.bind fun head =>
    if l.nextPtr head = none then
      some { l with list := Function.update l.list o { headPtr := none, tailPtr := none } }
    else
      match l.prevPtr t with
      | none =>
          (l.nextPtr t).map fun next =>
            { l with
              prevPtr := Function.update l.prevPtr next none
              list := Function.update l.list o { l.list o with headPtr := some next } }
      | some prev =>
          match l.nextPtr t with
          | none =>
              some { l with
                nextPtr := Function.update l.nextPtr prev none
                list := Function.update l.list o { l.list o with tailPtr := some prev } }
          | some next =>
              some { l with
                nextPtr := Function.update l.nextPtr prev (some next)
                prevPtr := Function.update l.prevPtr next (some prev) }

def osPendListRemove (l : PendLists ι ο) (t : ι) : Option (PendLists ι ο) :=
  match l.objPtr t with
  | none => some l
  | some o =>
      (unlinkPend l o t).map fun l =>
        { l with
          nextPtr := Function.update l.nextPtr t none
          prevPtr := Function.update l.prevPtr t none
          objPtr := Function.update l.objPtr t none }

/-- `p_tcb->PendObjPtr = p_obj` and the insertion behind it, as `OS_Pend` and
    `OS_PendListChangePrio` have them. -/
def enlist (fuel : Nat) (l : PendLists ι ο) (prio : ι → Nat) (o : ο) (t : ι) :
    Option (PendLists ι ο) :=
  osPendListInsertPrio fuel { l with objPtr := Function.update l.objPtr t (some o) } prio o t

/-- `OS_PendListChangePrio`, after the priority of the task has changed. -/
def osPendListChangePrio (fuel : Nat) (l : PendLists ι ο) (prio : ι → Nat) (t : ι) :
    Option (PendLists ι ο) :=
  (l.objPtr t).bind fun o =>
    (l.list o).headPtr.bind fun head =>
      if l.nextPtr head = none then some l
      else (osPendListRemove l t).bind fun l => enlist fuel l prio o t

/-! ## What the lists hold -/

/-- `waiting o` are the tasks in the list of each object. -/
structure Pnd (l : PendLists ι ο) (waiting : ο → List ι) : Prop where
  listed : ∀ o, TwoEnded l.prevPtr l.nextPtr (l.list o).headPtr (l.list o).tailPtr (waiting o)
  object : ∀ t o, l.objPtr t = some o ↔ t ∈ waiting o

variable {l l' : PendLists ι ο} {waiting : ο → List ι} {o : ο} {t : ι} {nodes left right : List ι}
  {prio : ι → Nat} {fuel : Nat}

namespace Pnd

omit [DecidableEq ι] [DecidableEq ο] in
theorem apart (pnd : Pnd l waiting) {o o' : ο} (inO : t ∈ waiting o) (inO' : t ∈ waiting o') :
    o = o' :=
  Option.some.inj (((pnd.object t o).mpr inO).symm.trans ((pnd.object t o').mpr inO'))

omit [DecidableEq ι] in
theorem change (pnd : Pnd l waiting)
    (here : TwoEnded l'.prevPtr l'.nextPtr (l'.list o).headPtr (l'.list o).tailPtr nodes)
    (others : ∀ o', o' ≠ o → l'.list o' = l.list o')
    (frame : ∀ q, q ∉ waiting o → q ∉ nodes →
      l'.prevPtr q = l.prevPtr q ∧ l'.nextPtr q = l.nextPtr q)
    (object : ∀ q o', l'.objPtr q = some o' ↔
      if o' = o then q ∈ nodes else q ∈ waiting o') :
    Pnd l' (Function.update waiting o nodes) where
  listed := by
    intro o'
    by_cases same : o' = o
    · subst same
      simpa using here
    · simp only [Function.update_of_ne same, others o' same]
      apply (pnd.listed o').frame
      intro q member
      apply frame q
      · exact fun inside => same (pnd.apart member inside)
      · intro inside
        have now := (object q o).mpr (by simpa using inside)
        have still := (object q o').mpr (by simpa [same] using member)
        exact same (Option.some.inj (still.symm.trans now))
  object := by
    intro q o'
    by_cases same : o' = o
    · subst same
      simpa using object q o'
    · simpa [same] using object q o'

/-- What the insertion stores, for a task that comes between `left` and `right`. -/
theorem linkBefore_eq
    (list : TwoEnded l.prevPtr l.nextPtr (l.list o).headPtr (l.list o).tailPtr (left ++ right))
    (some' : left ++ right ≠ []) :
    linkBefore l o t right.head? = some { l with
      prevPtr := hook (Function.update l.prevPtr t left.getLast?) right.head? (some t)
      nextPtr := hook (Function.update l.nextPtr t right.head?) left.getLast? (some t)
      list := Function.update l.list o
        { headPtr := left.head?.or (some t), tailPtr := right.getLast?.or (some t) } } := by
  have head := list.head
  have tail := list.tail
  cases right with
  | nil =>
      simp only [List.append_nil] at some' head tail
      have ends := List.getLast?_eq_getLast_of_ne_nil some'
      have begins := List.head?_eq_some_head some'
      simp [linkBefore, head, tail, ends, begins]
  | cons q rest =>
      have prev := list.around.1
      rcases List.eq_nil_or_concat left with rfl | ⟨front, last, rfl⟩
      · simp only [List.getLast?_nil] at prev
        simp [linkBefore, prev, tail, List.getLast?_cons]
      · -- the ends of the list stay where they are
        have first : (front.concat last).head?.or (some t) = (l.list o).headPtr := by
          cases front <;> simp [head]
        have ends : (q :: rest).getLast?.or (some t) = (l.list o).tailPtr := by
          simp [tail, List.getLast?_cons]
        have same : Function.update l.list o
            { headPtr := (front.concat last).head?.or (some t)
              tailPtr := (q :: rest).getLast?.or (some t) } = l.list := by
          simp only [first, ends, Function.update_eq_self]
        have prev' : l.prevPtr q = some last := by simpa using prev
        simp only [same, linkBefore, List.head?_cons, prev', hook_some]
        simp

theorem enlist (pnd : Pnd l waiting) (prio : ι → Nat) (o : ο)
    (enough : (waiting o).length < fuel) (free : l.objPtr t = none) :
    ∃ l', Kernel.enlist fuel l prio o t = some l' ∧
      l'.objPtr = Function.update l.objPtr t (some o) ∧
      Pnd l' (Function.update waiting o (enqueue prio t (waiting o))) := by
  have fresh : ∀ o', t ∉ waiting o' := by
    intro o' member
    rw [(pnd.object t o').mpr member] at free
    cases free
  let left := (waiting o).takeWhile fun q => decide (prio q ≤ prio t)
  let right := (waiting o).dropWhile fun q => decide (prio q ≤ prio t)
  have whole : waiting o = left ++ right := List.takeWhile_append_dropWhile.symm
  have list : TwoEnded l.prevPtr l.nextPtr (l.list o).headPtr (l.list o).tailPtr (left ++ right) :=
    whole ▸ pnd.listed o
  have inserted := list.insert (whole ▸ fresh o)
  have order : enqueue prio t (waiting o) = left ++ t :: right := enqueue_eq prio t (waiting o)
  have stored : Kernel.enlist fuel l prio o t = some
      { prevPtr := hook (Function.update l.prevPtr t left.getLast?) right.head? (some t)
        nextPtr := hook (Function.update l.nextPtr t right.head?) left.getLast? (some t)
        objPtr := Function.update l.objPtr t (some o)
        list := Function.update l.list o
          { headPtr := left.head?.or (some t), tailPtr := right.getLast?.or (some t) } } := by
    let l₁ : PendLists ι ο := { l with objPtr := Function.update l.objPtr t (some o) }
    rcases head : (l.list o).headPtr with _ | first
    · have none' : left ++ right = [] := list.head_eq_none.mp head
      obtain ⟨noneL, noneR⟩ := List.append_eq_nil_iff.mp none'
      simp [Kernel.enlist, osPendListInsertPrio, head, noneL, noneR]
    · have some' : left ++ right ≠ [] := by
        intro none'
        rw [list.head_eq_none.mpr none'] at head
        cases head
      have chain : Points l.nextPtr (some first) (waiting o) := by
        have points := Behind.points_next (pnd.listed o).linked
        rwa [← (pnd.listed o).head, head] at points
      have found : (waiting o).find? (fun q => decide (prio t < prio q)) = right.head? := by
        rw [List.find?_eq_head?_dropWhile_not]
        simp only [right, ← decide_not, not_lt]
      have linked : linkBefore l₁ o t right.head? = _ := linkBefore_eq list some'
      simp only [Kernel.enlist, osPendListInsertPrio, head, chain.seek_eq _ enough, found,
        Option.bind_some]
      exact linked
  refine ⟨_, stored, rfl, ?_⟩
  rw [order]
  apply pnd.change
  · simpa using inserted
  · intro o' other
    simp [other]
  · intro q outside new
    simp only [whole, List.mem_append, not_or] at outside
    have other : q ≠ t := by
      rintro rfl
      simp at new
    simp only [hook_elsewhere (ne_head outside.2), hook_elsewhere (ne_getLast outside.1),
      Function.update_of_ne other, and_self]
  · intro q o'
    by_cases same : q = t
    · subst same
      simp only [Function.update_self, Option.some.injEq]
      split
      · rename_i here
        simp [here]
      · rename_i different
        simp [fresh o', Ne.symm different]
    · simp only [Function.update_of_ne same, pnd.object]
      split
      · rename_i here
        simp [here, whole, same]
      · rfl

/-- What the removal stores, for a task between `left` and `right`. -/
theorem unlinkPend_eq
    (list : TwoEnded l.prevPtr l.nextPtr (l.list o).headPtr (l.list o).tailPtr
      (left ++ t :: right)) :
    unlinkPend l o t = some { l with
      prevPtr := hook l.prevPtr right.head? left.getLast?
      nextPtr := hook l.nextPtr left.getLast? right.head?
      list := Function.update l.list o
        { headPtr := left.head?.or right.head?, tailPtr := right.getLast?.or left.getLast? } } := by
  obtain ⟨prev, next⟩ := list.around
  have head := list.head
  have tail := list.tail
  cases left with
  | nil =>
      simp only [List.nil_append, List.head?_cons] at head
      cases right with
      | nil => simp_all [unlinkPend]
      | cons q rest => simp_all [unlinkPend, List.getLast?_cons]
  | cons h front =>
      simp only [List.cons_append, List.head?_cons] at head
      -- the list has more than one entry
      have first : TwoEnded l.prevPtr l.nextPtr (l.list o).headPtr (l.list o).tailPtr
          ([] ++ h :: (front ++ t :: right)) := list
      have more : l.nextPtr h ≠ none := by
        rw [first.around.2]
        simp
      cases right with
      | nil => simp_all [unlinkPend, List.getLast?_cons]
      | cons q rest =>
          have same : Function.update l.list o
              { headPtr := some h, tailPtr := (l.list o).tailPtr } = l.list := by
            rw [← head]
            exact Function.update_eq_self o l.list
          simp_all [unlinkPend, List.getLast?_cons]

theorem remove (pnd : Pnd l waiting) (here : waiting o = left ++ t :: right) :
    ∃ l', osPendListRemove l t = some l' ∧ l'.objPtr = Function.update l.objPtr t none ∧
      Pnd l' (Function.update waiting o (left ++ right)) := by
  have list : TwoEnded l.prevPtr l.nextPtr (l.list o).headPtr (l.list o).tailPtr
      (left ++ t :: right) := here ▸ pnd.listed o
  have gone := list.notMem_rest
  have obj : l.objPtr t = some o := (pnd.object t o).mpr (by simp [here])
  refine ⟨_, by simp only [osPendListRemove, obj, unlinkPend_eq list, Option.map_some]; rfl, ?_, ?_⟩
  · rfl
  apply pnd.change
  · simpa using list.remove.elsewhere (x := none) (y := none) gone
  · intro o' other
    simp [other]
  · intro q outside _
    simp only [here, List.mem_append, List.mem_cons, not_or] at outside
    obtain ⟨notLeft, other, notRight⟩ := outside
    simp only [Function.update_of_ne other, hook_elsewhere (ne_head notRight),
      hook_elsewhere (ne_getLast notLeft), and_self]
  · intro q o'
    by_cases other : q = t
    · subst other
      simp only [Function.update_self, reduceCtorEq, false_iff]
      split
      · exact gone
      · rename_i different
        exact fun member => different (pnd.apart member (by simp [here]))
    · simp only [Function.update_of_ne other, pnd.object]
      split
      · rename_i same
        simp [same, here, other]
      · rfl

theorem erase (pnd : Pnd l waiting) (t : ι) :
    ∃ l', osPendListRemove l t = some l' ∧ l'.objPtr = Function.update l.objPtr t none ∧
      Pnd l' (fun o => (waiting o).erase t) := by
  rcases obj : l.objPtr t with _ | o
  · have nowhere : ∀ o, t ∉ waiting o := by
      intro o member
      rw [(pnd.object t o).mpr member] at obj
      cases obj
    have same : (fun o => (waiting o).erase t) = waiting := by
      funext o
      exact List.erase_of_not_mem (nowhere o)
    refine ⟨l, by simp [osPendListRemove, obj], ?_, ?_⟩
    · rw [← obj]
      exact (Function.update_eq_self t l.objPtr).symm
    · simpa only [same] using pnd
  · have member := (pnd.object t o).mp obj
    obtain ⟨left, right, here⟩ := List.append_of_mem member
    have list : TwoEnded l.prevPtr l.nextPtr (l.list o).headPtr (l.list o).tailPtr
        (left ++ t :: right) := here ▸ pnd.listed o
    obtain ⟨l', removed, objs, pnd'⟩ := pnd.remove here
    have apart : ∀ o', t ∈ waiting o' → o' = o := fun o' inside => pnd.apart inside member
    rw [update_erase here list.notMem_rest apart] at pnd'
    exact ⟨l', removed, objs, pnd'⟩

theorem changePrio (pnd : Pnd l waiting) (here : waiting o = left ++ t :: right)
    (enough : (left ++ right).length < fuel) :
    ∃ l', osPendListChangePrio fuel l prio t = some l' ∧ l'.objPtr = l.objPtr ∧
      Pnd l' (Function.update waiting o (enqueue prio t (left ++ right))) := by
  have list : TwoEnded l.prevPtr l.nextPtr (l.list o).headPtr (l.list o).tailPtr
      (left ++ t :: right) := here ▸ pnd.listed o
  have obj : l.objPtr t = some o := (pnd.object t o).mpr (by simp [here])
  have head := list.head
  by_cases alone : left ++ right = []
  · obtain ⟨rfl, rfl⟩ := List.append_eq_nil_iff.mp alone
    have next := list.around.2
    simp only [List.nil_append, List.head?_cons, List.head?_nil] at head next
    refine ⟨l, by simp [osPendListChangePrio, obj, head, next], rfl, ?_⟩
    have same : Function.update waiting o (enqueue prio t ([] ++ [])) = waiting := by
      simp [enqueue, here]
    simpa only [same] using pnd
  · obtain ⟨first, begins, more⟩ : ∃ first, (l.list o).headPtr = some first ∧
        l.nextPtr first ≠ none := by
      cases left with
      | nil =>
          simp only [List.nil_append] at alone head
          refine ⟨t, head, ?_⟩
          rw [list.around.2]
          simpa using alone
      | cons h front =>
          have whole : TwoEnded l.prevPtr l.nextPtr (l.list o).headPtr (l.list o).tailPtr
              ([] ++ h :: (front ++ t :: right)) := list
          refine ⟨h, head, ?_⟩
          rw [whole.around.2]
          simp
    obtain ⟨l₁, removed, objs, pnd₁⟩ := pnd.remove here
    have free : l₁.objPtr t = none := by simp [objs]
    obtain ⟨l₂, listed, objs₂, pnd₂⟩ := pnd₁.enlist prio o
      (by simpa only [Function.update_self] using enough) free
    refine ⟨l₂, ?_, ?_, by simpa using pnd₂⟩
    · simp [osPendListChangePrio, obj, begins, more, removed, listed]
    · simp [objs₂, objs, ← obj]

theorem reorder (pnd : Pnd l waiting) (prio : ι → Nat) (member : t ∈ waiting o)
    (enough : (waiting o).length < fuel) :
    ∃ l', osPendListChangePrio fuel l prio t = some l' ∧ l'.objPtr = l.objPtr ∧
      Pnd l' (Function.update waiting o (enqueue prio t ((waiting o).erase t))) := by
  obtain ⟨left, right, here⟩ := List.append_of_mem member
  have list : TwoEnded l.prevPtr l.nextPtr (l.list o).headPtr (l.list o).tailPtr
      (left ++ t :: right) := here ▸ pnd.listed o
  have front : t ∉ left := fun inside => list.notMem_rest (List.mem_append_left right inside)
  have gone : (waiting o).erase t = left ++ right := by
    rw [here, List.erase_append_right _ front, List.erase_cons_head]
  have shorter : (left ++ right).length < fuel := by
    rw [here] at enough
    simp only [List.length_append, List.length_cons] at enough ⊢
    omega
  rw [gone]
  exact pnd.changePrio here shorter

omit [DecidableEq ι] in
theorem clear (pnd : Pnd l waiting) (empty : waiting o = []) :
    Pnd { l with list := Function.update l.list o { headPtr := none, tailPtr := none } } waiting where
  listed := by
    intro o'
    by_cases same : o' = o
    · subst same
      simpa [empty] using TwoEnded.empty
    · simpa [same] using pnd.listed o'
  object := pnd.object

omit [DecidableEq ο] in
theorem elsewhere (pnd : Pnd l waiting) (outside : ∀ o, t ∉ waiting o) :
    Pnd { l with
      prevPtr := Function.update l.prevPtr t none
      nextPtr := Function.update l.nextPtr t none
      objPtr := Function.update l.objPtr t none } waiting where
  listed := fun o => (pnd.listed o).elsewhere (outside o)
  object := by
    intro q o
    by_cases same : q = t
    · subst same
      simp [outside o]
    · simpa [same] using pnd.object q o

end Pnd

end ExploreF407.Kernel
