import ExploreF407.Lib.Hook
import ExploreF407.Kernel.Prio

/-! # Ready lists

One doubly linked list of tasks for each priority, as `os_core.c` keeps them in
`OSRdyList` and in the fields `NextPtr` and `PrevPtr` of the task control
blocks, beside the bitmap of `os_prio.c`. The fields of all control blocks stand
in one function for each field. A function returns `none` where it would follow
a null pointer.
-/

namespace ExploreF407.Kernel

open Linked

structure OsRdyList (ι : Type*) where
  headPtr : Option ι
  tailPtr : Option ι
  deriving Repr, DecidableEq

structure RdyLists (ι : Type*) where
  prevPtr : ι → Option ι
  nextPtr : ι → Option ι
  list : Nat → OsRdyList ι
  prioTbl : BitVec 32

variable {ι : Type*} [DecidableEq ι]

/-! ## The functions -/

/-- `OS_RdyListInsertHead`; `prio` is the priority of the task. -/
def osRdyListInsertHead (r : RdyLists ι) (prio : Nat) (t : ι) : RdyLists ι :=
  match (r.list prio).headPtr with
  | none =>
      { r with
        nextPtr := Function.update r.nextPtr t none
        prevPtr := Function.update r.prevPtr t none
        list := Function.update r.list prio { headPtr := some t, tailPtr := some t } }
  | some tcb2 =>
      { r with
        nextPtr := Function.update r.nextPtr t (some tcb2)
        prevPtr := Function.update (Function.update r.prevPtr t none) tcb2 (some t)
        list := Function.update r.list prio { r.list prio with headPtr := some t } }

def osRdyListInsertTail (r : RdyLists ι) (prio : Nat) (t : ι) : Option (RdyLists ι) :=
  match (r.list prio).headPtr with
  | none =>
      some { r with
        nextPtr := Function.update r.nextPtr t none
        prevPtr := Function.update r.prevPtr t none
        list := Function.update r.list prio { headPtr := some t, tailPtr := some t } }
  | some _ =>
      (r.list prio).tailPtr.map fun tcb2 =>
        { r with
          nextPtr := Function.update (Function.update r.nextPtr t none) tcb2 (some t)
          prevPtr := Function.update r.prevPtr t (some tcb2)
          list := Function.update r.list prio { r.list prio with tailPtr := some t } }

/-- `OS_RdyListInsert`; `prioCur` is `OSPrioCur`. -/
def osRdyListInsert (r : RdyLists ι) (prioCur prio : Nat) (t : ι) : Option (RdyLists ι) :=
  let r := { r with prioTbl := osPrioInsert r.prioTbl prio }
  if prio = prioCur then osRdyListInsertTail r prio t
  else some (osRdyListInsertHead r prio t)

def osRdyListMoveHeadToTail (r : RdyLists ι) (prio : Nat) : Option (RdyLists ι) :=
  let l := r.list prio
  if l.headPtr = l.tailPtr then some r
  else
    l.headPtr.bind fun tcb1 =>
      l.tailPtr.bind fun tcb2 =>
        if r.nextPtr tcb1 = some tcb2 then
          -- the two tasks change places
          some { r with
            prevPtr := Function.update (Function.update r.prevPtr tcb1 (some tcb2)) tcb2 none
            nextPtr := Function.update (Function.update r.nextPtr tcb1 none) tcb2 (some tcb1)
            list := Function.update r.list prio { headPtr := some tcb2, tailPtr := some tcb1 } }
        else
          (r.nextPtr tcb1).map fun tcb3 =>
            { r with
              prevPtr := Function.update (Function.update r.prevPtr tcb3 none) tcb1 (some tcb2)
              nextPtr := Function.update (Function.update r.nextPtr tcb1 none) tcb2 (some tcb1)
              list := Function.update r.list prio { headPtr := some tcb3, tailPtr := some tcb1 } }

/-- The part of `OS_RdyListRemove` that closes the gap. -/
def closeGap (r : RdyLists ι) (prio : Nat) (t : ι) : RdyLists ι :=
  match r.prevPtr t, r.nextPtr t with
  | none, none =>
      { r with
        list := Function.update r.list prio { headPtr := none, tailPtr := none }
        prioTbl := osPrioRemove r.prioTbl prio }
  | none, some tcb2 =>
      { r with
        prevPtr := Function.update r.prevPtr tcb2 none
        list := Function.update r.list prio { r.list prio with headPtr := some tcb2 } }
  | some tcb1, none =>
      { r with
        nextPtr := Function.update r.nextPtr tcb1 none
        list := Function.update r.list prio { r.list prio with tailPtr := some tcb1 } }
  | some tcb1, some tcb2 =>
      { r with
        nextPtr := Function.update r.nextPtr tcb1 (some tcb2)
        prevPtr := Function.update r.prevPtr tcb2 (some tcb1) }

def osRdyListRemove (r : RdyLists ι) (prio : Nat) (t : ι) : RdyLists ι :=
  let r := closeGap r prio t
  { r with
    prevPtr := Function.update r.prevPtr t none
    nextPtr := Function.update r.nextPtr t none }

/-- The task that `OSSched` makes `OSTCBHighRdyPtr`. -/
def highRdy (r : RdyLists ι) : Option ι := (r.list (osPrioGetHighest r.prioTbl)).headPtr

/-! ## What the lists hold -/

/-- `ready prio` are the tasks in the list of each priority, and the bitmap has a bit for each
    priority with a task. -/
structure Rdy (r : RdyLists ι) (ready : Nat → List ι) : Prop where
  listed : ∀ p, TwoEnded r.prevPtr r.nextPtr (r.list p).headPtr (r.list p).tailPtr (ready p)
  apart : ∀ p q t, t ∈ ready p → t ∈ ready q → p = q
  marked : ∀ p, r.prioTbl.getMsbD p = true ↔ ready p ≠ []

variable {r r' : RdyLists ι} {ready : Nat → List ι} {prio : Nat} {t : ι} {nodes left right : List ι}

namespace Rdy

omit [DecidableEq ι] in
theorem change (rdy : Rdy r ready)
    (here : TwoEnded r'.prevPtr r'.nextPtr (r'.list prio).headPtr (r'.list prio).tailPtr nodes)
    (others : ∀ p, p ≠ prio → r'.list p = r.list p)
    (frame : ∀ q, q ∉ ready prio → q ∉ nodes →
      r'.prevPtr q = r.prevPtr q ∧ r'.nextPtr q = r.nextPtr q)
    (fresh : ∀ q ∈ nodes, q ∈ ready prio ∨ ∀ p, q ∉ ready p)
    (bits : ∀ p, r'.prioTbl.getMsbD p =
      if p = prio then decide (nodes ≠ []) else r.prioTbl.getMsbD p) :
    Rdy r' (Function.update ready prio nodes) where
  listed := by
    intro p
    by_cases same : p = prio
    · subst same
      simpa using here
    · simp only [Function.update_of_ne same, others p same]
      apply (rdy.listed p).frame
      intro q member
      have notHere : q ∉ ready prio := fun inside => same (rdy.apart p prio q member inside)
      apply frame q notHere
      intro inside
      rcases fresh q inside with old | new
      · exact notHere old
      · exact new p member
  apart := by
    have moved : ∀ p q t, p ≠ prio → t ∈ ready p → t ∈ nodes → q = p := by
      intro p q t other member inside
      rcases fresh t inside with old | new
      · exact absurd (rdy.apart p prio t member old) other
      · exact absurd member (new p)
    intro p q t inP inQ
    by_cases atP : p = prio <;> by_cases atQ : q = prio
    · rw [atP, atQ]
    · subst atP
      simp only [Function.update_self, Function.update_of_ne atQ] at inP inQ
      exact moved q p t atQ inQ inP
    · subst atQ
      simp only [Function.update_self, Function.update_of_ne atP] at inP inQ
      exact (moved p q t atP inP inQ).symm
    · simp only [Function.update_of_ne atP, Function.update_of_ne atQ] at inP inQ
      exact rdy.apart p q t inP inQ
  marked := by
    intro p
    by_cases same : p = prio
    · subst same
      simp [bits]
    · simp [bits, same, rdy.marked]

omit [DecidableEq ι] in
theorem inside (rdy : Rdy r ready) {p : Nat} (some' : ready p ≠ []) : p < 32 := by
  by_contra beyond
  have outside := BitVec.getMsbD_of_ge r.prioTbl p (Nat.le_of_not_lt beyond)
  have marked := (rdy.marked p).mpr some'
  simp [outside] at marked

omit [DecidableEq ι] in
theorem marked_insert (below : prio < 32) (some' : nodes ≠ []) (p : Nat) :
    (osPrioInsert r.prioTbl prio).getMsbD p =
      if p = prio then decide (nodes ≠ []) else r.prioTbl.getMsbD p := by
  simp only [getMsbD_osPrioInsert below]
  by_cases same : p = prio <;> simp [same, some']

theorem insertHead (rdy : Rdy r ready) (below : prio < 32) (fresh : ∀ p, t ∉ ready p) :
    Rdy (osRdyListInsertHead { r with prioTbl := osPrioInsert r.prioTbl prio } prio t)
      (Function.update ready prio (t :: ready prio)) := by
  have list : TwoEnded r.prevPtr r.nextPtr (r.list prio).headPtr (r.list prio).tailPtr
      ([] ++ ready prio) := rdy.listed prio
  have inserted := list.insert (fresh prio)
  have head := list.head
  have tail := list.tail
  have some' : t :: ready prio ≠ [] := List.cons_ne_nil t _
  rcases more : ready prio with _ | ⟨h, rest⟩
  · simp only [more, List.append_nil, List.head?_nil, List.getLast?_nil] at inserted head
    refine rdy.change ?_ ?_ ?_ ?_ ?_
    · simpa [osRdyListInsertHead, head] using inserted
    · intro p other
      simp [osRdyListInsertHead, head, other]
    · intro q _ outside
      have other : q ≠ t := by simpa using outside
      simp [osRdyListInsertHead, head, other]
    · intro q member
      simp only [List.mem_singleton] at member
      exact .inr (member ▸ fresh)
    · simpa [osRdyListInsertHead, head, more] using marked_insert below some'
  · simp only [more, List.nil_append, List.head?_cons] at inserted head tail
    refine rdy.change ?_ ?_ ?_ ?_ ?_
    · refine { linked := ?_, head := ?_, tail := ?_ }
      · simpa [osRdyListInsertHead, head] using inserted.linked
      · simp [osRdyListInsertHead, head]
      · simp [osRdyListInsertHead, head, tail, List.getLast?_cons]
    · intro p other
      simp [osRdyListInsertHead, head, other]
    · intro q old outside
      simp only [more, List.mem_cons, not_or] at old outside
      simp [osRdyListInsertHead, head, old.1, outside.1]
    · intro q member
      rcases List.mem_cons.mp member with rfl | old
      · exact .inr fresh
      · exact .inl (more ▸ old)
    · simpa [osRdyListInsertHead, head, more] using marked_insert below some'

theorem insertTail (rdy : Rdy r ready) (below : prio < 32) (fresh : ∀ p, t ∉ ready p) :
    ∃ r', osRdyListInsertTail { r with prioTbl := osPrioInsert r.prioTbl prio } prio t = some r' ∧
      Rdy r' (Function.update ready prio (ready prio ++ [t])) := by
  have list : TwoEnded r.prevPtr r.nextPtr (r.list prio).headPtr (r.list prio).tailPtr
      (ready prio ++ []) := by simpa using rdy.listed prio
  have inserted := list.insert (by simpa using fresh prio)
  have head := (rdy.listed prio).head
  have tail := (rdy.listed prio).tail
  rcases List.eq_nil_or_concat (ready prio) with none' | ⟨front, last, more⟩
  · -- in an empty list the last place is the first one
    have same := rdy.insertHead below fresh
    simp only [none', List.head?_nil] at head same
    refine ⟨_, ?_, by simpa [none'] using same⟩
    simp [osRdyListInsertTail, osRdyListInsertHead, head]
  · simp only [List.concat_eq_append] at more
    have first : ∃ h, (r.list prio).headPtr = some h := by
      cases front with
      | nil => exact ⟨last, by simpa [more] using head⟩
      | cons h rest => exact ⟨h, by simpa [more] using head⟩
    obtain ⟨h, first⟩ := first
    have last' : (r.list prio).tailPtr = some last := by simpa [more] using tail
    simp only [more, List.getLast?_append, List.getLast?_singleton, Option.some_or,
      List.head?_nil] at inserted
    refine ⟨_, by simp only [osRdyListInsertTail, first, last', Option.map_some]; rfl, ?_⟩
    apply rdy.change
    · refine { linked := ?_, head := ?_, tail := ?_ }
      · simpa [more] using inserted.linked
      · cases front <;> simp_all
      · simp
    · intro p other
      simp [other]
    · intro q old outside
      simp only [more, List.mem_append, List.mem_singleton, not_or] at old outside
      simp [old.2, outside.2]
    · intro q member
      rcases List.mem_append.mp member with old | new
      · exact .inl old
      · exact .inr (List.mem_singleton.mp new ▸ fresh)
    · exact marked_insert below (by simp)

/-- A task becomes ready: behind the others when its priority is that of the running task, and
    otherwise before them. -/
theorem insert (rdy : Rdy r ready) (below : prio < 32) (fresh : ∀ p, t ∉ ready p)
    (prioCur : Nat) :
    ∃ r', osRdyListInsert r prioCur prio t = some r' ∧
      Rdy r' (Function.update ready prio
        (if prio = prioCur then ready prio ++ [t] else t :: ready prio)) := by
  by_cases same : prio = prioCur
  · obtain ⟨r', inserted, rdy'⟩ := rdy.insertTail below fresh
    refine ⟨r', ?_, ?_⟩
    · simpa only [osRdyListInsert, if_pos same] using inserted
    · simpa only [if_pos same] using rdy'
  · refine ⟨osRdyListInsertHead { r with prioTbl := osPrioInsert r.prioTbl prio } prio t, ?_, ?_⟩
    · simp only [osRdyListInsert, if_neg same]
    · simpa only [if_neg same] using rdy.insertHead below fresh

theorem moveHeadToTail (rdy : Rdy r ready) (here : ready prio = t :: nodes) :
    ∃ r', osRdyListMoveHeadToTail r prio = some r' ∧ r'.prioTbl = r.prioTbl ∧
      Rdy r' (Function.update ready prio (nodes ++ [t])) := by
  have list : TwoEnded r.prevPtr r.nextPtr (r.list prio).headPtr (r.list prio).tailPtr
      ([] ++ t :: nodes) := by simpa [here] using rdy.listed prio
  have head := list.head
  have tail := list.tail
  have next := list.around.2
  simp only [List.nil_append, List.head?_cons, List.getLast?_cons] at head tail
  obtain ⟨alone, once⟩ := List.nodup_cons.mp list.nodup
  cases nodes with
  | nil =>
      refine ⟨r, ?_, rfl, ?_⟩
      · simp [osRdyListMoveHeadToTail, head, tail]
      · have same : Function.update ready prio ([] ++ [t]) = ready := by simp [← here]
        simpa only [same] using rdy
  | cons h rest =>
      have moved := (here ▸ rdy.listed prio : TwoEnded _ _ _ _ (t :: h :: rest)).rotate
      obtain ⟨last, ends⟩ : ∃ last, (h :: rest).getLast? = some last :=
        ⟨_, List.getLast?_eq_getLast_of_ne_nil (List.cons_ne_nil h rest)⟩
      have member : last ∈ h :: rest := List.mem_of_getLast? ends
      have different : t ≠ last := fun same => alone (same ▸ member)
      simp only [ends, Option.getD_some, List.head?_cons, hook_some] at tail moved next
      have marked : ∀ p, r.prioTbl.getMsbD p =
          if p = prio then decide (h :: rest ++ [t] ≠ []) else r.prioTbl.getMsbD p := by
        intro p
        by_cases same : p = prio
        · have set := (rdy.marked prio).mpr (by simp [here])
          simp [same, set]
        · simp [same]
      have old : ∀ q ∈ h :: rest ++ [t], q ∈ ready prio := by
        intro q inside
        simp only [here, List.mem_append, List.mem_cons] at inside ⊢
        tauto
      have ending : (h :: rest ++ [t]).getLast? = some t := List.getLast?_concat ..
      by_cases two : h = last
      · subst two
        refine ⟨_, by simp [osRdyListMoveHeadToTail, head, tail, next, different]; rfl, ?_, ?_⟩
        · rfl
        apply rdy.change
        · refine { linked := ?_, head := ?_, tail := ?_ }
          · simpa only [Function.update_comm different] using moved
          · simp
          · simpa only [Function.update_self] using ending.symm
        · intro p other
          simp [other]
        · intro q outside _
          simp only [here, List.mem_cons, not_or] at outside
          simp [outside.1, outside.2.1]
        · exact fun q inside => .inl (old q inside)
        · exact marked
      · refine ⟨_, by simp [osRdyListMoveHeadToTail, head, tail, next, different, two]; rfl, ?_, ?_⟩
        · rfl
        apply rdy.change
        · refine { linked := ?_, head := ?_, tail := ?_ }
          · exact moved
          · simp
          · simpa only [Function.update_self] using ending.symm
        · intro p other
          simp [other]
        · intro q outside _
          have notLast : q ≠ last := by
            rintro rfl
            exact outside (here ▸ List.mem_cons_of_mem t member)
          simp only [here, List.mem_cons, not_or] at outside
          simp [outside.1, outside.2.1, notLast]
        · exact fun q inside => .inl (old q inside)
        · exact marked

theorem closeGap_eq (r : RdyLists ι) (prio : Nat) (t : ι) :
    closeGap r prio t =
      { prevPtr := hook r.prevPtr (r.nextPtr t) (r.prevPtr t)
        nextPtr := hook r.nextPtr (r.prevPtr t) (r.nextPtr t)
        list := Function.update r.list prio
          { headPtr := if r.prevPtr t = none then r.nextPtr t else (r.list prio).headPtr
            tailPtr := if r.nextPtr t = none then r.prevPtr t else (r.list prio).tailPtr }
        prioTbl :=
          if r.prevPtr t = none ∧ r.nextPtr t = none then osPrioRemove r.prioTbl prio
          else r.prioTbl } := by
  rcases prev : r.prevPtr t with _ | tcb1 <;> rcases next : r.nextPtr t with _ | tcb2 <;>
    simp [closeGap, prev, next]

theorem remove (rdy : Rdy r ready) (here : ready prio = left ++ t :: right) :
    Rdy (osRdyListRemove r prio t) (Function.update ready prio (left ++ right)) := by
  have list : TwoEnded r.prevPtr r.nextPtr (r.list prio).headPtr (r.list prio).tailPtr
      (left ++ t :: right) := here ▸ rdy.listed prio
  obtain ⟨prev, next⟩ := list.around
  have below : prio < 32 := rdy.inside (by simp [here])
  have removed := list.remove
  have head := list.head
  have tail := list.tail
  have gone := list.notMem_rest
  apply rdy.change
  · refine { linked := ?_, head := ?_, tail := ?_ }
    · have cleared := removed.elsewhere (x := none) (y := none) gone
      simpa [osRdyListRemove, closeGap_eq, prev, next] using cleared.linked
    · cases left <;> simp_all [osRdyListRemove, closeGap_eq]
    · cases right <;> simp_all [osRdyListRemove, closeGap_eq, List.getLast?_append]
  · intro p other
    simp [osRdyListRemove, closeGap_eq, other]
  · intro q outside _
    simp only [here, List.mem_append, List.mem_cons, not_or] at outside
    obtain ⟨notLeft, other, notRight⟩ := outside
    simp only [osRdyListRemove, closeGap_eq, prev, next, Function.update_of_ne other,
      hook_elsewhere (ne_head notRight), hook_elsewhere (ne_getLast notLeft), and_self]
  · intro q inside
    refine .inl ?_
    simp only [here, List.mem_append, List.mem_cons] at inside ⊢
    tauto
  · intro p
    have set := (rdy.marked prio).mpr (by simp [here])
    simp only [osRdyListRemove, closeGap_eq, prev, next, List.getLast?_eq_none_iff,
      List.head?_eq_none_iff]
    by_cases empty : left = [] ∧ right = []
    · simp only [if_pos empty, getMsbD_osPrioRemove below]
      by_cases same : p = prio <;> simp [same, empty]
    · simp only [if_neg empty]
      by_cases same : p = prio
      · simp [same, set]
        tauto
      · simp [same]

/-- The same for a task that is told by its place among the ready ones. -/
theorem erase (rdy : Rdy r ready) (member : t ∈ ready prio) :
    Rdy (osRdyListRemove r prio t) (fun p => (ready p).erase t) := by
  obtain ⟨left, right, here⟩ := List.append_of_mem member
  have list : TwoEnded r.prevPtr r.nextPtr (r.list prio).headPtr (r.list prio).tailPtr
      (left ++ t :: right) := here ▸ rdy.listed prio
  have apart : ∀ p, t ∈ ready p → p = prio := fun p inside => rdy.apart p prio t inside member
  have removed := rdy.remove here
  rwa [update_erase here list.notMem_rest apart] at removed

theorem elsewhere (rdy : Rdy r ready) (outside : ∀ p, t ∉ ready p) :
    Rdy { r with
      prevPtr := Function.update r.prevPtr t none
      nextPtr := Function.update r.nextPtr t none } ready where
  listed := fun p => (rdy.listed p).elsewhere (outside p)
  apart := rdy.apart
  marked := rdy.marked

omit [DecidableEq ι] in
theorem highRdy_eq (rdy : Rdy r ready) {p : Nat} (some' : ready p ≠ []) :
    IsLeast {p | ready p ≠ []} (osPrioGetHighest r.prioTbl) ∧
      highRdy r = (ready (osPrioGetHighest r.prioTbl)).head? := by
  have filled : r.prioTbl ≠ 0#32 := by
    intro zero
    have set := (rdy.marked p).mpr some'
    simp [zero] at set
  have least := osPrioGetHighest_isLeast filled
  simp only [rdy.marked] at least
  exact ⟨least, (rdy.listed _).head⟩

end Rdy

end ExploreF407.Kernel
