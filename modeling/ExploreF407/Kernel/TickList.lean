import ExploreF407.Lib.Hook
import ExploreF407.Lib.Delta

/-! # The tick list

The tasks that wait for a time, as `os_tick.c` links them from `OSTickList`.
`TickRemain` of a task says how many ticks it waits longer than the task before
it. Ticks are counted in 32 bits. There is no result where a null pointer would
be followed.
-/

namespace ExploreF407.Kernel

open Linked Urgency Delta

structure TickList (ι : Type*) where
  prevPtr : ι → Option ι
  nextPtr : ι → Option ι
  remain : ι → Nat
  tcbPtr : Option ι
  /-- `OSTickCtr`. -/
  ctr : Nat

/-- `a + b` and `a - b` in an `OS_TICK`. -/
def tickAdd (a b : Nat) : Nat := (a + b) % 2 ^ 32

def tickSub (a b : Nat) : Nat := (a + 2 ^ 32 - b) % 2 ^ 32

theorem tickSub_eq {a b : Nat} (fits : a < 2 ^ 32) (le : b ≤ a) : tickSub a b = a - b := by
  simp only [tickSub]
  omega

variable {ι : Type*} [DecidableEq ι]

/-! ## The functions -/

/-- The loop of `OS_TickListInsert`, behind `tcb1` and with the given number of rounds. It ends
    with the ticks behind the last task passed, this task and the next one. -/
def tickSeek (l : TickList ι) : Nat → Nat → ι → Option (Nat × ι × Option ι)
  | 0, _, _ => none
  | fuel + 1, delta, tcb1 =>
      match l.nextPtr tcb1 with
      | none => some (delta, tcb1, none)
      | some tcb2 =>
          if l.remain tcb2 ≤ delta then tickSeek l fuel (tickSub delta (l.remain tcb2)) tcb2
          else some (delta, tcb1, some tcb2)

/-- `OS_TickListInsert`, with what it returns. Without dynamic ticks no time has elapsed since the
    last tick. -/
def osTickListInsert (fuel : Nat) (l : TickList ι) (t : ι) (tickBase time : Nat) :
    Option (TickList ι × Bool) :=
  let delta := tickSub (tickAdd time tickBase) l.ctr
  if delta = 0 then some ({ l with remain := Function.update l.remain t 0 }, false)
  else
    match l.tcbPtr with
    | none =>
        some ({ l with
          remain := Function.update l.remain t delta
          nextPtr := Function.update l.nextPtr t none
          prevPtr := Function.update l.prevPtr t none
          tcbPtr := some t }, true)
    | some tcb2 =>
        let remain := l.remain tcb2
        if delta < remain ∧ l.prevPtr tcb2 = none then
          some ({ l with
            remain := Function.update (Function.update l.remain t delta) tcb2 (tickSub remain delta)
            prevPtr := Function.update (Function.update l.prevPtr t none) tcb2 (some t)
            nextPtr := Function.update l.nextPtr t (some tcb2)
            tcbPtr := some t }, true)
        else
          (tickSeek l fuel (tickSub delta remain) tcb2).bind fun
            | (delta, _, some tcb2) =>
                (l.prevPtr tcb2).map fun tcb1 =>
                  ({ l with
                    remain := Function.update (Function.update l.remain t delta) tcb2
                      (tickSub (l.remain tcb2) delta)
                    prevPtr := Function.update (Function.update l.prevPtr t (some tcb1)) tcb2 (some t)
                    nextPtr := Function.update (Function.update l.nextPtr t (some tcb2)) tcb1
                      (some t) }, true)
            | (delta, tcb1, none) =>
                some ({ l with
                  remain := Function.update l.remain t delta
                  prevPtr := Function.update l.prevPtr t (some tcb1)
                  nextPtr := Function.update (Function.update l.nextPtr t none) tcb1 (some t) }, true)

def osTickListRemove (l : TickList ι) (t : ι) : TickList ι :=
  match l.prevPtr t, l.nextPtr t with
  | none, none => { l with tcbPtr := none, remain := Function.update l.remain t 0 }
  | none, some tcb2 =>
      { l with
        prevPtr := Function.update l.prevPtr tcb2 none
        remain := Function.update
          (Function.update l.remain tcb2 (tickAdd (l.remain tcb2) (l.remain t))) t 0
        tcbPtr := some tcb2
        nextPtr := Function.update l.nextPtr t none }
  | some tcb1, none =>
      { l with
        nextPtr := Function.update (Function.update l.nextPtr tcb1 none) t none
        prevPtr := Function.update l.prevPtr t none
        remain := Function.update l.remain t 0 }
  | some tcb1, some tcb2 =>
      { l with
        nextPtr := Function.update (Function.update l.nextPtr tcb1 (some tcb2)) t none
        prevPtr := Function.update (Function.update l.prevPtr tcb2 (some tcb1)) t none
        remain := Function.update
          (Function.update l.remain tcb2 (tickAdd (l.remain tcb2) (l.remain t))) t 0 }

/-- The step of `OS_TickListUpdate` that lets ticks pass for the first task. It ends with the
    ticks that are left for the tasks behind it. -/
def tickPass (l : TickList ι) (t : ι) (ticks : Nat) : TickList ι × Nat :=
  if l.remain t ≤ ticks then
    ({ l with remain := Function.update l.remain t 0 }, tickSub ticks (l.remain t))
  else
    ({ l with remain := Function.update l.remain t (tickSub (l.remain t) ticks) }, ticks)

/-- The step that ends a round of its loop: the first task `t` leaves the list, and the ticks
    pass for the next one. -/
def tickPop (l : TickList ι) (t : ι) (ticks : Nat) : TickList ι × Nat :=
  let l := { l with tcbPtr := l.nextPtr t }
  match l.tcbPtr with
  | none => (l, ticks)
  | some tcb => tickPass { l with prevPtr := Function.update l.prevPtr tcb none } tcb ticks

/-! ## What the list holds -/

/-- `timed` are the tasks in the list, and `due` says when each one is to go on. The time `now`
    is what `OSTickCtr` would be without a limit. -/
structure Tck (l : TickList ι) (now : Nat) (due : ι → Nat) (timed : List ι) : Prop where
  linked : TwoEnded l.prevPtr l.nextPtr l.tcbPtr timed.getLast? timed
  counts : Counts l.remain due now timed
  ctr : l.ctr = now % 2 ^ 32
  ahead : ∀ p ∈ timed, now < due p ∧ due p < now + 2 ^ 32

variable {l : TickList ι} {now : Nat} {due : ι → Nat} {timed left right : List ι} {t : ι}
  {fuel : Nat}

omit [DecidableEq ι] in
theorem tickSeek_eq {delta d base : Nat} {tcb1 : ι} (chain : Points l.nextPtr (l.nextPtr tcb1)
    (left ++ right)) (counts : Counts l.remain due base (left ++ right))
    (enough : left.length < fuel) (fits : d < base + 2 ^ 32) (le : base ≤ d)
    (atDelta : delta = d - base) (before : ∀ q ∈ left, due q ≤ d)
    (behind : ∀ q ∈ right.head?, d < due q) :
    tickSeek l fuel delta tcb1 =
      some (d - lastDue due base left, left.getLast?.getD tcb1, right.head?) := by
  induction left generalizing fuel delta base tcb1 with
  | nil =>
      obtain ⟨fuel, rfl⟩ : ∃ n, fuel = n + 1 := ⟨fuel - 1, by simp at enough; omega⟩
      simp only [List.nil_append] at chain counts
      cases right with
      | nil =>
          have ends : l.nextPtr tcb1 = none := chain
          simp [tickSeek, ends, atDelta, lastDue]
      | cons q right =>
          have next : l.nextPtr tcb1 = some q := chain.1
          have later := behind q rfl
          have stored := counts.1
          have stops : ¬ l.remain q ≤ d - base := by omega
          simp only [tickSeek, next, atDelta, if_neg stops, lastDue, List.getLast?_nil,
            Option.getD_none, List.head?_cons]
  | cons q left ih =>
      obtain ⟨fuel, rfl⟩ : ∃ n, fuel = n + 1 := ⟨fuel - 1, by simp at enough; omega⟩
      obtain ⟨stored, counts⟩ := counts
      have next : l.nextPtr tcb1 = some q := chain.1
      have here := before q List.mem_cons_self
      have passes : l.remain q ≤ delta := by omega
      have less : tickSub delta (l.remain q) = d - due q := by
        rw [tickSub_eq (by omega) passes]
        omega
      have rest := ih chain.2 counts (by simpa using enough) (by omega) here less
        fun r member => before r (List.mem_cons_of_mem q member)
      simp only [tickSeek, next, if_pos passes, rest, lastDue, List.getLast?_cons, Option.getD_some]

namespace Tck

/-- What the list is after an insertion between `left` and `right`, where the next task is due
    at `d` or later. -/
theorem placed {l' : TickList ι} {d : Nat} (tck : Tck l now due (left ++ right))
    (fresh : t ∉ left ++ right) (ahead : now < d ∧ d < now + 2 ^ 32)
    (before : ∀ q ∈ left, due q ≤ d) (behind : ∀ q ∈ right.head?, d < due q)
    (prevPtr : l'.prevPtr = hook (Function.update l.prevPtr t left.getLast?) right.head? (some t))
    (nextPtr : l'.nextPtr = hook (Function.update l.nextPtr t right.head?) left.getLast? (some t))
    (tcbPtr : l'.tcbPtr = left.head?.or (some t)) (ctr : l'.ctr = l.ctr)
    (atNew : l'.remain t = d - lastDue due now left)
    (atNext : ∀ q ∈ right.head?, l'.remain q = due q - d)
    (others : ∀ q ∈ left ++ right.tail, l'.remain q = l.remain q) :
    Tck l' now (Function.update due t d) (left ++ t :: right) where
  linked := by
    have list := tck.linked.insert fresh
    refine { linked := ?_, head := ?_, tail := rfl }
    · simpa only [prevPtr, nextPtr] using list.linked
    · simpa only [tcbPtr] using list.head
  counts := by
    apply tck.counts.insert (lastDue_le ahead.1.le before) (by simp) atNew
    · intro q first
      have later := behind q first
      have stored := atNext q first
      omega
    · exact others
    · intro q member
      have other : q ≠ t := by
        rintro rfl
        exact fresh member
      exact Function.update_of_ne other d due
  ctr := ctr.trans tck.ctr
  ahead := by
    intro q member
    by_cases same : q = t
    · subst same
      simpa using ahead
    · have old : q ∈ left ++ right := by
        simp only [List.mem_append, List.mem_cons] at member ⊢
        tauto
      simpa only [Function.update_of_ne same] using tck.ahead q old

section Place

variable {d delta tickBase time : Nat} {q h : ι} {front rest : List ι}
  (atDelta : tickSub (tickAdd time tickBase) l.ctr = delta) (some' : delta ≠ 0)
  (small : delta < 2 ^ 32) (atD : d = now + delta)

include small atD

omit [DecidableEq ι] in
/-- Where the list does not begin behind `d`, the place is searched. -/
theorem place_seek (tck : Tck l now due ((h :: front) ++ right))
    (enough : front.length < fuel) (before : ∀ q ∈ h :: front, due q ≤ d)
    (behind : ∀ q ∈ right.head?, d < due q) :
    l.tcbPtr = some h ∧ ¬ (delta < l.remain h ∧ l.prevPtr h = none) ∧
      tickSeek l fuel (tickSub delta (l.remain h)) h =
        some (d - lastDue due (due h) front, front.getLast?.getD h, right.head?) := by
  obtain ⟨stored, counts⟩ := tck.counts
  have here := before h List.mem_cons_self
  have soon := (tck.ahead h List.mem_cons_self).1
  have less : tickSub delta (l.remain h) = d - due h := by
    rw [tickSub_eq small (by omega)]
    omega
  have chain : Points l.nextPtr (some h) (h :: (front ++ right)) := by
    have points := Behind.points_next tck.linked.linked
    simpa using points
  have passed : ∀ q ∈ front, due q ≤ d := fun q member => before q (List.mem_cons_of_mem h member)
  exact ⟨tck.linked.head, by omega,
    tickSeek_eq chain.2 counts enough (by omega) here less passed behind⟩

include atDelta some'

theorem place_only (tck : Tck l now due ([] ++ [])) :
    ∃ l', osTickListInsert fuel l t tickBase time = some (l', true) ∧
      Tck l' now (Function.update due t d) ([] ++ t :: []) := by
  have head : l.tcbPtr = none := tck.linked.head
  refine ⟨_, by simp only [osTickListInsert, atDelta, if_neg some', head]; rfl, ?_⟩
  apply tck.placed (by simp) (by omega) (by simp) (by simp)
  · rfl
  · rfl
  · rfl
  · rfl
  · simp [lastDue, atD]
  · simp
  · simp

theorem place_first (tck : Tck l now due ([] ++ q :: rest)) (fresh : t ∉ q :: rest)
    (later : d < due q) :
    ∃ l', osTickListInsert fuel l t tickBase time = some (l', true) ∧
      Tck l' now (Function.update due t d) ([] ++ t :: q :: rest) := by
  have head : l.tcbPtr = some q := tck.linked.head
  have stored := tck.counts.1
  have near := (tck.ahead q List.mem_cons_self).2
  have list : TwoEnded l.prevPtr l.nextPtr l.tcbPtr (q :: rest).getLast? ([] ++ q :: rest) :=
    tck.linked
  have prev : l.prevPtr q = none := list.around.1
  have less : delta < l.remain q := by omega
  have rest' : tickSub (l.remain q) delta = l.remain q - delta := tickSub_eq (by omega) less.le
  have notNew : q ≠ t := fun same => fresh (same ▸ List.mem_cons_self)
  refine ⟨_, by
    simp only [osTickListInsert, atDelta, if_neg some', head, if_pos (And.intro less prev)]
    rfl, ?_⟩
  apply tck.placed fresh (by omega) (by simp) (by simpa using later)
  · rfl
  · rfl
  · rfl
  · rfl
  · simp [lastDue, atD, notNew.symm]
  · intro r first
    cases first
    simp only [Function.update_self, rest']
    omega
  · intro r member
    have notFirst : r ≠ q := by
      rintro rfl
      exact (List.nodup_cons.mp tck.linked.nodup).1 member
    have other : r ≠ t := fun same => fresh (same ▸ List.mem_cons_of_mem q member)
    simp only [Function.update_of_ne notFirst, Function.update_of_ne other]

theorem place_last (tck : Tck l now due ((h :: front) ++ [])) (fresh : t ∉ (h :: front) ++ [])
    (enough : front.length < fuel) (before : ∀ q ∈ h :: front, due q ≤ d) :
    ∃ l', osTickListInsert fuel l t tickBase time = some (l', true) ∧
      Tck l' now (Function.update due t d) ((h :: front) ++ t :: []) := by
  obtain ⟨head, passes, found⟩ :=
    tck.place_seek small atD enough before (by simp)
  have last : (h :: front).getLast? = some (front.getLast?.getD h) := List.getLast?_cons ..
  generalize front.getLast?.getD h = tcb1 at found last
  simp only [List.head?_nil] at found
  refine ⟨_, by
    simp only [osTickListInsert, atDelta, if_neg some', head, if_neg passes, found,
      Option.bind_some]
    rfl, ?_⟩
  apply tck.placed fresh (by omega) before (by simp)
  · simp [last]
  · simp [last]
  · simp
  · rfl
  · simp [lastDue]
  · simp
  · intro r member
    have other : r ≠ t := by
      rintro rfl
      exact fresh (by simpa using member)
    simp only [Function.update_of_ne other]

theorem place_between (tck : Tck l now due ((h :: front) ++ q :: rest))
    (fresh : t ∉ (h :: front) ++ q :: rest) (enough : front.length < fuel)
    (before : ∀ q ∈ h :: front, due q ≤ d) (later : d < due q) :
    ∃ l', osTickListInsert fuel l t tickBase time = some (l', true) ∧
      Tck l' now (Function.update due t d) ((h :: front) ++ t :: q :: rest) := by
  obtain ⟨head, passes, found⟩ :=
    tck.place_seek small atD enough before (by simpa using later)
  have last : (h :: front).getLast? = some (front.getLast?.getD h) := List.getLast?_cons ..
  generalize front.getLast?.getD h = tcb1 at found last
  have prev : l.prevPtr q = some tcb1 := by
    rw [← last]
    exact tck.linked.around.1
  have counts := counts_append.mp tck.counts.2
  have after := counts.2.1
  have far := (tck.ahead q (by simp)).2
  have here := before h List.mem_cons_self
  have low := counts.1.le_lastDue
  have soon := (tck.ahead h List.mem_cons_self).1
  have passedLe : lastDue due (due h) front ≤ d :=
    lastDue_le here fun q member => before q (List.mem_cons_of_mem h member)
  have notNew : q ≠ t := by
    rintro rfl
    exact fresh (by simp)
  have rest' : tickSub (l.remain q) (d - lastDue due (due h) front) = due q - d := by
    rw [tickSub_eq (by omega) (by omega)]
    omega
  simp only [List.head?_cons] at found
  refine ⟨_, by
    simp only [osTickListInsert, atDelta, if_neg some', head, if_neg passes, found,
      Option.bind_some, prev, Option.map_some]
    rfl, ?_⟩
  apply tck.placed fresh (by omega) before (by simpa using later)
  · simp [last]
  · simp [last]
  · simp
  · rfl
  · simp [lastDue, notNew.symm]
  · intro r first
    cases first
    simp only [Function.update_self, rest']
  · intro r member
    have notNext : r ≠ q := by
      rintro rfl
      exact tck.linked.notMem_rest member
    have inside : r ∈ (h :: front) ++ q :: rest := by
      rcases List.mem_append.mp member with inLeft | inRight
      · exact List.mem_append_left _ inLeft
      · exact List.mem_append_right _ (List.mem_cons_of_mem q inRight)
    have other : r ≠ t := by
      rintro rfl
      exact fresh inside
    simp only [Function.update_of_ne notNext, Function.update_of_ne other]

theorem place (tck : Tck l now due (left ++ right)) (fresh : t ∉ left ++ right)
    (enough : (left ++ right).length < fuel) (before : ∀ q ∈ left, due q ≤ d)
    (behind : ∀ q ∈ right.head?, d < due q) :
    ∃ l', osTickListInsert fuel l t tickBase time = some (l', true) ∧
      Tck l' now (Function.update due t d) (left ++ t :: right) := by
  cases left with
  | nil =>
      cases right with
      | nil => exact tck.place_only atDelta some' small atD
      | cons q rest => exact tck.place_first atDelta some' small atD fresh (behind q rfl)
  | cons h front =>
      have rounds : front.length < fuel := by
        simp only [List.length_append, List.length_cons] at enough
        omega
      cases right with
      | nil => exact tck.place_last atDelta some' small atD fresh rounds before
      | cons q rest =>
          exact tck.place_between atDelta some' small atD fresh rounds before (behind q rfl)

end Place

/-- A task that is to wait until a later time comes behind the ones that are due before it or
    with it. -/
theorem insert {delta tickBase time : Nat} (tck : Tck l now due timed) (fresh : t ∉ timed)
    (enough : timed.length < fuel) (atDelta : tickSub (tickAdd time tickBase) l.ctr = delta)
    (some' : delta ≠ 0) :
    ∃ l', osTickListInsert fuel l t tickBase time = some (l', true) ∧
      Tck l' now (Function.update due t (now + delta))
        (enqueue (Function.update due t (now + delta)) t timed) := by
  let d := now + delta
  let left := timed.takeWhile fun q => decide (due q ≤ d)
  let right := timed.dropWhile fun q => decide (due q ≤ d)
  have whole : timed = left ++ right := List.takeWhile_append_dropWhile.symm
  have order : enqueue (Function.update due t (now + delta)) t timed = left ++ t :: right :=
    enqueue_update due d fresh
  have before : ∀ q ∈ left, due q ≤ d := fun q member => by
    simpa using List.mem_takeWhile_imp member
  have behind : ∀ q ∈ right.head?, d < due q := by
    intro q first
    have fails := List.head?_dropWhile_not (fun q => decide (due q ≤ d)) timed
    simp only [Option.mem_def] at first
    simp only [right] at first
    simpa [first] using fails
  have tck' : Tck l now due (left ++ right) := whole ▸ tck
  have small : delta < 2 ^ 32 := atDelta ▸ Nat.mod_lt _ (by omega)
  have placed :=
    tck'.place atDelta some' small rfl (whole ▸ fresh) (whole ▸ enough) before behind
  simpa only [order] using placed

/-- What the removal stores, for a task between `left` and `right`. -/
theorem osTickListRemove_eq
    (list : TwoEnded l.prevPtr l.nextPtr l.tcbPtr (left ++ t :: right).getLast?
      (left ++ t :: right)) :
    osTickListRemove l t = { l with
      prevPtr := Function.update (hook l.prevPtr right.head? left.getLast?) t none
      nextPtr := Function.update (hook l.nextPtr left.getLast? right.head?) t none
      remain := Function.update (right.head?.elim l.remain fun q =>
        Function.update l.remain q (tickAdd (l.remain q) (l.remain t))) t 0
      tcbPtr := left.head?.or right.head? } := by
  obtain ⟨prev, next⟩ := list.around
  have head := list.head
  have gone := list.notMem_rest
  have keepPrev : l.prevPtr t = none → Function.update l.prevPtr t none = l.prevPtr := by
    intro already
    rw [← already]
    exact Function.update_eq_self t l.prevPtr
  have keepNext : l.nextPtr t = none → Function.update l.nextPtr t none = l.nextPtr := by
    intro already
    rw [← already]
    exact Function.update_eq_self t l.nextPtr
  cases left with
  | nil =>
      cases right with
      | nil =>
          simp only [List.getLast?_nil] at prev
          simp only [List.head?_nil] at next
          simp [osTickListRemove, prev, next, keepPrev, keepNext]
      | cons q rest =>
          simp only [List.getLast?_nil] at prev
          simp only [List.head?_cons] at next
          have other : t ≠ q := by
            rintro rfl
            simp at gone
          have kept : Function.update (Function.update l.prevPtr q none) t none =
              Function.update l.prevPtr q none := by
            rw [Function.update_comm other.symm, keepPrev prev]
          simp [osTickListRemove, prev, next, kept]
  | cons h front =>
      obtain ⟨last, ends⟩ : ∃ last, (h :: front).getLast? = some last :=
        ⟨_, List.getLast?_eq_getLast_of_ne_nil (List.cons_ne_nil h front)⟩
      simp only [ends] at prev
      simp only [List.cons_append, List.head?_cons] at head
      cases right with
      | nil =>
          simp only [List.head?_nil] at next
          simp [osTickListRemove, prev, next, ends, head]
      | cons q rest =>
          simp only [List.head?_cons] at next
          simp [osTickListRemove, prev, next, ends, head]

theorem remove (tck : Tck l now due (left ++ t :: right)) :
    Tck (osTickListRemove l t) now due (left ++ right) := by
  have gone := tck.linked.notMem_rest
  have removed := tck.linked.remove.elsewhere (x := none) (y := none) gone
  obtain ⟨front, here, behind⟩ := counts_append.mp tck.counts
  have low := front.le_lastDue
  have other : ∀ q ∈ left ++ right, q ≠ t := by
    rintro q member rfl
    exact gone member
  rw [osTickListRemove_eq tck.linked]
  refine { linked := ?_, counts := ?_, ctr := tck.ctr, ahead := ?_ }
  · exact { linked := removed.linked, head := removed.head, tail := rfl }
  · apply tck.counts.remove
    · intro q first
      have member : q ∈ right := List.mem_of_mem_head? first
      have far := (tck.ahead q (by simp [member])).2
      have stored : due q = due t + l.remain q := by
        cases right with
        | nil => cases first
        | cons r rest =>
            cases first
            exact behind.1
      have fits : tickAdd (l.remain q) (l.remain t) = l.remain q + l.remain t :=
        Nat.mod_eq_of_lt (by omega)
      have different := other q (List.mem_append_right left member)
      simp only [Option.mem_def] at first
      simp [first, Function.update_of_ne different, fits]
    · intro q member
      have different : q ≠ t := by
        apply other q
        rcases List.mem_append.mp member with inLeft | inRight
        · exact List.mem_append_left right inLeft
        · exact List.mem_append_right left (List.mem_of_mem_tail inRight)
      cases right with
      | nil => simp [different]
      | cons r rest =>
          have notNext : q ≠ r := by
            rintro rfl
            have rest' := removed.linked.nodup
            rcases List.mem_append.mp member with inLeft | inRight
            · exact List.disjoint_of_nodup_append rest' inLeft List.mem_cons_self
            · exact (List.nodup_cons.mp (List.nodup_append'.mp rest').2.1).1 inRight
          simp [different, notNext]
  · intro q member
    apply tck.ahead q
    simp only [List.mem_append, List.mem_cons] at member ⊢
    tauto

theorem erase (tck : Tck l now due timed) (member : t ∈ timed) :
    Tck (osTickListRemove l t) now due (timed.erase t) := by
  obtain ⟨left, right, rfl⟩ := List.append_of_mem member
  have front : t ∉ left := fun inside =>
    tck.linked.notMem_rest (List.mem_append_left right inside)
  rw [List.erase_append_right _ front, List.erase_cons_head]
  exact tck.remove

theorem outside (tck : Tck l now due timed) (fresh : t ∉ timed) (x : Nat) :
    Tck { l with remain := Function.update l.remain t x } now due timed where
  linked := tck.linked
  counts := by
    apply tck.counts.frame
    intro q member
    have other : q ≠ t := by
      rintro rfl
      exact fresh member
    exact ⟨Function.update_of_ne other x l.remain, rfl⟩
  ctr := tck.ctr
  ahead := tck.ahead

theorem elsewhere (tck : Tck l now due timed) (fresh : t ∉ timed) :
    Tck { l with
      prevPtr := Function.update l.prevPtr t none
      nextPtr := Function.update l.nextPtr t none } now due timed where
  linked := tck.linked.elsewhere fresh
  counts := tck.counts
  ctr := tck.ctr
  ahead := tck.ahead

end Tck

/-! ## The ticks that pass -/

/-- The list within `OS_TickListUpdate`, which has brought the time to `now`: the first task
    still stands in it although it may be due, and `ticks` are left for the ones behind it. -/
structure Passing (l : TickList ι) (now : Nat) (due : ι → Nat) (timed : List ι) (ticks : Nat) :
    Prop where
  linked : TwoEnded l.prevPtr l.nextPtr l.tcbPtr timed.getLast? timed
  counts : ∀ p ∈ timed.head?, Counts l.remain due (min now (due p)) timed
  left : ∀ p ∈ timed.head?, due p ≤ now → ticks = now - due p
  ctr : l.ctr = now % 2 ^ 32
  near : ∀ q ∈ timed.head?, ∀ p ∈ timed, due p < min now (due q) + 2 ^ 32
  small : ticks < 2 ^ 32

namespace Passing

variable {ticks base : Nat} {rest : List ι}

theorem pass (linked : TwoEnded l.prevPtr l.nextPtr l.tcbPtr (t :: rest).getLast? (t :: rest))
    (counts : Counts l.remain due base (t :: rest)) (before : base ≤ now)
    (left : ticks = now - base) (ctr : l.ctr = now % 2 ^ 32)
    (near : ∀ p ∈ t :: rest, due p < base + 2 ^ 32) (small : ticks < 2 ^ 32) :
    Passing (tickPass l t ticks).1 now due (t :: rest) (tickPass l t ticks).2 := by
  obtain ⟨stored, behind⟩ := counts
  have here := near t List.mem_cons_self
  have near' : ∀ q ∈ (t :: rest).head?, ∀ p ∈ t :: rest, due p < min now (due q) + 2 ^ 32 := by
    intro q first p member
    cases first
    have soon := near p member
    omega
  have others : ∀ x, Counts (Function.update l.remain t x) due (due t) rest := by
    intro x
    apply behind.frame
    intro q member
    have other : q ≠ t := by
      rintro rfl
      exact (List.nodup_cons.mp linked.nodup).1 member
    exact ⟨Function.update_of_ne other x l.remain, rfl⟩
  by_cases passes : l.remain t ≤ ticks
  · have less := tickSub_eq small passes
    refine {
      linked := ?_, counts := ?_, left := ?_, ctr := ?_, near := near', small := ?_ }
    · simpa only [tickPass, if_pos passes] using linked
    · intro p first
      cases first
      refine ⟨?_, ?_⟩
      · simp only [tickPass, if_pos passes, Function.update_self]
        omega
      · simpa only [tickPass, if_pos passes] using others 0
    · intro p first _
      cases first
      simp only [tickPass, if_pos passes, less]
      omega
    · simpa only [tickPass, if_pos passes] using ctr
    · simp only [tickPass, if_pos passes, less]
      omega
  · have less := tickSub_eq (a := l.remain t) (b := ticks) (by omega) (by omega)
    refine {
      linked := ?_, counts := ?_, left := ?_, ctr := ?_, near := near', small := ?_ }
    · simpa only [tickPass, if_neg passes] using linked
    · intro p first
      cases first
      refine ⟨?_, ?_⟩
      · simp only [tickPass, if_neg passes, Function.update_self, less]
        omega
      · simpa only [tickPass, if_neg passes] using others _
    · intro p first due'
      cases first
      omega
    · simpa only [tickPass, if_neg passes] using ctr
    · simpa only [tickPass, if_neg passes] using small

omit [DecidableEq ι] in
theorem remain_eq_zero (passing : Passing l now due (t :: rest) ticks) :
    l.remain t = 0 ↔ due t ≤ now := by
  have stored := (passing.counts t rfl).1
  omega

theorem pop (passing : Passing l now due (t :: rest) ticks) (due' : due t ≤ now) :
    Passing (tickPop l t ticks).1 now due rest (tickPop l t ticks).2 ∧
      (tickPop l t ticks).1.tcbPtr = rest.head? := by
  have list : TwoEnded l.prevPtr l.nextPtr l.tcbPtr (t :: rest).getLast? ([] ++ t :: rest) :=
    passing.linked
  have next := list.around.2
  have removed := list.remove
  have left := passing.left t rfl due'
  have behind := (passing.counts t rfl).2
  cases rest with
  | nil =>
      simp only [List.head?_nil] at next
      simp only [tickPop, next, List.head?_nil, and_true]
      refine {
        linked := ?_, counts := by simp, left := by simp, ctr := passing.ctr, near := by simp
        small := passing.small }
      exact TwoEnded.empty
  | cons q rest =>
      simp only [List.head?_cons] at next
      simp only [List.head?_cons, List.getLast?_nil, List.nil_append, hook_some, hook_none] at removed
      have near : ∀ p ∈ q :: rest, due p < due t + 2 ^ 32 := by
        intro p member
        have soon := passing.near t rfl p (List.mem_cons_of_mem t member)
        omega
      have ends : (tickPass { l with
          tcbPtr := some q, prevPtr := Function.update l.prevPtr q none } q ticks).1.tcbPtr =
            some q := by
        simp only [tickPass]
        split <;> rfl
      simp only [tickPop, next, List.head?_cons, ends, and_true]
      exact pass { linked := removed.linked, head := rfl, tail := rfl } behind due'
        left passing.ctr near passing.small

omit [DecidableEq ι] in
/-- Behind the last round the list stands as at every other time. -/
theorem done (passing : Passing l now due timed ticks) (later : ∀ p ∈ timed.head?, now < due p) :
    Tck l now due timed := by
  cases timed with
  | nil =>
      exact { linked := passing.linked, counts := trivial, ctr := passing.ctr, ahead := by simp }
  | cons t rest =>
      have first := later t rfl
      have counts := passing.counts t rfl
      simp only [Nat.min_eq_left first.le] at counts
      refine { linked := passing.linked, counts := counts, ctr := passing.ctr, ahead := ?_ }
      intro p member
      have near := passing.near t rfl p member
      have order := counts.inOrder
      have after : due t ≤ due p := by
        rcases List.mem_cons.mp member with rfl | behind
        · exact le_rfl
        · exact (List.pairwise_cons.mp order).1 p behind
      omega

end Passing

end ExploreF407.Kernel
