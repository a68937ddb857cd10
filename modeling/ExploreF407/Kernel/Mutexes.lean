import ExploreF407.Kernel.Tasks

/-! # What the services on mutexes keep

A mutex passes from the group of one task to that of another, with the tasks that
wait for it and their priorities.
-/

namespace ExploreF407.Kernel

open Linked Urgency Inherit

variable {ι σ μ : Type}

namespace Os

variable {os os' : Os ι σ μ} {s s' : Lists ι (σ ⊕ μ)} {held held' : ι → List μ} {t r o : ι}
  {m x : μ} {p : Nat} {noSched : Bool} {next : μ → Option μ} {head : ι → Option μ} {calm : Prop}

/-! ## Mutex groups -/

structure Groups (next : μ → Option μ) (head : ι → Option μ) (held : ι → List μ) : Prop where
  chain : ∀ t, Points next (head t) (held t)
  apart : ∀ t r m, m ∈ held t → m ∈ held r → t = r

theorem Owned.groups (owned : os.Owned held) :
    Groups os.mutex.grpNextPtr os.tcb.mutexGrpHeadPtr held where
  chain := owned.group
  apart := by
    intro t r m inT inR
    exact Option.some.inj ((owned.owner t m inT).symm.trans (owned.owner r m inR))

variable [DecidableEq ι] [DecidableEq μ]

theorem Groups.add (groups : Groups next head held) (fresh : ∀ r, m ∉ held r) (t : ι) :
    Groups (Function.update next m (head t)) (Function.update head t (some m))
      (Function.update held t (m :: held t)) where
  chain := by
    intro r
    by_cases same : r = t
    · subst same
      simpa using (groups.chain r).push (fresh r)
    · simpa [same] using (groups.chain r).elsewhere (fresh r)
  apart := by
    intro r r' x
    by_cases same : r = t <;> by_cases same' : r' = t <;>
      simp only [same, same', Function.update_self, Function.update_of_ne, ne_eq, not_false_eq_true,
        List.mem_cons, implies_true]
    · rintro (rfl | inT) inR
      · exact absurd inR (fresh r')
      · exact groups.apart t r' x inT inR
    · rintro inR (rfl | inT)
      · exact absurd inR (fresh r)
      · exact absurd (groups.apart r t x inR inT) same
    · exact groups.apart r r' x

theorem mem_add (fresh : ∀ r, m ∉ held r) (t r : ι) (x : μ) :
    x ∈ Function.update held t (m :: held t) r ↔
      if x = m then some t = some r else x ∈ held r := by
  by_cases atT : r = t
  · subst atT
    by_cases same : x = m <;> simp [same]
  · have notT : ¬ t = r := fun same => atT same.symm
    by_cases same : x = m
    · subst same
      simp [atT, notT, fresh r]
    · simp [atT, same]

theorem Groups.mem_erase (groups : Groups next head held) (member : m ∈ held t) (r : ι) (x : μ) :
    x ∈ Function.update held t ((held t).erase m) r ↔ x ≠ m ∧ x ∈ held r := by
  by_cases same : r = t
  · subst same
    rw [Function.update_self]
    exact (groups.chain r).nodup.mem_erase_iff
  · rw [Function.update_of_ne same]
    refine ⟨fun inside => ⟨?_, inside⟩, And.right⟩
    rintro rfl
    exact same (groups.apart r t x inside member)

omit [DecidableEq ι] in
theorem Groups.elsewhere (groups : Groups next head held) (fresh : ∀ r, m ∉ held r) :
    Groups (Function.update next m none) head held where
  chain := fun r => (groups.chain r).elsewhere (fresh r)
  apart := groups.apart

theorem mutexGrpUnlink_eq {at' : μ} {left right : List μ} {fuel : Nat}
    (chain : Points next (some at') (at' :: left ++ m :: right)) (enough : left.length < fuel) :
    ∃ front last, at' :: left = front ++ [last] ∧
      mutexGrpUnlink next m fuel at' = some (Function.update next last (next m)) := by
  induction left generalizing at' fuel with
  | nil =>
      obtain ⟨fuel, rfl⟩ : ∃ n, fuel = n + 1 := ⟨fuel - 1, by simp at enough; omega⟩
      refine ⟨[], at', rfl, ?_⟩
      simp only [mutexGrpUnlink, if_pos chain.2.1]
  | cons b left ih =>
      obtain ⟨fuel, rfl⟩ : ∃ n, fuel = n + 1 := ⟨fuel - 1, by simp at enough; omega⟩
      simp only [List.length_cons, Nat.add_lt_add_iff_right] at enough
      have link : next at' = some b := chain.2.1
      have behind : Points next (some b) (b :: left ++ m :: right) := by
        have rest := chain.2
        rwa [link] at rest
      have other : b ≠ m := by
        rintro rfl
        have once := List.nodup_cons.mp behind.nodup
        exact once.1 (by simp)
      obtain ⟨front, last, split, found⟩ := ih behind enough
      refine ⟨at' :: front, last, by simp [split], ?_⟩
      have notHere : ¬ next at' = some m := by simp [link, other]
      rw [mutexGrpUnlink, if_neg notHere, link]
      exact found

theorem Groups.remove [Fintype μ] (os : Os ι σ μ)
    (groups : Groups os.mutex.grpNextPtr os.tcb.mutexGrpHeadPtr held) (member : m ∈ held t) :
    ∃ next head, os.mutexGrpRemove t m =
        some { os with mutex.grpNextPtr := next, tcb.mutexGrpHeadPtr := head } ∧
      Groups next head (Function.update held t ((held t).erase m)) := by
  obtain ⟨left, right, split⟩ := List.append_of_mem member
  have chain := groups.chain t
  have once := chain.nodup
  rw [split] at chain once
  have front : m ∉ left := fun inside =>
    (List.nodup_append.mp once).2.2 m inside m (List.mem_cons_self ..) rfl
  have gone : (held t).erase m = left ++ right := by
    rw [split, List.erase_append_right _ front, List.erase_cons_head]
  have rest : ∀ x ∈ left ++ right, x ∈ held t := by
    intro x inside
    rw [split]
    simp only [List.mem_append, List.mem_cons] at inside ⊢
    tauto
  have apart : ∀ r r' x, x ∈ Function.update held t ((held t).erase m) r →
      x ∈ Function.update held t ((held t).erase m) r' → r = r' := by
    have before : ∀ r x, x ∈ Function.update held t ((held t).erase m) r → x ∈ held r := by
      intro r x inside
      by_cases same : r = t
      · subst same
        rw [Function.update_self] at inside
        exact List.mem_of_mem_erase inside
      · simpa [same] using inside
    exact fun r r' x inR inR' => groups.apart r r' x (before r x inR) (before r' x inR')
  cases left with
  | nil =>
      refine ⟨os.mutex.grpNextPtr,
        Function.update os.tcb.mutexGrpHeadPtr t (os.mutex.grpNextPtr m), ?_, ?_, apart⟩
      · simp only [mutexGrpRemove, if_pos chain.1]
      · intro r
        by_cases same : r = t
        · subst same
          simpa [gone] using chain.2
        · simpa [same] using groups.chain r
  | cons first left =>
      have pointer : os.tcb.mutexGrpHeadPtr t = some first := chain.1
      have notFirst : ¬ os.tcb.mutexGrpHeadPtr t = some m := by
        rw [pointer]
        rintro same
        cases same
        exact front (List.mem_cons_self ..)
      have whole : Points os.mutex.grpNextPtr (some first) (first :: left ++ m :: right) := by
        rwa [pointer] at chain
      have short : left.length < rounds μ := by
        have all := once.length_le_card
        simp only [List.cons_append, List.length_cons, List.length_append] at all
        simp only [rounds]
        omega
      obtain ⟨before, last, ends, found⟩ := mutexGrpUnlink_eq whole short
      have skipped : Points (Function.update os.mutex.grpNextPtr last (os.mutex.grpNextPtr m))
          (os.tcb.mutexGrpHeadPtr t) (first :: left ++ right) := by
        rw [pointer, ends]
        rw [ends] at whole
        have whole' : Points os.mutex.grpNextPtr (some first) (before ++ last :: m :: right) := by
          simpa using whole
        simpa using whole'.skip
      refine ⟨Function.update os.mutex.grpNextPtr last (os.mutex.grpNextPtr m),
        os.tcb.mutexGrpHeadPtr, ?_, ?_, apart⟩
      · rw [mutexGrpRemove, if_neg notFirst, pointer]
        simp only [Option.bind_eq_bind, Option.bind_some, found]
      · intro r
        by_cases same : r = t
        · subst same
          simpa [gone] using skipped
        · rw [Function.update_of_ne same]
          apply (groups.chain r).elsewhere
          intro inside
          have here : last ∈ held t := rest last (by rw [ends]; simp)
          exact same (groups.apart r t last inside here)

/-! ## A mutex passes to another owner -/

omit [DecidableEq ι] in
theorem Rules.handed {owner : Option ι} (rules : os.Rules held)
    (groups : Groups os'.mutex.grpNextPtr os'.tcb.mutexGrpHeadPtr held')
    (members : ∀ t x, x ∈ held' t ↔ if x = m then owner = some t else x ∈ held t)
    (owners : os'.mutex.ownerTcbPtr = Function.update os.mutex.ownerTcbPtr m owner)
    (counts : ∀ x, x ≠ m → os'.mutex.ownerNestingCtr x = os.mutex.ownerNestingCtr x)
    (count : os'.mutex.ownerNestingCtr m = 0 ↔ owner = none)
    (types : ∀ x, x ≠ m → os'.mutex.type x = os.mutex.type x)
    (type : ∀ t, owner = some t → os'.mutex.type m = true)
    (busy : ∀ t, os.pendList.objPtr t = some (.inr m) → ∃ o, owner = some o ∧ o ≠ t)
    (alive : ∀ t, owner = some t → os.tcb.taskState t ≠ .del)
    (objPtr : os'.pendList.objPtr = os.pendList.objPtr) (sem : os'.sem = os.sem)
    (state : os'.tcb.taskState = os.tcb.taskState) (base : os'.tcb.basePrio = os.tcb.basePrio)
    (suspended : os'.tcb.suspendCtr = os.tcb.suspendCtr)
    (idle : os'.sched.idleTask = os.sched.idleTask) : os'.Rules held' where
  owned := {
    group := groups.chain
    owner := by
      intro t x member
      rw [members] at member
      by_cases same : x = m
      · subst same
        simpa [owners] using member
      · simp only [if_neg same] at member
        simpa [owners, same] using rules.owned.owner t x member
    busy := by
      intro t x waits
      rw [objPtr] at waits
      by_cases same : x = m
      · subst same
        obtain ⟨o, atO, other⟩ := busy t waits
        exact ⟨o, by simp [owners, atO], other, by simp [members, atO]⟩
      · obtain ⟨o, atO, other, member⟩ := rules.owned.busy t x waits
        exact ⟨o, by simp [owners, same, atO], other, by simp [members, same, member]⟩ }
  owns := by
    intro t x atT
    by_cases same : x = m
    · subst same
      simpa [members, owners] using atT
    · simp only [owners, Function.update_of_ne same] at atT
      simpa [members, same] using rules.owns t x atT
  nesting := by
    intro x
    by_cases same : x = m
    · subst same
      simpa [owners] using count
    · simpa [owners, same, counts x same] using rules.nesting x
  alive := by
    intro t some'
    obtain ⟨x, member⟩ := List.exists_mem_of_ne_nil _ some'
    rw [members] at member
    rw [state]
    by_cases same : x = m
    · simp only [if_pos same] at member
      exact alive t member
    · simp only [if_neg same] at member
      exact rules.alive t (List.ne_nil_of_mem member)
  inside := by simpa only [state, base] using rules.inside
  sems := by simpa only [objPtr, sem] using rules.sems
  mutexes := by
    intro x t atT
    by_cases same : x = m
    · subst same
      exact type t (by simpa [owners] using atT)
    · simp only [owners, Function.update_of_ne same] at atT
      simpa only [types x same] using rules.mutexes x t atT
  suspended := by simpa only [state, suspended] using rules.suspended
  idle := by simpa only [state, idle] using rules.idle

omit [DecidableEq ι] in
theorem waitsFor_handed {owner : Option ι} (waits : os'.pendList.objPtr r = some (.inr m))
    (owners : os'.mutex.ownerTcbPtr = Function.update os.mutex.ownerTcbPtr m owner) :
    os'.waitsFor r = owner := by
  simp [waitsFor, pendMutex, waits, owners]

omit [DecidableEq ι] in
theorem waitsFor_kept {owner : Option ι} (elsewhere : os.pendList.objPtr r ≠ some (.inr m))
    (objPtr : os'.pendList.objPtr r = os.pendList.objPtr r)
    (owners : os'.mutex.ownerTcbPtr = Function.update os.mutex.ownerTcbPtr m owner) :
    os'.waitsFor r = os.waitsFor r := by
  rcases waits : os.pendList.objPtr r with _ | _ | x
  · simp [waitsFor, pendMutex, objPtr, waits]
  · simp [waitsFor, pendMutex, objPtr, waits]
  · have other : x ≠ m := by
      rintro rfl
      exact elsewhere waits
    simp [waitsFor, pendMutex, objPtr, owners, waits, other]

omit [DecidableEq ι] [DecidableEq μ] in
theorem Rules.nobody (rules : os.Rules held) (free : os.mutex.ownerTcbPtr m = none) (r : ι) :
    os.pendList.objPtr r ≠ some (.inr m) := by
  intro waits
  obtain ⟨o, owner, -⟩ := rules.owned.busy r m waits
  cases free.symm.trans owner

omit [DecidableEq ι] [DecidableEq μ] in
theorem Rules.ungrouped (rules : os.Rules held) (free : os.mutex.ownerTcbPtr m = none) (r : ι) :
    m ∉ held r := by
  intro member
  cases free.symm.trans (rules.owned.owner r m member)

omit [DecidableEq ι] [DecidableEq μ] in
theorem Rules.others (rules : os.Rules held) (free : os.mutex.ownerTcbPtr m = none) (t : ι) (x : μ) :
    x ∈ held t ↔ x ≠ m ∧ x ∈ held t := by
  refine ⟨fun member => ⟨?_, member⟩, And.right⟩
  rintro rfl
  exact rules.ungrouped free t member

/-- The kernel when a mutex that nobody waits for has another owner, or none. -/
abbrev handed (os : Os ι σ μ) (m : μ) (owner : Option ι) (nesting : Nat) (type : μ → Bool)
    (next : μ → Option μ) (head : ι → Option μ) (l : PendLists ι (σ ⊕ μ)) : Os ι σ μ :=
  { os with
    mutex.type := type
    mutex.grpNextPtr := next
    mutex.ownerTcbPtr := Function.update os.mutex.ownerTcbPtr m owner
    mutex.ownerNestingCtr := Function.update os.mutex.ownerNestingCtr m nesting
    tcb.mutexGrpHeadPtr := head
    pendList := l }

omit [DecidableEq ι] in
theorem Core.handed {owner : Option ι} {nesting : Nat} {type : μ → Bool}
    {l : PendLists ι (σ ⊕ μ)} (core : os.Core s held) (groups : Groups next head held')
    (members : ∀ t x, x ∈ held' t ↔ if x = m then owner = some t else x ∈ held t)
    (nobody : ∀ r, os.pendList.objPtr r ≠ some (.inr m)) (count : nesting = 0 ↔ owner = none)
    (types : ∀ x, x ≠ m → type x = os.mutex.type x) (type' : ∀ t, owner = some t → type m = true)
    (alive : ∀ t, owner = some t → os.tcb.taskState t ≠ .del) (pnd : Pnd l s.waiting)
    (objPtr : l.objPtr = os.pendList.objPtr) :
    (os.handed m owner nesting type next head l).Core s held' where
  rdy := core.rdy
  pnd := pnd
  placed := by
    intro t
    exact (core.placed t).frame (fun _ => .rfl) .rfl rfl rfl rfl (by simp only [objPtr])
  once := core.once
  inOrder := core.inOrder
  toRules := by
    refine core.toRules.handed groups members rfl ?_ ?_ types type' ?_ alive objPtr rfl rfl rfl
      rfl rfl
    · exact fun x other => Function.update_of_ne other nesting os.mutex.ownerNestingCtr
    · simpa using count
    · exact fun t waits => absurd waits (nobody t)

omit [DecidableEq ι] in
theorem Inv.handed {owner : Option ι} {nesting : Nat} {type : μ → Bool}
    {l : PendLists ι (σ ⊕ μ)} (inv : os.Inv s held calm) (groups : Groups next head held')
    (members : ∀ t x, x ∈ held' t ↔ if x = m then owner = some t else x ∈ held t)
    (nobody : ∀ r, os.pendList.objPtr r ≠ some (.inr m)) (count : nesting = 0 ↔ owner = none)
    (types : ∀ x, x ≠ m → type x = os.mutex.type x) (type' : ∀ t, owner = some t → type m = true)
    (alive : ∀ t, owner = some t → os.tcb.taskState t ≠ .del) (pnd : Pnd l s.waiting)
    (objPtr : l.objPtr = os.pendList.objPtr) :
    (os.handed m owner nesting type next head l).Inv s held' calm where
  toCore := inv.toCore.handed groups members nobody count types type' alive pnd objPtr
  tck := inv.tck
  fair := by
    have waits : (os.handed m owner nesting type next head l).waitsFor = os.waitsFor := by
      funext r
      exact waitsFor_kept (nobody r) (by simp only [objPtr]) rfl
    rw [waits]
    exact inv.fair

section Clear

variable [DecidableEq σ]

omit [DecidableEq ι] in
theorem Inv.cleared {head : ι → Option μ} (inv : os.Inv s held calm) (groups : Groups next head held')
    (members : ∀ t x, x ∈ held' t ↔ x ≠ m ∧ x ∈ held t)
    (nobody : ∀ r, os.pendList.objPtr r ≠ some (.inr m)) (type : Bool) :
    (os.handed m none 0 (Function.update os.mutex.type m type) (Function.update next m none) head
      { os.pendList with
        list := Function.update os.pendList.list (.inr m)
          { headPtr := none, tailPtr := none } }).Inv s held' calm := by
  have fresh : ∀ r, m ∉ held' r := fun r member => ((members r m).mp member).1 rfl
  refine inv.handed (groups.elsewhere fresh) ?_ nobody (by simp) ?_ (by simp) (by simp)
    (inv.pnd.clear (inv.waiting_eq_nil.mpr nobody)) rfl
  · intro t x
    rw [members]
    by_cases same : x = m <;> simp [same]
  · exact fun x other => Function.update_of_ne other type os.mutex.type

omit [DecidableEq ι] in
theorem Inv.mutexCreate (inv : os.Inv s held calm) (ready : os.CallerReady) (m : μ) :
    ∃ r s' held', os.mutexCreate m = some r ∧ os.Keeps s noSched r s' held' calm := by
  simp only [Os.mutexCreate]
  split
  · exact ⟨_, s, held, rfl, .refuse inv ready⟩
  · rename_i untyped
    have free : os.mutex.ownerTcbPtr m = none := by
      rw [Option.eq_none_iff_forall_ne_some]
      exact fun t owner => untyped (inv.mutexes m t owner)
    have inv' := inv.cleared inv.owned.groups (inv.others free) (inv.nobody free) true
    exact ⟨_, s, held, rfl, .same inv' ready rfl rfl rfl ⟨rfl, rfl, rfl⟩⟩

end Clear

section Services

variable [DecidableEq σ] [Fintype ι] [Fintype μ]

theorem Inv.mutexPendAbort (inv : os.Inv s held calm) (ready : os.CallerReady) {m : μ}
    (rests : calm → ∀ o, os.mutex.ownerTcbPtr m = some o → os.waitsFor o = none)
    (all noSched : Bool) :
    ∃ r s' held', os.mutexPendAbort m all noSched = some r ∧ os.Keeps s noSched r s' held' calm := by
  simp only [Os.mutexPendAbort]
  split
  · exact ⟨_, s, held, rfl, .refuse inv ready⟩
  · obtain ⟨os', s', nbr, aborted, inv', woke⟩ : ∃ os' s' nbr,
        Os.mutexAbortLoop m (all && !noSched) (rounds ι) os 0 = some (os', nbr) ∧ _ :=
      inv.mutexAbortLoop rests (os.card_waiters _)
    exact ⟨_, s', held, by rw [aborted]; rfl,
      .woke inv' ready woke.sched woke.ready woke.times (by simp)⟩

omit [DecidableEq ι] [DecidableEq σ] [DecidableEq μ] [Fintype ι] [Fintype μ] in
theorem Keeps.repriced {os₁ : Os ι σ μ} {s₁ : Lists ι (σ ⊕ μ)} {reply : Option (ErrCode × Nat)}
    (keeps : os₁.Keeps s₁ noSched ⟨os', reply, true⟩ s' held' calm)
    (repriced : os.Repriced s os₁ s₁) :
    os.Keeps s noSched ⟨os', reply, true⟩ s' held' calm where
  inv := keeps.inv
  idleTask := by rw [keeps.idleTask, repriced.sched]
  tcbCur := by rw [keeps.tcbCur, repriced.sched]
  tcbHighRdy := by rw [keeps.tcbHighRdy, repriced.sched]
  pendSv := by rw [keeps.pendSv, repriced.sched]
  nesting := by rw [keeps.nesting, repriced.sched]
  lock := by simpa only [repriced.sched] using keeps.lock
  now := by rw [keeps.now, repriced.times.now]
  due := by
    intro t member still
    rw [← repriced.times.timed] at member
    rw [keeps.due t member still, repriced.times.due]
  caller := by simpa only [repriced.sched] using keeps.caller
  isr := by simpa only [repriced.sched, repriced.state] using keeps.isr
  quiet := by simp

/-- The owner of a mutex becomes as urgent as the running task, which is about to wait for it. -/
theorem Inv.inherit (inv : os.Inv s held calm) (owner : os.mutex.ownerTcbPtr m = some o) (t : ι) :
    ∃ os' s', (if os.tcb.prio t < os.tcb.prio o then
          os.changePrio (changeRounds ι) o (os.tcb.prio t) else some os) = some os' ∧
      os'.Core s' held ∧ os.Repriced s os' s' ∧
      (calm → ∀ waits' : ι → Option ι, os.waitsFor t = none → waits' t = some o →
        (∀ w, w ≠ t → waits' w = os.waitsFor w) →
          ∀ r, Fair os'.tcb.prio os'.tcb.basePrio waits' r) := by
  by_cases less : os.tcb.prio t < os.tcb.prio o
  · obtain ⟨os', s', raised, core, repriced, kept, fair⟩ :=
      inv.toCore.raise (inv.owner_alive owner) less
    refine ⟨os', s', by rw [if_pos less, raised], core, repriced, ?_⟩
    intro calm waits' free waiting same
    have low : os.tcb.prio t ≤ os.tcb.basePrio o := less.le.trans (inv.fair calm o).le_base
    -- for the time being the owner runs as if the priority were its own
    let base := Function.update os.tcb.basePrio o (os.tcb.prio t)
    have others : ∀ r, r ≠ o → Fair os.tcb.prio base os.waitsFor r := by
      intro r notO
      exact (inv.fair calm r).congr (Function.update_of_ne notO (os.tcb.prio t) os.tcb.basePrio)
        (fun _ => .rfl) (fun _ _ => rfl) rfl
    have least : IsLeast (claims os.tcb.prio base os.waitsFor o) (os.tcb.prio t) := by
      refine isLeast_claims.mpr ⟨by simp [base], ?_, by simp [base]⟩
      exact fun w waits => less.le.trans ((inv.fair calm o).le waits)
    have stays := kept t le_rfl
    have fair' := fair base others least
    simp only [base] at fair'
    rw [repriced.waits, ← stays] at fair'
    rw [repriced.basePrio]
    exact join_raised fair' (stays.trans_le low) free waiting same
  · refine ⟨os, s, if_neg less, inv.toCore, .refl os s, ?_⟩
    intro calm waits' free waiting same
    exact join (inv.fair calm) free waiting same (not_lt.mp less)

omit [DecidableEq ι] [DecidableEq σ] [Fintype ι] [Fintype μ] in
theorem Inv.renested {n : Nat} (inv : os.Inv s held calm) (owner : os.mutex.ownerTcbPtr m = some t)
    (some' : n ≠ 0) :
    Inv { os with mutex.ownerNestingCtr := Function.update os.mutex.ownerNestingCtr m n } s
      held calm where
  toSeated := { inv.toSeated with placed := fun r => { inv.placed r with } }
  toRules := { inv.toRules with
    owned := { inv.owned with }
    nesting := by
      intro x
      by_cases same : x = m
      · subst same
        simp [owner, some']
      · simpa [same] using inv.nesting x }
  tck := inv.tck
  fair := inv.fair

omit [DecidableEq σ] [Fintype ι] [Fintype μ] in
theorem Inv.taken (inv : os.Inv s held calm) (free : os.mutex.ownerTcbPtr m = none)
    (type : os.mutex.type m = true) (alive : os.tcb.taskState t ≠ .del) :
    (os.handed m (some t) 1 os.mutex.type
      (Function.update os.mutex.grpNextPtr m (os.tcb.mutexGrpHeadPtr t))
      (Function.update os.tcb.mutexGrpHeadPtr t (some m)) os.pendList).Inv s
      (Function.update held t (m :: held t)) calm := by
  have fresh := inv.ungrouped free
  refine inv.handed (inv.owned.groups.add fresh t) (mem_add fresh t) (inv.nobody free) (by simp)
    (fun _ _ => rfl) (fun _ _ => type) ?_ inv.pnd rfl
  rintro r same
  cases same
  exact alive

theorem Inv.mutexPend (inv : os.Inv s held calm) (ready : os.CallerReady)
    (task : os.sched.intNestingCtr = 0) (notIdle : os.sched.tcbCur ≠ os.sched.idleTask) {m : μ}
    (type : os.mutex.type m = true) {timeout : Nat} (small : timeout < 2 ^ 32) (nonBlocking : Bool) :
    ∃ r s' held', os.mutexPend m timeout nonBlocking = some r ∧ os.Keeps s noSched r s' held' calm ∧
      (r.sched = true → 0 < timeout →
        os.sched.tcbCur ∈ s'.timed ∧ s'.due os.sched.tcbCur = s.now + timeout) := by
  have here := ready task
  simp only [Os.mutexPend]
  split
  · rename_i unnested
    have free := (inv.nesting m).mp unnested
    have inv' := inv.taken free type (t := os.sched.tcbCur) (by simp [here])
    exact ⟨_, s, _, rfl, .same inv' ready rfl rfl rfl ⟨rfl, rfl, rfl⟩, by simp⟩
  rename_i nested
  split
  · rename_i own
    split
    · exact ⟨_, s, held, rfl, .refuse inv ready, by simp⟩
    · have inv' := inv.renested own (n := os.mutex.ownerNestingCtr m + 1) (by omega)
      exact ⟨_, s, held, rfl, .same inv' ready rfl rfl rfl ⟨rfl, rfl, rfl⟩, by simp⟩
  rename_i notOwn
  split
  · exact ⟨_, s, held, rfl, .refuse inv ready, by simp⟩
  split
  · exact ⟨_, s, held, rfl, .refuse inv ready, by simp⟩
  rename_i _ unlocked
  obtain ⟨o, owner⟩ : ∃ o, os.mutex.ownerTcbPtr m = some o := by
    rw [← Option.ne_none_iff_exists']
    exact fun free => nested ((inv.nesting m).mpr free)
  have other : o ≠ os.sched.tcbCur := by
    rintro rfl
    exact notOwn owner
  have free := waitsFor_eq_none (inv.toCore.ready_free here)
  have untimed := inv.toCore.ready_untimed here
  obtain ⟨os₁, s₁, raised, core₁, repriced, fair⟩ := inv.inherit owner os.sched.tcbCur
  have tck₁ := repriced.tck inv.tck
  have here₁ : os₁.tcb.taskState os.sched.tcbCur = .rdy := by rw [repriced.state, here]
  have owner₁ : os₁.mutex.ownerTcbPtr m = some o := by rw [repriced.mutex, owner]
  have notIdle₁ : os.sched.tcbCur ≠ os₁.sched.idleTask := by
    rw [repriced.sched]
    exact notIdle
  have busy : ∀ x, (some (.inr m) : Option (σ ⊕ μ)) = some (.inr x) →
      ∃ o, os₁.mutex.ownerTcbPtr x = some o ∧ o ≠ os.sched.tcbCur := by
    intro x same
    cases same
    exact ⟨o, owner₁, other⟩
  have fits : Fits (σ := σ) .pend .mutex (some (.inr m)) := by simp [Fits, TaskState.pending]
  obtain ⟨os', s', pended, core, tck, blocked, deadline⟩ :=
    core₁.pend tck₁ here₁ notIdle₁ small fits (by simp) busy
  have waiting : (some (.inr m) : Option (σ ⊕ μ)).bind os₁.ownerOf = some o := owner₁
  have inv' : os'.Inv s' held calm := by
    refine { core with tck := tck, fair := ?_ }
    intro calm
    rw [blocked.prio, blocked.basePrio]
    apply fair calm os'.waitsFor free
    · rw [blocked.waits, waiting, Function.update_self]
    · intro w notCur
      rw [blocked.waits, repriced.waits, Function.update_of_ne notCur]
  refine ⟨⟨os', none, true⟩, s', held, ?_, ?_, ?_⟩
  · simp only [owner, Option.bind_eq_bind, Option.bind_some]
    by_cases less : os.tcb.prio os.sched.tcbCur < os.tcb.prio o
    · rw [if_pos less] at raised ⊢
      simp only [raised, Option.bind_some, pended, Os.blocked]
    · rw [if_neg less] at raised ⊢
      rw [← Option.some.inj raised] at pended
      simp only [pended, Option.bind_some, Os.blocked]
  · refine .repriced (.blocked inv' blocked ?_ ?_ ?_) repriced
    · rwa [repriced.times.timed]
    · rwa [repriced.sched]
    · rw [repriced.sched]
      omega
  · rw [← repriced.times.now]
    exact fun _ => deadline

omit [DecidableEq σ] [Fintype ι] in
theorem Owned.remove (owned : os.Owned held) (member : m ∈ held o)
    (nobody : ∀ r, os.pendList.objPtr r ≠ some (.inr m)) :
    ∃ next head held', os.mutexGrpRemove o m =
        some { os with mutex.grpNextPtr := next, tcb.mutexGrpHeadPtr := head } ∧
      Groups next head held' ∧ (∀ t x, x ∈ held' t ↔ x ≠ m ∧ x ∈ held t) ∧
      Owned { os with mutex.grpNextPtr := next, tcb.mutexGrpHeadPtr := head } held' := by
  obtain ⟨next, head, removed, groups⟩ := Groups.remove os owned.groups member
  have members := owned.groups.mem_erase member
  refine ⟨next, head, _, removed, groups, members, {
    group := groups.chain
    owner := fun t x inside => owned.owner t x ((members t x).mp inside).2
    busy := ?_ }⟩
  intro t x waits
  obtain ⟨r, owner, other, inside⟩ := owned.busy t x waits
  refine ⟨r, owner, other, (members r x).mpr ⟨?_, inside⟩⟩
  rintro rfl
  exact nobody t waits

/-- A mutex that nobody waits for any longer leaves its group, and its owner gives back the
    priority it had from those tasks. -/
theorem Core.release (core : os.Core s held) (tck : Tck os.tickList s.now s.due s.timed)
    (settled : calm → os.waitsFor o = none ∧
      Settled os.tcb.prio os.tcb.basePrio os.waitsFor (os.mutex.ownerTcbPtr m))
    (nobody : ∀ r, os.pendList.objPtr r ≠ some (.inr m)) (owner : os.mutex.ownerTcbPtr m = some o) :
    ∃ os₁ next head held' prio r l s', os.mutexGrpRemove o m = some os₁ ∧
      (if os₁.tcb.prio o ≠ os₁.tcb.basePrio o then
          (os₁.prioNew o).bind (os₁.changePrio (changeRounds ι) o) else some os₁) =
        some { os.reprioritised prio r l with
          mutex.grpNextPtr := next, tcb.mutexGrpHeadPtr := head } ∧
      l.objPtr = os.pendList.objPtr ∧ s.SameTimes s' ∧
      (os.reprioritised prio r l).Inv s' held calm ∧
      Groups next head held' ∧ ∀ t x, x ∈ held' t ↔ x ≠ m ∧ x ∈ held t := by
  obtain ⟨next, head, held', removed, groups, members, owned⟩ :=
    core.owned.remove (core.owns o m owner) nobody
  let os₁ : Os ι σ μ := { os with mutex.grpNextPtr := next, tcb.mutexGrpHeadPtr := head }
  have seated : os₁.Seated s := { core.toSeated with placed := fun r => { core.placed r with } }
  have alive : ∀ r, held' r ≠ [] → os.tcb.taskState r ≠ .del := by
    intro r some'
    obtain ⟨x, member⟩ := List.exists_mem_of_ne_nil _ some'
    exact core.alive r (List.ne_nil_of_mem ((members r x).mp member).2)
  rw [owner] at settled
  have others : calm → ∀ r, r ≠ o → Fair os.tcb.prio os.tcb.basePrio os.waitsFor r :=
    fun calm r other => (settled calm).2.fair r fun same => other (Option.some.inj same).symm
  refine ⟨os₁, next, head, held', ?_⟩
  by_cases inherited : os.tcb.prio o ≠ os.tcb.basePrio o
  · have here := core.owner_alive owner
    obtain ⟨p, found, least⟩ := owned.prioNew seated o (core.inside o here)
    have below : p < osCfgPrioMax :=
      (least.2 (Set.mem_insert ..)).trans_lt (core.inside o here)
    obtain ⟨prio, handed⟩ : ∃ prio,
        handOn os.tcb.basePrio os.waitsFor (changeRounds ι) os.tcb.prio o p = some prio :=
      core.handOn_ends o p
    obtain ⟨r, l, s', changed, objs, times, seated'⟩ :=
      seated.changePrio owned alive core.inside here below handed
    have seated'' : Seated (os.reprioritised prio r l) s' :=
      { seated' with placed := fun r => { seated'.placed r with } }
    refine ⟨prio, r, l, s', removed, ?_, objs, times, ?_, groups, members⟩
    · rw [if_pos inherited, found]
      exact changed
    · refine { seated'', core.toRules.reprioritised objs with tck := ?_, fair := ?_ }
      · simpa only [reprioritised, times.timed, times.due, times.now] using tck
      · intro calm x
        have waits : (os.reprioritised prio r l).waitsFor = os.waitsFor :=
          waitsFor_reprioritised objs
        have free := (settled calm).1
        cases (handOn_free free).symm.trans handed
        rw [waits]
        exact fair_update (others calm) least (core.owned.waitsFor_ne o) (by simp [free])
  · refine ⟨os.tcb.prio, os.rdyList, os.pendList, s, removed, if_neg inherited, rfl, ⟨rfl, rfl, rfl⟩, ?_,
      groups, members⟩
    refine { core with tck := tck, fair := ?_ }
    intro calm x
    by_cases same : x = o
    · subst same
      exact ⟨.inl (not_not.mp inherited), (settled calm).2.urgent x rfl⟩
    · exact others calm x same

theorem Inv.mutexDel (inv : os.Inv s held calm) (ready : os.CallerReady) {m : μ}
    (rests : calm → ∀ o, os.mutex.ownerTcbPtr m = some o → os.waitsFor o = none) (always : Bool) :
    ∃ r s' held', os.mutexDel m always = some r ∧ os.Keeps s noSched r s' held' calm := by
  simp only [Os.mutexDel]
  split
  · obtain ⟨os₁, s₁, nbr, aborted, core, tck, settled, free, woke, empty⟩ : ∃ os' s' nbr,
          Os.abortLoop (.inr m) .del true (rounds ι) os 0 = some (os', nbr) ∧ _ :=
      inv.toCore.abortLoop inv.tck (os.card_waiters _)
    have nobody := core.waiting_eq_nil.mp (empty rfl)
    have owners : os.ownerOf (.inr m) = os₁.mutex.ownerTcbPtr m := by rw [woke.mutex]; rfl
    rw [owners] at settled
    simp only [Option.bind_eq_bind, aborted, Option.bind_some]
    cases owner : os₁.mutex.ownerTcbPtr m with
    | none =>
        rw [owner] at settled
        have inv₁ : os₁.Inv s₁ held calm := by
          refine { core with tck := tck, fair := fun calm r => ?_ }
          exact (settled (.of_fair (inv.fair calm) _)).fair r (Option.some_ne_none r).symm
        have inv' := inv₁.cleared inv₁.owned.groups (inv₁.others owner) nobody false
        exact ⟨_, s₁, held, rfl, .woke inv' ready woke.sched woke.ready woke.times (by simp)⟩
    | some o =>
        have released : calm → os₁.waitsFor o = none ∧
            Settled os₁.tcb.prio os₁.tcb.basePrio os₁.waitsFor (os₁.mutex.ownerTcbPtr m) :=
          fun calm => ⟨free o (rests calm o (by rw [← woke.mutex, owner])),
            settled (.of_fair (inv.fair calm) _)⟩
        obtain ⟨os₂, next, head, held', prio, rl, l, s', removed, lowered, objs, times, inv₁, groups,
          members⟩ := core.release tck released nobody owner
        have inv' := inv₁.cleared groups members (objs ▸ nobody) false
        refine ⟨⟨_, some (.none, nbr), true⟩, s', held', ?_, .woke inv' ready woke.sched woke.ready
          (woke.times.trans times.released) (by simp)⟩
        simp only [removed, Option.bind_some]
        by_cases inherited : os₂.tcb.prio o ≠ os₂.tcb.basePrio o
        · rw [if_pos inherited] at lowered ⊢
          rw [lowered]
          rfl
        · rw [if_neg inherited] at lowered ⊢
          exact congrArg (Option.bind · fun os => (os.mutexClr m).served nbr true) lowered
  split
  · rename_i head
    have nobody := inv.waiting_eq_nil.mp (inv.toCore.unwaited_of_head head)
    cases owner : os.mutex.ownerTcbPtr m with
    | none =>
        have inv' := inv.cleared inv.owned.groups (inv.others owner) nobody false
        exact ⟨_, s, held, rfl, .same inv' ready rfl rfl rfl ⟨rfl, rfl, rfl⟩⟩
    | some o =>
        obtain ⟨next, head, held', removed, groups, members, -⟩ :=
          inv.owned.remove (inv.owns o m owner) nobody
        have inv' := inv.cleared groups members nobody false
        exact ⟨_, s, held', by simp only [removed]; rfl,
          .same inv' ready rfl rfl rfl ⟨rfl, rfl, rfl⟩⟩
  · exact ⟨_, s, held, rfl, .refuse inv ready⟩

/-! ## Handing a mutex to the next task -/

omit [DecidableEq σ] [DecidableEq μ] [Fintype ι] in
/-- The running task goes back to the priority it is entitled to by its own priority and the tasks
    that wait for the mutexes of its group. -/
theorem Seated.giveBack {group : List μ} (seated : os.Seated s) (state : os.tcb.taskState t = .rdy)
    (chain : Points os.mutex.grpNextPtr (os.tcb.mutexGrpHeadPtr t) group)
    (below : os.tcb.basePrio t < osCfgPrioMax) :
    ∃ p rl prioCur s', os.giveBack t = some { os with
        tcb.prio := Function.update os.tcb.prio t p, rdyList := rl, sched.prioCur := prioCur } ∧
      (os.tcb.prio t ∈ lowerBounds (insert (os.tcb.basePrio t)
          (os.tcb.prio '' {w | ∃ m ∈ group, w ∈ s.waiting (.inr m)})) →
        IsLeast (insert (os.tcb.basePrio t)
          (os.tcb.prio '' {w | ∃ m ∈ group, w ∈ s.waiting (.inr m)})) p) ∧
      s.SameTimes s' ∧ s'.waiting = s.waiting ∧
      Seated { os with
        tcb.prio := Function.update os.tcb.prio t p, rdyList := rl, sched.prioCur := prioCur } s' := by
  have stays : os = { os with
      tcb.prio := Function.update os.tcb.prio t (os.tcb.prio t), rdyList := os.rdyList
      sched.prioCur := os.sched.prioCur } := by
    rw [Function.update_eq_self]
  simp only [Os.giveBack]
  by_cases inherited : os.tcb.prio t ≠ os.tcb.basePrio t
  · obtain ⟨p, found, least⟩ := seated.prioNew chain below
    simp only [if_pos inherited, Option.bind_eq_bind, found, Option.bind_some]
    by_cases less : os.tcb.prio t < p
    · have member : t ∈ s.ready (os.tcb.prio t) := ((seated.placed t).ready _).mpr ⟨state, rfl⟩
      have fresh : ∀ q, t ∉ (s.ready q).erase t :=
        fun q => (seated.rdy.listed q).nodup.not_mem_erase
      have inside : p < osCfgPrioMax := (least.2 (Set.mem_insert ..)).trans_lt below
      obtain ⟨rl, inserted, rdy⟩ := (seated.rdy.erase member).insertTail inside fresh
      have moved := seated.moved state inside rdy (by simp [or_comm])
      let ready' := Function.update (fun q => (s.ready q).erase t) p ((s.ready p).erase t ++ [t])
      refine ⟨p, rl, p, { s with ready := ready' }, ?_, fun _ => least, ⟨rfl, rfl, rfl⟩, rfl, ?_⟩
      · rw [if_pos less]
        simp only [rdyListRemove, inserted, Option.bind_some]
      · exact { moved with placed := fun r => { moved.placed r with } }
    · refine ⟨os.tcb.prio t, os.rdyList, os.sched.prioCur, s, ?_, fun urgent => ?_, ⟨rfl, rfl, rfl⟩,
        rfl, ?_⟩
      · rw [if_neg less, ← stays]
      · have same : p = os.tcb.prio t := le_antisymm (not_lt.mp less) (urgent least.1)
        exact same ▸ least
      · rwa [← stays]
  · refine ⟨os.tcb.prio t, os.rdyList, os.sched.prioCur, s, ?_,
      fun urgent => ⟨.inl (not_not.mp inherited), urgent⟩, ⟨rfl, rfl, rfl⟩, rfl, ?_⟩
    · rw [if_neg inherited, ← stays]
    · rwa [← stays]

omit [DecidableEq ι] [DecidableEq σ] [DecidableEq μ] [Fintype ι] [Fintype μ] in
/-- An owner is at least as urgent as its own priority and the tasks that wait for the mutexes of a
    part of its group. -/
theorem Inv.claimed {part : List μ} (inv : os.Inv s held calm) (calm' : calm)
    (sub : ∀ x ∈ part, x ∈ held t) :
    os.tcb.prio t ∈ lowerBounds (insert (os.tcb.basePrio t)
      (os.tcb.prio '' {w | ∃ x ∈ part, w ∈ s.waiting (.inr x)})) := by
  rintro q (rfl | ⟨w, ⟨x, member, waits⟩, rfl⟩)
  · exact (inv.fair calm' t).le_base
  · apply (inv.fair calm' t).le
    rw [waitsFor_eq_some]
    exact ⟨x, (inv.pnd.object w (.inr x)).mpr waits, inv.owned.owner t x (sub x member)⟩

omit [DecidableEq σ] [Fintype ι] [Fintype μ] in
/-- Every task runs fair when the running task has given a mutex to the first of the tasks that
    wait for it and has gone back to the priority it is entitled to. -/
theorem Inv.passed {first : ι} (inv : os.Inv s held calm) (calm' : calm)
    (state : os.tcb.taskState t = .rdy)
    (owner : os.mutex.ownerTcbPtr m = some t)
    (head : (os.pendList.list (.inr m)).headPtr = some first)
    (objPtr : os'.pendList.objPtr = Function.update os.pendList.objPtr first none)
    (owners : os'.mutex.ownerTcbPtr = Function.update os.mutex.ownerTcbPtr m (some first))
    (least : IsLeast (insert (os.tcb.basePrio t)
      (os.tcb.prio '' {w | ∃ x ∈ (held t).erase m, w ∈ s.waiting (.inr x)})) p) (r : ι) :
    Fair (Function.update os.tcb.prio t p) os.tcb.basePrio os'.waitsFor r := by
  have waits := inv.objPtr_head head
  have running := inv.toCore.ready_free state
  have gone : os'.waitsFor first = none := waitsFor_eq_none (by rw [objPtr, Function.update_self])
  have passed : ∀ w, os.pendList.objPtr w = some (.inr m) → w ≠ first →
      os'.waitsFor w = some first := by
    intro w waitsM other
    refine waitsFor_handed ?_ owners
    rw [objPtr, Function.update_of_ne other, waitsM]
  have same : ∀ w, os.pendList.objPtr w ≠ some (.inr m) → os'.waitsFor w = os.waitsFor w := by
    intro w elsewhere
    have other : w ≠ first := by
      rintro rfl
      exact elsewhere waits
    exact waitsFor_kept elsewhere (by rw [objPtr, Function.update_of_ne other]) owners
  have waiters : {w | ∃ x ∈ (held t).erase m, w ∈ s.waiting (.inr x)} =
      {w | os'.waitsFor w = some t} := by
    ext w
    simp only [Set.mem_ofPred_eq]
    constructor
    · rintro ⟨x, inErase, inList⟩
      obtain ⟨notM, inHeld⟩ := (inv.owned.group t).nodup.mem_erase_iff.mp inErase
      have waitsX := (inv.pnd.object w (.inr x)).mpr inList
      have elsewhere : os.pendList.objPtr w ≠ some (.inr m) := by
        simpa [waitsX] using notM
      rw [same w elsewhere, waitsFor_eq_some]
      exact ⟨x, waitsX, inv.owned.owner t x inHeld⟩
    · intro waitsT
      by_cases atM : os.pendList.objPtr w = some (.inr m)
      · -- the others wait for the new owner now
        by_cases atFirst : w = first
        · subst atFirst
          cases gone.symm.trans waitsT
        · cases (passed w atM atFirst).symm.trans waitsT
          cases running.symm.trans waits
      · rw [same w atM, waitsFor_eq_some] at waitsT
        obtain ⟨x, waitsX, ownerX⟩ := waitsT
        have notM : x ≠ m := by
          rintro rfl
          exact atM waitsX
        exact ⟨x, (List.mem_erase_of_ne notM).mpr (inv.owns t x ownerX),
          (inv.pnd.object w (.inr x)).mp waitsX⟩
  let group := {w | os.pendList.objPtr w = some (.inr m)}
  have member : first ∈ group := waits
  refine handover (inv.fair calm') (waitsFor_eq_none running) ?_ member ?_ gone passed same ?_ r
  · intro w waitsM
    exact waitsFor_eq_some.mpr ⟨m, waitsM, owner⟩
  · intro w waitsM
    have inList := (inv.pnd.object w (.inr m)).mp waitsM
    have order := inv.inOrder (.inr m)
    rw [inv.headPtr] at head
    obtain ⟨rest, split⟩ := List.head?_eq_some_iff.mp head
    rw [split] at inList order
    rcases List.mem_cons.mp inList with rfl | behind
    · exact le_rfl
    · exact (List.pairwise_cons.mp order).1 w behind
  · rwa [waiters] at least

omit [Fintype ι] in
theorem Inv.passOn {first : ι} {n : Nat} {os₀ : Os ι σ μ} (inv : os.Inv s held calm)
    (state : os.tcb.taskState t = .rdy) (owner : os.mutex.ownerTcbPtr m = some t)
    (head : (os.pendList.list (.inr m)).headPtr = some first)
    (released : os₀ = { os with
      mutex.ownerNestingCtr := Function.update os.mutex.ownerNestingCtr m n }) :
    ∃ os₁ os₂ os' s' held', os₀.mutexGrpRemove t m = some os₁ ∧
      os₁.pendList = os.pendList ∧ os₁.giveBack t = some os₂ ∧
      (mutexGrpAdd { os₂ with
        mutex.ownerTcbPtr := Function.update os₂.mutex.ownerTcbPtr m (some first)
        mutex.ownerNestingCtr := Function.update os₂.mutex.ownerNestingCtr m 1 } first m).post
          (some (.inr m)) first = some os' ∧
      os'.Inv s' held' calm ∧ s.Released s' ∧
      (∃ prioCur, os'.sched = { os.sched with prioCur := prioCur }) ∧
      ∀ r, os.tcb.taskState r = .rdy → os'.tcb.taskState r = .rdy := by
  subst released
  have waits := inv.objPtr_head head
  have pends := inv.pending waits
  have running := inv.toCore.ready_free state
  have member := inv.owns t m owner
  obtain ⟨next, heads, removed, groups⟩ :=
    Groups.remove { os with
      mutex.ownerNestingCtr := Function.update os.mutex.ownerNestingCtr m n }
      inv.owned.groups member
  have members := inv.owned.groups.mem_erase member
  -- the running task gives back its priority
  let os₁ : Os ι σ μ := { os with
    mutex.ownerNestingCtr := Function.update os.mutex.ownerNestingCtr m n
    mutex.grpNextPtr := next
    tcb.mutexGrpHeadPtr := heads }
  have seated₁ : os₁.Seated s := { inv.toSeated with placed := fun r => { inv.placed r with } }
  have chain : Points next (heads t) ((held t).erase m) := by
    have chain := groups.chain t
    rwa [Function.update_self] at chain
  obtain ⟨p, rl, prioCur, s₂, back, least, times, waiting, seated₂⟩ :=
    seated₁.giveBack state chain (inv.inside t (by simp [state]))
  -- the mutex has its new owner
  have fresh : ∀ r, m ∉ Function.update held t ((held t).erase m) r :=
    fun r inside => ((members r m).mp inside).1 rfl
  have groups' := groups.add fresh first
  let os₂ : Os ι σ μ := { os₁ with
    tcb.prio := Function.update os.tcb.prio t p, rdyList := rl, sched.prioCur := prioCur }
  let os₃ : Os ι σ μ := mutexGrpAdd { os₂ with
    mutex.ownerTcbPtr := Function.update os₂.mutex.ownerTcbPtr m (some first)
    mutex.ownerNestingCtr := Function.update os₂.mutex.ownerNestingCtr m 1 } first m
  have seated₃ : os₃.Seated s₂ := { seated₂ with placed := fun r => { seated₂.placed r with } }
  -- the new owner has ceased to wait
  obtain ⟨l, rl', posted, objs, seated₄⟩ := seated₃.pendEnd pends .ok
  have waits₃ : os₃.pendList.objPtr first = some (.inr m) := waits
  rw [← post_eq (show (os₃.tcb.taskState first).pending = true from pends) waits₃] at posted
  have ended : (os.ended l rl' first .ok).Rules held := inv.toRules.ended pends objs
  have other : ∀ r, os.tcb.taskState r = .rdy → r ≠ first := by
    rintro r ready rfl
    simp [ready, TaskState.pending] at pends
  have rules : (os₃.ended l rl' first .ok).Rules
      (Function.update (Function.update held t ((held t).erase m)) first
        (m :: Function.update held t ((held t).erase m) first)) := by
    have owners : os₃.mutex.ownerTcbPtr = Function.update os.mutex.ownerTcbPtr m (some first) := rfl
    refine ended.handed groups' ?_ owners ?_ ?_ (fun _ _ => rfl) ?_ ?_ ?_
      rfl rfl rfl rfl rfl rfl
    · intro r x
      rw [mem_add fresh, members]
      by_cases same : x = m <;> simp [same]
    · intro x notM
      simp [os₃, os₂, os₁, mutexGrpAdd, Os.ended, notM]
    · simp [os₃, os₂, mutexGrpAdd, Os.ended]
    · exact fun _ _ => inv.mutexes m t owner
    · intro r waitsM
      refine ⟨first, rfl, ?_⟩
      rintro rfl
      simp [Os.ended, objs] at waitsM
    · rintro r same
      cases same
      simp only [Os.ended, Function.update_self, TaskState.woken]
      split <;> simp
  let s' := ((s₂.unwait first).untime first).wake os₃ first
  have released : s.Released s' := by
    refine ⟨?_, ?_, ?_⟩
    · intro r inside
      simp only [s', Lists.wake_timed] at inside
      exact times.timed ▸ List.mem_of_mem_erase inside
    · simp only [s', Lists.wake_due]
      exact times.due
    · simp only [s', Lists.wake_now]
      exact times.now
  have timed : s'.timed = s.timed.erase first := by
    simp only [s', Lists.wake_timed, Lists.untime, Lists.unwait, times.timed]
  have inv' : (os₃.ended l rl' first .ok).Inv s' _ calm := {
    toSeated := seated₄
    toRules := rules
    tck := by
      rw [released.due, released.now, timed]
      exact inv.tck_erase inv.tck first
    fair := fun calm => inv.passed calm state owner head objs rfl
      (least (inv.claimed calm fun x => List.mem_of_mem_erase)) }
  refine ⟨os₁, os₂, _, s', _, removed, rfl, back, posted, inv', released, ⟨prioCur, rfl⟩, ?_⟩
  intro r ready
  exact (Function.update_of_ne (other r ready) _ os.tcb.taskState).trans ready

omit [Fintype ι] in
theorem Inv.mutexPost (inv : os.Inv s held calm) (ready : os.CallerReady)
    (task : os.sched.intNestingCtr = 0) (m : μ) (noSched : Bool) :
    ∃ r s' held', os.mutexPost m noSched = some r ∧ os.Keeps s noSched r s' held' calm := by
  have here := ready task
  simp only [Os.mutexPost]
  split
  · exact ⟨_, s, held, rfl, .refuse inv ready⟩
  rename_i owner
  rw [not_not] at owner
  split
  · have inv' := inv.renested owner (n := os.mutex.ownerNestingCtr m - 1) (by omega)
    exact ⟨_, s, held, rfl, .same inv' ready rfl rfl rfl ⟨rfl, rfl, rfl⟩⟩
  let ctr := os.mutex.ownerNestingCtr m - 1
  let os₀ : Os ι σ μ := { os with
    mutex.ownerNestingCtr := Function.update os.mutex.ownerNestingCtr m ctr }
  cases head : (os.pendList.list (.inr m)).headPtr with
  | none =>
      have nobody := inv.waiting_eq_nil.mp (inv.toCore.unwaited_of_head head)
      obtain ⟨next, heads, removed, groups⟩ :=
        Groups.remove os₀ inv.owned.groups (inv.owns os.sched.tcbCur m owner)
      have members := inv.owned.groups.mem_erase (inv.owns os.sched.tcbCur m owner)
      have inv' : (os.handed m none 0 os.mutex.type next heads os.pendList).Inv s _ calm :=
        inv.handed groups (by
          intro r x
          rw [members]
          by_cases same : x = m <;> simp [same])
        nobody (by simp) (fun _ _ => rfl) (by simp) (by simp) inv.pnd rfl
      refine ⟨⟨_, some (.none, 0), false⟩, s, _, ?_, .same inv' ready rfl rfl rfl ⟨rfl, rfl, rfl⟩⟩
      simp only [Option.bind_eq_bind]
      rw [removed]
      simp only [Option.bind_some, head, served, os₀, Function.update_idem]
  | some first =>
      obtain ⟨os₁, os₂, os', s', held', removed, same, back, posted, inv', released,
        ⟨prioCur, vars⟩, kept⟩ := inv.passOn here owner head (rfl : os₀ = _)
      rw [← same] at head
      refine ⟨⟨os', some (.none, 0), !noSched⟩, s', held', ?_,
        .reprioritised inv' ready prioCur vars kept released (by simp)⟩
      simp only [Option.bind_eq_bind]
      rw [removed]
      simp only [Option.bind_some, head, back, posted, served]

end Services

end Os

end ExploreF407.Kernel
