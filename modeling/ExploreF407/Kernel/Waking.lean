import ExploreF407.Kernel.Services
import ExploreF407.Kernel.Invariant

/-! # Tasks that are woken

The functions that end the wait of tasks, one task or all tasks of an object, by
a post, by an abort, by the deletion of the object or by a tick. Each loop ends
because every round leaves one task less to wait.
-/

namespace ExploreF407.Kernel

open Linked Urgency Inherit

variable {ι σ μ : Type}

namespace Os

variable {os os' os'' : Os ι σ μ} {s s' s'' : Lists ι (σ ⊕ μ)} {held held' : ι → List μ}
  {t r o : ι} {m : μ} {p : Nat} {obj : σ ⊕ μ} {calm : Prop}

theorem Seated.pending (seated : os.Seated s) (waits : os.pendList.objPtr t = some obj) :
    (os.tcb.taskState t).pending = true := by
  by_contra idle
  simp [seated.free (eq_false_of_ne_true idle)] at waits

theorem Seated.headPtr (seated : os.Seated s) (obj : σ ⊕ μ) :
    (os.pendList.list obj).headPtr = (s.waiting obj).head? := (seated.pnd.listed obj).head

theorem Seated.objPtr_head (seated : os.Seated s) (first : (os.pendList.list obj).headPtr = some t) :
    os.pendList.objPtr t = some obj := by
  rw [seated.headPtr] at first
  exact (seated.pnd.object t obj).mpr (List.mem_of_head? first)

variable [DecidableEq ι] [DecidableEq σ] [DecidableEq μ]

/-! ## One task -/

theorem pendAbort_eq (pends : (os.tcb.taskState t).pending = true) (reason : PendStatus) :
    os.pendAbort t reason = (os.pendListRemove t).bind fun os => os.pendEnd t reason := by
  cases state : os.tcb.taskState t <;> simp [state, TaskState.pending] at pends <;>
    simp [pendAbort, state]

theorem post_eq (pends : (os.tcb.taskState t).pending = true) {obj : Option (σ ⊕ μ)}
    (waits : os.pendList.objPtr t = obj) :
    os.post obj t = (os.pendListRemove t).bind fun os => os.pendEnd t .ok := by
  cases obj with
  | some obj =>
      cases state : os.tcb.taskState t <;> simp [state, TaskState.pending] at pends <;>
        simp [post, state]
  | none =>
      have stays : os.pendListRemove t = some os := by
        simp [pendListRemove, osPendListRemove, waits]
      cases state : os.tcb.taskState t <;> simp [state, TaskState.pending] at pends <;>
        simp [post, state, stays]

theorem Core.pendAbort (core : os.Core s held) (pends : (os.tcb.taskState t).pending = true)
    (reason : PendStatus) :
    ∃ os' s', os.pendAbort t reason = some os' ∧ os'.Core s' held ∧ os.Ended s t os' s' := by
  rw [pendAbort_eq pends]
  exact core.pendEnd pends reason

theorem Core.post (core : os.Core s held) (pends : (os.tcb.taskState t).pending = true)
    {obj : Option (σ ⊕ μ)} (waits : os.pendList.objPtr t = obj) :
    ∃ os' s', os.post obj t = some os' ∧ os'.Core s' held ∧ os.Ended s t os' s' := by
  rw [post_eq pends waits]
  exact core.pendEnd pends .ok

omit [DecidableEq σ] [DecidableEq μ] in
theorem Inv.ended (inv : os.Inv s held calm) (core : os'.Core s' held) (ended : os.Ended s t os' s')
    (free : calm → os.waitsFor t = none) : os'.Inv s' held calm where
  toCore := core
  tck := ended.tck inv.toCore inv.tck
  fair := fun calm r =>
    (ended.settled (free calm) (Settled.of_fair (inv.fair calm) none)).fair r
      (Option.some_ne_none r).symm

omit [DecidableEq σ] [DecidableEq μ] in
/-- The wait of a task for a mutex ends, and its owner may be more urgent than it should. -/
theorem Ended.left (ended : os.Ended s t os' s')
    (fair : ∀ r, Fair os.tcb.prio os.tcb.basePrio os.waitsFor r) (waits : os.waitsFor t = some o) :
    (∀ r, r ≠ o → Fair os'.tcb.prio os'.tcb.basePrio os'.waitsFor r) ∧
      IsLeast (insert (os.tcb.prio t) (claims os'.tcb.prio os'.tcb.basePrio os'.waitsFor o))
        (os'.tcb.prio o) := by
  rw [ended.prio, ended.basePrio, ended.waits]
  exact leave fair waits (Function.update_self ..) fun w other =>
    Function.update_of_ne other none os.waitsFor

omit [DecidableEq σ] [DecidableEq μ] in
theorem Ended.before (ended : os.Ended s t os' s') (x o : ι) (waits : os'.waitsFor x = some o) :
    os.waitsFor x = some o := by
  rw [ended.waits] at waits
  by_cases same : x = t
  · simp [same] at waits
  · rwa [Function.update_of_ne same] at waits

omit [DecidableEq σ] [DecidableEq μ] in
theorem Ended.free (ended : os.Ended s t os' s') (x : ι) (free : os.waitsFor x = none) :
    os'.waitsFor x = none := by
  refine Option.eq_none_iff_forall_ne_some.mpr fun o waits => ?_
  cases free.symm.trans (ended.before x o waits)

omit [DecidableEq ι] [DecidableEq σ] [DecidableEq μ] in
theorem Rules.owner_alive (rules : os.Rules held) (owner : os.mutex.ownerTcbPtr m = some o) :
    os.tcb.taskState o ≠ .del :=
  rules.alive o (List.ne_nil_of_mem (rules.owns o m owner))

/-! ## The tasks of an object -/

section Rounds

variable [Fintype ι]

def waiters (os : Os ι σ μ) (obj : σ ⊕ μ) : Finset ι :=
  Finset.univ.filter fun t => os.pendList.objPtr t = some obj

omit [DecidableEq ι] in
theorem card_waiters (os : Os ι σ μ) (obj : σ ⊕ μ) : (os.waiters obj).card < rounds ι :=
  Nat.lt_succ_of_le (Finset.card_le_univ _)

theorem Ended.waiters (ended : os.Ended s t os' s') (waits : os.pendList.objPtr t = some obj) :
    (os'.waiters obj).card < (os.waiters obj).card := by
  apply Finset.card_lt_card
  refine Finset.ssubset_iff.mpr ⟨t, by simp [Os.waiters, ended.objPtr], ?_⟩
  intro x member
  rcases Finset.mem_insert.mp member with rfl | inside
  · simpa [Os.waiters] using waits
  · have other : x ≠ t := by
      rintro rfl
      simp [Os.waiters, ended.objPtr] at inside
    simpa [Os.waiters, ended.objPtr, other] using inside

omit [Fintype ι] [DecidableEq ι] [DecidableEq σ] [DecidableEq μ] in
theorem Woke.ownerOf (woke : os.Woke s os' s') (obj : σ ⊕ μ) : os'.ownerOf obj = os.ownerOf obj := by
  simp only [Os.ownerOf, woke.mutex]

theorem Core.abortLoop {fuel nbr : Nat} {reason : PendStatus} {all : Bool}
    (core : os.Core s held) (tck : Tck os.tickList s.now s.due s.timed)
    (enough : (os.waiters obj).card < fuel) :
    ∃ os' s' nbr', Os.abortLoop obj reason all fuel os nbr = some (os', nbr') ∧
      os'.Core s' held ∧ Tck os'.tickList s'.now s'.due s'.timed ∧
      (Settled os.tcb.prio os.tcb.basePrio os.waitsFor (os.ownerOf obj) →
        Settled os'.tcb.prio os'.tcb.basePrio os'.waitsFor (os.ownerOf obj)) ∧
      (∀ x, os.waitsFor x = none → os'.waitsFor x = none) ∧
      os.Woke s os' s' ∧ (all = true → s'.waiting obj = []) := by
  induction fuel generalizing os s nbr with
  | zero => simp at enough
  | succ fuel ih =>
      simp only [Os.abortLoop]
      cases first : (os.pendList.list obj).headPtr with
      | none =>
          refine ⟨os, s, nbr, rfl, core, tck, id, fun _ => id, .refl os s, fun _ => ?_⟩
          rw [core.headPtr] at first
          exact List.head?_eq_none_iff.mp first
      | some t =>
          have waits := core.objPtr_head first
          obtain ⟨os₁, s₁, aborted, core₁, ended⟩ := core.pendAbort (core.pending waits) reason
          have tck₁ := ended.tck core tck
          have settled₁ := ended.settled (waitsFor_eq_ownerOf waits)
          have free₁ := ended.free
          simp only [aborted, Option.bind_some]
          cases all with
          | false =>
              exact ⟨os₁, s₁, nbr + 1, rfl, core₁, tck₁, settled₁, free₁, ended.woke, by simp⟩
          | true =>
              have fewer := ended.waiters waits
              have sameOwner := ended.woke.ownerOf obj
              obtain ⟨os', s', nbr', done, core', tck', settled', free', woke, empty⟩ :
                  ∃ os' s' nbr',
                    Os.abortLoop obj reason true fuel os₁ (nbr + 1) = some (os', nbr') ∧ _ :=
                ih core₁ tck₁ (by omega)
              rw [sameOwner] at settled'
              exact ⟨os', s', nbr', by simpa using done, core', tck',
                fun settled => settled' (settled₁ settled), fun x free => free' x (free₁ x free),
                ended.woke.trans woke, empty⟩

omit [Fintype ι] in
theorem Inv.postLoop {fuel : Nat} {all : Bool} (inv : os.Inv s held calm) (free : os.ownerOf obj = none)
    (enough : (s.waiting obj).length < fuel) :
    ∃ os' s', Os.postLoop obj all fuel os (s.waiting obj).head? = some os' ∧ os'.Inv s' held calm ∧
      os.Woke s os' s' := by
  induction fuel generalizing os s with
  | zero => simp at enough
  | succ fuel ih =>
      rcases waiting : s.waiting obj with _ | ⟨t, rest⟩
      · exact ⟨os, s, rfl, inv, .refl os s⟩
      · have listed := inv.pnd.listed obj
        rw [waiting] at listed enough
        have front : TwoEnded os.pendList.prevPtr os.pendList.nextPtr (os.pendList.list obj).headPtr
            (os.pendList.list obj).tailPtr ([] ++ t :: rest) := listed
        have next : os.pendList.nextPtr t = rest.head? := front.around.2
        have waits : os.pendList.objPtr t = some obj :=
          (inv.pnd.object t obj).mpr (by simp [waiting])
        have waitsFor : os.waitsFor t = none := (waitsFor_eq_ownerOf waits).trans free
        obtain ⟨os₁, s₁, posted, core₁, ended⟩ := inv.toCore.post (inv.pending waits) waits
        have inv₁ := inv.ended core₁ ended fun _ => waitsFor
        simp only [List.head?_cons, Os.postLoop, posted, Option.bind_some, next]
        cases all with
        | false => exact ⟨os₁, s₁, rfl, inv₁, ended.woke⟩
        | true =>
            have behind : s₁.waiting obj = rest := by
              simp only [ended.waiting, waiting, List.erase_cons_head]
            have free₁ : os₁.ownerOf obj = none := (ended.woke.ownerOf obj).trans free
            have shorter : (s₁.waiting obj).length < fuel := by
              simpa [behind] using enough
            obtain ⟨os', s', done, inv', woke⟩ := ih inv₁ free₁ shorter
            rw [behind] at done
            exact ⟨os', s', by simpa using done, inv', ended.woke.trans woke⟩

omit [DecidableEq ι] [DecidableEq σ] [DecidableEq μ] in
theorem Seated.length_waiting (seated : os.Seated s) (obj : σ ⊕ μ) :
    (s.waiting obj).length < rounds ι :=
  Nat.lt_succ_of_le (seated.pnd.listed obj).nodup.length_le_card

variable [Fintype μ]

theorem Inv.mutexAbortLoop {fuel nbr : Nat} {all : Bool} (inv : os.Inv s held calm)
    (rests : calm → ∀ o, os.mutex.ownerTcbPtr m = some o → os.waitsFor o = none)
    (enough : (os.waiters (.inr m)).card < fuel) :
    ∃ os' s' nbr', Os.mutexAbortLoop m all fuel os nbr = some (os', nbr') ∧ os'.Inv s' held calm ∧
      os.Woke s os' s' := by
  induction fuel generalizing os s nbr with
  | zero => simp at enough
  | succ fuel ih =>
      simp only [Os.mutexAbortLoop]
      cases first : (os.pendList.list (.inr m)).headPtr with
      | none => exact ⟨os, s, nbr, rfl, inv, .refl os s⟩
      | some t =>
          have waits := inv.objPtr_head first
          obtain ⟨o, owner, -⟩ := inv.owned.busy t m waits
          have waitsFor : os.waitsFor t = some o := waitsFor_eq_some.mpr ⟨m, waits, owner⟩
          obtain ⟨os₁, s₁, aborted, core₁, ended⟩ := inv.toCore.pendAbort (inv.pending waits) .abort
          have owner₁ : os₁.mutex.ownerTcbPtr m = some o := by rw [ended.woke.mutex, owner]
          obtain ⟨os₂, s₂, settled, core₂, repriced, fair⟩ :=
            core₁.disinherit (core₁.owner_alive owner₁) t
          have inv₂ : os₂.Inv s₂ held calm := by
            refine { core₂ with tck := repriced.tck (ended.tck inv.toCore inv.tck), fair := ?_ }
            intro calm
            obtain ⟨others, least⟩ := ended.left (inv.fair calm) waitsFor
            rw [← ended.prio] at least
            exact fair (ended.free o (rests calm o owner)) others least
          have rests₂ : calm → ∀ o, os₂.mutex.ownerTcbPtr m = some o → os₂.waitsFor o = none := by
            intro calm o' owner'
            rw [repriced.mutex, ended.woke.mutex] at owner'
            rw [repriced.waits]
            exact ended.free o' (rests calm o' owner')
          have woke := ended.woke.trans repriced.woke
          simp only [aborted, Option.bind_some, owner₁, settled]
          cases all with
          | false => exact ⟨os₂, s₂, nbr + 1, rfl, inv₂, woke⟩
          | true =>
              have fewer : (os₂.waiters (.inr m)).card < fuel := by
                have less := ended.waiters waits
                simp only [Os.waiters, repriced.objPtr] at less ⊢
                simp only [Os.waiters] at enough
                omega
              obtain ⟨os', s', nbr', done, inv', woke'⟩ : ∃ os' s' nbr',
                  Os.mutexAbortLoop m true fuel os₂ (nbr + 1) = some (os', nbr') ∧ _ :=
                ih inv₂ rests₂ fewer
              exact ⟨os', s', nbr', by simpa using done, inv', woke.trans woke'⟩

end Rounds

end Os

end ExploreF407.Kernel
