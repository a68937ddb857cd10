import ExploreF407.Kernel.Sound
import ExploreF407.Lib.Inherit

/-! # The owners of mutexes

Each task has a chain of the mutexes it owns, its mutex group. The search for
the most urgent task that waits for one of them looks only at the first task of
each pend list.
-/

namespace ExploreF407.Kernel

open Linked Urgency Inherit

namespace Os

variable {ι σ μ : Type} {os os' : Os ι σ μ} {s s' : Lists ι (σ ⊕ μ)} {held : ι → List μ}
  {t r : ι} {m : μ}

/-- The groups hold mutexes of the task, and a mutex for which a task pends is in the group of
    another one. -/
structure Owned (os : Os ι σ μ) (held : ι → List μ) : Prop where
  group : ∀ t, Points os.mutex.grpNextPtr (os.tcb.mutexGrpHeadPtr t) (held t)
  owner : ∀ t m, m ∈ held t → os.mutex.ownerTcbPtr m = some t
  busy : ∀ t m, os.pendList.objPtr t = some (.inr m) →
    ∃ o, os.mutex.ownerTcbPtr m = some o ∧ o ≠ t ∧ m ∈ held o

theorem pendMutex_eq_some : os.pendMutex t = some m ↔ os.pendList.objPtr t = some (.inr m) := by
  rcases obj : os.pendList.objPtr t with _ | _ | _ <;> simp [pendMutex, obj]

theorem waitsFor_eq_some : os.waitsFor t = some r ↔
    ∃ m, os.pendList.objPtr t = some (.inr m) ∧ os.mutex.ownerTcbPtr m = some r := by
  simp only [waitsFor, Option.bind_eq_some_iff, pendMutex_eq_some]

/-- The priorities of the tasks that wait for a mutex of the group, and the least priority. -/
theorem grpPrio_eq {fuel : Nat} {group : List μ} {pointer : Option μ} {highest : Nat}
    (seated : os.Seated s) (chain : Points os.mutex.grpNextPtr pointer group)
    (enough : group.length < fuel) :
    ∃ p, os.grpPrio fuel pointer highest = some p ∧
      IsLeast (insert highest (os.tcb.prio '' {w | ∃ m ∈ group, w ∈ s.waiting (.inr m)})) p := by
  induction group generalizing pointer highest fuel with
  | nil =>
      obtain ⟨fuel, rfl⟩ : ∃ n, fuel = n + 1 := ⟨fuel - 1, by simp at enough; omega⟩
      cases chain
      exact ⟨highest, rfl, by simp⟩
  | cons m group ih =>
      obtain ⟨fuel, rfl⟩ : ∃ n, fuel = n + 1 := ⟨fuel - 1, by simp at enough; omega⟩
      obtain ⟨rfl, chain⟩ := chain
      simp only [List.length_cons, Nat.add_lt_add_iff_right] at enough
      have head := (seated.pnd.listed (.inr m)).head
      have order := seated.inOrder (.inr m)
      simp only [grpPrio]
      rcases waiting : s.waiting (.inr m) with _ | ⟨first, rest⟩
      · simp only [waiting, List.head?_nil] at head
        obtain ⟨p, found, least⟩ : ∃ p, os.grpPrio fuel (os.mutex.grpNextPtr m) highest = some p ∧ _ :=
          ih chain enough
        refine ⟨p, by simpa only [head] using found, ?_⟩
        simpa [waiting] using least
      · simp only [waiting, List.head?_cons] at head order
        have behind := (List.pairwise_cons.mp order).1
        let highest' := if os.tcb.prio first < highest then os.tcb.prio first else highest
        obtain ⟨p, found, least⟩ :
            ∃ p, os.grpPrio fuel (os.mutex.grpNextPtr m) highest' = some p ∧ _ := ih chain enough
        refine ⟨p, by simpa only [head] using found, ?_⟩
        obtain ⟨le, leOthers, attained⟩ := isLeast_insert_image.mp least
        have low : highest' ≤ os.tcb.prio first ∧ highest' ≤ highest := by
          simp only [highest']
          split <;> omega
        refine isLeast_insert_image.mpr ⟨le.trans low.2, ?_, ?_⟩
        · rintro w ⟨m', inGroup, member⟩
          rcases List.mem_cons.mp inGroup with rfl | inGroup
          · simp only [waiting, List.mem_cons] at member
            rcases member with rfl | member
            · exact le.trans low.1
            · exact (le.trans low.1).trans (behind w member)
          · exact leOthers w ⟨m', inGroup, member⟩
        · rcases attained with same | ⟨w, ⟨m', inGroup, member⟩, equal⟩
          · by_cases less : os.tcb.prio first < highest
            · refine .inr ⟨first, ⟨m, List.mem_cons_self, by simp [waiting]⟩, ?_⟩
              simp only [same, highest', if_pos less]
            · exact .inl (by simp only [same, highest', if_neg less])
          · exact .inr ⟨w, ⟨m', List.mem_cons_of_mem m inGroup, member⟩, equal⟩

theorem Seated.prioNew [DecidableEq ι] [Fintype μ] {group : List μ} (seated : os.Seated s)
    (chain : Points os.mutex.grpNextPtr (os.tcb.mutexGrpHeadPtr t) group)
    (below : os.tcb.basePrio t < osCfgPrioMax) :
    ∃ p, os.prioNew t = some p ∧ IsLeast (insert (os.tcb.basePrio t)
      (os.tcb.prio '' {w | ∃ m ∈ group, w ∈ s.waiting (.inr m)})) p := by
  have short : group.length < rounds μ := Nat.lt_succ_of_le chain.nodup.length_le_card
  obtain ⟨h, found, least⟩ : ∃ h, os.mutexGrpPrioFindHighest t = some h ∧ _ :=
    grpPrio_eq seated chain short
  refine ⟨if os.tcb.basePrio t < h then os.tcb.basePrio t else h, ?_, ?_⟩
  · simp only [Os.prioNew, found, Option.map_some]
  obtain ⟨le, leOthers, attained⟩ := isLeast_insert_image.mp least
  refine isLeast_insert_image.mpr ?_
  split
  · rename_i less
    exact ⟨le_rfl, fun w waiting => less.le.trans (leOthers w waiting), .inl rfl⟩
  · rename_i more
    refine ⟨not_lt.mp more, leOthers, ?_⟩
    rcases attained with same | waiting
    · simp only [osCfgPrioMax] at same below
      exact .inl (by omega)
    · exact .inr waiting

theorem Owned.waitsFor_group (owned : os.Owned held) (seated : os.Seated s) (t : ι) :
    {w | ∃ m ∈ held t, w ∈ s.waiting (.inr m)} = {w | os.waitsFor w = some t} := by
  ext w
  simp only [Set.mem_ofPred_eq, waitsFor_eq_some]
  constructor
  · rintro ⟨m, member, waiting⟩
    exact ⟨m, (seated.pnd.object w (.inr m)).mpr waiting, owned.owner t m member⟩
  · rintro ⟨m, obj, owner⟩
    obtain ⟨o, owner', -, member⟩ := owned.busy w m obj
    cases owner.symm.trans owner'
    exact ⟨m, member, (seated.pnd.object w (.inr m)).mp obj⟩

theorem Owned.owns_some (owned : os.Owned held) (waits : os.waitsFor r = some t) : held t ≠ [] := by
  obtain ⟨m, obj, owner⟩ := waitsFor_eq_some.mp waits
  obtain ⟨o, owner', -, member⟩ := owned.busy r m obj
  cases owner.symm.trans owner'
  exact List.ne_nil_of_mem member

theorem Owned.prioNew [DecidableEq ι] [Fintype μ] (owned : os.Owned held) (seated : os.Seated s)
    (t : ι) (below : os.tcb.basePrio t < osCfgPrioMax) :
    ∃ p, os.prioNew t = some p ∧
      IsLeast (claims os.tcb.prio os.tcb.basePrio os.waitsFor t) p := by
  have least := seated.prioNew (owned.group t) below
  rwa [owned.waitsFor_group seated t] at least

end Os

end ExploreF407.Kernel
