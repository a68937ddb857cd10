import ExploreF407.Mbox.SysArch

/-! # What `sys_mbox_new` leaves behind

The queue and the semaphore are created one after the other. Each creation can fail for reasons
of its own, and what the other one has done is not taken back.
-/

namespace ExploreF407.Mbox

open Kernel Lwip

variable {α : Type*} {mbox : SysMbox α} {size : Int}

/-- `OSQCreate` succeeds: the size has not become 0 in 16 bits, and the queue does not exist. -/
def QueueFree (mbox : SysMbox α) (size : Int) : Prop :=
  size % 2 ^ 16 ≠ 0 ∧ mbox.msgQueen.type ≠ .q

/-- `OSSemCreate` succeeds. -/
def SemFree (mbox : SysMbox α) : Prop := mbox.msgSem.type ≠ .sem

theorem osQCreate_free (free : QueueFree mbox size) :
    osQCreate mbox.msgQueen (size % 2 ^ 16).toNat = .ok (.created [] (size % 2 ^ 16).toNat) := by
  obtain ⟨nonzero, other⟩ := free
  have positive : (size % 2 ^ 16).toNat ≠ 0 := by omega
  simp only [osQCreate, positive, other, if_false, osMsgQInit]

theorem osQCreate_refused (refused : ¬ QueueFree mbox size) :
    ∃ err, osQCreate mbox.msgQueen (size % 2 ^ 16).toNat = .error err := by
  unfold osQCreate
  split
  · exact ⟨_, rfl⟩
  · rename_i positive
    have created : mbox.msgQueen.type = .q := by
      by_contra other
      exact refused ⟨by omega, other⟩
    exact ⟨_, if_pos created⟩

theorem osSemCreate_free (free : SemFree mbox) (cnt : Nat) :
    osSemCreate mbox.msgSem cnt = .ok (.created cnt) :=
  if_neg free

theorem osSemCreate_refused (refused : ¬ SemFree mbox) (cnt : Nat) :
    ∃ err, osSemCreate mbox.msgSem cnt = .error err :=
  ⟨_, if_pos (not_not.mp refused)⟩

theorem sysMboxNew_cases (mbox : SysMbox α) (size : Int) :
    (QueueFree mbox size ∧ SemFree mbox ∧ sysMboxNew mbox size =
      ({ msgQueen := .created [] (size % 2 ^ 16).toNat
         msgSem := .created (size % 2 ^ 32).toNat }, .ok)) ∨
    (QueueFree mbox size ∧ ¬ SemFree mbox ∧ sysMboxNew mbox size =
      ({ mbox with msgQueen := .created [] (size % 2 ^ 16).toNat }, .mem)) ∨
    (¬ QueueFree mbox size ∧ SemFree mbox ∧ sysMboxNew mbox size =
      ({ mbox with msgSem := .created (size % 2 ^ 32).toNat }, .mem)) ∨
    (¬ QueueFree mbox size ∧ ¬ SemFree mbox ∧ sysMboxNew mbox size = (mbox, .mem)) := by
  unfold sysMboxNew
  by_cases queue : QueueFree mbox size
  · rw [osQCreate_free queue]
    by_cases sem : SemFree mbox
    · rw [osSemCreate_free sem]
      exact .inl ⟨queue, sem, rfl⟩
    · obtain ⟨err, failed⟩ := osSemCreate_refused sem (size % 2 ^ 32).toNat
      rw [failed]
      exact .inr (.inl ⟨queue, sem, rfl⟩)
  · obtain ⟨err, failed⟩ := osQCreate_refused queue
    rw [failed]
    by_cases sem : SemFree mbox
    · rw [osSemCreate_free sem]
      exact .inr (.inr (.inl ⟨queue, sem, rfl⟩))
    · obtain ⟨err, failed⟩ := osSemCreate_refused sem (size % 2 ^ 32).toNat
      rw [failed]
      exact .inr (.inr (.inr ⟨queue, sem, rfl⟩))

/-- The call has created both objects, with `size` places. -/
structure FreshlyCreated (before after : SysMbox α) (size : Int) : Prop where
  noQueue : before.msgQueen.type ≠ .q
  noSem : before.msgSem.type ≠ .sem
  queue : after.msgQueen.type = .q
  empty : after.msgQueen.msgQ.entries = []
  capacity : (after.msgQueen.msgQ.nbrEntriesSize : Int) = size
  sem : after.msgSem.type = .sem
  count : (after.msgSem.ctr : Int) = size

/-- `ERR_OK` tells that the mailbox has been created as wanted, and `ERR_MEM` that nothing has
    changed. -/
def AllOrNothing (mbox : SysMbox α) (size : Int) : Prop :=
  ((sysMboxNew mbox size).2 = .ok ↔ FreshlyCreated mbox (sysMboxNew mbox size).1 size) ∧
    ((sysMboxNew mbox size).2 = .mem → (sysMboxNew mbox size).1 = mbox)

/-- `sys_mbox_new` is all or nothing in two cases: neither object exists and the size fits into
    16 bits, or both creations fail. -/
theorem sysMboxNew_allOrNothing_iff (mbox : SysMbox α) (size : Int) :
    AllOrNothing mbox size ↔
      (mbox.msgQueen.type ≠ .q ∧ mbox.msgSem.type ≠ .sem ∧ 0 < size ∧ size < 2 ^ 16) ∨
        (mbox.msgSem.type = .sem ∧ (mbox.msgQueen.type = .q ∨ size % 2 ^ 16 = 0)) := by
  unfold AllOrNothing
  rcases sysMboxNew_cases mbox size with
    ⟨queue, sem, result⟩ | ⟨queue, sem, result⟩ | ⟨queue, sem, result⟩ | ⟨queue, sem, result⟩
  · -- The mailbox is created, with the size cut twice.
    rw [result]
    constructor
    · intro proper
      have fresh := proper.1.mp rfl
      have places : ((size % 2 ^ 16).toNat : Int) = size := fresh.capacity
      have nonzero := queue.1
      exact .inl ⟨queue.2, sem, by omega, by omega⟩
    · intro fits
      rcases fits with ⟨-, -, positive, below⟩ | ⟨created, -⟩
      · refine ⟨⟨fun _ => ⟨queue.2, sem, rfl, rfl, ?_, rfl, ?_⟩, fun _ => rfl⟩, nofun⟩
        · show ((size % 2 ^ 16).toNat : Int) = size
          omega
        · show ((size % 2 ^ 32).toNat : Int) = size
          omega
      · exact absurd created sem
  · -- The queue is left over.
    rw [result]
    constructor
    · intro proper
      have same := congrArg (fun m => m.msgQueen.type) (proper.2 rfl)
      exact absurd same.symm queue.2
    · intro fits
      rcases fits with ⟨-, free, -⟩ | ⟨-, refused⟩
      · exact absurd free sem
      · rcases refused with created | zero
        · exact absurd created queue.2
        · exact absurd zero queue.1
  · -- The semaphore is left over.
    rw [result]
    constructor
    · intro proper
      have same := congrArg (fun m => m.msgSem.type) (proper.2 rfl)
      exact absurd same.symm sem
    · intro fits
      rcases fits with ⟨free, -, positive, below⟩ | ⟨created, -⟩
      · exact absurd ⟨by omega, free⟩ queue
      · exact absurd created sem
  · rw [result]
    have created : mbox.msgSem.type = .sem := not_not.mp sem
    constructor
    · intro _
      refine .inr ⟨created, ?_⟩
      by_contra both
      obtain ⟨free, nonzero⟩ := not_or.mp both
      exact queue ⟨nonzero, free⟩
    · intro _
      refine ⟨⟨nofun, fun fresh => absurd created fresh.noSem⟩, fun _ => rfl⟩

/-- A mailbox of size 0 in zeroed storage: the semaphore is created, and the call fails. -/
theorem sysMboxNew_zero : ¬ AllOrNothing (SysMbox.blank : SysMbox Unit) 0 := by
  intro proper
  have same := congrArg (fun m => m.msgSem.type) (proper.2 rfl)
  exact absurd same (by decide)

end ExploreF407.Mbox
