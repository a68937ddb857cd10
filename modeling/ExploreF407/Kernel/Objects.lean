import Mathlib

/-! # uC/OS-III kernel objects

The counting semaphore and the message queue as `os_sem.c`, `os_q.c` and
`os_msg.c` implement them. A kernel call runs inside one critical section, so
each is one function on the object. Two things come from outside the object and
are arguments: the head of the pend list, which decides whether a post readies a
waiting task or changes the object, and the number of free `OS_MSG` blocks in
the pool that all queues of the kernel share.

The calls are modelled after their entry checks (kernel running, blocking calls
from task level with the scheduler unlocked, non-null arguments): no caller in
the mailbox port violates them.
-/

namespace ExploreF407.Kernel

/-- The `OS_ERR` values, besides `OS_ERR_NONE`, that calls on semaphores, queues and
    mutexes can report. -/
inductive OsErr where
  | objType
  | objCreated
  | objDel
  | qSize
  | qMax
  | msgPoolEmpty
  | pendWouldBlock
  | pendAbort
  | semOvf
  | taskWaiting
  | timeout
  | schedLocked
  | statusInvalid
  | mutexNesting
  | mutexNotOwner
  | mutexOwner
  | mutexOvf
  deriving Repr, DecidableEq

/-- `Type` field of a kernel object. -/
inductive OsObjType where
  | none
  | sem
  | q
  deriving Repr, DecidableEq

inductive PendOpt where
  | blocking
  | nonBlocking
  deriving Repr, DecidableEq

inductive DelOpt where
  | noPend
  | always
  deriving Repr, DecidableEq

/-- What a pend call does in its critical section: it obtains something, it
    reports an error, or it puts the caller into the pend list. -/
inductive Pend (σ β : Type*) where
  | granted (value : β) (obj : σ)
  | failed (err : OsErr)
  | blocked
  deriving Repr, DecidableEq

/-! ## Counting semaphore -/

/-- `(OS_SEM_CTR)-1` for the 32-bit counter type. -/
def osSemCtrMax : Nat := 2 ^ 32 - 1

structure OsSem where
  type : OsObjType
  ctr : Nat
  deriving Repr, DecidableEq

def osSemCreate (sem : OsSem) (cnt : Nat) : Except OsErr OsSem :=
  if sem.type = .sem then .error .objCreated
  else .ok { type := .sem, ctr := cnt }

def osSemPend (sem : OsSem) (opt : PendOpt) : Pend OsSem Unit :=
  if sem.type ≠ .sem then .failed .objType
  else if 0 < sem.ctr then .granted () { sem with ctr := sem.ctr - 1 }
  else match opt with
    | .nonBlocking => .failed .pendWouldBlock
    | .blocking => .blocked

/-- `OSSemPost` with `OS_OPT_POST_1`. With a task in the pend list the credit goes
    to that task and the counter keeps its value. -/
def osSemPost {τ : Type*} (sem : OsSem) (head : Option τ) : Except OsErr OsSem :=
  if sem.type ≠ .sem then .error .objType
  else match head with
    | some _ => .ok sem
    | none =>
        if sem.ctr = osSemCtrMax then .error .semOvf
        else .ok { sem with ctr := sem.ctr + 1 }

/-- `OSSemDel`, with the head of the pend list. The tasks in it do not change what is left of
    the object. -/
def osSemDel {τ : Type*} (sem : OsSem) (opt : DelOpt) (head : Option τ) : Except OsErr OsSem :=
  if sem.type ≠ .sem then .error .objType
  else match opt, head with
    | .noPend, some _ => .error .taskWaiting
    | _, _ => .ok { type := .none, ctr := 0 }

/-! ## Message queue -/

/-- `OS_MSG_Q`: the chain from `OutPtr` to `InPtr` and the size limit.
    `NbrEntries` is the length of the chain. -/
structure OsMsgQ (α : Type*) where
  entries : List α
  nbrEntriesSize : Nat
  deriving Repr, DecidableEq

variable {α : Type*}

def OsMsgQ.nbrEntries (q : OsMsgQ α) : Nat := q.entries.length

def osMsgQInit (size : Nat) : OsMsgQ α := { entries := [], nbrEntriesSize := size }

/-- `OS_MsgQPut` in FIFO order. The queue limit is checked before the pool. -/
def osMsgQPut (q : OsMsgQ α) (msg : α) (nbrFree : Nat) : Except OsErr (OsMsgQ α) :=
  if q.nbrEntriesSize ≤ q.nbrEntries then .error .qMax
  else if nbrFree = 0 then .error .msgPoolEmpty
  else .ok { q with entries := q.entries ++ [msg] }

/-- `OS_MsgQGet`, where `none` is `OS_ERR_Q_EMPTY`. -/
def osMsgQGet (q : OsMsgQ α) : Option (α × OsMsgQ α) :=
  match q.entries with
  | [] => none
  | msg :: rest => some (msg, { q with entries := rest })

structure OsQ (α : Type*) where
  type : OsObjType
  msgQ : OsMsgQ α
  deriving Repr, DecidableEq

/-- `OSQCreate`; `max_qty` is an `OS_MSG_QTY`, a 16-bit number. -/
def osQCreate (q : OsQ α) (maxQty : Nat) : Except OsErr (OsQ α) :=
  if maxQty = 0 then .error .qSize
  else if q.type = .q then .error .objCreated
  else .ok { type := .q, msgQ := osMsgQInit maxQty }

def osQPend (q : OsQ α) (opt : PendOpt) : Pend (OsQ α) α :=
  if q.type ≠ .q then .failed .objType
  else match osMsgQGet q.msgQ with
    | some (msg, rest) => .granted msg { q with msgQ := rest }
    | none => match opt with
      | .nonBlocking => .failed .pendWouldBlock
      | .blocking => .blocked

/-- `OSQPost` with `OS_OPT_POST_FIFO`. With a task in the pend list the message
    goes into that task's control block: neither the queue nor the message pool
    is touched. -/
def osQPost {τ : Type*} (q : OsQ α) (msg : α) (head : Option τ) (nbrFree : Nat) :
    Except OsErr (OsQ α) :=
  if q.type ≠ .q then .error .objType
  else match head with
    | some _ => .ok q
    | none => match osMsgQPut q.msgQ msg nbrFree with
      | .ok msgQ => .ok { q with msgQ := msgQ }
      | .error err => .error err

def osQDel {τ : Type*} (q : OsQ α) (opt : DelOpt) (head : Option τ) : Except OsErr (OsQ α) :=
  if q.type ≠ .q then .error .objType
  else match opt, head with
    | .noPend, some _ => .error .taskWaiting
    | _, _ => .ok { type := .none, msgQ := osMsgQInit 0 }

/-! ## Calls on created objects

`sem c` and `queue xs n` are created objects with counter `c`, entries `xs` and
limit `n`. The lemmas give each call on them; nothing below unfolds the calls.
-/

abbrev OsSem.created (ctr : Nat) : OsSem := { type := .sem, ctr := ctr }

abbrev OsQ.created (entries : List α) (size : Nat) : OsQ α :=
  { type := .q, msgQ := { entries := entries, nbrEntriesSize := size } }

@[simp] theorem osSemPend_zero (opt : PendOpt) :
    osSemPend (.created 0) opt =
      match opt with
      | .nonBlocking => .failed .pendWouldBlock
      | .blocking => .blocked := by
  simp [osSemPend]

@[simp] theorem osSemPend_succ (c : Nat) (opt : PendOpt) :
    osSemPend (.created (c + 1)) opt = .granted () (.created c) := by
  simp [osSemPend]

@[simp] theorem osSemPost_waiter {τ : Type*} (c : Nat) (w : τ) :
    osSemPost (.created c) (some w) = .ok (.created c) := by
  simp [osSemPost]

@[simp] theorem osSemPost_free {τ : Type*} (c : Nat) :
    osSemPost (.created c) (none : Option τ) =
      if c = osSemCtrMax then .error .semOvf else .ok (.created (c + 1)) := by
  simp [osSemPost]

@[simp] theorem osQPend_nil (n : Nat) (opt : PendOpt) :
    osQPend (.created ([] : List α) n) opt =
      match opt with
      | .nonBlocking => .failed .pendWouldBlock
      | .blocking => .blocked := by
  simp [osQPend, osMsgQGet]

@[simp] theorem osQPend_cons (msg : α) (rest : List α) (n : Nat) (opt : PendOpt) :
    osQPend (.created (msg :: rest) n) opt = .granted msg (.created rest n) := by
  simp [osQPend, osMsgQGet]

@[simp] theorem osQPost_waiter {τ : Type*} (xs : List α) (n : Nat) (msg : α) (w : τ)
    (nbrFree : Nat) :
    osQPost (.created xs n) msg (some w) nbrFree = .ok (.created xs n) := by
  simp [osQPost]

theorem osQPost_free {τ : Type*} (xs : List α) (n : Nat) (msg : α) (nbrFree : Nat) :
    osQPost (.created xs n) msg (none : Option τ) nbrFree =
      if n ≤ xs.length then .error .qMax
      else if nbrFree = 0 then .error .msgPoolEmpty
      else .ok (.created (xs ++ [msg]) n) := by
  simp only [osQPost, osMsgQPut, OsMsgQ.nbrEntries, ne_eq, not_true_eq_false, if_false]
  split_ifs <;> rfl

theorem osQPost_room {τ : Type*} {xs : List α} {n : Nat} (msg : α) {nbrFree : Nat}
    (room : xs.length < n) (free : 0 < nbrFree) :
    osQPost (.created xs n) msg (none : Option τ) nbrFree = .ok (.created (xs ++ [msg]) n) := by
  rw [osQPost_free, if_neg (by omega), if_neg (by omega)]

theorem osQPost_full {τ : Type*} {xs : List α} {n : Nat} (msg : α) (nbrFree : Nat)
    (full : n ≤ xs.length) :
    osQPost (.created xs n) msg (none : Option τ) nbrFree = .error .qMax := by
  rw [osQPost_free, if_pos full]

theorem osQPost_refused {τ : Type*} {xs : List α} {n : Nat} (msg : α) {nbrFree : Nat}
    (refused : n ≤ xs.length ∨ nbrFree = 0) :
    ∃ err, osQPost (.created xs n) msg (none : Option τ) nbrFree = .error err := by
  rw [osQPost_free]
  split_ifs with full empty
  · exact ⟨_, rfl⟩
  · exact ⟨_, rfl⟩
  · omega

end ExploreF407.Kernel
