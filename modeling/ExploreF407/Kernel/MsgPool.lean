import ExploreF407.Lib.Relink
import ExploreF407.Kernel.Objects

/-! # Message blocks in memory

`os_msg.c` below the level of `Objects`: the messages of a queue stand in
`OS_MSG` blocks that are linked from `OutPtr` to `InPtr`, and the blocks that no
queue needs are linked behind `OSMsgPool.NextPtr`. A function returns `none`
where it would follow a null pointer.
-/

namespace ExploreF407.Kernel.Pool

open Linked

/-- What an `OS_MSG` carries: `MsgPtr`, `MsgSize` and `MsgTS`. -/
structure Message (α : Type*) where
  msgPtr : Option α
  msgSize : Nat
  msgTS : Nat
  deriving Repr, DecidableEq

structure OsMsg (α : Type*) where
  nextPtr : Option Nat
  body : Message α
  deriving Repr, DecidableEq

structure OsMsgPool where
  nextPtr : Option Nat
  nbrFree : Nat
  nbrUsed : Nat
  nbrUsedMax : Nat
  deriving Repr, DecidableEq

structure OsMsgQ where
  inPtr : Option Nat
  outPtr : Option Nat
  nbrEntriesSize : Nat
  nbrEntries : Nat
  nbrEntriesMax : Nat
  deriving Repr, DecidableEq

/-- The blocks, numbered in the order of the array `OSCfg_MsgPool`, and `OSMsgPool`. -/
structure Memory (α : Type*) where
  msg : Nat → OsMsg α
  pool : OsMsgPool

inductive PostOrder where
  | fifo
  | lifo
  deriving Repr, DecidableEq

/-! ## 16-bit counters -/

/-- `a + b` and `a - b` in an `OS_MSG_QTY`. -/
def qtyAdd (a b : Nat) : Nat := (a + b) % 2 ^ 16

def qtySub (a b : Nat) : Nat := (a + 2 ^ 16 - b) % 2 ^ 16

theorem qtyAdd_eq {a b : Nat} (fits : a + b < 2 ^ 16) : qtyAdd a b = a + b :=
  Nat.mod_eq_of_lt fits

theorem qtySub_eq {a b : Nat} (fits : a < 2 ^ 16) (le : b ≤ a) : qtySub a b = a - b := by
  simp only [qtySub]
  omega

variable {α : Type*}

/-! ## The functions -/

namespace Memory

def link (m : Memory α) (p : Nat) : Option Nat := (m.msg p).nextPtr

def setNext (m : Memory α) (p : Nat) (next : Option Nat) : Memory α :=
  { m with msg := Function.update m.msg p { m.msg p with nextPtr := next } }

def deposit (m : Memory α) (p : Nat) (body : Message α) : Memory α :=
  { m with msg := Function.update m.msg p { m.msg p with body := body } }

def setPool (m : Memory α) (pool : OsMsgPool) : Memory α := { m with pool := pool }

end Memory

/-- What `OS_MsgPoolInit` leaves in a block. -/
def emptyMsg (next : Option Nat) : OsMsg α :=
  { nextPtr := next, body := { msgPtr := none, msgSize := 0, msgTS := 0 } }

/-- The loop of `OS_MsgPoolInit` from block `p` on, with `loops` rounds to go, and the store to
    the last block behind it. -/
def osMsgPoolInitLoop (msg : Nat → OsMsg α) (p : Nat) : Nat → Nat → OsMsg α
  | 0 => Function.update msg p (emptyMsg none)
  | loops + 1 => osMsgPoolInitLoop (Function.update msg p (emptyMsg (some (p + 1)))) (p + 1) loops

/-- `OS_MsgPoolInit` for a pool of `size` blocks. -/
def osMsgPoolInit (msg : Nat → OsMsg α) (size : Nat) : Except OsErr (Memory α) :=
  if size = 0 then .error .msgPoolEmpty
  else .ok
    { msg := osMsgPoolInitLoop msg 0 (size - 1)
      pool := { nextPtr := some 0, nbrFree := size, nbrUsed := 0, nbrUsedMax := 0 } }

def osMsgQInit (size : Nat) : OsMsgQ :=
  { inPtr := none, outPtr := none, nbrEntriesSize := size, nbrEntries := 0, nbrEntriesMax := 0 }

/-- `OS_MsgQFreeAll`, with the number of blocks that it returns. -/
def osMsgQFreeAll (m : Memory α) (q : OsMsgQ) : Option (Memory α × OsMsgQ × Nat) :=
  if 0 < q.nbrEntries then
    q.inPtr.map fun last =>
      let m := m.setNext last m.pool.nextPtr
      let pool : OsMsgPool :=
        { m.pool with
          nextPtr := q.outPtr
          nbrUsed := qtySub m.pool.nbrUsed q.nbrEntries
          nbrFree := qtyAdd m.pool.nbrFree q.nbrEntries }
      let empty := { q with nbrEntries := 0, nbrEntriesMax := 0, inPtr := none, outPtr := none }
      (m.setPool pool, empty, q.nbrEntries)
  else some (m, q, 0)

/-- `OS_MsgQGet`; the message is `none` for `OS_ERR_Q_EMPTY`. -/
def osMsgQGet (m : Memory α) (q : OsMsgQ) : Option (Memory α × OsMsgQ × Option (Message α)) :=
  if q.nbrEntries = 0 then some (m, q, none)
  else
    q.outPtr.map fun p =>
      let body := (m.msg p).body
      let q := { q with outPtr := (m.msg p).nextPtr }
      let q :=
        if q.outPtr = none then { q with inPtr := none, nbrEntries := 0 }
        else { q with nbrEntries := qtySub q.nbrEntries 1 }
      let m := m.setNext p m.pool.nextPtr
      let pool : OsMsgPool :=
        { m.pool with
          nextPtr := some p
          nbrFree := qtyAdd m.pool.nbrFree 1
          nbrUsed := qtySub m.pool.nbrUsed 1 }
      (m.setPool pool, q, some body)

/-- The part of `OS_MsgQPut` that takes the first block from the free list. -/
def takeBlock (m : Memory α) : Option (Memory α × Nat) :=
  m.pool.nextPtr.map fun p =>
    let used := qtyAdd m.pool.nbrUsed 1
    let pool : OsMsgPool :=
      { nextPtr := (m.msg p).nextPtr
        nbrFree := qtySub m.pool.nbrFree 1
        nbrUsed := used
        nbrUsedMax := if m.pool.nbrUsedMax < used then used else m.pool.nbrUsedMax }
    (m.setPool pool, p)

/-- The part of `OS_MsgQPut` that links block `p` to the queue. -/
def linkBlock (m : Memory α) (q : OsMsgQ) (p : Nat) (opt : PostOrder) :
    Option (Memory α × OsMsgQ) :=
  if q.nbrEntries = 0 then
    some (m.setNext p none, { q with inPtr := some p, outPtr := some p, nbrEntries := 1 })
  else
    match opt with
    | .fifo =>
        q.inPtr.map fun last =>
          ((m.setNext last (some p)).setNext p none,
            { q with inPtr := some p, nbrEntries := qtyAdd q.nbrEntries 1 })
    | .lifo =>
        some (m.setNext p q.outPtr,
          { q with outPtr := some p, nbrEntries := qtyAdd q.nbrEntries 1 })

def OsMsgQ.raiseMax (q : OsMsgQ) : OsMsgQ :=
  { q with
    nbrEntriesMax := if q.nbrEntriesMax < q.nbrEntries then q.nbrEntries else q.nbrEntriesMax }

/-- `OS_MsgQPut`. The inner error is what it reports. -/
def osMsgQPut (m : Memory α) (q : OsMsgQ) (body : Message α) (opt : PostOrder) :
    Option (Except OsErr (Memory α × OsMsgQ)) :=
  if q.nbrEntriesSize ≤ q.nbrEntries then some (.error .qMax)
  else if m.pool.nbrFree = 0 then some (.error .msgPoolEmpty)
  else
    (takeBlock m).bind fun (m, p) =>
      (linkBlock m q p opt).map fun (m, q) => .ok (m.deposit p body, q.raiseMax)

/-! ## What a store changes -/

namespace Memory

variable (m : Memory α) (p : Nat) (next : Option Nat) (body : Message α) (pool : OsMsgPool)

@[simp] theorem link_setNext : (m.setNext p next).link = Function.update m.link p next := by
  funext q
  by_cases same : q = p
  · subst same
    simp [link, setNext]
  · simp [link, setNext, same]

@[simp] theorem body_setNext (q : Nat) : ((m.setNext p next).msg q).body = (m.msg q).body := by
  by_cases same : q = p
  · subst same
    simp [setNext]
  · simp [setNext, same]

@[simp] theorem link_deposit : (m.deposit p body).link = m.link := by
  funext q
  by_cases same : q = p
  · subst same
    simp [link, deposit]
  · simp [link, deposit, same]

@[simp] theorem body_deposit (q : Nat) :
    ((m.deposit p body).msg q).body = if q = p then body else (m.msg q).body := by
  by_cases same : q = p
  · subst same
    simp [deposit]
  · simp [deposit, same]

@[simp] theorem pool_setNext : (m.setNext p next).pool = m.pool := rfl

@[simp] theorem pool_deposit : (m.deposit p body).pool = m.pool := rfl

@[simp] theorem link_setPool : (m.setPool pool).link = m.link := rfl

@[simp] theorem msg_setPool : (m.setPool pool).msg = m.msg := rfl

@[simp] theorem pool_setPool : (m.setPool pool).pool = pool := rfl

end Memory

theorem osMsgPoolInitLoop_points (msg : Nat → OsMsg α) (p loops : Nat) :
    (∀ q < p, osMsgPoolInitLoop msg p loops q = msg q) ∧
      Points (fun q => (osMsgPoolInitLoop msg p loops q).nextPtr) (some p)
        (List.range' p (loops + 1)) := by
  induction loops generalizing msg p with
  | zero =>
      constructor
      · intro q before
        exact Function.update_of_ne before.ne _ msg
      · refine ⟨rfl, ?_⟩
        simp [osMsgPoolInitLoop, emptyMsg, Points]
  | succ loops ih =>
      obtain ⟨kept, chain⟩ := ih (Function.update msg p (emptyMsg (some (p + 1)))) (p + 1)
      constructor
      · intro q before
        have earlier := kept q (Nat.lt_succ_of_lt before)
        simpa only [osMsgPoolInitLoop, Function.update_of_ne before.ne] using earlier
      · refine ⟨rfl, ?_⟩
        have here := kept p (Nat.lt_succ_self p)
        have next : (osMsgPoolInitLoop msg p (loops + 1) p).nextPtr = some (p + 1) := by
          simp only [osMsgPoolInitLoop, here, Function.update_self]
          rfl
        simp only [next]
        exact chain

end ExploreF407.Kernel.Pool
