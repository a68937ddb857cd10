import ExploreF407.Lib.Shares
import ExploreF407.Kernel.MsgChains

/-! # Message queues on the pool they share

The calls of `os_q.c` on the blocks of `os_msg.c`, for all queues of the kernel
at once, and the same calls on the lists of `Objects`. The two give the same
replies whatever calls come in, and no block is lost or held twice.

As in `Objects` a call is modelled behind its entry checks, and the head of the
pend list comes from outside. `OSQPost` does not touch the pool when it is
there, with or without `OS_OPT_POST_ALL`.
-/

namespace ExploreF407.Kernel.Pool

open Linked

/-- `OS_Q` without its pend list and the names for the debugger. -/
structure OsQ where
  type : OsObjType
  msgQ : OsMsgQ
  deriving Repr, DecidableEq

/-- The pool and the memory of the queue objects. -/
structure Queues (κ α : Type*) where
  mem : Memory α
  q : κ → OsQ

inductive Call (κ α τ : Type*) where
  | create (k : κ) (maxQty : Nat)
  | post (k : κ) (body : Message α) (opt : PostOrder) (head : Option τ)
  | pend (k : κ) (opt : PendOpt)
  | flush (k : κ)
  | del (k : κ) (opt : DelOpt) (head : Option τ)

/-- What a call reports, up to the point where a caller is put into the pend list. -/
inductive Reply (α : Type*) where
  | failed (err : OsErr)
  | done
  | granted (body : Message α)
  | blocked
  | flushed (entries : Nat)
  deriving Repr, DecidableEq

variable {κ α τ : Type*} [DecidableEq κ]

/-! ## On the blocks -/

def osQCreate (q : OsQ) (maxQty : Nat) : Except OsErr OsQ :=
  if maxQty = 0 then .error .qSize
  else if q.type = .q then .error .objCreated
  else .ok { type := .q, msgQ := osMsgQInit maxQty }

def osQPost (m : Memory α) (q : OsQ) (body : Message α) (opt : PostOrder) (head : Option τ) :
    Option (Except OsErr (Memory α × OsQ)) :=
  if q.type ≠ .q then some (.error .objType)
  else match head with
    | some _ => some (.ok (m, q))
    | none => (osMsgQPut m q.msgQ body opt).map fun
        | .error err => .error err
        | .ok (m, msgQ) => .ok (m, { q with msgQ := msgQ })

def osQPend (m : Memory α) (q : OsQ) (opt : PendOpt) :
    Option (Pend (Memory α × OsQ) (Message α)) :=
  if q.type ≠ .q then some (.failed .objType)
  else (osMsgQGet m q.msgQ).map fun
    | (m, msgQ, some body) => .granted body (m, { q with msgQ := msgQ })
    | (_, _, none) => match opt with
      | .nonBlocking => .failed .pendWouldBlock
      | .blocking => .blocked

def osQFlush (m : Memory α) (q : OsQ) : Option (Except OsErr (Memory α × OsQ × Nat)) :=
  if q.type ≠ .q then some (.error .objType)
  else (osMsgQFreeAll m q.msgQ).map fun (m, msgQ, entries) => .ok (m, { q with msgQ := msgQ }, entries)

def osQClr (m : Memory α) (q : OsQ) : Option (Memory α × OsQ) :=
  (osMsgQFreeAll m q.msgQ).map fun (m, _, _) => (m, { type := .none, msgQ := osMsgQInit 0 })

def osQDel (m : Memory α) (q : OsQ) (opt : DelOpt) (head : Option τ) :
    Option (Except OsErr (Memory α × OsQ)) :=
  if q.type ≠ .q then some (.error .objType)
  else match opt, head with
    | .noPend, some _ => some (.error .taskWaiting)
    | _, _ => (osQClr m q).map .ok

namespace Queues

def store (w : Queues κ α) (k : κ) (m : Memory α) (q : OsQ) : Queues κ α :=
  { mem := m, q := Function.update w.q k q }

/-- One call. There is no result where a null pointer would be followed. -/
def call (w : Queues κ α) : Call κ α τ → Option (Queues κ α × Reply α)
  | .create k maxQty => match osQCreate (w.q k) maxQty with
      | .error err => some (w, .failed err)
      | .ok q => some (w.store k w.mem q, .done)
  | .post k body opt head => (osQPost w.mem (w.q k) body opt head).map fun
      | .error err => (w, .failed err)
      | .ok (m, q) => (w.store k m q, .done)
  | .pend k opt => (osQPend w.mem (w.q k) opt).map fun
      | .granted body (m, q) => (w.store k m q, .granted body)
      | .failed err => (w, .failed err)
      | .blocked => (w, .blocked)
  | .flush k => (osQFlush w.mem (w.q k)).map fun
      | .error err => (w, .failed err)
      | .ok (m, q, entries) => (w.store k m q, .flushed entries)
  | .del k opt head => (osQDel w.mem (w.q k) opt head).map fun
      | .error err => (w, .failed err)
      | .ok (m, q) => (w.store k m q, .done)

end Queues

/-! ## On lists -/

section Lists

variable {β : Type*}

/-- `OSQPost` with `OS_OPT_POST_LIFO` on the list of the messages. -/
def osQPostFront (q : Kernel.OsQ β) (msg : β) (head : Option τ) (nbrFree : Nat) :
    Except OsErr (Kernel.OsQ β) :=
  if q.type ≠ .q then .error .objType
  else match head with
    | some _ => .ok q
    | none =>
        if q.msgQ.nbrEntriesSize ≤ q.msgQ.nbrEntries then .error .qMax
        else if nbrFree = 0 then .error .msgPoolEmpty
        else .ok { q with msgQ := { q.msgQ with entries := msg :: q.msgQ.entries } }

/-- `OSQFlush` on the list. -/
def osQFlushAll (q : Kernel.OsQ β) : Except OsErr (Kernel.OsQ β × Nat) :=
  if q.type ≠ .q then .error .objType
  else .ok ({ q with msgQ := { q.msgQ with entries := [] } }, q.msgQ.nbrEntries)

end Lists

def nbrFree [Fintype κ] (size : Nat) (a : κ → Kernel.OsQ (Message α)) : Nat :=
  size - ∑ k, (a k).msgQ.nbrEntries

def listCall [Fintype κ] (size : Nat) (a : κ → Kernel.OsQ (Message α)) :
    Call κ α τ → (κ → Kernel.OsQ (Message α)) × Reply α
  | .create k maxQty => match Kernel.osQCreate (a k) maxQty with
      | .error err => (a, .failed err)
      | .ok q => (Function.update a k q, .done)
  | .post k body .fifo head => match Kernel.osQPost (a k) body head (nbrFree size a) with
      | .error err => (a, .failed err)
      | .ok q => (Function.update a k q, .done)
  | .post k body .lifo head => match osQPostFront (a k) body head (nbrFree size a) with
      | .error err => (a, .failed err)
      | .ok q => (Function.update a k q, .done)
  | .pend k opt => match Kernel.osQPend (a k) opt with
      | .granted body q => (Function.update a k q, .granted body)
      | .failed err => (a, .failed err)
      | .blocked => (a, .blocked)
  | .flush k => match osQFlushAll (a k) with
      | .error err => (a, .failed err)
      | .ok (q, entries) => (Function.update a k q, .flushed entries)
  | .del k opt head => match Kernel.osQDel (a k) opt head with
      | .error err => (a, .failed err)
      | .ok q => (Function.update a k q, .done)

/-! ## The pool and the queues in order -/

/-- The blocks are shared out: `chain none` is the free list, `chain (some k)` what queue `k`
    holds. -/
structure Good (size : Nat) (w : Queues κ α) (chain : Option κ → List Nat) : Prop where
  shares : Shares (Finset.range size) chain
  linked : Points w.mem.link w.mem.pool.nextPtr (chain none)
  nbrFree : w.mem.pool.nbrFree = (chain none).length
  nbrUsed : w.mem.pool.nbrUsed + (chain none).length = size
  nbrUsedMax : w.mem.pool.nbrUsed ≤ w.mem.pool.nbrUsedMax
  held : ∀ k, (w.q k).type = .q → Holds w.mem (w.q k).msgQ (chain (some k))
  idle : ∀ k, (w.q k).type ≠ .q → chain (some k) = []

/-- The lists `a` are what stands in the blocks. -/
structure Stands (w : Queues κ α) (chain : Option κ → List Nat)
    (a : κ → Kernel.OsQ (Message α)) : Prop where
  type : ∀ k, (a k).type = (w.q k).type
  entries : ∀ k, (a k).msgQ.entries = (chain (some k)).map fun b => (w.mem.msg b).body
  size : ∀ k, (w.q k).type = .q → (a k).msgQ.nbrEntriesSize = (w.q k).msgQ.nbrEntriesSize

variable {size : Nat} {w w' : Queues κ α} {chain : Option κ → List Nat}
  {a : κ → Kernel.OsQ (Message α)} {k : κ} {m' : Memory α} {q' : OsMsgQ} {obj : OsQ}
  {free blocks : List Nat}

/-- Queue `k` holds `blocks` now and the free list is `free`. -/
def rechain (chain : Option κ → List Nat) (k : κ) (free blocks : List Nat) :
    Option κ → List Nat :=
  Function.update (Function.update chain none free) (some k) blocks

@[simp] theorem rechain_none : rechain chain k free blocks none = free := by
  simp [rechain]

@[simp] theorem rechain_self : rechain chain k free blocks (some k) = blocks := by
  simp [rechain]

theorem rechain_other {l : κ} (other : l ≠ k) :
    rechain chain k free blocks (some l) = chain (some l) := by
  simp [rechain, other]

namespace Good

omit [DecidableEq κ] in
theorem beside (good : Good size w chain) (made : (w.q k).type = .q) :
    Beside size w.mem (w.q k).msgQ (chain none) (chain (some k)) where
  linked := good.linked
  held := good.held k made
  apart := by
    intro b member inside
    cases good.shares.apart none (some k) b member inside
  total := by
    have two := good.shares.two_le (Option.some_ne_none k).symm
    simpa using two
  nbrFree := good.nbrFree
  nbrUsed := good.nbrUsed
  nbrUsedMax := good.nbrUsedMax

theorem change (good : Good size w chain) (after : Beside size m' q' free blocks)
    (same : (free ++ blocks).Perm (chain none ++ chain (some k)))
    (frame : ∀ b, b ∉ chain none → b ∉ chain (some k) → m'.link b = w.mem.link b)
    (made : obj.type = .q → obj.msgQ = q') (idle : obj.type ≠ .q → blocks = []) :
    Good size (w.store k m' obj) (rechain chain k free blocks) where
  shares := by
    apply good.shares.move (Option.some_ne_none k).symm
    · simpa using same
    · intro e notFree notHere
      simp [rechain, notFree, notHere]
  linked := by simpa [Queues.store] using after.linked
  nbrFree := by simpa [Queues.store] using after.nbrFree
  nbrUsed := by simpa [Queues.store] using after.nbrUsed
  nbrUsedMax := after.nbrUsedMax
  held := by
    intro l typed
    by_cases here : l = k
    · subst here
      simp only [Queues.store, Function.update_self] at typed ⊢
      simpa [made typed] using after.held
    · simp only [Queues.store, Function.update_of_ne here] at typed ⊢
      simp only [rechain_other here]
      apply (good.held l typed).frame
      intro b member
      apply frame b
      · intro inFree
        cases good.shares.apart (some l) none b member inFree
      · intro inside
        exact here (Option.some.inj (good.shares.apart (some l) (some k) b member inside))
  idle := by
    intro l untyped
    by_cases here : l = k
    · subst here
      simp only [Queues.store, Function.update_self] at untyped
      simpa using idle untyped
    · simp only [Queues.store, Function.update_of_ne here] at untyped
      simpa only [rechain_other here] using good.idle l untyped

theorem stands (good : Good size w chain) (stands : Stands w chain a)
    (bodies : ∀ b, b ∉ chain none → b ∉ chain (some k) →
      (m'.msg b).body = (w.mem.msg b).body) {new : Kernel.OsQ (Message α)}
    (type : new.type = obj.type) (entries : new.msgQ.entries = blocks.map fun b => (m'.msg b).body)
    (limit : obj.type = .q → new.msgQ.nbrEntriesSize = obj.msgQ.nbrEntriesSize) :
    Stands (w.store k m' obj) (rechain chain k free blocks) (Function.update a k new) where
  type := by
    intro l
    by_cases here : l = k
    · subst here
      simpa [Queues.store] using type
    · simpa [Queues.store, here] using stands.type l
  entries := by
    intro l
    by_cases here : l = k
    · subst here
      simpa [Queues.store] using entries
    · simp only [Queues.store, Function.update_of_ne here, rechain_other here, stands.entries l]
      apply List.map_congr_left
      intro b member
      symm
      apply bodies b
      · intro inFree
        cases good.shares.apart (some l) none b member inFree
      · intro inside
        exact here (Option.some.inj (good.shares.apart (some l) (some k) b member inside))
  size := by
    intro l typed
    by_cases here : l = k
    · subst here
      simp only [Queues.store, Function.update_self] at typed ⊢
      exact limit typed
    · simp only [Queues.store, Function.update_of_ne here] at typed ⊢
      exact stands.size l typed

omit [DecidableEq κ] in
theorem nbrUsed_eq [Fintype κ] (good : Good size w chain) :
    w.mem.pool.nbrUsed = ∑ k, (chain (some k)).length := by
  have total := good.shares.total
  simp only [Fintype.sum_option, Finset.card_range] at total
  have used := good.nbrUsed
  omega

omit [DecidableEq κ] in
theorem nbrFree_eq [Fintype κ] (good : Good size w chain) (stands : Stands w chain a) :
    Pool.nbrFree size a = (chain none).length := by
  have used := good.nbrUsed
  have each : ∑ k, (a k).msgQ.nbrEntries = w.mem.pool.nbrUsed := by
    simp only [good.nbrUsed_eq, Kernel.OsMsgQ.nbrEntries, stands.entries, List.length_map]
  simp only [Pool.nbrFree, each]
  omega

end Good

end ExploreF407.Kernel.Pool
