import ExploreF407.Lib.Fifo
import ExploreF407.Lib.Machine
import ExploreF407.Mbox.SysArch

/-! # Calls that do not overlap

When each call returns before the next is made, the queue and the semaphore
together behave like one bounded FIFO. The state of the mailbox is then a
function of the FIFO's contents: the semaphore counts exactly the free places.
-/

namespace ExploreF407.Mbox

open Kernel Lwip Machine

variable {α : Type*}

/-- A call with the data the kernel supplies to it: the number of free message
    blocks, or the tick counter before and after the wait. -/
inductive Call (α : Type*) where
  | post (msg : α) (nbrFree : Nat)
  | trypost (msg : α) (nbrFree : Nat)
  | trypostFromisr (msg : α) (nbrFree : Nat)
  | fetch (timeoutMs start now : Nat)
  | tryfetch
  deriving Repr, DecidableEq

inductive Reply (α : Type*) where
  | posted
  | tried (err : ErrT)
  | fetched (msg : Option α) (result : Nat)
  deriving Repr, DecidableEq

/-- A posting call finds a free block in the message pool. -/
def Call.PoolFree : Call α → Prop
  | .post _ nbrFree | .trypost _ nbrFree | .trypostFromisr _ nbrFree => 0 < nbrFree
  | .fetch .. | .tryfetch => True

def SysMbox.call (mbox : SysMbox α) : Call α → Option (SysMbox α × Reply α)
  | .post msg nbrFree => (sysMboxPost mbox msg nbrFree).map (·, .posted)
  | .trypost msg nbrFree =>
      let (next, err) := sysMboxTrypost mbox msg nbrFree
      some (next, .tried err)
  | .trypostFromisr msg nbrFree =>
      let (next, err) := sysMboxTrypostFromisr mbox msg nbrFree
      some (next, .tried err)
  | .fetch timeoutMs start now =>
      (sysArchMboxFetch mbox timeoutMs start now).map fun (next, msg, result) =>
        (next, .fetched msg result)
  | .tryfetch =>
      let (next, msg, result) := sysArchMboxTryfetch mbox
      some (next, .fetched msg result)

/-- The mailbox as its users see it. `none` where a call must not be issued: a
    post to a full mailbox, a fetch from an empty one. -/
def fifoCall {n : Nat} (q : BoundedFifo n α) : Call α → Option (BoundedFifo n α × Reply α)
  | .post msg _ => if room : q.items.length < n then some (q.push msg room, .posted) else none
  | .trypost msg _ | .trypostFromisr msg _ =>
      if room : q.items.length < n then some (q.push msg room, .tried .ok)
      else some (q, .tried .mem)
  | .fetch _ start now => match q.items with
      | [] => none
      | msg :: _ => some (q.tail, .fetched (some msg) (elapsedTicks start now))
  | .tryfetch => match q.items with
      | [] => some (q, .fetched none sysMboxEmpty)
      | msg :: _ => some (q.tail, .fetched (some msg) 0)

/-- The coupling invariant: entries and credits of the mailbox that stands for
    the contents of a FIFO. -/
def Coupled {n : Nat} (q : BoundedFifo n α) (mbox : SysMbox α) : Prop :=
  mbox = .created n q.items (n - q.items.length)

/-! ## The port functions on a coupled mailbox -/

theorem sysMboxPost_room {n c nbrFree : Nat} {xs : List α} (msg : α) (room : xs.length < n)
    (free : 0 < nbrFree) :
    sysMboxPost (.created n xs (c + 1)) msg nbrFree = some (.created n (xs ++ [msg]) c) := by
  simp only [sysMboxPost, osSemPend_succ, osQPost_room msg room free]

/-- The credit is still there when the queue accepts the message, so the order of
    the two kernel calls does not show. -/
theorem sysMboxTrypost_room {n c nbrFree : Nat} {xs : List α} (msg : α) (room : xs.length < n)
    (free : 0 < nbrFree) :
    sysMboxTrypost (.created n xs (c + 1)) msg nbrFree =
      (.created n (xs ++ [msg]) c, .ok) := by
  simp only [sysMboxTrypost, osSemPend_succ, osQPost_room msg room free]

theorem sysMboxTrypost_full {n c : Nat} {xs : List α} (msg : α) (nbrFree : Nat)
    (full : n ≤ xs.length) :
    sysMboxTrypost (.created n xs c) msg nbrFree = (.created n xs c, .mem) := by
  simp only [sysMboxTrypost, osQPost_full msg nbrFree full]

theorem sysArchMboxFetch_cons {n c : Nat} (msg : α) (xs : List α) (timeoutMs start now : Nat)
    (below : c ≠ osSemCtrMax) :
    sysArchMboxFetch (.created n (msg :: xs) c) timeoutMs start now =
      some (.created n xs (c + 1), some msg, elapsedTicks start now) := by
  simp only [sysArchMboxFetch, osQPend_cons, osSemPost_free, if_neg below]

theorem sysArchMboxTryfetch_cons {n c : Nat} (msg : α) (xs : List α) (below : c ≠ osSemCtrMax) :
    sysArchMboxTryfetch (.created n (msg :: xs) c) = (.created n xs (c + 1), some msg, 0) := by
  simp only [sysArchMboxTryfetch, osQPend_cons, osSemPost_free, if_neg below]

theorem sysArchMboxTryfetch_nil (n c : Nat) :
    sysArchMboxTryfetch (.created n ([] : List α) c) =
      (.created n [] c, none, sysMboxEmpty) := by
  simp only [sysArchMboxTryfetch, osQPend_nil]

namespace Coupled

variable {n : Nat} {q : BoundedFifo n α} {mbox : SysMbox α}

theorem start (n : Capacity) :
    Coupled (BoundedFifo.empty : BoundedFifo n.size α) (sysMboxNew SysMbox.blank n.size).1 := by
  rw [sysMboxNew_blank]
  rfl

theorem room_credit (coupled : Coupled q mbox) (room : q.items.length < n) :
    mbox = .created n q.items (n - (q.items.length + 1) + 1) := by
  rw [coupled]
  congr 2
  omega

theorem pushed (q : BoundedFifo n α) (msg : α) (room : q.items.length < n) :
    Coupled (q.push msg room) (.created n (q.items ++ [msg]) (n - (q.items.length + 1))) := by
  simp [Coupled]

theorem popped {msg : α} {rest : List α} (contents : q.items = msg :: rest) :
    Coupled q.tail (.created n rest (n - q.items.length + 1)) := by
  have bounded := q.bounded
  rw [contents, List.length_cons] at bounded
  simp only [Coupled, BoundedFifo.tail, contents, List.tail_cons, List.length_cons]
  congr 2
  omega

theorem below_max (n : Capacity) (q : BoundedFifo n.size α) :
    n.size - q.items.length ≠ osSemCtrMax := by
  have fits := n.fits
  simp only [osSemCtrMax]
  omega

theorem trypost (coupled : Coupled q mbox) (msg : α) {nbrFree : Nat} (free : 0 < nbrFree)
    (room : q.items.length < n) :
    sysMboxTrypost mbox msg nbrFree =
      (.created n (q.items ++ [msg]) (n - (q.items.length + 1)), .ok) := by
  rw [coupled.room_credit room, sysMboxTrypost_room msg room free]

theorem post (coupled : Coupled q mbox) (msg : α) {nbrFree : Nat} (free : 0 < nbrFree)
    (room : q.items.length < n) :
    sysMboxPost mbox msg nbrFree =
      some (.created n (q.items ++ [msg]) (n - (q.items.length + 1))) := by
  rw [coupled.room_credit room, sysMboxPost_room msg room free]

theorem trypost_full (coupled : Coupled q mbox) (msg : α) (nbrFree : Nat)
    (full : ¬ q.items.length < n) : sysMboxTrypost mbox msg nbrFree = (mbox, .mem) := by
  rw [coupled, sysMboxTrypost_full msg nbrFree (Nat.le_of_not_lt full)]

/-- One call of the FIFO is one call of the mailbox, with the same reply. -/
theorem call (n : Capacity) {q q' : BoundedFifo n.size α} {mbox : SysMbox α} {c : Call α}
    {reply : Reply α} (coupled : Coupled q mbox) (pool : c.PoolFree)
    (issued : fifoCall q c = some (q', reply)) :
    ∃ mbox', mbox.call c = some (mbox', reply) ∧ Coupled q' mbox' := by
  cases c with
  | post msg nbrFree =>
      simp only [fifoCall] at issued
      split at issued
      · rename_i room
        cases issued
        exact ⟨_, by rw [SysMbox.call, coupled.post msg pool room]; rfl, pushed q msg room⟩
      · cases issued
  | trypost msg nbrFree | trypostFromisr msg nbrFree =>
      simp only [fifoCall] at issued
      split at issued
      · rename_i room
        cases issued
        refine ⟨_, ?_, pushed q msg room⟩
        simp only [SysMbox.call, sysMboxTrypostFromisr, coupled.trypost msg pool room]
      · rename_i full
        cases issued
        refine ⟨mbox, ?_, coupled⟩
        simp only [SysMbox.call, sysMboxTrypostFromisr, coupled.trypost_full msg nbrFree full]
  | fetch timeoutMs start now =>
      simp only [fifoCall] at issued
      split at issued
      · cases issued
      · rename_i msg rest contents
        cases issued
        refine ⟨_, ?_, popped contents⟩
        rw [coupled, contents, SysMbox.call,
          sysArchMboxFetch_cons msg rest timeoutMs start now (contents ▸ below_max n q)]
        rfl
  | tryfetch =>
      simp only [fifoCall] at issued
      split at issued
      · rename_i contents
        cases issued
        refine ⟨mbox, ?_, coupled⟩
        rw [coupled, contents, SysMbox.call, sysArchMboxTryfetch_nil]
      · rename_i msg rest contents
        cases issued
        refine ⟨_, ?_, popped contents⟩
        rw [coupled, contents, SysMbox.call,
          sysArchMboxTryfetch_cons msg rest (contents ▸ below_max n q)]

end Coupled

/-! ## The order of the messages -/

/-- The message a call has put into the mailbox, by its reply. -/
def accepted : Call α → Reply α → Option α
  | .post msg _, .posted => some msg
  | .trypost msg _, .tried .ok | .trypostFromisr msg _, .tried .ok => some msg
  | _, _ => none

/-- The message a call has handed to its caller. -/
def handedOut : Reply α → Option α
  | .fetched msg _ => msg
  | _ => none

def acceptedAll (calls : List (Call α)) (answers : List (Reply α)) : List α :=
  (calls.zip answers).filterMap fun (c, r) => accepted c r

def handedOutAll (answers : List (Reply α)) : List α := answers.filterMap handedOut

theorem fifoCall_inOrder {n : Nat} {q q' : BoundedFifo n α} {c : Call α} {reply : Reply α}
    (issued : fifoCall q c = some (q', reply)) :
    q.items ++ (accepted c reply).toList = (handedOut reply).toList ++ q'.items := by
  cases c with
  | post msg nbrFree =>
      simp only [fifoCall] at issued
      split at issued <;> cases issued
      simp [accepted, handedOut]
  | trypost msg nbrFree | trypostFromisr msg nbrFree =>
      simp only [fifoCall] at issued
      split at issued <;> cases issued <;> simp [accepted, handedOut]
  | fetch timeoutMs start now | tryfetch =>
      simp only [fifoCall] at issued
      split at issued <;> cases issued <;>
        simp [accepted, handedOut, BoundedFifo.tail, *]

/-- Over a whole run the messages come out in the order in which they went in. -/
theorem fifoCalls_inOrder {n : Nat} {q q' : BoundedFifo n α} {calls : List (Call α)}
    {answers : List (Reply α)} (run : replies fifoCall q calls = some (q', answers)) :
    InOrder (q.items ++ acceptedAll calls answers) q'.items (handedOutAll answers) := by
  induction calls generalizing q answers with
  | nil =>
      simp only [replies, Option.some.injEq, Prod.mk.injEq] at run
      obtain ⟨rfl, rfl⟩ := run
      simp [InOrder, acceptedAll, handedOutAll]
  | cons c calls ih =>
      obtain ⟨next, reply, rest, issued, more, rfl⟩ := replies_cons.mp run
      have later : next.items ++ acceptedAll calls rest = handedOutAll rest ++ q'.items := ih more
      have head : acceptedAll (c :: calls) (reply :: rest) =
          (accepted c reply).toList ++ acceptedAll calls rest := by
        cases h : accepted c reply <;> simp [acceptedAll, h]
      have out : handedOutAll (reply :: rest) = (handedOut reply).toList ++ handedOutAll rest := by
        cases h : handedOut reply <;> simp [handedOutAll, h]
      rw [InOrder, head, out, ← List.append_assoc, fifoCall_inOrder issued, List.append_assoc,
        later, List.append_assoc]

/-! ## The refinement -/

/-- A mailbox between two calls, described by what each kind of call would do. -/
structure BehavesAsFifo (n : Nat) (mbox : SysMbox α) : Prop where
  refuses : ∀ msg nbrFree, 0 < nbrFree →
    ((sysMboxTrypost mbox msg nbrFree).2 = .mem ↔ mbox.msgQueen.msgQ.nbrEntries = n)
  refusalKeeps : ∀ msg nbrFree, (sysMboxTrypost mbox msg nbrFree).2 = .mem → 0 < nbrFree →
    (sysMboxTrypost mbox msg nbrFree).1 = mbox
  acceptsAsPost : ∀ msg nbrFree, 0 < nbrFree → mbox.msgQueen.msgQ.nbrEntries ≠ n →
    (sysMboxTrypost mbox msg nbrFree).2 = .ok ∧
      sysMboxPost mbox msg nbrFree = some (sysMboxTrypost mbox msg nbrFree).1
  fromIsr : ∀ msg nbrFree,
    sysMboxTrypostFromisr mbox msg nbrFree = sysMboxTrypost mbox msg nbrFree
  reportsEmpty : (sysArchMboxTryfetch mbox).2.2 = sysMboxEmpty ↔ mbox.msgQueen.msgQ.entries = []

theorem Coupled.behavesAsFifo (n : Capacity) {q : BoundedFifo n.size α} {mbox : SysMbox α}
    (coupled : Coupled q mbox) : BehavesAsFifo n.size mbox := by
  have length : mbox.msgQueen.msgQ.nbrEntries = q.items.length := by rw [coupled]; rfl
  have bounded := q.bounded
  constructor
  case refuses =>
    intro msg nbrFree free
    rw [length]
    by_cases room : q.items.length < n.size
    · simp only [coupled.trypost msg free room, reduceCtorEq, false_iff]
      omega
    · simp only [coupled.trypost_full msg nbrFree room, true_iff]
      omega
  case refusalKeeps =>
    intro msg nbrFree refused free
    by_cases room : q.items.length < n.size
    · rw [coupled.trypost msg free room] at refused
      cases refused
    · rw [coupled.trypost_full msg nbrFree room]
  case acceptsAsPost =>
    intro msg nbrFree free notFull
    have room : q.items.length < n.size := by omega
    rw [coupled.trypost msg free room, coupled.post msg free room]
    exact ⟨rfl, rfl⟩
  case fromIsr =>
    intro msg nbrFree
    rfl
  case reportsEmpty =>
    have entries : mbox.msgQueen.msgQ.entries = q.items := by rw [coupled]
    rw [entries, coupled]
    cases contents : q.items with
    | nil => simp [sysArchMboxTryfetch_nil]
    | cons msg rest =>
        rw [sysArchMboxTryfetch_cons msg rest (by simpa [contents] using below_max n q)]
        simp [sysMboxEmpty, sysArchTimeout]

/-- Every sequence of non-overlapping calls that a FIFO of the mailbox's size can
    answer is answered by the mailbox in the same way. -/
theorem sequential_mailbox_refines_fifo (n : Capacity) (calls : List (Call α))
    (pool : ∀ c ∈ calls, c.PoolFree) {fifo : BoundedFifo n.size α} {answers : List (Reply α)}
    (issued : replies fifoCall .empty calls = some (fifo, answers)) :
    ∃ mbox, replies SysMbox.call (sysMboxNew .blank n.size).1 calls = some (mbox, answers) ∧
      Coupled fifo mbox ∧ BehavesAsFifo n.size mbox ∧
      acceptedAll calls answers = handedOutAll answers ++ mbox.msgQueen.msgQ.entries := by
  have sim : ∀ (q : BoundedFifo n.size α) (mbox : SysMbox α) (c : Call α) q' reply,
      Coupled q mbox → c.PoolFree → fifoCall q c = some (q', reply) →
      ∃ mbox', mbox.call c = some (mbox', reply) ∧ Coupled q' mbox' :=
    fun _ _ _ _ _ coupled free called => coupled.call n free called
  obtain ⟨mbox, answered, coupled⟩ := replies_simulated sim (Coupled.start n) pool issued
  refine ⟨mbox, answered, coupled, coupled.behavesAsFifo n, ?_⟩
  have entries : mbox.msgQueen.msgQ.entries = fifo.items := by rw [coupled]
  rw [entries]
  simpa [InOrder, BoundedFifo.empty] using fifoCalls_inOrder issued

/-- A mailbox of two places: two messages go in, the third is refused, and the
    first two come out in order. -/
theorem sequential_mailbox_refines_fifo_two :
    ∃ mbox : SysMbox Nat, replies SysMbox.call (sysMboxNew .blank (2 : Nat)).1
        [.post 7 1, .trypost 8 1, .trypostFromisr 9 1, .fetch 0 5 6, .tryfetch, .tryfetch] =
          some (mbox, [.posted, .tried .ok, .tried .mem, .fetched (some 7) 1,
            .fetched (some 8) 0, .fetched none sysMboxEmpty]) ∧
      BehavesAsFifo 2 mbox := by
  obtain ⟨mbox, answered, -, behaves, -⟩ := sequential_mailbox_refines_fifo
    ⟨2, by decide, by decide⟩
    [.post 7 1, .trypost 8 1, .trypostFromisr 9 1, .fetch 0 5 6, .tryfetch, .tryfetch]
    (by simp [Call.PoolFree]) rfl
  exact ⟨mbox, answered, behaves⟩

end ExploreF407.Mbox
