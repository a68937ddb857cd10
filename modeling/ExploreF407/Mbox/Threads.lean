import ExploreF407.Lib.Census
import ExploreF407.Mbox.SysArch

/-! # The mailbox under concurrent calls

Tasks and interrupt handlers call the port functions in any interleaving at
kernel-call granularity. A step of the machine is one kernel call of one thread:
the first step of an operation also makes the call, the last one also returns.
A thread that a pend call puts to sleep is woken by the post that hands it a
credit or a message; which of several sleeping threads that is depends on their
priorities and is left open.
-/

namespace ExploreF407.Mbox

open Kernel Lwip

/-- A message on its way. The serial number of the posting call tells apart
    messages with the same pointer. -/
structure Msg (α : Type*) where
  call : Nat
  ptr : α
  deriving Repr, DecidableEq

/-- Where a thread stands in the port function it executes. `trypost` stands for
    `sys_mbox_trypost` and `sys_mbox_trypost_fromisr`, whose bodies agree. -/
inductive Pc (α : Type*) where
  | idle
  /-- `sys_mbox_post` sleeps in the pend list of `msg_sem`. -/
  | postBlocked (msg : Msg α)
  /-- `sys_mbox_post` has its credit, `OSQPost` is next. -/
  | postMid (msg : Msg α)
  /-- `sys_mbox_trypost` has enqueued its message, `OSSemPend` is next. -/
  | tryMid (msg : Msg α)
  /-- `sys_arch_mbox_fetch` sleeps in the pend list of `msg_queen`. -/
  | fetchBlocked
  /-- A fetch or tryfetch has its message, `OSSemPost` is next. -/
  | fetchMid (msg : Msg α)
  deriving Repr, DecidableEq

def Pc.waitsForMsg {α : Type*} : Pc α → Bool
  | .fetchBlocked => true
  | _ => false

def Pc.waitsForCredit {α : Type*} : Pc α → Bool
  | .postBlocked _ => true
  | _ => false

/-- The operation is between its two kernel calls. -/
def Pc.between {α : Type*} : Pc α → Bool
  | .postMid _ | .tryMid _ | .fetchMid _ => true
  | _ => false

/-- One kernel call. `head` is the task at the head of the object's pend list,
    `nbrFree` the number of free message blocks at that moment. -/
inductive Act (τ α : Type*) where
  | post (t : τ) (ptr : α)
  | postPut (t : τ) (nbrFree : Nat) (head : Option τ)
  | trypost (t : τ) (ptr : α) (nbrFree : Nat) (head : Option τ)
  | trypostPend (t : τ)
  | fetch (t : τ)
  | tryfetch (t : τ)
  | fetchPost (t : τ) (head : Option τ)
  | fetchTimeout (t : τ)
  deriving Repr, DecidableEq

/-- The mailbox, the threads, and a record of what has happened: messages in the
    order in which they entered the queue and in which they were taken, calls by
    what they told their caller, and the two kinds of mishap (a credit taken for a
    message that did not enter, a message that entered without a credit). -/
structure World (τ α : Type*) where
  mbox : SysMbox (Msg α)
  pc : τ → Pc α
  calls : Nat
  entered : List (Msg α)
  taken : List (Msg α)
  posted : List (Msg α)
  refused : List (Msg α)
  lost : Nat
  surplus : Nat

variable {τ α : Type*} [Fintype τ] [DecidableEq τ]

/-- `head` may be the head of the pend list of the threads that wait as `waits`
    says. -/
def HeadOf (waits : Pc α → Bool) (pc : τ → Pc α) : Option τ → Prop
  | some w => waits (pc w) = true
  | none => ∀ w, waits (pc w) = false

instance (waits : Pc α → Bool) (pc : τ → Pc α) (head : Option τ) :
    Decidable (HeadOf waits pc head) :=
  match head with
  | some w => inferInstanceAs (Decidable (waits (pc w) = true))
  | none => inferInstanceAs (Decidable (∀ w, waits (pc w) = false))

namespace World

def init (n : Capacity) : World τ α where
  mbox := (sysMboxNew .blank n.size).1
  pc := fun _ => .idle
  calls := 0
  entered := []
  taken := []
  posted := []
  refused := []
  lost := 0
  surplus := 0

def goto (s : World τ α) (t : τ) (p : Pc α) : World τ α :=
  { s with pc := Function.update s.pc t p }

/-- A message has entered `msg_queen`, or gone straight to the waiting thread. -/
def enter (s : World τ α) (queue : OsQ (Msg α)) (msg : Msg α) : Option τ → World τ α
  | none => { s with
      mbox := { s.mbox with msgQueen := queue }
      entered := s.entered ++ [msg] }
  | some w => { s.goto w (.fetchMid msg) with
      mbox := { s.mbox with msgQueen := queue }
      entered := s.entered ++ [msg]
      taken := s.taken ++ [msg] }

/-- The credit of a fetched message has been given back, or handed on to the
    waiting poster. -/
def giveBack (s : World τ α) (sem : OsSem) : Option τ → World τ α
  | none => { s with mbox := { s.mbox with msgSem := sem } }
  | some w => match s.pc w with
      | .postBlocked msg => { s.goto w (.postMid msg) with mbox := { s.mbox with msgSem := sem } }
      | _ => { s with mbox := { s.mbox with msgSem := sem } }

def fetchFrom (s : World τ α) (t : τ) (opt : PendOpt) : World τ α :=
  match osQPend s.mbox.msgQueen opt with
  | .granted msg queue => { s.goto t (.fetchMid msg) with
      mbox := { s.mbox with msgQueen := queue }
      taken := s.taken ++ [msg] }
  | .blocked => s.goto t .fetchBlocked
  | .failed _ => s

/-- One kernel call; `none` when the thread is not at that point of its program. -/
def step (s : World τ α) : Act τ α → Option (World τ α)
  | .post t ptr => match s.pc t with
      | .idle =>
          let msg : Msg α := { call := s.calls, ptr := ptr }
          let s := { s with calls := s.calls + 1 }
          some (match osSemPend s.mbox.msgSem .blocking with
            | .granted _ sem =>
                { s.goto t (.postMid msg) with mbox := { s.mbox with msgSem := sem } }
            | .blocked => s.goto t (.postBlocked msg)
            | .failed _ => { s with posted := s.posted ++ [msg] })
      | _ => none
  | .postPut t nbrFree head => match s.pc t with
      | .postMid msg =>
          if HeadOf Pc.waitsForMsg s.pc head then
            let s := { s.goto t .idle with posted := s.posted ++ [msg] }
            some (match osQPost s.mbox.msgQueen msg head nbrFree with
              | .ok queue => s.enter queue msg head
              | .error _ => { s with lost := s.lost + 1 })
          else none
      | _ => none
  | .trypost t ptr nbrFree head => match s.pc t with
      | .idle =>
          if HeadOf Pc.waitsForMsg s.pc head then
            let msg : Msg α := { call := s.calls, ptr := ptr }
            let s := { s with calls := s.calls + 1 }
            some (match osQPost s.mbox.msgQueen msg head nbrFree with
              | .ok queue => (s.goto t (.tryMid msg)).enter queue msg head
              | .error _ => { s with refused := s.refused ++ [msg] })
          else none
      | _ => none
  | .trypostPend t => match s.pc t with
      | .tryMid msg =>
          let s := s.goto t .idle
          some (match osSemPend s.mbox.msgSem .nonBlocking with
            | .granted _ sem =>
                { s with mbox := { s.mbox with msgSem := sem }, posted := s.posted ++ [msg] }
            | _ => { s with refused := s.refused ++ [msg], surplus := s.surplus + 1 })
      | _ => none
  | .fetch t => match s.pc t with
      | .idle => some (s.fetchFrom t .blocking)
      | _ => none
  | .tryfetch t => match s.pc t with
      | .idle => some (s.fetchFrom t .nonBlocking)
      | _ => none
  | .fetchPost t head => match s.pc t with
      | .fetchMid _ =>
          if HeadOf Pc.waitsForCredit s.pc head then
            let s := s.goto t .idle
            some (match osSemPost s.mbox.msgSem head with
              | .ok sem => s.giveBack sem head
              | .error _ => { s with lost := s.lost + 1 })
          else none
      | _ => none
  | .fetchTimeout t => match s.pc t with
      | .fetchBlocked => some (s.goto t .idle)
      | _ => none

end World

/-! ## What one step can do

`Moves n s xs c` lists the outcomes of a step from a created mailbox of size `n`
with entries `xs` and `c` credits. All invariants below are derived from it.
-/

inductive Moves (n : Nat) (s : World τ α) (xs : List (Msg α)) :
    Nat → Act τ α → World τ α → Prop where
  | postTakes {t ptr c} (idle : s.pc t = .idle) :
      Moves n s xs (c + 1) (.post t ptr) { s with
        mbox := .created n xs c
        pc := Function.update s.pc t (.postMid ⟨s.calls, ptr⟩)
        calls := s.calls + 1 }
  | postWaits {t ptr} (idle : s.pc t = .idle) :
      Moves n s xs 0 (.post t ptr) { s with
        pc := Function.update s.pc t (.postBlocked ⟨s.calls, ptr⟩)
        calls := s.calls + 1 }
  | putHands {t nbrFree w msg c} (mid : s.pc t = .postMid msg) (waits : s.pc w = .fetchBlocked) :
      Moves n s xs c (.postPut t nbrFree (some w)) { s with
        pc := Function.update (Function.update s.pc t .idle) w (.fetchMid msg)
        entered := s.entered ++ [msg]
        taken := s.taken ++ [msg]
        posted := s.posted ++ [msg] }
  | putEnters {t nbrFree msg c} (mid : s.pc t = .postMid msg)
      (unawaited : ∀ w, s.pc w ≠ .fetchBlocked) (room : xs.length < n) (free : 0 < nbrFree) :
      Moves n s xs c (.postPut t nbrFree none) { s with
        mbox := .created n (xs ++ [msg]) c
        pc := Function.update s.pc t .idle
        entered := s.entered ++ [msg]
        posted := s.posted ++ [msg] }
  | putFails {t nbrFree msg c} (mid : s.pc t = .postMid msg)
      (refused : n ≤ xs.length ∨ nbrFree = 0) :
      Moves n s xs c (.postPut t nbrFree none) { s with
        pc := Function.update s.pc t .idle
        posted := s.posted ++ [msg]
        lost := s.lost + 1 }
  | tryHands {t ptr nbrFree w c} (idle : s.pc t = .idle) (waits : s.pc w = .fetchBlocked) :
      Moves n s xs c (.trypost t ptr nbrFree (some w)) { s with
        pc := Function.update (Function.update s.pc t (.tryMid ⟨s.calls, ptr⟩)) w
          (.fetchMid ⟨s.calls, ptr⟩)
        calls := s.calls + 1
        entered := s.entered ++ [⟨s.calls, ptr⟩]
        taken := s.taken ++ [⟨s.calls, ptr⟩] }
  | tryEnters {t ptr nbrFree c} (idle : s.pc t = .idle)
      (unawaited : ∀ w, s.pc w ≠ .fetchBlocked) (room : xs.length < n) (free : 0 < nbrFree) :
      Moves n s xs c (.trypost t ptr nbrFree none) { s with
        mbox := .created n (xs ++ [⟨s.calls, ptr⟩]) c
        pc := Function.update s.pc t (.tryMid ⟨s.calls, ptr⟩)
        calls := s.calls + 1
        entered := s.entered ++ [⟨s.calls, ptr⟩] }
  | tryFails {t ptr nbrFree c} (idle : s.pc t = .idle)
      (refused : n ≤ xs.length ∨ nbrFree = 0) :
      Moves n s xs c (.trypost t ptr nbrFree none) { s with
        calls := s.calls + 1
        refused := s.refused ++ [⟨s.calls, ptr⟩] }
  | tryTakes {t msg c} (mid : s.pc t = .tryMid msg) :
      Moves n s xs (c + 1) (.trypostPend t) { s with
        mbox := .created n xs c
        pc := Function.update s.pc t .idle
        posted := s.posted ++ [msg] }
  | tryMisses {t msg} (mid : s.pc t = .tryMid msg) :
      Moves n s xs 0 (.trypostPend t) { s with
        pc := Function.update s.pc t .idle
        refused := s.refused ++ [msg]
        surplus := s.surplus + 1 }
  | fetches {t a msg rest c} (idle : s.pc t = .idle) (contents : xs = msg :: rest)
      (call : a = .fetch t ∨ a = .tryfetch t) :
      Moves n s xs c a { s with
        mbox := .created n rest c
        pc := Function.update s.pc t (.fetchMid msg)
        taken := s.taken ++ [msg] }
  | fetchWaits {t c} (idle : s.pc t = .idle) (contents : xs = []) :
      Moves n s xs c (.fetch t) { s with pc := Function.update s.pc t .fetchBlocked }
  | tryfetchEmpty {t c} (idle : s.pc t = .idle) : Moves n s xs c (.tryfetch t) s
  | givesOn {t w got msg c} (mid : s.pc t = .fetchMid got) (waits : s.pc w = .postBlocked msg) :
      Moves n s xs c (.fetchPost t (some w)) { s with
        pc := Function.update (Function.update s.pc t .idle) w (.postMid msg) }
  | givesBack {t got c} (mid : s.pc t = .fetchMid got) (below : c ≠ osSemCtrMax) :
      Moves n s xs c (.fetchPost t none) { s with
        mbox := .created n xs (c + 1)
        pc := Function.update s.pc t .idle }
  | overflows {t got} (mid : s.pc t = .fetchMid got) :
      Moves n s xs osSemCtrMax (.fetchPost t none) { s with
        pc := Function.update s.pc t .idle
        lost := s.lost + 1 }
  | timesOut {t c} (waits : s.pc t = .fetchBlocked) :
      Moves n s xs c (.fetchTimeout t) { s with pc := Function.update s.pc t .idle }

omit [Fintype τ] [DecidableEq τ] in
theorem waitsForMsg_iff {p : Pc α} : p.waitsForMsg = true ↔ p = .fetchBlocked := by
  cases p <;> simp [Pc.waitsForMsg]

omit [Fintype τ] [DecidableEq τ] in
theorem waitsForCredit_iff {p : Pc α} : p.waitsForCredit = true ↔ ∃ msg, p = .postBlocked msg := by
  cases p <;> simp [Pc.waitsForCredit]

omit [Fintype τ] [DecidableEq τ] in
theorem unawaited_of_none {pc : τ → Pc α} (headOf : HeadOf Pc.waitsForMsg pc none) (w : τ) :
    pc w ≠ .fetchBlocked := by
  intro waits
  have asleep := headOf w
  rw [waits] at asleep
  cases asleep

theorem step_moves {n c : Nat} {xs : List (Msg α)} {s s' : World τ α} {a : Act τ α}
    (created : s.mbox = .created n xs c) (moved : s.step a = some s') : Moves n s xs c a s' := by
  obtain ⟨mbox, pc, calls, entered, taken, posted, refused, lost, surplus⟩ := s
  subst created
  cases a with
  | post t ptr =>
      simp only [World.step] at moved
      split at moved
      · rename_i idle
        cases moved
        cases c with
        | zero => simpa [World.goto] using Moves.postWaits idle
        | succ c => simpa [World.goto] using Moves.postTakes idle
      · cases moved
  | postPut t nbrFree head =>
      simp only [World.step] at moved
      split at moved
      · rename_i msg mid
        split at moved
        · rename_i headOf
          cases moved
          cases head with
          | some w =>
              have waits := waitsForMsg_iff.mp headOf
              simpa [World.goto, World.enter] using Moves.putHands mid waits
          | none =>
              have unawaited := unawaited_of_none headOf
              by_cases room : xs.length < n ∧ 0 < nbrFree
              · have put := osQPost_room (τ := τ) msg room.1 room.2
                simpa [World.goto, World.enter, put] using
                  Moves.putEnters mid unawaited room.1 room.2
              · have refused : n ≤ xs.length ∨ nbrFree = 0 := by omega
                obtain ⟨err, put⟩ := osQPost_refused (τ := τ) msg refused
                simpa [World.goto, World.enter, put] using Moves.putFails mid refused
        · cases moved
      · cases moved
  | trypost t ptr nbrFree head =>
      simp only [World.step] at moved
      split at moved
      · rename_i idle
        split at moved
        · rename_i headOf
          cases moved
          cases head with
          | some w =>
              have waits := waitsForMsg_iff.mp headOf
              simpa [World.goto, World.enter] using Moves.tryHands idle waits
          | none =>
              have unawaited := unawaited_of_none headOf
              by_cases room : xs.length < n ∧ 0 < nbrFree
              · have put := osQPost_room (τ := τ) (⟨calls, ptr⟩ : Msg α) room.1 room.2
                simpa [World.goto, World.enter, put] using
                  Moves.tryEnters idle unawaited room.1 room.2
              · have refused : n ≤ xs.length ∨ nbrFree = 0 := by omega
                obtain ⟨err, put⟩ := osQPost_refused (τ := τ) (⟨calls, ptr⟩ : Msg α) refused
                simpa [World.goto, World.enter, put] using Moves.tryFails idle refused
        · cases moved
      · cases moved
  | trypostPend t =>
      simp only [World.step] at moved
      split at moved
      · rename_i msg mid
        cases moved
        cases c with
        | zero => simpa [World.goto] using Moves.tryMisses mid
        | succ c => simpa [World.goto] using Moves.tryTakes mid
      · cases moved
  | fetch t =>
      simp only [World.step] at moved
      split at moved
      · rename_i idle
        cases moved
        cases contents : xs with
        | nil => simpa [World.goto, World.fetchFrom] using Moves.fetchWaits idle rfl
        | cons msg rest =>
            simpa [World.goto, World.fetchFrom] using Moves.fetches idle rfl (.inl rfl)
      · cases moved
  | tryfetch t =>
      simp only [World.step] at moved
      split at moved
      · rename_i idle
        cases moved
        cases contents : xs with
        | nil => simpa [World.goto, World.fetchFrom] using Moves.tryfetchEmpty idle
        | cons msg rest =>
            simpa [World.goto, World.fetchFrom] using Moves.fetches idle rfl (.inr rfl)
      · cases moved
  | fetchPost t head =>
      simp only [World.step] at moved
      split at moved
      · rename_i got mid
        split at moved
        · rename_i headOf
          cases moved
          cases head with
          | some w =>
              obtain ⟨msg, waits⟩ := waitsForCredit_iff.mp headOf
              have asleep : Function.update pc t .idle w = .postBlocked msg :=
                stands_still mid waits (by simp) .idle
              simpa [World.goto, World.giveBack, asleep] using Moves.givesOn mid waits
          | none =>
              by_cases top : c = osSemCtrMax
              · subst top
                simpa [World.goto] using Moves.overflows mid
              · simpa [World.goto, World.giveBack, top] using Moves.givesBack mid top
        · cases moved
      · cases moved
  | fetchTimeout t =>
      simp only [World.step] at moved
      split at moved
      · rename_i waits
        cases moved
        simpa [World.goto] using Moves.timesOut waits
      · cases moved

end ExploreF407.Mbox
