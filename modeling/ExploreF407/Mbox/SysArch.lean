import ExploreF407.Kernel.Objects
import ExploreF407.Lwip.Err

/-! # The mailbox functions of `sys_arch.c`

A mailbox is a message queue and a counting semaphore of the same size: the
semaphore counts the free places. Each function is given as it runs when no
other task or interrupt touches the mailbox between its two kernel calls.
`Mbox.Threads` has the same functions cut at the kernel calls.
-/

namespace ExploreF407.Mbox

open Kernel Lwip

variable {α : Type*}

structure SysMbox (α : Type*) where
  msgQueen : OsQ α
  msgSem : OsSem
  deriving Repr, DecidableEq

/-- Zeroed storage in which neither object has been created. -/
def SysMbox.blank : SysMbox α where
  msgQueen := { type := .none, msgQ := osMsgQInit 0 }
  msgSem := { type := .none, ctr := 0 }

/-- Both objects are attempted whatever the other one reports. `size` is an `int`,
    cut to the 16 bits of `OS_MSG_QTY` and the 32 bits of `OS_SEM_CTR`. -/
def sysMboxNew (mbox : SysMbox α) (size : Int) : SysMbox α × ErrT :=
  match osQCreate mbox.msgQueen (size % 2 ^ 16).toNat,
      osSemCreate mbox.msgSem (size % 2 ^ 32).toNat with
  | .ok queen, .ok sem => ({ msgQueen := queen, msgSem := sem }, .ok)
  | .ok queen, .error _ => ({ mbox with msgQueen := queen }, .mem)
  | .error _, .ok sem => ({ mbox with msgSem := sem }, .mem)
  | .error _, .error _ => (mbox, .mem)

/-- `none` when the caller would wait for a credit. -/
def sysMboxPost (mbox : SysMbox α) (msg : α) (nbrFree : Nat) : Option (SysMbox α) :=
  match osSemPend mbox.msgSem .blocking with
  | .blocked => none
  | .failed _ => some mbox
  | .granted _ sem =>
      match osQPost mbox.msgQueen msg (none : Option Unit) nbrFree with
      | .ok queen => some { msgQueen := queen, msgSem := sem }
      | .error _ => some { mbox with msgSem := sem }

def sysMboxTrypost (mbox : SysMbox α) (msg : α) (nbrFree : Nat) : SysMbox α × ErrT :=
  match osQPost mbox.msgQueen msg (none : Option Unit) nbrFree with
  | .error _ => (mbox, .mem)
  | .ok queen =>
      match osSemPend mbox.msgSem .nonBlocking with
      | .granted _ sem => ({ msgQueen := queen, msgSem := sem }, .ok)
      | _ => ({ mbox with msgQueen := queen }, .mem)

/-- The source repeats the body of `sys_mbox_trypost`. -/
def sysMboxTrypostFromisr (mbox : SysMbox α) (msg : α) (nbrFree : Nat) : SysMbox α × ErrT :=
  sysMboxTrypost mbox msg nbrFree

/-- Returns the mailbox, `*msg` and the result. `start` and `now` are the values
    of `OSTickCtr` around the queue pend. A caller that finds the queue empty waits
    for ever when `timeoutMs` is 0 and otherwise runs into the timeout. -/
def sysArchMboxFetch (mbox : SysMbox α) (timeoutMs start now : Nat) :
    Option (SysMbox α × Option α × Nat) :=
  match osQPend mbox.msgQueen .blocking with
  | .blocked => if timeoutMs = 0 then none else some (mbox, none, sysArchTimeout)
  | .failed _ => some (mbox, none, sysArchTimeout)
  | .granted msg queen =>
      match osSemPost mbox.msgSem (none : Option Unit) with
      | .ok sem => some ({ msgQueen := queen, msgSem := sem }, some msg, elapsedTicks start now)
      | .error _ => some ({ mbox with msgQueen := queen }, some msg, sysArchTimeout)

/-- On failure the source clears its own copy of the pointer `msg`, so `*msg`
    keeps what `OSQPend` returned. -/
def sysArchMboxTryfetch (mbox : SysMbox α) : SysMbox α × Option α × Nat :=
  match osQPend mbox.msgQueen .nonBlocking with
  | .granted msg queen =>
      match osSemPost mbox.msgSem (none : Option Unit) with
      | .ok sem => ({ msgQueen := queen, msgSem := sem }, some msg, 0)
      | .error _ => ({ mbox with msgQueen := queen }, some msg, sysMboxEmpty)
  | _ => (mbox, none, sysMboxEmpty)

/-- Sizes with which a mailbox can be created: the queue stores its limit in
    16 bits, and `OSQCreate` refuses 0. -/
structure Capacity where
  size : Nat
  pos : 0 < size
  fits : size < 2 ^ 16

/-- A created mailbox of size `n` with entries `xs` and `c` credits. -/
abbrev SysMbox.created (n : Nat) (xs : List α) (c : Nat) : SysMbox α where
  msgQueen := .created xs n
  msgSem := .created c

theorem sysMboxNew_blank (n : Capacity) :
    sysMboxNew (SysMbox.blank : SysMbox α) n.size = (.created n.size [] n.size, .ok) := by
  have pos := n.pos
  have fits := n.fits
  have queueSize : ((n.size : Int) % 2 ^ 16).toNat = n.size := by omega
  have semSize : ((n.size : Int) % 2 ^ 32).toNat = n.size := by omega
  have queue : osQCreate (SysMbox.blank : SysMbox α).msgQueen n.size =
      .ok (.created [] n.size) := by
    simp [osQCreate, SysMbox.blank, osMsgQInit, show n.size ≠ 0 by omega]
  have sem : osSemCreate (SysMbox.blank : SysMbox α).msgSem n.size = .ok (.created n.size) := by
    simp [osSemCreate, SysMbox.blank]
  rw [sysMboxNew, queueSize, semSize, queue, sem]

end ExploreF407.Mbox
