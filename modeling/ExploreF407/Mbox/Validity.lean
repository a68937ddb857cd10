import ExploreF407.Mbox.SysArch

/-! # What `sys_mbox_valid` and `sys_sem_valid` tell

Both ask whether the pointer to the storage is NULL, and `sys_mbox_set_invalid` and
`sys_sem_set_invalid` only change their own copy of that pointer. `lwip_netconn_do_listen` is
a caller that decides by the answer.
-/

namespace ExploreF407.Mbox

open Kernel Lwip

variable {α : Type*}

/-! ## The functions of `sys_arch.c` -/

/-- What a kernel call that may fail leaves of its object. -/
def kept {σ : Type*} (obj : σ) : Except OsErr σ → σ
  | .ok obj' => obj'
  | .error _ => obj

/-- Both objects are deleted whoever waits for them. -/
def sysMboxFree (mbox : SysMbox α) : SysMbox α where
  msgSem := kept mbox.msgSem (osSemDel mbox.msgSem .always (none : Option Unit))
  msgQueen := kept mbox.msgQueen (osQDel mbox.msgQueen .always (none : Option Unit))

/-- `mbox` points to the storage, or is NULL. -/
def sysMboxValid (mbox : Option (SysMbox α)) : Int :=
  match mbox with
  | none => 0
  | some _ => 1

/-- The assignment is to the parameter. -/
def sysMboxSetInvalid (mbox : SysMbox α) : SysMbox α := mbox

def sysSemNew (sem : OsSem) (initialCount : Nat) : OsSem × ErrT :=
  match osSemCreate sem (initialCount % 2 ^ 8) with
  | .ok sem => (sem, .ok)
  | .error _ => (sem, .mem)

/-- The semaphore is kept as long as the pend list has a `head`. -/
def sysSemFree (sem : OsSem) (head : Option Unit) : OsSem := kept sem (osSemDel sem .noPend head)

def sysSemValid (sem : Option OsSem) : Int :=
  match sem with
  | none => 0
  | some _ => 1

def sysSemSetInvalid (sem : OsSem) : OsSem := sem

/-! ## `lwip_netconn_do_listen` -/

/-- `enum netconn_state`. -/
inductive NetconnState where
  | none
  | write
  | listen
  | connect
  | close
  deriving Repr, DecidableEq

/-- What `lwip_netconn_do_listen` reads and changes in `msg->conn`: `pcb.tcp`, with whether that
    pcb is `CLOSED`, whether `type` is one of TCP, the state and the mailboxes. -/
structure Netconn (α : Type*) where
  pcbTcp : Option Bool
  typeTcp : Bool
  state : NetconnState
  recvmbox : SysMbox α
  acceptmbox : SysMbox α

def defaultAcceptmboxSize : Int := 6

/-- `lwip_netconn_do_listen`, with the outcome of `tcp_listen_with_backlog_and_err`: a new pcb or
    an error. -/
def lwipNetconnDoListen (conn : Netconn α) (lpcb : Except ErrT Unit) : Netconn α × ErrT :=
  match conn.pcbTcp with
  | none => (conn, .conn)
  | some closed =>
      if ¬ conn.typeTcp then (conn, .arg)
      else match conn.state, lpcb with
        | .none, lpcb =>
            if ¬ closed then (conn, .val)
            else match lpcb with
              | .error err => (conn, err)
              | .ok () =>
                  let recvmbox := if sysMboxValid (some conn.recvmbox) ≠ 0 then
                      sysMboxSetInvalid (sysMboxFree conn.recvmbox)
                    else conn.recvmbox
                  let (acceptmbox, err) := if sysMboxValid (some conn.acceptmbox) = 0 then
                      sysMboxNew conn.acceptmbox defaultAcceptmboxSize
                    else (conn.acceptmbox, .ok)
                  if err = .ok then
                    ({ conn with
                      pcbTcp := some false
                      state := .listen
                      recvmbox := recvmbox
                      acceptmbox := acceptmbox }, err)
                  else
                    ({ conn with
                      pcbTcp := none
                      recvmbox := recvmbox
                      acceptmbox := acceptmbox }, err)
        | .listen, _ => (conn, .ok)
        | _, _ => (conn, .conn)

/-! ## Lives -/

inductive Event where
  | new (ok : Bool)
  | free
  | setInvalid
  deriving Repr, DecidableEq

/-- A successful `new` has not been followed by `set_invalid`. -/
def Live (life : List Event) : Prop :=
  ∃ before after, life = before ++ .new true :: after ∧ .setInvalid ∉ after

inductive MboxCall where
  | new (size : Int)
  | free
  | setInvalid
  deriving Repr, DecidableEq

/-- The calls for a semaphore. A task may be waiting when it is freed. -/
inductive SemCall where
  | new (initialCount : Nat)
  | free (head : Option Unit)
  | setInvalid
  deriving Repr, DecidableEq

def MboxCall.step : SysMbox α × List Event → MboxCall → SysMbox α × List Event
  | (mbox, life), .new size =>
      let r := sysMboxNew mbox size
      (r.1, life ++ [.new (r.2 = .ok)])
  | (mbox, life), .free => (sysMboxFree mbox, life ++ [.free])
  | (mbox, life), .setInvalid => (sysMboxSetInvalid mbox, life ++ [.setInvalid])

def SemCall.step : OsSem × List Event → SemCall → OsSem × List Event
  | (sem, life), .new initialCount =>
      let r := sysSemNew sem initialCount
      (r.1, life ++ [.new (r.2 = .ok)])
  | (sem, life), .free head => (sysSemFree sem head, life ++ [.free])
  | (sem, life), .setInvalid => (sysSemSetInvalid sem, life ++ [.setInvalid])

/-- A sequence of calls from zeroed storage on: the storage and its life. -/
def mboxLife (calls : List MboxCall) : SysMbox α × List Event :=
  calls.foldl MboxCall.step (.blank, [])

def semLife (calls : List SemCall) : OsSem × List Event :=
  calls.foldl SemCall.step ({ type := .none, ctr := 0 }, [])

/-! ## Listening -/

/-- A connection that is about to listen. -/
def Netconn.fresh (recvmbox acceptmbox : SysMbox α) : Netconn α where
  pcbTcp := some true
  typeTcp := true
  state := .none
  recvmbox := recvmbox
  acceptmbox := acceptmbox

/-- `acceptmbox` is used as it is if it is live, and created if it is not. -/
def ListensRight (live : Prop) (acceptmbox : SysMbox α) (r : Netconn α × ErrT) : Prop :=
  (live → (r.1.acceptmbox, r.2) = (acceptmbox, .ok)) ∧
    (¬ live → (r.1.acceptmbox, r.2) = sysMboxNew acceptmbox defaultAcceptmboxSize)

theorem listen_fresh (recvmbox acceptmbox : SysMbox α) :
    lwipNetconnDoListen (.fresh recvmbox acceptmbox) (.ok ()) =
      ({ pcbTcp := some false
         typeTcp := true
         state := .listen
         recvmbox := sysMboxFree recvmbox
         acceptmbox := acceptmbox }, .ok) := by
  simp [lwipNetconnDoListen, Netconn.fresh, sysMboxValid, sysMboxSetInvalid]

theorem sysMboxNew_changes (mbox : SysMbox α) (size : Int) : sysMboxNew mbox size ≠ (mbox, .ok) := by
  intro same
  simp only [sysMboxNew] at same
  split at same
  · rename_i queen sem queue _
    simp only [Prod.mk.injEq, and_true] at same
    -- What is created has not been a queue before.
    simp only [osQCreate] at queue
    split at queue
    · cases queue
    split at queue
    · cases queue
    · rename_i notQueue
      cases queue
      rw [← same] at notQueue
      exact notQueue rfl
  all_goals simp at same

theorem listens_right_iff (live : Prop) (recvmbox acceptmbox : SysMbox α) :
    ListensRight live acceptmbox (lwipNetconnDoListen (.fresh recvmbox acceptmbox) (.ok ())) ↔
      live := by
  rw [listen_fresh]
  constructor
  · intro right
    obtain ⟨-, created⟩ := right
    by_contra dead
    exact sysMboxNew_changes acceptmbox defaultAcceptmboxSize (created dead).symm
  · intro live
    exact ⟨fun _ => rfl, fun dead => absurd live dead⟩

/-- After every sequence of calls, `sys_mbox_valid` and `sys_sem_valid` tell the life of the
    storage, and `lwip_netconn_do_listen` uses or creates `acceptmbox` as it should, exactly if
    the storage is live. -/
theorem validity_iff_live :
    (∀ calls : List MboxCall,
      ((sysMboxValid (some (mboxLife calls : SysMbox α × _).1) ≠ 0 ↔
          Live (mboxLife calls : SysMbox α × _).2) ↔ Live (mboxLife calls : SysMbox α × _).2) ∧
        ∀ recvmbox : SysMbox α,
          ListensRight (Live (mboxLife calls : SysMbox α × _).2) (mboxLife calls).1
            (lwipNetconnDoListen (.fresh recvmbox (mboxLife calls).1) (.ok ())) ↔
          Live (mboxLife calls : SysMbox α × _).2) ∧
      ∀ calls : List SemCall,
        (sysSemValid (some (semLife calls).1) ≠ 0 ↔ Live (semLife calls).2) ↔
          Live (semLife calls).2 := by
  refine ⟨fun calls => ⟨?_, fun recvmbox => listens_right_iff _ _ _⟩, fun calls => ?_⟩
  · simp [sysMboxValid]
  · simp [sysSemValid]

theorem not_live_nil : ¬ Live [] := by
  intro live
  obtain ⟨before, after, split, -⟩ := live
  simp at split

theorem not_live_setInvalid (life : List Event) : ¬ Live (life ++ [.setInvalid]) := by
  intro live
  obtain ⟨before, after, split, quiet⟩ := live
  have ends := congrArg List.getLast? split
  rcases List.eq_nil_or_concat after with rfl | ⟨start, last, rfl⟩
  · simp at ends
  · rw [List.concat_eq_append, ← List.cons_append, ← List.append_assoc] at split
    obtain ⟨-, same⟩ := List.append_inj' split rfl
    simp only [List.cons.injEq, and_true] at same
    simp [← same] at quiet

theorem live_new (life : List Event) : Live (life ++ [.new true]) :=
  ⟨life, [], rfl, by simp⟩

theorem Live.append {life : List Event} {e : Event} (live : Live life) (kept : e ≠ .setInvalid) :
    Live (life ++ [e]) := by
  obtain ⟨before, after, rfl, quiet⟩ := live
  refine ⟨before, after ++ [e], by simp, ?_⟩
  simp [quiet, kept.symm]

/-- Storage in which nothing has been created, and storage whose object has been freed and
    invalidated, count as valid, and listening takes them as they are. -/
theorem validity_not_life :
    ¬ (sysMboxValid (some (mboxLife [] : SysMbox Unit × _).1) ≠ 0 ↔
        Live (mboxLife [] : SysMbox Unit × _).2) ∧
      ¬ (sysMboxValid (some (mboxLife [.new 6, .free, .setInvalid] : SysMbox Unit × _).1) ≠ 0 ↔
        Live (mboxLife [.new 6, .free, .setInvalid] : SysMbox Unit × _).2) ∧
      ¬ ListensRight (Live (mboxLife [] : SysMbox Unit × _).2) (.blank : SysMbox Unit)
        (lwipNetconnDoListen (.fresh .blank .blank) (.ok ())) ∧
      ¬ (sysSemValid (some (semLife [.new 0, .free none, .setInvalid]).1) ≠ 0 ↔
        Live (semLife [.new 0, .free none, .setInvalid]).2) := by
  refine ⟨?_, ?_, ?_, ?_⟩
  · intro told
    exact not_live_nil (told.mp (by simp [sysMboxValid]))
  · intro told
    exact not_live_setInvalid _ (told.mp (by simp [sysMboxValid]))
  · intro right
    exact not_live_nil ((listens_right_iff _ _ _).mp right)
  · intro told
    exact not_live_setInvalid _ (told.mp (by simp [sysSemValid]))

/-! ## Prescribed use -/

/-- Where a storage cell stands: nothing in it, a mailbox, or a mailbox that has been freed and
    not yet invalidated. -/
inductive Phase where
  | blank
  | created (n : Capacity)
  | freed

/-- The calls that `sys.h` allows: only a mailbox is freed, and only what is none is created or
    invalidated. -/
inductive Prescribed : List MboxCall → Phase → Prop where
  | start : Prescribed [] .blank
  | new {calls phase} (n : Capacity) : Prescribed calls phase → (∀ m, phase ≠ .created m) →
      Prescribed (calls ++ [.new n.size]) (.created n)
  | free {calls n} : Prescribed calls (.created n) → Prescribed (calls ++ [.free]) .freed
  | setInvalid {calls phase} : Prescribed calls phase → (∀ m, phase ≠ .created m) →
      Prescribed (calls ++ [.setInvalid]) .blank

/-- What is in the storage. -/
def Phase.mbox : Phase → SysMbox α
  | .blank => .blank
  | .created n => .created n.size [] n.size
  | .freed => .blank

theorem Phase.mbox_blank {phase : Phase} (none' : ∀ m, phase ≠ .created m) :
    (phase.mbox : SysMbox α) = .blank := by
  cases phase with
  | blank => rfl
  | created n => exact absurd rfl (none' n)
  | freed => rfl

theorem sysMboxFree_created (n : Capacity) :
    sysMboxFree (.created n.size [] n.size : SysMbox α) = .blank := by
  simp [sysMboxFree, kept, osSemDel, osQDel, SysMbox.blank]

theorem mboxLife_append (calls : List MboxCall) (call : MboxCall) :
    (mboxLife (calls ++ [call]) : SysMbox α × _) = MboxCall.step (mboxLife calls) call := by
  simp [mboxLife]

/-- In prescribed use the storage holds a mailbox exactly from `new` to `free`. -/
theorem Prescribed.storage {calls : List MboxCall} {phase : Phase} (use : Prescribed calls phase) :
    (mboxLife calls : SysMbox α × _).1 = phase.mbox ∧
      (Live (mboxLife calls : SysMbox α × _).2 ↔ phase ≠ .blank) := by
  induction use with
  | start => exact ⟨rfl, iff_of_false not_live_nil (fun some' => some' rfl)⟩
  | new n use none' ih =>
      obtain ⟨mbox, -⟩ := ih
      rw [Phase.mbox_blank none'] at mbox
      simp only [mboxLife_append, MboxCall.step, mbox, sysMboxNew_blank]
      exact ⟨rfl, iff_of_true (live_new _) (by simp)⟩
  | @free calls n use ih =>
      obtain ⟨mbox, live⟩ := ih
      simp only [mboxLife_append, MboxCall.step, mbox, Phase.mbox, sysMboxFree_created, true_and]
      exact iff_of_true ((live.mpr (by simp)).append (by simp)) (by simp)
  | setInvalid use none' ih =>
      obtain ⟨mbox, -⟩ := ih
      rw [Phase.mbox_blank none'] at mbox
      simp only [mboxLife_append, MboxCall.step, mbox, sysMboxSetInvalid]
      exact ⟨rfl, iff_of_false (not_live_setInvalid _) (fun some' => some' rfl)⟩

/-- In prescribed use, `lwip_netconn_do_listen` reports that it listens whatever is in the
    storage of `acceptmbox`, and leaves blank storage blank. -/
theorem Prescribed.listen {calls : List MboxCall} {phase : Phase} (use : Prescribed calls phase)
    (recvmbox : SysMbox α) :
    let r := lwipNetconnDoListen (.fresh recvmbox (mboxLife calls).1) (.ok ())
    r.2 = .ok ∧ r.1.state = .listen ∧ r.1.acceptmbox = phase.mbox := by
  simp only [listen_fresh, use.storage.1]
  simp

end ExploreF407.Mbox
