import ExploreF407.App.Echo
import ExploreF407.Lib.Custody

/-! # What the network task gives back

The task has at most one netconn at a time, the one `conn` points to, and at most one
netbuf, between its receive and `netbuf_delete`. A `netconn_delete` that fails leaves
the netconn where it is, to be used or deleted in a later round.
-/

namespace ExploreF407.App

open Lwip Machine

namespace World

/-- The netconn `c` has been created and not been freed. -/
def Live (s : World) (c : Nat) : Prop := ∃ n, s.netconns[c]? = some n ∧ n.freed = false

/-- The step is a `netconn_delete` that frees the netconn `c`. -/
def Frees (c : Nat) (s : World) (a : Act) : Prop := a = .deleteConn true ∧ s.conn = some c

instance (c : Nat) (s : World) (a : Act) : Decidable (Frees c s a) :=
  inferInstanceAs (Decidable (_ ∧ _))

/-- The step is the `netbuf_delete` of the netbuf `b`. -/
def Deletes (b : Nat) (s : World) (a : Act) : Prop := a = .deleteBuf ∧ s.buf = some b

instance (b : Nat) (s : World) (a : Act) : Decidable (Deletes b s a) :=
  inferInstanceAs (Decidable (_ ∧ _))

def frees (as : List Act) (c : Nat) : Nat := tally World.step (Frees c) World.init as

def deletes (as : List Act) (b : Nat) : Nat := tally World.step (Deletes b) World.init as

/-! ## Netconns -/

def freed (s : World) : List Bool := s.netconns.map Netconn.freed

theorem live_iff {s : World} {c : Nat} : s.Live c ↔ s.freed[c]? = some false := by
  simp [Live, freed]

theorem freed_length (s : World) : s.freed.length = s.netconns.length := by simp [freed]

/-- Neither what has been freed nor `conn` is changed. -/
def SameConns (s s' : World) : Prop := s'.conn = s.conn ∧ s'.freed = s.freed

theorem useConn_same (s : World) (c : Nat) : s.SameConns (s.useConn c) := by
  obtain ⟨dead, used⟩ := s.useConn_eq c
  rw [used]
  exact ⟨rfl, rfl⟩

theorem setConn_freed (s : World) (c : Nat) {f : Netconn → Netconn}
    (keeps : ∀ n, (f n).freed = n.freed) : (s.setConn c f).freed = s.freed := by
  apply List.ext_getElem?
  intro i
  simp only [freed, setConn, List.getElem?_map, List.getElem?_modify]
  cases s.netconns[i]? with
  | none => rfl
  | some n => by_cases here : c = i <;> simp [here, keeps]

theorem setConn_frees (s : World) (c : Nat) :
    (s.setConn c fun n => { n with freed := true }).freed = s.freed.set c true := by
  apply List.ext_getElem?
  intro i
  simp only [freed, setConn, List.getElem?_map, List.getElem?_modify, List.getElem?_set]
  by_cases here : c = i
  · subst here
    by_cases inside : c < s.netconns.length <;> simp [inside]
  · simp [here]

theorem keepAlive_same (s : World) (c : Nat) : s.SameConns (s.keepAlive c) := by
  have used := s.useConn_same c
  unfold World.keepAlive
  split
  · split
    · have kept := (s.useConn c).setConn_freed c
        (f := fun n => { n with keepAlive := true }) fun _ => rfl
      exact ⟨used.1, kept.trans used.2⟩
    · exact used
  · exact used

theorem write_same (s : World) (c : Nat) : s.SameConns (s.write c) := by
  have used := s.useConn_same c
  unfold World.write
  split
  · exact used
  · split
    · exact used
    · exact used

/-- The steps of the machine, as far as they concern the netconns. -/
inductive Conns (s : World) : Act → World → Prop where
  | kept {a s'} (frees : ∀ c, ¬ Frees c s a) (same : s.SameConns s') : Conns s a s'
  | made {a s'} (frees : ∀ c, ¬ Frees c s a) (none : s.conn = none)
      (conn : s'.conn = some s.freed.length) (freed : s'.freed = s.freed ++ [false]) :
      Conns s a s'
  | freed {s' c} (conn : s.conn = some c) (none : s'.conn = none)
      (freed : s'.freed = s.freed.set c true) : Conns s (.deleteConn true) s'

theorem step_conns {s s' : World} {a : Act} (moved : s.step a = some s') : s.Conns a s' := by
  cases step_outcome moved with
  | @created allocated _ conn =>
      cases allocated with
      | false => exact .kept (by simp [Frees]) ⟨conn.symm, rfl⟩
      | true =>
          exact .made (by simp [Frees]) conn (by simp [newConn, freed]) (by simp [newConn, freed])
  | @closed c | @checked c | @refused c | @connected c | @received c | @notReceived c
  | @keptConn c => exact .kept (by simp [Frees]) (s.useConn_same c)
  | noNetconn | data | noData | deletedBuf | reused => exact .kept (by simp [Frees]) ⟨rfl, rfl⟩
  | @keptAlive c => exact .kept (by simp [Frees]) (s.keepAlive_same c)
  | @written c => exact .kept (by simp [Frees]) (s.write_same c)
  | deletedNull _ conn => exact .kept (by simp [Frees, conn]) ⟨rfl, rfl⟩
  | @deletedConn c _ conn =>
      have gone := (s.useConn c).setConn_frees c
      rw [(s.useConn_same c).2] at gone
      exact .freed conn rfl gone
  | errTcp | setState => exact .kept (by simp [Frees]) ⟨rfl, s.setConn_freed _ fun _ => rfl⟩

/-- The live netconn, if there is one, is in `conn`, and the others have been freed once. -/
structure OneConn (s : World) (frees : Nat → Nat) : Prop where
  custody : Custody s.freed.length s.conn frees
  freed : ∀ c < s.freed.length, s.freed[c]? = some (decide (frees c = 1))

namespace OneConn

variable {s s' : World} {n : Nat → Nat}

theorem init : World.init.OneConn fun _ => 0 where
  custody := .init
  freed := nofun

theorem live_iff (one : s.OneConn n) (c : Nat) : s.Live c ↔ s.conn = some c := by
  rw [World.live_iff]
  constructor
  · intro live
    have inside : c < s.freed.length := (List.getElem?_eq_some_iff.mp live).1
    have back := one.custody.back_made c inside
    by_contra other
    rw [if_neg other] at back
    rw [one.freed c inside, back] at live
    cases live
  · intro conn
    have inside := one.custody.held_made c conn
    rw [one.freed c inside, one.custody.back_made c inside, if_pos conn]
    rfl

theorem step (one : s.OneConn n) {a : Act} (moved : s.step a = some s') :
    s'.OneConn fun c => n c + if Frees c s a then 1 else 0 := by
  cases step_conns moved with
  | kept frees kept =>
      obtain ⟨conn, freed⟩ := kept
      rw [Custody.uncounted frees]
      exact ⟨by simpa only [conn, freed] using one.custody, by simpa only [freed] using one.freed⟩
  | made frees none conn freed =>
      rw [Custody.uncounted frees]
      have free := one.custody
      rw [none] at free
      refine ⟨by simpa [conn, freed] using free.takes, ?_⟩
      intro c inside
      rw [freed]
      by_cases old : c < s.freed.length
      · simpa [List.getElem?_append_left old] using one.freed c old
      · obtain rfl : c = s.freed.length := by
          rw [freed, List.length_append, List.length_singleton] at inside
          omega
        simp [free.unmade s.freed.length le_rfl]
  | @freed _ c conn none freed =>
      have once (d : Nat) : (n d + if Frees d s (.deleteConn true) then 1 else 0) =
          n d + if d = c then 1 else 0 := by
        simp [Frees, conn, eq_comm]
      have held := one.custody
      rw [conn] at held
      have gone : n c = 0 := by
        simpa using held.back_made c (held.held_made c rfl)
      refine ⟨by simpa only [none, freed, List.length_set] using held.gives once, ?_⟩
      intro d inside
      rw [freed, List.length_set] at inside
      rw [freed, once, List.getElem?_set, one.freed d inside]
      by_cases same : c = d
      · subst same
        simp [gone, inside]
      · have other : d ≠ c := fun same' => same same'.symm
        simp [same, other]

end OneConn

/-! ## Netbufs -/

/-- The netbuf that has been received and not been given to `netbuf_delete` yet. -/
def inHand (s : World) : Option Nat :=
  match s.pc with
  | .data | .deleteBuf => s.buf
  | _ => none

theorem inHand_between {s : World} (place : s.pc.Between) : s.inHand = none := by
  unfold inHand
  split
  · rename_i here
    simp [here, Pc.Between] at place
  · rename_i here
    simp [here, Pc.Between] at place
  · rfl

structure OneBuf (s : World) (deletes : Nat → Nat) : Prop where
  carries : ∃ as, s.Carries as
  custody : Custody s.netbufs.length s.inHand deletes

namespace OneBuf

variable {s s' : World} {n : Nat → Nat}

theorem init : World.init.OneBuf fun _ => 0 where
  carries := ⟨[], .init⟩
  custody := .init

theorem step (one : s.OneBuf n) {a : Act} (moved : s.step a = some s') :
    s'.OneBuf fun b => n b + if Deletes b s a then 1 else 0 := by
  obtain ⟨as, carries⟩ := one.carries
  refine ⟨⟨as ++ [a], (carries.step moved).1⟩, ?_⟩
  have custody := one.custody
  by_cases deleting : a = .deleteBuf
  · subst deleting
    simp only [World.step] at moved
    split at moved <;> cases moved
    rename_i b here held
    have once (d : Nat) : (n d + if Deletes d s .deleteBuf then 1 else 0) =
        n d + if d = b then 1 else 0 := by
      simp [Deletes, held, eq_comm]
    have hand : s.inHand = some b := by simp [inHand, here, held]
    rw [hand] at custody
    simpa [inHand] using custody.gives once
  · have deletes : ∀ b, ¬ Deletes b s a := fun _ both => deleting both.1
    rw [Custody.uncounted deletes]
    cases step_moves moved with
    | outside => exact custody
    | between _ place goes =>
        rw [inHand_between place] at custody
        rw [inHand_between goes]
        exact custody
    | received place =>
        rw [inHand_between place] at custody
        simpa [inHand] using custody.takes
    | data place => simpa [inHand, place] using custody
    | noData place held there failed =>
        obtain ⟨q, rest, rfl, -⟩ := carries.at_data place held there
        cases failed
    | deleted => exact absurd rfl deleting
    | reused => simpa [inHand] using custody
    | @written c place =>
        obtain ⟨q, rest, -, -, -, writes⟩ := carries.writes place
        obtain ⟨payload, dead, wrote⟩ := writes c
        rw [wrote]
        simpa [inHand, place] using custody

end OneBuf

end World

open World

/-- The netconn that is live is the one in `conn`, and each other netconn has been freed
    once. A netconn is created when none is live. No netbuf is deleted twice, and each
    has been deleted before the next receive. -/
theorem ethTask_gives_back {as : List Act} {s : World}
    (run : Runs World.step anyStep World.init as s) :
    (∀ c, s.Live c ↔ s.conn = some c) ∧
      (∀ c < s.netconns.length, frees as c = if s.conn = some c then 0 else 1) ∧
      (∀ allocated s', s.step (.newConn allocated) = some s' → ∀ c, ¬ s.Live c) ∧
      (∀ b, deletes as b ≤ 1) ∧
      (s.pc = .recv → ∀ b < s.netbufs.length, deletes as b = 1) := by
  have conns : s.OneConn (frees as) := by
    apply run.invariant_tally OneConn.init
    intro t a u n before _ moved
    exact before.step moved
  have bufs : s.OneBuf (deletes as) := by
    apply run.invariant_tally OneBuf.init
    intro t a u n before _ moved
    exact before.step moved
  refine ⟨conns.live_iff, ?_, ?_, bufs.custody.back_le, ?_⟩
  · intro c inside
    exact conns.custody.back_made c (by rwa [freed_length])
  · intro allocated s' created c live
    have none : s.conn = none := by
      cases step_outcome created with
      | created _ conn => exact conn
    rw [conns.live_iff, none] at live
    cases live
  · intro here b inside
    have empty : s.inHand = none := inHand_between (here ▸ trivial)
    simpa [empty] using bufs.custody.back_made b inside

/-- A connection is refused, and so is the first `netconn_delete`; the netconn is asked
    for data and deleted after that. With the next one a netbuf goes through. -/
theorem ethTask_gives_back_two : ∃ (as : List Act) (s : World),
    Runs World.step anyStep World.init as s ∧ .deleteConn false ∈ as ∧
      s.netconns.length = 2 ∧ (∀ c, s.Live c ↔ c = 1) ∧ s.netbufs.length = 1 ∧
      deletes as 0 = 1 := by
  have exhibited : ∃ s : World, Runs World.step anyStep World.init
      [.newConn true, .connect .rst, .deleteConn false, .checkState, .recvErr, .deleteConn true,
        .newConn false, .connect .arg, .deleteConn true, .newConn true, .connect .ok, .keepAlive,
        .recvOk [[1, 2]], .data, .deleteBuf, .write, .checkState] s ∧
      s.pc = .recv ∧ s.conn = some 1 ∧ s.netconns.length = 2 ∧ s.netbufs.length = 1 :=
    exists_run (by decide)
  obtain ⟨s, run, here, conn, made, received⟩ := exhibited
  obtain ⟨live, -, -, -, deleted⟩ := ethTask_gives_back run
  refine ⟨_, s, run, by simp, made, ?_, received, deleted here 0 (by omega)⟩
  intro c
  rw [live, conn, Option.some.injEq, eq_comm]

end ExploreF407.App
