import ExploreF407.App.EthTask

/-! # What the network task may still use

The task uses its netconn only while it is alive. It does not make sure of the pcb
before it sets the keep-alive option, and it writes a payload back after it has
deleted the netbuf the payload belongs to.
-/

namespace ExploreF407.App

open Lwip Machine

/-- The netconn in `conn` has not been freed, and no freed one has been used. -/
structure Owns (conn : Option Nat) (netconns : List Netconn) (deadConn : Bool) : Prop where
  live : ∀ c, conn = some c → ∃ n, netconns[c]? = some n ∧ n.freed = false
  unused : deadConn = false

namespace World

/-- No NULL pcb has been followed, no payload of a deleted netbuf has been passed on,
    and no freed netconn has been used. -/
def Safe (s : World) : Prop := s.nullPcb = false ∧ s.deadPayload = false ∧ s.deadConn = false

/-- No reset comes in between the connection and the keep-alive option, and nothing
    is received. -/
def Spared (s : World) : Act → Prop
  | .errTcp => s.pc ≠ .keepAlive
  | .recvOk _ => False
  | _ => True

instance (s : World) (a : Act) : Decidable (s.Spared a) :=
  match a with
  | .errTcp => inferInstanceAs (Decidable (_ ≠ _))
  | .recvOk _ => .isFalse not_false
  | .newConn _ | .checkState | .connect _ | .keepAlive | .recvErr | .data | .deleteBuf | .write
  | .deleteConn _ | .setState _ | .reuse .. => .isTrue trivial

def ByTask (_ : World) : Act → Prop
  | .errTcp | .setState _ | .reuse .. => False
  | _ => True

structure Sound (s : World) : Prop where
  owns : Owns s.conn s.netconns s.deadConn
  connected : s.pc = .keepAlive → ∃ c n, s.conn = some c ∧ s.netconns[c]? = some n ∧ n.pcb = true
  idle : s.pc ≠ .data ∧ s.pc ≠ .deleteBuf ∧ s.pc ≠ .write
  pcb : s.nullPcb = false
  payload : s.deadPayload = false

theorem useConn_live {s : World} {c : Nat} (owns : Owns s.conn s.netconns s.deadConn)
    (conn : s.conn = some c) : s.useConn c = s := by
  obtain ⟨n, there, alive⟩ := owns.live c conn
  simp [useConn, there, alive]

end World

namespace Owns

variable {conn : Option Nat} {netconns : List Netconn} {deadConn : Bool}

theorem none (owns : Owns conn netconns deadConn) (netconns' : List Netconn) :
    Owns none netconns' deadConn :=
  ⟨nofun, owns.unused⟩

theorem allocated (owns : Owns conn netconns deadConn) {n : Netconn} (alive : n.freed = false) :
    Owns (some netconns.length) (netconns ++ [n]) deadConn where
  live := by
    intro c same
    cases same
    exact ⟨n, by simp, alive⟩
  unused := owns.unused

theorem modified (owns : Owns conn netconns deadConn) (c : Nat) {f : Netconn → Netconn}
    (keeps : ∀ n, (f n).freed = n.freed) : Owns conn (netconns.modify c f) deadConn where
  live := by
    intro d same
    obtain ⟨n, there, alive⟩ := owns.live d same
    rw [List.getElem?_modify, there]
    by_cases here : c = d
    · exact ⟨f n, by simp [here], by rw [keeps, alive]⟩
    · exact ⟨n, by simp [here], alive⟩
  unused := owns.unused

end Owns

namespace World.Sound

variable {s s' : World}

theorem init : World.init.Sound where
  owns := ⟨nofun, rfl⟩
  connected := nofun
  idle := ⟨by simp [World.init], by simp [World.init], by simp [World.init]⟩
  pcb := rfl
  payload := rfl

theorem safe (sound : s.Sound) : s.Safe := ⟨sound.pcb, sound.payload, sound.owns.unused⟩

/-- A step to a place where no netbuf is in hand and the pcb is not about to be used. -/
theorem goes (sound : s.Sound) {p : Pc} (place : p = .top ∨ p = .connect ∨ p = .recv ∨
    p = .deleteConn) {conn buf : Option Nat} {netconns : List Netconn}
    (owns : Owns conn netconns s.deadConn) :
    ({ s with pc := p, conn := conn, buf := buf, netconns := netconns } : World).Sound where
  owns := owns
  connected := by
    intro here
    rcases place with rfl | rfl | rfl | rfl <;> cases here
  idle := by rcases place with rfl | rfl | rfl | rfl <;> simp
  pcb := sound.pcb
  payload := sound.payload

theorem step (sound : s.Sound) {a : Act} (spared : s.Spared a) (moved : s.step a = some s') :
    s'.Sound := by
  have owns := sound.owns
  have used {c : Nat} (conn : s.conn = some c) : s.useConn c = s := useConn_live owns conn
  cases step_outcome moved with
  | @created allocated =>
      unfold World.newConn
      split
      · exact sound.goes (.inr (.inl rfl)) (owns.allocated rfl)
      · exact sound.goes (.inr (.inl rfl)) (owns.none _)
  | closed _ conn | refused _ conn | notReceived _ conn =>
      rw [used conn]
      exact sound.goes (.inr (.inr (.inr rfl))) owns
  | checked _ conn =>
      rw [used conn]
      exact sound.goes (.inr (.inr (.inl rfl))) owns
  | noNetconn => exact sound.goes (.inr (.inr (.inr rfl))) owns
  | @connected c _ _ conn pcb =>
      rw [used conn]
      obtain ⟨n, there, set⟩ := Option.map_eq_some_iff.mp pcb
      exact ⟨owns, fun _ => ⟨c, n, conn, there, set⟩, by simp, sound.pcb, sound.payload⟩
  | @keptAlive c here conn =>
      obtain ⟨c', n, same, there, set⟩ := sound.connected here
      rw [conn, Option.some.injEq] at same
      subst same
      simp only [World.keepAlive, there, set, if_true, used conn]
      exact sound.goes (.inr (.inr (.inl rfl))) (owns.modified c fun _ => rfl)
  | received => exact spared.elim
  | data here | noData here => exact absurd here sound.idle.1
  | deletedBuf here => exact absurd here sound.idle.2.1
  | written here => exact absurd here sound.idle.2.2
  | deletedNull => exact sound.goes (.inl rfl) owns
  | deletedConn _ conn =>
      rw [used conn]
      exact sound.goes (.inl rfl) (owns.none _)
  | keptConn _ conn =>
      rw [used conn]
      exact sound.goes (.inl rfl) owns
  | errTcp =>
      exact ⟨owns.modified _ fun _ => rfl, fun here => absurd here spared, sound.idle, sound.pcb,
        sound.payload⟩
  | @setState c state conn =>
      refine ⟨owns.modified c fun _ => rfl, ?_, sound.idle, sound.pcb, sound.payload⟩
      intro here
      obtain ⟨c', n, same, there, set⟩ := sound.connected here
      refine ⟨c', { n with state := if c = c' then state else n.state }, same, ?_, set⟩
      simp only [World.setConn, List.getElem?_modify, there]
      by_cases at' : c = c' <;> simp [at']
  | reused => exact ⟨owns, sound.connected, sound.idle, sound.pcb, sound.payload⟩

end World.Sound

/-! ## What happens otherwise -/

namespace World

theorem keepAlive_null {u : World} {c : Nat} {n : Netconn} (here : u.pc = .keepAlive)
    (conn : u.conn = some c) (there : u.netconns[c]? = some n) (unset : n.pcb = false) :
    ∃ t, u.step .keepAlive = some t ∧ t.nullPcb = true := by
  simp [World.step, here, conn, World.keepAlive, there, unset]

/-- A reset before the keep-alive option: the next step follows the NULL pcb. -/
theorem Sound.resets {s s' : World} (sound : s.Sound) (here : s.pc = .keepAlive)
    (moved : s.step .errTcp = some s') :
    ∃ bs t, Runs World.step ByTask s' bs t ∧ ¬ t.Safe := by
  obtain ⟨c, n, conn, there, -⟩ := sound.connected here
  simp only [World.step, conn] at moved
  cases moved
  obtain ⟨t, follows, null⟩ := keepAlive_null (u := s.setConn c fun n =>
    { n with pcb := false, state := .none }) here conn
    (n := { n with pcb := false, state := .none })
    (by simp [World.setConn, there]) rfl
  refine ⟨[.keepAlive], t, Runs.one trivial follows, ?_⟩
  intro safe
  rw [safe.1] at null
  cases null

/-- A netbuf in hand: three steps later its payload is passed on, and it is gone. -/
theorem data_write {u : World} {c b : Nat} (q : List UInt8) (rest : List (List UInt8))
    (here : u.pc = .data) (conn : u.conn = some c) (buf : u.buf = some b)
    (there : u.netbufs[b]? = some { deleted := false, p := q :: rest, ptr := 0 }) :
    ∃ t, Runs World.step ByTask u [.data, .deleteBuf, .write] t ∧ t.deadPayload = true := by
  have one : u.step .data = some { u with
      pc := .deleteBuf
      dataPtr := some { netbuf := b, pbuf := 0 }
      dataLen := q.length } := by
    simp [World.step, here, buf, there, netbufData]
  have two : ({ u with
      pc := .deleteBuf
      dataPtr := some { netbuf := b, pbuf := 0 }
      dataLen := q.length } : World).step .deleteBuf = some { u with
      pc := .write
      dataPtr := some { netbuf := b, pbuf := 0 }
      dataLen := q.length
      netbufs := u.netbufs.modify b fun buf => { buf with deleted := true } } := by
    simp [World.step, buf]
  have three : ∃ t, ({ u with
      pc := .write
      dataPtr := some { netbuf := b, pbuf := 0 }
      dataLen := q.length
      netbufs := u.netbufs.modify b fun buf => { buf with deleted := true } } : World).step
        .write = some t ∧ t.deadPayload = true := by
    simp [World.step, conn, World.write, there]
  obtain ⟨t, written, dead⟩ := three
  have first : Runs World.step ByTask u [.data] _ :=
    Runs.one (show ByTask u .data from trivial) one
  have second := first.next (show ByTask _ .deleteBuf from trivial) two
  exact ⟨t, second.next (show ByTask _ .write from trivial) written, dead⟩

theorem Sound.receives {s s' : World} (sound : s.Sound) {chain : List (List UInt8)}
    (moved : s.step (.recvOk chain) = some s') :
    ∃ bs t, Runs World.step ByTask s' bs t ∧ ¬ t.Safe := by
  simp only [World.step] at moved
  split at moved
  · rename_i c here conn
    rw [useConn_live sound.owns conn] at moved
    cases chain with
    | nil => simp at moved
    | cons q rest =>
        simp only [reduceCtorEq, if_false] at moved
        cases moved
        obtain ⟨t, run, dead⟩ := data_write q rest (u := { s with
          pc := .data
          buf := some s.netbufs.length
          netbufs := s.netbufs ++ [{ deleted := false, p := q :: rest, ptr := 0 }]
          received := s.received ++ [q :: rest] }) rfl conn rfl (by simp)
        refine ⟨_, t, run, ?_⟩
        intro safe
        rw [safe.2.1] at dead
        cases dead
  · cases moved

theorem Sound.otherwise {s s' : World} (sound : s.Sound) {a : Act} (unspared : ¬ s.Spared a)
    (moved : s.step a = some s') : ∃ bs t, Runs World.step ByTask s' bs t ∧ ¬ t.Safe := by
  cases a with
  | errTcp =>
      have here : s.pc = .keepAlive := by simpa [Spared] using unspared
      exact sound.resets here moved
  | recvOk chain => exact sound.receives moved
  | newConn | checkState | connect | keepAlive | recvErr | data | deleteBuf | write | deleteConn
  | setState | reuse => exact absurd trivial unspared

end World

/-- No dead object is used in a run in which no reset is processed between a
    connection and its keep-alive option, and nothing is received. Where that fails
    the task, left to itself, uses one. -/
theorem no_dead_object_while_spared {as : List Act} {s : World}
    (run : Runs World.step World.Spared World.init as s) :
    s.Safe ∧ ∀ a s', ¬ s.Spared a → s.step a = some s' →
      ∃ bs t, Runs World.step World.ByTask s' bs t ∧ ¬ t.Safe := by
  have sound : s.Sound := by
    apply run.invariant World.Sound.init
    intro t a u before spared moved
    exact before.step spared moved
  refine ⟨sound.safe, ?_⟩
  intro a s' unspared moved
  exact sound.otherwise unspared moved

/-- A netconn is connected, given up after an error, and deleted. The next one is
    connected and receives one byte. -/
theorem no_dead_object_while_spared_one :
    ∃ s s' t : World,
      Runs World.step World.Spared World.init
        [.newConn true, .connect .ok, .keepAlive, .errTcp, .recvErr, .deleteConn true,
          .newConn true, .connect .ok, .keepAlive] s ∧
      s.Safe ∧ s.step (.recvOk [[1]]) = some s' ∧
      (∃ bs, Runs World.step World.ByTask s' bs t) ∧ ¬ t.Safe := by
  have exhibited : ∃ s : World,
      Runs World.step World.Spared World.init
        [.newConn true, .connect .ok, .keepAlive, .errTcp, .recvErr, .deleteConn true,
          .newConn true, .connect .ok, .keepAlive] s ∧
      (s.step (.recvOk [[1]])).isSome = true := exists_run (by decide)
  obtain ⟨s, run, moves⟩ := exhibited
  obtain ⟨s', moved⟩ := Option.isSome_iff_exists.mp moves
  obtain ⟨safe, otherwise⟩ := no_dead_object_while_spared run
  obtain ⟨bs, t, alone, harmed⟩ := otherwise (.recvOk [[1]]) s' (fun spared => spared) moved
  exact ⟨s, s', t, run, safe, moved, ⟨bs, alone⟩, harmed⟩

/-- A reset that is processed just after the connection leaves a NULL pcb to follow. -/
theorem dead_object_used :
    ¬ ∀ (as : List Act) (s : World), Runs World.step anyStep World.init as s → s.Safe := by
  intro always
  have exhibited : ∃ s : World,
      Runs World.step anyStep World.init [.newConn true, .connect .ok, .errTcp, .keepAlive] s ∧
      s.nullPcb = true := exists_run (by decide)
  obtain ⟨s, run, null⟩ := exhibited
  have safe := always _ s run
  rw [safe.1] at null
  cases null

end ExploreF407.App
