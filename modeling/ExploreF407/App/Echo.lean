import ExploreF407.App.EthTask
import ExploreF407.Lib.Framing

/-! # What the network task sends back

`netbuf_data` hands out the first pbuf of a chain only, and the task does not go on to
the next. What is sent is what the memory of that pbuf shows after the netbuf has been
deleted.
-/

namespace ExploreF407.App

open Lwip Machine

def Pc.Between : Pc → Prop
  | .data | .deleteBuf | .write => False
  | _ => True

instance (p : Pc) : Decidable p.Between :=
  match p with
  | .data | .deleteBuf | .write => .isFalse not_false
  | .top | .connect | .keepAlive | .recv | .deleteConn => .isTrue trivial

/-! ## What comes from outside -/

def chains (as : List Act) : List (List (List UInt8)) :=
  as.filterMap fun
    | .recvOk chain => some chain
    | _ => none

/-- What the next owners of the memory write over the first pbuf of the netbuf `b`. -/
def overwrites (b : Nat) (as : List Act) : List (List UInt8) :=
  as.filterMap fun
    | .reuse b' 0 bytes => if b' = b then some bytes else none
    | _ => none

/-- A chain has its bytes in the first pbuf. When `netconn_write` is called, the first pbuf
    received last has not been overwritten, or with its own bytes in the end. -/
def Allows (before : List Act) : Act → Prop
  | .recvOk chain => chain.tail.flatten = []
  | .write => ∀ bytes ∈ (overwrites ((chains before).length - 1) before).getLast?,
      bytes = ((chains before).getLastD []).headD []
  | _ => True

instance (before : List Act) (a : Act) : Decidable (Allows before a) :=
  match a with
  | .recvOk _ => inferInstanceAs (Decidable (_ = _))
  | .write => Option.decidableForallMem (p := fun bytes => bytes = _) _
  | .newConn _ | .checkState | .connect _ | .keepAlive | .recvErr | .data | .deleteBuf
  | .deleteConn _ | .errTcp | .setState _ | .reuse .. => .isTrue trivial

/-- What comes from outside is such that all of it can be echoed. -/
def Intact (as : List Act) : Prop :=
  ∀ n (inside : n < as.length), Allows (as.take n) as[n]

theorem intact_snoc {as : List Act} {a : Act} :
    Intact (as ++ [a]) ↔ Intact as ∧ Allows as a := by
  constructor
  · intro all
    refine ⟨fun n inside => ?_, ?_⟩
    · have here := all n (by simp; omega)
      rwa [List.take_append_of_le_length inside.le, List.getElem_append_left inside] at here
    · simpa using all as.length (by simp)
  · rintro ⟨before, last⟩ n inside
    rcases Nat.lt_or_ge n as.length with earlier | reached
    · rw [List.take_append_of_le_length earlier.le, List.getElem_append_left earlier]
      exact before n earlier
    · obtain rfl : n = as.length := by
        rw [List.length_append, List.length_singleton] at inside
        omega
      simpa using last

/-- The acts that concern neither the received data nor their memory. -/
def Act.Quiet : Act → Prop
  | .recvOk _ | .write | .reuse .. => False
  | _ => True

theorem Act.Quiet.allows {as : List Act} {a : Act} (quiet : a.Quiet) : Allows as a := by
  cases a with
  | recvOk | write | reuse => exact quiet.elim
  | _ => trivial

theorem Act.Quiet.chains {as : List Act} {a : Act} (quiet : a.Quiet) :
    chains (as ++ [a]) = App.chains as := by
  cases a with
  | recvOk | write | reuse => exact quiet.elim
  | _ => simp [App.chains]

theorem Act.Quiet.overwrites {as : List Act} {a : Act} (quiet : a.Quiet) (b : Nat) :
    overwrites b (as ++ [a]) = App.overwrites b as := by
  cases a with
  | recvOk | write | reuse => exact quiet.elim
  | _ => simp [App.overwrites]

@[simp] theorem chains_recvOk (as : List Act) (chain : List (List UInt8)) :
    chains (as ++ [.recvOk chain]) = chains as ++ [chain] := by
  simp [chains]

@[simp] theorem chains_write (as : List Act) : chains (as ++ [.write]) = chains as := by
  simp [chains]

@[simp] theorem chains_reuse (as : List Act) (b i : Nat) (bytes : List UInt8) :
    chains (as ++ [.reuse b i bytes]) = chains as := by
  simp [chains]

@[simp] theorem overwrites_recvOk (b : Nat) (as : List Act) (chain : List (List UInt8)) :
    overwrites b (as ++ [.recvOk chain]) = overwrites b as := by
  simp [overwrites]

@[simp] theorem overwrites_write (b : Nat) (as : List Act) :
    overwrites b (as ++ [.write]) = overwrites b as := by
  simp [overwrites]

theorem overwrites_first (b : Nat) (as : List Act) (bytes : List UInt8) :
    overwrites b (as ++ [.reuse b 0 bytes]) = overwrites b as ++ [bytes] := by
  simp [overwrites]

theorem overwrites_other {b b' i : Nat} (as : List Act) (bytes : List UInt8)
    (other : b' ≠ b ∨ i ≠ 0) : overwrites b (as ++ [.reuse b' i bytes]) = overwrites b as := by
  cases i with
  | zero => simp [overwrites, other.resolve_right (· rfl)]
  | succ i => simp [overwrites]

namespace World

/-- The bytes behind `data`, up to `data_len`. -/
def behind (s : World) : List UInt8 :=
  match s.dataPtr with
  | none => []
  | some ptr => match s.netbufs[ptr.netbuf]? with
      | none => []
      | some buf => ((buf.p[ptr.pbuf]?).getD []).take s.dataLen

/-! ## What a step does to the data -/

theorem useConn_eq (s : World) (c : Nat) : ∃ dead, s.useConn c = { s with deadConn := dead } := by
  unfold useConn
  split
  · exact ⟨_, rfl⟩
  · exact ⟨_, rfl⟩

theorem keepAlive_eq (s : World) (c : Nat) : ∃ netconns null dead, s.keepAlive c =
    { s with netconns := netconns, nullPcb := null, deadConn := dead } := by
  obtain ⟨dead, used⟩ := s.useConn_eq c
  unfold keepAlive
  rw [used]
  split
  · split
    · exact ⟨_, s.nullPcb, dead, rfl⟩
    · exact ⟨s.netconns, true, dead, rfl⟩
  · exact ⟨s.netconns, s.nullPcb, dead, rfl⟩

theorem newConn_eq (s : World) (allocated : Bool) : ∃ conn netconns, s.newConn allocated =
    { s with pc := .connect, conn := conn, netconns := netconns } := by
  unfold newConn
  split
  · exact ⟨_, _, rfl⟩
  · exact ⟨none, s.netconns, rfl⟩

theorem write_eq {s : World} {c : Nat} {ptr : Payload} {buf : Netbuf} (data : s.dataPtr = some ptr)
    (there : s.netbufs[ptr.netbuf]? = some buf) : ∃ payload dead, s.write c = { s with
      deadConn := dead
      deadPayload := payload
      written := s.written ++ [s.behind]
      rounds := s.rounds ++ [{ chain := s.received.getLastD [], read := s.behind }] } := by
  obtain ⟨dead, used⟩ := s.useConn_eq c
  refine ⟨s.deadPayload || buf.deleted, dead, ?_⟩
  simp only [write, behind, data, there, used]

/-- The steps of the machine, as far as they concern the netbufs. -/
inductive Moves (s : World) : Act → World → Prop where
  | outside {a netconns} (quiet : a.Quiet) :
      Moves s a { s with netconns := netconns }
  | between {a p conn buf netconns null dead} (quiet : a.Quiet) (place : s.pc.Between)
      (goes : p.Between) :
      Moves s a { s with
        pc := p, conn := conn, buf := buf, netconns := netconns, nullPcb := null, deadConn := dead }
  | received {q rest dead} (place : s.pc.Between) :
      Moves s (.recvOk (q :: rest)) { s with
        pc := .data
        deadConn := dead
        buf := some s.netbufs.length
        netbufs := s.netbufs ++ [{ deleted := false, p := q :: rest, ptr := 0 }]
        received := s.received ++ [q :: rest] }
  | data {b buf pbuf len} (place : s.pc = .data) (held : s.buf = some b)
      (there : s.netbufs[b]? = some buf) (got : netbufData buf = .ok (pbuf, len)) :
      Moves s .data { s with
        pc := .deleteBuf, dataPtr := some { netbuf := b, pbuf := pbuf }, dataLen := len }
  | noData {b buf e} (place : s.pc = .data) (held : s.buf = some b)
      (there : s.netbufs[b]? = some buf) (failed : netbufData buf = .error e) :
      Moves s .data { s with pc := .top }
  | deleted {b} (place : s.pc = .deleteBuf) (held : s.buf = some b) :
      Moves s .deleteBuf { s with
        pc := .write
        netbufs := s.netbufs.modify b fun buf => { buf with deleted := true } }
  | written {c} (place : s.pc = .write) : Moves s .write { s.write c with pc := .top }
  | reused {b i bytes buf} (there : s.netbufs[b]? = some buf) (deleted : buf.deleted = true)
      (fits : (buf.p[i]?).map List.length = some bytes.length) :
      Moves s (.reuse b i bytes) { s with
        netbufs := s.netbufs.modify b fun buf => { buf with p := buf.p.set i bytes } }

theorem step_moves {s s' : World} {a : Act} (moved : s.step a = some s') : s.Moves a s' := by
  have used := s.useConn_eq
  cases step_outcome moved with
  | @created allocated here conn =>
      obtain ⟨conn, netconns, same⟩ := s.newConn_eq allocated
      rw [same]
      exact .between trivial (here ▸ trivial) trivial
  | @closed c here | @checked c here | @refused c _ here | @connected c _ here
  | @notReceived c here | @keptConn c here =>
      obtain ⟨dead, same⟩ := used c
      rw [same]
      exact .between trivial (here ▸ trivial) trivial
  | @deletedConn c here =>
      obtain ⟨dead, same⟩ := used c
      rw [same]
      exact .between trivial (here ▸ trivial) trivial
  | noNetconn here | deletedNull here => exact .between trivial (here ▸ trivial) trivial
  | @keptAlive c here =>
      obtain ⟨netconns, null, dead, same⟩ := s.keepAlive_eq c
      rw [same]
      exact .between trivial (here ▸ trivial) trivial
  | @received c q rest here =>
      obtain ⟨dead, same⟩ := used c
      rw [same]
      exact .received (here ▸ trivial)
  | data here held there got => exact .data here held there got
  | noData here held there failed => exact .noData here held there failed
  | deletedBuf here held => exact .deleted here held
  | written here => exact .written here
  | errTcp => exact .outside trivial
  | setState => exact .outside trivial
  | reused there deleted fits => exact .reused there deleted fits

/-! ## The netbuf in hand -/

/-- Where the chain that is not yet written back is, and what is known of it. -/
inductive Hand (as : List Act) (s : World) : Prop where
  | none (place : s.pc.Between) (all : s.received = s.rounds.map Round.chain)
  | received {q rest b} (place : s.pc = .data)
      (all : s.received = s.rounds.map Round.chain ++ [q :: rest]) (held : s.buf = some b)
      (there : s.netbufs[b]? = some { deleted := false, p := q :: rest, ptr := 0 })
      (last : b + 1 = s.netbufs.length)
  | shown {q rest b} (place : s.pc = .deleteBuf)
      (all : s.received = s.rounds.map Round.chain ++ [q :: rest]) (held : s.buf = some b)
      (there : s.netbufs[b]? = some { deleted := false, p := q :: rest, ptr := 0 })
      (last : b + 1 = s.netbufs.length)
      (data : s.dataPtr = some { netbuf := b, pbuf := 0 }) (len : s.dataLen = q.length)
  -- Whoever owns the memory now may have changed it.
  | deleted {q rest b q' rest'} (place : s.pc = .write)
      (all : s.received = s.rounds.map Round.chain ++ [q :: rest])
      (there : s.netbufs[b]? = some { deleted := true, p := q' :: rest', ptr := 0 })
      (last : b + 1 = s.netbufs.length) (shows : q' = (overwrites b as).getLastD q)
      (data : s.dataPtr = some { netbuf := b, pbuf := 0 }) (len : s.dataLen = q.length)
      (same : q'.length = q.length)

/-- What is known behind the acts `as`. -/
structure Carries (as : List Act) (s : World) : Prop where
  hand : s.Hand as
  taken : s.received = chains as
  each : s.netbufs.length = s.received.length
  -- Memory is given to others only when its netbuf has been deleted.
  gone : ∀ b, overwrites b as ≠ [] → ∃ buf, s.netbufs[b]? = some buf ∧ buf.deleted = true
  wrote : s.written = s.rounds.map Round.read
  sized : ∀ r ∈ s.rounds, r.read.length = (r.chain.headD []).length

/-- Every chain had its bytes in the first pbuf, and was shown so when it was written. -/
def Whole (s : World) : Prop :=
  (∀ chain ∈ s.received, chain.tail.flatten = []) ∧
    ∀ r ∈ s.rounds, r.read = r.chain.headD []

namespace Carries

variable {as : List Act} {s s' : World}

theorem init : World.init.Carries [] where
  hand := .none trivial rfl
  taken := rfl
  each := rfl
  gone := by simp [overwrites]
  wrote := rfl
  sized := by simp [World.init]

theorem untouched (carries : s.Carries as) {b : Nat} {buf : Netbuf}
    (there : s.netbufs[b]? = some buf) (live : buf.deleted = false) : overwrites b as = [] := by
  by_contra touched
  obtain ⟨buf', there', gone⟩ := carries.gone b touched
  rw [there, Option.some.injEq] at there'
  simp [there', gone] at live

theorem quiets (carries : s.Carries as) {a : Act} (quiet : a.Quiet) (hand : s'.Hand as)
    (received : s'.received = s.received) (rounds : s'.rounds = s.rounds)
    (written : s'.written = s.written) (count : s'.netbufs.length = s.netbufs.length)
    (kept : ∀ (b : Nat) (buf : Netbuf), s.netbufs[b]? = some buf → buf.deleted = true →
      ∃ buf', s'.netbufs[b]? = some buf' ∧ buf'.deleted = true) : s'.Carries (as ++ [a]) where
  hand := by
    cases hand with
    | none place all => exact .none place all
    | received place all held there last => exact .received place all held there last
    | shown place all held there last data len => exact .shown place all held there last data len
    | deleted place all there last shows data len same =>
        rw [← quiet.overwrites] at shows
        exact .deleted place all there last shows data len same
  taken := by rw [received, quiet.chains, carries.taken]
  each := by rw [count, received, carries.each]
  gone := by
    intro b touched
    rw [quiet.overwrites] at touched
    obtain ⟨buf, there, gone⟩ := carries.gone b touched
    exact kept b buf there gone
  wrote := by rw [written, rounds, carries.wrote]
  sized := by rw [rounds]; exact carries.sized

theorem at_data (carries : s.Carries as) {b : Nat} {buf : Netbuf} (place : s.pc = .data)
    (held : s.buf = some b) (there : s.netbufs[b]? = some buf) :
    ∃ q rest, buf = { deleted := false, p := q :: rest, ptr := 0 } ∧
      b + 1 = s.netbufs.length ∧ s.received = s.rounds.map Round.chain ++ [q :: rest] := by
  cases carries.hand with
  | none place' => simp [place, Pc.Between] at place'
  | shown place' => simp [place] at place'
  | deleted place' => simp [place] at place'
  | @received q rest b' place' all held' there' last =>
      obtain rfl := Option.some.inj (held.symm.trans held')
      exact ⟨q, rest, Option.some.inj (there.symm.trans there'), last, all⟩

theorem receives (carries : s.Carries as) {q : List UInt8} {rest : List (List UInt8)} {dead : Bool}
    (place : s.pc.Between) : ({ s with
      pc := .data
      deadConn := dead
      buf := some s.netbufs.length
      netbufs := s.netbufs ++ [{ deleted := false, p := q :: rest, ptr := 0 }]
      received := s.received ++ [q :: rest] } : World).Carries (as ++ [.recvOk (q :: rest)]) where
  hand := by
    cases carries.hand with
    | none place all =>
        have last : s.received ++ [q :: rest] = s.rounds.map Round.chain ++ [q :: rest] := by
          rw [all]
        exact .received rfl last rfl (by simp) (by simp)
    | received place' => simp [place', Pc.Between] at place
    | shown place' => simp [place', Pc.Between] at place
    | deleted place' => simp [place', Pc.Between] at place
  taken := by simp [carries.taken]
  each := by simp [carries.each]
  gone := by
    intro b touched
    rw [overwrites_recvOk] at touched
    obtain ⟨buf, there, gone⟩ := carries.gone b touched
    have inside : b < s.netbufs.length := (List.getElem?_eq_some_iff.mp there).1
    exact ⟨buf, by rw [List.getElem?_append_left inside, there], gone⟩
  wrote := carries.wrote
  sized := carries.sized

theorem deletes (carries : s.Carries as) {b : Nat} (place : s.pc = .deleteBuf)
    (held : s.buf = some b) : ({ s with
      pc := .write
      netbufs := s.netbufs.modify b fun buf => { buf with deleted := true } } :
        World).Carries (as ++ [.deleteBuf]) := by
  have quiet : Act.Quiet .deleteBuf := trivial
  refine carries.quiets quiet ?_ rfl rfl rfl (by simp) ?_
  · cases carries.hand with
    | none place' => simp [place, Pc.Between] at place'
    | received place' => simp [place] at place'
    | deleted place' => simp [place] at place'
    | @shown q rest b' _ all held' there last data len =>
        obtain rfl : b = b' := by simpa [held] using held'
        have none : overwrites b as = [] := carries.untouched there rfl
        have gone : (s.netbufs.modify b fun buf => { buf with deleted := true })[b]? =
            some { deleted := true, p := q :: rest, ptr := 0 } := by
          simp [there]
        exact .deleted rfl all gone (by simpa using last) (by simp [none]) data len rfl
  · intro b' buf there gone
    refine ⟨if b = b' then { buf with deleted := true } else buf, ?_, ?_⟩
    · rw [List.getElem?_modify, there]
      split <;> rfl
    · split
      · rfl
      · exact gone

/-- The hand is what it was when the memory of another netbuf, or of a pbuf behind the
    first, is overwritten; else the first pbuf shows the new bytes. -/
theorem reuses (carries : s.Carries as) {b i : Nat} {bytes : List UInt8} {buf : Netbuf}
    (there : s.netbufs[b]? = some buf) (gone : buf.deleted = true)
    (fits : (buf.p[i]?).map List.length = some bytes.length) : ({ s with
      netbufs := s.netbufs.modify b fun buf => { buf with p := buf.p.set i bytes } } :
        World).Carries (as ++ [.reuse b i bytes]) where
  hand := by
    have live : ∀ {b' p}, s.netbufs[b']? = some { deleted := false, p := p, ptr := 0 } →
        b ≠ b' := by
      rintro b' p there' rfl
      rw [there, Option.some.injEq] at there'
      simp [there'] at gone
    cases carries.hand with
    | none place all => exact .none place all
    | received place all held there' last =>
        exact .received place all held (by simp [live there', there']) (by simpa using last)
    | shown place all held there' last data len =>
        exact .shown place all held (by simp [live there', there']) (by simpa using last) data len
    | @deleted q rest b' q' rest' place all there' last shows data len same =>
        have last' : b' + 1 = (s.netbufs.modify b fun buf =>
            { buf with p := buf.p.set i bytes }).length := by
          simpa using last
        by_cases at' : b = b'
        · subst at'
          rw [there, Option.some.injEq] at there'
          subst there'
          cases i with
          | zero =>
              have here : (s.netbufs.modify b fun buf => { buf with p := buf.p.set 0 bytes })[b]? =
                  some { deleted := true, p := bytes :: rest', ptr := 0 } := by
                simp [there]
              exact .deleted place all here last' (by simp [overwrites_first]) data len
                (by simpa [← same] using fits.symm)
          | succ i =>
              have here : (s.netbufs.modify b fun buf =>
                  { buf with p := buf.p.set (i + 1) bytes })[b]? =
                  some { deleted := true, p := q' :: rest'.set i bytes, ptr := 0 } := by
                simp [there]
              rw [← overwrites_other as bytes (.inr i.succ_ne_zero)] at shows
              exact .deleted place all here last' shows data len same
        · have here : (s.netbufs.modify b fun buf => { buf with p := buf.p.set i bytes })[b']? =
              some { deleted := true, p := q' :: rest', ptr := 0 } := by
            simp [at', there']
          rw [← overwrites_other as bytes (.inl at')] at shows
          exact .deleted place all here last' shows data len same
  taken := by simp [carries.taken]
  each := by simp [carries.each]
  gone := by
    intro b' touched
    by_cases at' : b = b'
    · subst at'
      exact ⟨{ buf with p := buf.p.set i bytes }, by simp [there], gone⟩
    · rw [overwrites_other as bytes (.inl at')] at touched
      obtain ⟨buf', there', gone'⟩ := carries.gone b' touched
      exact ⟨buf', by simp [at', there'], gone'⟩
  wrote := carries.wrote
  sized := carries.sized

/-- The write hands over as many bytes as the first pbuf had, and these bytes iff the
    memory has not been left with others. -/
theorem writes (carries : s.Carries as) (place : s.pc = .write) :
    ∃ q rest, s.received = s.rounds.map Round.chain ++ [q :: rest] ∧
      s.behind.length = q.length ∧ (s.behind = q ↔ Allows as .write) ∧
      ∀ c, ∃ payload dead, s.write c = { s with
        deadConn := dead
        deadPayload := payload
        written := s.written ++ [s.behind]
        rounds := s.rounds ++ [{ chain := q :: rest, read := s.behind }] } := by
  cases carries.hand with
  | none place' => simp [place, Pc.Between] at place'
  | received place' => simp [place] at place'
  | shown place' => simp [place] at place'
  | @deleted q rest b q' rest' _ all there last shows data len same =>
      have reads : s.behind = q' := by
        simp [behind, data, there, len, ← same]
      have at' : (chains as).length - 1 = b := by
        rw [← carries.taken, ← carries.each]
        omega
      have first : ((chains as).getLastD []).headD [] = q := by simp [← carries.taken, all]
      refine ⟨q, rest, all, by rw [reads, same], ?_, ?_⟩
      · rw [reads, shows, Allows, at', first, List.getLastD_eq_getLast?]
        cases (overwrites b as).getLast? <;> simp
      · intro c
        have newest : s.received.getLastD [] = q :: rest := by simp [all]
        rw [← newest]
        exact write_eq data there

theorem step (carries : s.Carries as) {a : Act} (moved : s.step a = some s') :
    s'.Carries (as ++ [a]) ∧ (s'.Whole ↔ s.Whole ∧ Allows as a) := by
  have kept {P : Prop} (allows : Allows as a) : P ↔ P ∧ Allows as a :=
    (and_iff_left allows).symm
  have stays : ∀ (b : Nat) (buf : Netbuf), s.netbufs[b]? = some buf → buf.deleted = true →
      ∃ buf', s.netbufs[b]? = some buf' ∧ buf'.deleted = true :=
    fun b buf there gone => ⟨buf, there, gone⟩
  cases step_moves moved with
  | outside quiet =>
      refine ⟨carries.quiets quiet ?_ rfl rfl rfl rfl stays, kept quiet.allows⟩
      cases carries.hand with
      | none place all => exact .none place all
      | received place all held there last => exact .received place all held there last
      | shown place all held there last data len =>
          exact .shown place all held there last data len
      | deleted place all there last shows data len same =>
          exact .deleted place all there last shows data len same
  | between quiet place goes =>
      refine ⟨carries.quiets quiet ?_ rfl rfl rfl rfl stays, kept quiet.allows⟩
      cases carries.hand with
      | none place all => exact .none goes all
      | received place' => simp [place', Pc.Between] at place
      | shown place' => simp [place', Pc.Between] at place
      | deleted place' => simp [place', Pc.Between] at place
  | @received q rest dead place =>
      refine ⟨carries.receives place, ?_⟩
      simp only [Whole, Allows, List.mem_append, List.mem_singleton, or_imp, forall_and,
        forall_eq]
      tauto
  | data place held there got =>
      obtain ⟨q, rest, rfl, last, all⟩ := carries.at_data place held there
      cases got
      exact ⟨carries.quiets trivial (.shown rfl all held there last rfl rfl) rfl rfl rfl rfl stays,
        kept trivial⟩
  | noData place held there failed =>
      obtain ⟨q, rest, rfl, -⟩ := carries.at_data place held there
      cases failed
  | deleted place held => exact ⟨carries.deletes place held, kept trivial⟩
  | reused there gone fits => exact ⟨carries.reuses there gone fits, kept trivial⟩
  | @written c place =>
      obtain ⟨q, rest, all, sized, shows, writes⟩ := carries.writes place
      obtain ⟨payload, dead, same⟩ := writes c
      rw [same, ← shows]
      refine ⟨⟨.none trivial (by simp [all]), by simp [carries.taken], carries.each, ?_,
        by simp [carries.wrote], ?_⟩, ?_⟩
      · intro b touched
        rw [overwrites_write] at touched
        exact carries.gone b touched
      · intro r member
        rcases List.mem_append.mp member with member | member
        · exact carries.sized r member
        · obtain rfl := List.mem_singleton.mp member
          exact sized
      · simp only [Whole, List.headD_cons, List.mem_append, List.mem_singleton, or_imp, forall_and,
          forall_eq]
        tauto

theorem run (moved : Runs World.step anyStep World.init as s) :
    s.Carries as ∧ (s.Whole ↔ Intact as) := by
  induction moved with
  | start => exact ⟨init, by simp [Whole, World.init, Intact]⟩
  | next _ _ moved ih =>
      obtain ⟨carries, whole⟩ := ih
      obtain ⟨carries', whole'⟩ := carries.step moved
      exact ⟨carries', by rw [whole', whole, intact_snoc]⟩

/-- Between the rounds all that was received has been written iff each chain was whole. -/
theorem echoed_iff (carries : s.Carries as) (between : s.pc.Between) :
    s.written.flatten = s.received.flatten.flatten ↔ s.Whole := by
  have all : s.received = s.rounds.map Round.chain := by
    cases carries.hand with
    | none place all => exact all
    | received place => simp [place, Pc.Between] at between
    | shown place => simp [place, Pc.Between] at between
    | deleted place => simp [place, Pc.Between] at between
  have parts (r : Round) : r.chain.flatten = r.chain.headD [] ++ r.chain.tail.flatten := by
    cases r.chain <;> rfl
  have short : ∀ r ∈ s.rounds, r.read.length ≤ r.chain.flatten.length := by
    intro r member
    rw [parts, List.length_append, carries.sized r member]
    exact Nat.le_add_right ..
  have each : ∀ r ∈ s.rounds, r.read = r.chain.flatten ↔
      r.chain.tail.flatten = [] ∧ r.read = r.chain.headD [] := by
    intro r member
    have sized := carries.sized r member
    rw [parts]
    constructor
    · intro same
      have none : r.chain.tail.flatten = [] := by
        have total := congrArg List.length same
        rw [List.length_append] at total
        apply List.length_eq_zero_iff.mp
        omega
      exact ⟨none, by simpa [none] using same⟩
    · rintro ⟨none, same⟩
      rw [none, List.append_nil, same]
  calc s.written.flatten = s.received.flatten.flatten
    _ ↔ s.rounds.flatMap Round.read = s.rounds.flatMap fun r => r.chain.flatten := by
      rw [carries.wrote, all, List.flatMap_def, List.flatMap_def, List.flatten_flatten]
      simp [Function.comp_def]
    _ ↔ ∀ r ∈ s.rounds, r.read = r.chain.flatten := Framing.flatMap_eq_iff short
    _ ↔ ∀ r ∈ s.rounds, r.chain.tail.flatten = [] ∧ r.read = r.chain.headD [] :=
      forall₂_congr each
    _ ↔ s.Whole := by simp [Whole, all, forall_and]

end Carries

end World

/-- All bytes received have been written back, in order, iff every netbuf came with its
    bytes in the first pbuf and nobody had left others in that memory by the time of
    `netconn_write`. -/
theorem echoed_iff_intact {as : List Act} {s : World}
    (run : Runs World.step anyStep World.init as s) (between : s.pc.Between) :
    s.written.flatten = s.received.flatten.flatten ↔ Intact as := by
  obtain ⟨carries, whole⟩ := World.Carries.run run
  exact (carries.echoed_iff between).trans whole

/-- Two netbufs of one pbuf each; the memory of the second has gone to another owner, who
    has written the same byte. -/
theorem echoed_iff_intact_two : ∃ s : World,
    s.received = [[[1, 2]], [[3]]] ∧ s.written.flatten = [1, 2, 3] := by
  have exhibited : ∃ s : World, Runs World.step anyStep World.init
      [.newConn true, .connect .ok, .keepAlive, .recvOk [[1, 2]], .data, .deleteBuf, .write,
        .checkState, .recvOk [[3]], .data, .deleteBuf, .reuse 1 0 [3], .write] s ∧
      s.pc.Between ∧ s.received = [[[1, 2]], [[3]]] := exists_run (by decide)
  obtain ⟨s, run, between, received⟩ := exhibited
  have echoed := (echoed_iff_intact run between).mpr (by unfold Intact; decide)
  exact ⟨s, received, by simpa [received] using echoed⟩

/-- Of a chain of two pbufs the second is dropped. -/
theorem second_pbuf_dropped :
    ¬ ∀ (as : List Act) (s : World), Runs World.step anyStep World.init as s → s.pc.Between →
      s.written.flatten = s.received.flatten.flatten := by
  intro always
  have exhibited : ∃ s : World, Runs World.step anyStep World.init
      [.newConn true, .connect .ok, .keepAlive, .recvOk [[1], [2]], .data, .deleteBuf, .write] s ∧
      s.pc.Between ∧ s.written = [[1]] ∧ s.received = [[[1], [2]]] := exists_run (by decide)
  obtain ⟨s, run, between, written, received⟩ := exhibited
  have echoed := always _ s run between
  simp [written, received] at echoed

end ExploreF407.App
