import ExploreF407.Lib.Machine
import ExploreF407.Lwip.Err

/-! # The network task

`App_EthTask` as a sequence of calls into lwIP. The outcome of a call is part of its
label. Between any two calls the tcpip thread may run `err_tcp`, or change the state
of the connection, and memory that has been freed may be written by others.
-/

namespace ExploreF407.App

open Lwip

inductive NetconnState where
  | none
  | write
  | listen
  | connect
  | close
  deriving Repr, DecidableEq

/-- A netconn: whether it has been freed, whether `pcb.tcp` is set, and `state`. -/
structure Netconn where
  freed : Bool
  pcb : Bool
  state : NetconnState
  keepAlive : Bool
  deriving Repr, DecidableEq

/-- A netbuf and the pbufs it owns: the payloads of the chain `p`, and the place of
    `ptr` in it. -/
structure Netbuf where
  deleted : Bool
  p : List (List UInt8)
  ptr : Nat
  deriving Repr, DecidableEq

/-- A payload pointer, given by the netbuf it was obtained from and the pbuf. -/
structure Payload where
  netbuf : Nat
  pbuf : Nat
  deriving Repr, DecidableEq

/-- `netbuf_data`: the pbuf whose payload is handed out, and its length. -/
def netbufData (buf : Netbuf) : Except ErrT (Nat × Nat) :=
  match buf.p[buf.ptr]? with
  | none => .error .buf
  | some q => .ok (buf.ptr, q.length)

/-- The call that the task makes next. -/
inductive Pc where
  /-- The test of `conn` at the head of the loop. -/
  | top
  | connect
  | keepAlive
  | recv
  | data
  | deleteBuf
  | write
  /-- One of the three `netconn_delete` calls; the loop starts over behind each. -/
  | deleteConn
  deriving Repr, DecidableEq

inductive Act where
  | newConn (allocated : Bool)
  | checkState
  | connect (err : ErrT)
  | keepAlive
  | recvOk (chain : List (List UInt8))
  | recvErr
  | data
  | deleteBuf
  | write
  | deleteConn (ok : Bool)
  | errTcp
  | setState (state : NetconnState)
  | reuse (netbuf pbuf : Nat) (bytes : List UInt8)
  deriving Repr, DecidableEq

/-- A received netbuf and what its data pointer showed when it was written back. -/
structure Round where
  chain : List (List UInt8)
  read : List UInt8
  deriving Repr, DecidableEq

/-- The task's variables, the netconns and netbufs allocated so far, and a record: the
    three kinds of misuse, the netbufs received, the byte ranges written, and both
    together for each netbuf written back. -/
structure World where
  pc : Pc
  conn : Option Nat
  buf : Option Nat
  dataPtr : Option Payload
  dataLen : Nat
  netconns : List Netconn
  netbufs : List Netbuf
  nullPcb : Bool
  deadPayload : Bool
  deadConn : Bool
  received : List (List (List UInt8))
  written : List (List UInt8)
  rounds : List Round

namespace World

def init : World where
  pc := .top
  conn := none
  buf := none
  dataPtr := none
  dataLen := 0
  netconns := []
  netbufs := []
  nullPcb := false
  deadPayload := false
  deadConn := false
  received := []
  written := []
  rounds := []

def useConn (s : World) (c : Nat) : World :=
  match s.netconns[c]? with
  | some netconn => { s with deadConn := s.deadConn || netconn.freed }
  | none => { s with deadConn := true }

def setConn (s : World) (c : Nat) (f : Netconn → Netconn) : World :=
  { s with netconns := s.netconns.modify c f }

/-- `conn = netconn_new(NETCONN_TCP)`. -/
def newConn (s : World) (allocated : Bool) : World :=
  if allocated then
    { s with
      pc := .connect
      conn := some s.netconns.length
      netconns := s.netconns ++
        [{ freed := false, pcb := true, state := .none, keepAlive := false }] }
  else { s with pc := .connect, conn := none }

/-- `conn->pcb.tcp->so_options |= SOF_KEEPALIVE`. -/
def keepAlive (s : World) (c : Nat) : World :=
  match s.netconns[c]? with
  | some netconn =>
      if netconn.pcb then (s.useConn c).setConn c fun n => { n with keepAlive := true }
      else { s.useConn c with nullPcb := true }
  | none => s.useConn c

/-- `netconn_write`: the payload behind `data` is read, up to `data_len`. -/
def write (s : World) (c : Nat) : World :=
  match s.dataPtr with
  | none => s.useConn c
  | some ptr => match s.netbufs[ptr.netbuf]? with
      | none => s.useConn c
      | some buf =>
          let read := ((buf.p[ptr.pbuf]?).getD []).take s.dataLen
          { s.useConn c with
            deadPayload := s.deadPayload || buf.deleted
            written := s.written ++ [read]
            rounds := s.rounds ++ [{ chain := s.received.getLastD [], read := read }] }

/-- One call of the task, or one event outside it; `none` when the task is elsewhere
    or the call cannot have that outcome. -/
def step (s : World) : Act → Option World
  | .newConn allocated => match s.pc, s.conn with
      | .top, none => some (s.newConn allocated)
      | _, _ => none
  | .checkState => match s.pc, s.conn with
      | .top, some c =>
          if (s.netconns[c]?).map Netconn.state = some .close then
            some { s.useConn c with pc := .deleteConn }
          else some { s.useConn c with pc := .recv }
      | _, _ => none
  -- `netconn_connect(NULL, ...)` is `ERR_ARG`, and a netconn without pcb is not connected.
  | .connect err => match s.pc, s.conn with
      | .connect, none => if err = .arg then some { s with pc := .deleteConn } else none
      | .connect, some c =>
          if err ≠ .ok then some { s.useConn c with pc := .deleteConn }
          else if (s.netconns[c]?).map Netconn.pcb = some true then
            some { s.useConn c with pc := .keepAlive }
          else none
      | _, _ => none
  | .keepAlive => match s.pc, s.conn with
      | .keepAlive, some c => some { s.keepAlive c with pc := .recv }
      | _, _ => none
  -- A TCP netbuf always has a pbuf.
  | .recvOk chain => match s.pc, s.conn with
      | .recv, some c =>
          if chain = [] then none
          else some { s.useConn c with
            pc := .data
            buf := some s.netbufs.length
            netbufs := s.netbufs ++ [{ deleted := false, p := chain, ptr := 0 }]
            received := s.received ++ [chain] }
      | _, _ => none
  | .recvErr => match s.pc, s.conn with
      | .recv, some c => some { s.useConn c with pc := .deleteConn, buf := none }
      | _, _ => none
  | .data => match s.pc, s.buf with
      | .data, some b => match s.netbufs[b]? with
          | none => none
          | some buf => match netbufData buf with
              | .ok (pbuf, len) => some { s with
                  pc := .deleteBuf
                  dataPtr := some { netbuf := b, pbuf := pbuf }
                  dataLen := len }
              | .error _ => some { s with pc := .top }
      | _, _ => none
  | .deleteBuf => match s.pc, s.buf with
      | .deleteBuf, some b => some { s with
          pc := .write
          netbufs := s.netbufs.modify b fun buf => { buf with deleted := true } }
      | _, _ => none
  | .write => match s.pc, s.conn with
      | .write, some c => some { s.write c with pc := .top }
      | _, _ => none
  | .deleteConn ok => match s.pc, s.conn with
      | .deleteConn, none => if ok then some { s with pc := .top } else none
      | .deleteConn, some c =>
          if ok then some { (s.useConn c).setConn c (fun n => { n with freed := true }) with
            pc := .top
            conn := none }
          else some { s.useConn c with pc := .top }
      | _, _ => none
  | .errTcp => match s.conn with
      | some c => some (s.setConn c fun n => { n with pcb := false, state := .none })
      | none => none
  | .setState state => match s.conn with
      | some c => some (s.setConn c fun n => { n with state := state })
      | none => none
  | .reuse b i bytes => match s.netbufs[b]? with
      | none => none
      | some buf =>
          if buf.deleted ∧ (buf.p[i]?).map List.length = some bytes.length then
            some { s with
              netbufs := s.netbufs.modify b fun buf => { buf with p := buf.p.set i bytes } }
          else none

/-! ## What a step does -/

/-- The outcomes of `step` one by one. -/
inductive Outcome (s : World) : Act → World → Prop where
  | created {allocated} (here : s.pc = .top) (conn : s.conn = none) :
      Outcome s (.newConn allocated) (s.newConn allocated)
  | closed {c} (here : s.pc = .top) (conn : s.conn = some c) :
      Outcome s .checkState { s.useConn c with pc := .deleteConn }
  | checked {c} (here : s.pc = .top) (conn : s.conn = some c) :
      Outcome s .checkState { s.useConn c with pc := .recv }
  | noNetconn (here : s.pc = .connect) (conn : s.conn = none) :
      Outcome s (.connect .arg) { s with pc := .deleteConn }
  | refused {c err} (here : s.pc = .connect) (conn : s.conn = some c) :
      Outcome s (.connect err) { s.useConn c with pc := .deleteConn }
  | connected {c err} (here : s.pc = .connect) (conn : s.conn = some c)
      (pcb : (s.netconns[c]?).map Netconn.pcb = some true) :
      Outcome s (.connect err) { s.useConn c with pc := .keepAlive }
  | keptAlive {c} (here : s.pc = .keepAlive) (conn : s.conn = some c) :
      Outcome s .keepAlive { s.keepAlive c with pc := .recv }
  | received {c q rest} (here : s.pc = .recv) (conn : s.conn = some c) :
      Outcome s (.recvOk (q :: rest)) { s.useConn c with
        pc := .data
        buf := some s.netbufs.length
        netbufs := s.netbufs ++ [{ deleted := false, p := q :: rest, ptr := 0 }]
        received := s.received ++ [q :: rest] }
  | notReceived {c} (here : s.pc = .recv) (conn : s.conn = some c) :
      Outcome s .recvErr { s.useConn c with pc := .deleteConn, buf := none }
  | data {b buf pbuf len} (here : s.pc = .data) (held : s.buf = some b)
      (there : s.netbufs[b]? = some buf) (got : netbufData buf = .ok (pbuf, len)) :
      Outcome s .data { s with
        pc := .deleteBuf, dataPtr := some { netbuf := b, pbuf := pbuf }, dataLen := len }
  | noData {b buf e} (here : s.pc = .data) (held : s.buf = some b)
      (there : s.netbufs[b]? = some buf) (failed : netbufData buf = .error e) :
      Outcome s .data { s with pc := .top }
  | deletedBuf {b} (here : s.pc = .deleteBuf) (held : s.buf = some b) :
      Outcome s .deleteBuf { s with
        pc := .write
        netbufs := s.netbufs.modify b fun buf => { buf with deleted := true } }
  | written {c} (here : s.pc = .write) (conn : s.conn = some c) :
      Outcome s .write { s.write c with pc := .top }
  | deletedNull (here : s.pc = .deleteConn) (conn : s.conn = none) :
      Outcome s (.deleteConn true) { s with pc := .top }
  | deletedConn {c} (here : s.pc = .deleteConn) (conn : s.conn = some c) :
      Outcome s (.deleteConn true)
        { (s.useConn c).setConn c (fun n => { n with freed := true }) with
          pc := .top
          conn := none }
  | keptConn {c} (here : s.pc = .deleteConn) (conn : s.conn = some c) :
      Outcome s (.deleteConn false) { s.useConn c with pc := .top }
  | errTcp {c} (conn : s.conn = some c) :
      Outcome s .errTcp (s.setConn c fun n => { n with pcb := false, state := .none })
  | setState {c state} (conn : s.conn = some c) :
      Outcome s (.setState state) (s.setConn c fun n => { n with state := state })
  | reused {b i bytes buf} (there : s.netbufs[b]? = some buf) (deleted : buf.deleted = true)
      (fits : (buf.p[i]?).map List.length = some bytes.length) :
      Outcome s (.reuse b i bytes) { s with
        netbufs := s.netbufs.modify b fun buf => { buf with p := buf.p.set i bytes } }

theorem step_outcome {s s' : World} {a : Act} (moved : s.step a = some s') : s.Outcome a s' := by
  cases a with
  | newConn allocated =>
      simp only [step] at moved
      split at moved <;> cases moved
      exact .created ‹_› ‹_›
  | checkState =>
      simp only [step] at moved
      split at moved
      · split at moved <;> cases moved
        · exact .closed ‹_› ‹_›
        · exact .checked ‹_› ‹_›
      · cases moved
  | connect err =>
      simp only [step] at moved
      split at moved
      · split at moved
        · rename_i arg
          cases moved
          subst arg
          exact .noNetconn ‹_› ‹_›
        · cases moved
      · split at moved
        · cases moved
          exact .refused ‹_› ‹_›
        · split at moved <;> cases moved
          exact .connected ‹_› ‹_› ‹_›
      · cases moved
  | keepAlive =>
      simp only [step] at moved
      split at moved <;> cases moved
      exact .keptAlive ‹_› ‹_›
  | recvOk chain =>
      simp only [step] at moved
      split at moved
      · cases chain with
        | nil => simp at moved
        | cons q rest =>
            simp only [reduceCtorEq, if_false] at moved
            cases moved
            exact .received ‹_› ‹_›
      · cases moved
  | recvErr =>
      simp only [step] at moved
      split at moved <;> cases moved
      exact .notReceived ‹_› ‹_›
  | data =>
      simp only [step] at moved
      split at moved
      · split at moved
        · cases moved
        · split at moved <;> cases moved
          · exact .data ‹_› ‹_› ‹_› ‹_›
          · exact .noData ‹_› ‹_› ‹_› ‹_›
      · cases moved
  | deleteBuf =>
      simp only [step] at moved
      split at moved <;> cases moved
      exact .deletedBuf ‹_› ‹_›
  | write =>
      simp only [step] at moved
      split at moved <;> cases moved
      exact .written ‹_› ‹_›
  | deleteConn ok =>
      simp only [step] at moved
      split at moved
      · cases ok <;> cases moved
        exact .deletedNull ‹_› ‹_›
      · cases ok <;> cases moved
        · exact .keptConn ‹_› ‹_›
        · exact .deletedConn ‹_› ‹_›
      · cases moved
  | errTcp =>
      simp only [step] at moved
      split at moved <;> cases moved
      exact .errTcp ‹_›
  | setState state =>
      simp only [step] at moved
      split at moved <;> cases moved
      exact .setState ‹_›
  | reuse b i bytes =>
      simp only [step] at moved
      split at moved
      · cases moved
      · split at moved <;> cases moved
        rename_i both
        exact .reused ‹_› both.1 both.2

end World

end ExploreF407.App
