import ExploreF407.Eth.Buffers
import ExploreF407.Eth.Receive
import ExploreF407.Eth.Transmit
import ExploreF407.Lib.Machine

/-! # `low_level_input` and its copying

The same functions as in the receive path, now called while nothing else moves, with the bytes
they copy. A scan that nothing interrupts is a run of the receive path.
-/

namespace ExploreF407.Eth

open Machine Ring

variable {nb : Nat} [NeZero nb]

/-! ## `HAL_ETH_GetReceivedFrame_IT` -/

namespace Heth

def firstSegment (heth : Heth nb) : Heth nb :=
  { heth with
    rxDesc := heth.rxDesc + 1
    rxFrameInfos := { heth.rxFrameInfos with fsRxDesc := some heth.rxDesc, segCount := 1 } }

def middleSegment (heth : Heth nb) : Heth nb :=
  { heth with
    rxDesc := heth.rxDesc + 1
    rxFrameInfos := { heth.rxFrameInfos with segCount := heth.rxFrameInfos.segCount + 1 } }

/-- `none` where a NULL descriptor pointer is followed. -/
def lastSegment (desc : Fin nb → RxDesc) (heth : Heth nb) : Option (Heth nb) :=
  let segCount := heth.rxFrameInfos.segCount + 1
  (if segCount = 1 then some heth.rxDesc else heth.rxFrameInfos.fsRxDesc).map fun fsRxDesc => {
    rxDesc := heth.rxDesc + 1
    rxFrameInfos := {
      fsRxDesc := some fsRxDesc
      lsRxDesc := some heth.rxDesc
      segCount := segCount
      length := ((desc heth.rxDesc).fl + 2 ^ 32 - 4) % 2 ^ 32
      buffer := some fsRxDesc }
    locked := false }

/-- The scan loop, with `left` for what `descriptorscancounter` still allows. -/
def scan (desc : Fin nb → RxDesc) : Nat → Heth nb → Option (Heth nb × HalStatus)
  | 0, heth => some ({ heth with locked := false }, .error)
  | left + 1, heth =>
      if (desc heth.rxDesc).own then some ({ heth with locked := false }, .error)
      else match (desc heth.rxDesc).fs, (desc heth.rxDesc).ls with
        | true, false => scan desc left heth.firstSegment
        | false, false => scan desc left heth.middleSegment
        | _, true => (heth.lastSegment desc).map (·, .ok)

end Heth

def halEthGetReceivedFrameIt (desc : Fin nb → RxDesc) (heth : Heth nb) :
    Option (Heth nb × HalStatus) :=
  if heth.locked then some (heth, .busy) else { heth with locked := true }.scan desc nb

/-- A scan is a run of the receive path in which only the task moves. -/
theorem scan_runs {w : World nb} {heth : Heth nb} {status : HalStatus} {left count : Nat}
    (memory : Bool) (outside : w.inIsr = false) (scanning : w.pc = .scan count)
    (counter : count + left = nb) (result : w.heth.scan w.desc left = some (heth, status)) :
    ∃ n, Runs World.step anyStep w (List.replicate n (.task memory))
      { w with heth := heth, pc := if status = .ok then .alloc else .returned false } := by
  induction left generalizing w count with
  | zero =>
      simp only [Heth.scan, Option.some.injEq, Prod.mk.injEq] at result
      obtain ⟨rfl, rfl⟩ := result
      refine ⟨1, .one trivial ?_⟩
      simp [World.step, World.task, outside, scanning, show ¬ count < nb by omega]
  | succ left ih =>
      have small : count < nb := by omega
      -- The rest of a scan that goes on, after the step for this descriptor.
      have more (next : Heth nb)
          (moved : World.step w (.task memory) = some { w with
            heth := next
            pc := .scan (count + 1) })
          (rest : next.scan w.desc left = some (heth, status)) :
          ∃ n, Runs World.step anyStep w (List.replicate n (.task memory))
            { w with heth := heth, pc := if status = .ok then .alloc else .returned false } := by
        obtain ⟨n, run⟩ := ih (w := { w with heth := next, pc := .scan (count + 1) }) outside rfl
          (by omega) rest
        exact ⟨n + 1, (Runs.one trivial moved).trans run⟩
      simp only [Heth.scan] at result
      split at result
      · rename_i owned
        simp only [Option.some.injEq, Prod.mk.injEq] at result
        obtain ⟨rfl, rfl⟩ := result
        refine ⟨1, .one trivial ?_⟩
        simp [World.step, World.task, outside, scanning, owned]
      · rename_i found
        have moved : World.step w (.task memory) = some (w.scanSegment count) := by
          simp [World.step, World.task, outside, scanning, found, small]
        split at result
        · rename_i fs ls
          refine more _ ?_ result
          rw [moved]
          simp [World.scanSegment, fs, ls, World.firstSegment, Heth.firstSegment]
        · rename_i fs ls
          refine more _ ?_ result
          rw [moved]
          simp [World.scanSegment, fs, ls, World.middleSegment, Heth.middleSegment]
        · rename_i ls
          simp only [Option.map_eq_some_iff, Heth.lastSegment, Prod.mk.injEq] at result
          obtain ⟨_, ⟨fsRxDesc, first, rfl⟩, rfl, rfl⟩ := result
          refine ⟨1, .one trivial ?_⟩
          have last : w.scanSegment count = w.lastSegment := by
            simp only [World.scanSegment, ls]
          rw [moved, last]
          simp only [World.lastSegment, first, if_true]

/-! ## `low_level_input` -/

/-- A pbuf, with a record of the offsets in its payload that have been written. -/
structure Filled where
  pbuf : Pbuf
  written : List Nat

/-- The receive side of the driver, the receive buffers by the descriptor they belong to, the
    flag `RBUS` of `DMASR`, how often `DMARPDR` has been written, and a record of the bytes
    that the last call of `low_level_input` has read. -/
structure Rx (nb : Nat) where
  desc : Fin nb → RxDesc
  heth : Heth nb
  buf : Fin nb → Nat → UInt8
  rbus : Bool
  dmarpdr : Nat
  read : List (Fin nb × Nat)

structure RxCopy (nb : Nat) where
  dmarxdesc : Fin nb
  buffer : Fin nb
  bufferoffset : Nat
  read : List (Fin nb × Nat)

def Filled.copy (q : Filled) (payloadoffset : Nat) (buffer : Nat → UInt8) (bufferoffset n : Nat) :
    Filled where
  pbuf := { q.pbuf with
    payload := memcpy q.pbuf.payload payloadoffset buffer bufferoffset n }
  written := q.written ++ (List.range n).map (payloadoffset + ·)

namespace RxCopy

/-- The same `memcpy` on the other side. -/
def reads (c : RxCopy nb) (n : Nat) : RxCopy nb :=
  { c with read := c.read ++ (List.range n).map fun o => (c.buffer, c.bufferoffset + o) }

/-- The loop over the buffers that `q` goes beyond, and the rest of `q`. -/
def copyBytes (buf : Fin nb → Nat → UInt8) (q : Filled) (byteslefttocopy payloadoffset : Nat)
    (c : RxCopy nb) : Filled × RxCopy nb :=
  if byteslefttocopy + c.bufferoffset > ethRxBufSize then
    let n := ethRxBufSize - c.bufferoffset
    copyBytes buf (q.copy payloadoffset (buf c.buffer) c.bufferoffset n) (byteslefttocopy - n)
      (payloadoffset + n)
      { c.reads n with
        dmarxdesc := c.dmarxdesc + 1, buffer := c.dmarxdesc + 1, bufferoffset := 0 }
  else
    (q.copy payloadoffset (buf c.buffer) c.bufferoffset byteslefttocopy,
      { c.reads byteslefttocopy with bufferoffset := c.bufferoffset + byteslefttocopy })
termination_by byteslefttocopy + c.bufferoffset
decreasing_by
  simp only [ethRxBufSize] at *
  omega

def copyChain (buf : Fin nb → Nat → UInt8) : List Pbuf → RxCopy nb → List Filled × RxCopy nb
  | [], c => ([], c)
  | q :: qs, c =>
      let first := c.copyBytes buf { pbuf := q, written := [] } q.len 0
      let rest := first.2.copyChain buf qs
      (first.1 :: rest.1, rest.2)

end RxCopy

/-- The loop that gives `i` descriptors back to the DMA. -/
def giveBack : Nat → Fin nb → (Fin nb → RxDesc) → Fin nb → RxDesc
  | 0, _, desc => desc
  | i + 1, dmarxdesc, desc =>
      giveBack i (dmarxdesc + 1)
        (Function.update desc dmarxdesc { desc dmarxdesc with own := true })

/-- `low_level_input`, with the chain it returns, if it returns one. `none` where a NULL
    descriptor pointer is followed. -/
def lowLevelInput (s : Rx nb) (pbufAlloc : Nat → Option (List Pbuf)) :
    Option (Rx nb × Option (List Filled)) :=
  match halEthGetReceivedFrameIt s.desc s.heth with
  | none => none
  | some (heth, .ok) =>
      let len := heth.rxFrameInfos.length % 2 ^ 16
      let p := if len > 0 then pbufAlloc len else none
      match heth.rxFrameInfos.fsRxDesc, heth.rxFrameInfos.buffer with
      | some fsRxDesc, some buffer =>
          let copied := p.map fun p => RxCopy.copyChain s.buf p
            { dmarxdesc := fsRxDesc, buffer := buffer, bufferoffset := 0, read := [] }
          some ({
            desc := giveBack heth.rxFrameInfos.segCount fsRxDesc s.desc
            heth := { heth with rxFrameInfos := { heth.rxFrameInfos with segCount := 0 } }
            buf := s.buf
            rbus := false
            dmarpdr := if s.rbus then s.dmarpdr + 1 else s.dmarpdr
            read := (copied.map fun c => c.2.read).getD [] }, copied.map Prod.fst)
      | _, _ => none
  | some (heth, _) => some ({ s with heth := heth, read := [] }, none)

end ExploreF407.Eth
