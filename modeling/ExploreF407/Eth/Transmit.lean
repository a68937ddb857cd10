import ExploreF407.Eth.Buffers
import ExploreF407.Lib.Chunks
import ExploreF407.Lwip.Err

/-! # The Ethernet transmit path

`low_level_output` copies a pbuf chain into the buffers of the transmit descriptors, and
`HAL_ETH_TransmitFrame` hands the descriptors over to the DMA. The ring has `nb`
descriptors (`ETH_TXBUFNB`), and descriptor `i + 1` follows descriptor `i` around the ring.
The DMA does nothing in between.
-/

namespace ExploreF407.Eth

open Lwip Ring

/-- `HAL_StatusTypeDef`. -/
inductive HalStatus where
  | ok
  | error
  | busy
  deriving Repr, DecidableEq

/-- The `HAL_ETH_StateTypeDef` values that a transmission sets. -/
inductive HalState where
  | ready
  | busy
  | busyTx
  deriving Repr, DecidableEq

/-- A transmit descriptor: the bits of `Status` and `ControlBufferSize`. -/
structure TxDesc where
  own : Bool
  fs : Bool
  ls : Bool
  controlBufferSize : Nat
  deriving Repr, DecidableEq

/-- `heth`, with the descriptors behind `TxDesc` and the registers it transmits with: the
    flags `TBUS` and `TUS` of `DMASR`, and how often `DMATPDR` has been written. -/
structure TxHeth (nb : Nat) where
  desc : Fin nb → TxDesc
  txDesc : Fin nb
  locked : Bool
  state : HalState
  tbus : Bool
  tus : Bool
  dmatpdr : Nat

/-- The driver: `heth`, the transmit buffers by the descriptor they belong to, and a record
    of the bytes that the last call of `low_level_output` has written. -/
structure Tx (nb : Nat) where
  heth : TxHeth nb
  buf : Fin nb → Nat → UInt8
  written : List (Fin nb × Nat)

variable {nb : Nat} [NeZero nb]

/-! ## `HAL_ETH_TransmitFrame` -/

namespace TxHeth

/-- `TxDesc` is given to the DMA, and the next one becomes `TxDesc`. -/
def give (h : TxHeth nb) (fs ls : Bool) (size : Nat) : TxHeth nb :=
  { h with
    desc := Function.update h.desc h.txDesc
      { own := true, fs := fs, ls := ls, controlBufferSize := size &&& 0x1fff }
    txDesc := h.txDesc + 1 }

/-- The body of the loop over the segments. -/
def giveSegment (frameLength bufcount : Nat) (h : TxHeth nb) (i : Nat) : TxHeth nb :=
  h.give (i = 0) (i = bufcount - 1)
    (if i = bufcount - 1 then frameLength - (bufcount - 1) * ethTxBufSize else ethTxBufSize)

/-- The transmission is resumed if the DMA has run out of buffers. -/
def resume (h : TxHeth nb) : TxHeth nb :=
  if h.tbus then { h with tbus := false, dmatpdr := h.dmatpdr + 1 } else h

/-- The same after an underflow. -/
def resumeUnderflow (h : TxHeth nb) : TxHeth nb :=
  if h.tus then { h with tus := false, dmatpdr := h.dmatpdr + 1 } else h

end TxHeth

/-- `HAL_ETH_TransmitFrame`. The lock is free again whenever it was free before. -/
def halEthTransmitFrame (heth : TxHeth nb) (frameLength : Nat) : TxHeth nb × HalStatus :=
  if heth.locked then (heth, .busy)
  else if frameLength = 0 then ({ heth with state := .ready }, .error)
  else if (heth.desc heth.txDesc).own then ({ heth with state := .busyTx }, .error)
  else
    let bufcount := if frameLength > ethTxBufSize then
        frameLength / ethTxBufSize + if frameLength % ethTxBufSize ≠ 0 then 1 else 0
      else 1
    let heth := if bufcount = 1 then heth.give true true frameLength
      else (List.range bufcount).foldl (TxHeth.giveSegment frameLength bufcount) heth
    ({ heth.resume with state := .ready }, .ok)

/-! ## `low_level_output` -/

/-- The local variables of `low_level_output`, the buffers, and a record of the bytes
    written. `buffer` is given by the descriptor it belongs to. -/
structure TxCopy (nb : Nat) where
  dmaTxDesc : Fin nb
  buffer : Fin nb
  bufferoffset : Nat
  framelength : Nat
  buf : Fin nb → Nat → UInt8
  written : List (Fin nb × Nat)

namespace TxCopy

/-- `n` bytes go from the payload of `q` to the current place in the buffer. -/
def copy (c : TxCopy nb) (q : Pbuf) (payloadoffset n : Nat) : TxCopy nb :=
  { c with
    buf := Function.update c.buf c.buffer
      (memcpy (c.buf c.buffer) c.bufferoffset q.payload payloadoffset n)
    written := c.written ++ (List.range n).map fun o => (c.buffer, c.bufferoffset + o)
    framelength := (c.framelength + n) % 2 ^ 32 }

/-- The loop over the buffers that `q` goes beyond, and the rest of `q`. The result is
    `false` where the source goes to `error`. -/
def copyBytes (desc : Fin nb → TxDesc) (q : Pbuf) (byteslefttocopy payloadoffset : Nat)
    (c : TxCopy nb) : TxCopy nb × Bool :=
  if byteslefttocopy + c.bufferoffset > ethTxBufSize then
    let n := ethTxBufSize - c.bufferoffset
    let dmaTxDesc := c.dmaTxDesc + 1
    if (desc dmaTxDesc).own then
      ({ c with
        buf := (c.copy q payloadoffset n).buf
        written := (c.copy q payloadoffset n).written
        dmaTxDesc := dmaTxDesc }, false)
    else copyBytes desc q (byteslefttocopy - n) (payloadoffset + n)
      { c.copy q payloadoffset n with
        dmaTxDesc := dmaTxDesc, buffer := dmaTxDesc, bufferoffset := 0 }
  else
    ({ c.copy q payloadoffset byteslefttocopy with
      bufferoffset := c.bufferoffset + byteslefttocopy }, true)
termination_by byteslefttocopy + c.bufferoffset
decreasing_by
  simp only [ethTxBufSize] at *
  omega

def copyChain (desc : Fin nb → TxDesc) : List Pbuf → TxCopy nb → TxCopy nb × Bool
  | [], c => (c, true)
  | q :: qs, c =>
      if (desc c.dmaTxDesc).own then (c, false)
      else match c.copyBytes desc q q.len 0 with
        | (c, true) => copyChain desc qs c
        | (c, false) => (c, false)

end TxCopy

/-- `low_level_output`. What `HAL_ETH_TransmitFrame` returns is dropped. -/
def lowLevelOutput (s : Tx nb) (p : List Pbuf) : Tx nb × ErrT :=
  let start : TxCopy nb :=
    { dmaTxDesc := s.heth.txDesc, buffer := s.heth.txDesc, bufferoffset := 0, framelength := 0,
      buf := s.buf, written := [] }
  match start.copyChain s.heth.desc p with
  | (c, true) =>
      ({ heth := (halEthTransmitFrame s.heth c.framelength).1.resumeUnderflow
         buf := c.buf
         written := c.written }, .ok)
  | (c, false) =>
      ({ heth := s.heth.resumeUnderflow, buf := c.buf, written := c.written }, .use)

end ExploreF407.Eth
