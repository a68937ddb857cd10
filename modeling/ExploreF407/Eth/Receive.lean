import ExploreF407.Kernel.Objects
import ExploreF407.Lib.Framing
import ExploreF407.Lib.Ring

/-! # The Ethernet receive path

`HAL_ETH_GetReceivedFrame_IT`, `low_level_input` and `ethernetif_input` run in one
task, cut at every access to a descriptor, while the DMA fills descriptors and the
receive interrupt comes in. The ring has `nb` descriptors (`ETH_RXBUFNB`), and
descriptor `i + 1` follows descriptor `i` around the ring.
-/

namespace ExploreF407.Eth

open Kernel

/-- The status word of an `ETH_DMADescTypeDef`. `serial` numbers the fills: it tells
    which segment a descriptor holds. -/
structure RxDesc where
  own : Bool
  fs : Bool
  ls : Bool
  fl : Nat
  serial : Nat
  deriving Repr, DecidableEq

/-- `ETH_DMARxFrameInfos`. The pointers are `none` before the first frame; `buffer`
    is given by the descriptor it belongs to. -/
structure RxFrameInfos (nb : Nat) where
  fsRxDesc : Option (Fin nb)
  lsRxDesc : Option (Fin nb)
  segCount : Nat
  length : Nat
  buffer : Option (Fin nb)
  deriving Repr, DecidableEq

structure Heth (nb : Nat) where
  rxDesc : Fin nb
  rxFrameInfos : RxFrameInfos nb
  locked : Bool
  deriving Repr, DecidableEq

inductive Pc (nb : Nat) where
  /-- `OSSemPend` is next. -/
  | pend
  | blocked
  /-- `low_level_input` is next. -/
  | input
  /-- In the scan loop, with `descriptorscancounter`. -/
  | scan (count : Nat)
  /-- The HAL has reported a frame, `pbuf_alloc` is next. -/
  | alloc
  /-- In the release loop, with `i`, `dmarxdesc` and whether `p` is a pbuf. -/
  | release (i : Nat) (dmarxdesc : Fin nb) (p : Bool)
  /-- `low_level_input` has returned `p`. -/
  | returned (p : Bool)
  /-- A NULL descriptor pointer has been followed. -/
  | fault
  deriving Repr, DecidableEq

/-- `fill` closes one segment, `irqPost` and `irqClear` are the two halves of
    `HAL_ETH_IRQHandler`, `halLock` is the transmit side taking or returning the HAL
    lock, and `task` is the next step of `ethernetif_input`, with the outcome of
    `pbuf_alloc` where it is called. -/
inductive Act where
  | fill (last : Bool) (fl : Nat)
  | irqPost
  | irqClear
  | halLock (locked : Bool)
  | task (memory : Bool)
  deriving Repr, DecidableEq

/-- The descriptors, the DMA (its descriptor, the segments of its frame so far, its
    receive flag), the interrupt handler, the semaphore and the task. The last three
    fields are a record: the stream of segments, the serial numbers given back to the
    DMA, and how many frames have been returned or dropped. -/
structure World (nb : Nat) where
  desc : Fin nb → RxDesc
  dmaDesc : Fin nb
  dmaSegs : Nat
  flagR : Bool
  inIsr : Bool
  ethSemRx : OsSem
  heth : Heth nb
  pc : Pc nb
  wire : List Bool
  given : List Nat
  handled : Nat

variable {nb : Nat} [NeZero nb]

namespace World

/-- After `HAL_ETH_DMARxDescListInit` and `low_level_init`. -/
def init : World nb where
  desc := fun _ => { own := true, fs := false, ls := false, fl := 0, serial := 0 }
  dmaDesc := 0
  dmaSegs := 0
  flagR := false
  inIsr := false
  ethSemRx := .created 0
  heth := {
    rxDesc := 0
    rxFrameInfos :=
      { fsRxDesc := none, lsRxDesc := none, segCount := 0, length := 0, buffer := none }
    locked := false }
  pc := .pend
  wire := []
  given := []
  handled := 0

/-- The DMA closes a segment of a well-formed frame: a frame has at most `nb`
    segments, and its length, which the last one holds, is more than the four bytes
    of the checksum. -/
def fill (s : World nb) (last : Bool) (fl : Nat) : Option (World nb) :=
  if (s.desc s.dmaDesc).own ∧ (last = true → 4 < fl ∧ fl < 2 ^ 14) ∧
      (last = false → s.dmaSegs + 1 < nb) then
    some { s with
      desc := Function.update s.desc s.dmaDesc
        { own := false, fs := s.dmaSegs = 0, ls := last, fl := fl, serial := s.wire.length }
      dmaDesc := s.dmaDesc + 1
      dmaSegs := if last then 0 else s.dmaSegs + 1
      flagR := s.flagR || last
      wire := s.wire ++ [last] }
  else none

/-- `HAL_ETH_RxCpltCallback`: the semaphore is posted before the flag is cleared. A
    task in the pend list is readied. -/
def irqPost (s : World nb) : Option (World nb) :=
  if s.flagR ∧ ¬ s.inIsr then
    match osSemPost s.ethSemRx (if s.pc = .blocked then some () else none) with
    | .ok sem => some { s with
        inIsr := true
        ethSemRx := sem
        pc := if s.pc = .blocked then .input else s.pc }
    | .error _ => some { s with inIsr := true }
  else none

/-- The handler also unlocks `heth`, whoever has locked it. -/
def irqClear (s : World nb) : Option (World nb) :=
  if s.inIsr then
    some { s with flagR := false, inIsr := false, heth := { s.heth with locked := false } }
  else none

def firstSegment (s : World nb) (count : Nat) : World nb :=
  { s with
    heth := { s.heth with
      rxDesc := s.heth.rxDesc + 1
      rxFrameInfos :=
        { s.heth.rxFrameInfos with fsRxDesc := some s.heth.rxDesc, segCount := 1 } }
    pc := .scan (count + 1) }

def middleSegment (s : World nb) (count : Nat) : World nb :=
  { s with
    heth := { s.heth with
      rxDesc := s.heth.rxDesc + 1
      rxFrameInfos :=
        { s.heth.rxFrameInfos with segCount := s.heth.rxFrameInfos.segCount + 1 } }
    pc := .scan (count + 1) }

/-- The HAL reports a frame, whose buffer is read through `FSRxDesc`. -/
def lastSegment (s : World nb) : World nb :=
  let segCount := s.heth.rxFrameInfos.segCount + 1
  match if segCount = 1 then some s.heth.rxDesc else s.heth.rxFrameInfos.fsRxDesc with
  | none => { s with pc := .fault }
  | some fsRxDesc => { s with
      heth := {
        rxDesc := s.heth.rxDesc + 1
        rxFrameInfos := {
          fsRxDesc := some fsRxDesc
          lsRxDesc := some s.heth.rxDesc
          segCount := segCount
          length := ((s.desc s.heth.rxDesc).fl + 2 ^ 32 - 4) % 2 ^ 32
          buffer := some fsRxDesc }
        locked := false }
      pc := .alloc }

/-- One iteration of the scan loop of `HAL_ETH_GetReceivedFrame_IT`. -/
def scanSegment (s : World nb) (count : Nat) : World nb :=
  match (s.desc s.heth.rxDesc).fs, (s.desc s.heth.rxDesc).ls with
  | true, false => s.firstSegment count
  | false, false => s.middleSegment count
  | _, true => s.lastSegment

/-- The next step of `ethernetif_input`. `low_level_input` copies the frame, if it
    has a pbuf, before it reads the descriptors again. -/
def task (s : World nb) (memory : Bool) : Option (World nb) :=
  match s.pc with
  | .pend => match osSemPend s.ethSemRx .blocking with
      | .granted _ sem => some { s with ethSemRx := sem, pc := .input }
      | .blocked => some { s with pc := .blocked }
      | .failed _ => some s
  | .blocked => none
  | .input =>
      if s.heth.locked then some { s with pc := .returned false }
      else some { s with heth := { s.heth with locked := true }, pc := .scan 0 }
  | .scan count =>
      if ¬ (s.desc s.heth.rxDesc).own ∧ count < nb then some (s.scanSegment count)
      else some { s with heth := { s.heth with locked := false }, pc := .returned false }
  | .alloc =>
      let len := s.heth.rxFrameInfos.length % 2 ^ 16
      match s.heth.rxFrameInfos.fsRxDesc with
      | none => some { s with pc := .fault }
      | some fsRxDesc => some { s with pc := .release 0 fsRxDesc (0 < len ∧ memory) }
  | .release i dmarxdesc p =>
      if i < s.heth.rxFrameInfos.segCount then
        some { s with
          desc := Function.update s.desc dmarxdesc { s.desc dmarxdesc with own := true }
          given := s.given ++ [(s.desc dmarxdesc).serial]
          pc := .release (i + 1) (dmarxdesc + 1) p }
      else
        some { s with
          heth := { s.heth with
            rxFrameInfos := { s.heth.rxFrameInfos with segCount := 0 } }
          pc := .returned p
          handled := s.handled + 1 }
  | .returned p => some { s with pc := if p then .input else .pend }
  | .fault => none

def step (s : World nb) : Act → Option (World nb)
  | .fill last fl => s.fill last fl
  | .irqPost => s.irqPost
  | .irqClear => s.irqClear
  | .halLock locked => if s.inIsr then none else
      some { s with heth := { s.heth with locked := locked } }
  | .task memory => if s.inIsr then none else s.task memory

/-- Between two calls of `low_level_input`. -/
def AtBoundary (s : World nb) : Prop :=
  match s.pc with
  | .pend | .blocked | .input | .returned _ => True
  | .scan _ | .alloc | .release .. | .fault => False

end World

end ExploreF407.Eth
