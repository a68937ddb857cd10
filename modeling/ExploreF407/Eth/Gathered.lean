import ExploreF407.Eth.Input
import ExploreF407.Lib.Chunks

/-! # What `low_level_input` delivers

The buffers of a frame, one after the other, are a stream. The descriptor and `bufferoffset`
say how much of it has been read, `payloadoffset` how much of the current pbuf has been
written.
-/

namespace ExploreF407.Eth

open Chunks Ring

variable {nb : Nat} [NeZero nb] {desc : Fin nb → RxDesc} {buf : Fin nb → Nat → UInt8}
  {heth : Heth nb} {start : Fin nb} {c : RxCopy nb} {q : Filled} {p : List Pbuf}
  {T i j k len left m n payloadoffset : Nat}

/-! ## The frame -/

abbrev ethRxbufnb : Nat := 4

/-- A complete frame of `k` segments, which is reported with the length `len`. -/
structure Frame (desc : Fin nb → RxDesc) (start : Fin nb) (k len : Nat) : Prop where
  some' : 0 < k
  ring : k ≤ nb
  own : ∀ i < k, (desc (after start i)).own = false
  fs : ∀ i < k, (desc (after start i)).fs = true ↔ i = 0
  ls : ∀ i < k, (desc (after start i)).ls = true ↔ i + 1 = k
  fl : (desc (after start (k - 1))).fl = len + 4

/-- Earlier calls have come to the first `j` segments. -/
structure Scanned (heth : Heth nb) (start : Fin nb) (j : Nat) : Prop where
  rxDesc : heth.rxDesc = after start j
  segCount : heth.rxFrameInfos.segCount = j
  fsRxDesc : 0 < j → heth.rxFrameInfos.fsRxDesc = some start

structure Reported (infos : RxFrameInfos nb) (start : Fin nb) (k len : Nat) : Prop where
  fsRxDesc : infos.fsRxDesc = some start
  buffer : infos.buffer = some start
  segCount : infos.segCount = k
  length : infos.length = len

theorem Frame.scan (frame : Frame desc start k len) (scanned : Scanned heth start j)
    (part : j < k) (enough : k - j ≤ left) (word : len < 2 ^ 32) :
    ∃ heth', heth.scan desc left = some (heth', .ok) ∧
      Reported heth'.rxFrameInfos start k len := by
  induction left generalizing heth j with
  | zero => omega
  | succ left ih =>
      have own := frame.own j part
      have fs := frame.fs j part
      have ls := frame.ls j part
      simp only [← scanned.rxDesc] at own fs ls
      rcases Nat.lt_or_ge (j + 1) k with more | last
      · have inner : (desc heth.rxDesc).ls = false := by
          have := mt ls.mp (by omega)
          simpa using this
        rcases Nat.eq_zero_or_pos j with rfl | later
        · have first := fs.mpr rfl
          simp only [Heth.scan, own, first, inner]
          refine ih (j := 1) ⟨?_, rfl, fun _ => ?_⟩ more (by omega)
          · simp only [Heth.firstSegment, scanned.rxDesc, after_succ]
          · simp only [Heth.firstSegment, scanned.rxDesc, after_zero]
        · have middle : (desc heth.rxDesc).fs = false := by
            have := mt fs.mp (by omega)
            simpa using this
          simp only [Heth.scan, own, middle, inner]
          refine ih (j := j + 1) ⟨?_, ?_, fun _ => scanned.fsRxDesc later⟩ more (by omega)
          · simp only [Heth.middleSegment, scanned.rxDesc, after_succ]
          · simp only [Heth.middleSegment, scanned.segCount]
      · obtain rfl : k = j + 1 := by omega
        have fl := frame.fl
        simp only [Nat.add_sub_cancel, ← scanned.rxDesc] at fl
        have begin' : (if heth.rxFrameInfos.segCount + 1 = 1 then some heth.rxDesc
            else heth.rxFrameInfos.fsRxDesc) = some start := by
          rw [scanned.segCount]
          split
          · rename_i zero
            obtain rfl : j = 0 := by omega
            rw [scanned.rxDesc, after_zero]
          · exact scanned.fsRxDesc (by omega)
        simp only [Heth.scan, own, ls.mpr rfl, Heth.lastSegment, begin', Option.map_some]
        refine ⟨_, rfl, rfl, rfl, ?_, ?_⟩
        · simp only [scanned.segCount]
        · simp only [fl]
          omega

/-! ## The copying -/

def stream (buf : Fin nb → Nat → UInt8) (start : Fin nb) (i : Nat) : UInt8 :=
  buf (after start (i / ethRxBufSize)) (i % ethRxBufSize)

/-- `T` bytes of the frame have been read, and the next one comes from segment `i`. -/
structure Reading (start : Fin nb) (k T i : Nat) (c : RxCopy nb) : Prop where
  dmarxdesc : c.dmarxdesc = after start i
  buffer : c.buffer = c.dmarxdesc
  position : T = i * ethRxBufSize + c.bufferoffset
  fits : c.bufferoffset ≤ ethRxBufSize
  read : ∀ d o, (d, o) ∈ c.read → (∃ i < k, d = after start i) ∧ o < ethRxBufSize

/-- `n` bytes of the pbuf have been written, each once, from the bytes after the first `T`. -/
structure Filling (buf : Fin nb → Nat → UInt8) (start : Fin nb) (T n : Nat) (q : Filled) :
    Prop where
  written : q.written = List.range n
  bytes : ∀ o < n, q.pbuf.payload o = stream buf start (T + o)

theorem Reading.reads (reading : Reading start k T i c)
    (inside : c.bufferoffset + m ≤ ethRxBufSize) (room : T + m ≤ k * ethRxBufSize) :
    Reading start k (T + m) i { c.reads m with bufferoffset := c.bufferoffset + m } := by
  have position := reading.position
  constructor
  · exact reading.dmarxdesc
  · exact reading.buffer
  · simp only
    omega
  · exact inside
  · intro d o member
    simp only [RxCopy.reads, List.mem_append, List.mem_map, List.mem_range, Prod.mk.injEq]
      at member
    rcases member with earlier | ⟨x, below, rfl, rfl⟩
    · exact reading.read d o earlier
    · refine ⟨⟨i, ?_, reading.buffer.trans reading.dmarxdesc⟩, by omega⟩
      by_contra outside
      have := Nat.mul_le_mul_right ethRxBufSize (Nat.le_of_not_lt outside)
      omega

theorem Reading.cross (reading : Reading start k T i c) (whole : c.bufferoffset = ethRxBufSize) :
    Reading start k T (i + 1)
      { c with dmarxdesc := c.dmarxdesc + 1, buffer := c.dmarxdesc + 1, bufferoffset := 0 } := by
  constructor
  · simp only [reading.dmarxdesc, after_succ]
  · rfl
  · rw [reading.position, whole, Nat.succ_mul, Nat.add_zero]
  · exact Nat.zero_le _
  · exact reading.read

theorem Filling.copy (filling : Filling buf start T n q) (reading : Reading start k (T + n) i c)
    (inside : c.bufferoffset + m ≤ ethRxBufSize) :
    Filling buf start T (n + m) (q.copy n (buf c.buffer) c.bufferoffset m) := by
  constructor
  · simp only [Filled.copy, filling.written, List.range_add]
  · intro o below
    simp only [Filled.copy]
    rcases Nat.lt_or_ge o n with before | behind
    · rw [memcpy_outside (by omega)]
      exact filling.bytes o before
    · obtain ⟨x, rfl⟩ := Nat.exists_eq_add_of_le behind
      have here : T + (n + x) = i * ethRxBufSize + (c.bufferoffset + x) := by
        rw [← Nat.add_assoc, reading.position, Nat.add_assoc]
      obtain ⟨chunk, cell⟩ := position (j := i) (r := c.bufferoffset + x) (B := ethRxBufSize)
        (by omega)
      rw [memcpy_inside (by omega), stream, here, chunk, cell, reading.buffer, reading.dmarxdesc]

theorem copyBytes_fills (reading : Reading start k (T + payloadoffset) i c)
    (filling : Filling buf start T payloadoffset q)
    (room : T + payloadoffset + left ≤ k * ethRxBufSize) :
    let r := c.copyBytes buf q left payloadoffset
    (∃ i', Reading start k (T + (payloadoffset + left)) i' r.2) ∧
      Filling buf start T (payloadoffset + left) r.1 ∧ r.1.pbuf.len = q.pbuf.len := by
  fun_induction RxCopy.copyBytes buf q left payloadoffset c generalizing i with
  | case1 q left payloadoffset c beyond n =>
      rename_i ih
      have fits := reading.fits
      have read := reading.reads (m := n) (by omega) (by omega)
      have next := read.cross (by simp only; omega)
      have copied := filling.copy reading (m := n) (by omega)
      have all : payloadoffset + n + (left - n) = payloadoffset + left := by omega
      have rest := ih (by rwa [← Nat.add_assoc]) copied (by omega)
      rw [all] at rest
      exact rest
  | case2 q left payloadoffset c within =>
      refine ⟨⟨i, ?_⟩, filling.copy reading (by omega), rfl⟩
      rw [← Nat.add_assoc]
      exact reading.reads (by omega) room

theorem copyChain_fills (buf : Fin nb → Nat → UInt8) (p : List Pbuf)
    (reading : Reading start k T i c)
    (room : T + (p.map Pbuf.len).sum ≤ k * ethRxBufSize) :
    let r := c.copyChain buf p
    (∃ i', Reading start k (T + (p.map Pbuf.len).sum) i' r.2) ∧
      chainBytes (r.1.map Filled.pbuf) =
        (List.range (p.map Pbuf.len).sum).map (fun i => stream buf start (T + i)) ∧
      (r.1.map fun q => q.pbuf.len) = p.map Pbuf.len ∧
      ∀ q ∈ r.1, q.written = List.range q.pbuf.len := by
  induction p generalizing T i c with
  | nil => exact ⟨⟨i, reading⟩, rfl, rfl, by simp [RxCopy.copyChain]⟩
  | cons q qs ih =>
      simp only [List.map_cons, List.sum_cons] at room
      have empty : Filling buf start T 0 { pbuf := q, written := [] } := ⟨rfl, by simp⟩
      obtain ⟨⟨i', read⟩, filled, same⟩ :=
        copyBytes_fills reading empty (show T + 0 + q.len ≤ k * ethRxBufSize by omega)
      simp only [Nat.zero_add] at read filled
      obtain ⟨end', bytes, lens, written⟩ := ih read (by omega)
      have own : (c.copyBytes buf { pbuf := q, written := [] } q.len 0).1.pbuf.bytes =
          (List.range q.len).map (fun i => stream buf start (T + i)) := by
        simp only [Pbuf.bytes, same]
        apply List.map_congr_left
        intro o member
        exact filled.bytes o (List.mem_range.mp member)
      simp only [RxCopy.copyChain, List.map_cons, List.sum_cons]
      refine ⟨?_, ?_, ?_, ?_⟩
      · rwa [← Nat.add_assoc]
      · simp only [chainBytes, List.flatMap_cons] at bytes ⊢
        rw [own, bytes, List.range_add, List.map_append, List.map_map]
        simp only [Function.comp_def, Nat.add_assoc]
      · rw [lens, same]
      · intro f member
        rcases List.mem_cons.mp member with rfl | later
        · rw [filled.written, same]
        · exact written f later

/-! ## `low_level_input` -/

def segments (buf : Fin nb → Nat → UInt8) (start : Fin nb) (k : Nat) : List UInt8 :=
  (List.range k).flatMap fun i => (List.range ethRxBufSize).map (buf (after start i))

theorem segments_eq (buf : Fin nb → Nat → UInt8) (start : Fin nb) (k : Nat) :
    segments buf start k = (List.range (k * ethRxBufSize)).map (stream buf start) := by
  have cells := flatten (fun j => buf (after start j)) (B := ethRxBufSize)
    (t := k * ethRxBufSize) (by simp [ethRxBufSize]) k
  rw [Nat.min_self] at cells
  rw [segments, show stream buf start = fun i => buf (after start (i / ethRxBufSize))
    (i % ethRxBufSize) from rfl, ← cells]
  apply List.flatMap_congr
  intro i member
  have whole := Nat.mul_le_mul_right ethRxBufSize (List.mem_range.mp member)
  rw [Nat.succ_mul] at whole
  rw [Nat.min_eq_left (by omega)]

/-- For every complete frame, wherever it starts and however much of it earlier calls have come
    to, and for every way to split its length over pbufs: the chain holds the frame, every byte
    of it is written once, and only the buffers of the frame are read. -/
theorem input_delivers_frame (s : Rx ethRxbufnb) (pbufAlloc : Nat → Option (List Pbuf))
    (start : Fin ethRxbufnb) (k j len : Nat) (p : List Pbuf) (unlocked : s.heth.locked = false)
    (frame : Frame s.desc start k len) (scanned : Scanned s.heth start j) (part : j < k)
    (nonempty : 1 ≤ len) (full : len ≤ k * ethRxBufSize) (memory : pbufAlloc len = some p)
    (split : (p.map Pbuf.len).sum = len) :
    ∃ s' chain, lowLevelInput s pbufAlloc = some (s', some chain) ∧
      chainBytes (chain.map Filled.pbuf) = (segments s.buf start k).take len ∧
      (chain.map fun q => q.pbuf.len) = p.map Pbuf.len ∧
      (∀ q ∈ chain, q.written = List.range q.pbuf.len) ∧
      ∀ d o, (d, o) ∈ s'.read → (∃ i < k, d = after start i) ∧ o < ethRxBufSize := by
  have small : len < 2 ^ 16 := by
    have ring := Nat.mul_le_mul_right ethRxBufSize frame.ring
    simp only [ethRxbufnb, ethRxBufSize] at ring full
    omega
  have entered : Scanned { s.heth with locked := true } start j :=
    ⟨scanned.rxDesc, scanned.segCount, scanned.fsRxDesc⟩
  obtain ⟨heth', found, reported⟩ := frame.scan entered part
    (show k - j ≤ ethRxbufnb by have := frame.ring; omega) (by omega)
  have begin' : Reading start k 0 0
      { dmarxdesc := start, buffer := start, bufferoffset := 0, read := [] } := by
    refine ⟨?_, rfl, rfl, Nat.zero_le _, ?_⟩
    · rw [after_zero]
    · intro d o member
      cases member
  obtain ⟨⟨i, reading⟩, bytes, lens, written⟩ :=
    copyChain_fills s.buf p begin' (by omega)
  have hal : halEthGetReceivedFrameIt s.desc s.heth = some (heth', .ok) := by
    simpa [halEthGetReceivedFrameIt, unlocked] using found
  simp only [lowLevelInput, hal, reported.fsRxDesc, reported.buffer, reported.length,
    Nat.mod_eq_of_lt small, if_pos (show len > 0 from nonempty), memory, Option.map_some]
  refine ⟨_, _, rfl, ?_, lens, written, reading.read⟩
  rw [bytes, split, segments_eq, ← List.map_take, List.take_range, Nat.min_eq_left full]
  simp only [Nat.zero_add]

/-- A frame of 1600 bytes in the last and the first descriptor. -/
def twoSegments : Rx ethRxbufnb where
  desc := fun d => {
    own := d = 1 ∨ d = 2
    fs := d = 3
    ls := d = 0
    fl := if d = 0 then 1604 else 0
    serial := 0 }
  heth := {
    rxDesc := 3
    rxFrameInfos :=
      { fsRxDesc := none, lsRxDesc := none, segCount := 0, length := 0, buffer := none }
    locked := false }
  buf := fun d o => UInt8.ofNat (d + o)
  rbus := false
  dmarpdr := 0
  read := []

theorem twoSegments_frame : Frame twoSegments.desc 3 2 1600 := by
  constructor <;> decide

/-- The chain comes from a pool of pbufs of 596 bytes. -/
theorem input_delivers_frame_two :
    ∃ s' chain, lowLevelInput twoSegments
        (fun len => if len = 1600 then some [pbufOf 596, pbufOf 596, pbufOf 408] else none) =
          some (s', some chain) ∧
      chainBytes (chain.map Filled.pbuf) = (segments twoSegments.buf 3 2).take 1600 ∧
      (chain.map fun q => q.pbuf.len) = [pbufOf 596, pbufOf 596, pbufOf 408].map Pbuf.len ∧
      (∀ q ∈ chain, q.written = List.range q.pbuf.len) ∧
      ∀ d o, (d, o) ∈ s'.read → (∃ i < 2, d = after 3 i) ∧ o < ethRxBufSize :=
  input_delivers_frame twoSegments _ 3 2 0 1600 [pbufOf 596, pbufOf 596, pbufOf 408] rfl
    twoSegments_frame ⟨rfl, rfl, fun later => absurd later (by omega)⟩ (by omega) (by omega)
    (by simp [ethRxBufSize]) rfl rfl

end ExploreF407.Eth
