import ExploreF407.Eth.Output

/-! # What `HAL_ETH_TransmitFrame` hands to the DMA -/

namespace ExploreF407.Eth

open Chunks Lwip Ring

variable {nb : Nat} [NeZero nb] {h : TxHeth nb} {s s' : Tx nb} {c : TxCopy nb} {p : List Pbuf}
  {frameLength m i n t : Nat}

abbrev ethTxbufnb : Nat := 4

/-- The number of buffers that `t` bytes take. -/
def bufcount (t : Nat) : Nat := (t + (ethTxBufSize - 1)) / ethTxBufSize

/-- The descriptor of segment `k`. -/
def segment (frameLength k : Nat) : TxDesc :=
  { own := true
    fs := k = 0
    ls := k + 1 = bufcount frameLength
    controlBufferSize := min ethTxBufSize (frameLength - k * ethTxBufSize) }

namespace TxHeth

structure Given (h : TxHeth nb) (frameLength i : Nat) (h' : TxHeth nb) : Prop where
  txDesc : h'.txDesc = after h.txDesc i
  given : i ≤ nb → ∀ k < i, h'.desc (after h.txDesc k) = segment frameLength k
  others : ∀ d, (∀ k < i, d ≠ after h.txDesc k) → h'.desc d = h.desc d
  size : ∀ d, (h'.desc d).own = true →
    (h.desc d).own = true ∨ (h'.desc d).controlBufferSize ≤ ethTxBufSize

theorem bufcount_spec (nonempty : 0 < frameLength) :
    (bufcount frameLength - 1) * ethTxBufSize < frameLength ∧
      frameLength ≤ bufcount frameLength * ethTxBufSize ∧ 0 < bufcount frameLength := by
  simp only [bufcount, ethTxBufSize]
  omega

theorem controlBufferSize_eq {size : Nat} (small : size ≤ ethTxBufSize) :
    size &&& 0x1fff = size := by
  have mask := Nat.and_two_pow_sub_one_eq_mod size 13
  simp only [ethTxBufSize] at small
  rw [show 2 ^ 13 - 1 = 0x1fff from rfl] at mask
  rw [mask, Nat.mod_eq_of_lt (by omega)]

theorem giveSegment_eq (nonempty : 0 < frameLength) (below : i < bufcount frameLength) :
    h.giveSegment frameLength (bufcount frameLength) i =
      { h with
        desc := Function.update h.desc h.txDesc (segment frameLength i)
        txDesc := h.txDesc + 1 } := by
  obtain ⟨low, high, positive⟩ := bufcount_spec nonempty
  have before := Nat.mul_le_mul_right ethTxBufSize (Nat.le_sub_one_of_lt below)
  simp only [giveSegment, give, segment]
  rcases eq_or_ne i (bufcount frameLength - 1) with rfl | earlier
  · have last : bufcount frameLength - 1 + 1 = bufcount frameLength := by omega
    rw [← last, Nat.succ_mul] at high
    have size : frameLength - (bufcount frameLength - 1) * ethTxBufSize ≤ ethTxBufSize := by
      omega
    simp [last, controlBufferSize_eq size, Nat.min_eq_right size]
  · have next := Nat.mul_le_mul_right ethTxBufSize (show i + 1 ≤ bufcount frameLength - 1 by omega)
    rw [Nat.succ_mul] at next
    have inner : i + 1 ≠ bufcount frameLength := by omega
    have size : ethTxBufSize ≤ frameLength - i * ethTxBufSize := by omega
    simp [earlier, inner, controlBufferSize_eq (le_refl _), Nat.min_eq_left size]

theorem Given.zero : h.Given frameLength 0 h := by
  constructor
  · rw [after_zero]
  · intro _ k below
    cases below
  · intro d _
    rfl
  · intro d own
    exact .inl own

theorem Given.succ {h' : TxHeth nb} (given : h.Given frameLength i h')
    (nonempty : 0 < frameLength) (below : i < bufcount frameLength) :
    h.Given frameLength (i + 1) (h'.giveSegment frameLength (bufcount frameLength) i) := by
  rw [giveSegment_eq nonempty below]
  constructor
  · simp only [given.txDesc, after_succ]
  · intro room k small
    rcases Nat.lt_succ_iff_lt_or_eq.mp small with earlier | rfl
    · have apart : after h.txDesc k ≠ h'.txDesc := by
        rw [given.txDesc]
        intro same
        have := after_inj (by omega) (by omega) same
        omega
      simp only [Function.update_of_ne apart]
      exact given.given (by omega) k earlier
    · simp only [given.txDesc, Function.update_self]
  · intro d apart
    have here : d ≠ h'.txDesc := given.txDesc ▸ apart i (by omega)
    simp only [Function.update_of_ne here]
    exact given.others d fun k small => apart k (by omega)
  · intro d own
    simp only at own ⊢
    rcases eq_or_ne d h'.txDesc with rfl | other
    · right
      rw [Function.update_self]
      exact Nat.min_le_left _ _
    · rw [Function.update_of_ne other] at own ⊢
      exact given.size d own

theorem given_segments (nonempty : 0 < frameLength) (atMost : i ≤ bufcount frameLength) :
    h.Given frameLength i
      ((List.range i).foldl (giveSegment frameLength (bufcount frameLength)) h) := by
  induction i with
  | zero => exact .zero
  | succ i ih =>
      rw [List.range_succ, List.foldl_append]
      exact (ih (by omega)).succ nonempty (by omega)

theorem Given.resume {h' : TxHeth nb} (given : h.Given frameLength i h') :
    h.Given frameLength i { h'.resume with state := .ready } := by
  simp only [TxHeth.resume]
  split <;> exact ⟨given.txDesc, given.given, given.others, given.size⟩

theorem Given.resumeUnderflow {h' : TxHeth nb} (given : h.Given frameLength i h') :
    h.Given frameLength i h'.resumeUnderflow := by
  simp only [TxHeth.resumeUnderflow]
  split <;> exact ⟨given.txDesc, given.given, given.others, given.size⟩

end TxHeth

/-- Either the descriptors of the whole frame are given to the DMA, or none is. -/
inductive Transmitted (h : TxHeth nb) (frameLength : Nat) : TxHeth nb × HalStatus → Prop where
  | given (h' : TxHeth nb) (given : h.Given frameLength (bufcount frameLength) h')
      (unlocked : h.locked = false) (nonempty : 0 < frameLength) :
      Transmitted h frameLength (h', .ok)
  | kept (h' : TxHeth nb) (status : HalStatus) (desc : h'.desc = h.desc)
      (txDesc : h'.txDesc = h.txDesc)
      (reason : h.locked = true ∨ frameLength = 0 ∨ (h.desc h.txDesc).own = true) :
      Transmitted h frameLength (h', status)

/-- The source counts by division and remainder. -/
theorem bufcount_eq (nonempty : 0 < frameLength) :
    (if frameLength > ethTxBufSize then
      frameLength / ethTxBufSize + if frameLength % ethTxBufSize ≠ 0 then 1 else 0
    else 1) = bufcount frameLength := by
  simp only [bufcount, ethTxBufSize]
  grind

theorem halEthTransmitFrame_cases (h : TxHeth nb) (frameLength : Nat) :
    Transmitted h frameLength (halEthTransmitFrame h frameLength) := by
  simp only [halEthTransmitFrame]
  split
  · rename_i locked
    exact .kept h _ rfl rfl (.inl locked)
  split
  · rename_i empty
    exact .kept _ _ rfl rfl (.inr (.inl empty))
  split
  · rename_i owned
    exact .kept _ _ rfl rfl (.inr (.inr owned))
  · rename_i unlocked nonempty free
    rw [bufcount_eq (Nat.pos_of_ne_zero nonempty)]
    have loop := TxHeth.given_segments (h := h) (Nat.pos_of_ne_zero nonempty) (le_refl _)
    refine .given _ (TxHeth.Given.resume ?_) (by simpa using unlocked) (Nat.pos_of_ne_zero nonempty)
    split
    · rename_i one
      simpa [one, TxHeth.giveSegment] using loop
    · exact loop

/-! ## `low_level_output` -/

/-- From `s` to `s'`, the `n` descriptors from `TxDesc` on have been handed to the DMA, as one
    frame whose bytes are `frame`. -/
structure Handed (s s' : Tx nb) (n : Nat) (frame : List UInt8) : Prop where
  some' : 0 < n
  ring : n ≤ nb
  before : ∀ k < n, (s.heth.desc (after s.heth.txDesc k)).own = false
  own : ∀ k < n, (s'.heth.desc (after s.heth.txDesc k)).own = true
  fs : ∀ k < n, (s'.heth.desc (after s.heth.txDesc k)).fs = true ↔ k = 0
  ls : ∀ k < n, (s'.heth.desc (after s.heth.txDesc k)).ls = true ↔ k + 1 = n
  txDesc : s'.heth.txDesc = after s.heth.txDesc n
  others : ∀ d, (∀ k < n, d ≠ after s.heth.txDesc k) → s'.heth.desc d = s.heth.desc d
  bytes : (List.range n).flatMap (fun k =>
    (List.range (s'.heth.desc (after s.heth.txDesc k)).controlBufferSize).map
      (s'.buf (after s.heth.txDesc k))) = frame

/-- `low_level_output` reports the truth: it returns `ERR_OK` exactly when the frame has been
    handed over, and otherwise the ring is as before. -/
def Truthful (s : Tx nb) (p : List Pbuf) (r : Tx nb × ErrT) : Prop :=
  (r.2 = .ok ↔ ∃ n, Handed s r.1 n (chainBytes p)) ∧
    (r.2 ≠ .ok → r.1.heth.txDesc = s.heth.txDesc ∧
      ∀ d, (r.1.heth.desc d).own = (s.heth.desc d).own)

omit [NeZero nb] in
theorem chainBytes_pos (nonempty : 0 < (chainBytes p).length) : p ≠ [] := by
  rintro rfl
  cases nonempty

theorem holds_flatten {mem : Fin nb → Nat → UInt8} {base : Fin nb} {done : List UInt8}
    (holds : Chunks.Holds ethTxBufSize mem base done) (nonempty : 0 < done.length) :
    (List.range (bufcount done.length)).flatMap (fun k =>
      (List.range (segment done.length k).controlBufferSize).map (mem (after base k))) = done := by
  have all := (TxHeth.bufcount_spec nonempty).2.1
  have cells := flatten (fun k => mem (after base k)) (B := ethTxBufSize) (t := done.length)
    (by simp [ethTxBufSize]) (bufcount done.length)
  rw [Nat.min_eq_left all] at cells
  simp only [segment]
  rw [cells]
  apply List.ext_getElem
  · simp
  · intro i inside inside'
    simp only [List.getElem_map, List.getElem_range]
    exact holds i done[i] (List.getElem?_eq_getElem inside')

/-- A frame that fits the ring is handed over when the copying got through and the HAL is not
    locked. -/
theorem Sent.handed (sent : Sent s p c) (unlocked : s.heth.locked = false)
    (nonempty : 0 < (chainBytes p).length)
    (room : (chainBytes p).length ≤ nb * ethTxBufSize) (word : (chainBytes p).length < 2 ^ 32) :
    Handed s
      { heth := (halEthTransmitFrame s.heth c.framelength).1.resumeUnderflow
        buf := c.buf
        written := c.written } (bufcount (chainBytes p).length) (chainBytes p) := by
  obtain ⟨low, high, some'⟩ := TxHeth.bufcount_spec nonempty
  have ring : bufcount (chainBytes p).length ≤ nb := by
    by_contra large
    have := Nat.mul_le_mul_right ethTxBufSize (Nat.le_sub_one_of_lt (Nat.lt_of_not_le large))
    omega
  have free : ∀ k < bufcount (chainBytes p).length, s.Free k := by
    intro k below
    by_contra owned
    apply sent.clear
    have := Nat.mul_le_mul_right ethTxBufSize (Nat.le_sub_one_of_lt below)
    exact ⟨chainBytes_pos nonempty, k, .inr (by omega), owned⟩
  rw [sent.framelength, Nat.mod_eq_of_lt word]
  have transmitted := halEthTransmitFrame_cases s.heth (chainBytes p).length
  generalize halEthTransmitFrame s.heth (chainBytes p).length = out at transmitted
  cases transmitted with
  | kept h' status desc txDesc reason =>
      have first := free 0 some'
      simp only [Tx.Free, after_zero] at first
      rcases reason with locked | empty | owned
      · simp [unlocked] at locked
      · omega
      · simp [first] at owned
  | given h' given =>
      have given := given.resumeUnderflow
      have segments := given.given ring
      refine ⟨some', ring, free, ?_, ?_, ?_, given.txDesc, given.others, ?_⟩
      · intro k below
        simp only [segments k below, segment]
      · intro k below
        simp only [segments k below, segment, decide_eq_true_eq]
      · intro k below
        simp only [segments k below, segment, decide_eq_true_eq]
      · refine Eq.trans (List.flatMap_congr ?_) (holds_flatten (sent.holds room) nonempty)
        intro k member
        simp only [segments k (List.mem_range.mp member)]

/-- Less the descriptors that already belonged to the DMA, whatever is handed over has sizes up
    to `ETH_TX_BUF_SIZE`. -/
theorem Handed.length_le {r : Tx nb} {frame : List UInt8} (handed : Handed s r n frame)
    (size : ∀ d, (r.heth.desc d).own = true →
      (s.heth.desc d).own = true ∨ (r.heth.desc d).controlBufferSize ≤ ethTxBufSize) :
    frame.length ≤ nb * ethTxBufSize := by
  rw [← handed.bytes, List.length_flatMap]
  simp only [List.length_map, List.length_range]
  have small : ∀ l ∈ (List.range n).map fun k =>
      (r.heth.desc (after s.heth.txDesc k)).controlBufferSize, l ≤ ethTxBufSize := by
    intro l member
    simp only [List.mem_map, List.mem_range] at member
    obtain ⟨k, below, rfl⟩ := member
    have before := handed.before k below
    exact (size _ (handed.own k below)).resolve_left (by simp [before])
  have sum := List.sum_le_card_nsmul _ _ small
  simp only [List.length_map, List.length_range, smul_eq_mul] at sum
  exact sum.trans (Nat.mul_le_mul_right _ handed.ring)

theorem not_handed {frame : List UInt8} (same : s'.heth.desc = s.heth.desc) :
    ¬ Handed s s' n frame := by
  intro handed
  have before := handed.before 0 handed.some'
  have own := handed.own 0 handed.some'
  rw [same, before] at own
  cases own

theorem Truthful.handed (truthful : Truthful s p (lowLevelOutput s p))
    (clear : ¬ (p ≠ [] ∧ s.Blocked (chainBytes p).length)) :
    s.heth.locked = false ∧ 0 < (chainBytes p).length ∧
      (chainBytes p).length ≤ nb * ethTxBufSize := by
  have cases' := lowLevelOutput_cases s p
  generalize lowLevelOutput s p = r at cases' truthful
  cases cases' with
  | blocked c careful blocked => exact absurd blocked clear
  | sent c sent =>
      obtain ⟨n, handed⟩ := truthful.1.mp rfl
      have transmitted := halEthTransmitFrame_cases s.heth c.framelength
      generalize halEthTransmitFrame s.heth c.framelength = out at transmitted handed
      cases transmitted with
      | kept h' status desc txDesc reason =>
          exact absurd handed (not_handed (by simp [desc]))
      | given h' given unlocked positive =>
          refine ⟨unlocked, ?_, handed.length_le ?_⟩
          · rw [sent.framelength] at positive
            exact Nat.pos_of_ne_zero fun empty => by simp [empty] at positive
          · simpa using given.size

/-- For every chain of between 1 and `ETH_TXBUFNB * ETH_TX_BUF_SIZE` bytes, every split and
    every `TxDesc`, a free ring is given exactly the frame. -/
theorem output_sends_chain (s : Tx ethTxbufnb) (p : List Pbuf)
    (unlocked : s.heth.locked = false) (free : ∀ d, (s.heth.desc d).own = false)
    (nonempty : 1 ≤ (chainBytes p).length)
    (room : (chainBytes p).length ≤ ethTxbufnb * ethTxBufSize) :
    (lowLevelOutput s p).2 = .ok ∧
      Handed s (lowLevelOutput s p).1
        (((chainBytes p).length + (ethTxBufSize - 1)) / ethTxBufSize) (chainBytes p) := by
  have cases' := lowLevelOutput_cases s p
  generalize lowLevelOutput s p = r at cases'
  cases cases' with
  | sent c sent =>
      refine ⟨rfl, sent.handed unlocked nonempty room ?_⟩
      simp only [ethTxbufnb, ethTxBufSize] at room
      omega
  | blocked c careful blocked =>
      obtain ⟨-, k, -, owned⟩ := blocked
      exact absurd (free _) owned

/-- A ring that belongs to the CPU, with `TxDesc` at its end. -/
def freeRing (locked : Bool) : Tx ethTxbufnb where
  heth := {
    desc := fun _ => { own := false, fs := false, ls := false, controlBufferSize := 0 }
    txDesc := Fin.last 3
    locked := locked
    state := .ready
    tbus := false
    tus := false
    dmatpdr := 0 }
  buf := fun _ _ => 0
  written := []

def longChain : List Pbuf := [pbufOf 1400, pbufOf 0, pbufOf 1400]

theorem length_pbufOf (len : Fin 1500) : (pbufOf len).bytes.length = len := by
  simp [Pbuf.bytes, pbufOf]

theorem chainBytes_longChain : (chainBytes longChain).length = 2800 := by
  simp only [chainBytes, longChain, List.flatMap_cons, List.flatMap_nil, List.length_append,
    length_pbufOf]
  rfl

/-- The chain goes into the last buffer and then into the first one. -/
theorem output_sends_chain_short :
    (lowLevelOutput (freeRing false) longChain).2 = .ok ∧
      Handed (freeRing false) (lowLevelOutput (freeRing false) longChain).1
        (((chainBytes longChain).length + (ethTxBufSize - 1)) / ethTxBufSize)
        (chainBytes longChain) :=
  output_sends_chain (freeRing false) longChain rfl (fun _ => rfl)
    (by rw [chainBytes_longChain]; decide) (by rw [chainBytes_longChain]; decide)

/-- `low_level_output` reports the truth exactly if it does not get through the ring, or if
    `heth` is not locked and the frame has a length the ring can take. -/
theorem output_truthful_iff (s : Tx ethTxbufnb) (p : List Pbuf) :
    Truthful s p (lowLevelOutput s p) ↔
      (p ≠ [] ∧ s.Blocked (chainBytes p).length) ∨
        (s.heth.locked = false ∧ 0 < (chainBytes p).length ∧
          (chainBytes p).length ≤ ethTxbufnb * ethTxBufSize) := by
  constructor
  · intro truthful
    by_cases blocked : p ≠ [] ∧ s.Blocked (chainBytes p).length
    · exact .inl blocked
    · exact .inr (truthful.handed blocked)
  intro condition
  have cases' := lowLevelOutput_cases s p
  generalize lowLevelOutput s p = r at cases'
  cases cases' with
  | blocked c careful blocked =>
      refine ⟨iff_of_false (by simp) ?_, ?_⟩
      · rintro ⟨n, handed⟩
        exact not_handed (TxHeth.resumeUnderflow_desc _) handed
      · intro
        simp
  | sent c sent =>
      obtain ⟨unlocked, nonempty, room⟩ := condition.resolve_left sent.clear
      refine ⟨iff_of_true rfl ⟨_, sent.handed unlocked nonempty room ?_⟩, ?_⟩
      · simp only [ethTxbufnb, ethTxBufSize] at room
        omega
      · intro failed
        exact absurd rfl failed

theorem freeRing_clear (locked : Bool) (t : Nat) : ¬ (freeRing locked).Blocked t := by
  intro blocked
  obtain ⟨k, -, owned⟩ := blocked
  exact owned rfl

/-- A frame for a locked `heth`, and an empty one: neither is sent, and both are reported as
    sent. -/
theorem output_untruthful :
    ¬ Truthful (freeRing true) [pbufOf 60] (lowLevelOutput (freeRing true) [pbufOf 60]) ∧
      ¬ Truthful (freeRing false) [pbufOf 0] (lowLevelOutput (freeRing false) [pbufOf 0]) := by
  constructor
  · intro truthful
    obtain ⟨unlocked, -⟩ := truthful.handed fun blocked => freeRing_clear _ _ blocked.2
    cases unlocked
  · intro truthful
    obtain ⟨-, nonempty, -⟩ := truthful.handed fun blocked => freeRing_clear _ _ blocked.2
    cases nonempty

end ExploreF407.Eth
