import ExploreF407.Eth.Transmit

/-! # What `low_level_output` copies

The position in the chain and the place in the ring go together: with `j` buffers full and
`bufferoffset` bytes in the current one, `j * ETH_TX_BUF_SIZE + bufferoffset` bytes have
been copied. The next buffer is only entered when there is a byte for it.
-/

namespace ExploreF407.Eth

open Chunks Lwip Ring

variable {nb : Nat} [NeZero nb] {s : Tx nb} {c : TxCopy nb} {q : Pbuf} {p : List Pbuf}
  {done : List UInt8} {j n t left payloadoffset : Nat}

/-- The `k`-th descriptor from `TxDesc` on belongs to the CPU. -/
def Tx.Free (s : Tx nb) (k : Nat) : Prop := (s.heth.desc (after s.heth.txDesc k)).own = false

/-- One of the descriptors that `t` bytes reach belongs to the DMA. -/
def Tx.Blocked (s : Tx nb) (t : Nat) : Prop := ∃ k, (k = 0 ∨ k * ethTxBufSize < t) ∧ ¬ s.Free k

/-- All bytes written have gone into buffers of the CPU, and all others are as they were. -/
structure Careful (s : Tx nb) (buf : Fin nb → Nat → UInt8) (written : List (Fin nb × Nat)) :
    Prop where
  free : ∀ d o, (d, o) ∈ written → (s.heth.desc d).own = false ∧ o < ethTxBufSize
  kept : ∀ d o, (d, o) ∉ written → buf d o = s.buf d o

/-- `done` has been copied, and `j` buffers are full. -/
structure Copied (s : Tx nb) (done : List UInt8) (j : Nat) (c : TxCopy nb) : Prop where
  desc : c.dmaTxDesc = after s.heth.txDesc j
  buffer : c.buffer = c.dmaTxDesc
  length : done.length = j * ethTxBufSize + c.bufferoffset
  fits : c.bufferoffset ≤ ethTxBufSize
  framelength : c.framelength = done.length % 2 ^ 32
  holds : done.length ≤ nb * ethTxBufSize → Chunks.Holds ethTxBufSize c.buf s.heth.txDesc done
  careful : Careful s c.buf c.written
  free : ∀ k < j, s.Free k

def Pbuf.part (q : Pbuf) (payloadoffset n : Nat) : List UInt8 :=
  (List.range n).map fun k => q.payload (payloadoffset + k)

theorem Pbuf.length_part : (q.part payloadoffset n).length = n := by simp [Pbuf.part]

theorem Pbuf.part_append {m : Nat} :
    q.part payloadoffset m ++ q.part (payloadoffset + m) n = q.part payloadoffset (m + n) := by
  simp [Pbuf.part, List.range_add, Function.comp_def, Nat.add_assoc]

theorem Copied.copy (copied : Copied s done j c) (free : s.Free j)
    (inside : c.bufferoffset + n ≤ ethTxBufSize) :
    Copied s (done ++ q.part payloadoffset n) j
      { c.copy q payloadoffset n with bufferoffset := c.bufferoffset + n } := by
  have here : c.buffer = after s.heth.txDesc j := copied.buffer.trans copied.desc
  have length := copied.length
  constructor
  · exact copied.desc
  · exact copied.buffer
  · simp only [List.length_append, Pbuf.length_part]
    omega
  · exact inside
  · simp only [TxCopy.copy, copied.framelength, List.length_append, Pbuf.length_part,
      Nat.mod_add_mod]
  · intro room
    rw [List.length_append, Pbuf.length_part] at room
    apply (copied.holds (by omega)).append (by simp [ethTxBufSize]) length
    · rwa [Pbuf.length_part]
    · rwa [Pbuf.length_part]
    · intro k x at'
      obtain ⟨below, rfl⟩ := List.getElem?_eq_some_iff.mp at'
      rw [Pbuf.length_part] at below
      simp [TxCopy.copy, here, memcpy_inside below, Pbuf.part]
    · intro d o outside
      rw [Pbuf.length_part] at outside
      simp only [TxCopy.copy, here]
      rcases eq_or_ne d (after s.heth.txDesc j) with rfl | other
      · rw [Function.update_self, memcpy_outside (fun both => outside ⟨rfl, both⟩)]
      · rw [Function.update_of_ne other]
  · constructor
    · intro d o member
      simp only [TxCopy.copy, List.mem_append, List.mem_map, List.mem_range, Prod.mk.injEq]
        at member
      rcases member with earlier | ⟨k, below, rfl, rfl⟩
      · exact copied.careful.free d o earlier
      · rw [here]
        exact ⟨free, by omega⟩
    · intro d o absent
      simp only [TxCopy.copy, List.mem_append, List.mem_map, List.mem_range, Prod.mk.injEq,
        not_or, not_exists, not_and] at absent ⊢
      obtain ⟨earlier, now⟩ := absent
      rw [← copied.careful.kept d o earlier]
      rcases eq_or_ne d c.buffer with rfl | other
      · rw [Function.update_self, memcpy_outside]
        intro inside
        obtain ⟨low, high⟩ := inside
        exact now (o - c.bufferoffset) (by omega) rfl (by omega)
      · rw [Function.update_of_ne other]
  · exact copied.free

theorem Copied.cross (copied : Copied s done j c) (free : s.Free j)
    (full : c.bufferoffset = ethTxBufSize) :
    Copied s done (j + 1)
      { c with dmaTxDesc := c.dmaTxDesc + 1, buffer := c.dmaTxDesc + 1, bufferoffset := 0 } := by
  constructor
  · simp only [copied.desc, after_succ]
  · rfl
  · rw [copied.length, full, Nat.succ_mul, Nat.add_zero]
  · exact Nat.zero_le _
  · exact copied.framelength
  · exact copied.holds
  · exact copied.careful
  · intro k below
    rcases Nat.lt_succ_iff_lt_or_eq.mp below with earlier | rfl
    · exact copied.free k earlier
    · exact free

/-- What a part of the loop over the chain has done, when `done` is all it should have
    copied. -/
def Outcome (s : Tx nb) (done : List UInt8) : TxCopy nb × Bool → Prop
  | (c, true) => ∃ j, Copied s done j c ∧ s.Free j ∧ (j = 0 ∨ 0 < c.bufferoffset)
  | (c, false) => Careful s c.buf c.written ∧ s.Blocked done.length

theorem copyBytes_outcome (copied : Copied s done j c) (free : s.Free j)
    (needed : j = 0 ∨ 0 < left + c.bufferoffset) :
    Outcome s (done ++ q.part payloadoffset left)
      (c.copyBytes s.heth.desc q left payloadoffset) := by
  fun_induction TxCopy.copyBytes s.heth.desc q left payloadoffset c generalizing done j with
  | case1 left payloadoffset c beyond n =>
      rename_i owned
      have fits := copied.fits
      have length := copied.length
      have filled : Copied s (done ++ q.part payloadoffset (ethTxBufSize - c.bufferoffset)) j _ :=
        copied.copy free (by omega)
      refine ⟨⟨filled.careful.free, filled.careful.kept⟩, j + 1, .inr ?_, ?_⟩
      · rw [List.length_append, Pbuf.length_part, Nat.succ_mul]
        omega
      · rw [Tx.Free, after_succ, ← copied.desc, owned]
        simp
  | case2 left payloadoffset c beyond n dmaTxDesc =>
      rename_i clear ih
      have fits := copied.fits
      have filled : Copied s (done ++ q.part payloadoffset (ethTxBufSize - c.bufferoffset)) j _ :=
        copied.copy free (by omega)
      have next := filled.cross free (by simp only; omega)
      have free' : s.Free (j + 1) := by
        rw [Tx.Free, after_succ, ← copied.desc]
        simpa using clear
      have rest := ih next free' (.inr (by simp only; omega))
      rw [List.append_assoc, Pbuf.part_append, Nat.add_sub_cancel' (by omega)] at rest
      exact rest
  | case3 left payloadoffset c within =>
      refine ⟨j, copied.copy free (by omega), free, ?_⟩
      simp only
      omega

theorem Tx.Blocked.mono {t' : Nat} (blocked : s.Blocked t) (more : t ≤ t') : s.Blocked t' := by
  obtain ⟨k, reached, owned⟩ := blocked
  exact ⟨k, by omega, owned⟩

theorem Pbuf.part_bytes : q.part 0 q.len = q.bytes := by
  simp [Pbuf.part, Pbuf.bytes]

theorem copyChain_outcome (copied : Copied s done j c) (needed : j = 0 ∨ 0 < c.bufferoffset)
    (enters : p ≠ [] ∨ s.Free j) :
    Outcome s (done ++ chainBytes p) (c.copyChain s.heth.desc p) := by
  induction p generalizing done j c with
  | nil =>
      simp only [chainBytes, List.flatMap_nil, List.append_nil, TxCopy.copyChain]
      exact ⟨j, copied, by simpa using enters, needed⟩
  | cons q qs ih =>
      have bytes : done ++ chainBytes (q :: qs) = done ++ q.part 0 q.len ++ chainBytes qs := by
        simp only [chainBytes, List.flatMap_cons, Pbuf.part_bytes, List.append_assoc]
      simp only [TxCopy.copyChain, bytes]
      split
      · rename_i owned
        refine ⟨copied.careful, j, ?_, ?_⟩
        · have length := copied.length
          simp only [List.length_append]
          omega
        · simp only [Tx.Free, ← copied.desc, owned]
          simp
      · rename_i clear
        have free : s.Free j := by
          simp only [Tx.Free, ← copied.desc]
          simpa using clear
        have pbuf : Outcome s (done ++ q.part 0 q.len) _ :=
          copyBytes_outcome copied free (by omega)
        split
        · rename_i next copiedAll
          simp only [copiedAll] at pbuf
          obtain ⟨j', copied', free', needed'⟩ := pbuf
          exact ih copied' needed' (.inr free')
        · rename_i next stopped
          simp only [stopped] at pbuf
          refine ⟨pbuf.1, pbuf.2.mono ?_⟩
          simp only [List.length_append]
          omega

/-! ## `low_level_output` -/

def Tx.start (s : Tx nb) : TxCopy nb :=
  { dmaTxDesc := s.heth.txDesc, buffer := s.heth.txDesc, bufferoffset := 0, framelength := 0,
    buf := s.buf, written := [] }

theorem Copied.start (s : Tx nb) : Copied s [] 0 s.start := by
  constructor
  · simp only [Tx.start, after_zero]
  · rfl
  · rfl
  · exact Nat.zero_le _
  · rfl
  · intro
    exact Chunks.Holds.nil
  · constructor
    · intro d o member
      cases member
    · intro d o absent
      rfl
  · intro k below
    cases below

/-- What `low_level_output` has copied when it goes on to `HAL_ETH_TransmitFrame`. -/
structure Sent (s : Tx nb) (p : List Pbuf) (c : TxCopy nb) : Prop where
  framelength : c.framelength = (chainBytes p).length % 2 ^ 32
  holds : (chainBytes p).length ≤ nb * ethTxBufSize →
    Chunks.Holds ethTxBufSize c.buf s.heth.txDesc (chainBytes p)
  careful : Careful s c.buf c.written
  clear : ¬ (p ≠ [] ∧ s.Blocked (chainBytes p).length)

/-- Everything `low_level_output` does is one of these. -/
inductive Output (s : Tx nb) (p : List Pbuf) : Tx nb × ErrT → Prop where
  | sent (c : TxCopy nb) (sent : Sent s p c) :
      Output s p
        ({ heth := (halEthTransmitFrame s.heth c.framelength).1.resumeUnderflow
           buf := c.buf
           written := c.written }, .ok)
  | blocked (c : TxCopy nb) (careful : Careful s c.buf c.written)
      (blocked : p ≠ [] ∧ s.Blocked (chainBytes p).length) :
      Output s p ({ heth := s.heth.resumeUnderflow, buf := c.buf, written := c.written }, .use)

theorem Copied.not_blocked (copied : Copied s done j c) (free : s.Free j) :
    ¬ s.Blocked done.length := by
  intro blocked
  obtain ⟨k, reached, owned⟩ := blocked
  have length := copied.length
  have fits := copied.fits
  rcases Nat.lt_trichotomy k j with earlier | rfl | later
  · exact owned (copied.free k earlier)
  · exact owned free
  · have := Nat.mul_le_mul_right ethTxBufSize later
    rw [Nat.succ_mul] at this
    omega

theorem lowLevelOutput_cases (s : Tx nb) (p : List Pbuf) : Output s p (lowLevelOutput s p) := by
  rcases eq_or_ne p [] with rfl | pbufs
  · refine .sent s.start ⟨rfl, ?_, (Copied.start s).careful, ?_⟩
    · intro
      exact Chunks.Holds.nil
    · simp
  · have copied := copyChain_outcome (Copied.start s) (.inl rfl) (.inl pbufs)
    simp only [List.nil_append] at copied
    rcases result : s.start.copyChain s.heth.desc p with ⟨c, stopped | all⟩
    · simp only [result, Outcome] at copied
      simp only [Tx.start] at result
      simp only [lowLevelOutput, result]
      exact .blocked c copied.1 ⟨pbufs, copied.2⟩
    · simp only [result, Outcome] at copied
      obtain ⟨j, copied, free, -⟩ := copied
      simp only [Tx.start] at result
      simp only [lowLevelOutput, result]
      refine .sent c ⟨copied.framelength, copied.holds, copied.careful, ?_⟩
      rintro ⟨-, blocked⟩
      exact copied.not_blocked free blocked

omit [NeZero nb] in
@[simp] theorem TxHeth.resumeUnderflow_desc (h : TxHeth nb) : h.resumeUnderflow.desc = h.desc := by
  simp only [TxHeth.resumeUnderflow]
  split <;> rfl

omit [NeZero nb] in
@[simp] theorem TxHeth.resumeUnderflow_txDesc (h : TxHeth nb) :
    h.resumeUnderflow.txDesc = h.txDesc := by
  simp only [TxHeth.resumeUnderflow]
  split <;> rfl

/-- For every ownership pattern, every `TxDesc` and every chain, the bytes written are in
    buffers of the CPU and every other byte is kept. After `ERR_USE` the ring is as before, so
    that the buffers written are still those of the CPU. -/
theorem output_spares_dma (s : Tx nb) (p : List Pbuf) :
    let r := lowLevelOutput s p
    (∀ d o, (d, o) ∈ r.1.written → (s.heth.desc d).own = false ∧ o < ethTxBufSize) ∧
      (∀ d o, (d, o) ∉ r.1.written → r.1.buf d o = s.buf d o) ∧
      (r.2 = .use → r.1.heth.desc = s.heth.desc ∧ r.1.heth.txDesc = s.heth.txDesc ∧
        ∀ d o, (d, o) ∈ r.1.written → (r.1.heth.desc d).own = false) := by
  intro r
  have cases' : Output s p r := lowLevelOutput_cases s p
  generalize r = out at cases'
  cases cases' with
  | sent c sent =>
      refine ⟨sent.careful.free, sent.careful.kept, ?_⟩
      intro use
      cases use
  | blocked c careful blocked =>
      refine ⟨careful.free, careful.kept, fun _ => ⟨?_, ?_, ?_⟩⟩
      · simp only [TxHeth.resumeUnderflow_desc]
      · simp only [TxHeth.resumeUnderflow_txDesc]
      · intro d o member
        simp only [TxHeth.resumeUnderflow_desc]
        exact (careful.free d o member).1

/-- The second of two descriptors belongs to the DMA. -/
def halfRing : Tx 2 where
  heth := {
    desc := fun d => { own := d = 1, fs := false, ls := false, controlBufferSize := 0 }
    txDesc := 0
    locked := false
    state := .ready
    tbus := false
    tus := false
    dmatpdr := 0 }
  buf := fun _ _ => 0
  written := []

/-- A frame that does not fit into the first buffer. -/
theorem output_spares_dma_two :
    let r := lowLevelOutput halfRing [pbufOf 1000, pbufOf 1000]
    r.2 = .use ∧
      (∀ d o, (d, o) ∈ r.1.written → (halfRing.heth.desc d).own = false ∧ o < ethTxBufSize) ∧
      (∀ d o, (d, o) ∉ r.1.written → r.1.buf d o = halfRing.buf d o) ∧
      (r.2 = .use → r.1.heth.desc = halfRing.heth.desc ∧ r.1.heth.txDesc = halfRing.heth.txDesc ∧
        ∀ d o, (d, o) ∈ r.1.written → (r.1.heth.desc d).own = false) :=
  ⟨by decide +kernel, output_spares_dma halfRing [pbufOf 1000, pbufOf 1000]⟩

end ExploreF407.Eth
