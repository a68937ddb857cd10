import Mathlib

/-! # Packet buffers and what is copied between them and the DMA -/

namespace ExploreF407.Eth

def ethTxBufSize : Nat := 1524

def ethRxBufSize : Nat := 1524

/-- A `pbuf` of a chain: `len` and the memory behind `payload`. -/
structure Pbuf where
  len : Nat
  payload : Nat → UInt8
  len_lt : len < 2 ^ 16

def Pbuf.bytes (q : Pbuf) : List UInt8 := (List.range q.len).map q.payload

def chainBytes (p : List Pbuf) : List UInt8 := p.flatMap Pbuf.bytes

def pbufOf (len : Fin 1500) : Pbuf where
  len := len
  payload := fun _ => 7
  len_lt := by omega

/-- `memcpy(dst + at', src + from', n)`. -/
def memcpy (dst : Nat → UInt8) (at' : Nat) (src : Nat → UInt8) (from' n : Nat) : Nat → UInt8 :=
  fun o => if at' ≤ o ∧ o < at' + n then src (from' + (o - at')) else dst o

variable {dst src : Nat → UInt8} {at' from' n o k : Nat}

theorem memcpy_inside (inside : k < n) : memcpy dst at' src from' n (at' + k) = src (from' + k) := by
  simp [memcpy, inside]

theorem memcpy_outside (outside : ¬ (at' ≤ o ∧ o < at' + n)) :
    memcpy dst at' src from' n o = dst o :=
  if_neg outside

end ExploreF407.Eth
