import Mathlib

/-! # lwIP result codes and waiting times -/

namespace ExploreF407.Lwip

/-- `err_enum_t` of `lwip/err.h`. -/
inductive ErrT where
  | ok
  | mem
  | buf
  | timeout
  | rte
  | inprogress
  | val
  | wouldblock
  | use
  | already
  | isconn
  | conn
  | if_
  | abrt
  | rst
  | clsd
  | arg
  deriving Repr, DecidableEq

/-- `SYS_ARCH_TIMEOUT`, an `u32_t` that doubles as a waiting time. -/
def sysArchTimeout : Nat := 0xffffffff

def sysMboxEmpty : Nat := sysArchTimeout

/-- `OSTickCtr - starttick` on the 32-bit tick counter. -/
def elapsedTicks (start now : Nat) : Nat := (now + 2 ^ 32 - start % 2 ^ 32) % 2 ^ 32

end ExploreF407.Lwip
