import Mathlib.Algebra.Ring.Nat
import Mathlib.Order.Basic
import Mathlib.Order.Lattice

namespace Word

def u32Max : Nat := 2 ^ 32 - 1

def u64Max : Nat := 2 ^ 64 - 1

def u128Max : Nat := 2 ^ 128 - 1

def u256Max : Nat := 2 ^ 256 - 1

def saturatingAdd (max a b : Nat) : Nat := min (a + b) max

def saturatingMul (max a b : Nat) : Nat := min (a * b) max

end Word
