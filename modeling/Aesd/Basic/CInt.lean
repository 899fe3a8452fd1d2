import Mathlib.Tactic

set_option autoImplicit false

/-! # C integer types over `Nat` and `Int`

Values of the unsigned C types are natural numbers, and every operation whose result is
stored in such a type is followed by the reduction of that type (`uint8`, `uint32`, `sizeT`).
A signed `int` is an `Int`; a conversion of a `size_t` to `int` keeps the low 32 bits in two's
complement (`intOfSizeT`), and a conversion back sign-extends (`sizeTOfInt`). The lemmas say
when a reduction is the identity, which is all a caller with in-range values needs. -/

namespace CInt

/-- Conversion to `uint8_t`. -/
def uint8 (n : Nat) : Nat := n % 2 ^ 8

/-- Conversion to a 32-bit `unsigned int`. -/
def uint32 (n : Nat) : Nat := n % 2 ^ 32

/-- Conversion of an `int` to `unsigned int`. -/
def uint32OfInt (i : Int) : Nat := (i % 2 ^ 32).toNat

/-- Conversion to a 64-bit `size_t`. -/
def sizeT (n : Nat) : Nat := n % 2 ^ 64

/-- Subtraction in `size_t`: it wraps below zero. -/
def sizeTSub (a b : Nat) : Nat := (a + (2 ^ 64 - b % 2 ^ 64)) % 2 ^ 64

/-- `INT_MAX` of a 32-bit `int`. -/
def INT_MAX : Nat := 2 ^ 31 - 1

/-- Conversion of a `size_t` to `int`. -/
def intOfSizeT (n : Nat) : Int := Int.bmod n (2 ^ 32)

/-- Conversion of an `int` to `size_t`. -/
def sizeTOfInt (i : Int) : Nat := (i % 2 ^ 64).toNat

theorem uint8_of_lt {n : Nat} (h : n < 2 ^ 8) : uint8 n = n := Nat.mod_eq_of_lt h

theorem uint32_of_lt {n : Nat} (h : n < 2 ^ 32) : uint32 n = n := Nat.mod_eq_of_lt h

theorem uint32OfInt_of_nonneg {i : Int} (h : 0 ≤ i) (hmax : i ≤ INT_MAX) : uint32OfInt i = i := by
  unfold uint32OfInt
  unfold INT_MAX at hmax
  omega

theorem sizeT_of_lt {n : Nat} (h : n < 2 ^ 64) : sizeT n = n := Nat.mod_eq_of_lt h

@[simp] theorem sizeT_add_sizeT (m n : Nat) : sizeT (sizeT m + n) = sizeT (m + n) :=
  Nat.mod_add_mod m (2 ^ 64) n

theorem sizeTSub_of_le {a b : Nat} (hb : b ≤ a) (ha : a < 2 ^ 64) : sizeTSub a b = a - b := by
  unfold sizeTSub
  omega

/-- Wrapping subtraction undoes wrapping addition. -/
theorem sizeTSub_sizeT_add (a b : Nat) : sizeTSub (sizeT (b + a)) b = sizeT a := by
  unfold sizeTSub sizeT
  omega

/-- A conversion to `int` keeps the value exactly up to `INT_MAX`. -/
theorem intOfSizeT_eq_iff {n : Nat} : intOfSizeT n = n ↔ n ≤ INT_MAX := by
  unfold intOfSizeT INT_MAX
  rw [Int.bmod_def]
  omega

/-- An `int` accumulator to which a `size_t` is added keeps the low 32 bits of the sum. -/
theorem intOfSizeT_add (m n : Nat) :
    intOfSizeT (sizeT (sizeTOfInt (intOfSizeT m) + n)) = intOfSizeT (m + n) := by
  unfold intOfSizeT sizeT sizeTOfInt
  simp only [Int.bmod_def]
  omega

end CInt
