import Mathlib.Algebra.Order.Ring.Nat

/-!
# Machine integers and byte strings

The code computes with `PRUint32`, `PRUint64`, `int` and `PRIntervalTime`. Sizes
are natural numbers here, and a width appears where the source depends on it:
`wrap32` is the value kept by a `PRUint32`, `int32` the `int` with the same bits,
and `sub32` a difference that is only taken where it cannot go below zero.
-/

namespace Negatus

abbrev Bytes : Type := List UInt8

/-- The bytes of a string literal of the source. -/
def str (s : String) : Bytes := s.toUTF8.data.toList

def newline : UInt8 := 10

/-- Value of a `PRUint32` after storing `n` in it. -/
def wrap32 (n : Nat) : Nat := n % 2 ^ 32

/-- The `int` with the same 32 bits as the `PRUint32` `n`. -/
def int32 (n : Nat) : Int := Int.bmod n (2 ^ 32)

/-- The `PRUint32` with the same 32 bits as the `int` `i`. -/
def uint32 (i : Int) : Nat := (i % 2 ^ 32).toNat

/-- `int` addition; signed overflow has no defined result. -/
def addInt (a b : Int) : Option Int :=
  if -2 ^ 31 ≤ a + b ∧ a + b < 2 ^ 31 then some (a + b) else none

/-- `PRUint32` difference; `none` where it would wrap below zero. -/
def sub32 (a b : Nat) : Option Nat :=
  if b ≤ a then some (a - b) else none

theorem addInt_of_range {a b : Int} (h : -2 ^ 31 ≤ a + b ∧ a + b < 2 ^ 31) :
    addInt a b = some (a + b) := by
  unfold addInt
  rw [if_pos h]

@[simp] theorem sub32_of_le {a b : Nat} (h : b ≤ a) : sub32 a b = some (a - b) := by
  simp [sub32, h]

theorem wrap32_of_lt {n : Nat} (h : n < 2 ^ 32) : wrap32 n = n :=
  Nat.mod_eq_of_lt h

theorem int32_of_lt {n : Nat} (h : n < 2 ^ 31) : int32 n = n := by
  unfold int32
  rw [Int.bmod_eq_of_le] <;> omega

theorem uint32_ofNat {n : Nat} (h : n < 2 ^ 32) : uint32 (n : Int) = n := by
  unfold uint32
  omega

theorem uint32_neg_one : uint32 (-1) = 4294967295 := by decide

end Negatus
