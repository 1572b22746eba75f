import Mathlib.Algebra.Ring.Int.Defs
import Mathlib.Algebra.Ring.Nat
import Mathlib.Tactic.Common

/-!
# C++ integer arithmetic (LP64)

A `char` is a `UInt8`, a block of them a list. `size_t` is 64 bits wide and wraps; values of it
are natural numbers below `2^64` with the wrap written out. A cast to `int` keeps the low 32
bits as a two's-complement number. Flag words (`int` and `uint32_t`) are `BitVec 32`.

* `sizeAdd_of_lt`, `sizeSub_of_le`: without overflow these are `+` and `-`.
* `toInt_of_le_of_lt`: a number in the range of `int` survives the cast.
* `toSize_toInt_eq_iff`: the `size_t`s that survive a cast to `int` and back.
* `has_or`, `or_eq_right_iff`: tests after `|`; `and_lnot`: `& !flag` is not `& ~flag`.
-/

namespace XWeb.Lib

/-- A string or a block of memory. -/
abbrev Bytes := List UInt8

/-- The characters of a string literal. -/
def ascii (s : String) : Bytes := s.toList.map fun c => UInt8.ofNat c.toNat

/-! ## `size_t` -/

/-- `a + b` in `size_t`. -/
def sizeAdd (a b : ℕ) : ℕ := (a + b) % 2 ^ 64

/-- `a - b` in `size_t`. -/
def sizeSub (a b : ℕ) : ℕ := (a + (2 ^ 64 - b)) % 2 ^ 64

theorem sizeAdd_of_lt {a b : ℕ} (h : a + b < 2 ^ 64) : sizeAdd a b = a + b :=
  Nat.mod_eq_of_lt h

theorem sizeSub_of_le {a b : ℕ} (h : b ≤ a) (ha : a < 2 ^ 64) : sizeSub a b = a - b := by
  unfold sizeSub
  rw [show a + (2 ^ 64 - b) = (a - b) + 2 ^ 64 by omega, Nat.add_mod_right]
  exact Nat.mod_eq_of_lt (by omega)

/-- `static_cast<int>(n)` of a wider integer. -/
def toInt (n : ℤ) : ℤ := Int.bmod n (2 ^ 32)

theorem toInt_of_le_of_lt {n : ℤ} (h : -2 ^ 31 ≤ n) (h' : n < 2 ^ 31) : toInt n = n := by
  unfold toInt
  rw [Int.bmod_eq_of_le] <;> omega

theorem toInt_bounds (n : ℤ) : -2 ^ 31 ≤ toInt n ∧ toInt n < 2 ^ 31 := by
  unfold toInt
  have hle := @Int.le_bmod n (2 ^ 32) (by decide)
  have hlt := @Int.bmod_lt n (2 ^ 32) (by decide)
  omega

/-- The conversion of an `int` to `size_t`. A negative number becomes one close to `2^64`. -/
def toSize (n : ℤ) : ℕ := (n % 2 ^ 64).toNat

theorem toSize_lt (n : ℤ) : toSize n < 2 ^ 64 := by
  unfold toSize
  omega

theorem toSize_of_nonneg {n : ℤ} (h : 0 ≤ n) (h' : n < 2 ^ 64) : toSize n = n.toNat := by
  unfold toSize
  rw [Int.emod_eq_of_lt h h']

/-- The conversion of a `size_t` to `ssize_t`. -/
def toSsize (n : ℕ) : ℤ := Int.bmod n (2 ^ 64)

theorem toSsize_of_lt {n : ℕ} (h : n < 2 ^ 63) : toSsize n = n := by
  unfold toSsize
  rw [Int.bmod_eq_of_le] <;> omega

/-- A length survives the way through `int` if it is small, or so large that the sign extends to
    it. -/
theorem toSize_toInt_eq_iff {n : ℕ} (h : n < 2 ^ 64) :
    toSize (toInt n) = n ↔ n < 2 ^ 31 ∨ 2 ^ 64 - 2 ^ 31 ≤ n := by
  unfold toSize toInt Int.bmod
  dsimp only
  split <;> omega

/-! ## Flag words -/

/-- A flag word. -/
abbrev Flags := BitVec 32

/-- The truth value of `x & flag`. -/
def has (x flag : Flags) : Bool := x &&& flag != 0#32

/-- C's `!x`: `1` if `x` is zero, else `0`. -/
def lnot (x : Flags) : Flags := if x = 0#32 then 1#32 else 0#32

theorem lnot_of_ne {x : Flags} (h : x ≠ 0#32) : lnot x = 0#32 := if_neg h

@[simp] theorem has_zero (flag : Flags) : has 0#32 flag = false := by simp [has]

theorem has_or (x y flag : Flags) : has (x ||| y) flag = (has x flag || has y flag) := by
  rw [Bool.eq_iff_iff]
  simp only [has, BitVec.and_or_distrib_right, bne_iff_ne, ne_eq, BitVec.or_eq_zero_iff,
    Bool.or_eq_true]
  tauto

/-- `x` has no bit that `y` lacks. -/
theorem or_eq_right_iff (x y : Flags) : x ||| y = y ↔ x &&& ~~~ y = 0#32 := by
  constructor
  · intro h
    apply BitVec.eq_of_getLsbD_eq
    intro i hi
    have hbit := congrArg (fun z => z.getLsbD i) h
    simp only [BitVec.getLsbD_or] at hbit
    cases hx : x.getLsbD i <;> cases hy : y.getLsbD i <;> simp_all
  · intro h
    apply BitVec.eq_of_getLsbD_eq
    intro i hi
    have hbit := congrArg (fun z => z.getLsbD i) h
    simpa [hi] using hbit

/-- A mask that has a flag of one bit does not change by it. -/
theorem or_of_has {m : Flags} {i : ℕ} (h : has m (BitVec.twoPow 32 i) = true) :
    BitVec.twoPow 32 i ||| m = m := by
  have hbit : m &&& BitVec.twoPow 32 i = BitVec.twoPow 32 i := by
    cases hm : m.getLsbD i
    · simp [has, BitVec.and_twoPow, hm] at h
    · simp [BitVec.and_twoPow, hm]
  rw [or_eq_right_iff, ← hbit, BitVec.and_comm m, BitVec.and_assoc, BitVec.and_not_self]
  exact BitVec.and_zero

/-- `x & !flag`, written where `x & ~flag` was meant: every flag is cleared. -/
theorem and_lnot {flag : Flags} (h : flag ≠ 0#32) (x : Flags) : x &&& lnot flag = 0#32 := by
  simp [lnot_of_ne h]

end XWeb.Lib
