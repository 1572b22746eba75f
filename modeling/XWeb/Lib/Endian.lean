import XWeb.Lib.CInt
import Mathlib.Algebra.Order.Ring.Int
import Mathlib.Tactic.Positivity
import Mathlib.Tactic.Zify

/-!
# Byte order

Fixed-width integers as bytes. An unsigned integer of `n` bytes is a natural number, a signed one
an integer in two's complement. `storeInt` and `loadInt` are what `memcpy` from and to an integer
variable does on a host of either byte order, `hostToBig` and `bigToHost` are the conversions of
the `htobe64` and `htonl` family.

* `ofLeBytes_leBytes`, `leBytes_ofLeBytes`: digits and value determine each other.
* `signed_unsigned`: a value in range survives the cast to unsigned and back.
* `storeInt_hostToBig`: what is stored after the conversion is big-endian, on any host.
* `bigToHost_loadInt`: the conversion after a load takes it back.
-/

namespace XWeb.Lib

/-! ## Digits to base 256 -/

/-- The `n` low bytes of `v`, least significant first. -/
def leBytes : ℕ → ℕ → Bytes
  | 0, _ => []
  | n + 1, v => UInt8.ofNat v :: leBytes n (v / 256)

/-- The number with these bytes, least significant first. -/
def ofLeBytes : Bytes → ℕ
  | [] => 0
  | b :: bs => b.toNat + 256 * ofLeBytes bs

@[simp] theorem length_leBytes (n : ℕ) : ∀ v, (leBytes n v).length = n := by
  induction n with
  | zero => intro v; rfl
  | succ n ih => intro v; rw [leBytes, List.length_cons, ih]

theorem ofLeBytes_leBytes (n : ℕ) : ∀ v, v < 256 ^ n → ofLeBytes (leBytes n v) = v := by
  induction n with
  | zero =>
    intro v hv
    rw [pow_zero] at hv
    rw [leBytes, ofLeBytes]
    omega
  | succ n ih =>
    intro v hv
    rw [pow_succ] at hv
    rw [leBytes, ofLeBytes, ih (v / 256) (by omega), UInt8.toNat_ofNat']
    omega

theorem ofLeBytes_lt (bs : Bytes) : ofLeBytes bs < 256 ^ bs.length := by
  induction bs with
  | nil => simp [ofLeBytes]
  | cons b bs ih =>
    have hb := b.toNat_lt
    rw [ofLeBytes, List.length_cons, pow_succ]
    omega

theorem leBytes_ofLeBytes (bs : Bytes) : leBytes bs.length (ofLeBytes bs) = bs := by
  induction bs with
  | nil => rfl
  | cons b bs ih =>
    have hb := b.toNat_lt
    rw [List.length_cons, ofLeBytes, leBytes, show (b.toNat + 256 * ofLeBytes bs) / 256 =
      ofLeBytes bs by omega, ih]
    congr 1
    apply UInt8.toNat_inj.mp
    rw [UInt8.toNat_ofNat']
    omega

/-- The `n` low bytes of `v`, most significant first. -/
def beBytes (n v : ℕ) : Bytes := (leBytes n v).reverse

@[simp] theorem length_beBytes (n v : ℕ) : (beBytes n v).length = n := by simp [beBytes]

/-! ## Two's complement -/

/-- The cast of a signed integer to the unsigned one of `n` bytes. -/
def unsigned (n : ℕ) (x : ℤ) : ℕ := (x % 256 ^ n).toNat

/-- The cast back. -/
def signed (n : ℕ) (v : ℕ) : ℤ := Int.bmod v (256 ^ n)

/-- The range of a signed integer of `n` bytes. -/
def InRange (n : ℕ) (x : ℤ) : Prop := -(256 ^ n : ℤ) ≤ 2 * x ∧ 2 * x < 256 ^ n

instance (n : ℕ) (x : ℤ) : Decidable (InRange n x) := by unfold InRange; infer_instance

theorem unsigned_lt (n : ℕ) (x : ℤ) : unsigned n x < 256 ^ n := by
  have hpos : (0 : ℤ) < 256 ^ n := by positivity
  have hlt := Int.emod_lt_of_pos x hpos
  have hnn := Int.emod_nonneg x hpos.ne'
  unfold unsigned
  zify
  rw [Int.toNat_of_nonneg hnn]
  exact hlt

theorem unsigned_signed {n v : ℕ} (h : v < 256 ^ n) : unsigned n (signed n v) = v := by
  unfold unsigned signed
  have hcast : (256 : ℤ) ^ n = ((256 ^ n : ℕ) : ℤ) := by push_cast; rfl
  rw [hcast, Int.bmod_emod, ← Int.natCast_emod, Int.toNat_natCast, Nat.mod_eq_of_lt h]

theorem signed_unsigned {n : ℕ} {x : ℤ} (h : InRange n x) : signed n (unsigned n x) = x := by
  have hpos : (0 : ℤ) < 256 ^ n := by positivity
  have hcast : (256 : ℤ) ^ n = ((256 ^ n : ℕ) : ℤ) := by push_cast; rfl
  obtain ⟨hlo, hhi⟩ := h
  unfold unsigned signed
  rw [Int.toNat_of_nonneg (Int.emod_nonneg x hpos.ne'), hcast, Int.emod_bmod]
  apply Int.bmod_eq_of_le_mul_two <;> omega

/-! ## Memory -/

/-- The byte order of the host. -/
inductive Endian
  | little
  | big
  deriving DecidableEq

/-- The memory of an unsigned integer of `n` bytes. -/
def storeNat (e : Endian) (n v : ℕ) : Bytes :=
  match e with
  | .little => leBytes n v
  | .big => beBytes n v

/-- The unsigned integer in this memory. -/
def loadNat (e : Endian) (bs : Bytes) : ℕ :=
  match e with
  | .little => ofLeBytes bs
  | .big => ofLeBytes bs.reverse

/-- The bytes of `v` in the opposite order. -/
def byteSwap (n v : ℕ) : ℕ := ofLeBytes (beBytes n v)

/-- `htobe` and `betoh` on unsigned integers of `n` bytes: a swap on a little-endian host. -/
def swapIfLittle (e : Endian) (n v : ℕ) : ℕ :=
  match e with
  | .little => byteSwap n v
  | .big => v

theorem storeNat_swapIfLittle (e : Endian) (n v : ℕ) :
    storeNat e n (swapIfLittle e n v) = beBytes n v := by
  cases e with
  | big => rfl
  | little =>
    show leBytes n (ofLeBytes (beBytes n v)) = beBytes n v
    have hle := leBytes_ofLeBytes (beBytes n v)
    rwa [length_beBytes] at hle

theorem swapIfLittle_loadNat (e : Endian) {n v : ℕ} (h : v < 256 ^ n) :
    swapIfLittle e n (loadNat e (beBytes n v)) = v := by
  cases e with
  | big =>
    show ofLeBytes (leBytes n v).reverse.reverse = v
    rw [List.reverse_reverse, ofLeBytes_leBytes n v h]
  | little =>
    show ofLeBytes (leBytes n (ofLeBytes (beBytes n v))).reverse = v
    have hle := leBytes_ofLeBytes (beBytes n v)
    rw [length_beBytes] at hle
    rw [hle, beBytes, List.reverse_reverse, ofLeBytes_leBytes n v h]

/-! ## Signed integers in memory -/

/-- `memcpy` from a signed integer variable of `n` bytes. -/
def storeInt (e : Endian) (n : ℕ) (x : ℤ) : Bytes := storeNat e n (unsigned n x)

/-- `memcpy` to a signed integer variable. -/
def loadInt (e : Endian) (n : ℕ) (bs : Bytes) : ℤ := signed n (loadNat e bs)

/-- `htobe64`, `htonl`, `htons` with their casts. -/
def hostToBig (e : Endian) (n : ℕ) (x : ℤ) : ℤ := signed n (swapIfLittle e n (unsigned n x))

/-- `be64toh`, `ntohl`, `ntohs` with their casts. -/
def bigToHost (e : Endian) (n : ℕ) (x : ℤ) : ℤ := signed n (swapIfLittle e n (unsigned n x))

theorem swapIfLittle_lt (e : Endian) {n v : ℕ} (h : v < 256 ^ n) :
    swapIfLittle e n v < 256 ^ n := by
  cases e with
  | big => exact h
  | little =>
    have hlt := ofLeBytes_lt (beBytes n v)
    rwa [length_beBytes] at hlt

theorem loadNat_lt (e : Endian) (bs : Bytes) : loadNat e bs < 256 ^ bs.length := by
  cases e with
  | little => exact ofLeBytes_lt bs
  | big =>
    have hlt := ofLeBytes_lt bs.reverse
    rwa [List.length_reverse] at hlt

theorem storeInt_hostToBig (e : Endian) (n : ℕ) (x : ℤ) :
    storeInt e n (hostToBig e n x) = beBytes n (unsigned n x) := by
  rw [storeInt, hostToBig, unsigned_signed (swapIfLittle_lt e (unsigned_lt n x)),
    storeNat_swapIfLittle]

theorem bigToHost_loadInt (e : Endian) {n : ℕ} {x : ℤ} (h : InRange n x) :
    bigToHost e n (loadInt e n (beBytes n (unsigned n x))) = x := by
  have hlt := loadNat_lt e (beBytes n (unsigned n x))
  rw [length_beBytes] at hlt
  rw [bigToHost, loadInt, unsigned_signed hlt, swapIfLittle_loadNat e (unsigned_lt n x),
    signed_unsigned h]

end XWeb.Lib
