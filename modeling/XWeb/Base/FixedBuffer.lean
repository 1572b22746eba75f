import XWeb.Lib.CInt

/-!
# `FixedBuffer`

Model of `base/log_stream.h` lines 7–44. The state is the block of bytes from `data_` to `cur_`;
`length` and `avail` are casts of pointer differences to `int`.

* `length_eq`, `avail_eq`: in a buffer with room to spare the casts are exact.
* `append_of_lt`, `append_of_le`: `append` adds all bytes, or none when they do not fit.
-/

namespace XWeb.Base

open XWeb.Lib

def kSmallBuffer : ℕ := 4000
def kLargeBuffer : ℕ := 4000 * 1000

/-- `FixedBuffer<SIZE>`: the bytes before `cur_`. -/
structure FixedBuffer (SIZE : ℕ) where
  data : Bytes
  deriving DecidableEq

namespace FixedBuffer

variable {SIZE : ℕ}

/-- The constructor: `cur_(data_)`. -/
def new : FixedBuffer SIZE := ⟨[]⟩

/-- `length` (line 30): `static_cast<int>(cur_ - data_)`. -/
def length (b : FixedBuffer SIZE) : ℤ := toInt b.data.length

/-- `avail` (line 33): `static_cast<int>(end() - cur_)`. -/
def avail (b : FixedBuffer SIZE) : ℤ := toInt (SIZE - b.data.length)

/-- `append` (lines 21–27), which compares with `static_cast<int>(len)`. -/
def append (b : FixedBuffer SIZE) (buf : Bytes) : FixedBuffer SIZE :=
  if b.avail > toInt buf.length then ⟨b.data ++ buf⟩ else b

/-- `reset` (line 36). -/
def reset (_ : FixedBuffer SIZE) : FixedBuffer SIZE := ⟨[]⟩

/-- `bzero` (line 37): the bytes are zeroed, `cur_` stays. -/
def bzero (b : FixedBuffer SIZE) : FixedBuffer SIZE := ⟨List.replicate b.data.length 0⟩

/-- The bytes `data()` to `data() + length()`. -/
def text (b : FixedBuffer SIZE) : Bytes := b.data.take b.length.toNat

@[simp] theorem data_new : (new : FixedBuffer SIZE).data = [] := rfl

@[simp] theorem data_reset (b : FixedBuffer SIZE) : b.reset.data = [] := rfl

@[simp] theorem data_bzero_new : (new : FixedBuffer SIZE).bzero.data = [] := rfl

/-- The buffer is not full: `avail` is positive. -/
def Spare (b : FixedBuffer SIZE) : Prop := b.data.length < SIZE

theorem spare_of_nil {b : FixedBuffer SIZE} (h : b.data = []) (hpos : 0 < SIZE) : b.Spare := by
  simpa [Spare, h] using hpos

theorem Spare.length_eq {b : FixedBuffer SIZE} (h : b.Spare) (hS : SIZE < 2 ^ 31) :
    b.length = b.data.length := by
  unfold Spare at h
  exact toInt_of_le_of_lt (by omega) (by omega)

theorem Spare.avail_eq {b : FixedBuffer SIZE} (h : b.Spare) (hS : SIZE < 2 ^ 31) :
    b.avail = SIZE - b.data.length := by
  unfold Spare at h
  exact toInt_of_le_of_lt (by omega) (by omega)

theorem Spare.text_eq {b : FixedBuffer SIZE} (h : b.Spare) (hS : SIZE < 2 ^ 31) :
    b.text = b.data := by
  unfold text
  rw [h.length_eq hS, Int.toNat_natCast, List.take_length]

theorem text_of_nil {b : FixedBuffer SIZE} (h : b.data = []) : b.text = [] := by
  simp [text, h]

/-- The test of `append`, and of its caller `AsyncLogging::append`. -/
theorem Spare.avail_gt_iff {b : FixedBuffer SIZE} (h : b.Spare) (hS : SIZE < 2 ^ 31) (n : ℕ) :
    b.avail > n ↔ b.data.length + n < SIZE := by
  rw [h.avail_eq hS]
  unfold Spare at h
  omega

theorem Spare.append_of_lt {b : FixedBuffer SIZE} (h : b.Spare) (hS : SIZE < 2 ^ 31) {buf : Bytes}
    (hlen : b.data.length + buf.length < SIZE) : b.append buf = ⟨b.data ++ buf⟩ := by
  unfold append
  rw [toInt_of_le_of_lt (by omega) (by omega), if_pos ((h.avail_gt_iff hS _).mpr hlen)]

theorem Spare.append_of_le {b : FixedBuffer SIZE} (h : b.Spare) (hS : SIZE < 2 ^ 31) {buf : Bytes}
    (hbuf : buf.length < 2 ^ 31) (hlen : SIZE ≤ b.data.length + buf.length) : b.append buf = b := by
  unfold append
  rw [toInt_of_le_of_lt (by omega) (by omega), if_neg]
  rw [h.avail_gt_iff hS]
  omega

theorem Spare.append {b : FixedBuffer SIZE} (h : b.Spare) (hS : SIZE < 2 ^ 31) {buf : Bytes}
    (hbuf : buf.length < 2 ^ 31) : (b.append buf).Spare := by
  rcases Nat.lt_or_ge (b.data.length + buf.length) SIZE with hlt | hge
  · rw [h.append_of_lt hS hlt]
    simpa [Spare] using hlt
  · rwa [h.append_of_le hS hbuf hge]

end FixedBuffer

end XWeb.Base
