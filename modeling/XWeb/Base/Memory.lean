import XWeb.Lib.CInt
import XWeb.Lib.Slice

/-!
# Stores

Stores to a block of memory, which is a list of bytes. A store outside the block is undefined.
-/

namespace XWeb.Base

open XWeb.Lib

def newline : UInt8 := 10

/-- The assignment `usrbuf[i] = c`. -/
def storeAt (usrbuf : Bytes) (i : ℕ) (c : UInt8) : Option Bytes :=
  if i < usrbuf.length then some (overwrite usrbuf i [c]) else none

theorem storeAt_of_lt {usrbuf : Bytes} {i : ℕ} (h : i < usrbuf.length) (c : UInt8) :
    storeAt usrbuf i c = some (overwrite usrbuf i [c]) := if_pos h

theorem length_storeAt {usrbuf : Bytes} {i : ℕ} (h : i < usrbuf.length) (c : UInt8) :
    (overwrite usrbuf i [c]).length = usrbuf.length := length_overwrite h

/-- A store behind a window leaves it alone. -/
theorem window_storeAt {usrbuf : Bytes} {i : ℕ} (h : i < usrbuf.length) (c : UInt8) :
    window (overwrite usrbuf i [c]) 0 i = window usrbuf 0 i := by
  apply window_congr
  intro k _ hk
  rw [getElem?_overwrite (by omega), if_pos hk]

theorem getElem?_storeAt {usrbuf : Bytes} {i : ℕ} (h : i < usrbuf.length) (c : UInt8) :
    (overwrite usrbuf i [c])[i]? = some c := by
  rw [getElem?_overwrite (by omega), if_neg (by omega), if_pos (by simp)]
  simp

/-- Behind bytes that have been stored. -/
theorem storeAt_overwrite {usrbuf d : Bytes} (h : d.length < usrbuf.length) (c : UInt8) :
    storeAt (overwrite usrbuf 0 d) d.length c = some (overwrite usrbuf 0 (d ++ [c])) := by
  have hlen : (overwrite usrbuf 0 d).length = usrbuf.length := length_overwrite (by omega)
  have hstore : overwrite (overwrite usrbuf 0 d) (0 + d.length) [c] =
      overwrite usrbuf 0 (d ++ [c]) := overwrite_overwrite (by omega)
  rw [Nat.zero_add] at hstore
  rw [storeAt_of_lt (by rw [hlen]; exact h), hstore]

/-- Stores in two parts, the second one behind the first. -/
theorem append_overwrite_drop (buf d e : Bytes) :
    d ++ overwrite (buf.drop d.length) 0 e = overwrite buf 0 (d ++ e) := by
  simp [overwrite, List.drop_drop]

/-- `memcpy(buf + off, d, n)` of `n` bytes `d`. -/
def memcpy (buf : Bytes) (off : ℕ) (d : Bytes) : Option Bytes :=
  if off + d.length ≤ buf.length then some (overwrite buf off d) else none

theorem memcpy_of_le {buf d : Bytes} {off : ℕ} (h : off + d.length ≤ buf.length) :
    memcpy buf off d = some (overwrite buf off d) := if_pos h

end XWeb.Base
