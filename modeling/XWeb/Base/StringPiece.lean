import XWeb.Lib.CInt

/-!
# `StringPiece`

Model of the part of `base/StringPiece.h` that the network code uses. The length is an `int`, from
whatever it is made, and it is converted to `size_t` where a function asks for one.
-/

namespace XWeb.Base

open XWeb.Lib

/-- `class StringPiece` (lines 69–164). A pointer is represented by the bytes from it to the end of
    the object it points into. -/
structure StringPiece where
  ptr : Bytes
  length : ℤ

namespace StringPiece

/-- `StringPiece(const string& str)` (lines 85–86). -/
def ofString (str : Bytes) : StringPiece := { ptr := str, length := toInt str.length }

/-- `as_string` (lines 152–154). A length that is negative as an `int` is more than a string can
    have, and one beyond the object is more than can be read. -/
def asString (p : StringPiece) : Option Bytes :=
  if toSize p.length ≤ p.ptr.length then some (p.ptr.take (toSize p.length)) else none

end StringPiece

end XWeb.Base
