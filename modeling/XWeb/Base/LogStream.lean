import XWeb.Base.Convert
import XWeb.Base.FixedBuffer
import XWeb.Lib.Run

/-!
# `LogStream`

Model of `base/log_stream.h` lines 11–113 and `base/log_stream.cpp` lines 43–122 on the whole of
`data_`. A store outside `data_`, and a `cur_` behind its end, is undefined. A `float` or `double`
is given by what `snprintf` makes of it, and a thread id by the string that it is inserted as.

* `FixedBuffer.Block`: the buffer with its storage; `append_toFixedBuffer`: as long as it is
  defined, `append` is the one of `XWeb.Base.FixedBuffer`.
* `LogStream.insert`: the insertion operators.
* `insert_appended`, `insert_formatted`: what each of the two kinds of them does.
* `insert_of_fits`, `insert_eq_none`: what an insertion adds, and when it leaves `data_`.
* `number_formatting_exact`: integers and pointers in full.
* `intact_iff`: when a sequence of insertions leaves the buffer intact.
-/

namespace XWeb.Base

open XWeb.Lib

/-! ## The buffer with its storage -/

namespace FixedBuffer

/-- `FixedBuffer<SIZE>`: `data_`, and `cur_` as an offset. -/
structure Block (SIZE : ℕ) where
  data : Bytes
  cur : ℕ
  length_data : data.length = SIZE
  cur_le : cur ≤ SIZE

namespace Block

variable {SIZE : ℕ}

/-- The constructor. What is in `data_` is not initialised. -/
def new (data : Vector UInt8 SIZE) : Block SIZE := ⟨data.toList, 0, by simp, Nat.zero_le SIZE⟩

/-- `length` (line 30). -/
def length (b : Block SIZE) : ℤ := toInt b.cur

/-- `avail` (line 33). -/
def avail (b : Block SIZE) : ℤ := toInt (SIZE - b.cur)

/-- The memory from `current()` (line 32) on. -/
def current (b : Block SIZE) : Bytes := b.data.drop b.cur

/-- What the stores behind `cur_` have made of the memory there, and `add(len)` (line 34). -/
def add (b : Block SIZE) (mem : Bytes) (len : ℕ) : Option (Block SIZE) :=
  if h : mem.length = SIZE - b.cur ∧ b.cur + len ≤ SIZE then
    some {
      data := b.data.take b.cur ++ mem
      cur := b.cur + len
      length_data := by
        have hcur := b.cur_le
        have hlen := b.length_data
        rw [List.length_append, List.length_take]
        omega
      cur_le := h.2 }
  else none

/-- `append` (lines 21–27). The string has to have `len` bytes. -/
def append (b : Block SIZE) (buf : Bytes) (len : ℕ) : Option (Block SIZE) :=
  if b.avail > toInt len then do
    let mem ← if len ≤ buf.length then memcpy b.current 0 (buf.take len) else none
    b.add mem len
  else some b

/-- The bytes before `cur_`. -/
def toFixedBuffer (b : Block SIZE) : FixedBuffer SIZE := ⟨b.data.take b.cur⟩

/-- The bytes before `cur_`. -/
def text (b : Block SIZE) : Bytes := b.toFixedBuffer.data

theorem length_text (b : Block SIZE) : b.text.length = b.cur := by
  have hlen := b.length_data
  have hcur := b.cur_le
  rw [text, toFixedBuffer, List.length_take]
  omega

theorem length_current (b : Block SIZE) : b.current.length = SIZE - b.cur := by
  rw [current, List.length_drop, b.length_data]

theorem avail_toFixedBuffer (b : Block SIZE) : b.toFixedBuffer.avail = b.avail := by
  rw [FixedBuffer.avail, avail, ← b.length_text]
  rfl

theorem length_eq (b : Block SIZE) (hS : SIZE < 2 ^ 31) : b.length = b.cur := by
  have hcur := b.cur_le
  exact toInt_of_le_of_lt (by omega) (by omega)

theorem avail_eq (b : Block SIZE) (hS : SIZE < 2 ^ 31) : b.avail = SIZE - b.cur := by
  have hcur := b.cur_le
  exact toInt_of_le_of_lt (by omega) (by omega)

/-- Stores behind `cur_`, of which the first bytes are kept. -/
theorem add_overwrite (b : Block SIZE) {s t : Bytes} (h : b.cur + s.length + t.length ≤ SIZE) :
    ∃ b', b.add (overwrite b.current 0 (s ++ t)) s.length = some b' ∧
      b'.data = overwrite b.data b.cur (s ++ t) ∧ b'.text = b.text ++ s := by
  have hcur := b.cur_le
  have hlen := b.length_data
  have hroom : 0 + (s ++ t).length ≤ b.current.length := by
    rw [b.length_current, List.length_append]
    omega
  have hfits : (overwrite b.current 0 (s ++ t)).length = SIZE - b.cur ∧
      b.cur + s.length ≤ SIZE := by
    rw [length_overwrite hroom, b.length_current]
    exact ⟨rfl, by omega⟩
  have hdata : b.data.take b.cur ++ overwrite b.current 0 (s ++ t) =
      overwrite b.data b.cur (s ++ t) := by
    simp [overwrite, current, List.drop_drop, List.append_assoc]
  refine ⟨_, dif_pos hfits, hdata, ?_⟩
  have hfront : (b.data.take b.cur).length = b.cur := by
    rw [List.length_take]
    omega
  show (b.data.take b.cur ++ overwrite b.current 0 (s ++ t)).take (b.cur + s.length) = _
  rw [hdata, overwrite, ← List.append_assoc, List.append_assoc _ t]
  apply List.take_left'
  rw [List.length_append, hfront]

theorem append_of_le (b : Block SIZE) {buf : Bytes} (h : b.avail ≤ toInt buf.length) :
    b.append buf buf.length = some b := if_neg (Int.not_lt.mpr h)

/-- The bytes are copied as a whole. -/
theorem append_of_fits (b : Block SIZE) {buf : Bytes} (h : toInt buf.length < b.avail)
    (hfits : b.cur + buf.length ≤ SIZE) :
    ∃ b', b.append buf buf.length = some b' ∧ b'.text = b.text ++ buf := by
  obtain ⟨b', hadd, -, htext⟩ := b.add_overwrite (s := buf) (t := []) (by simpa using hfits)
  have hroom : 0 + buf.length ≤ b.current.length := by
    rw [b.length_current]
    omega
  refine ⟨b', ?_, htext⟩
  rw [append, if_pos h, if_pos (Nat.le_refl _), List.take_length, memcpy, if_pos hroom]
  rwa [List.append_nil] at hadd

/-- `memcpy` is called, and there is not enough room. -/
theorem append_eq_none (b : Block SIZE) {buf : Bytes} (h : toInt buf.length < b.avail)
    (hfits : SIZE < b.cur + buf.length) : b.append buf buf.length = none := by
  have hroom : ¬ 0 + buf.length ≤ b.current.length := by
    have hcur := b.cur_le
    rw [b.length_current]
    omega
  rw [append, if_pos h, if_pos (Nat.le_refl _), List.take_length, memcpy, if_neg hroom]
  rfl

/-- **Refinement**: as long as it is defined, `append` is the one on the bytes before `cur_`. -/
theorem append_toFixedBuffer {b b' : Block SIZE} {buf : Bytes}
    (h : b.append buf buf.length = some b') :
    b'.toFixedBuffer = b.toFixedBuffer.append buf := by
  rw [FixedBuffer.append, avail_toFixedBuffer]
  rcases Int.lt_or_le (toInt buf.length) b.avail with hlt | hle
  · rcases Nat.lt_or_ge SIZE (b.cur + buf.length) with hout | hfits
    · rw [b.append_eq_none hlt hout] at h
      exact absurd h (Option.some_ne_none _).symm
    · obtain ⟨b₁, happend, htext⟩ := b.append_of_fits hlt hfits
      obtain rfl := Option.some.inj (happend.symm.trans h)
      rw [if_pos hlt]
      exact congrArg FixedBuffer.mk htext
  · rw [b.append_of_le hle] at h
    obtain rfl := Option.some.inj h
    rw [if_neg (Int.not_lt.mpr hle)]

end Block

end FixedBuffer

/-! ## The insertion operators -/

/-- The integer types that have an operator. `long` has 64 bits. -/
inductive IntType
  | short
  | unsignedShort
  | int
  | unsignedInt
  | long
  | unsignedLong
  | longLong
  | unsignedLongLong
  deriving DecidableEq

namespace IntType

def bits : IntType → ℕ
  | short | unsignedShort => 16
  | int | unsignedInt => 32
  | long | unsignedLong | longLong | unsignedLongLong => 64

def signed : IntType → Bool
  | short | int | long | longLong => true
  | unsignedShort | unsignedInt | unsignedLong | unsignedLongLong => false

def min (T : IntType) : ℤ := if T.signed then -2 ^ (T.bits - 1) else 0

def max (T : IntType) : ℤ := if T.signed then 2 ^ (T.bits - 1) - 1 else 2 ^ T.bits - 1

/-- The values of the type. -/
def Value (T : IntType) : Type := {v : ℤ // T.min ≤ v ∧ v ≤ T.max}

end IntType

/-- A string without its NUL. -/
def CString : Type := {s : Bytes // 0 ∉ s}

/-- What is inserted. -/
inductive Insertion
  | bool (v : Bool)
  | integer (T : IntType) (v : T.Value)
  | pointer (p : BitVec 64)
  | double (printed : {s : Bytes // s.length < 32})
  | char (v : UInt8)
  | cstr (str : Option CString)
  | string (v : Bytes)

/-- `LogStream`, which consists of its `buffer_`. -/
abbrev LogStream : Type := FixedBuffer.Block kSmallBuffer

namespace LogStream

def kMaxNumericSize : ℤ := 32

/-- The constructor. -/
def new (data : Vector UInt8 kSmallBuffer) : LogStream := FixedBuffer.Block.new data

/-- `formatInteger` (lines 44–50). -/
def formatInteger (b : LogStream) (v : ℤ) : Option LogStream :=
  if b.avail ≥ kMaxNumericSize then do
    let (len, mem) ← convert b.current v
    b.add mem len
  else some b

/-- `operator<<(const void*)` (lines 100–111). -/
def insertPointer (b : LogStream) (v : ℕ) : Option LogStream :=
  if b.avail ≥ kMaxNumericSize then do
    let mem ← storeAt b.current 0 48
    let mem ← storeAt mem 1 120
    let (len, rest) ← convertHex (mem.drop 2) v
    b.add (mem.take 2 ++ rest) (len + 2)
  else some b

/-- `operator<<(double)` (lines 114–122). `snprintf` stores a NUL behind the text. -/
def insertDouble (b : LogStream) (printed : Bytes) : Option LogStream :=
  if b.avail ≥ kMaxNumericSize then do
    let mem ← memcpy b.current 0 (printed ++ [0])
    b.add mem printed.length
  else some b

/-- The insertion operators. A `short` is inserted as an `int`, an `unsigned short` as an
    `unsigned int`. -/
def insert (b : LogStream) : Insertion → Option LogStream
  | .bool v => b.append (if v then ascii "1" else ascii "0") 1
  | .integer .short v => formatInteger b (toInt v.val)
  | .integer .unsignedShort v => formatInteger b (v.val % 2 ^ 32)
  | .integer _ v => formatInteger b v.val
  | .pointer p => insertPointer b p.toNat
  | .double printed => insertDouble b printed.val
  | .char v => b.append [v] 1
  | .cstr (some str) => b.append str.val str.val.length
  | .cstr none => b.append (ascii "(null)") 6
  | .string v => b.append v v.length

end LogStream

namespace Insertion

/-- What `buffer_.append` is called with, if it is. -/
def appended : Insertion → Option Bytes
  | bool v => some (if v then ascii "1" else ascii "0")
  | char v => some [v]
  | cstr (some str) => some str.val
  | cstr none => some (ascii "(null)")
  | string v => some v
  | integer .. | pointer _ | double _ => none

/-- The text that stands for what is inserted. -/
def text : Insertion → Bytes
  | bool v => if v then ascii "1" else ascii "0"
  | integer _ v => decimalInt v.val
  | pointer p => ascii "0x" ++ numeral 16 p.toNat
  | double printed => printed.val
  | char v => [v]
  | cstr (some str) => str.val
  | cstr none => ascii "(null)"
  | string v => v

/-- How many bytes have to be free: for a string one more than it has, for a number 32. -/
def need (e : Insertion) : ℕ :=
  match e.appended with
  | some s => s.length + 1
  | none => 32

/-- What is in the buffer after an insertion, if `used` was before: as a whole or not at all. -/
def accept (used : Bytes) (e : Insertion) : Bytes :=
  if used.length + e.need ≤ kSmallBuffer then used ++ e.text else used

theorem need_of_appended {e : Insertion} {s : Bytes} (h : e.appended = some s) :
    e.need = s.length + 1 := by simp [need, h]

theorem need_of_formatted {e : Insertion} (h : e.appended = none) : e.need = 32 := by
  simp [need, h]

theorem accept_of_le {used : Bytes} {e : Insertion} (h : used.length + e.need ≤ kSmallBuffer) :
    accept used e = used ++ e.text := if_pos h

theorem accept_of_lt {used : Bytes} {e : Insertion} (h : kSmallBuffer < used.length + e.need) :
    accept used e = used := if_neg (Nat.not_le.mpr h)

/-- What is in the buffer is the texts of some of the insertions, in order. -/
theorem foldl_accept (es : List Insertion) : ∀ used : Bytes,
    ∃ kept : List Insertion, kept.Sublist es ∧
      es.foldl accept used = used ++ (kept.map text).flatten := by
  induction es with
  | nil =>
    intro used
    exact ⟨[], List.Sublist.refl [], by simp⟩
  | cons e es ih =>
    intro used
    obtain ⟨kept, hsub, hfold⟩ := ih (accept used e)
    rw [List.foldl_cons, hfold]
    rcases Nat.lt_or_ge kSmallBuffer (used.length + e.need) with hlt | hge
    · exact ⟨kept, hsub.cons e, by rw [accept_of_lt hlt]⟩
    · refine ⟨e :: kept, hsub.cons_cons e, ?_⟩
      rw [accept_of_le hge, List.map_cons, List.flatten_cons, List.append_assoc]

theorem text_of_appended {e : Insertion} {s : Bytes} (h : e.appended = some s) : e.text = s := by
  rcases e with v | ⟨T, v⟩ | p | d | v | (_ | str) | v <;> first | exact Option.some.inj h | cases h

end Insertion

namespace LogStream

@[simp] theorem text_new (data : Vector UInt8 kSmallBuffer) : (new data).text = [] := rfl

@[simp] theorem cur_new (data : Vector UInt8 kSmallBuffer) : (new data).cur = 0 := rfl

theorem insert_appended {e : Insertion} {s : Bytes} (h : e.appended = some s) (b : LogStream) :
    insert b e = b.append s s.length := by
  cases e with
  | integer T v => cases h
  | pointer p => cases h
  | double printed => cases h
  | bool v =>
    obtain rfl := Option.some.inj h
    have hone : (if v then ascii "1" else ascii "0").length = 1 := by cases v <;> decide
    rw [insert, hone]
  | char v =>
    obtain rfl := Option.some.inj h
    rfl
  | cstr str =>
    cases str with
    | none =>
      obtain rfl := Option.some.inj h
      have hsix : (ascii "(null)").length = 6 := by decide
      rw [insert, hsix]
    | some str =>
      obtain rfl := Option.some.inj h
      rfl
  | string v =>
    obtain rfl := Option.some.inj h
    rfl

/-- The operators for the integer types all come to the same. -/
theorem insert_integer (b : LogStream) (T : IntType) (v : T.Value) :
    insert b (.integer T v) = formatInteger b v.val := by
  obtain ⟨v, hmin, hmax⟩ := v
  cases T with
  | short =>
    have hcast : toInt v = v := toInt_of_le_of_lt
      (by simp [IntType.min, IntType.signed, IntType.bits] at hmin; omega)
      (by simp [IntType.max, IntType.signed, IntType.bits] at hmax; omega)
    exact congrArg (formatInteger b) hcast
  | unsignedShort =>
    have hcast : v % 2 ^ 32 = v := Int.emod_eq_of_lt
      (by simp [IntType.min, IntType.signed] at hmin; omega)
      (by simp [IntType.max, IntType.signed, IntType.bits] at hmax; omega)
    exact congrArg (formatInteger b) hcast
  | _ => rfl

theorem length_decimalInt_value {T : IntType} (v : T.Value) : (decimalInt v.val).length ≤ 20 := by
  obtain ⟨v, hmin, hmax⟩ := v
  refine length_decimalInt_long ?_ ?_
  · cases T <;> simp [IntType.min, IntType.signed, IntType.bits] at hmin ⊢ <;> omega
  · cases T <;> simp [IntType.max, IntType.signed, IntType.bits] at hmax ⊢ <;> omega

theorem length_numeral_pointer (p : BitVec 64) : (numeral 16 p.toNat).length ≤ 16 :=
  length_numeral (by decide) (by have h := p.isLt; omega)

theorem avail_eq (b : LogStream) : b.avail = 4000 - b.cur :=
  FixedBuffer.Block.avail_eq b (by decide)

/-- What has been stored behind `cur_` with a NUL is kept without it. -/
theorem add_text (b : LogStream) {w : Bytes} (hroom : 32 ≤ b.avail) (hw : w.length < 32) :
    ∃ b', b.add (overwrite b.current 0 (w ++ [0])) w.length = some b' ∧
      b'.data = overwrite b.data b.cur (w ++ [0]) ∧ b'.text = b.text ++ w := by
  rw [avail_eq] at hroom
  have hfits : b.cur + w.length + [(0 : UInt8)].length ≤ kSmallBuffer := by
    rw [List.length_singleton]
    show _ ≤ 4000
    omega
  exact b.add_overwrite hfits

theorem length_current_ge {b : LogStream} (hroom : 32 ≤ b.avail) : 32 ≤ b.current.length := by
  rw [avail_eq] at hroom
  rw [b.length_current]
  show 32 ≤ 4000 - b.cur
  omega

theorem formatInteger_spec {b : LogStream} (hroom : 32 ≤ b.avail) {v : ℤ}
    (hv : (decimalInt v).length ≤ 20) :
    ∃ b', formatInteger b v = some b' ∧ b'.data = overwrite b.data b.cur (decimalInt v ++ [0]) ∧
      b'.text = b.text ++ decimalInt v := by
  have hlen := length_current_ge hroom
  have htest : b.avail ≥ kMaxNumericSize := hroom
  rw [formatInteger, if_pos htest, convert_spec (by omega)]
  exact add_text b hroom (by omega)

theorem ascii_hex : ascii "0x" = [48, 120] := by decide

theorem insertPointer_spec {b : LogStream} (hroom : 32 ≤ b.avail) {v : ℕ}
    (hv : (numeral 16 v).length ≤ 16) :
    ∃ b', insertPointer b v = some b' ∧
      b'.data = overwrite b.data b.cur (ascii "0x" ++ numeral 16 v ++ [0]) ∧
      b'.text = b.text ++ (ascii "0x" ++ numeral 16 v) := by
  have hlen := length_current_ge hroom
  have htest : b.avail ≥ kMaxNumericSize := hroom
  have hzero : storeAt b.current 0 48 = some (overwrite b.current 0 [48]) :=
    storeAt_of_lt (by omega) 48
  have hx : storeAt (overwrite b.current 0 [48]) 1 120 = some (overwrite b.current 0 [48, 120]) :=
    storeAt_overwrite (d := [48]) (by rw [List.length_singleton]; omega) 120
  have hdrop : (overwrite b.current 0 [48, 120]).drop 2 = b.current.drop 2 := by simp [overwrite]
  have htake : (overwrite b.current 0 [48, 120]).take 2 = [48, 120] := by simp [overwrite]
  have hmem : [48, 120] ++ overwrite (b.current.drop 2) 0 (numeral 16 v ++ [0]) =
      overwrite b.current 0 ([48, 120] ++ numeral 16 v ++ [0]) := by
    rw [List.append_assoc]
    exact append_overwrite_drop b.current [48, 120] _
  have hlength : ([48, 120] ++ numeral 16 v).length = (numeral 16 v).length + 2 := by simp
  rw [ascii_hex]
  obtain ⟨b', hadd, hdata, htext⟩ := add_text b (w := [48, 120] ++ numeral 16 v) hroom
    (by rw [hlength]; omega)
  refine ⟨b', ?_, hdata, htext⟩
  rw [insertPointer, if_pos htest, hzero, Option.bind_eq_bind, Option.bind_some, hx,
    Option.bind_eq_bind, Option.bind_some, hdrop, htake,
    convertHex_spec (by rw [List.length_drop]; omega)]
  simp only [Option.bind_some]
  rw [hmem, ← hadd, hlength]

theorem insertDouble_spec {b : LogStream} (hroom : 32 ≤ b.avail) {printed : Bytes}
    (hp : printed.length < 32) :
    ∃ b', insertDouble b printed = some b' ∧ b'.data = overwrite b.data b.cur (printed ++ [0]) ∧
      b'.text = b.text ++ printed := by
  have hlen := length_current_ge hroom
  have hcopy : 0 + (printed ++ [0]).length ≤ b.current.length := by
    rw [List.length_append, List.length_singleton]
    omega
  have htest : b.avail ≥ kMaxNumericSize := hroom
  rw [insertDouble, if_pos htest, memcpy, if_pos hcopy]
  exact add_text b hroom hp

/-- A number with 32 bytes to spare. -/
theorem insert_formatted {e : Insertion} (h : e.appended = none) {b : LogStream}
    (hroom : 32 ≤ b.avail) :
    ∃ b', insert b e = some b' ∧ b'.data = overwrite b.data b.cur (e.text ++ [0]) ∧
      b'.text = b.text ++ e.text := by
  cases e with
  | integer T v =>
    rw [insert_integer]
    exact formatInteger_spec hroom (length_decimalInt_value v)
  | pointer p => exact insertPointer_spec hroom (length_numeral_pointer p)
  | double printed => exact insertDouble_spec hroom printed.property
  | bool v => cases h
  | char v => cases h
  | cstr str => cases str <;> cases h
  | string v => cases h

/-- A number without. -/
theorem insert_formatted_full {e : Insertion} (h : e.appended = none) {b : LogStream}
    (hfull : b.avail < 32) : insert b e = some b := by
  have htest : ¬ b.avail ≥ kMaxNumericSize := Int.not_le.mpr hfull
  cases e with
  | integer T v => rw [insert_integer, formatInteger, if_neg htest]
  | pointer p => exact if_neg htest
  | double printed => exact if_neg htest
  | bool v => cases h
  | char v => cases h
  | cstr str => cases str <;> cases h
  | string v => cases h

/-- A string whose length as an `int` is less than what is free is not longer than that. -/
def Fits (b : LogStream) (e : Insertion) : Prop :=
  ∀ s, e.appended = some s → toInt s.length < b.avail → s.length < b.avail

theorem fits_of_length {e : Insertion} (h : ∀ s, e.appended = some s → s.length < 2 ^ 31)
    (b : LogStream) : Fits b e := by
  intro s hs hlt
  have hlen := h s hs
  rwa [toInt_of_le_of_lt (by omega) (by omega)] at hlt

/-- **One insertion** that fits adds its text as a whole or nothing. -/
theorem insert_of_fits {b : LogStream} {e : Insertion} (h : Fits b e) :
    ∃ b', insert b e = some b' ∧ b'.text = Insertion.accept b.text e := by
  have havail := avail_eq b
  have hused := b.length_text
  have hsize : kSmallBuffer = 4000 := rfl
  cases happ : e.appended with
  | some s =>
    have hneed := Insertion.need_of_appended happ
    rw [insert_appended happ]
    rcases Int.lt_or_le (toInt s.length) b.avail with hlt | hle
    · have hlen := h s happ hlt
      rw [Insertion.accept_of_le (by omega), Insertion.text_of_appended happ]
      exact b.append_of_fits hlt (by omega)
    · have hlen : b.avail ≤ s.length := by
        by_contra hlt
        rw [toInt_of_le_of_lt (by omega) (by omega)] at hle
        exact hlt hle
      rw [Insertion.accept_of_lt (by omega)]
      exact ⟨b, b.append_of_le hle, rfl⟩
  | none =>
    have hneed := Insertion.need_of_formatted happ
    rcases Int.lt_or_le b.avail 32 with hlt | hle
    · rw [Insertion.accept_of_lt (by omega)]
      exact ⟨b, insert_formatted_full happ hlt, rfl⟩
    · obtain ⟨b', hb', -, htext⟩ := insert_formatted happ hle
      rw [Insertion.accept_of_le (by omega)]
      exact ⟨b', hb', htext⟩

/-- One that does not fit leaves `data_`. -/
theorem insert_eq_none {b : LogStream} {e : Insertion} (h : ¬ Fits b e) : insert b e = none := by
  simp only [Fits, not_forall, Int.not_lt] at h
  obtain ⟨s, happ, hlt, hlen⟩ := h
  have havail := avail_eq b
  rw [insert_appended happ]
  have hne : (s.length : ℤ) ≠ b.avail := by
    intro heq
    have hcur := b.cur_le
    rw [heq, toInt_of_le_of_lt (by omega) (by omega)] at hlt
    exact Int.lt_irrefl _ hlt
  have hsize : kSmallBuffer = 4000 := rfl
  exact b.append_eq_none hlt (by omega)

/-! ## Numbers -/

/-- The insertion adds the text `s`. Of `data_` it changes the bytes of the text and a NUL behind
    it. -/
def Writes (b : LogStream) (e : Insertion) (s : Bytes) : Prop :=
  ∃ b', insert b e = some b' ∧ b'.text = b.text ++ s ∧ b'.data = overwrite b.data b.cur (s ++ [0])

theorem writes_formatted {e : Insertion} (h : e.appended = none) {b : LogStream}
    (hroom : 32 ≤ b.avail) : Writes b e e.text := by
  obtain ⟨b', hb', hdata, htext⟩ := insert_formatted h hroom
  exact ⟨b', hb', htext, hdata⟩

/-- **Numbers and pointers** with 32 bytes to spare: the canonical notation of the value is added,
    and `convert` and `convertHex` get along with 21 and 17 bytes of memory. -/
theorem number_formatting_exact (b : LogStream) (hroom : 32 ≤ b.avail) :
    (∀ (T : IntType) (v : T.Value), ∃ s, IsDecimal s v.val ∧ s.length ≤ 20 ∧
      Writes b (.integer T v) s ∧
      ∀ mem : Bytes, 21 ≤ mem.length →
        convert mem v.val = some (s.length, overwrite mem 0 (s ++ [0]))) ∧
    ∀ p : BitVec 64, ∃ s, IsNumeral 16 s ∧ parse 16 s = some p.toNat ∧ s.length ≤ 16 ∧
      Writes b (.pointer p) (ascii "0x" ++ s) ∧
      ∀ mem : Bytes, 17 ≤ mem.length →
        convertHex mem p.toNat = some (s.length, overwrite mem 0 (s ++ [0])) := by
  constructor
  · intro T v
    have hlen := length_decimalInt_value v
    refine ⟨decimalInt v.val, isDecimal_decimalInt v.val, hlen, writes_formatted rfl hroom, ?_⟩
    intro mem hmem
    exact convert_spec (by omega)
  · intro p
    have hlen := length_numeral_pointer p
    obtain ⟨hnumeral, hparse⟩ := numeral_spec (b := 16) (by decide) (by decide) p.toNat
    refine ⟨numeral 16 p.toNat, hnumeral, hparse, hlen, writes_formatted rfl hroom, ?_⟩
    intro mem hmem
    exact convertHex_spec (by omega)

theorem number_formatting_exact_sample :
    32 ≤ (new (Vector.replicate kSmallBuffer 0)).avail ∧
      ∃ s, IsDecimal s (-2 ^ 15) ∧ s.length ≤ 20 ∧
        Writes (new (Vector.replicate kSmallBuffer 0)) (.integer .short ⟨-2 ^ 15, by decide⟩)
          s := by
  have hroom : 32 ≤ (new (Vector.replicate kSmallBuffer 0)).avail := by
    rw [avail_eq, cur_new]
    decide
  obtain ⟨s, hdecimal, hlen, hwrites, -⟩ :=
    (number_formatting_exact _ hroom).1 .short ⟨-2 ^ 15, by decide⟩
  exact ⟨hroom, s, hdecimal, hlen, hwrites⟩

/-! ## Sequences of insertions -/

/-- After every insertion of `es` from `b` on, no store has been outside `data_`, `cur_` is in it,
    and the buffer holds the texts of some of what has been inserted, in order and each as a
    whole. -/
def Intact (b : LogStream) (es : List Insertion) : Prop :=
  ∀ pre, pre <+: es → ∃ b', run insert b pre = some b' ∧ 0 ≤ b'.length ∧
    b'.length ≤ kSmallBuffer ∧
    ∃ kept : List Insertion, kept.Sublist pre ∧ b'.text = (kept.map Insertion.text).flatten

/-- A run of insertions that fit. -/
theorem run_insert {es : List Insertion} {b : LogStream} (h : Along insert Fits b es) :
    ∃ b', run insert b es = some b' ∧ b'.text = es.foldl Insertion.accept b.text := by
  refine run_refines Insertion.accept (fun (b : LogStream) used => b.text = used) ?_ es b _ rfl h
  rintro b used e rfl hfits
  exact insert_of_fits hfits

/-- The buffer stays intact as long as no string is taken for a shorter one. -/
theorem intact_iff (data : Vector UInt8 kSmallBuffer) (es : List Insertion) :
    Intact (new data) es ↔ Along insert Fits (new data) es := by
  constructor
  · intro h
    obtain ⟨b', hrun, -⟩ := h es List.prefix_rfl
    refine along_of_run (fun b e b' hb' => ?_) es hrun
    by_contra hfits
    rw [insert_eq_none hfits] at hb'
    exact Option.some_ne_none _ hb'.symm
  · rintro h pre ⟨post, rfl⟩
    obtain ⟨b', hrun, htext⟩ := run_insert (along_append.mp h).1
    obtain ⟨kept, hsub, hkept⟩ := Insertion.foldl_accept pre (new data).text
    have hlength : b'.length = b'.cur := b'.length_eq (by decide)
    have hcur := b'.cur_le
    refine ⟨b', hrun, by omega, by omega, kept, hsub, ?_⟩
    rw [htext, hkept, text_new, List.nil_append]

/-- A `std::string` of 2^31 bytes: its length as an `int` is negative. -/
theorem long_string_leaves_data :
    ¬ Intact (new (Vector.replicate kSmallBuffer 0)) [.string (List.replicate (2 ^ 31) 120)] := by
  intro h
  obtain ⟨b', hrun, -⟩ := h _ List.prefix_rfl
  obtain ⟨b₁, hb₁, -⟩ := run_cons_eq_some.mp hrun
  rw [insert_eq_none] at hb₁
  · exact Option.some_ne_none _ hb₁.symm
  · intro hfits
    have hlen := hfits _ rfl
    rw [List.length_replicate, avail_eq, cur_new] at hlen
    exact absurd (hlen (by decide)) (by decide)

end LogStream

end XWeb.Base
