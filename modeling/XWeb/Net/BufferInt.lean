import XWeb.Lib.Endian
import XWeb.Net.BufferQueue

/-!
# Integers in a `Buffer`

The four families `appendIntN`, `peekIntN`, `readIntN` and `prependIntN` of `net/buffer.h` (lines
83–97 and 160–284), on a host of either byte order. Each member of a family is one definition at
its width; an `int8_t` is not converted.

* `TaggedInt`: an integer and the width it is sent with, in range.
* `append_eq`, `prepend_eq`: each member stores the big-endian bytes of its integer.
* `read_spec`: each reader takes such bytes off the front and returns the integer.
* `int_framing_round_trip`: any list of integers comes back as it was written.
-/

namespace XWeb.Net

open XWeb.Lib

namespace Buffer

/-! ## The families -/

/-- `appendInt64`, `appendInt32` and `appendInt16` (lines 160–180), for `n` bytes. -/
def appendInt (e : Endian) (n : ℕ) (b : Buffer) (x : ℤ) : Option Buffer :=
  b.append (storeInt e n (hostToBig e n x))

def appendInt64 (e : Endian) (b : Buffer) (x : ℤ) : Option Buffer := appendInt e 8 b x
def appendInt32 (e : Endian) (b : Buffer) (x : ℤ) : Option Buffer := appendInt e 4 b x
def appendInt16 (e : Endian) (b : Buffer) (x : ℤ) : Option Buffer := appendInt e 2 b x

/-- `appendInt8` (lines 182–184). -/
def appendInt8 (e : Endian) (b : Buffer) (x : ℤ) : Option Buffer := b.append (storeInt e 1 x)

/-- The `n` bytes from `peek()` on. -/
def peekBytes (b : Buffer) (n : ℕ) : Bytes := window b.buffer b.readerIndex (b.readerIndex + n)

/-- `peekInt64`, `peekInt32` and `peekInt16` (lines 221–249). -/
def peekInt (e : Endian) (n : ℕ) (b : Buffer) : Option ℤ :=
  if n ≤ b.readableBytes then some (bigToHost e n (loadInt e n (b.peekBytes n))) else none

def peekInt64 (e : Endian) (b : Buffer) : Option ℤ := peekInt e 8 b
def peekInt32 (e : Endian) (b : Buffer) : Option ℤ := peekInt e 4 b
def peekInt16 (e : Endian) (b : Buffer) : Option ℤ := peekInt e 2 b

/-- `peekInt8` (lines 251–255). -/
def peekInt8 (e : Endian) (b : Buffer) : Option ℤ :=
  if 1 ≤ b.readableBytes then some (loadInt e 1 (b.peekBytes 1)) else none

/-- `retrieveInt64` to `retrieveInt8` (lines 83–97). -/
def retrieveInt64 (b : Buffer) : Option Buffer := b.retrieve 8
def retrieveInt32 (b : Buffer) : Option Buffer := b.retrieve 4
def retrieveInt16 (b : Buffer) : Option Buffer := b.retrieve 2
def retrieveInt8 (b : Buffer) : Option Buffer := b.retrieve 1

/-- The body of `readInt64` to `readInt8` (lines 190–215). -/
def readInt (peek : Buffer → Option ℤ) (retrieve : Buffer → Option Buffer) (b : Buffer) :
    Option (ℤ × Buffer) := do
  let result ← peek b
  let b ← retrieve b
  some (result, b)

def readInt64 (e : Endian) (b : Buffer) : Option (ℤ × Buffer) := readInt (peekInt64 e) retrieveInt64 b
def readInt32 (e : Endian) (b : Buffer) : Option (ℤ × Buffer) := readInt (peekInt32 e) retrieveInt32 b
def readInt16 (e : Endian) (b : Buffer) : Option (ℤ × Buffer) := readInt (peekInt16 e) retrieveInt16 b
def readInt8 (e : Endian) (b : Buffer) : Option (ℤ × Buffer) := readInt (peekInt8 e) retrieveInt8 b

/-- `prependInt64`, `prependInt32` and `prependInt16` (lines 260–280). -/
def prependInt (e : Endian) (n : ℕ) (b : Buffer) (x : ℤ) : Option Buffer :=
  b.prepend (storeInt e n (hostToBig e n x))

def prependInt64 (e : Endian) (b : Buffer) (x : ℤ) : Option Buffer := prependInt e 8 b x
def prependInt32 (e : Endian) (b : Buffer) (x : ℤ) : Option Buffer := prependInt e 4 b x
def prependInt16 (e : Endian) (b : Buffer) (x : ℤ) : Option Buffer := prependInt e 2 b x

/-- `prependInt8` (lines 282–284). -/
def prependInt8 (e : Endian) (b : Buffer) (x : ℤ) : Option Buffer := b.prepend (storeInt e 1 x)

end Buffer

/-! ## Tagged integers -/

inductive Width
  | w8
  | w16
  | w32
  | w64
  deriving DecidableEq

/-- In bytes. -/
def Width.size : Width → ℕ
  | w8 => 1
  | w16 => 2
  | w32 => 4
  | w64 => 8

/-- A signed integer that fits its width. -/
structure TaggedInt where
  width : Width
  value : ℤ
  inRange : InRange width.size value

namespace TaggedInt

/-- The big-endian two's-complement bytes. -/
def bytes (x : TaggedInt) : Bytes := beBytes x.width.size (unsigned x.width.size x.value)

def append (e : Endian) (b : Buffer) (x : TaggedInt) : Option Buffer :=
  match x.width with
  | .w8 => b.appendInt8 e x.value
  | .w16 => b.appendInt16 e x.value
  | .w32 => b.appendInt32 e x.value
  | .w64 => b.appendInt64 e x.value

def prepend (e : Endian) (b : Buffer) (x : TaggedInt) : Option Buffer :=
  match x.width with
  | .w8 => b.prependInt8 e x.value
  | .w16 => b.prependInt16 e x.value
  | .w32 => b.prependInt32 e x.value
  | .w64 => b.prependInt64 e x.value

end TaggedInt

def Width.read (e : Endian) (b : Buffer) : Width → Option (ℤ × Buffer)
  | w8 => b.readInt8 e
  | w16 => b.readInt16 e
  | w32 => b.readInt32 e
  | w64 => b.readInt64 e

/-- One read for each width, in order. -/
def readInts (e : Endian) : Buffer → List Width → Option (List ℤ × Buffer)
  | b, [] => some ([], b)
  | b, w :: ws => do
    let (x, b) ← w.read e b
    let (xs, b) ← readInts e b ws
    some (x :: xs, b)

/-! ## Single bytes -/

theorem storeInt_one (e : Endian) (x : ℤ) : storeInt e 1 x = beBytes 1 (unsigned 1 x) := by
  cases e <;> rfl

theorem loadInt_one (e : Endian) {x : ℤ} (h : InRange 1 x) :
    loadInt e 1 (beBytes 1 (unsigned 1 x)) = x := by
  have hload : loadNat e (beBytes 1 (unsigned 1 x)) = ofLeBytes (leBytes 1 (unsigned 1 x)) := by
    cases e <;> rfl
  rw [loadInt, hload, ofLeBytes_leBytes 1 _ (unsigned_lt 1 x), signed_unsigned h]

/-! ## One integer -/

namespace TaggedInt

@[simp] theorem length_bytes (x : TaggedInt) : x.bytes.length = x.width.size := length_beBytes _ _

theorem append_eq (e : Endian) (b : Buffer) (x : TaggedInt) : x.append e b = b.append x.bytes := by
  obtain ⟨w, v, hv⟩ := x
  cases w with
  | w8 => exact congrArg b.append (storeInt_one e v)
  | w16 => exact congrArg b.append (storeInt_hostToBig e 2 v)
  | w32 => exact congrArg b.append (storeInt_hostToBig e 4 v)
  | w64 => exact congrArg b.append (storeInt_hostToBig e 8 v)

theorem prepend_eq (e : Endian) (b : Buffer) (x : TaggedInt) :
    x.prepend e b = b.prepend x.bytes := by
  obtain ⟨w, v, hv⟩ := x
  cases w with
  | w8 => exact congrArg b.prepend (storeInt_one e v)
  | w16 => exact congrArg b.prepend (storeInt_hostToBig e 2 v)
  | w32 => exact congrArg b.prepend (storeInt_hostToBig e 4 v)
  | w64 => exact congrArg b.prepend (storeInt_hostToBig e 8 v)

/-- The value a reader of this width makes of the bytes. -/
def decode (e : Endian) (w : Width) (bs : Bytes) : ℤ :=
  match w with
  | .w8 => loadInt e 1 bs
  | w => bigToHost e w.size (loadInt e w.size bs)

theorem decode_bytes (e : Endian) (x : TaggedInt) : decode e x.width x.bytes = x.value := by
  obtain ⟨w, v, hv⟩ := x
  cases w with
  | w8 => exact loadInt_one e hv
  | w16 => exact bigToHost_loadInt e hv
  | w32 => exact bigToHost_loadInt e hv
  | w64 => exact bigToHost_loadInt e hv

theorem readInt_eq {peek : Buffer → Option ℤ} {b : Buffer} {v : ℤ} (h : peek b = some v)
    (retrieve : Buffer → Option Buffer) :
    Buffer.readInt peek retrieve b = (retrieve b).map fun b' => (v, b') := by
  rw [Buffer.readInt, h]
  cases retrieve b <;> rfl

theorem read_eq (e : Endian) (b : Buffer) (w : Width) (h : w.size ≤ b.readableBytes) :
    w.read e b = (b.retrieve w.size).map fun b' => (decode e w (b.peekBytes w.size), b') := by
  cases w with
  | w8 => exact readInt_eq (if_pos h) Buffer.retrieveInt8
  | w16 => exact readInt_eq (if_pos h) Buffer.retrieveInt16
  | w32 => exact readInt_eq (if_pos h) Buffer.retrieveInt32
  | w64 => exact readInt_eq (if_pos h) Buffer.retrieveInt64

/-- A reader takes the bytes of its integer off the front. -/
theorem read_spec (e : Endian) {b : Buffer} (h : b.Wf) {x : TaggedInt} {q : Bytes}
    (hc : b.contents = x.bytes ++ q) :
    ∃ b', x.width.read e b = some (x.value, b') ∧ b'.Wf ∧ b'.contents = q := by
  have hlen : x.width.size ≤ b.readableBytes := by
    rw [← h.length_contents, hc, List.length_append, length_bytes]
    omega
  have hread := h.readableBytes_eq
  have hle := h.reader_le_writer
  have hpeek : b.peekBytes x.width.size = x.bytes := by
    rw [Buffer.peekBytes, window_take _ _ b.writerIndex _ (by omega)]
    show b.contents.take x.width.size = x.bytes
    rw [hc, ← length_bytes, List.take_left]
  obtain ⟨b', hb', hwf, hc'⟩ := Buffer.retrieve_spec h hlen
  refine ⟨b', ?_, hwf, ?_⟩
  · rw [read_eq e b _ hlen, hb', hpeek, decode_bytes]
    rfl
  · rw [hc', hc, ← length_bytes, List.drop_left]

/-! ## A list of integers -/

theorem run_append_spec (e : Endian) (xs : List TaggedInt) : ∀ {b : Buffer}, b.Wf →
    Along (TaggedInt.append e) (fun b x => b.Fits x.width.size) b xs →
    ∃ b', run (TaggedInt.append e) b xs = some b' ∧ b'.Wf ∧
      b'.contents = b.contents ++ xs.flatMap bytes := by
  induction xs with
  | nil => intro b h _; exact ⟨b, rfl, h, by simp⟩
  | cons x xs ih =>
    rintro b h ⟨hf, hfs⟩
    rw [← length_bytes] at hf
    obtain ⟨b₁, hb₁, hwf₁, hc₁⟩ := Buffer.append_spec h hf
    rw [← append_eq e] at hb₁
    obtain ⟨b₂, hb₂, hwf₂, hc₂⟩ := ih hwf₁ (hfs b₁ hb₁)
    refine ⟨b₂, run_cons_eq_some.mpr ⟨b₁, hb₁, hb₂⟩, hwf₂, ?_⟩
    rw [hc₂, hc₁, List.flatMap_cons, List.append_assoc]

theorem readInts_spec (e : Endian) (xs : List TaggedInt) : ∀ {b : Buffer}, b.Wf →
    b.contents = xs.flatMap bytes →
    ∃ b', readInts e b (xs.map width) = some (xs.map value, b') ∧ b'.Wf ∧ b'.contents = [] := by
  induction xs with
  | nil => intro b h hc; exact ⟨b, rfl, h, hc⟩
  | cons x xs ih =>
    intro b h hc
    rw [List.flatMap_cons] at hc
    obtain ⟨b₁, hb₁, hwf₁, hc₁⟩ := read_spec e h hc
    obtain ⟨b₂, hb₂, hwf₂, hc₂⟩ := ih hwf₁ hc₁
    refine ⟨b₂, ?_, hwf₂, hc₂⟩
    simp only [List.map_cons, readInts, hb₁, Option.bind_eq_bind, Option.bind_some, hb₂]

end TaggedInt

/-- **Integers survive the buffer.** In every buffer that operations can reach, appending a list
    of integers adds their big-endian bytes behind the contents. Once the earlier contents are
    retrieved, the matching reads return the list and leave nothing. An integer that fits the
    reserve can be put in front, is read back, and the contents are as before. -/
theorem int_framing_round_trip (e : Endian) (ops : List BufferOp)
    (hpre : Along BufferOp.exec (fun b op => op.Pre b) Buffer.init ops) :
    ∃ b, run BufferOp.exec Buffer.init ops = some b ∧
      (∀ xs : List TaggedInt,
        Along (TaggedInt.append e) (fun b x => b.Fits x.width.size) b xs →
        ∃ b' b₁ b₂, run (TaggedInt.append e) b xs = some b' ∧
          b'.contents = b.contents ++ xs.flatMap TaggedInt.bytes ∧
          b'.retrieve b.readableBytes = some b₁ ∧
          readInts e b₁ (xs.map TaggedInt.width) = some (xs.map TaggedInt.value, b₂) ∧
          b₂.contents = []) ∧
      ∀ x : TaggedInt, x.width.size ≤ b.prependableBytes →
        ∃ b' b₁, x.prepend e b = some b' ∧ b'.contents = x.bytes ++ b.contents ∧
          x.width.read e b' = some (x.value, b₁) ∧ b₁.contents = b.contents := by
  obtain ⟨b, hb, hwf, -⟩ := BufferOp.run_represents ops
    ⟨Buffer.wf_init, Buffer.contents_init⟩ hpre
  refine ⟨b, hb, fun xs hxs => ?_, fun x hx => ?_⟩
  · obtain ⟨b', hb', hwf', hc'⟩ := TaggedInt.run_append_spec e xs hwf hxs
    have hlen : b.readableBytes ≤ b'.readableBytes := by
      rw [← hwf.length_contents, ← hwf'.length_contents, hc', List.length_append]
      omega
    obtain ⟨b₁, hb₁, hwf₁, hc₁⟩ := Buffer.retrieve_spec hwf' hlen
    rw [hc', ← hwf.length_contents, List.drop_left] at hc₁
    obtain ⟨b₂, hb₂, -, hc₂⟩ := TaggedInt.readInts_spec e xs hwf₁ hc₁
    exact ⟨b', b₁, b₂, hb', hc', hb₁, hb₂, hc₂⟩
  · rw [← TaggedInt.length_bytes] at hx
    obtain ⟨b', hb', hwf', hc'⟩ := Buffer.prepend_spec hwf hx
    obtain ⟨b₁, hb₁, -, hc₁⟩ := TaggedInt.read_spec e hwf' hc'
    exact ⟨b', b₁, by rw [TaggedInt.prepend_eq, hb'], hc', hb₁, hc₁⟩

/-- All widths at the ends of their ranges. -/
def extremes : List TaggedInt :=
  [⟨.w16, -2 ^ 15, by decide⟩, ⟨.w8, -128, by decide⟩, ⟨.w64, 2 ^ 63 - 1, by decide⟩,
    ⟨.w32, -2 ^ 31, by decide⟩]

/-- They are read behind two other bytes, on a little-endian host. -/
theorem int_framing_round_trip_sample :
    ∃ b b' b₁ b₂, run BufferOp.exec Buffer.init [.append [1, 2, 3], .retrieve 1] = some b ∧
      run (TaggedInt.append .little) b extremes = some b' ∧
      b'.contents = [2, 3, 128, 0, 128, 127, 255, 255, 255, 255, 255, 255, 255, 128, 0, 0, 0] ∧
      b'.retrieve b.readableBytes = some b₁ ∧
      readInts .little b₁ [.w16, .w8, .w64, .w32] =
        some ([-2 ^ 15, -128, 2 ^ 63 - 1, -2 ^ 31], b₂) ∧ b₂.contents = [] := by
  obtain ⟨b, hb, hlist, -⟩ := int_framing_round_trip .little [.append [1, 2, 3], .retrieve 1]
    (by decide +kernel)
  have hfits : ∀ b ∈ run BufferOp.exec Buffer.init [.append [1, 2, 3], .retrieve 1],
      Along (TaggedInt.append .little) (fun b x => b.Fits x.width.size) b extremes := by
    decide +kernel
  have hbytes : ∀ b ∈ run BufferOp.exec Buffer.init [.append [1, 2, 3], .retrieve 1],
      b.contents ++ extremes.flatMap TaggedInt.bytes =
        [2, 3, 128, 0, 128, 127, 255, 255, 255, 255, 255, 255, 255, 128, 0, 0, 0] := by
    decide +kernel
  obtain ⟨b', b₁, b₂, hb', hc', hb₁, hb₂, hc₂⟩ := hlist extremes (hfits b hb)
  exact ⟨b, b', b₁, b₂, hb, hb', hc'.trans (hbytes b hb), hb₁, hb₂, hc₂⟩

end XWeb.Net
