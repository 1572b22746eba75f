import XWeb.Base.Memory

/-!
# `Buffer`

Model of `net/buffer.h` and `net/buffer.cpp`. The vector `buffer_` is a list of bytes;
`readerIndex_` and `writerIndex_` are `size_t`, with the wrap of every sum and difference
written out. A member function that contains an `assert` returns `none` when it fails, and so does
one that would copy from or to memory outside the vector. Allocation succeeds.

Every operation has one `_spec` theorem: on a well-formed buffer, within its precondition, it
asserts nothing false, keeps `Wf`, and changes `contents` (the readable bytes) as stated.

* `makeSpace_spec`, `ensureWritableBytes_spec`: room is made without touching the contents.
* `append_spec`, `readFd_data_spec`: bytes are added at the back.
* `unwrite_spec`, `retrieve_spec`, `prepend_spec`: bytes leave the back, leave the front, are
  added at the front.
-/

namespace XWeb.Net

open XWeb.Lib XWeb.Base

/-- `class Buffer` (`net/buffer.h` lines 17–341). -/
structure Buffer where
  buffer : Bytes
  readerIndex : ℕ
  writerIndex : ℕ
  deriving DecidableEq

/-- What `readv` or `read` returns: the bytes read (none at end-of-file) or `-1` and `errno`. -/
inductive ReadResult
  | data (bytes : Bytes)
  | error (errno : ℕ)
  deriving DecidableEq

namespace Buffer

/-! ## Model -/

def kCheapPrepend : ℕ := 8

def kInitialSize : ℕ := 1024

/-- `sizeof extrabuf` in `readFd` (`net/buffer.cpp` line 12). -/
def extrabufSize : ℕ := 65536

/-- `readableBytes` (line 36). -/
def readableBytes (b : Buffer) : ℕ := sizeSub b.writerIndex b.readerIndex

/-- `writableBytes` (line 39). -/
def writableBytes (b : Buffer) : ℕ := sizeSub b.buffer.length b.writerIndex

/-- `prependableBytes` (line 42). -/
def prependableBytes (b : Buffer) : ℕ := b.readerIndex

/-- The readable bytes, from `peek()` to `beginWrite()`. -/
def contents (b : Buffer) : Bytes := window b.buffer b.readerIndex b.writerIndex

/-- The members the constructor initialises (lines 22–24). It ignores `initSize`. -/
def init : Buffer :=
  { buffer := List.replicate (kCheapPrepend + kInitialSize) 0
    readerIndex := kCheapPrepend
    writerIndex := kCheapPrepend }

/-- `Buffer(size_t initSize = kInitialSize)` (lines 21–28). -/
def construct (initSize : ℕ) : Option Buffer :=
  if init.readableBytes = 0 ∧ init.writableBytes = initSize then some init else none

/-- `retrieveAll` (lines 99–102). -/
def retrieveAll (b : Buffer) : Buffer :=
  { b with readerIndex := kCheapPrepend, writerIndex := kCheapPrepend }

/-- `retrieve` (lines 73–81). -/
def retrieve (b : Buffer) (len : ℕ) : Option Buffer :=
  if len ≤ b.readableBytes then
    if len < b.readableBytes then some { b with readerIndex := sizeAdd b.readerIndex len }
    else some b.retrieveAll
  else none

/-- `retrieveAsString` (lines 108–113): the string `(peek(), len)` and the buffer left. -/
def retrieveAsString (b : Buffer) (len : ℕ) : Option (Bytes × Buffer) :=
  if len ≤ b.readableBytes then
    let result := window b.buffer b.readerIndex (b.readerIndex + len)
    (b.retrieve len).map fun b' => (result, b')
  else none

/-- `retrieveAllAsString` (lines 104–106). -/
def retrieveAllAsString (b : Buffer) : Option (Bytes × Buffer) :=
  b.retrieveAsString b.readableBytes

/-- `buffer_.resize(n)`. -/
def resize (v : Bytes) (n : ℕ) : Bytes := v.take n ++ List.replicate (n - v.length) 0

/-- `makeSpace` (lines 318–334). -/
def makeSpace (b : Buffer) (len : ℕ) : Option Buffer :=
  if sizeAdd b.writableBytes b.prependableBytes < sizeAdd len kCheapPrepend then
    some { b with buffer := resize b.buffer (sizeAdd b.writerIndex len) }
  else if kCheapPrepend < b.readerIndex then
    let readable := b.readableBytes
    -- `std::copy` of `[readerIndex_, writerIndex_)` onto `kCheapPrepend`, in place. The range must
    -- lie in the vector
    let b' : Buffer :=
      { buffer := copyForward (b.writerIndex - b.readerIndex) b.buffer b.readerIndex kCheapPrepend
        readerIndex := kCheapPrepend
        writerIndex := sizeAdd kCheapPrepend readable }
    if b.writerIndex ≤ b.buffer.length ∧ readable = b'.readableBytes then some b' else none
  else none

/-- `ensureWritableBytes` (lines 134–139). -/
def ensureWritableBytes (b : Buffer) (len : ℕ) : Option Buffer := do
  let b ← if b.writableBytes < len then b.makeSpace len else some b
  if len ≤ b.writableBytes then some b else none

/-- `std::copy` of `data` into the vector, from its byte `i` on. -/
def store (b : Buffer) (i : ℕ) (data : Bytes) : Option Buffer :=
  (memcpy b.buffer i data).map fun v => { b with buffer := v }

/-- The bytes `data` are stored from `beginWrite()` on, `writerIndex_` does not move. -/
def writeAtEnd (b : Buffer) (data : Bytes) : Option Buffer := b.store b.writerIndex data

/-- `hasWritten` (lines 147–150). -/
def hasWritten (b : Buffer) (len : ℕ) : Option Buffer :=
  if len ≤ b.writableBytes then some { b with writerIndex := sizeAdd b.writerIndex len } else none

/-- `append(const char* data, size_t len)` (lines 123–127). -/
def append (b : Buffer) (data : Bytes) : Option Buffer := do
  let b ← b.ensureWritableBytes data.length
  let b ← b.writeAtEnd data
  b.hasWritten data.length

/-- `unwrite` (lines 152–155). -/
def unwrite (b : Buffer) (len : ℕ) : Option Buffer :=
  if len ≤ b.readableBytes then some { b with writerIndex := sizeSub b.writerIndex len } else none

/-- `prepend` (lines 286–291). -/
def prepend (b : Buffer) (data : Bytes) : Option Buffer :=
  if data.length ≤ b.prependableBytes then
    let b : Buffer := { b with readerIndex := sizeSub b.readerIndex data.length }
    b.store b.readerIndex data
  else none

/-- The number of bytes `readFd` offers to `readv`: the writable tail, and `extrabuf` behind it
    when `iovcnt` is 2 (`net/buffer.cpp` lines 14–21). -/
def readFdSpace (b : Buffer) : ℕ :=
  if b.writableBytes < extrabufSize then b.writableBytes + extrabufSize else b.writableBytes

/-- `readFd` (`net/buffer.cpp` lines 10–34). `readv` fills the tail first, `extrabuf` second. -/
def readFd (b : Buffer) : ReadResult → Option Buffer
  | .error _ => some b
  | .data bytes => do
    let writable := b.writableBytes
    let b ← b.writeAtEnd (bytes.take writable)
    if bytes.length ≤ writable then
      some { b with writerIndex := sizeAdd b.writerIndex bytes.length }
    else
      let b : Buffer := { b with writerIndex := b.buffer.length }
      b.append (bytes.drop writable)

/-! ## Well-formed buffers -/

/-- The indices are ordered and lie in the vector, which holds the reserve of
    `kCheapPrepend` bytes. -/
structure Wf (b : Buffer) : Prop where
  reader_le_writer : b.readerIndex ≤ b.writerIndex
  writer_le_size : b.writerIndex ≤ b.buffer.length
  cheap_le_size : kCheapPrepend ≤ b.buffer.length
  size_lt : b.buffer.length < 2 ^ 64

/-- The sums `ensureWritableBytes(len)` computes stay below `2^64`. -/
def Fits (b : Buffer) (len : ℕ) : Prop :=
  len + kCheapPrepend < 2 ^ 64 ∧ b.writerIndex + len < 2 ^ 64

instance (b : Buffer) (len : ℕ) : Decidable (b.Fits len) := by unfold Fits; infer_instance

namespace Wf

variable {b : Buffer} (h : b.Wf)

include h

theorem readableBytes_eq : b.readableBytes = b.writerIndex - b.readerIndex :=
  sizeSub_of_le h.reader_le_writer (lt_of_le_of_lt h.writer_le_size h.size_lt)

theorem writableBytes_eq : b.writableBytes = b.buffer.length - b.writerIndex :=
  sizeSub_of_le h.writer_le_size h.size_lt

theorem length_contents : b.contents.length = b.readableBytes := by
  rw [h.readableBytes_eq, contents, length_window h.writer_le_size]

end Wf

@[simp] theorem length_init : init.buffer.length = kCheapPrepend + kInitialSize :=
  List.length_replicate

theorem wf_init : init.Wf where
  reader_le_writer := le_rfl
  writer_le_size := by rw [length_init]; decide
  cheap_le_size := by rw [length_init]; decide
  size_lt := by rw [length_init]; decide

@[simp] theorem contents_init : init.contents = [] := window_self _ _

theorem construct_kInitialSize : construct kInitialSize = some init := by
  have hr : init.readableBytes = 0 := by rw [wf_init.readableBytes_eq]; rfl
  have hw : init.writableBytes = kInitialSize := by
    rw [wf_init.writableBytes_eq, length_init]; rfl
  simp [construct, hr, hw]

/-! ## Making room -/

theorem length_resize (v : Bytes) {n : ℕ} (h : v.length ≤ n) : (resize v n).length = n := by
  simp [resize]; omega

theorem window_resize {v : Bytes} {i j n : ℕ} (hn : v.length ≤ n) (hj : j ≤ v.length) :
    window (resize v n) i j = window v i j := by
  rw [resize, List.take_of_length_le hn, window_append hj]

/-- `makeSpace` is only called when `writableBytes() < len`. Then either the vector grows, or
    `readerIndex_` is beyond the reserve and the contents move down to it. -/
theorem makeSpace_spec {b : Buffer} (h : b.Wf) {len : ℕ} (hf : b.Fits len)
    (hlt : b.writableBytes < len) :
    ∃ b', b.makeSpace len = some b' ∧ b'.Wf ∧ b'.contents = b.contents ∧
      len ≤ b'.writableBytes := by
  obtain ⟨h1, h2, h3, h4⟩ := h
  have h : b.Wf := ⟨h1, h2, h3, h4⟩
  obtain ⟨hf1, hf2⟩ := hf
  rw [h.writableBytes_eq] at hlt
  have hsum : sizeAdd b.writableBytes b.prependableBytes =
      b.buffer.length - b.writerIndex + b.readerIndex := by
    rw [h.writableBytes_eq, prependableBytes, sizeAdd_of_lt (by omega)]
  unfold makeSpace
  rw [hsum, sizeAdd_of_lt hf1]
  by_cases hgrow : b.buffer.length - b.writerIndex + b.readerIndex < len + kCheapPrepend
  · rw [if_pos hgrow, sizeAdd_of_lt hf2]
    have hlen := length_resize b.buffer (show b.buffer.length ≤ b.writerIndex + len by omega)
    have hwf : Wf { b with buffer := resize b.buffer (b.writerIndex + len) } :=
      ⟨h1, by simp only [hlen]; omega, by simp only [hlen]; omega, by simp only [hlen]; omega⟩
    refine ⟨_, rfl, hwf, window_resize (by omega) h2, ?_⟩
    rw [hwf.writableBytes_eq, hlen]
    simp only; omega
  · -- the sum of the two gaps is at least `len + 8`, and the back gap alone is below `len`
    rw [if_neg hgrow, if_pos (by omega)]
    have hcopy : copyForward (b.writerIndex - b.readerIndex) b.buffer b.readerIndex kCheapPrepend =
        overwrite b.buffer kCheapPrepend b.contents := by
      rw [copyForward_eq (by omega) (by omega), contents]
      congr 2; omega
    have hread := h.readableBytes_eq
    have hclen := h.length_contents
    have hlen : (overwrite b.buffer kCheapPrepend b.contents).length = b.buffer.length :=
      length_overwrite (by omega)
    have hwf : Wf { buffer := overwrite b.buffer kCheapPrepend b.contents,
                    readerIndex := kCheapPrepend,
                    writerIndex := kCheapPrepend + b.readableBytes } :=
      ⟨by simp, by simp only [hlen]; omega, by simp only [hlen]; omega, by simp only [hlen]; omega⟩
    have hw : sizeAdd kCheapPrepend b.readableBytes = kCheapPrepend + b.readableBytes :=
      sizeAdd_of_lt (by omega)
    simp only [hcopy, hw]
    refine ⟨_, if_pos ⟨h2, by rw [hwf.readableBytes_eq]; simp⟩, hwf, ?_, ?_⟩
    · rw [← hclen]; exact window_overwrite_self (by omega)
    · rw [hwf.writableBytes_eq, hlen]; simp only; omega

theorem ensureWritableBytes_spec {b : Buffer} (h : b.Wf) {len : ℕ} (hf : b.Fits len) :
    ∃ b', b.ensureWritableBytes len = some b' ∧ b'.Wf ∧ b'.contents = b.contents ∧
      len ≤ b'.writableBytes := by
  by_cases hlt : b.writableBytes < len
  · obtain ⟨b', hb', hwf, hc, hw⟩ := makeSpace_spec h hf hlt
    exact ⟨b', by simp [ensureWritableBytes, hlt, hb', hw], hwf, hc, hw⟩
  · exact ⟨b, by simp [ensureWritableBytes, hlt, Nat.le_of_not_lt hlt], h, rfl, by omega⟩

/-! ## Adding bytes at the back -/

theorem store_of_le {b : Buffer} {i : ℕ} {data : Bytes} (h : i + data.length ≤ b.buffer.length) :
    b.store i data = some { b with buffer := overwrite b.buffer i data } := by
  rw [store, memcpy_of_le h, Option.map_some]

theorem length_store {b b' : Buffer} {i : ℕ} {data : Bytes} (hs : b.store i data = some b') :
    b'.buffer.length = b.buffer.length := by
  by_cases h : i + data.length ≤ b.buffer.length
  · rw [store_of_le h] at hs
    obtain rfl := Option.some.inj hs
    exact length_overwrite h
  · exact absurd hs (by simp [store, memcpy, h])

/-- `b` once `data` stands behind its contents and `writerIndex_` behind `data`. -/
def filled (b : Buffer) (data : Bytes) : Buffer :=
  { b with buffer := overwrite b.buffer b.writerIndex data
           writerIndex := b.writerIndex + data.length }

theorem writeAtEnd_eq {b : Buffer} (h : b.Wf) {data : Bytes} (hlen : data.length ≤ b.writableBytes) :
    b.writeAtEnd data = some { b.filled data with writerIndex := b.writerIndex } := by
  rw [h.writableBytes_eq] at hlen
  have := h.writer_le_size
  exact store_of_le (by omega)

theorem length_filled {b : Buffer} (h : b.Wf) {data : Bytes} (hlen : data.length ≤ b.writableBytes) :
    (b.filled data).buffer.length = b.buffer.length := by
  rw [h.writableBytes_eq] at hlen
  have := h.writer_le_size
  exact length_overwrite (by omega)

theorem filled_spec {b : Buffer} (h : b.Wf) {data : Bytes} (hlen : data.length ≤ b.writableBytes) :
    (b.filled data).Wf ∧ (b.filled data).contents = b.contents ++ data := by
  have hl : (b.filled data).buffer.length = b.buffer.length := length_filled h hlen
  rw [h.writableBytes_eq] at hlen
  obtain ⟨h1, h2, h3, h4⟩ := h
  refine ⟨⟨?_, ?_, by omega, by omega⟩, window_overwrite_back h1 (by omega)⟩
  · show b.readerIndex ≤ b.writerIndex + data.length; omega
  · show b.writerIndex + data.length ≤ (b.filled data).buffer.length; omega

/-- The sum of `writerIndex_` and a length that fits does not wrap. -/
theorem sizeAdd_writerIndex {b : Buffer} (h : b.Wf) {len : ℕ} (hlen : len ≤ b.writableBytes) :
    sizeAdd b.writerIndex len = b.writerIndex + len := by
  rw [h.writableBytes_eq] at hlen
  have := h.writer_le_size
  have := h.size_lt
  exact sizeAdd_of_lt (by omega)

/-- Placing bytes at `beginWrite()` and then calling `hasWritten`. -/
theorem hasWritten_eq {b : Buffer} (h : b.Wf) {data : Bytes}
    (hlen : data.length ≤ b.writableBytes) :
    ((b.writeAtEnd data).bind fun b' => b'.hasWritten data.length) = some (b.filled data) := by
  have hw : writableBytes { b.filled data with writerIndex := b.writerIndex } = b.writableBytes := by
    simp only [writableBytes, length_filled h hlen]
  rw [writeAtEnd_eq h hlen, Option.bind_some, hasWritten, if_pos (by rwa [hw])]
  simp only [sizeAdd_writerIndex h hlen]
  rfl

theorem append_spec {b : Buffer} (h : b.Wf) {data : Bytes} (hf : b.Fits data.length) :
    ∃ b', b.append data = some b' ∧ b'.Wf ∧ b'.contents = b.contents ++ data := by
  obtain ⟨b₁, hb₁, hwf₁, hc₁, hw₁⟩ := ensureWritableBytes_spec h hf
  obtain ⟨hwf₂, hc₂⟩ := filled_spec hwf₁ hw₁
  refine ⟨b₁.filled data, ?_, hwf₂, by rw [hc₂, hc₁]⟩
  rw [append, hb₁]
  exact hasWritten_eq hwf₁ hw₁

/-- The sums `readFd` computes when `n` bytes are read stay below `2^64`. -/
def ReadFits (b : Buffer) (n : ℕ) : Prop :=
  b.writableBytes < n → b.buffer.length + (n - b.writableBytes) < 2 ^ 64 ∧
    n - b.writableBytes + kCheapPrepend < 2 ^ 64

instance (b : Buffer) (n : ℕ) : Decidable (b.ReadFits n) := by unfold ReadFits; infer_instance

/-- The tail has been filled to the end, and the rest goes through `append`. -/
theorem readFd_overflow {b : Buffer} (h : b.Wf) {bytes : Bytes} (hf : b.ReadFits bytes.length)
    (hlt : b.writableBytes < bytes.length) :
    b.readFd (.data bytes) =
      (b.filled (bytes.take b.writableBytes)).append (bytes.drop b.writableBytes) ∧
    (b.filled (bytes.take b.writableBytes)).Wf ∧
    (b.filled (bytes.take b.writableBytes)).contents = b.contents ++ bytes.take b.writableBytes ∧
    (b.filled (bytes.take b.writableBytes)).Fits (bytes.drop b.writableBytes).length := by
  have hw := h.writableBytes_eq
  have hws := h.writer_le_size
  have hlen : (bytes.take b.writableBytes).length = b.writableBytes := by simp; omega
  obtain ⟨hwf, hc⟩ := filled_spec h (Nat.le_of_eq hlen)
  -- `writerIndex_ = buffer_.size()` is behind what has been stored
  have hend : ({ b.filled (bytes.take b.writableBytes) with
      writerIndex := (b.filled (bytes.take b.writableBytes)).buffer.length } : Buffer) =
      b.filled (bytes.take b.writableBytes) := by
    rw [length_filled h (Nat.le_of_eq hlen), filled, hlen,
      show b.writerIndex + b.writableBytes = b.buffer.length by omega]
  refine ⟨?_, hwf, hc, ?_⟩
  · simp only [readFd, writeAtEnd_eq h (Nat.le_of_eq hlen), if_neg (Nat.not_le_of_lt hlt),
      Option.bind_eq_bind, Option.bind_some]
    exact congrArg (fun b' : Buffer => b'.append (bytes.drop b.writableBytes)) hend
  · obtain ⟨hf1, hf2⟩ := hf hlt
    rw [List.length_drop]
    refine ⟨hf2, ?_⟩
    show b.writerIndex + (bytes.take b.writableBytes).length + _ < 2 ^ 64
    omega

/-- All that has been read is in the vector. -/
theorem readFd_inside {b : Buffer} (h : b.Wf) {bytes : Bytes}
    (hle : bytes.length ≤ b.writableBytes) : b.readFd (.data bytes) = some (b.filled bytes) := by
  simp only [readFd, List.take_of_length_le hle, writeAtEnd_eq h hle, if_pos hle,
    sizeAdd_writerIndex h hle, Option.bind_eq_bind, Option.bind_some]
  rfl

/-- `readFd` with some bytes read adds them at the back, wherever `readv` put them. -/
theorem readFd_data_spec {b : Buffer} (h : b.Wf) {bytes : Bytes} (hf : b.ReadFits bytes.length) :
    ∃ b', b.readFd (.data bytes) = some b' ∧ b'.Wf ∧ b'.contents = b.contents ++ bytes := by
  by_cases hle : bytes.length ≤ b.writableBytes
  · exact ⟨b.filled bytes, readFd_inside h hle, filled_spec h hle⟩
  · obtain ⟨hread, hwf₁, hc₁, hfit⟩ := readFd_overflow h hf (Nat.lt_of_not_le hle)
    obtain ⟨b₂, hb₂, hwf₂, hc₂⟩ := append_spec hwf₁ hfit
    exact ⟨b₂, hread.trans hb₂, hwf₂,
      by rw [hc₂, hc₁, List.append_assoc, List.take_append_drop]⟩

/-! ## The other operations -/

theorem unwrite_spec {b : Buffer} (h : b.Wf) {len : ℕ} (hlen : len ≤ b.readableBytes) :
    ∃ b', b.unwrite len = some b' ∧ b'.Wf ∧
      b'.contents = b.contents.take (b.contents.length - len) := by
  have hread := h.readableBytes_eq
  have hcl := h.length_contents
  obtain ⟨h1, h2, h3, h4⟩ := h
  have hsub : sizeSub b.writerIndex len = b.readerIndex + (b.contents.length - len) := by
    rw [sizeSub_of_le (by omega) (by omega)]; omega
  refine ⟨{ b with writerIndex := b.readerIndex + (b.contents.length - len) },
    by rw [unwrite, if_pos hlen, hsub], ⟨Nat.le_add_right _ _, ?_, h3, h4⟩, ?_⟩
  · show b.readerIndex + (b.contents.length - len) ≤ b.buffer.length; omega
  · exact window_take b.buffer b.readerIndex b.writerIndex (b.contents.length - len) (by omega)

theorem retrieveAll_spec {b : Buffer} (h : b.Wf) :
    b.retrieveAll.Wf ∧ b.retrieveAll.contents = [] :=
  ⟨⟨le_rfl, h.cheap_le_size, h.cheap_le_size, h.size_lt⟩, window_self _ _⟩

theorem retrieve_spec {b : Buffer} (h : b.Wf) {len : ℕ} (hlen : len ≤ b.readableBytes) :
    ∃ b', b.retrieve len = some b' ∧ b'.Wf ∧ b'.contents = b.contents.drop len := by
  have hread := h.readableBytes_eq
  have hcl := h.length_contents
  by_cases hlt : len < b.readableBytes
  · obtain ⟨h1, h2, h3, h4⟩ := h
    refine ⟨{ b with readerIndex := b.readerIndex + len }, ?_,
      ⟨by simp only; omega, h2, h3, h4⟩, window_drop _ _ _ _⟩
    rw [retrieve, if_pos hlen, if_pos hlt, sizeAdd_of_lt (by omega)]
  · obtain ⟨hwf, hc⟩ := retrieveAll_spec h
    refine ⟨b.retrieveAll, by rw [retrieve, if_pos hlen, if_neg hlt], hwf, ?_⟩
    rw [hc, List.drop_eq_nil_of_le (by omega)]

/-- `retrieveAsString` returns the bytes it removes. -/
theorem retrieveAsString_spec {b : Buffer} (h : b.Wf) {len : ℕ} (hlen : len ≤ b.readableBytes) :
    ∃ b', b.retrieveAsString len = some (b.contents.take len, b') ∧ b'.Wf ∧
      b'.contents = b.contents.drop len := by
  have hread := h.readableBytes_eq
  have := h.reader_le_writer
  obtain ⟨b', hb', hwf, hc⟩ := retrieve_spec h hlen
  refine ⟨b', ?_, hwf, hc⟩
  rw [retrieveAsString, if_pos hlen, hb', window_take _ _ b.writerIndex _ (by omega)]
  rfl

theorem prepend_spec {b : Buffer} (h : b.Wf) {data : Bytes}
    (hlen : data.length ≤ b.prependableBytes) :
    ∃ b', b.prepend data = some b' ∧ b'.Wf ∧ b'.contents = data ++ b.contents := by
  obtain ⟨h1, h2, h3, h4⟩ := h
  have hlen' : data.length ≤ b.readerIndex := hlen
  have hl : (overwrite b.buffer (b.readerIndex - data.length) data).length = b.buffer.length :=
    length_overwrite (by omega)
  refine ⟨{ b with buffer := overwrite b.buffer (b.readerIndex - data.length) data,
                   readerIndex := b.readerIndex - data.length }, ?_,
    ⟨by simp only; omega, by simp only [hl]; omega, by simp only [hl]; omega, by simp only [hl]; omega⟩,
    window_overwrite_front hlen' h1 h2⟩
  rw [prepend, if_pos hlen, sizeSub_of_le hlen' (by omega)]
  exact store_of_le (by simp only; omega)

end Buffer

end XWeb.Net
