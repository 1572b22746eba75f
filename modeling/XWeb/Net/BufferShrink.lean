import XWeb.Base.StringPiece
import XWeb.Net.BufferQueue

/-!
# `Buffer::shrink`

`shrink` (`net/buffer.h` lines 293–299) copies the readable bytes into a new buffer through
`toStringPiece`, whose length is an `int`. `append` converts it back to `size_t`.

* `appendFrom`: `append` where the length is not that of what the pointer points to.
* `shrink_copy`: `shrink` appends as many bytes as the two conversions leave.
* `shrink_preserves_iff`: when the contents survive.
-/

namespace XWeb.Net

open XWeb.Lib XWeb.Base

namespace Buffer

/-! ## Model -/

/-- `swap` (lines 30–34): the two buffers afterwards. -/
def swap (b rhs : Buffer) : Buffer × Buffer :=
  ({ buffer := rhs.buffer, readerIndex := rhs.readerIndex, writerIndex := rhs.writerIndex },
    { buffer := b.buffer, readerIndex := b.readerIndex, writerIndex := b.writerIndex })

/-- What `peek()` points to: the vector from `readerIndex_` on. -/
def peek (b : Buffer) : Bytes := b.buffer.drop b.readerIndex

/-- `toStringPiece` (lines 115–117). -/
def toStringPiece (b : Buffer) : StringPiece := { ptr := b.peek, length := toInt b.readableBytes }

/-- `append(const char* data, size_t len)` (lines 123–127), where `data` is all that can be read
    from the pointer on. To read more is undefined. -/
def appendFrom (b : Buffer) (data : Bytes) (len : ℕ) : Option Buffer := do
  let b ← b.ensureWritableBytes len
  if len ≤ data.length then
    let b ← b.writeAtEnd (data.take len)
    b.hasWritten len
  else none

/-- `append(const StringPiece& str)` (lines 119–121). -/
def appendPiece (b : Buffer) (str : StringPiece) : Option Buffer :=
  b.appendFrom str.ptr (toSize str.length)

/-- `shrink` (lines 293–299). -/
def shrink (b : Buffer) (reserve : ℕ) : Option Buffer := do
  let other ← construct kInitialSize
  let other ← other.ensureWritableBytes (sizeAdd b.readableBytes reserve)
  let other ← other.appendPiece b.toStringPiece
  some (b.swap other).1

/-- A buffer that a program can have: what the operations, `shrink` and `swap` make of
    default-constructed buffers, without overflow of `size_t` in the sums that they compute. -/
inductive Reachable : Buffer → Prop
  | construct : Reachable init
  | call {b b' : Buffer} (op : BufferOp) : Reachable b → op.Pre b → op.exec b = some b' → Reachable b'
  | shrink {b b' : Buffer} (reserve : ℕ) : Reachable b →
      b.readableBytes + reserve + kCheapPrepend < 2 ^ 64 → b.shrink reserve = some b' → Reachable b'
  | swap {b rhs : Buffer} : Reachable b → Reachable rhs → Reachable (b.swap rhs).1

/-! ## `append` through a pointer -/

theorem appendFrom_eq {b : Buffer} {data : Bytes} {len : ℕ} (h : len ≤ data.length) :
    b.appendFrom data len = b.append (data.take len) := by
  unfold appendFrom append
  rw [List.length_take_of_le h]
  simp only [if_pos h]

/-- Of a length that close to `2^64` the sum in `makeSpace` wraps, and the reserve cannot be given
    back: the assertion of line 324 fails. -/
theorem ensureWritableBytes_wrap {b : Buffer} (h : b.Wf) (hr : b.readerIndex = kCheapPrepend)
    {len : ℕ} (hlen : len < 2 ^ 64) (hwrap : 2 ^ 64 ≤ len + kCheapPrepend) :
    b.ensureWritableBytes len = none := by
  have hwrite := h.writableBytes_eq
  obtain ⟨h1, h2, h3, h4⟩ := h
  unfold kCheapPrepend at *
  have hlt : b.writableBytes < len := by omega
  have hsum : sizeAdd b.writableBytes b.prependableBytes = b.writableBytes + 8 := by
    rw [prependableBytes, hr]
    exact sizeAdd_of_lt (by omega)
  have hsmall : sizeAdd len 8 < 8 := by
    unfold sizeAdd
    omega
  have hnone : b.makeSpace len = none := by
    unfold makeSpace kCheapPrepend
    rw [hsum, if_neg (by omega), if_neg (by omega)]
  unfold ensureWritableBytes
  rw [if_pos hlt, hnone]
  rfl

/-- The bytes that are appended, if the call returns. -/
theorem appendFrom_cases {b b' : Buffer} (h : b.Wf) (hr : b.readerIndex = kCheapPrepend)
    (hw : b.writerIndex = kCheapPrepend) {data : Bytes} {len : ℕ} (hlen : len < 2 ^ 64)
    (hs : b.appendFrom data len = some b') :
    len ≤ data.length ∧ b'.Wf ∧ b'.contents = b.contents ++ data.take len := by
  have hle : len ≤ data.length := by
    obtain ⟨b₁, -, hs₁⟩ := Option.bind_eq_some_iff.mp hs
    by_contra hlt
    rw [if_neg hlt] at hs₁
    exact absurd hs₁ (by simp)
  have hfit : len + kCheapPrepend < 2 ^ 64 := by
    by_contra hwrap
    rw [appendFrom, ensureWritableBytes_wrap h hr hlen (by omega)] at hs
    exact absurd hs (by simp)
  have htake : (data.take len).length = len := List.length_take_of_le hle
  have hfits : b.Fits (data.take len).length := by
    rw [htake]
    exact ⟨hfit, by omega⟩
  obtain ⟨b₁, hb₁, hwf, hc⟩ := append_spec h hfits
  rw [appendFrom_eq hle] at hs
  obtain rfl := Option.some.inj (hb₁.symm.trans hs)
  exact ⟨hle, hwf, hc⟩

/-! ## `shrink` -/

/-- The buffer is left alone, or `makeSpace` is called. -/
theorem ensureWritableBytes_cases {b b' : Buffer} {len : ℕ} (hs : b.ensureWritableBytes len = some b') :
    b' = b ∨ b.makeSpace len = some b' := by
  by_cases hlt : b.writableBytes < len
  · cases hspace : b.makeSpace len with
    | none => exact absurd hs (by simp [ensureWritableBytes, hlt, hspace])
    | some b₁ =>
      right
      simp only [ensureWritableBytes, hlt, hspace, if_true, Option.bind_eq_bind, Option.bind_some] at hs
      split_ifs at hs
      exact hs
  · left
    simp only [ensureWritableBytes, hlt, if_false, Option.bind_eq_bind, Option.bind_some] at hs
    split_ifs at hs
    exact (Option.some.inj hs).symm

/-- Without a gap in front to reclaim, room is made behind the contents. -/
theorem ensureWritableBytes_indices {b b' : Buffer} {len : ℕ} (hr : b.readerIndex = kCheapPrepend)
    (hs : b.ensureWritableBytes len = some b') :
    b'.readerIndex = b.readerIndex ∧ b'.writerIndex = b.writerIndex := by
  obtain rfl | hspace := ensureWritableBytes_cases hs
  · exact ⟨rfl, rfl⟩
  · unfold makeSpace at hspace
    split_ifs at hspace with hgrow hroom
    · obtain rfl := Option.some.inj hspace
      exact ⟨rfl, rfl⟩
    · omega

theorem shrink_eq {b new other : Buffer} {reserve : ℕ} (hnew : construct kInitialSize = some new)
    (hother : new.ensureWritableBytes (sizeAdd b.readableBytes reserve) = some other) :
    b.shrink reserve = other.appendFrom b.peek (toSize (toInt b.readableBytes)) := by
  have hpiece : other.appendPiece b.toStringPiece =
      other.appendFrom b.peek (toSize (toInt b.readableBytes)) := by
    unfold appendPiece toStringPiece
    simp only
  have hswap : (fun b' : Buffer => some (b.swap b').1) = some := rfl
  unfold shrink
  rw [hnew, Option.bind_eq_bind, Option.bind_some, hother, Option.bind_some, hpiece, hswap,
    Option.bind_fun_some]

/-- `shrink` makes a buffer with room for the contents and the reserve, and appends what the length
    has become. -/
theorem shrink_copy (b : Buffer) {reserve : ℕ}
    (hsum : b.readableBytes + reserve + kCheapPrepend < 2 ^ 64) :
    ∃ other : Buffer, other.Wf ∧ other.contents = [] ∧ other.readerIndex = kCheapPrepend ∧
      other.writerIndex = kCheapPrepend ∧ b.readableBytes + reserve ≤ other.writableBytes ∧
      b.shrink reserve = other.appendFrom b.peek (toSize (toInt b.readableBytes)) := by
  have hadd : sizeAdd b.readableBytes reserve = b.readableBytes + reserve :=
    sizeAdd_of_lt (by omega)
  have hfit : init.Fits (b.readableBytes + reserve) :=
    ⟨hsum, by show kCheapPrepend + _ < 2 ^ 64; omega⟩
  obtain ⟨other, hother, hwf, hc, hroom⟩ := ensureWritableBytes_spec wf_init hfit
  obtain ⟨hr, hw⟩ := ensureWritableBytes_indices rfl hother
  rw [contents_init] at hc
  refine ⟨other, hwf, hc, hr, hw, hroom, ?_⟩
  rw [← hadd] at hother
  exact shrink_eq construct_kInitialSize hother

theorem shrink_cases {b b' : Buffer} {reserve : ℕ}
    (hsum : b.readableBytes + reserve + kCheapPrepend < 2 ^ 64) (hs : b.shrink reserve = some b') :
    b'.Wf ∧ toSize (toInt b.readableBytes) ≤ b.peek.length ∧
      b'.contents = b.peek.take (toSize (toInt b.readableBytes)) := by
  obtain ⟨other, hwf, hc, hr, hw, -, hcopy⟩ := shrink_copy b hsum
  obtain ⟨hle, hwf', hc'⟩ := appendFrom_cases hwf hr hw (toSize_lt _) (hcopy.symm.trans hs)
  rw [hc, List.nil_append] at hc'
  exact ⟨hwf', hle, hc'⟩

theorem Reachable.wf {b : Buffer} (h : b.Reachable) : b.Wf := by
  induction h with
  | construct => exact wf_init
  | call op _ hpre hs ih =>
    obtain ⟨b₁, hb₁, hwf, -⟩ := BufferOp.exec_spec ih op hpre
    obtain rfl := Option.some.inj (hb₁.symm.trans hs)
    exact hwf
  | shrink reserve _ hsum hs _ => exact (shrink_cases hsum hs).1
  | swap _ _ _ ih => exact ih

/-- The contents are at `peek()`. -/
theorem Wf.take_peek {b : Buffer} (h : b.Wf) :
    b.readableBytes ≤ b.peek.length ∧ b.peek.take b.readableBytes = b.contents := by
  have hread := h.readableBytes_eq
  obtain ⟨h1, h2, -, -⟩ := h
  refine ⟨by rw [peek, List.length_drop]; omega, ?_⟩
  rw [peek, List.take_drop, contents, window]
  congr 2
  omega

/-- **When `shrink` keeps the contents.** For every buffer that a program can have and every reserve
    for which the sum does not overflow, `shrink` fails no assertion, leaves the readable bytes as
    they are and at least `reserve` writable bytes, exactly if `readableBytes()` survives the
    conversion to `int` and back to `size_t`. -/
theorem shrink_preserves_iff {b : Buffer} (h : b.Reachable) (reserve : ℕ)
    (hsum : b.readableBytes + reserve + kCheapPrepend < 2 ^ 64) :
    (∃ b', b.shrink reserve = some b' ∧ b'.contents = b.contents ∧ reserve ≤ b'.writableBytes) ↔
      b.readableBytes < 2 ^ 31 ∨ 2 ^ 64 - 2 ^ 31 ≤ b.readableBytes := by
  rw [← toSize_toInt_eq_iff (by omega)]
  obtain ⟨hle, htake⟩ := h.wf.take_peek
  constructor
  · rintro ⟨b', hs, hc, -⟩
    obtain ⟨-, hlen, hc'⟩ := shrink_cases hsum hs
    have hcount := congrArg List.length (hc'.symm.trans hc)
    rwa [List.length_take_of_le hlen, h.wf.length_contents] at hcount
  · intro hsame
    obtain ⟨other, hwf, hc, -, -, hroom, hcopy⟩ := shrink_copy b hsum
    have hlen : b.contents.length = b.readableBytes := h.wf.length_contents
    have hfits : b.contents.length ≤ other.writableBytes := by omega
    -- the room has been made already
    have hens : other.ensureWritableBytes b.contents.length = some other := by
      simp [ensureWritableBytes, Nat.not_lt_of_le hfits, hfits]
    obtain ⟨hwf', hc'⟩ := filled_spec hwf hfits
    refine ⟨other.filled b.contents, ?_, by rw [hc', hc, List.nil_append], ?_⟩
    · rw [hcopy, hsame, appendFrom_eq hle, htake, append, hens]
      exact hasWritten_eq hwf hfits
    · have hsize : (other.filled b.contents).buffer.length = other.buffer.length :=
        length_filled hwf hfits
      have hend : (other.filled b.contents).writerIndex = other.writerIndex + b.contents.length := rfl
      have hwrite := hwf.writableBytes_eq
      rw [hwf'.writableBytes_eq, hsize, hend]
      omega

/-- A buffer behind an `append` and a `retrieve`. -/
def sampleShrunk : Buffer := { init.filled [1, 2, 3] with readerIndex := kCheapPrepend + 1 }

theorem reachable_sampleShrunk : sampleShrunk.Reachable := by
  have happended : Reachable (init.filled [1, 2, 3]) :=
    .call (.append [1, 2, 3]) .construct (by decide +kernel) (by decide +kernel)
  exact .call (.retrieve 1) happended (by decide +kernel) (by decide +kernel)

theorem shrink_preserves_iff_sample :
    ∃ b', sampleShrunk.shrink 16 = some b' ∧ b'.contents = [2, 3] ∧ 16 ≤ b'.writableBytes := by
  obtain ⟨b', hs, hc, hroom⟩ := (shrink_preserves_iff reachable_sampleShrunk 16
    (by decide +kernel)).mpr (by decide +kernel)
  exact ⟨b', hs, hc.trans (by decide +kernel), hroom⟩

/-- A buffer with `2^32` bytes is empty after `shrink(0)`. -/
theorem shrink_loses_contents : ∃ b b' : Buffer, b.Reachable ∧
    b.readableBytes + 0 + kCheapPrepend < 2 ^ 64 ∧ b.contents.length = 2 ^ 32 ∧
    b.shrink 0 = some b' ∧ b'.contents = [] := by
  have hlen : (List.replicate (2 ^ 32) (7 : UInt8)).length = 2 ^ 32 := List.length_replicate
  have hfit : init.Fits (List.replicate (2 ^ 32) (7 : UInt8)).length := by
    rw [hlen]
    decide
  obtain ⟨b, hb, hwf, hc⟩ := append_spec wf_init hfit
  rw [contents_init, List.nil_append] at hc
  have hread : b.readableBytes = 2 ^ 32 := by rw [← hwf.length_contents, hc, hlen]
  have hsum : b.readableBytes + 0 + kCheapPrepend < 2 ^ 64 := by
    rw [hread]
    decide
  obtain ⟨other, hwf', hc', -, -, -, hcopy⟩ := shrink_copy b hsum
  have hzero : toSize (toInt b.readableBytes) = 0 := by
    rw [hread]
    decide
  have hens : other.ensureWritableBytes 0 = some other := by simp [ensureWritableBytes]
  have hroom : ([] : Bytes).length ≤ other.writableBytes := Nat.zero_le _
  obtain ⟨-, hnil⟩ := filled_spec hwf' hroom
  refine ⟨b, other.filled [], .call (.append (List.replicate (2 ^ 32) 7)) .construct hfit hb, hsum,
    by rw [hwf.length_contents, hread], ?_, by rw [hnil, hc']; rfl⟩
  rw [hcopy, hzero, appendFrom_eq (Nat.zero_le _), List.take_zero, append, List.length_nil, hens]
  exact hasWritten_eq hwf' hroom

end Buffer

end XWeb.Net
