import XWeb.Lib.Run
import XWeb.Net.Buffer

/-!
# `Buffer` refines a byte queue

A run is a list of `BufferOp`s. `BufferOp.exec` is the code's operation, `BufferOp.Pre` its
asserted precondition together with the absence of `size_t` overflow in the sums it computes,
and `BufferOp.effect` what it means for a plain sequence of bytes.

* `BufferOp.exec_spec`: one operation keeps `Wf` and matches `effect`.
* `buffer_refines_byteQueue`: so does every run of operations from a new buffer, and no
  `assert` fails in it.
-/

namespace XWeb.Net

open XWeb.Lib

/-- A call of a member function of `Buffer`. -/
inductive BufferOp
  | append (data : Bytes)
  | ensureWritableBytes (len : ℕ)
  /-- `data` is placed at `beginWrite()`, then `hasWritten` is called with its length. -/
  | hasWritten (data : Bytes)
  | unwrite (len : ℕ)
  | retrieve (len : ℕ)
  | retrieveAll
  | retrieveAsString (len : ℕ)
  | prepend (data : Bytes)
  | readFd (r : ReadResult)
  deriving DecidableEq

namespace BufferOp

open Buffer

def exec (b : Buffer) : BufferOp → Option Buffer
  | append data => b.append data
  | ensureWritableBytes len => b.ensureWritableBytes len
  | hasWritten data => (b.writeAtEnd data).bind fun b' => b'.hasWritten data.length
  | unwrite len => b.unwrite len
  | retrieve len => b.retrieve len
  | retrieveAll => some b.retrieveAll
  | retrieveAsString len => (b.retrieveAsString len).map Prod.snd
  | prepend data => b.prepend data
  | readFd r => b.readFd r

def Pre (b : Buffer) : BufferOp → Prop
  | append data => b.Fits data.length
  | ensureWritableBytes len => b.Fits len
  | hasWritten data => data.length ≤ b.writableBytes
  | unwrite len => len ≤ b.readableBytes
  | retrieve len => len ≤ b.readableBytes
  | retrieveAll => True
  | retrieveAsString len => len ≤ b.readableBytes
  | prepend data => data.length ≤ b.prependableBytes
  | readFd (.data bytes) => bytes.length ≤ b.readFdSpace ∧ b.ReadFits bytes.length
  | readFd (.error _) => True

instance (b : Buffer) (op : BufferOp) : Decidable (op.Pre b) := by
  cases op with
  | readFd r => cases r <;> unfold Pre <;> infer_instance
  | _ => unfold Pre; infer_instance

/-- The operation on the abstract sequence of readable bytes. -/
def effect (q : Bytes) : BufferOp → Bytes
  | append data => q ++ data
  | ensureWritableBytes _ => q
  | hasWritten data => q ++ data
  | unwrite len => q.take (q.length - len)
  | retrieve len => q.drop len
  | retrieveAll => []
  | retrieveAsString len => q.drop len
  | prepend data => data ++ q
  | readFd (.data bytes) => q ++ bytes
  | readFd (.error _) => q

theorem exec_spec {b : Buffer} (h : b.Wf) (op : BufferOp) (hpre : op.Pre b) :
    ∃ b', exec b op = some b' ∧ b'.Wf ∧ b'.contents = effect b.contents op := by
  cases op with
  | append data => exact append_spec h hpre
  | ensureWritableBytes len =>
    obtain ⟨b', hb', hwf, hc, -⟩ := ensureWritableBytes_spec h hpre
    exact ⟨b', hb', hwf, hc⟩
  | hasWritten data => exact ⟨_, hasWritten_eq h hpre, filled_spec h hpre⟩
  | unwrite len => exact unwrite_spec h hpre
  | retrieve len => exact retrieve_spec h hpre
  | retrieveAll => exact ⟨_, rfl, retrieveAll_spec h⟩
  | retrieveAsString len =>
    obtain ⟨b', hb', hwf, hc⟩ := retrieveAsString_spec h hpre
    exact ⟨b', by simp [exec, hb'], hwf, hc⟩
  | prepend data => exact prepend_spec h hpre
  | readFd r =>
    cases r with
    | data bytes => exact readFd_data_spec h hpre.2
    | error e => exact ⟨b, rfl, h, rfl⟩

/-- The relation between a buffer and the byte sequence it stands for. -/
def Represents (b : Buffer) (q : Bytes) : Prop := b.Wf ∧ b.contents = q

theorem run_represents (ops : List BufferOp) {b : Buffer} {q : Bytes} (h : Represents b q)
    (hpre : Along exec (fun b op => op.Pre b) b ops) :
    ∃ b', run exec b ops = some b' ∧ Represents b' (ops.foldl effect q) := by
  refine run_refines effect Represents (fun b q op hR hop => ?_) ops b q h hpre
  obtain ⟨hwf, rfl⟩ := hR
  obtain ⟨b', hb', hwf', hc⟩ := exec_spec hwf op hop
  exact ⟨b', hb', hwf', hc⟩

end BufferOp

/-- **`Buffer` is a byte queue.** Every run of operations from a default-constructed buffer,
    each within its precondition, fails no `assert` (it reaches a state), keeps the reserve and
    the order of the indices, and holds exactly the bytes of the abstract queue. -/
theorem buffer_refines_byteQueue (ops : List BufferOp)
    (hpre : Along BufferOp.exec (fun b op => op.Pre b) Buffer.init ops) :
    Buffer.construct Buffer.kInitialSize = some Buffer.init ∧
    ∃ b, run BufferOp.exec Buffer.init ops = some b ∧
      Buffer.kCheapPrepend ≤ b.buffer.length ∧
      b.readerIndex ≤ b.writerIndex ∧ b.writerIndex ≤ b.buffer.length ∧
      b.contents = ops.foldl BufferOp.effect [] := by
  refine ⟨Buffer.construct_kInitialSize, ?_⟩
  obtain ⟨b, hb, hwf, hc⟩ := BufferOp.run_represents ops
    ⟨Buffer.wf_init, Buffer.contents_init⟩ hpre
  exact ⟨b, hb, hwf.cheap_le_size, hwf.reader_le_writer, hwf.writer_le_size, hc⟩

/-- A prepend into the reserve and a partial retrieve, then two calls of `makeSpace`. The first
    moves the contents, the second makes the vector grow. -/
theorem buffer_refines_byteQueue_sample :
    ∃ b, run BufferOp.exec Buffer.init [.append [1, 2, 3], .prepend [7, 7], .retrieve 4,
      .append (List.replicate 1022 9), .readFd (.error 11), .readFd (.data [4, 5, 6]), .retrieve 1022,
      .unwrite 1] = some b ∧ b.contents = [9, 4, 5] := by
  obtain ⟨-, b, hb, -, -, -, hc⟩ := buffer_refines_byteQueue
    [.append [1, 2, 3], .prepend [7, 7], .retrieve 4, .append (List.replicate 1022 9),
      .readFd (.error 11), .readFd (.data [4, 5, 6]), .retrieve 1022, .unwrite 1] (by decide +kernel)
  exact ⟨b, hb, hc.trans (by decide +kernel)⟩

end XWeb.Net
