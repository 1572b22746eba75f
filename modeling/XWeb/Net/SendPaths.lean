import XWeb.Net.BufferShrink
import XWeb.Net.SharedConnection

/-!
# The ways into `sendInLoop`

The overloads of `send` (`net/tcp_connection.cpp` lines 46–93) and what each of them calls, on the
loop thread at once and on another thread in the functor that it queues. That functor binds a
string, and `sendInLoop(const StringPiece&)` gets a `StringPiece` made of it.

* `send`: the calls of one `send`, and the buffer that it leaves.
* `send_raw`, `send_buffer`: what reaches `sendInLoop` from the two kinds of arguments.
* `Message.Delivered.exec`: a message that is delivered makes the step that `SharedConnection`
  has.
* `send_paths_agree_iff`: when it is the message.
-/

namespace XWeb.Net

open XWeb.Lib XWeb.Base

/-! ## Model -/

/-- A call of `sendInLoop(const void* data, size_t len)`, where `data` is all that can be read
    from the pointer on. -/
structure SendInLoop where
  data : Bytes
  len : ℕ

/-- The bytes the call is made for, if they can be read. -/
def SendInLoop.bytes (c : SendInLoop) : Option Bytes :=
  if c.len ≤ c.data.length then some (c.data.take c.len) else none

/-- The call itself (lines 95–137). -/
def SendInLoop.exec (c : SendInLoop) (s : Session) (w : WriteResult) : Option Session :=
  c.bytes.bind fun data => s.sendInLoop data w

/-- `sendInLoop(const StringPiece& message)` (lines 91–93). -/
def sendInLoopPiece (message : StringPiece) : SendInLoop :=
  { data := message.ptr, len := toSize message.length }

/-- What a call of `send` leads to: the calls made before it returns, and the string bound in each
    functor that it queues. -/
structure Sent where
  calls : List SendInLoop
  functors : List Bytes

/-- All calls, once the functors have run. The bound string is converted to a `StringPiece` then. -/
def Sent.all (s : Sent) : List SendInLoop :=
  s.calls ++ s.functors.map fun str => sendInLoopPiece (.ofString str)

/-- `send(const StringPiece& message)` (lines 50–59). -/
def sendPiece (state : StateE) (onLoop : Bool) (message : StringPiece) : Option Sent :=
  if state = .kConnected then
    if onLoop then some { calls := [sendInLoopPiece message], functors := [] }
    else message.asString.map fun str => { calls := [], functors := [str] }
  else some { calls := [], functors := [] }

/-- `send(const void* data, int len)` (lines 46–48). -/
def sendRaw (state : StateE) (onLoop : Bool) (data : Bytes) (len : ℤ) : Option Sent :=
  sendPiece state onLoop { ptr := data, length := len }

/-- The common body of the overloads that take a buffer, and what they leave of it. -/
def sendBuffer (state : StateE) (onLoop : Bool) (buf : Buffer) : Option (Sent × Buffer) :=
  if state = .kConnected then
    if onLoop then
      some ({ calls := [{ data := buf.peek, len := buf.readableBytes }], functors := [] },
        buf.retrieveAll)
    else buf.retrieveAllAsString.map fun (str, buf) => ({ calls := [], functors := [str] }, buf)
  else some ({ calls := [], functors := [] }, buf)

/-- `send(Buffer* buf)` (lines 61–74). -/
def sendPointer (state : StateE) (onLoop : Bool) (buf : Buffer) : Option (Sent × Buffer) :=
  sendBuffer state onLoop buf

/-- `send(Buffer&& buf)` (lines 76–89). -/
def sendRvalue (state : StateE) (onLoop : Bool) (buf : Buffer) : Option (Sent × Buffer) :=
  sendBuffer state onLoop buf

/-- The arguments of the overloads. -/
inductive Message
  | raw (data : Bytes) (len : ℤ)
  | piece (message : StringPiece)
  | pointer (buf : Buffer)
  | rvalue (buf : Buffer)

/-- A call of `send`, with the buffer that was its argument, if there was one. -/
def send (state : StateE) (onLoop : Bool) : Message → Option (Sent × Option Buffer)
  | .raw data len => (sendRaw state onLoop data len).map fun s => (s, none)
  | .piece message => (sendPiece state onLoop message).map fun s => (s, none)
  | .pointer buf => (sendPointer state onLoop buf).map fun (s, b) => (s, some b)
  | .rvalue buf => (sendRvalue state onLoop buf).map fun (s, b) => (s, some b)

/-! ## What is meant -/

/-- The bytes of a message. -/
def Message.bytes : Message → Bytes
  | .raw data len => data.take len.toNat
  | .piece message => message.ptr.take message.length.toNat
  | .pointer buf | .rvalue buf => buf.contents

/-- A length is a nonnegative `int`, and that many bytes can be read. A buffer is well formed. -/
def Message.Valid : Message → Prop
  | .raw data len => 0 ≤ len ∧ len < 2 ^ 31 ∧ len ≤ data.length
  | .piece message =>
    0 ≤ message.length ∧ message.length < 2 ^ 31 ∧ message.length ≤ message.ptr.length
  | .pointer buf | .rvalue buf => buf.Wf

/-- On a connected connection `sendInLoop` is called once, with the bytes of the message and their
    number, and a buffer is empty afterwards. -/
def Message.Delivered (m : Message) (onLoop : Bool) : Prop :=
  ∃ sent after, send .kConnected onLoop m = some (sent, after) ∧
    (∃ c, sent.all = [c] ∧ c.len = m.bytes.length ∧ c.bytes = some m.bytes) ∧
    ∀ buf, after = some buf → buf.contents = []

/-! ## The paths -/

theorem functor_call (str : Bytes) :
    sendInLoopPiece (.ofString str) = { data := str, len := toSize (toInt str.length) } := by
  unfold sendInLoopPiece StringPiece.ofString
  simp only

/-- A bound string arrives if its length survives the `StringPiece`. -/
theorem functor_call_iff {str : Bytes} (hlen : str.length < 2 ^ 64) :
    (sendInLoopPiece (.ofString str)).len = str.length ∧
        (sendInLoopPiece (.ofString str)).bytes = some str ↔
      str.length < 2 ^ 31 ∨ 2 ^ 64 - 2 ^ 31 ≤ str.length := by
  rw [← toSize_toInt_eq_iff hlen, functor_call]
  simp only [SendInLoop.bytes]
  constructor
  · rintro ⟨hsame, -⟩
    exact hsame
  · intro hsame
    rw [hsame, if_pos le_rfl, List.take_length]
    exact ⟨rfl, rfl⟩

/-- A message of `int` length takes either path unchanged. -/
theorem send_raw {data : Bytes} {len : ℤ} (h0 : 0 ≤ len) (h31 : len < 2 ^ 31)
    (hle : len ≤ data.length) (onLoop : Bool) :
    ∃ sent c, sendPiece .kConnected onLoop { ptr := data, length := len } = some sent ∧
      sent.all = [c] ∧ c.len = (data.take len.toNat).length ∧
      c.bytes = some (data.take len.toNat) := by
  have hnat : toSize len = len.toNat := toSize_of_nonneg h0 (by omega)
  have htake : (data.take len.toNat).length = len.toNat := List.length_take_of_le (by omega)
  cases onLoop with
  | true =>
    have hread : toSize len ≤ data.length := by omega
    refine ⟨_, sendInLoopPiece { ptr := data, length := len }, rfl, rfl, ?_, ?_⟩
    · rw [htake, ← hnat]
      rfl
    · rw [SendInLoop.bytes, sendInLoopPiece, if_pos hread, hnat]
  | false =>
    have hstr : StringPiece.asString { ptr := data, length := len } = some (data.take len.toNat) := by
      have hread : len.toNat ≤ data.length := by omega
      simp only [StringPiece.asString, hnat, if_pos hread]
    have hsmall : (data.take len.toNat).length < 2 ^ 31 := by omega
    obtain ⟨hlen, hbytes⟩ := (functor_call_iff (by omega)).mpr (Or.inl hsmall)
    exact ⟨{ calls := [], functors := [data.take len.toNat] }, _, by rw [sendPiece, hstr]; rfl, rfl,
      hlen, hbytes⟩

theorem retrieveAllAsString_spec {buf : Buffer} (h : buf.Wf) :
    ∃ buf', buf.retrieveAllAsString = some (buf.contents, buf') ∧ buf'.contents = [] := by
  obtain ⟨buf', hbuf', -, hc⟩ := Buffer.retrieveAsString_spec h (Nat.le_refl _)
  rw [← h.length_contents, List.take_length] at hbuf'
  rw [← h.length_contents, List.drop_length] at hc
  exact ⟨buf', by rw [Buffer.retrieveAllAsString, ← h.length_contents, hbuf'], hc⟩

/-- A buffer is emptied. On the loop thread it is sent from where it is, on another thread through a
    string. -/
theorem send_buffer {buf : Buffer} (h : buf.Wf) (onLoop : Bool) :
    ∃ sent buf' c, sendBuffer .kConnected onLoop buf = some (sent, buf') ∧ sent.all = [c] ∧
      buf'.contents = [] ∧
      (c.len = buf.contents.length ∧ c.bytes = some buf.contents ↔
        onLoop = true ∨ buf.contents.length < 2 ^ 31 ∨ 2 ^ 64 - 2 ^ 31 ≤ buf.contents.length) := by
  have hlen := h.length_contents
  cases onLoop with
  | true =>
    obtain ⟨hle, htake⟩ := h.take_peek
    refine ⟨_, _, { data := buf.peek, len := buf.readableBytes }, rfl, rfl,
      (Buffer.retrieveAll_spec h).2, ?_⟩
    simp [SendInLoop.bytes, hle, htake, hlen]
  | false =>
    obtain ⟨buf', hbuf', hc⟩ := retrieveAllAsString_spec h
    have hsize : buf.contents.length < 2 ^ 64 := by
      have hread := h.readableBytes_eq
      have := h.writer_le_size
      have := h.size_lt
      omega
    refine ⟨{ calls := [], functors := [buf.contents] }, buf', _, by rw [sendBuffer, hbuf']; rfl, rfl,
      hc, ?_⟩
    simpa using functor_call_iff hsize

/-! ## Agreement -/

/-- A call that is made for the bytes of a message is the step of `Op.send`. -/
theorem SendInLoop.exec_eq {c : SendInLoop} {message : Bytes} (h : c.bytes = some message)
    (s : Session) (w : WriteResult) : c.exec s w = (Op.send message).exec s w := by
  rw [exec, h]
  rfl

/-- The step of a functor, whose string is converted to a `StringPiece` when it runs. -/
theorem functor_exec {message : Bytes} (h : message.length < 2 ^ 31) (s : Session)
    (w : WriteResult) : (sendInLoopPiece (.ofString message)).exec s w = (Op.send message).exec s w :=
  SendInLoop.exec_eq ((functor_call_iff (by omega)).mpr (Or.inl h)).2 s w

theorem Message.Delivered.exec {m : Message} {onLoop : Bool} (h : m.Delivered onLoop) :
    ∃ sent after c, send .kConnected onLoop m = some (sent, after) ∧ sent.all = [c] ∧
      ∀ s w, c.exec s w = (Op.send m.bytes).exec s w := by
  obtain ⟨sent, after, hsent, ⟨c, hall, -, hbytes⟩, -⟩ := h
  exact ⟨sent, after, c, hsent, hall, fun s w => SendInLoop.exec_eq hbytes s w⟩

section

variable {onLoop : Bool}

theorem delivered_piece {m : Message} {data : Bytes} {len : ℤ} (h0 : 0 ≤ len) (h31 : len < 2 ^ 31)
    (hle : len ≤ data.length) (hbytes : m.bytes = data.take len.toNat)
    (hm : send .kConnected onLoop m =
      (sendPiece .kConnected onLoop { ptr := data, length := len }).map fun s => (s, none)) :
    m.Delivered onLoop ∧ m.bytes.length < 2 ^ 31 := by
  obtain ⟨sent, c, hsent, hall, hlen, hc⟩ := send_raw h0 h31 hle onLoop
  rw [← hbytes] at hlen hc
  refine ⟨⟨sent, none, by rw [hm, hsent]; rfl, ⟨c, hall, hlen, hc⟩, by simp⟩, ?_⟩
  rw [hbytes, List.length_take]
  omega

theorem delivered_buffer_iff {m : Message} {buf : Buffer} (h : buf.Wf) (hbytes : m.bytes = buf.contents)
    (hm : send .kConnected onLoop m =
      (sendBuffer .kConnected onLoop buf).map fun (s, b) => (s, some b)) :
    m.Delivered onLoop ↔ onLoop = true ∨ m.bytes.length < 2 ^ 31 ∨
      2 ^ 64 - 2 ^ 31 ≤ m.bytes.length := by
  obtain ⟨sent, buf', c, hsent, hall, hempty, hiff⟩ := send_buffer h onLoop
  have hsend : send .kConnected onLoop m = some (sent, some buf') := by
    rw [hm, hsent]
    rfl
  rw [hbytes, ← hiff]
  constructor
  · rintro ⟨sent', after, hsent', ⟨c', hall', hlen, hc⟩, -⟩
    obtain ⟨rfl, -⟩ := Prod.mk.inj (Option.some.inj (hsend.symm.trans hsent'))
    obtain rfl : c = c' := List.singleton_injective (hall.symm.trans hall')
    rw [← hbytes]
    exact ⟨hlen, hc⟩
  · rintro ⟨hlen, hc⟩
    rw [← hbytes] at hlen hc
    refine ⟨sent, some buf', hsend, ⟨c, hall, hlen, hc⟩, fun b hb => ?_⟩
    rw [← Option.some.inj hb]
    exact hempty

end

/-- **When all ways of sending agree.** For every connected connection and every message, in a
    buffer or with an `int` length, a `send` on the loop thread, or on another thread and then the
    functor, calls `sendInLoop` once with exactly the bytes of the message and leaves the buffer
    empty, exactly if it is made on the loop thread or the length of the message survives the
    conversion to `int` and back to `size_t`. -/
theorem send_paths_agree_iff {m : Message} (hm : m.Valid) (onLoop : Bool) :
    m.Delivered onLoop ↔ onLoop = true ∨ m.bytes.length < 2 ^ 31 ∨
      2 ^ 64 - 2 ^ 31 ≤ m.bytes.length := by
  cases m with
  | raw data len =>
    obtain ⟨hdel, hlt⟩ := delivered_piece (m := .raw data len) hm.1 hm.2.1 hm.2.2 rfl
      (show send .kConnected onLoop _ = _ from rfl)
    exact ⟨fun _ => Or.inr (Or.inl hlt), fun _ => hdel⟩
  | piece message =>
    obtain ⟨hdel, hlt⟩ := delivered_piece (m := .piece message) hm.1 hm.2.1 hm.2.2 rfl
      (show send .kConnected onLoop _ = _ from rfl)
    exact ⟨fun _ => Or.inr (Or.inl hlt), fun _ => hdel⟩
  | pointer buf => exact delivered_buffer_iff hm rfl rfl
  | rvalue buf => exact delivered_buffer_iff hm rfl rfl

/-- A message that is sent from another thread. -/
theorem send_paths_agree_iff_sample :
    (Message.raw [104, 105, 33] 2).Delivered false ↔ false = true ∨
      (Message.raw [104, 105, 33] 2).bytes.length < 2 ^ 31 ∨
        2 ^ 64 - 2 ^ 31 ≤ (Message.raw [104, 105, 33] 2).bytes.length :=
  send_paths_agree_iff (m := .raw [104, 105, 33] 2) ⟨by decide, by decide, by decide⟩ false

/-- A buffer with `2^31` bytes, from another thread. -/
theorem large_buffer_not_delivered : ∃ buf : Buffer, buf.Wf ∧ buf.contents.length = 2 ^ 31 ∧
    (Message.pointer buf).Delivered true ∧ ¬ (Message.pointer buf).Delivered false := by
  have hlen : (List.replicate (2 ^ 31) (7 : UInt8)).length = 2 ^ 31 := List.length_replicate
  have hfit : Buffer.init.Fits (List.replicate (2 ^ 31) (7 : UInt8)).length := by
    rw [hlen]
    decide
  obtain ⟨buf, -, hwf, hc⟩ := Buffer.append_spec Buffer.wf_init hfit
  rw [Buffer.contents_init, List.nil_append] at hc
  have hsize : (Message.pointer buf).bytes.length = 2 ^ 31 := by
    show buf.contents.length = 2 ^ 31
    rw [hc, hlen]
  refine ⟨buf, hwf, hsize, (delivered_buffer_iff hwf rfl rfl).mpr (Or.inl rfl), ?_⟩
  rw [delivered_buffer_iff hwf rfl rfl, hsize]
  decide

end XWeb.Net
