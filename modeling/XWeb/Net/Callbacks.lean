import XWeb.Net.OutputStream

/-!
# What the callbacks of a connection see

`runInLoop` calls a user callback at once, in the middle of `sendInLoop` or `handleWrite`.
`writeCompleteCallback_` comes after the updates of the buffer and the interest,
`highWaterMarkCallback_` before them.

* `CallbackOk`: what the two callbacks should find.
* `sendInLoop_callbacks`, `handleWrite_callbacks`: what they find.
* `callbacks_consistent_iff`: the callbacks see a consistent connection in exactly the runs in which
  no high-water-mark callback is due.
-/

namespace XWeb.Net

open XWeb.Lib

namespace Session

/-! ## Consistency -/

/-- A `send` or a `shutdown` made in this state does not overtake the bytes `sent`. -/
def InOrder (sent : Bytes) (s : Session) : Prop :=
  (∀ data w s', (ConnEvent.send data w).Possible s → s.send data w = some s' →
    accepted s'.log ++ s'.conn.outputBuffer.contents = sent ++ s.taken (.send data w)) ∧
  (halfClosed (s.shutdown.log.drop s.log.length) → accepted s.log = sent)

/-- `sent` are the bytes of every send made so far. -/
def CallbackOk (sent : Bytes) (before : List Entry) (e : Entry) : Prop :=
  match e.io with
  | .highWaterMarkCallback n =>
    e.conn.outputBuffer.readableBytes = n ∧ e.conn.channel.isWriting = true ∧
      InOrder sent ⟨e.conn, before ++ [e]⟩
  | .writeCompleteCallback =>
    e.conn.outputBuffer.readableBytes = 0 ∧ e.conn.channel.isWriting = false ∧
      accepted before = sent ∧ InOrder sent ⟨e.conn, before ++ [e]⟩
  | _ => True

/-- From the `n`th entry on, the callbacks are called in a consistent state. -/
def ConsistentFrom (n : ℕ) (sent : Bytes) (log : List Entry) : Prop :=
  Always (fun before e => n ≤ before.length → CallbackOk sent before e) log

/-- The bytes that `sendInLoop` does not write directly. -/
def unwritten (s : Session) (data : Bytes) (w : WriteResult) : ℕ :=
  if s.conn.channel.isWriting = false ∧ s.conn.outputBuffer.readableBytes = 0 then
    match w with
    | .ok n => data.length - n
    | .fail _ => data.length
  else data.length

/-- Queueing the rest of `data` takes the output buffer from below the high-water mark to it or
    above, and there is a callback for that. -/
def CrossesMark (s : Session) (data : Bytes) (w : WriteResult) : Prop :=
  s.conn.highWaterMarkCallback = true ∧ ¬ s.Faults w ∧
    s.conn.outputBuffer.readableBytes < s.conn.highWaterMark ∧
    s.conn.highWaterMark ≤ s.conn.outputBuffer.readableBytes + s.unwritten data w

instance (s : Session) (data : Bytes) (w : WriteResult) : Decidable (s.CrossesMark data w) := by
  unfold CrossesMark; infer_instance

/-- A high-water-mark callback is due. -/
def MarkDue (s : Session) : ConnEvent → Prop
  | .send data w => s.conn.state = .kConnected ∧ s.CrossesMark data w
  | .sendInLoop data w => s.conn.state ≠ .kDisconnected ∧ s.CrossesMark data w
  | .shutdown | .handleWrite _ | .handleRead _ => False

instance (s : Session) : ∀ e : ConnEvent, Decidable (s.MarkDue e)
  | .send _ _ | .sendInLoop _ _ => inferInstanceAs (Decidable (_ ∧ _))
  | .shutdown | .handleWrite _ | .handleRead _ => instDecidableFalse

/-! ## The log of a call -/

variable {s s' : Session} {sent data : Bytes} {w : WriteResult} {n : ℕ}

theorem consistentFrom_length (s : Session) (sent : Bytes) :
    ConsistentFrom s.log.length sent s.log := by
  intro before e after hlog hlen
  have := congrArg List.length hlog
  simp only [List.length_append, List.length_cons] at this
  omega

/-- Entries that are not one of the two callbacks. -/
theorem ConsistentFrom.extend {log : List Entry} (h : ConsistentFrom n sent log) (new : List Entry)
    (hnew : ∀ e ∈ new, ∀ before, CallbackOk sent before e) : ConsistentFrom n sent (log ++ new) :=
  Always.append h fun before e he _ => hnew e he before

/-- An empty buffer and nothing owed: both kinds of calls come behind what has been sent. -/
theorem Core.inOrder (h : s.Core) (hempty : s.conn.outputBuffer.contents = []) :
    InOrder (committed s.log) s := by
  have hacc : accepted s.log = committed s.log := by
    have hstream := h.stream
    rwa [hempty, List.append_nil] at hstream
  refine ⟨fun data w s' hp hs => ?_, fun _ => hacc⟩
  by_cases hst : s.conn.state = .kConnected
  · obtain ⟨s₁, hs₁, hsends⟩ := sendInLoop_spec h (by rw [hst]; simp) hp.1 hp.2
    obtain rfl : s₁ = s' := Option.some.inj (hs₁.symm.trans ((if_pos hst).symm.trans hs))
    rw [hsends.stream, hsends.committed_eq]
    simp [taken, hst]
  · obtain rfl : s = s' := Option.some.inj ((if_neg hst).symm.trans hs)
    rw [hempty, hacc]
    simp [taken, hst]

/-- `writeCompleteCallback_` is called when everything has been written. -/
theorem Core.consistent_writeComplete (h : s.Core) (hempty : s.conn.outputBuffer.contents = [])
    (hlog : ConsistentFrom n (committed s.log) s.log) :
    ConsistentFrom n (committed s.log) s.writeComplete.log := by
  have hcore : (s.emit .writeCompleteCallback).Core := h.emit trivial
  have hcommitted : committed (s.emit .writeCompleteCallback).log = committed s.log :=
    committed_emit s trivial
  have hstream := h.stream
  rw [hempty, List.append_nil] at hstream
  unfold Session.writeComplete
  split_ifs
  · refine hlog.concat fun _ => ⟨h.readableBytes_eq_zero.mpr hempty,
      h.isWriting_eq_false.mpr hempty, hstream, ?_⟩
    rw [← hcommitted]
    exact hcore.inOrder hempty
  · exact hlog

theorem consistent_shutdownInLoop (h : ConsistentFrom n sent s.log) :
    ConsistentFrom n sent s.shutdownInLoop.log := by
  unfold shutdownInLoop
  split_ifs
  · exact h
  · exact h.extend [_] (by simp [CallbackOk])

/-! ## `sendInLoop` -/

theorem directWrite_remaining (hw : w.Within data.length) (hlen : data.length < 2 ^ 64) :
    (s.directWrite data w).remaining = s.unwritten data w := by
  unfold directWrite unwritten
  by_cases hdir : s.conn.channel.isWriting = false ∧ s.conn.outputBuffer.readableBytes = 0
  · rw [if_pos hdir, if_pos (by simpa using hdir)]
    cases w with
    | ok n => exact sizeSub_of_le hw hlen
    | fail e => rfl
  · rw [if_neg hdir, if_neg (by simpa using hdir)]

/-- The direct write calls `writeCompleteCallback_` if it has written everything. -/
theorem directWrite_consistent (h : s.Core) (hw : w.Within data.length)
    (hlen : data.length < 2 ^ 64) :
    ConsistentFrom s.log.length (committed s.log ++ if s.Faults w then [] else data)
      (s.directWrite data w).session.log := by
  generalize hsent : committed s.log ++ (if s.Faults w then [] else data) = sent
  have hstart := consistentFrom_length s sent
  unfold directWrite
  by_cases hdir : ¬ s.conn.channel.isWriting = true ∧ s.conn.outputBuffer.readableBytes = 0
  · rw [if_pos hdir]
    cases w with
    | ok k =>
      have hk : k ≤ data.length := hw
      have hlog : ConsistentFrom s.log.length sent
          ((s.emit (.write data (.ok k))).emit (.commit data)).log := by
        rw [emit_log, emit_log, List.append_assoc]
        exact hstart.extend _ (by simp [CallbackOk])
      dsimp only
      split_ifs with hrem
      · rw [sizeSub_of_le hk hlen] at hrem
        have hempty := h.readableBytes_eq_zero.mp hdir.2
        have hstream := h.stream
        rw [hempty, List.append_nil] at hstream
        have hcore : ((s.emit (.write data (.ok k))).emit (.commit data)).Core := by
          refine ⟨h.outWf, h.inWf, h.established, h.writing_iff, ?_, Extends.shutdowns
            ((s.extends_emit _ (by simp)).trans (extends_emit _ _ (by simp))) h.shutdowns⟩
          have hall : data.take k = data := List.take_of_length_le (by omega)
          simp [hempty, hstream, hall]
        have hnf : ¬ s.Faults (.ok k) := fun hc => absurd hc.2.2 (by simp [WriteResult.isFault])
        have hcom : committed ((s.emit (.write data (.ok k))).emit (.commit data)).log = sent := by
          rw [← hsent, if_neg hnf]
          simp
        rw [← hcom] at hlog ⊢
        exact hcore.consistent_writeComplete hempty hlog
      · exact hlog
    | fail e =>
      dsimp only
      split_ifs
      · exact hstart.extend [_] (by simp [CallbackOk])
      · rw [emit_log, emit_log, List.append_assoc]
        exact hstart.extend _ (by simp [CallbackOk])
  · rw [if_neg hdir]
    exact hstart.extend [_] (by simp [CallbackOk])

/-- `queueRest` calls `highWaterMarkCallback_` first. -/
theorem queueRest_log {rest : Bytes} (hs : s.queueRest rest = some s') :
    ∃ new, s'.log = (s.highWater rest.length).log ++ new ∧
      ∀ e ∈ new, ∀ sent before, CallbackOk sent before e := by
  obtain ⟨b, -, hs⟩ := Option.bind_eq_some_iff.mp hs
  dsimp only at hs
  split at hs
  · rw [← Option.some.inj hs]
    exact ⟨[], by simp, by simp⟩
  · rw [← Option.some.inj hs]
    exact ⟨[_], rfl, by simp [CallbackOk]⟩

/-- The callback comes before the bytes it announces are queued. -/
theorem queueRest_consistent_iff {rest : Bytes} (hs : s.queueRest rest = some s')
    (hpos : 0 < rest.length) (hfit : s.conn.outputBuffer.readableBytes + rest.length < 2 ^ 64)
    (hn : n ≤ s.log.length) (hlog : ConsistentFrom n sent s.log) :
    ConsistentFrom n sent s'.log ↔
      ¬ (s.conn.highWaterMarkCallback = true ∧
        s.conn.outputBuffer.readableBytes < s.conn.highWaterMark ∧
        s.conn.highWaterMark ≤ s.conn.outputBuffer.readableBytes + rest.length) := by
  obtain ⟨new, hnew, hok⟩ := queueRest_log hs
  rw [hnew]
  unfold highWater
  simp only [sizeAdd_of_lt hfit]
  split_ifs with hdue
  · refine iff_of_false (fun hall => ?_) (by simp [hdue])
    have hcall := hall s.log _ new (by rw [emit_log, List.append_assoc]; rfl) hn
    have hread : s.conn.outputBuffer.readableBytes =
      s.conn.outputBuffer.readableBytes + rest.length := hcall.1
    exact Nat.ne_of_lt (Nat.lt_add_of_pos_right hpos) hread
  · refine iff_of_true (hlog.extend new fun e he => hok e he sent) fun hc => hdue ?_
    exact ⟨hc.2.2, hc.2.1, hc.1⟩

theorem sendInLoop_callbacks (h : s.Core) (hst : s.conn.state ≠ .kDisconnected)
    (hw : w.Within data.length) (hf : s.conn.outputBuffer.Fits data.length)
    (hs : s.sendInLoop data w = some s') :
    ConsistentFrom s.log.length (committed s.log ++ if s.Faults w then [] else data) s'.log ↔
      ¬ s.CrossesMark data w := by
  have hlen : data.length < 2 ^ 64 := by have := hf.1; omega
  have hd := directWrite_spec h hw hlen
  have hrem : (s.directWrite data w).remaining = s.unwritten data w := directWrite_remaining hw hlen
  have hlog := directWrite_consistent h hw hlen
  have hread : s.conn.outputBuffer.readableBytes ≤ s.conn.outputBuffer.writerIndex := by
    rw [h.outWf.readableBytes_eq]
    exact Nat.sub_le ..
  unfold sendInLoop at hs
  rw [if_neg hst] at hs
  generalize s.directWrite data w = d at hd hrem hlog hs
  have hnwrote := hd.remaining_eq
  have hle : d.remaining ≤ data.length := by omega
  simp only [hle, if_true] at hs
  split_ifs at hs with hq
  · have hnf : ¬ s.Faults w := fun hc => hq.1 (hd.fault_iff.mpr hc)
    have hrest : (data.drop d.nwrote).length = d.remaining := by rw [List.length_drop, hnwrote]
    have hn : s.log.length ≤ d.session.log.length := by
      obtain ⟨new, hnew, -⟩ := hd.ext
      rw [hnew, List.length_append]
      omega
    rw [queueRest_consistent_iff hs (by omega) (by have := hf.2; rw [hd.conn_eq]; omega) hn hlog,
      hd.conn_eq, hrest, hrem]
    simp [CrossesMark, hnf]
  · obtain rfl := Option.some.inj hs
    refine iff_of_true hlog ?_
    rintro ⟨-, hnf, hbelow, hmark⟩
    -- nothing is left
    have hpos : 0 < d.remaining := by omega
    exact hq ⟨fun hc => hnf (hd.fault_iff.mp hc), hpos⟩

/-! ## The other events -/

/-- The rest of `handleWrite` when the buffer has been drained: `writeCompleteCallback_` comes after
    the updates. -/
theorem drained_consistent (hwf : s.conn.outputBuffer.Wf) (hin : s.conn.inputBuffer.Wf)
    (hest : s.conn.state ≠ .kConnecting) (hempty : s.conn.outputBuffer.contents = [])
    (hstream : accepted s.log = committed s.log) (hshut : ShutdownsDrained s.log)
    (hlog : ConsistentFrom n (committed s.log) s.log) :
    ConsistentFrom n (committed s.log) s.drained.log := by
  have hcore := Core.cleared hwf hin hest hempty hstream hshut
  have hcom : committed ((s.setEvent (s.conn.channel.events &&& lnot CHANNEL_WRITE)).emit
      .updateChannel).log = committed s.log := committed_emit _ trivial
  have hset : ConsistentFrom n (committed s.log)
      ((s.setEvent (s.conn.channel.events &&& lnot CHANNEL_WRITE)).emit .updateChannel).log :=
    hlog.extend [_] (by simp [CallbackOk])
  rw [← hcom] at hset ⊢
  have hcalled := hcore.consistent_writeComplete hempty hset
  unfold Session.drained
  dsimp only
  split_ifs
  · exact consistent_shutdownInLoop hcalled
  · exact hcalled

theorem handleWrite_callbacks (h : s.Core) (hw : w.Within s.conn.outputBuffer.readableBytes)
    (hs : s.handleWrite w = some s') :
    ConsistentFrom s.log.length (committed s.log) s'.log := by
  have hstart := consistentFrom_length s (committed s.log)
  have hwrite : ConsistentFrom s.log.length (committed s.log)
      (s.emit (.write s.conn.outputBuffer.contents w)).log := hstart.extend [_] (by simp [CallbackOk])
  rcases handleWrite_cases hs with ⟨-, rfl⟩ | ⟨-, rfl | ⟨k, b, rfl, hb, ⟨-, rfl⟩ | ⟨h0, rfl⟩⟩⟩
  · exact hstart
  · exact hwrite
  · exact hwrite
  · obtain ⟨hbwf, hempty, hstream⟩ := h.written_all hw hb h0
    have hcom : committed ((s.emit (.write s.conn.outputBuffer.contents (.ok k))).setOutput
        b).log = committed s.log := by simp
    rw [← hcom] at hwrite ⊢
    exact drained_consistent hbwf h.inWf h.established hempty hstream
      ((s.extends_emit _ (by simp)).shutdowns h.shutdowns) hwrite

theorem handleRead_callbacks {r : ReadResult} (hs : s.handleRead r = some s') (sent : Bytes) :
    ConsistentFrom s.log.length sent s'.log := by
  have hstart := consistentFrom_length s sent
  obtain ⟨b, -, ⟨-, rfl | rfl⟩ | ⟨-, -, rfl⟩⟩ := handleRead_cases hs
  · exact hstart
  · exact hstart.extend [_] (by simp [CallbackOk])
  · rw [emit_log, emit_log, List.append_assoc]
    exact hstart.extend _ (by simp [CallbackOk])

/-- In one event the callbacks see a consistent connection unless a high-water-mark callback is
    due. -/
theorem step_callbacks (h : s.Core) {e : ConnEvent} (hp : e.Possible s) (hs : e.step s = some s') :
    ConsistentFrom s.log.length (committed s.log ++ s.taken e) s'.log ↔ ¬ s.MarkDue e := by
  cases e with
  | send data w =>
    by_cases hst : s.conn.state = .kConnected
    · have hloop : s.sendInLoop data w = some s' := (if_pos hst).symm.trans hs
      have hcalls := sendInLoop_callbacks h (by rw [hst]; simp) hp.1 hp.2 hloop
      simpa [taken, MarkDue, hst] using hcalls
    · obtain rfl : s = s' := Option.some.inj ((if_neg hst).symm.trans hs)
      exact iff_of_true (consistentFrom_length s _) fun hc => hst hc.1
  | sendInLoop data w =>
    by_cases hst : s.conn.state = .kDisconnected
    · obtain rfl : s = s' := Option.some.inj ((if_pos hst).symm.trans hs)
      exact iff_of_true (consistentFrom_length s _) fun hc => hc.1 hst
    · have hcalls := sendInLoop_callbacks h hst hp.1 hp.2 hs
      simpa [taken, MarkDue, hst] using hcalls
  | shutdown =>
    refine iff_of_true ?_ id
    rw [← Option.some.inj hs, shutdown]
    split_ifs
    · exact consistent_shutdownInLoop (consistentFrom_length s _)
    · exact consistentFrom_length s _
  | handleWrite w =>
    refine iff_of_true ?_ id
    rw [show s.taken (.handleWrite w) = [] from rfl, List.append_nil]
    exact handleWrite_callbacks h hp.2 hs
  | handleRead r => exact iff_of_true (handleRead_callbacks hs _) id

end Session

/-! ## Runs -/

/-- A connection, and the bytes of every send that has been made, but for the messages dropped by
    EPIPE or ECONNRESET. -/
structure Traffic where
  session : Session
  sent : Bytes

namespace Traffic

def step (t : Traffic) (e : ConnEvent) : Option Traffic :=
  (e.step t.session).map fun s => ⟨s, t.sent ++ t.session.taken e⟩

def Possible (t : Traffic) (e : ConnEvent) : Prop := e.Possible t.session

instance (t : Traffic) (e : ConnEvent) : Decidable (t.Possible e) :=
  inferInstanceAs (Decidable (e.Possible t.session))

def MarkDue (t : Traffic) (e : ConnEvent) : Prop := t.session.MarkDue e

instance (t : Traffic) (e : ConnEvent) : Decidable (t.MarkDue e) :=
  inferInstanceAs (Decidable (t.session.MarkDue e))

/-- Every callback of the event sees a consistent connection. -/
def Consistent (t : Traffic) (e : ConnEvent) : Prop :=
  ∀ t', step t e = some t' → Session.ConsistentFrom t.session.log.length t'.sent t'.session.log

/-- The invariant: `sent` is what `sendInLoop` has taken charge of. -/
structure Inv (t : Traffic) : Prop where
  session : t.session.Inv
  sent : committed t.session.log = t.sent

theorem step_spec {t : Traffic} (h : t.Inv) {e : ConnEvent} (hp : t.Possible e) :
    ∃ t', step t e = some t' ∧ t'.Inv ∧ (t.Consistent e ↔ ¬ t.MarkDue e) := by
  obtain ⟨s, hs, hok⟩ := Session.step_spec h.session.toCore hp
  have hstep : step t e = some ⟨s, t.sent ++ t.session.taken e⟩ := by rw [step, hs]; rfl
  have hcalls := Session.step_callbacks h.session.toCore hp hs
  rw [h.sent] at hcalls
  refine ⟨_, hstep, ⟨hok.inv h.session, by rw [hok.committed_eq, h.sent]⟩, Iff.trans ?_ hcalls⟩
  constructor
  · intro hall
    exact hall _ hstep
  · intro hcons t' ht'
    obtain rfl := Option.some.inj (hstep.symm.trans ht')
    exact hcons

def start (activeEvents : Flags) (sockfd : ℤ) (wcc hwm : Bool) : Traffic :=
  ⟨Session.established activeEvents sockfd wcc hwm, []⟩

theorem start_inv (activeEvents : Flags) (sockfd : ℤ) (wcc hwm : Bool) :
    (start activeEvents sockfd wcc hwm).Inv :=
  ⟨Session.inv_established activeEvents sockfd wcc hwm, rfl⟩

/-- **Callbacks.** In a run of sends, drains and other events of an established connection, every
    callback about output sees a consistent connection exactly if no send of the run makes the
    output buffer cross the high-water mark while there is a callback for that. -/
theorem callbacks_consistent_iff (activeEvents : Flags) (sockfd : ℤ) (wcc hwm : Bool)
    (es : List ConnEvent) (hleg : Along step Possible (start activeEvents sockfd wcc hwm) es) :
    (∃ t, run step (start activeEvents sockfd wcc hwm) es = some t) ∧
    (Along step Consistent (start activeEvents sockfd wcc hwm) es ↔
      Along step (fun t e => ¬ t.MarkDue e) (start activeEvents sockfd wcc hwm) es) := by
  have hinv := start_inv activeEvents sockfd wcc hwm
  obtain ⟨t, hrun, -⟩ := run_total (I := Inv) (fun t e h hp => by
    obtain ⟨t', ht', hinv', -⟩ := step_spec h hp
    exact ⟨t', ht', hinv'⟩) es _ hinv hleg
  refine ⟨⟨t, hrun⟩, along_iff_of_invariant (J := Inv) (fun t e h hp => ?_)
    (fun t e t' h hp _ ht' => ?_) es _ hinv hleg⟩
  · obtain ⟨-, -, -, hiff⟩ := step_spec h hp
    exact hiff
  · obtain ⟨t₁, ht₁, hinv', -⟩ := step_spec h hp
    obtain rfl := Option.some.inj (ht₁.symm.trans ht')
    exact hinv'

/-- `writeCompleteCallback_` after a direct write and after a drain. -/
theorem callbacks_consistent_sample :
    Along step Consistent (start 0#32 7 true true)
      [.send [1] (.ok 1), .send [2, 3] (.ok 1), .send [4] (.fail EWOULDBLOCK), .handleWrite (.ok 2)] :=
  ((callbacks_consistent_iff 0#32 7 true true [.send [1] (.ok 1), .send [2, 3] (.ok 1),
    .send [4] (.fail EWOULDBLOCK), .handleWrite (.ok 2)] (by decide +kernel)).2).mpr
    (by decide +kernel)

/-- A message of 64 MiB that `write()` does not take. -/
theorem markDue_start {data : Bytes} (hlen : data.length = 64 * 1024 * 1024) :
    (start 0#32 7 false true).Possible (.send data (.fail EWOULDBLOCK)) ∧
      (start 0#32 7 false true).MarkDue (.send data (.fail EWOULDBLOCK)) := by
  have hconn : (start 0#32 7 false true).session.conn.outputBuffer = Buffer.init := rfl
  have hread : Buffer.init.readableBytes = 0 := rfl
  have hwriter : Buffer.init.writerIndex = 8 := rfl
  constructor
  · refine ⟨trivial, ?_⟩
    rw [hconn, Buffer.Fits, hlen, hwriter]
    decide
  · refine ⟨rfl, rfl, fun hc => absurd hc.2.2 (by decide), ?_, ?_⟩
    · rw [hconn, hread]
      decide
    · have hrest : (start 0#32 7 false true).session.unwritten data (.fail EWOULDBLOCK) =
          data.length := ite_self _
      rw [hrest, hlen]
      decide

/-- The callback announces 64 MiB when the output buffer is still empty. -/
theorem mark_announced_early :
    ¬ ∀ (activeEvents : Flags) (sockfd : ℤ) (wcc hwm : Bool) (es : List ConnEvent),
      Along step Possible (start activeEvents sockfd wcc hwm) es →
      Along step Consistent (start activeEvents sockfd wcc hwm) es := by
  intro hall
  obtain ⟨hposs, hdue⟩ := markDue_start (List.length_replicate (n := 64 * 1024 * 1024) (a := 0))
  obtain ⟨-, -, -, hiff⟩ := step_spec (start_inv 0#32 7 false true) hposs
  have hrun := hall 0#32 7 false true [.send (List.replicate (64 * 1024 * 1024) 0)
    (.fail EWOULDBLOCK)] ⟨hposs, fun _ _ => trivial⟩
  exact hiff.mp hrun.1 hdue

end Traffic

end XWeb.Net
