import XWeb.Net.OutputStream

/-!
# `send` inside `writeCompleteCallback_`

`runInLoop` calls a functor at once on the loop thread (`net/event_loop.cpp` lines 72–78), so that a
write-complete callback runs inside the `sendInLoop` that has written everything, and a `send` that
it makes enters `sendInLoop` again. Here the activations of `sendInLoop` on the stack of the loop
thread are part of the state. A callback is given by what it sends each time: one message, and then
any others.

* `Nested.step`: what `write()` returns to the innermost activation, or an event on an empty stack.
* `called_iff`: the callback is called when a direct write is accepted in full.
* `nested_depth_iff`: which runs stay within a given depth.
* `nested_depth_unbounded`: no depth is enough.
-/

namespace XWeb.Net

open XWeb.Lib

/-! ## Model -/

/-- An activation of `sendInLoop`, and what its caller sends when it has returned. -/
structure Activation where
  data : Bytes
  rest : List Bytes
  deriving DecidableEq

/-- A connection, and the activations of `sendInLoop` on the stack, the innermost first. All but
    that one are inside their callback. -/
structure Nested where
  session : Session
  stack : List Activation

/-- What happens on the loop thread: outside of callbacks, a `send`, a functor and the handlers; and
    the result of `write()` in the innermost activation, if it writes. -/
inductive NestedEvent
  | send (data : Bytes)
  | functor (data : Bytes)
  | write (w : WriteResult)
  | shutdown
  | handleWrite (w : WriteResult)
  | handleRead (r : ReadResult)

/-- A call that leads from `s` to `s'` calls `writeCompleteCallback_`. -/
def Session.called (s s' : Session) : Bool :=
  (s'.log.drop s.log.length).any fun e => e.io = .writeCompleteCallback

/-- The innermost activation returns. Its caller goes on; a callback that has nothing more to send
    returns as well, and so does the activation that called it. -/
def resume : List Activation → List Activation
  | [] => []
  | a :: below =>
    match a.rest with
    | [] => resume below
    | m :: ms => { data := m, rest := ms } :: below

namespace Nested

variable (cb : Session → Bytes × List Bytes)

/-- `writeCompleteCallback_` is called when `stack` are the activations: it sends its first message,
    unless `send` finds that the connection is not connected. -/
def callback (session : Session) (stack : List Activation) : Option Nested :=
  if session.conn.state = .kConnected then
    some { session, stack := { data := (cb session).1, rest := (cb session).2 } :: stack }
  else none

/-- The innermost activation, once `write()` has returned. -/
def write (s : Nested) (w : WriteResult) : Option Nested :=
  match s.stack with
  | [] => none
  | a :: below => (s.session.sendInLoop a.data w).map fun session =>
    let next := if s.session.called session then callback cb session (a :: below) else none
    next.getD { session, stack := resume (a :: below) }

/-- A handler or `shutdown`, on an empty stack. -/
def loop (s : Nested) (e : ConnEvent) : Option Nested :=
  (e.step s.session).map fun session =>
    let next := if s.session.called session then callback cb session [] else none
    next.getD { session, stack := [] }

def step (s : Nested) : NestedEvent → Option Nested
  | .send data => some
    (if s.session.conn.state = .kConnected then { s with stack := [{ data, rest := [] }] } else s)
  | .functor data => some { s with stack := [{ data, rest := [] }] }
  | .write w => s.write cb w
  | .shutdown => s.loop cb .shutdown
  | .handleWrite w => s.loop cb (.handleWrite w)
  | .handleRead r => s.loop cb (.handleRead r)

/-- The loop does nothing else during a call; a count is at most what was asked for, and no buffer
    comes near `2^64` bytes. -/
def Legal (s : Nested) : NestedEvent → Prop
  | .send _ | .functor _ => s.stack = []
  | .write w => ∃ a ∈ s.stack.head?, (ConnEvent.sendInLoop a.data w).Possible s.session
  | .shutdown => s.stack = [] ∧ ConnEvent.shutdown.Possible s.session
  | .handleWrite w => s.stack = [] ∧ (ConnEvent.handleWrite w).Possible s.session
  | .handleRead r => s.stack = [] ∧ (ConnEvent.handleRead r).Possible s.session

end Nested

/-! ## When the callback is called -/

namespace Session

variable {s s' s'' : Session} {data : Bytes} {w : WriteResult}

/-- `sendInLoop` writes directly, all of `data` is accepted, and there is a callback for that. -/
def FullWrite (s : Session) (data : Bytes) (w : WriteResult) : Prop :=
  s.conn.state ≠ .kDisconnected ∧ s.conn.channel.isWriting = false ∧
    s.conn.outputBuffer.readableBytes = 0 ∧ w = .ok data.length ∧ s.conn.writeCompleteCallback = true

instance (s : Session) (data : Bytes) (w : WriteResult) : Decidable (s.FullWrite data w) := by
  unfold FullWrite; infer_instance

/-- `s'` comes from `s` without a call of the callback. -/
def Silent (s s' : Session) : Prop :=
  ∃ new, s'.log = s.log ++ new ∧ ∀ e ∈ new, e.io ≠ .writeCompleteCallback

theorem Silent.refl (s : Session) : s.Silent s := ⟨[], by simp, by simp⟩

theorem Silent.trans (h : s.Silent s') (h' : s'.Silent s'') : s.Silent s'' := by
  obtain ⟨new, hl, hn⟩ := h
  obtain ⟨new', hl', hn'⟩ := h'
  refine ⟨new ++ new', by rw [hl', hl, List.append_assoc], fun e he => ?_⟩
  rcases List.mem_append.mp he with he | he
  · exact hn e he
  · exact hn' e he

theorem silent_emit (s : Session) {io : Io} (h : io ≠ .writeCompleteCallback) :
    s.Silent (s.emit io) := ⟨_, rfl, by simpa using h⟩

theorem Silent.called_eq (h : s.Silent s') : s.called s' = false := by
  obtain ⟨new, hl, hn⟩ := h
  rw [called, hl, List.drop_left, List.any_eq_false]
  simpa using hn

theorem called_emit (h : s.Silent s') : s.called (s'.emit .writeCompleteCallback) = true := by
  obtain ⟨new, hl, -⟩ := h
  rw [called, emit_log, hl, List.append_assoc, List.drop_left]
  simp

theorem silent_highWater (s : Session) (n : ℕ) : s.Silent (s.highWater n) := by
  unfold highWater
  dsimp only
  split_ifs
  · exact s.silent_emit (by simp)
  · exact Silent.refl s

theorem silent_queueRest {rest : Bytes} (hs : s.queueRest rest = some s') : s.Silent s' := by
  obtain ⟨b, -, hs⟩ := Option.bind_eq_some_iff.mp hs
  have hout : s.Silent ((s.highWater rest.length).setOutput b) := s.silent_highWater rest.length
  dsimp only at hs
  split at hs
  · rw [← Option.some.inj hs]
    exact hout
  · rw [← Option.some.inj hs]
    exact hout.trans (silent_emit _ (by simp))

/-- Everything has been written. -/
theorem sendInLoop_full (h : s.FullWrite data w) (hlen : data.length < 2 ^ 64) :
    ∃ s', s.sendInLoop data w = some s' ∧ s'.conn = s.conn ∧ s.called s' = true := by
  obtain ⟨hst, hnw, hempty, rfl, hcb⟩ := h
  have hrem : sizeSub data.length data.length = 0 := by
    rw [sizeSub_of_le le_rfl hlen, Nat.sub_self]
  have hdirect : s.directWrite data (.ok data.length) =
      ⟨((s.emit (.write data (.ok data.length))).emit (.commit data)).emit .writeCompleteCallback,
        data.length, 0, false⟩ := by
    simp [directWrite, hnw, hempty, hrem, writeComplete, hcb]
  have hsilent : s.Silent ((s.emit (.write data (.ok data.length))).emit (.commit data)) :=
    (s.silent_emit (by simp)).trans (silent_emit _ (by simp))
  refine ⟨((s.emit (.write data (.ok data.length))).emit (.commit data)).emit .writeCompleteCallback,
    ?_, rfl, called_emit hsilent⟩
  simp [sendInLoop, hst, hdirect]

/-- Not everything has been written, or nobody is told. -/
theorem silent_directWrite (h : ¬ s.FullWrite data w) (hst : s.conn.state ≠ .kDisconnected)
    (hw : w.Within data.length) (hlen : data.length < 2 ^ 64) :
    s.Silent (s.directWrite data w).session := by
  unfold directWrite
  by_cases hdir : ¬ s.conn.channel.isWriting = true ∧ s.conn.outputBuffer.readableBytes = 0
  · rw [if_pos hdir]
    have hwrite : s.Silent (s.emit (.write data w)) := s.silent_emit (by simp)
    have hcommit : s.Silent ((s.emit (.write data w)).emit (.commit data)) :=
      hwrite.trans (silent_emit _ (by simp))
    cases w with
    | ok n =>
      dsimp only
      split_ifs with hrem
      · have hn : n ≤ data.length := hw
        rw [sizeSub_of_le hn hlen] at hrem
        have hnone : s.conn.writeCompleteCallback = false := by
          rw [Bool.eq_false_iff]
          intro hcb
          exact h ⟨hst, by simpa using hdir.1, hdir.2, by rw [show n = data.length by omega], hcb⟩
        simpa [writeComplete, hnone] using hcommit
      · exact hcommit
    | fail e =>
      dsimp only
      split_ifs
      · exact hwrite
      · exact hcommit
  · rw [if_neg hdir]
    exact s.silent_emit (by simp)

/-- The callback is called exactly if a direct write is accepted in full. -/
theorem called_iff (hw : w.Within data.length) (hlen : data.length < 2 ^ 64)
    (hs : s.sendInLoop data w = some s') : s.called s' = true ↔ s.FullWrite data w := by
  constructor
  · intro hcalled
    by_contra hnot
    have hsilent : s.Silent s' := by
      by_cases hst : s.conn.state = .kDisconnected
      · obtain rfl : s = s' := Option.some.inj ((if_pos hst).symm.trans hs)
        exact Silent.refl s
      · have hdirect := silent_directWrite hnot hst hw hlen
        unfold sendInLoop at hs
        rw [if_neg hst] at hs
        dsimp only at hs
        split_ifs at hs with hle hq
        · exact hdirect.trans (silent_queueRest hs)
        · rwa [← Option.some.inj hs]
    rw [hsilent.called_eq] at hcalled
    exact absurd hcalled (by simp)
  · intro hfull
    obtain ⟨s₁, hs₁, -, hcalled⟩ := sendInLoop_full hfull hlen
    rwa [← Option.some.inj (hs₁.symm.trans hs)]

end Session

/-! ## Depth -/

theorem length_resume_le (stack : List Activation) : (resume stack).length ≤ stack.length := by
  induction stack with
  | nil => exact le_rfl
  | cons a below ih =>
    rw [resume]
    split
    · exact le_trans ih (Nat.le_succ _)
    · exact le_rfl

namespace Nested

variable {cb : Session → Bytes × List Bytes} {s : Nested} {K : ℕ}

/-- With `K` activations on the stack the direct write of the innermost one is accepted in full on a
    connected connection. -/
def Deepens (K : ℕ) (s : Nested) : NestedEvent → Prop
  | .write w => s.stack.length = K ∧ s.session.conn.state = .kConnected ∧
    ∃ a ∈ s.stack.head?, s.session.FullWrite a.data w
  | _ => False

/-- One result of `write()`. -/
theorem write_spec (h : s.session.Core) {w : WriteResult} (hl : s.Legal (.write w))
    (hK : s.stack.length ≤ K) :
    ∃ s', s.write cb w = some s' ∧ s'.session.Core ∧
      (s'.stack.length ≤ K ↔ ¬ s.Deepens K (.write w)) := by
  obtain ⟨session, stack⟩ := s
  obtain ⟨a, ha, hposs⟩ := hl
  obtain ⟨below, rfl⟩ : ∃ below, stack = a :: below := by
    cases stack with
    | nil => exact absurd ha (by simp)
    | cons b below => exact ⟨below, by rw [Option.some.inj ha]⟩
  obtain ⟨session', hs', hok⟩ := Session.step_spec h hposs
  have hsend : session.sendInLoop a.data w = some session' := hs'
  have hlen : a.data.length < 2 ^ 64 := by
    have hfit := hposs.2.1
    omega
  have hcalled := Session.called_iff hposs.1 hlen hsend
  have hstate : session'.conn.state = session.conn.state := hok.state_eq
  by_cases hdeep : session.FullWrite a.data w ∧ session.conn.state = .kConnected
  · -- the callback sends its first message on top of this activation
    obtain ⟨hfull, hconn⟩ := hdeep
    refine ⟨{ session := session',
              stack := { data := (cb session').1, rest := (cb session').2 } :: a :: below },
      ?_, hok.core, ?_⟩
    · simp only [write, hsend, Option.map_some, hcalled.mpr hfull, if_true, callback, hstate, hconn,
        Option.getD_some]
    · have hiff : Deepens K ⟨session, a :: below⟩ (.write w) ↔ (a :: below).length = K :=
        ⟨fun hd => hd.1, fun hlen => ⟨hlen, hconn, a, rfl, hfull⟩⟩
      rw [hiff]
      simp only [List.length_cons] at hK ⊢
      omega
  · refine ⟨{ session := session', stack := resume (a :: below) }, ?_, hok.core, ?_⟩
    · simp only [write, hsend, Option.map_some, callback, hstate]
      split_ifs with hc hconn
      · exact absurd ⟨hcalled.mp hc, hconn⟩ hdeep
      · rfl
      · rfl
    · have hle := le_trans (length_resume_le (a :: below)) hK
      refine ⟨fun _ hd => hdeep ?_, fun _ => hle⟩
      obtain ⟨-, hconn, b, hb, hfull⟩ := hd
      obtain rfl : a = b := Option.some.inj hb
      exact ⟨hfull, hconn⟩

/-- A handler leaves at most the activation that its callback enters. -/
theorem loop_spec (cb : Session → Bytes × List Bytes) (h : s.session.Core) {e : ConnEvent}
    (hposs : e.Possible s.session) (hK : 1 ≤ K) :
    ∃ s', s.loop cb e = some s' ∧ s'.session.Core ∧ s'.stack.length ≤ K := by
  obtain ⟨session', hs', hok⟩ := Session.step_spec h hposs
  unfold loop callback
  rw [hs']
  simp only [Option.map_some]
  split_ifs
  · exact ⟨_, rfl, hok.core, hK⟩
  · exact ⟨_, rfl, hok.core, Nat.zero_le K⟩
  · exact ⟨_, rfl, hok.core, Nat.zero_le K⟩

/-- One event. -/
theorem step_spec (h : s.session.Core) (hK : 1 ≤ K) (hdepth : s.stack.length ≤ K) {e : NestedEvent}
    (hl : s.Legal e) :
    ∃ s', s.step cb e = some s' ∧ s'.session.Core ∧ (s'.stack.length ≤ K ↔ ¬ s.Deepens K e) := by
  have hother : ∀ {s' : Nested}, s'.stack.length ≤ K → (s'.stack.length ≤ K ↔ ¬ False) :=
    fun hle => ⟨fun _ => id, fun _ => hle⟩
  cases e with
  | send data =>
    by_cases hconn : s.session.conn.state = .kConnected
    · exact ⟨_, congrArg some (if_pos hconn), h, hother hK⟩
    · exact ⟨_, congrArg some (if_neg hconn), h, hother hdepth⟩
  | functor data => exact ⟨_, rfl, h, hother hK⟩
  | write w => exact write_spec h hl hdepth
  | shutdown =>
    obtain ⟨s', hs', hcore, hle⟩ := loop_spec cb h hl.2 hK
    exact ⟨s', hs', hcore, hother hle⟩
  | handleWrite w =>
    obtain ⟨s', hs', hcore, hle⟩ := loop_spec cb h hl.2 hK
    exact ⟨s', hs', hcore, hother hle⟩
  | handleRead r =>
    obtain ⟨s', hs', hcore, hle⟩ := loop_spec cb h hl.2 hK
    exact ⟨s', hs', hcore, hother hle⟩

/-- A connection that has just been established. -/
def start (activeEvents : Flags) (sockfd : ℤ) (wcc hwm : Bool) : Nested :=
  { session := Session.established activeEvents sockfd wcc hwm, stack := [] }

end Nested

/-! ## Writes that are always accepted -/

/-- The next direct write of a byte can be accepted, and the callback will be called. -/
structure Echoing (s : Session) : Prop where
  full : s.FullWrite [7] (.ok 1)
  connected : s.conn.state = .kConnected
  fits : s.conn.outputBuffer.Fits 1

/-- A callback that sends one byte more. -/
def echo : Session → Bytes × List Bytes := fun _ => ([7], [])

theorem echoing_of_conn_eq {s s' : Session} (h : Echoing s) (hc : s'.conn = s.conn) : Echoing s' := by
  obtain ⟨hfull, hconn, hfits⟩ := h
  refine ⟨?_, by rwa [hc], by rwa [hc]⟩
  unfold Session.FullWrite at hfull ⊢
  rwa [hc]

/-- Each byte that is accepted is one activation more. -/
theorem echo_write {session : Session} (h : Echoing session) (below : List Activation) :
    Nested.Legal ⟨session, ⟨[7], []⟩ :: below⟩ (.write (.ok 1)) ∧
      ∃ session', Echoing session' ∧
        Nested.step echo ⟨session, ⟨[7], []⟩ :: below⟩ (.write (.ok 1)) =
          some ⟨session', ⟨[7], []⟩ :: ⟨[7], []⟩ :: below⟩ := by
  obtain ⟨session', hs', hc, hcalled⟩ :=
    Session.sendInLoop_full h.full (show ([7] : Bytes).length < 2 ^ 64 by decide)
  have hnext := echoing_of_conn_eq h hc
  refine ⟨⟨_, rfl, show 1 ≤ ([7] : Bytes).length by decide, h.fits⟩, session', hnext, ?_⟩
  simp only [Nested.step, Nested.write, hs', Option.map_some, hcalled, if_true, Nested.callback,
    hnext.connected, Option.getD_some]
  rfl

theorem echo_run (n : ℕ) : ∀ {session : Session}, Echoing session → ∀ below : List Activation,
    Along (Nested.step echo) Nested.Legal ⟨session, ⟨[7], []⟩ :: below⟩
      (List.replicate n (.write (.ok 1))) ∧
    ∃ s', run (Nested.step echo) ⟨session, ⟨[7], []⟩ :: below⟩
      (List.replicate n (.write (.ok 1))) = some s' ∧ s'.stack.length = below.length + 1 + n := by
  induction n with
  | zero => intro session _ below; exact ⟨trivial, _, rfl, rfl⟩
  | succ n ih =>
    intro session h below
    obtain ⟨hlegal, session', hnext, hs'⟩ := echo_write h below
    obtain ⟨halong, s'', hrun, hlen⟩ := ih hnext (⟨[7], []⟩ :: below)
    rw [List.replicate_succ]
    refine ⟨along_step hlegal hs' halong, s'', run_cons_eq_some.mpr ⟨_, hs', hrun⟩, ?_⟩
    rw [hlen, List.length_cons]
    omega

/-- An established connection on which a byte is sent. -/
theorem echo_start (n : ℕ) :
    Along (Nested.step echo) Nested.Legal (Nested.start 0#32 3 true false)
      (.send [7] :: List.replicate n (.write (.ok 1))) ∧
    ∃ s', run (Nested.step echo) (Nested.start 0#32 3 true false)
      (.send [7] :: List.replicate n (.write (.ok 1))) = some s' ∧ s'.stack.length = 1 + n := by
  have hcore := (Session.inv_established 0#32 3 true false).toCore
  have hempty : (Session.established 0#32 3 true false).conn.outputBuffer.contents = [] :=
    Buffer.contents_init
  have hready : Echoing (Session.established 0#32 3 true false) := by
    refine ⟨⟨fun hst => (by cases hst), hcore.isWriting_eq_false.mpr hempty,
      hcore.readableBytes_eq_zero.mpr hempty, rfl, rfl⟩, rfl, ?_⟩
    show Buffer.init.Fits 1
    decide +kernel
  obtain ⟨halong, s', hrun, hlen⟩ := echo_run n hready []
  have hsend : Nested.step echo (Nested.start 0#32 3 true false) (.send [7]) =
      some ⟨Session.established 0#32 3 true false, [⟨[7], []⟩]⟩ := rfl
  refine ⟨along_step rfl hsend halong, s', run_cons_eq_some.mpr ⟨_, hsend, hrun⟩, ?_⟩
  rw [hlen, List.length_nil]

/-- **How deep `send` nests.** For every write-complete callback that sends each time it is
    called, and every run on the loop thread with any results of `write()`: at most `K`
    activations of `sendInLoop` are ever on the stack together exactly if the direct write of a
    `K`-th activation is never accepted in full. -/
theorem nested_depth_iff (cb : Session → Bytes × List Bytes) (K : ℕ) (hK : 1 ≤ K)
    (activeEvents : Flags) (sockfd : ℤ) (wcc hwm : Bool) (es : List NestedEvent)
    (hes : Along (Nested.step cb) Nested.Legal (Nested.start activeEvents sockfd wcc hwm) es) :
    Throughout (Nested.step cb) (fun s => s.stack.length ≤ K)
        (Nested.start activeEvents sockfd wcc hwm) es ↔
      Along (Nested.step cb) (fun s e => ¬ s.Deepens K e)
        (Nested.start activeEvents sockfd wcc hwm) es := by
  exact throughout_iff_along (J := fun s => s.session.Core)
    (fun s e h hdepth hl => Nested.step_spec h hK hdepth hl) es _
    (Session.inv_established activeEvents sockfd wcc hwm).toCore (Nat.zero_le K) hes

/-- Two bytes, of which the first is accepted. -/
theorem nested_depth_iff_echo :
    Throughout (Nested.step echo) (fun s => s.stack.length ≤ 1) (Nested.start 0#32 3 true false)
        (.send [7] :: List.replicate 1 (.write (.ok 1))) ↔
      Along (Nested.step echo) (fun s e => ¬ s.Deepens 1 e) (Nested.start 0#32 3 true false)
        (.send [7] :: List.replicate 1 (.write (.ok 1))) :=
  nested_depth_iff echo 1 le_rfl 0#32 3 true false _ (echo_start 1).1

/-- No depth is enough for every callback and all results of `write()`. -/
theorem nested_depth_unbounded : ¬ ∃ K : ℕ,
    ∀ (cb : Session → Bytes × List Bytes) (es : List NestedEvent),
      Along (Nested.step cb) Nested.Legal (Nested.start 0#32 3 true false) es →
        Throughout (Nested.step cb) (fun s => s.stack.length ≤ K)
          (Nested.start 0#32 3 true false) es := by
  rintro ⟨K, hbound⟩
  obtain ⟨halong, s', hrun, hlen⟩ := echo_start K
  have hle := hbound echo _ halong _ s' (List.prefix_refl _) hrun
  omega

end XWeb.Net
