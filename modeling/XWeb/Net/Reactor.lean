import XWeb.Lib.SharedPtr
import XWeb.Net.Epoller

/-!
# The loop thread and its channels

The loop of `EventLoop::loop` (`net/event_loop.cpp` lines 42–49) over any `Poller`, with the
objects that handlers create and destroy: timers, which `timers_` owns, and connections, which
`conn_map_` owns together with the pointers that user code keeps. A connection is named by the
address of its channel, and they are destroyed together.

An iteration is a `poll`, and a `begin` for each channel it returns. The handler that `begin`
calls, if any, makes any `Action`s until `finish`. Actions are also made between iterations: in
`doPendingFunctors`, and before `loop()`.

`none` is the use of a `Channel` that has been destroyed, the destruction of one whose
`handleEvent` is still executing, or a `remove` that fails.

* `Reactor.step`: one step; `Legal`: what the loop, the program and the kernel guarantee about it.
* `Spares`: the step destroys no channel that is executing or still to come in the batch.
-/

namespace XWeb.Net

open XWeb.Lib

/-! ## Data -/

/-- The owners of a connection: the entry of `conn_map_`, and the pointers of user code. -/
inductive Holder
  | connMap
  | user
  deriving DecidableEq

/-- The poller, the channels, `timers_`, the owners of each connection; the channels of the batch
    that are still to come, the channel and the handler that are executing, and the handlers
    called since `poll` returned. -/
structure Reactor (σ : Type*) where
  poller : σ
  heap : Heap Channel
  timers : ℤ → Option ℕ
  conns : ℕ → Shared Holder
  active : List ℕ
  running : Option (ℕ × Handler)
  calls : List (ℕ × Handler)

/-- What code on the loop thread does. A descriptor comes from the kernel, `junk` is what the
    memory of a new channel's `active_events_` holds. -/
inductive Action (ω : Type*)
  /-- the functor of `runAfter` or `runEvery` -/
  | addTimer (fd : ℤ) (interval : ℤ) (isRepeat : Bool) (junk : Flags) (a : ω)
  /-- the functor of `cancel` -/
  | cancel (id : ℤ) (a : ω)
  /-- a channel that its owner keeps: an acceptor's, or the poller's own for wakeups -/
  | attach (fd : ℤ) (isListen : Bool) (junk : Flags) (a : ω)
  /-- `TcpServer::newConnection` -/
  | newConnection (fd : ℤ) (junk : Flags) (a : ω)
  /-- `setEvent` and `updateChannel` in a connection -/
  | setEvent (p : ℕ) (event : Flags) (a : ω)
  /-- `handleClose` in the read handler that is executing -/
  | endOfFile (a : ω)
  /-- user code keeps a pointer to a connection -/
  | hold (p : ℕ)
  /-- user code lets go of one -/
  | drop (p : ℕ)

inductive ReactorEvent (ω ι : Type*)
  | poll (i : ι)
  | begin
  | act (a : Action ω)
  | finish

namespace Reactor

variable {σ ω ι : Type*}

/-- Before anything is registered with the poller. -/
def init (s : σ) : Reactor σ :=
  { poller := s
    heap := Heap.empty
    timers := fun _ => none
    conns := fun _ => .unborn
    active := []
    running := none
    calls := [] }

/-- The channel whose `handleEvent` is executing. -/
def executing (r : Reactor σ) : Option ℕ := r.running.map Prod.fst

/-! ## Actions -/

/-- `delete` of a channel. -/
def destroy (r : Reactor σ) (p : ℕ) : Option (Reactor σ) :=
  if r.executing = some p then none else some { r with heap := r.heap.free p }

/-- A new channel and its first `update`. -/
def create (P : Poller σ ω ι) (r : Reactor σ) (c : Channel) (a : ω) : Reactor σ :=
  let u := P.update r.poller a r.heap.next c
  { r with poller := u.1, heap := r.heap.alloc u.2 }

/-- The channel of a timer as lines 112–117 set it up (and 128–133). -/
def timerChannel (fd : ℤ) (interval : ℤ) (isRepeat : Bool) (junk : Flags) : Channel :=
  { (Channel.construct junk 0 false).setEvent CHANNEL_TIMER with
    isRepeat := isRepeat, interval := interval, fd := fd }

/-- `timers_[fd] = std::move(channel)` (lines 119 and 135). A channel that was there goes. -/
def setTimer (r : Reactor σ) (fd : ℤ) (p : ℕ) : Option (Reactor σ) :=
  let r' := { r with timers := Function.update r.timers fd (some p) }
  match r.timers fd with
  | some old => r'.destroy old
  | none => some r'

/-- Lines 112–119, and 128–135. -/
def addTimer (P : Poller σ ω ι) (r : Reactor σ) (fd : ℤ) (interval : ℤ) (isRepeat : Bool)
    (junk : Flags) (a : ω) : Option (Reactor σ) :=
  (r.create P (timerChannel fd interval isRepeat junk) a).setTimer fd r.heap.next

/-- Lines 143–146. -/
def cancel (P : Poller σ ω ι) (r : Reactor σ) (id : ℤ) (a : ω) : Option (Reactor σ) :=
  match r.timers id with
  | none => some r
  | some p =>
    match r.heap.cell p with
    | none => none
    | some c =>
      (P.remove r.poller a c).bind fun poller =>
        { r with poller := poller, timers := Function.update r.timers id none }.destroy p

def attach (P : Poller σ ω ι) (r : Reactor σ) (fd : ℤ) (isListen : Bool) (junk : Flags) (a : ω) :
    Reactor σ :=
  r.create P ((Channel.construct junk fd isListen).setEvent
    (if isListen then CHANNEL_CONN else CHANNEL_READ)) a

/-- `newConnection` and `connectEstablished`; when they return, only `conn_map_` owns the
    connection. -/
def newConnection (P : Poller σ ω ι) (r : Reactor σ) (fd : ℤ) (junk : Flags) (a : ω) : Reactor σ :=
  { r.create P ((Channel.construct junk fd false).setEvent CHANNEL_READ) a with
    conns := Function.update r.conns r.heap.next (.make .connMap) }

def setEvent (P : Poller σ ω ι) (r : Reactor σ) (p : ℕ) (event : Flags) (a : ω) :
    Option (Reactor σ) :=
  match r.heap.cell p with
  | none => none
  | some c =>
    let u := P.update r.poller a p (c.setEvent event)
    some { r with poller := u.1, heap := r.heap.set p u.2 }

/-- An owner of the connection `p` goes; the last one takes the connection along. -/
def release (r : Reactor σ) (p : ℕ) (o : Holder) : Option (Reactor σ) :=
  let r' := { r with conns := Function.update r.conns p ((r.conns p).release o) }
  if ((r.conns p).release o).Alive then some r' else r'.destroy p

/-- `handleClose` (`net/tcp_connection.cpp` lines 203–211) and `removeConnection`: the argument
    of `closeCallback_` is the last owner to go if user code keeps none. -/
def endOfFile (P : Poller σ ω ι) (r : Reactor σ) (a : ω) : Option (Reactor σ) :=
  match r.executing with
  | none => none
  | some p =>
    match r.heap.cell p with
    | none => none
    | some c =>
      (P.remove r.poller a c).bind fun poller => { r with poller := poller }.release p .connMap

def hold (r : Reactor σ) (p : ℕ) : Reactor σ :=
  { r with conns := Function.update r.conns p ((r.conns p).share .user) }

def act (P : Poller σ ω ι) (r : Reactor σ) : Action ω → Option (Reactor σ)
  | .addTimer fd interval isRepeat junk a => r.addTimer P fd interval isRepeat junk a
  | .cancel id a => r.cancel P id a
  | .attach fd isListen junk a => some (r.attach P fd isListen junk a)
  | .newConnection fd junk a => some (r.newConnection P fd junk a)
  | .setEvent p event a => r.setEvent P p event a
  | .endOfFile a => r.endOfFile P a
  | .hold p => some (r.hold p)
  | .drop p => r.release p .user

/-! ## Steps -/

/-- Line 46: `handleEvent` of the next channel. -/
def begin (r : Reactor σ) : Option (Reactor σ) :=
  match r.active with
  | [] => none
  | p :: rest =>
    (r.heap.cell p).map fun c =>
      let called := c.handleEvent.map fun h => (p, h)
      { r with active := rest, running := called, calls := r.calls ++ called.toList }

def step (P : Poller σ ω ι) (r : Reactor σ) : ReactorEvent ω ι → Option (Reactor σ)
  | .poll i => (P.poll r.poller i r.heap).map fun (ret, heap) =>
    { r with heap := heap, active := ret, calls := [] }
  | .begin => r.begin
  | .act a => r.act P a
  | .finish => some { r with running := none }

/-! ## What a call that does not fail does -/

theorem destroy_cases {r r' : Reactor σ} {p : ℕ} (hs : r.destroy p = some r') :
    r.executing ≠ some p ∧ r' = { r with heap := r.heap.free p } := by
  unfold destroy at hs
  split at hs
  · exact absurd hs (by nofun)
  · rename_i hex
    exact ⟨hex, (Option.some.inj hs).symm⟩

theorem addTimer_cases {P : Poller σ ω ι} {r r' : Reactor σ} {fd interval : ℤ} {isRepeat : Bool}
    {junk : Flags} {a : ω} (hs : r.addTimer P fd interval isRepeat junk a = some r') :
    (r.timers fd = none ∧ r' =
      { r.create P (timerChannel fd interval isRepeat junk) a with
        timers := Function.update r.timers fd (some r.heap.next) }) ∨
    ∃ old, r.timers fd = some old ∧ r.executing ≠ some old ∧ r' =
      { r.create P (timerChannel fd interval isRepeat junk) a with
        timers := Function.update r.timers fd (some r.heap.next)
        heap := (r.create P (timerChannel fd interval isRepeat junk) a).heap.free old } := by
  unfold addTimer setTimer at hs
  cases hfd : r.timers fd with
  | none =>
    rw [show (r.create P (timerChannel fd interval isRepeat junk) a).timers fd = none from hfd] at hs
    exact Or.inl ⟨rfl, (Option.some.inj hs).symm⟩
  | some old =>
    rw [show (r.create P (timerChannel fd interval isRepeat junk) a).timers fd = some old
      from hfd] at hs
    obtain ⟨hex, rfl⟩ := destroy_cases hs
    exact Or.inr ⟨old, rfl, hex, rfl⟩

theorem cancel_cases {P : Poller σ ω ι} {r r' : Reactor σ} {id : ℤ} {a : ω}
    (hs : r.cancel P id a = some r') :
    (r.timers id = none ∧ r' = r) ∨
    ∃ p c poller, r.timers id = some p ∧ r.heap.cell p = some c ∧
      P.remove r.poller a c = some poller ∧ r.executing ≠ some p ∧ r' =
      { r with
        poller := poller
        timers := Function.update r.timers id none
        heap := r.heap.free p } := by
  unfold cancel at hs
  split at hs
  · rename_i hid
    exact Or.inl ⟨hid, (Option.some.inj hs).symm⟩
  · rename_i p hid
    split at hs
    · exact absurd hs (by nofun)
    · rename_i c hc
      obtain ⟨poller, hrem, hs⟩ := Option.bind_eq_some_iff.mp hs
      obtain ⟨hex, rfl⟩ := destroy_cases hs
      exact Or.inr ⟨p, c, poller, hid, hc, hrem, hex, rfl⟩

theorem setEvent_cases {P : Poller σ ω ι} {r r' : Reactor σ} {p : ℕ} {event : Flags} {a : ω}
    (hs : r.setEvent P p event a = some r') :
    ∃ c, r.heap.cell p = some c ∧ r' =
      { r with
        poller := (P.update r.poller a p (c.setEvent event)).1
        heap := r.heap.set p (P.update r.poller a p (c.setEvent event)).2 } := by
  unfold setEvent at hs
  split at hs
  · exact absurd hs (by nofun)
  · rename_i c hc
    exact ⟨c, hc, (Option.some.inj hs).symm⟩

theorem release_cases {r r' : Reactor σ} {p : ℕ} {o : Holder} (hs : r.release p o = some r') :
    (((r.conns p).release o).Alive ∧
      r' = { r with conns := Function.update r.conns p ((r.conns p).release o) }) ∨
    (¬ ((r.conns p).release o).Alive ∧ r.executing ≠ some p ∧ r' =
      { r with
        conns := Function.update r.conns p ((r.conns p).release o)
        heap := r.heap.free p }) := by
  unfold release at hs
  split at hs
  · rename_i halive
    exact Or.inl ⟨halive, (Option.some.inj hs).symm⟩
  · rename_i hlast
    obtain ⟨hex, rfl⟩ := destroy_cases hs
    exact Or.inr ⟨hlast, hex, rfl⟩

/-- The connection that is executing is not destroyed, so another owner is left. -/
theorem endOfFile_cases {P : Poller σ ω ι} {r r' : Reactor σ} {a : ω}
    (hs : r.endOfFile P a = some r') :
    ∃ p c poller, r.executing = some p ∧ r.heap.cell p = some c ∧
      P.remove r.poller a c = some poller ∧ ((r.conns p).release .connMap).Alive ∧ r' =
      { r with
        poller := poller
        conns := Function.update r.conns p ((r.conns p).release .connMap) } := by
  unfold endOfFile at hs
  split at hs
  · exact absurd hs (by nofun)
  · rename_i p hex
    split at hs
    · exact absurd hs (by nofun)
    · rename_i c hc
      obtain ⟨poller, hrem, hs⟩ := Option.bind_eq_some_iff.mp hs
      obtain ⟨halive, rfl⟩ | ⟨-, hne, -⟩ := release_cases hs
      · exact ⟨p, c, poller, hex, hc, hrem, halive, rfl⟩
      · exact absurd hex hne

theorem begin_cases {r r' : Reactor σ} (hs : r.begin = some r') :
    ∃ p rest c, r.active = p :: rest ∧ r.heap.cell p = some c ∧ r' =
      { r with
        active := rest
        running := c.handleEvent.map fun h => (p, h)
        calls := r.calls ++ (c.handleEvent.map fun h => (p, h)).toList } := by
  unfold begin at hs
  split at hs
  · exact absurd hs (by nofun)
  · rename_i p rest hact
    obtain ⟨c, hc, rfl⟩ := Option.map_eq_some_iff.mp hs
    exact ⟨p, rest, c, hact, hc, rfl⟩

/-! ## Which steps can be made -/

/-- End-of-file is seen by the read handler of a connection that is in `conn_map_`; connections
    are used and let go of through pointers to them, and ask for masks that the poller is made
    for. -/
def ActLegal (P : Poller σ ω ι) (r : Reactor σ) : Action ω → Prop
  | .setEvent p event _ => (r.conns p).Alive ∧ P.fits event = true
  | .endOfFile _ => ∃ x ∈ r.running, x.2 = .read ∧ .connMap ∈ (r.conns x.1).owners
  | .hold p => (r.conns p).Alive
  | .drop p => .user ∈ (r.conns p).owners
  | _ => True

instance (P : Poller σ ω ι) (r : Reactor σ) (a : Action ω) : Decidable (r.ActLegal P a) := by
  cases a <;> unfold ActLegal <;> infer_instance

/-- The loop makes its steps in order, with actions in handlers and between iterations, and
    `poll` itself does not use a destroyed channel. -/
def Legal (P : Poller σ ω ι) (r : Reactor σ) : ReactorEvent ω ι → Prop
  | .poll i => r.running = none ∧ r.active = [] ∧ (P.poll r.poller i r.heap).isSome = true
  | .begin => r.running = none ∧ r.active ≠ []
  | .act a => (r.running ≠ none ∨ r.active = []) ∧ r.ActLegal P a
  | .finish => r.running ≠ none

instance (P : Poller σ ω ι) (r : Reactor σ) (e : ReactorEvent ω ι) : Decidable (r.Legal P e) := by
  cases e <;> unfold Legal <;> infer_instance

/-- `p` is not the channel that is executing, and it does not come later in the batch. -/
def Apart (r : Reactor σ) (p : ℕ) : Prop := r.executing ≠ some p ∧ p ∉ r.active

instance (r : Reactor σ) (p : ℕ) : Decidable (r.Apart p) := by unfold Apart; infer_instance

/-- A timer that is cancelled or replaced is apart; end-of-file is seen on a connection that not
    only `conn_map_` owns; the last pointer that goes is to a connection that is apart. -/
def Spares (r : Reactor σ) : ReactorEvent ω ι → Prop
  | .act (.addTimer fd _ _ _ _) => ∀ p ∈ r.timers fd, r.Apart p
  | .act (.cancel id _) => ∀ p ∈ r.timers id, r.Apart p
  | .act (.endOfFile _) => ∀ p ∈ r.executing, (r.conns p).owners ≠ [.connMap]
  | .act (.drop p) => (r.conns p).owners = [.user] → r.Apart p
  | _ => True

instance (r : Reactor σ) (e : ReactorEvent ω ι) : Decidable (r.Spares e) := by
  unfold Spares
  split <;> infer_instance

end Reactor

end XWeb.Net
