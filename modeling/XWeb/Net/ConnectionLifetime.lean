import XWeb.Lib.CInt
import XWeb.Lib.SharedPtr
import XWeb.Net.FunctorQueue
import XWeb.Net.TcpConnection

/-!
# Lifetime of a connection

Connections of a `TcpServer`, the loop thread that closes them, and other threads that call `send`
and `shutdown` (`net/tcp_connection.cpp` lines 50–89, 150–155 and 203–211, `net/tcp_server.cpp`
lines 36–53). A connection is a `Shared` object: `conn_map_` owns it, so does the argument of
`closeCallback_`, and so does another thread for the time of its call. The functors that `send`
and `shutdown` queue bind a raw `this` and own nothing.

* `System.step`: a step of a thread, over `EventLoop.step`.
* `KeepsTargets`: the step does not take the last owner of a connection with a functor queued.
* `tasks_run_on_live_connections`: along such steps functors only run on live connections.
-/

namespace XWeb.Net

open XWeb.Lib

variable {T C : Type*}

/-! ## Data -/

/-- The pointers that own a connection. -/
inductive Owner (T : Type*)
  /-- the entry of `conn_map_` -/
  | connMap
  /-- the argument of `closeCallback_` (line 210) -/
  | closeArg
  /-- the pointer through which thread `t` calls -/
  | caller (t : T)
  deriving DecidableEq

/-- What is called on the connection. -/
inductive Op
  | send (message : Bytes)
  | shutdown
  deriving DecidableEq

/-- The functor `std::bind(f, this, ..)` of lines 56, 71, 86 and 153: `this` is the connection. -/
structure Task (C : Type*) where
  conn : C
  op : Op
  deriving DecidableEq

/-- A connection: who owns it, and `state_`. -/
structure Conn (T : Type*) where
  ptr : Shared (Owner T)
  state : StateE

/-- Where another thread is in a call of `send` or `shutdown`. -/
inductive Call (C : Type*)
  | idle
  /-- before the test of `state_` -/
  | entered (op : Op) (c : C)
  /-- in `shutdown`, before line 152 -/
  | tested (c : C)
  /-- before `runInLoop` -/
  | posting (op : Op) (c : C)
  /-- in `runInLoop`, before `wakeup` -/
  | posted (c : C)
  /-- before the pointer goes -/
  | leaving (c : C)

/-- The connection that the call is on. -/
def Call.target : Call C → Option C
  | .idle => none
  | .entered _ c | .tested c | .posting _ c | .posted c | .leaving c => some c

/-- Where the loop thread is in `handleClose`: before `removeConnection` erases, or after. -/
inductive Closing (C : Type*)
  | idle
  | closing (c : C)
  | erased (c : C)

structure System (T C : Type*) where
  loop : EventLoop T (Task C)
  conns : C → Conn T
  calls : T → Call C
  closing : Closing C

namespace System

/-- Before the first connection. -/
def init (t₀ : T) : System T C :=
  { loop := EventLoop.construct t₀
    conns := fun _ => ⟨.unborn, .kConnecting⟩
    calls := fun _ => .idle
    closing := .idle }

section

variable [DecidableEq T] [DecidableEq C]

/-! ## The loop thread -/

def setConn (s : System T C) (c : C) (conn : Conn T) : System T C :=
  { s with conns := Function.update s.conns c conn }

/-- An owner of `c` goes. The last one takes the connection along, and the destructor asserts
    that it is closed (line 34). -/
def release (s : System T C) (c : C) (r : Owner T) : Option (System T C) :=
  let ptr := (s.conns c).ptr.release r
  if ptr.Destroyed ∧ (s.conns c).state ≠ .kDisconnected then none
  else some (s.setConn c { s.conns c with ptr := ptr })

/-- `TcpServer::newConnection` and `connectEstablished`; when they return, only `conn_map_` owns the
    connection. -/
def newConnection (s : System T C) (c : C) : System T C :=
  s.setConn c ⟨.make .connMap, .kConnected⟩

/-- `handleClose` (lines 203–210) up to the call of `closeCallback_`. -/
def handleClose (s : System T C) (c : C) : Option (System T C) :=
  if (s.conns c).state = .kConnected ∨ (s.conns c).state = .kDisconnecting then
    some { s.setConn c ⟨(s.conns c).ptr.share .closeArg, .kDisconnected⟩ with closing := .closing c }
  else none

/-- `TcpServer::removeConnection`. -/
def removeConnection (s : System T C) : Option (System T C) :=
  match s.closing with
  | .closing c => (s.release c .connMap).map fun s => { s with closing := .erased c }
  | _ => none

/-- The end of the statement of line 210. -/
def closeReturn (s : System T C) : Option (System T C) :=
  match s.closing with
  | .erased c => (s.release c .closeArg).map fun s => { s with closing := .idle }
  | _ => none

/-! ## Other threads -/

def setCall (s : System T C) (t : T) (call : Call C) : System T C :=
  { s with calls := Function.update s.calls t call }

/-- Thread `t` has a `TcpConnectionPtr` to `c` and calls. -/
def call (s : System T C) (t : T) (op : Op) (c : C) : System T C :=
  (s.setConn c { s.conns c with ptr := (s.conns c).ptr.share (.caller t) }).setCall t (.entered op c)

/-- The test of `state_` (lines 51, 63, 78 and 151). -/
def test (s : System T C) (t : T) : Option (System T C) :=
  match s.calls t with
  | .entered op c =>
    if (s.conns c).state = .kConnected then
      match op with
      | .send _ => some (s.setCall t (.posting op c))
      | .shutdown => some (s.setCall t (.tested c))
    else some (s.setCall t (.leaving c))
  | _ => none

/-- Line 152. -/
def setState (s : System T C) (t : T) : Option (System T C) :=
  match s.calls t with
  | .tested c =>
    some ((s.setConn c { s.conns c with state := .kDisconnecting }).setCall t (.posting .shutdown c))
  | _ => none

/-- `runInLoop` up to `wakeup`. -/
def post (s : System T C) (t : T) : Option (System T C) :=
  match s.calls t with
  | .posting op c => some ({ s with loop := s.loop.runInLoop t ⟨c, op⟩ }.setCall t (.posted c))
  | _ => none

def wakeup (s : System T C) (t : T) : Option (System T C) :=
  match s.calls t with
  | .posted c => some ({ s with loop := s.loop.wakeup t }.setCall t (.leaving c))
  | _ => none

/-- The call returns, and its pointer goes. -/
def leave (s : System T C) (t : T) : Option (System T C) :=
  match s.calls t with
  | .leaving c => (s.release c (.caller t)).map fun s => s.setCall t .idle
  | _ => none

/-! ## Steps -/

/-- The steps: those of the loop thread in `EventLoop` and in its handlers, and those of the
    call of thread `t`. -/
inductive Event (T C : Type*)
  | loop (e : EventLoop.Event T (Task C))
  | newConnection (c : C)
  | handleClose (c : C)
  | removeConnection
  | closeReturn
  | call (t : T) (op : Op) (c : C)
  | test (t : T)
  | setState (t : T)
  | post (t : T)
  | wakeup (t : T)
  | leave (t : T)

def step (s : System T C) : Event T C → Option (System T C)
  | .loop e => (s.loop.step e).map fun l => { s with loop := l }
  | .newConnection c => some (s.newConnection c)
  | .handleClose c => s.handleClose c
  | .removeConnection => s.removeConnection
  | .closeReturn => s.closeReturn
  | .call t op c => some (s.call t op c)
  | .test t => s.test t
  | .setState t => s.setState t
  | .post t => s.post t
  | .wakeup t => s.wakeup t
  | .leave t => s.leave t

/-- The loop thread is in a handler, and not in `handleClose`. -/
def InHandler (s : System T C) : Prop := (∃ batch, s.loop.pc = .handler batch) ∧ s.closing = .idle

/-- The thread that makes the step is where the step begins. Another thread can call on a
    connection that exists; a connection in `conn_map_` is registered and can see end-of-file. -/
def Enabled (s : System T C) : Event T C → Prop
  | .loop e => s.loop.Enabled e ∧ EventLoop.ofLoopThread e ∧ s.closing = .idle
  | .newConnection c => s.InHandler ∧ (s.conns c).ptr.created = false
  | .handleClose c => s.InHandler ∧ .connMap ∈ (s.conns c).ptr.owners
  | .removeConnection => ∃ c, s.closing = .closing c
  | .closeReturn => ∃ c, s.closing = .erased c
  | .call t _ c => t ≠ s.loop.threadId ∧ s.calls t = .idle ∧ (s.conns c).ptr.Alive
  | .test t => ∃ op c, s.calls t = .entered op c
  | .setState t => ∃ c, s.calls t = .tested c
  | .post t => ∃ op c, s.calls t = .posting op c
  | .wakeup t => ∃ c, s.calls t = .posted c
  | .leave t => ∃ c, s.calls t = .leaving c

/-- The connection of which the step takes an owner. -/
def released (s : System T C) : Event T C → Option C
  | .removeConnection => match s.closing with
    | .closing c => some c
    | _ => none
  | .closeReturn => match s.closing with
    | .erased c => some c
    | _ => none
  | .leave t => match s.calls t with
    | .leaving c => some c
    | _ => none
  | _ => none

/-- If the step takes the last owner of a connection, no functor bound to it is in the queue,
    swapped out, or running. -/
def KeepsTargets (s : System T C) (e : Event T C) : Prop :=
  ∀ c, s.released e = some c → (s.conns c).ptr.owners.length ≤ 1 →
    ∀ q ∈ s.loop.queued, q.functor.conn ≠ c

end

/-! ## The invariant -/

/-- Between any two steps: a thread in a call owns its connection, and every queued functor has
    its connection. -/
structure Inv (s : System T C) : Prop where
  calls : ∀ t c, (s.calls t).target = some c → .caller t ∈ (s.conns c).ptr.owners
  queued : ∀ q ∈ s.loop.queued, (s.conns q.functor.conn).ptr.Alive

theorem init_inv (t₀ : T) : Inv (init t₀ : System T C) where
  calls := by intro t c h; exact absurd h (by nofun)
  queued := by simp [init, EventLoop.queued, EventLoop.construct, LoopPc.unfinished]

theorem Inv.setLoop {s : System T C} (h : s.Inv) {l : EventLoop T (Task C)}
    (hl : ∀ q ∈ l.queued, (s.conns q.functor.conn).ptr.Alive) : Inv { s with loop := l } :=
  ⟨h.calls, hl⟩

theorem Inv.setClosing {s : System T C} (h : s.Inv) (cl : Closing C) :
    Inv { s with closing := cl } := ⟨h.calls, h.queued⟩

/-- A call moves on; a pointer that it holds from now on has been taken. -/
theorem Inv.setCall [DecidableEq T] {s : System T C} (h : s.Inv) {t : T} {call : Call C}
    (ht : ∀ c, call.target = some c → .caller t ∈ (s.conns c).ptr.owners) :
    Inv (s.setCall t call) := by
  refine ⟨fun t' c hc => ?_, h.queued⟩
  rcases eq_or_ne t' t with rfl | hne
  · exact ht c (by simpa [System.setCall] using hc)
  · exact h.calls t' c (by simpa [System.setCall, hne] using hc)

/-- A call on the same connection moves on. -/
theorem Inv.moveCall [DecidableEq T] {s : System T C} (h : s.Inv) {t : T} {c : C} {call : Call C}
    (hc : (s.calls t).target = some c) (hcall : call.target = some c) :
    Inv (s.setCall t call) := by
  refine h.setCall fun c' hc' => ?_
  obtain rfl : c = c' := Option.some.inj (hcall.symm.trans hc')
  exact h.calls t c hc

/-- A connection changes and keeps the owners that are in a call. -/
theorem Inv.setConn [DecidableEq C] {s : System T C} (h : s.Inv) {c : C} {conn : Conn T}
    (hcalls : ∀ t, .caller t ∈ (s.conns c).ptr.owners → .caller t ∈ conn.ptr.owners)
    (halive : (s.conns c).ptr.Alive → conn.ptr.Alive) : Inv (s.setConn c conn) := by
  constructor
  · intro t c' ht
    have hmem := h.calls t c' ht
    rcases eq_or_ne c' c with rfl | hne
    · simpa [System.setConn] using hcalls t hmem
    · simpa [System.setConn, hne] using hmem
  · intro q hq
    have hq' := h.queued q hq
    rcases eq_or_ne q.functor.conn c with he | hne
    · rw [he] at hq'
      simpa [System.setConn, he] using halive hq'
    · simpa [System.setConn, hne] using hq'

/-! ## Steps that take no owner -/

theorem newConnection_inv [DecidableEq C] {s : System T C} (h : s.Inv) {c : C}
    (hc : (s.conns c).ptr.created = false) : Inv (s.newConnection c) := by
  have hnone : (s.conns c).ptr.owners = [] := by
    by_contra hne
    exact absurd ((s.conns c).ptr.created_of_owned hne) (by simp [hc])
  exact h.setConn (by simp [hnone]) fun _ => Shared.alive_make _

theorem test_inv [DecidableEq T] {s s' : System T C} (h : s.Inv) {t : T} {op : Op} {c : C}
    (hc : s.calls t = .entered op c) (hs : s.test t = some s') : s'.Inv := by
  have htarget : (s.calls t).target = some c := by rw [hc]; rfl
  simp only [test, hc] at hs
  split at hs
  · cases op with
    | send m => cases hs; exact h.moveCall htarget rfl
    | shutdown => cases hs; exact h.moveCall htarget rfl
  · cases hs; exact h.moveCall htarget rfl

/-- The connection of the functor that is queued is owned by the thread that queues it. -/
theorem post_inv [DecidableEq T] {s s' : System T C} (h : s.Inv) {t : T} {op : Op} {c : C}
    (hc : s.calls t = .posting op c) (hs : s.post t = some s') : s'.Inv := by
  have htarget : (s.calls t).target = some c := by rw [hc]; rfl
  simp only [post, hc] at hs
  cases hs
  have hset : Inv { s with loop := s.loop.runInLoop t ⟨c, op⟩ } := by
    apply h.setLoop
    intro q hq
    rcases EventLoop.mem_queued_runInLoop hq with hq | hq
    · exact h.queued q hq
    · rw [hq]
      exact Shared.alive_of_mem (h.calls t c htarget)
  exact hset.moveCall htarget rfl

theorem wakeup_inv [DecidableEq T] {s s' : System T C} (h : s.Inv) {t : T} {c : C}
    (hc : s.calls t = .posted c) (hs : s.wakeup t = some s') : s'.Inv := by
  have htarget : (s.calls t).target = some c := by rw [hc]; rfl
  simp only [wakeup, hc] at hs
  cases hs
  have hset : Inv { s with loop := s.loop.wakeup t } := h.setLoop fun q hq => h.queued q hq
  exact hset.moveCall htarget rfl

variable [DecidableEq T] [DecidableEq C]

/-! ## Owners -/

/-- An owner goes. The other threads keep theirs, and so does every queued functor's connection
    when the last owner goes only without one. -/
theorem release_spec {s s' : System T C} (h : s.Inv) {c : C} {r : Owner T}
    (hs : s.release c r = some s')
    (hkeep : (s.conns c).ptr.owners.length ≤ 1 → ∀ q ∈ s.loop.queued, q.functor.conn ≠ c) :
    s'.loop = s.loop ∧ s'.calls = s.calls ∧
      (∀ t c', (s.calls t).target = some c' → .caller t ≠ r →
        .caller t ∈ (s'.conns c').ptr.owners) ∧
      ∀ q ∈ s.loop.queued, (s'.conns q.functor.conn).ptr.Alive := by
  simp only [System.release] at hs
  split at hs
  · exact absurd hs (by nofun)
  · cases hs
    refine ⟨rfl, rfl, fun t c' ht hne => ?_, fun q hq => ?_⟩
    · have hmem := h.calls t c' ht
      rcases eq_or_ne c' c with rfl | hc
      · simpa [System.setConn] using Shared.mem_release hmem hne
      · simpa [System.setConn, hc] using hmem
    · rcases eq_or_ne q.functor.conn c with he | hc
      · have hlen : 1 < (s.conns c).ptr.owners.length := by
          by_contra hlt
          exact hkeep (by omega) q hq he
        simpa [System.setConn, he] using Shared.alive_release hlen r
      · simpa [System.setConn, hc] using h.queued q hq

theorem Inv.release {s s' : System T C} (h : s.Inv) {c : C} {r : Owner T}
    (hs : s.release c r = some s') (hr : ∀ t, .caller t ≠ r)
    (hkeep : (s.conns c).ptr.owners.length ≤ 1 → ∀ q ∈ s.loop.queued, q.functor.conn ≠ c) :
    s'.Inv := by
  obtain ⟨hl, hcl, hcalls, hq⟩ := release_spec h hs hkeep
  refine ⟨fun t c' ht => ?_, by rwa [hl]⟩
  rw [hcl] at ht
  exact hcalls t c' ht (hr t)

/-- The caller's pointer is taken before the call begins. -/
theorem call_inv {s : System T C} (h : s.Inv) (t : T) (op : Op) (c : C) : Inv (s.call t op c) := by
  have hset : Inv (s.setConn c { s.conns c with ptr := (s.conns c).ptr.share (.caller t) }) :=
    h.setConn (fun t ht => Shared.mem_share ht _) fun _ => Shared.alive_share _ _
  refine hset.setCall fun c' hc' => ?_
  obtain rfl : c = c' := Option.some.inj hc'
  simpa [System.setConn] using Shared.mem_share_self _ _

theorem setState_inv {s s' : System T C} (h : s.Inv) {t : T} {c : C} (hc : s.calls t = .tested c)
    (hs : s.setState t = some s') : s'.Inv := by
  simp only [setState, hc] at hs
  cases hs
  have hset : Inv (s.setConn c { s.conns c with state := .kDisconnecting }) :=
    h.setConn (fun _ h => h) id
  refine hset.moveCall (c := c) ?_ rfl
  show (s.calls t).target = some c
  rw [hc]
  rfl

theorem leave_inv {s s' : System T C} (h : s.Inv) {t : T} {c : C} (hc : s.calls t = .leaving c)
    (hkeep : s.KeepsTargets (.leave t)) (hs : s.leave t = some s') : s'.Inv := by
  simp only [leave, hc] at hs
  obtain ⟨s₁, hs₁, rfl⟩ := Option.map_eq_some_iff.mp hs
  obtain ⟨hl, hcl, hcalls, hq⟩ := release_spec h hs₁ (hkeep c (by simp [released, hc]))
  constructor
  · intro t' c' ht'
    rcases eq_or_ne t' t with rfl | hne
    · exact absurd ht' (by simp [System.setCall, Call.target])
    · have ht' : (s₁.calls t').target = some c' := by simpa [System.setCall, hne] using ht'
      rw [hcl] at ht'
      exact hcalls t' c' ht' (by simpa using hne)
  · show ∀ q ∈ s₁.loop.queued, (s₁.conns q.functor.conn).ptr.Alive
    rwa [hl]

/-! ## Steps and runs -/

theorem step_inv {s s' : System T C} {e : Event T C} (h : s.Inv) (hen : s.Enabled e)
    (hkeep : s.KeepsTargets e) (hs : s.step e = some s') : s'.Inv := by
  cases e with
  | loop e =>
    obtain ⟨l, hl, rfl⟩ := Option.map_eq_some_iff.mp hs
    exact h.setLoop fun q hq => h.queued q (EventLoop.queued_subset hen.2.1 hl hq)
  | newConnection c =>
    cases hs
    exact newConnection_inv h hen.2
  | handleClose c =>
    simp only [step, handleClose] at hs
    split at hs
    · cases hs
      exact (h.setConn (fun t ht => Shared.mem_share ht _)
        fun _ => Shared.alive_share _ _).setClosing _
    · exact absurd hs (by nofun)
  | removeConnection =>
    obtain ⟨c, hc⟩ := hen
    simp only [step, removeConnection, hc] at hs
    obtain ⟨s₁, hs₁, rfl⟩ := Option.map_eq_some_iff.mp hs
    exact (h.release hs₁ (by nofun) (hkeep c (by simp [released, hc]))).setClosing _
  | closeReturn =>
    obtain ⟨c, hc⟩ := hen
    simp only [step, closeReturn, hc] at hs
    obtain ⟨s₁, hs₁, rfl⟩ := Option.map_eq_some_iff.mp hs
    exact (h.release hs₁ (by nofun) (hkeep c (by simp [released, hc]))).setClosing _
  | call t op c =>
    cases hs
    exact call_inv h t op c
  | test t =>
    obtain ⟨op, c, hc⟩ := hen
    exact test_inv h hc hs
  | setState t =>
    obtain ⟨c, hc⟩ := hen
    exact setState_inv h hc hs
  | post t =>
    obtain ⟨op, c, hc⟩ := hen
    exact post_inv h hc hs
  | wakeup t =>
    obtain ⟨c, hc⟩ := hen
    exact wakeup_inv h hc hs
  | leave t =>
    obtain ⟨c, hc⟩ := hen
    exact leave_inv h hc hkeep hs

omit [DecidableEq T] [DecidableEq C] in
theorem keepsTargets_of_none {s : System T C} {e : Event T C} (h : s.released e = none) :
    s.KeepsTargets e := by
  intro c hc
  exact absurd (h.symm.trans hc) (Option.some_ne_none c).symm

/-- **Functors run on live connections** in every run in which no step takes the last owner of a
    connection while a functor bound to it is in the queue, swapped out, or running. -/
theorem tasks_run_on_live_connections (t₀ : T) (es : List (Event T C)) (s : System T C)
    (h : Along step (fun s e => s.Enabled e ∧ s.KeepsTargets e) (init t₀) es)
    (hrun : run step (init t₀) es = some s) (q : Queued T (Task C)) (rest : List (Queued T (Task C)))
    (hpc : s.loop.pc = .functor q rest) : ¬ (s.conns q.functor.conn).ptr.Destroyed := by
  have hinv : s.Inv := run_invariant_along (fun s e s' hinv he hs => step_inv hinv he.1 he.2 hs)
    es (init t₀) s (init_inv t₀) h hrun
  exact (hinv.queued q (by simp [EventLoop.queued, hpc, LoopPc.unfinished])).not_destroyed

/-- Thread `1` sends on connection `7`, which is in `conn_map_` when the functor runs. -/
theorem tasks_run_on_live_connections_sample :
    ∃ s q, run step (init 0 : System ℕ ℕ) [.loop (.loop 0), .loop .test, .loop (.poll [.channel]),
        .loop .dispatch, .newConnection 7, .loop .handlerEnd, .call 1 (.send [104]) 7, .test 1,
        .post 1, .wakeup 1, .leave 1, .loop .dispatch, .loop .swap, .loop .runNext] = some s ∧
      s.loop.pc = .functor q [] ∧ ¬ (s.conns q.functor.conn).ptr.Destroyed := by
  have hen : Along step Enabled (init 0 : System ℕ ℕ)
      [.loop (.loop 0), .loop .test, .loop (.poll [.channel]), .loop .dispatch, .newConnection 7,
        .loop .handlerEnd, .call 1 (.send [104]) 7, .test 1, .post 1, .wakeup 1, .leave 1,
        .loop .dispatch, .loop .swap, .loop .runNext] :=
    along_step ⟨⟨rfl, rfl⟩, trivial, rfl⟩ rfl <| along_step ⟨rfl, trivial, rfl⟩ rfl <|
      along_step ⟨⟨rfl, by decide⟩, trivial, rfl⟩ rfl <| along_step ⟨⟨_, rfl⟩, trivial, rfl⟩ rfl <|
      along_step ⟨⟨⟨_, rfl⟩, rfl⟩, rfl⟩ rfl <| along_step ⟨⟨_, rfl⟩, trivial, rfl⟩ rfl <|
      along_step ⟨by decide, rfl, by decide⟩ rfl <| along_step ⟨_, _, rfl⟩ rfl <|
      along_step ⟨_, _, rfl⟩ rfl <| along_step ⟨_, rfl⟩ rfl <| along_step ⟨_, rfl⟩ rfl <|
      along_step ⟨⟨_, rfl⟩, trivial, rfl⟩ rfl <| along_step ⟨rfl, trivial, rfl⟩ rfl <|
      along_step ⟨⟨_, rfl⟩, trivial, rfl⟩ rfl trivial
  -- only the end of the call gives up an owner, and it is not the last
  have hkeep : Along step KeepsTargets (init 0 : System ℕ ℕ)
      [.loop (.loop 0), .loop .test, .loop (.poll [.channel]), .loop .dispatch, .newConnection 7,
        .loop .handlerEnd, .call 1 (.send [104]) 7, .test 1, .post 1, .wakeup 1, .leave 1,
        .loop .dispatch, .loop .swap, .loop .runNext] :=
    along_step (keepsTargets_of_none rfl) rfl <| along_step (keepsTargets_of_none rfl) rfl <|
      along_step (keepsTargets_of_none rfl) rfl <| along_step (keepsTargets_of_none rfl) rfl <|
      along_step (keepsTargets_of_none rfl) rfl <| along_step (keepsTargets_of_none rfl) rfl <|
      along_step (keepsTargets_of_none rfl) rfl <| along_step (keepsTargets_of_none rfl) rfl <|
      along_step (keepsTargets_of_none rfl) rfl <| along_step (keepsTargets_of_none rfl) rfl <|
      along_step (fun c hc hle => by cases hc; exact absurd hle (by decide)) rfl <|
      along_step (keepsTargets_of_none rfl) rfl <| along_step (keepsTargets_of_none rfl) rfl <|
      along_step (keepsTargets_of_none rfl) rfl trivial
  exact ⟨_, ⟨0, 1, 7, .send [104]⟩, rfl, rfl,
    tasks_run_on_live_connections 0 _ _ (hen.and hkeep) rfl _ _ rfl⟩

/-- End-of-file in the iteration that runs the functor: `7` is gone by then. -/
theorem task_runs_on_destroyed_connection :
    ¬ ∀ (es : List (Event ℕ ℕ)) (s : System ℕ ℕ), Along step Enabled (init 0) es →
      run step (init 0) es = some s → ∀ q rest, s.loop.pc = .functor q rest →
      ¬ (s.conns q.functor.conn).ptr.Destroyed := by
  intro hall
  have h : Along step Enabled (init 0 : System ℕ ℕ)
      [.loop (.loop 0), .loop .test, .loop (.poll [.channel]), .loop .dispatch, .newConnection 7,
        .loop .handlerEnd, .loop .dispatch, .loop .swap, .loop .runNext, .loop .test,
        .call 1 (.send [104]) 7, .test 1, .post 1, .wakeup 1, .leave 1,
        .loop (.poll [.channel, .wakeup]), .loop .dispatch, .handleClose 7, .removeConnection,
        .closeReturn, .loop .handlerEnd, .loop .dispatch, .loop .dispatch, .loop .swap,
        .loop .runNext] :=
    along_step ⟨⟨rfl, rfl⟩, trivial, rfl⟩ rfl <| along_step ⟨rfl, trivial, rfl⟩ rfl <|
      along_step ⟨⟨rfl, by decide⟩, trivial, rfl⟩ rfl <| along_step ⟨⟨_, rfl⟩, trivial, rfl⟩ rfl <|
      along_step ⟨⟨⟨_, rfl⟩, rfl⟩, rfl⟩ rfl <| along_step ⟨⟨_, rfl⟩, trivial, rfl⟩ rfl <|
      along_step ⟨⟨_, rfl⟩, trivial, rfl⟩ rfl <| along_step ⟨rfl, trivial, rfl⟩ rfl <|
      along_step ⟨⟨_, rfl⟩, trivial, rfl⟩ rfl <| along_step ⟨rfl, trivial, rfl⟩ rfl <|
      along_step ⟨by decide, rfl, by decide⟩ rfl <| along_step ⟨_, _, rfl⟩ rfl <|
      along_step ⟨_, _, rfl⟩ rfl <| along_step ⟨_, rfl⟩ rfl <| along_step ⟨_, rfl⟩ rfl <|
      along_step ⟨⟨rfl, by decide⟩, trivial, rfl⟩ rfl <| along_step ⟨⟨_, rfl⟩, trivial, rfl⟩ rfl <|
      along_step ⟨⟨⟨_, rfl⟩, rfl⟩, by decide⟩ rfl <| along_step ⟨_, rfl⟩ rfl <|
      along_step ⟨_, rfl⟩ rfl <| along_step ⟨⟨_, rfl⟩, trivial, rfl⟩ rfl <|
      along_step ⟨⟨_, rfl⟩, trivial, rfl⟩ rfl <| along_step ⟨⟨_, rfl⟩, trivial, rfl⟩ rfl <|
      along_step ⟨rfl, trivial, rfl⟩ rfl <| along_step ⟨⟨_, rfl⟩, trivial, rfl⟩ rfl trivial
  exact hall _ _ h rfl ⟨0, 1, 7, .send [104]⟩ [] rfl (by decide)

end System

end XWeb.Net
