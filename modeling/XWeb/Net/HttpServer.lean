import XWeb.Net.EventLoopThread
import Mathlib.Data.Int.CardIntervalMod

/-!
# `ThreadPool` and `HttpServer`

Model of `net/thread_pool.cpp` and of `start` and `handNewConn` of `net/http_server.cpp`, over the
threads of `EventLoopThread`. `start` makes the threads one after the other and waits for each
loop; the accept channel is registered behind that. `handNewConn` gives the connection to the next
loop, where `HttpData::newRequest` registers it: at once if that is the loop of the calling
thread, through the queue otherwise. The number of threads is below `2^31`, so the `int` of the
loop in `start` does not matter. `accept` need not succeed.

The main thread uses the loops of the others only in `handNewConn`. Other threads may call their
functions at any time.

* `ThreadPool.getNextLoop`, `HttpServer.step`: the member functions, cut where another thread can
  come in.
* `Inv`, `step_spec`: what holds between any two steps.
* `connections_shared_out`: where the connections are, in every interleaving.
-/

namespace XWeb.Net

open XWeb.Lib

variable {F : Type}

/-! ## `ThreadPool` -/

/-- The members of `ThreadPool`: the size of `threads_`, and `loops_` with the number of the thread
    of each loop; `none` is null. -/
structure ThreadPool where
  maxn : ℕ
  next : ℕ
  created : ℕ
  loops : List (Option ℕ)
  deriving DecidableEq

/-- What `getNextLoop` returns: `mainloop_`, or the loop of a thread. -/
inductive NextLoop
  | mainloop
  | worker (i : ℕ)
  deriving DecidableEq

namespace ThreadPool

def construct (maxn : ℕ) : ThreadPool := ⟨maxn, 0, 0, []⟩

/-- `getNextLoop` (lines 28–36); `none` if the index is out of range or the loop is null. -/
def getNextLoop (p : ThreadPool) : Option (NextLoop × ThreadPool) :=
  if p.loops.isEmpty then some (.mainloop, p)
  else do
    let loop ← p.loops[p.next]?
    let i ← loop
    return (.worker i, { p with next := (p.next + 1) % p.maxn })

end ThreadPool

/-! ## `HttpServer` -/

/-- The thread of `loop_`, the threads of the pool, and others. -/
inductive ServerThread
  | main
  | worker (i : ℕ)
  | other (u : ℕ)
  deriving DecidableEq

/-- What is queued in a loop: the `updateChannel` of the connection number `k`, or something
    else. -/
inductive Job (F : Type)
  | register (k : ℕ)
  | other (f : F)
  deriving DecidableEq

def Job.connection : Job F → Option ℕ
  | .register k => some k
  | .other _ => none

/-- Where the main thread is. -/
inductive MainPc
  /-- in other code -/
  | ready
  /-- in `startLoop` of the newest thread; behind it there are `left` more to make -/
  | starting (left : ℕ)
  /-- in `queueInLoop` of the loop of thread `i`, before `wakeup` -/
  | waking (i : ℕ)
  deriving DecidableEq

/-- The members of `HttpServer`; the place of the main thread; the number of calls of
    `handNewConn`, and the connections that have been registered at once. -/
structure HttpServer (F : Type) where
  pool : ThreadPool
  threads : ℕ → EventLoopThread ServerThread (Job F)
  started : Bool
  main : MainPc
  connections : ℕ
  direct : List ℕ

/-- A call of `start`, a step of `startLoop` in it, a call of `handNewConn` up to `wakeup`, its
    `wakeup`; and a step of another thread. -/
inductive HttpServerEvent (F : Type)
  | start
  | startLoop
  | handNewConn
  | wakeup
  | thread (i : ℕ) (e : LoopThreadEvent ServerThread (Job F))

/-- The connections that these functors register. -/
def registers (queue : List (Queued ServerThread (Job F))) : List ℕ :=
  queue.filterMap fun q => q.functor.connection

@[simp] theorem registers_append (queue queue' : List (Queued ServerThread (Job F))) :
    registers (queue ++ queue') = registers queue ++ registers queue' := List.filterMap_append

/-- The connections that have been given to a loop, in order. -/
def registrations (l : EventLoop ServerThread (Job F)) : List ℕ := registers l.pushed

namespace HttpServer

/-- The constructor (lines 31–42), when `open_listenfd` succeeds. -/
def construct (threadNum : ℕ) : HttpServer F :=
  { pool := ThreadPool.construct threadNum
    threads := fun _ => EventLoopThread.construct
    started := false
    main := .ready
    connections := 0
    direct := [] }

def setThread (s : HttpServer F) (i : ℕ) (t : EventLoopThread ServerThread (Job F)) :
    HttpServer F :=
  { s with threads := Function.update s.threads i t }

/-- The loop of `ThreadPool::start` (lines 20–25) with `left` rounds to go, up to the call of
    `startLoop`, or its end and the rest of `HttpServer::start`. -/
def rounds (s : HttpServer F) : ℕ → Option (HttpServer F)
  | 0 => some { s with started := true, main := .ready }
  | left + 1 => do
    let i := s.pool.created
    let t ← (s.threads i).step (.worker i) .start
    return { s.setThread i t with
      pool := { s.pool with created := i + 1 }
      main := .starting left }

/-- A step in `startLoop` of the newest thread, and `push_back` when it returns. -/
def startLoop (s : HttpServer F) (left : ℕ) : Option (HttpServer F) := do
  let i := s.pool.created - 1
  let t ← (s.threads i).step (.worker i) .starter
  let s := s.setThread i t
  match t.starter with
  | .returned found =>
    let loop := if found then some i else none
    { s with pool := { s.pool with loops := s.pool.loops ++ [loop] } }.rounds left
  | _ => some s

/-- `handNewConn` (lines 52–64) and `newRequest` (`net/http_data.cpp` lines 108–111), up to the
    call of `wakeup`. -/
def handNewConn (s : HttpServer F) : Option (HttpServer F) := do
  let (loop, pool) ← s.pool.getNextLoop
  let k := s.connections
  let s := { s with pool := pool, connections := k + 1 }
  match loop with
  | .mainloop => some { s with direct := s.direct ++ [k] }
  | .worker i => do
    let t ← (s.threads i).step (.worker i) (.loop (.runInLoop .main (.register k)))
    return { s.setThread i t with main := .waking i }

def step (s : HttpServer F) : HttpServerEvent F → Option (HttpServer F)
  | .start => s.rounds s.pool.maxn
  | .startLoop => match s.main with
    | .starting left => s.startLoop left
    | _ => none
  | .handNewConn => s.handNewConn
  | .wakeup => match s.main with
    | .waking i => do
      let t ← (s.threads i).step (.worker i) (.loop (.wakeup .main))
      return { s.setThread i t with main := .ready }
    | _ => none
  | .thread i e => do
    let t ← (s.threads i).step (.worker i) e
    return s.setThread i t

/-- The step is not one of the main thread, and gives no connection to a loop. -/
def Theirs : LoopThreadEvent ServerThread (Job F) → Prop
  | .start | .starter => False
  | .runner | .wake => True
  | .loop (.runInLoop t job) => t ≠ .main ∧ job.connection = none
  | .loop (.wakeup t) | .loop (.quit t) => t ≠ .main
  | .loop _ => True

/-- Who makes the step is where it begins. -/
def Enabled (s : HttpServer F) : HttpServerEvent F → Prop
  | .start => s.main = .ready
  | .startLoop => (∃ left, s.main = .starting left) ∧
    (s.threads (s.pool.created - 1)).Enabled .starter
  | .handNewConn => s.main = .ready ∧ s.started = true
  | .wakeup => ∃ i, s.main = .waking i
  | .thread i e => Theirs e ∧ (s.threads i).Enabled e

/-! ## What the other threads leave alone -/

/-- `l'` has the connections of `l`, and the main thread is where it was. -/
structure Alike (l l' : EventLoop ServerThread (Job F)) : Prop where
  registrations_eq : registrations l' = registrations l
  main_eq : l'.callers .main = l.callers .main

theorem loop_alike {l l' : EventLoop ServerThread (Job F)}
    {e : EventLoop.Event ServerThread (Job F)} (htheirs : Theirs (.loop e))
    (hs : l.step e = some l') : Alike l l' := by
  cases EventLoop.moves_of_step hs with
  | queue job ht =>
    obtain ⟨hmain, hjob⟩ := htheirs
    refine ⟨?_, Function.update_of_ne hmain.symm ..⟩
    simp [registrations, registers, EventLoop.queueInLoop, hjob]
  | wakeup t => exact ⟨rfl, Function.update_of_ne (Ne.symm htheirs) ..⟩
  | quit t => exact ⟨rfl, Function.update_of_ne (Ne.symm htheirs) ..⟩
  | _ => exact ⟨rfl, rfl⟩

/-- `t'` is where `t` was as far as the main thread can tell; its loop may be new. -/
structure ThreadAlike (t t' : EventLoopThread ServerThread (Job F)) : Prop where
  returned : ∀ found, t.starter = .returned found → t'.starter = .returned found
  kept : t.eventLoop ≠ none → t'.eventLoop ≠ none
  loop : ∀ l', t'.eventLoop = some l' → (∃ l, t.eventLoop = some l ∧ Alike l l') ∨
    t.eventLoop = none ∧ registrations l' = [] ∧ l'.callers .main = .idle

theorem ThreadAlike.of_eventLoop {t t' : EventLoopThread ServerThread (Job F)}
    (hst : ∀ found, t.starter = .returned found → t'.starter = .returned found)
    (hl : t'.eventLoop = t.eventLoop) : ThreadAlike t t' :=
  ⟨hst, fun h => hl ▸ h, fun l' hl' => Or.inl ⟨l', hl ▸ hl', rfl, rfl⟩⟩

theorem thread_alike {i : ℕ} {t t' : EventLoopThread ServerThread (Job F)}
    {e : LoopThreadEvent ServerThread (Job F)} (h : t.Places) (htheirs : Theirs e)
    (hen : t.Enabled e) (hs : t.step (.worker i) e = some t') : ThreadAlike t t' := by
  cases e with
  | start => exact absurd htheirs id
  | starter => exact absurd htheirs id
  | wake =>
    have hasleep : t.starter = .asleep := hen
    obtain rfl := Option.some.inj hs
    exact .of_eventLoop (fun found hst => by rw [hasleep] at hst; cases hst) rfl
  | loop e =>
    obtain ⟨l, hl, hs⟩ := Option.bind_eq_some_iff.mp hs
    obtain ⟨l', hl', hs⟩ := Option.bind_eq_some_iff.mp hs
    obtain rfl := Option.some.inj hs
    refine ⟨fun _ hst => hst, fun _ => by simp, fun m hm => Or.inl ⟨l, hl, ?_⟩⟩
    obtain rfl := Option.some.inj hm
    exact loop_alike htheirs hl'
  | runner =>
    simp only [EventLoopThread.step, EventLoopThread.runStep] at hs
    split at hs
    · split_ifs at hs
      obtain rfl := Option.some.inj hs
      exact .of_eventLoop (fun _ hst => hst) rfl
    · next hpc =>
      obtain rfl := Option.some.inj hs
      refine ⟨fun _ hst => hst, fun _ => by simp, fun m hm => Or.inr ?_⟩
      obtain rfl := Option.some.inj hm
      have hmade := h.made
      rw [hpc] at hmade
      have hnone : t.eventLoop = none := by
        cases hl : t.eventLoop with
        | none => rfl
        | some l =>
          rw [hl] at hmade
          cases hmade
      exact ⟨hnone, rfl, rfl⟩
    · obtain rfl := Option.some.inj hs
      unfold EventLoopThread.notify
      split
      · next hasleep =>
        exact .of_eventLoop (fun found hst => by rw [hasleep] at hst; cases hst) rfl
      · exact .of_eventLoop (fun _ hst => hst) rfl
    · obtain rfl := Option.some.inj hs
      exact .of_eventLoop (fun _ hst => hst) rfl
    · obtain ⟨l, hl, hs⟩ := Option.bind_eq_some_iff.mp hs
      obtain ⟨l', hl', hs⟩ := Option.bind_eq_some_iff.mp hs
      obtain rfl := Option.some.inj hs
      refine ⟨fun _ hst => hst, fun _ => by simp, fun m hm => Or.inl ⟨l, hl, ?_⟩⟩
      obtain rfl := Option.some.inj hm
      exact loop_alike (e := .loop (.worker i)) trivial hl'
    · obtain ⟨l, hl, hs⟩ := Option.bind_eq_some_iff.mp hs
      split at hs
      · obtain rfl := Option.some.inj hs
        exact .of_eventLoop (fun _ hst => hst) rfl
      · cases hs
    · cases hs

/-! ## The invariant -/

/-- The connections that thread `i` is to have. -/
def share (n connections i : ℕ) : List ℕ := (List.range connections).filter fun k => k % n = i

/-- What holds of thread `i`. -/
structure Serving (n : ℕ) (s : HttpServer F) (i : ℕ)
    (t : EventLoopThread ServerThread (Job F)) : Prop where
  inv : t.Inv (.worker i)
  fresh : s.pool.created ≤ i → t = EventLoopThread.construct
  ready : i < s.pool.loops.length → t.starter = .returned true
  shared : ∀ l, t.eventLoop = some l → registrations l = share n s.connections i
  waking : ∀ l, t.eventLoop = some l → (l.callers .main = .idle ↔ s.main ≠ .waking i)
  woken : s.main = .waking i → t.eventLoop ≠ none

/-- The part of the invariant that does not say where `start` is. -/
structure Core (n : ℕ) (s : HttpServer F) : Prop where
  maxn : s.pool.maxn = n
  loops : s.pool.loops = (List.range s.pool.loops.length).map some
  empty : n = 0 → s.pool.loops = []
  next : s.pool.next = if n = 0 then 0 else s.connections % n
  direct : s.direct = if n = 0 then List.range s.connections else []
  enough : s.started = true → n ≤ s.pool.loops.length
  early : s.started = false → s.connections = 0
  threads : ∀ i, s.Serving n i (s.threads i)

/-- The invariant of all steps, for a pool of `n` threads. -/
structure Inv (n : ℕ) (s : HttpServer F) : Prop extends Core n s where
  starting : ∀ left, s.main = .starting left → n ≠ 0 ∧
    s.pool.created = s.pool.loops.length + 1 ∧ n ≤ s.pool.created + left
  ready : (∀ left, s.main ≠ .starting left) → s.pool.created = s.pool.loops.length

theorem construct_inv (n : ℕ) : Inv n (construct n : HttpServer F) where
  maxn := rfl
  loops := rfl
  empty := fun _ => rfl
  next := by simp [construct, ThreadPool.construct]
  direct := by simp [construct]
  enough := nofun
  early := fun _ => rfl
  threads := fun i => ⟨EventLoopThread.construct_inv _, fun _ => rfl, nofun, nofun, nofun, nofun⟩
  starting := nofun
  ready := fun _ => rfl

variable {n : ℕ} {s s' : HttpServer F}

/-- A thread whose loop is not there yet has no connections to come. -/
theorem Core.share_eq_nil (h : Core n s) {i : ℕ} (hnone : (s.threads i).eventLoop = none)
    (hn : n ≠ 0) : share n s.connections i = [] := by
  have hi : ¬ i < s.pool.loops.length := by
    intro hlt
    obtain ⟨-, l, hl⟩ := (h.threads i).inv.exists_loop ((h.threads i).ready hlt)
    rw [hnone] at hl
    cases hl
  cases hstarted : s.started with
  | false => rw [h.early hstarted]; rfl
  | true =>
    have hle := h.enough hstarted
    refine List.filter_eq_nil_iff.mpr fun k _ => ?_
    have hlt := Nat.mod_lt k (Nat.pos_of_ne_zero hn)
    simp only [decide_eq_true_eq]
    omega

/-- Another thread has made a step. -/
theorem Serving.alike {i : ℕ} {t t' : EventLoopThread ServerThread (Job F)}
    (h : s.Serving n i t) (hinv : t'.Inv (.worker i)) (halike : ThreadAlike t t')
    (hcreated : i < s.pool.created) (hshare : t.eventLoop = none → share n s.connections i = []) :
    s.Serving n i t' where
  inv := hinv
  fresh := fun hle => absurd hcreated (Nat.not_lt.mpr hle)
  ready := fun hlt => halike.returned true (h.ready hlt)
  shared := by
    intro l' hl'
    rcases halike.loop l' hl' with ⟨l, hl, hsame⟩ | ⟨hnone, hnil, -⟩
    · exact hsame.registrations_eq.trans (h.shared l hl)
    · rw [hnil, hshare hnone]
  waking := by
    intro l' hl'
    rcases halike.loop l' hl' with ⟨l, hl, hsame⟩ | ⟨hnone, -, hidle⟩
    · rw [hsame.main_eq]
      exact h.waking l hl
    · exact iff_of_true hidle fun hmain => h.woken hmain hnone
  woken := fun hmain => halike.kept (h.woken hmain)

/-- The other threads when one of them, and numbers that do not concern them, have changed. -/
theorem Serving.congr {i : ℕ} {t : EventLoopThread ServerThread (Job F)} (h : s.Serving n i t)
    (hcreated : s'.pool.created ≤ i → s.pool.created ≤ i)
    (hloops : i < s'.pool.loops.length → i < s.pool.loops.length)
    (hshare : share n s'.connections i = share n s.connections i)
    (hmain : s'.main = .waking i ↔ s.main = .waking i) : s'.Serving n i t where
  inv := h.inv
  fresh := fun hle => h.fresh (hcreated hle)
  ready := fun hlt => h.ready (hloops hlt)
  shared := fun l hl => (h.shared l hl).trans hshare.symm
  waking := fun l hl => (h.waking l hl).trans (not_congr hmain.symm)
  woken := fun hw => h.woken (hmain.mp hw)

/-- A thread that has not been made does nothing. -/
theorem Core.created_of_enabled (h : Core n s) {i : ℕ}
    {e : LoopThreadEvent ServerThread (Job F)} (htheirs : Theirs e)
    (hen : (s.threads i).Enabled e) : i < s.pool.created := by
  by_contra hle
  rw [(h.threads i).fresh (Nat.le_of_not_lt hle)] at hen
  cases e with
  | start => exact htheirs
  | starter => exact htheirs
  | wake => cases hen
  | runner => simp [EventLoopThread.Enabled, EventLoopThread.construct, RunPc.holds] at hen
  | loop e =>
    obtain ⟨-, l, hl, -⟩ := hen
    cases hl

theorem Inv.ne_zero (h : Inv n s) {i : ℕ} (hcreated : i < s.pool.created) : n ≠ 0 := by
  intro hn
  have hnot : ∀ left, s.main ≠ .starting left := fun left hmain => (h.starting left hmain).1 hn
  rw [h.ready hnot, h.empty hn] at hcreated
  exact Nat.not_lt_zero i hcreated

theorem setThread_threads_self (s : HttpServer F) (i : ℕ)
    (t : EventLoopThread ServerThread (Job F)) : (s.setThread i t).threads i = t :=
  Function.update_self ..

theorem setThread_threads_ne (s : HttpServer F) {i j : ℕ} (h : j ≠ i)
    (t : EventLoopThread ServerThread (Job F)) : (s.setThread i t).threads j = s.threads j :=
  Function.update_of_ne h ..

theorem Core.setThread (h : Core n s) {i : ℕ} {t : EventLoopThread ServerThread (Job F)}
    (ht : s.Serving n i t) : Core n (s.setThread i t) := by
  refine ⟨h.maxn, h.loops, h.empty, h.next, h.direct, h.enough, h.early, fun j => ?_⟩
  rcases eq_or_ne j i with rfl | hne
  · rw [setThread_threads_self]
    exact ht.congr id id rfl Iff.rfl
  · rw [setThread_threads_ne s hne]
    exact (h.threads j).congr id id rfl Iff.rfl

/-- A step of another thread. -/
theorem thread_spec (h : Inv n s) {i : ℕ} {e : LoopThreadEvent ServerThread (Job F)}
    (hen : s.Enabled (.thread i e)) : ∃ s', s.step (.thread i e) = some s' ∧ Inv n s' := by
  obtain ⟨htheirs, hen⟩ := hen
  have hserving := h.threads i
  have hcreated := h.created_of_enabled htheirs hen
  obtain ⟨t, ht, hinv⟩ := EventLoopThread.step_spec hserving.inv hen
  have halike := thread_alike hserving.inv.toPlaces htheirs hen ht
  have hserving' := hserving.alike hinv halike hcreated fun hnone =>
    h.share_eq_nil hnone (h.ne_zero hcreated)
  exact ⟨s.setThread i t, by simp [step, ht], h.setThread hserving', h.starting, h.ready⟩

/-- The next thread is made, or `start` ends. -/
theorem rounds_spec (h : Core n s) (hcreated : s.pool.created = s.pool.loops.length) {left : ℕ}
    (hleft : n ≤ s.pool.loops.length + left) (hn : n = 0 → left = 0)
    (hmain : ∀ i, s.main ≠ .waking i) : ∃ s', s.rounds left = some s' ∧ Inv n s' := by
  cases left with
  | zero =>
    refine ⟨_, rfl, ⟨⟨h.maxn, h.loops, h.empty, h.next, h.direct, fun _ => hleft, nofun, fun i => ?_⟩,
      nofun, fun _ => hcreated⟩⟩
    exact (h.threads i).congr id id rfl (iff_of_false nofun (hmain i))
  | succ left =>
    have hpos : n ≠ 0 := fun hzero => absurd (hn hzero) (Nat.succ_ne_zero left)
    have hfresh := (h.threads s.pool.created).fresh (Nat.le_refl _)
    have hidle : (s.threads s.pool.created).Enabled .start := by
      rw [hfresh]
      rfl
    obtain ⟨t, ht, hinv⟩ := EventLoopThread.step_spec (h.threads s.pool.created).inv hidle
    have hnone : ∀ l, t.eventLoop ≠ some l := by
      intro l hl
      rw [hfresh] at ht
      obtain rfl := Option.some.inj ht
      cases hl
    refine ⟨{ s.setThread s.pool.created t with
        pool := { s.pool with created := s.pool.created + 1 }, main := .starting left },
      by simp [rounds, ht], ⟨⟨h.maxn, h.loops, h.empty, h.next, h.direct, h.enough, h.early,
        fun i => ?_⟩, fun m hm => ?_, fun hnot => absurd rfl (hnot left)⟩⟩
    · show Serving n _ i ((s.setThread s.pool.created t).threads i)
      rcases eq_or_ne i s.pool.created with rfl | hne
      · rw [setThread_threads_self]
        exact ⟨hinv, fun hle => absurd hle (Nat.not_succ_le_self _),
          fun hlt => absurd hlt (by rw [hcreated]; exact Nat.lt_irrefl _),
          fun l hl => absurd hl (hnone l), fun l hl => absurd hl (hnone l), nofun⟩
      · rw [setThread_threads_ne s hne]
        exact (h.threads i).congr (fun hle => Nat.le_of_succ_le hle) id rfl
          (iff_of_false nofun (hmain i))
    · obtain rfl := MainPc.starting.inj hm
      refine ⟨hpos, congrArg (· + 1) hcreated, ?_⟩
      show n ≤ s.pool.created + 1 + left
      omega

/-- `push_back` of the loop that `startLoop` has returned. -/
theorem Core.push (h : Core n s) (hn : n ≠ 0)
    (hst : (s.threads s.pool.loops.length).starter = .returned true) :
    Core n { s with pool := { s.pool with
      loops := s.pool.loops ++ [some s.pool.loops.length] } } := by
  refine ⟨h.maxn, ?_, fun hzero => absurd hzero hn, h.next, h.direct, fun hstarted => ?_, h.early,
    fun i => ?_⟩
  · simp only [List.length_append, List.length_singleton, List.range_succ, List.map_append,
      List.map_singleton]
    rw [← h.loops]
  · rw [List.length_append]
    exact Nat.le_add_right_of_le (h.enough hstarted)
  · have hserving := h.threads i
    refine ⟨hserving.inv, hserving.fresh, fun hlt => ?_, hserving.shared, hserving.waking,
      hserving.woken⟩
    rw [List.length_append, List.length_singleton] at hlt
    rcases Nat.lt_succ_iff_lt_or_eq.mp hlt with hlt | rfl
    · exact hserving.ready hlt
    · exact hst

/-- A step of `startLoop`; when it returns, its loop is the next one of the pool. -/
theorem startLoop_spec (h : Inv n s) (hen : s.Enabled .startLoop) :
    ∃ s', s.step .startLoop = some s' ∧ Inv n s' := by
  obtain ⟨⟨left, hmain⟩, hen⟩ := hen
  obtain ⟨hpos, hcreated, hleft⟩ := h.starting left hmain
  have hnew : s.pool.created - 1 = s.pool.loops.length := by omega
  rw [hnew] at hen
  have hserving := h.threads s.pool.loops.length
  obtain ⟨t, ht, -, -, hloop, -⟩ := EventLoopThread.startStep_spec hserving.inv.toPlaces hen
  obtain ⟨t', ht', hinv⟩ := EventLoopThread.step_spec hserving.inv hen
  obtain rfl : t = t' := Option.some.inj (ht.symm.trans ht')
  have hserving' : s.Serving n s.pool.loops.length t :=
    ⟨hinv, fun hle => absurd hle (by omega), fun hlt => absurd hlt (Nat.lt_irrefl _),
      fun l hl => hserving.shared l (hloop ▸ hl), fun l hl => hserving.waking l (hloop ▸ hl),
      fun hmain => hloop ▸ hserving.woken hmain⟩
  have hcore := h.setThread hserving'
  have hstep : s.step .startLoop = s.startLoop left := by rw [step, hmain]
  simp only [hstep, startLoop, hnew, ht', Option.bind_eq_bind, Option.bind_some]
  split
  · next found hst =>
    have htogether := hinv.together
    rw [hst] at htogether
    obtain rfl : found = true := htogether.1
    rw [if_pos rfl]
    refine rounds_spec (hcore.push hpos ?_) ?_ ?_ (fun hzero => absurd hzero hpos) ?_
    · exact (congrArg _ (setThread_threads_self ..)).trans hst
    · show s.pool.created = (s.pool.loops ++ [some s.pool.loops.length]).length
      rw [List.length_append]
      exact hcreated
    · show n ≤ (s.pool.loops ++ [some s.pool.loops.length]).length + left
      rw [List.length_append, List.length_singleton]
      omega
    · intro i hi
      have hwaking : s.main = .waking i := hi
      rw [hmain] at hwaking
      cases hwaking
  · exact ⟨_, rfl, hcore, h.starting, h.ready⟩

theorem share_succ (n k i : ℕ) :
    share n (k + 1) i = share n k i ++ if k % n = i then [k] else [] := by
  rw [share, List.range_succ, List.filter_append]
  split
  · next hk => simp [share, hk]
  · next hk => simp [share, hk]

/-- Without threads the connection is registered at once. -/
theorem handNewConn_direct (h : Inv n s) (hmain : s.main = .ready) (hstarted : s.started = true)
    (hn : n = 0) :
    ∃ s', s.handNewConn = some s' ∧ Inv n s' := by
  have hempty := h.empty hn
  have hnot : ∀ left, s.main ≠ .starting left := by
    intro left hstarting
    rw [hmain] at hstarting
    cases hstarting
  have hnone : ∀ i, s.threads i = EventLoopThread.construct := by
    intro i
    refine (h.threads i).fresh ?_
    rw [h.ready hnot, hempty]
    exact Nat.zero_le i
  refine ⟨{ s with connections := s.connections + 1, direct := s.direct ++ [s.connections] },
    by simp [handNewConn, ThreadPool.getNextLoop, hempty], ⟨⟨h.maxn, h.loops, h.empty, ?_, ?_,
      h.enough, fun hnever => ?_, fun i => ?_⟩, h.starting, h.ready⟩⟩
  · rw [if_pos hn, h.next, if_pos hn]
  · rw [h.direct, if_pos hn, if_pos hn, List.range_succ]
  · exact absurd (hstarted.symm.trans hnever) (by decide)
  · have hserving := h.threads i
    refine ⟨hserving.inv, hserving.fresh, hserving.ready, fun l hl => ?_, hserving.waking,
      hserving.woken⟩
    rw [hnone i] at hl
    cases hl

/-- The index of `getNextLoop` is in range, and the loop there is not null. -/
theorem Core.getNextLoop (h : Core n s) (hstarted : s.started = true) (hn : n ≠ 0) {i : ℕ}
    (hi : i = s.connections % n) : i < s.pool.loops.length ∧
      s.pool.getNextLoop = some (.worker i, { s.pool with next := (i + 1) % n }) := by
  have hlt : i < s.pool.loops.length := by
    rw [hi]
    exact Nat.lt_of_lt_of_le (Nat.mod_lt _ (Nat.pos_of_ne_zero hn)) (h.enough hstarted)
  have hnext : s.pool.next = i := by rw [h.next, if_neg hn, hi]
  have hnil : s.pool.loops.isEmpty = false := by
    cases hloops : s.pool.loops with
    | nil =>
      rw [hloops] at hlt
      cases hlt
    | cons x xs => rfl
  have hget : s.pool.loops[i]? = some (some i) := by
    rw [h.loops, List.getElem?_map, List.getElem?_range hlt]
    rfl
  exact ⟨hlt, by simp [ThreadPool.getNextLoop, hnil, hnext, hget, h.maxn]⟩

/-- The main thread gives the next connection to a loop that `startLoop` has returned. -/
theorem Serving.give {i : ℕ} {t : EventLoopThread ServerThread (Job F)} (h : s.Serving n i t)
    (hst : t.starter = .returned true) (hmain : s.main = .ready) (hi : s.connections % n = i)
    (hmain' : s'.main = .waking i) (hcount : s'.connections = s.connections + 1)
    (hcreated : i < s'.pool.created) :
    ∃ t', t.step (.worker i) (.loop (.runInLoop .main (.register s.connections))) = some t' ∧
      s'.Serving n i t' := by
  obtain ⟨-, l, hl⟩ := h.inv.exists_loop hst
  have hidle : l.callers .main = .idle := by
    refine (h.waking l hl).mpr fun hwaking => ?_
    rw [hmain] at hwaking
    cases hwaking
  have hthread : ServerThread.main ≠ l.threadId := by
    rw [(h.inv.loop l hl).inv.threadId]
    exact ServerThread.noConfusion
  have hen : t.Enabled (.loop (.runInLoop .main (.register s.connections))) := by
    refine ⟨hst, l, hl, ?_⟩
    show l.Free .main
    rw [EventLoop.Free, if_neg hthread]
    exact hidle
  obtain ⟨m, l', hm, -, hl', hs, hinv⟩ := EventLoopThread.loopStep_spec h.inv hen
  obtain rfl := Option.some.inj (hm.symm.trans hl)
  obtain rfl := Option.some.inj hl'
  have hqueued : m.runInLoop .main (.register s.connections) =
      m.queueInLoop .main (.register s.connections) := by
    rw [EventLoop.runInLoop, if_neg hthread]
  rw [hqueued] at hs hinv
  refine ⟨_, hs, hinv, fun hle => absurd hcreated (Nat.not_lt.mpr hle), fun _ => hst,
    fun l' hl' => ?_, fun l' hl' => ?_, fun _ => Option.some_ne_none _⟩
  · obtain rfl := Option.some.inj hl'
    rw [hcount, share_succ, if_pos hi, ← h.shared m hm]
    simp [registrations, registers, EventLoop.queueInLoop, Job.connection]
  · obtain rfl := Option.some.inj hl'
    refine iff_of_false (fun hidle => ?_) fun hne => hne hmain'
    simp only [EventLoop.queueInLoop, Function.update_self] at hidle
    rw [if_pos (Or.inl hthread)] at hidle
    cases hidle

/-- A connection is given to the next loop. -/
theorem handNewConn_spec (h : Inv n s) (hen : s.Enabled .handNewConn) :
    ∃ s', s.step .handNewConn = some s' ∧ Inv n s' := by
  obtain ⟨hmain, hstarted⟩ := hen
  rcases eq_or_ne n 0 with hn | hn
  · exact handNewConn_direct h hmain hstarted hn
  obtain ⟨i, hi⟩ : ∃ i, s.connections % n = i := ⟨_, rfl⟩
  obtain ⟨hlt, hloop⟩ := h.getNextLoop hstarted hn hi.symm
  have hserving := h.threads i
  have hcreated := h.ready fun left hstarting => by rw [hmain] at hstarting; cases hstarting
  obtain ⟨t, ht, hgiven⟩ : ∃ t, (s.threads i).step (.worker i)
        (.loop (.runInLoop .main (.register s.connections))) = some t ∧
      Serving n { s with connections := s.connections + 1, main := .waking i } i t :=
    hserving.give (hserving.ready hlt) hmain hi rfl rfl (hcreated ▸ hlt)
  refine ⟨{ s.setThread i t with
      pool := { s.pool with next := (i + 1) % n }, connections := s.connections + 1
      main := .waking i },
    by simp only [step, handNewConn, hloop, ht, Option.bind_eq_bind, Option.bind_some]; rfl,
    ⟨⟨h.maxn, h.loops, h.empty, ?_, ?_, h.enough, fun hnever => ?_, fun j => ?_⟩, nofun,
      fun _ => hcreated⟩⟩
  · rw [if_neg hn, ← hi, Nat.mod_add_mod]
  · rw [if_neg hn]
    exact h.direct.trans (if_neg hn)
  · exact absurd (hstarted.symm.trans hnever) (by decide)
  · show Serving n _ j ((s.setThread i t).threads j)
    rcases eq_or_ne j i with rfl | hne
    · rw [setThread_threads_self]
      exact hgiven.congr id id rfl Iff.rfl
    · rw [setThread_threads_ne s hne]
      refine (h.threads j).congr id id ?_ (iff_of_false (fun hwaking => ?_) fun hwaking => ?_)
      · show share n (s.connections + 1) j = _
        rw [share_succ, hi, if_neg hne.symm, List.append_nil]
      · exact hne (MainPc.waking.inj hwaking).symm
      · rw [hmain] at hwaking
        cases hwaking

theorem wakeup_spec (h : Inv n s) (hen : s.Enabled .wakeup) :
    ∃ s', s.step .wakeup = some s' ∧ Inv n s' := by
  obtain ⟨i, hmain⟩ := hen
  have hserving := h.threads i
  obtain ⟨l, hl⟩ := Option.ne_none_iff_exists'.mp (hserving.woken hmain)
  have hbusy : l.callers .main ≠ .idle := fun hidle => (hserving.waking l hl).mp hidle hmain
  have hen : (s.threads i).Enabled (.loop (.wakeup .main)) := ⟨trivial, l, hl, hbusy⟩
  obtain ⟨m, l', hm, -, hl', hs, hinv⟩ := EventLoopThread.loopStep_spec hserving.inv hen
  obtain rfl := Option.some.inj (hm.symm.trans hl)
  obtain rfl := Option.some.inj hl'
  refine ⟨{ s.setThread i _ with main := .ready }, by simp only [step, hmain, hs]; rfl,
    ⟨⟨h.maxn, h.loops, h.empty, h.next, h.direct, h.enough, h.early, fun j => ?_⟩, nofun, fun _ =>
      h.ready fun left hstarting => by rw [hmain] at hstarting; cases hstarting⟩⟩
  show Serving n _ j ((s.setThread i _).threads j)
  rcases eq_or_ne j i with rfl | hne
  · rw [setThread_threads_self]
    refine ⟨hinv, fun hle => ?_, hserving.ready, fun l hl => ?_, fun l hl => ?_, nofun⟩
    · rw [hserving.fresh hle] at hm
      cases hm
    · obtain rfl := Option.some.inj hl
      exact hserving.shared m hm
    · obtain rfl := Option.some.inj hl
      refine iff_of_true ?_ nofun
      show Function.update m.callers .main .idle .main = .idle
      exact Function.update_self ..
  · rw [setThread_threads_ne s hne]
    refine (h.threads j).congr id id rfl (iff_of_false nofun fun hwaking => hne ?_)
    rw [hmain] at hwaking
    exact (MainPc.waking.inj hwaking).symm

theorem step_spec {e : HttpServerEvent F} (h : Inv n s) (hen : s.Enabled e) :
    ∃ s', s.step e = some s' ∧ Inv n s' := by
  cases e with
  | start =>
    have hmain : s.main = .ready := hen
    have hcreated := h.ready fun left hstarting => by rw [hmain] at hstarting; cases hstarting
    refine rounds_spec h.toCore hcreated ?_ (fun hn => h.maxn.trans hn) fun i hwaking => ?_
    · rw [h.maxn]
      exact Nat.le_add_left n _
    · rw [hmain] at hwaking
      cases hwaking
  | startLoop => exact startLoop_spec h hen
  | handNewConn => exact handNewConn_spec h hen
  | wakeup => exact wakeup_spec h hen
  | thread i e => exact thread_spec h hen

/-! ## Runs -/

theorem length_share (hn : 0 < n) {i : ℕ} (hi : i < n) (m : ℕ) :
    (share n m i).length = m / n + if i < m % n then 1 else 0 := by
  have hcount : (share n m i).length = m.count (· ≡ i [MOD n]) := by
    rw [share, ← List.countP_eq_length_filter, Nat.count]
    refine List.countP_congr fun k _ => ?_
    simp only [decide_eq_true_eq, Nat.ModEq, Nat.mod_eq_of_lt hi]
  rw [hcount, Nat.count_modEq_card m hn, Nat.mod_eq_of_lt hi]

/-- One thread is made; the caller is asleep when it begins. Then a connection comes, and the thread
    wakes up. -/
def sampleEvents : List (HttpServerEvent Unit) :=
  [.start, .startLoop, .startLoop, .thread 0 .runner, .thread 0 .runner, .thread 0 .runner,
    .thread 0 .runner, .startLoop, .startLoop, .startLoop, .handNewConn, .wakeup,
    .thread 0 .runner, .thread 0 (.loop .test), .thread 0 (.loop (.poll [.wakeup])),
    .thread 0 (.loop .dispatch), .thread 0 (.loop .dispatch), .thread 0 (.loop .swap),
    .thread 0 (.loop .runNext)]

end HttpServer

end XWeb.Net
