import XWeb.Net.FunctorQueue
import XWeb.Net.KqueuePoller
import XWeb.Net.Readiness

/-!
# Timers over the queue

`runAfter`, `runEvery` and `cancel` (`net/event_loop.cpp` lines 109–148) on any thread: each gives
`runInLoop` a functor that works on `timers_` and the poller, which the loop thread runs at once
and other threads queue. The answers of the kernel are chosen with the functor that will get them.

* `TimerSystem`: the loop and its queue, the timers and the poller, and which ids have been
  returned and cancelled.
* `Erases`: `remove` takes a channel out of the poller.
* `EventLoop.waiting`: the functors that have not been started, and how a step changes them.
-/

namespace XWeb.Net

open XWeb.Lib

/-! ## Functors that wait -/

namespace EventLoop

variable {T F : Type*}

/-- The functors in the queue, or swapped out and not started. -/
def waiting (s : EventLoop T F) : List (Queued T F) := s.pc.swapped ++ s.pendingFunctors

theorem Inv.waiting_eq {t₀ : T} {s : EventLoop T F} (h : Inv t₀ s) :
    s.waiting = s.pushed.drop s.executed.length := by
  rw [← h.order, List.append_assoc, List.drop_left]
  rfl

theorem Inv.waiting_congr {t₀ : T} {s s' : EventLoop T F} (h : Inv t₀ s) (h' : Inv t₀ s')
    (hpushed : s'.pushed = s.pushed) (hran : s'.ran = s.ran) : s'.waiting = s.waiting := by
  rw [h.waiting_eq, h'.waiting_eq, hpushed, executed, executed, hran]

variable [DecidableEq T]

theorem waiting_runInLoop (s : EventLoop T F) (t : T) (cb : F) :
    (s.runInLoop t cb).waiting =
      if t = s.threadId then s.waiting else s.waiting ++ [⟨s.pushed.length, t, cb⟩] := by
  unfold runInLoop waiting
  split
  · rfl
  · simp [queueInLoop]

theorem waiting_runNext {s s' : EventLoop T F} {q : Queued T F} {functors : List (Queued T F)}
    (hpc : s.pc = .run (q :: functors)) (hs : s.step .runNext = some s') :
    s.waiting = q :: s'.waiting := by
  simp only [step, hpc, runNext] at hs
  obtain ⟨t, -, rfl⟩ := Option.map_eq_some_iff.mp hs
  simp [waiting, hpc, LoopPc.swapped]

/-- Any other step starts no functor and queues none. -/
theorem step_log {s s' : EventLoop T F} {e : Event T F} (hnew : ∀ t cb, e ≠ .runInLoop t cb)
    (hrun : ∀ q functors, s.pc = .run (q :: functors) → e ≠ .runNext) (hs : s.step e = some s') :
    s'.pushed = s.pushed ∧ s'.ran = s.ran := by
  cases moves_of_step hs with
  | direct cb => exact absurd rfl (hnew s.threadId cb)
  | queue cb ht => exact absurd rfl (hnew _ cb)
  | start hpc hcaller => exact absurd rfl (hrun _ _ hpc)
  | _ => exact ⟨rfl, rfl⟩

end EventLoop

/-! ## The poller and the timers -/

variable {T σ ω ι : Type*}

/-- `update` and `remove` keep the states of `I`, and in these `remove` takes a channel out of
    `channels_` if the kernel gives an answer of `ok`. -/
structure Erases (P : Poller σ ω ι) (channels : σ → ℤ → Option ℕ) (ok : ω → Prop) (I : σ → Prop) :
    Prop where
  update : ∀ s a p c, I s → I (P.update s a p c).1
  remove : ∀ s a c s', I s → P.remove s a c = some s' → I s'
  erased : ∀ s a (c : Channel) s', I s → ok a → P.remove s a c = some s' → channels s' c.fd = none

/-- On epoll, that is when `epoll_ctl` deletes a descriptor that is watched. -/
theorem Epoller.erases :
    Erases epollPoller Epoller.channels (fun a => a.ctl = true) Epoller.KeysAgree where
  update := fun _ a p c h => Epoller.update_keysAgree h a p c
  remove := by
    intro e a c e' h hs
    obtain rfl : e.remove a c = e' := Option.some.inj hs
    exact Epoller.remove_keysAgree h a c
  erased := by
    intro e a c e' h ha hs
    obtain rfl : e.remove a c = e' := Option.some.inj hs
    rw [Epoller.remove_eq h]
    by_cases hmem : (e.channels c.fd).isSome = true
    · simp [ha, hmem]
    · rw [if_neg fun hc => hmem hc.2]
      exact Option.not_isSome_iff_eq_none.mp hmem

/-- On kqueue the result of `kevent` is not looked at. -/
theorem KqueuePoller.erases :
    Erases kqueuePoller KqueuePoller.channels (fun _ => True) (fun _ => True) where
  update := fun _ _ _ _ _ => trivial
  remove := fun _ _ _ _ _ _ => trivial
  erased := by
    intro e a c e' _ _ hs
    obtain ⟨hnone, rfl⟩ | ⟨-, -, rfl⟩ := KqueuePoller.remove_cases hs
    · exact hnone
    · exact Function.update_self ..

namespace Reactor

/-- No handler is executing, and a timer is filed under its descriptor. -/
structure TimersOk (I : σ → Prop) (r : Reactor σ) : Prop where
  quiet : r.running = none
  poller : I r.poller
  stored : ∀ id p, r.timers id = some p →
    ∃ c, r.heap.cell p = some c ∧ c.fd = id ∧ c.events = CHANNEL_TIMER

variable {P : Poller σ ω ι} {channels : σ → ℤ → Option ℕ} {ok : ω → Prop} {I : σ → Prop}
  {r : Reactor σ}

theorem addTimer_filed (hP : Tabled P channels) (hE : Erases P channels ok I) (h : r.TimersOk I)
    (id interval : ℤ) (isRepeat : Bool) (junk : Flags) (a : ω) :
    ∃ r', r.addTimer P id interval isRepeat junk a = some r' ∧ r'.TimersOk I ∧
      r'.timers = Function.update r.timers id (some r.heap.next) ∧
      ∀ fd, fd ≠ id → channels r.poller fd = none → channels r'.poller fd = none := by
  have hnew : ∀ fd, fd ≠ id → channels r.poller fd = none →
      channels (r.create P (timerChannel id interval isRepeat junk) a).poller fd = none := by
    intro fd hne hnone
    by_contra hsome
    obtain ⟨q, hq⟩ := Option.ne_none_iff_exists'.mp hsome
    rcases hP.update_channels r.poller a r.heap.next (timerChannel id interval isRepeat junk) fd q hq
      with ⟨-, hfd⟩ | hold
    · exact hne hfd
    · exact absurd (hold.symm.trans hnone) (Option.some_ne_none q)
  have hpoller : I (r.create P (timerChannel id interval isRepeat junk) a).poller :=
    hE.update r.poller a r.heap.next (timerChannel id interval isRepeat junk) h.poller
  have hself : ∃ c, (r.create P (timerChannel id interval isRepeat junk) a).heap.cell r.heap.next =
      some c ∧ c.fd = id ∧ c.events = CHANNEL_TIMER :=
    ⟨_, Heap.cell_alloc_self r.heap _,
      (hP.update_alike r.poller a r.heap.next (timerChannel id interval isRepeat junk)).1,
      P.update_events r.poller a r.heap.next (timerChannel id interval isRepeat junk)⟩
  have hold : ∀ fd p, r.timers fd = some p → ∃ c,
      (r.create P (timerChannel id interval isRepeat junk) a).heap.cell p = some c ∧ c.fd = fd ∧
        c.events = CHANNEL_TIMER := by
    intro fd p hp
    obtain ⟨c, hc, hfd⟩ := h.stored fd p hp
    exact ⟨c, (Heap.cell_alloc_of_live (Heap.live_of_cell hc) _).trans hc, hfd⟩
  -- what is under another descriptor is another channel
  have hstored : ∀ fd p, Function.update r.timers id (some r.heap.next) fd = some p → ∃ c,
      (r.create P (timerChannel id interval isRepeat junk) a).heap.cell p = some c ∧ c.fd = fd ∧
        c.events = CHANNEL_TIMER := by
    intro fd p hp
    rcases eq_or_ne fd id with rfl | hne
    · rw [Function.update_self] at hp
      obtain rfl := Option.some.inj hp
      exact hself
    · rw [Function.update_of_ne hne] at hp
      exact hold fd p hp
  have hmade : ∃ r', r.addTimer P id interval isRepeat junk a = some r' := by
    unfold addTimer setTimer
    split
    · exact ⟨_, if_neg (by simp [executing, create, h.quiet])⟩
    · exact ⟨_, rfl⟩
  obtain ⟨r', hr⟩ := hmade
  refine ⟨r', hr, ?_⟩
  obtain ⟨-, rfl⟩ | ⟨old, hid, -, rfl⟩ := addTimer_cases hr
  · exact ⟨⟨h.quiet, hpoller, hstored⟩, rfl, hnew⟩
  · obtain ⟨cold, hcold, hfdold, -⟩ := hold id old hid
    refine ⟨⟨h.quiet, hpoller, fun fd p hp => ?_⟩, rfl, hnew⟩
    obtain ⟨c, hc, hfd, hevents⟩ := hstored fd p hp
    have hne : p ≠ old := by
      rintro rfl
      obtain rfl := Option.some.inj (hc.symm.trans hcold)
      obtain rfl : fd = id := hfd.symm.trans hfdold
      have hp' : Function.update r.timers fd (some r.heap.next) fd = some p := hp
      rw [Function.update_self] at hp'
      obtain ⟨c', hc', -⟩ := h.stored fd p hid
      have hlt := (Heap.live_of_cell hc').lt_next
      rw [← Option.some.inj hp'] at hlt
      exact Nat.lt_irrefl _ hlt
    exact ⟨c, (Heap.cell_free_of_ne _ hne).trans hc, hfd, hevents⟩

theorem cancel_filed (hP : Tabled P channels) (hE : Erases P channels ok I) (h : r.TimersOk I)
    (id : ℤ) {a : ω} (ha : ok a) :
    ∃ r', r.cancel P id a = some r' ∧ r'.TimersOk I ∧ r'.timers = Function.update r.timers id none ∧
      (∀ fd, channels r.poller fd = none → channels r'.poller fd = none) ∧
      (r.timers id ≠ none → channels r'.poller id = none) := by
  have hmade : ∃ r', r.cancel P id a = some r' := by
    unfold cancel
    split
    · exact ⟨_, rfl⟩
    · rename_i p hid
      obtain ⟨c, hc, -, hevents⟩ := h.stored id p hid
      obtain ⟨poller, hpoller⟩ := P.remove_fits r.poller a c (hevents ▸ (fits_own P).1)
      simp only [hc, hpoller, Option.bind_some]
      exact ⟨_, if_neg (by simp [executing, h.quiet])⟩
  obtain ⟨r', hr⟩ := hmade
  refine ⟨r', hr, ?_⟩
  obtain ⟨hid, rfl⟩ | ⟨p, c, poller, hid, hc, hrem, -, rfl⟩ := cancel_cases hr
  · refine ⟨h, ?_, fun _ hnone => hnone, fun hne => absurd hid hne⟩
    rw [← hid, Function.update_eq_self]
  · obtain ⟨c', hc', hfd, -⟩ := h.stored id p hid
    obtain rfl := Option.some.inj (hc.symm.trans hc')
    refine ⟨⟨h.quiet, hE.remove r.poller a c poller h.poller hrem, fun fd q hq => ?_⟩, rfl,
      fun fd hnone => ?_, fun _ => hfd ▸ hE.erased r.poller a c poller h.poller ha hrem⟩
    · have hne : fd ≠ id := by
        rintro rfl
        exact absurd ((Function.update_self ..).symm.trans hq) (Option.some_ne_none q).symm
      obtain ⟨d, hd, hfd', hevents⟩ := h.stored fd q ((Function.update_of_ne hne ..).symm.trans hq)
      have hqp : q ≠ p := by
        rintro rfl
        obtain rfl := Option.some.inj (hd.symm.trans hc)
        exact hne (hfd'.symm.trans hfd)
      exact ⟨d, (Heap.cell_free_of_ne _ hqp).trans hd, hfd', hevents⟩
    · by_contra hsome
      obtain ⟨q, hq⟩ := Option.ne_none_iff_exists'.mp hsome
      exact absurd ((hP.remove_channels r.poller a c poller hrem fd q hq).symm.trans hnone)
        (Option.some_ne_none q)

end Reactor

/-! ## The system -/

/-- A functor of `runAfter` or `runEvery`, or of `cancel`; `known` is whether the call of `cancel`
    was made after the id had been returned. -/
inductive TimerTask (ω : Type*)
  | add (id interval : ℤ) (isRepeat : Bool) (junk : Flags) (a : ω)
  | cancel (id : ℤ) (known : Bool) (a : ω)

namespace TimerTask

def id : TimerTask ω → ℤ
  | .add id .. => id
  | .cancel id .. => id

/-- The id that it puts into `timers_`. -/
def adds : TimerTask ω → Option ℤ
  | .add id .. => some id
  | .cancel .. => none

/-- The id that it takes away for good. -/
def ends : TimerTask ω → Option ℤ
  | .add .. => none
  | .cancel id known _ => if known then some id else none

/-- The body of the functor. -/
def act (P : Poller σ ω ι) (r : Reactor σ) : TimerTask ω → Option (Reactor σ)
  | .add id interval isRepeat junk a => r.addTimer P id interval isRepeat junk a
  | .cancel id _ a => r.cancel P id a

end TimerTask

/-- The loop, the timers and the poller; the ids that `getTimerFd` has given out, the one that the
    call of a thread will return, those that have been returned, and those that have been
    cancelled for good. -/
structure TimerSystem (T σ ω : Type*) where
  loop : EventLoop T (TimerTask ω)
  reactor : Reactor σ
  issued : List ℤ
  adding : T → Option ℤ
  returned : List ℤ
  cancelled : List ℤ

/-- A call by the thread `t`, or a step of a thread. -/
inductive TimerEvent (T ω : Type*)
  | runAfter (t : T) (delay id : ℤ) (junk : Flags) (a : ω)
  | runEvery (t : T) (interval id : ℤ) (junk : Flags) (a : ω)
  | cancel (t : T) (id : ℤ) (a : ω)
  | thread (e : EventLoop.Event T (TimerTask ω))

namespace TimerSystem

def start (t₀ : T) (r : Reactor σ) : TimerSystem T σ ω :=
  { loop := EventLoop.construct t₀
    reactor := r
    issued := []
    adding := fun _ => none
    returned := []
    cancelled := [] }

def perform (P : Poller σ ω ι) (s : TimerSystem T σ ω) (task : TimerTask ω) :
    Option (TimerSystem T σ ω) :=
  (task.act P s.reactor).map fun r =>
    { s with reactor := r, cancelled := task.ends.toList ++ s.cancelled }

variable [DecidableEq T]

/-- `runInLoop`: the loop thread runs the functor. -/
def runInLoop (P : Poller σ ω ι) (s : TimerSystem T σ ω) (t : T) (task : TimerTask ω) :
    Option (TimerSystem T σ ω) :=
  let s' := { s with loop := s.loop.runInLoop t task }
  if t = s.loop.threadId then s'.perform P task else some s'

/-- `runAfter` and `runEvery`. Off the loop thread the call returns after its `wakeup`. -/
def schedule (P : Poller σ ω ι) (s : TimerSystem T σ ω) (t : T) (id interval : ℤ) (isRepeat : Bool)
    (junk : Flags) (a : ω) : Option (TimerSystem T σ ω) :=
  let s := { s with issued := id :: s.issued }
  (s.runInLoop P t (.add id interval isRepeat junk a)).map fun s' =>
    if t = s.loop.threadId then { s' with returned := id :: s'.returned }
    else { s' with adding := Function.update s'.adding t (some id) }

/-- `runAfter` (lines 109–123). -/
def runAfter (P : Poller σ ω ι) (s : TimerSystem T σ ω) (t : T) (delay id : ℤ) (junk : Flags) (a : ω) :
    Option (TimerSystem T σ ω) := s.schedule P t id delay false junk a

/-- `runEvery` (lines 125–139). -/
def runEvery (P : Poller σ ω ι) (s : TimerSystem T σ ω) (t : T) (interval id : ℤ) (junk : Flags)
    (a : ω) : Option (TimerSystem T σ ω) := s.schedule P t id interval true junk a

/-- `cancel` (lines 141–148). -/
def cancel (P : Poller σ ω ι) (s : TimerSystem T σ ω) (t : T) (id : ℤ) (a : ω) :
    Option (TimerSystem T σ ω) := s.runInLoop P t (.cancel id (decide (id ∈ s.returned)) a)

/-- A step of a thread: the end of a call, the start of a functor, or another one. -/
def thread (P : Poller σ ω ι) (s : TimerSystem T σ ω) (e : EventLoop.Event T (TimerTask ω)) :
    Option (TimerSystem T σ ω) :=
  (s.loop.step e).bind fun loop =>
    let s' := { s with loop }
    match e with
    | .wakeup t =>
      some { s' with returned := (s.adding t).toList ++ s.returned,
                     adding := Function.update s.adding t none }
    | .runNext => match s.loop.pc with
      | .run (q :: _) => s'.perform P q.functor
      | _ => some s'
    | _ => some s'

def step (P : Poller σ ω ι) (s : TimerSystem T σ ω) : TimerEvent T ω → Option (TimerSystem T σ ω)
  | .runAfter t delay id junk a => s.runAfter P t delay id junk a
  | .runEvery t interval id junk a => s.runEvery P t interval id junk a
  | .cancel t id a => s.cancel P t id a
  | .thread e => s.thread P e

/-- Threads make their steps in order; an id is one that has not been given out before and that no
    other channel has; the kernel deletes a descriptor that is registered. -/
def Enabled (channels : σ → ℤ → Option ℕ) (ok : ω → Prop) (s : TimerSystem T σ ω) :
    TimerEvent T ω → Prop
  | .runAfter t _ id _ _ | .runEvery t _ id _ _ =>
    s.loop.Free t ∧ id ∉ s.issued ∧ channels s.reactor.poller id = none
  | .cancel t _ a => s.loop.Free t ∧ ok a
  | .thread e => s.loop.Enabled e ∧ ∀ t task, e ≠ .runInLoop t task

end TimerSystem

end XWeb.Net
