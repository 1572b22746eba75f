import XWeb.Net.KqueueLoop
import XWeb.Net.LiveTable
import XWeb.Net.TimerIds

/-!
# Timers over kqueue

`runAfter`, `runEvery` and `cancel` (`net/event_loop.cpp` lines 109–148) on an `EventLoop` over
`KqueuePoller`, iteration after iteration. The kernel reports a timer that has been added, and takes
one with `EV_ONESHOT` out of the queue when it does. The entry in `timers_` stays until `cancel`.

* `TimerService.step`: a step of the loop thread, with what the kernel does about `EV_ONESHOT`.
* `Serves`: what holds of a timer in `timers_`; `Inv`, `step_spec`: and of all of them.
* `timers_served`: a timer is called once for each time that the kernel reports it.
-/

namespace XWeb.Net

open XWeb.Lib
open Reactor (timerChannel)

/-! ## The kernel -/

namespace KqueuePoller

/-- A descriptor that `getTimerFd` gives out. -/
def TimerId (id : ℤ) : Prop := TIMER_FD_BEGIN ≤ id ∧ id < WAKEUP_FD

instance (id : ℤ) : Decidable (TimerId id) := by
  unfold TimerId
  infer_instance

/-- Nothing has happened to the descriptor `id`. -/
def Untouched (e e' : KqueuePoller) (id : ℤ) : Prop :=
  e'.channels id = e.channels id ∧ ∀ f, e'.kq id f = e.kq id f

variable {e : KqueuePoller} {c : Channel} {id : ℤ}

theorem updateChanges_ident (c : Channel) : ∀ d ∈ updateChanges c, d.ident = c.fd := by
  intro d hd
  rcases eq_of_mem_changes hd with rfl | rfl | rfl <;> rfl

theorem removeChanges_ident (c : Channel) : ∀ d ∈ removeChanges c, d.ident = c.fd := by
  intro d hd
  rcases eq_of_mem_changes hd with rfl | rfl | rfl <;> rfl

theorem update_untouched (p : ℕ) (h : id ≠ c.fd) : Untouched e (e.update p c).1 id := by
  refine ⟨Function.update_of_ne h .., fun f => ?_⟩
  apply attempt_other
  intro d hd hboth
  exact h (hboth.1.trans (updateChanges_ident c d hd))

theorem remove_untouched {e' : KqueuePoller} (hs : e.remove c = some e') (h : id ≠ c.fd) :
    Untouched e e' id := by
  obtain ⟨-, rfl⟩ | ⟨-, -, rfl⟩ := remove_cases hs
  · exact ⟨rfl, fun _ => rfl⟩
  · refine ⟨Function.update_of_ne h .., fun f => ?_⟩
    apply attempt_other
    intro d hd hboth
    exact h (hboth.1.trans (removeChanges_ident c d hd))

/-- A timer's channel has no other interest. -/
theorem has_timer :
    has CHANNEL_TIMER CHANNEL_READ = false ∧ has CHANNEL_TIMER CHANNEL_CONN = false ∧
      has CHANNEL_TIMER CHANNEL_WRITE = false ∧ has CHANNEL_TIMER CHANNEL_TIMER = true := by
  decide

theorem updateChanges_timer (fd interval : ℤ) (isRepeat : Bool) (junk : Flags) :
    updateChanges (timerChannel fd interval isRepeat junk) =
      [⟨fd, EVFILT_TIMER, if isRepeat then EV_ADD else EV_ADD ||| EV_ONESHOT, interval⟩] := by
  obtain ⟨hread, hconn, hwrite, htimer⟩ := has_timer
  have hlast : ∀ flag, has 0#32 flag = false := by simp [has]
  simp [updateChanges, timerChannel, Channel.construct, Channel.setEvent, hread, hconn, hwrite,
    htimer, hlast]
  rfl

/-- Only a timer of `runAfter` is added with `EV_ONESHOT`. -/
theorem any_oneshot (fd interval : ℤ) (isRepeat : Bool) (junk : Flags) :
    ((updateChanges (timerChannel fd interval isRepeat junk)).any fun c => has c.flags EV_ONESHOT) =
      !isRepeat := by
  have hevery : has EV_ADD EV_ONESHOT = false := by decide
  have hafter : has (EV_ADD ||| EV_ONESHOT) EV_ONESHOT = true := by decide
  rw [updateChanges_timer]
  cases isRepeat with
  | true => simp [hevery]
  | false => simp [hafter]

theorem removeChanges_timer (h : c.events = CHANNEL_TIMER) :
    removeChanges c = [⟨c.fd, EVFILT_TIMER, EV_DELETE, 0⟩] := by
  obtain ⟨hread, -, hwrite, htimer⟩ := has_timer
  simp [removeChanges, h, hread, hwrite, htimer]

/-- A timer that is added is in the queue and in `channels_`. -/
theorem update_timer (e : KqueuePoller) (p : ℕ) (fd interval : ℤ) (isRepeat : Bool) (junk : Flags) :
    (e.update p (timerChannel fd interval isRepeat junk)).1.channels fd = some p ∧
      ∀ f, (e.update p (timerChannel fd interval isRepeat junk)).1.kq fd f =
        if f = EVFILT_TIMER then some true else e.kq fd f := by
  refine ⟨Function.update_self .., fun f => ?_⟩
  have happly : e.kq.apply
      ⟨fd, EVFILT_TIMER, if isRepeat then EV_ADD else EV_ADD ||| EV_ONESHOT, interval⟩ =
        some (e.kq.put fd EVFILT_TIMER (some true)) := by
    apply Kqueue.apply_add (by decide)
    · cases isRepeat <;> decide
    · cases isRepeat <;> decide
    · cases isRepeat <;> decide
  show attempt Kqueue.apply e.kq (updateChanges (timerChannel fd interval isRepeat junk)) fd f = _
  rw [updateChanges_timer, attempt_cons_of_some happly]
  show e.kq.put fd EVFILT_TIMER (some true) fd f = _
  rw [Kqueue.put_apply]
  simp

/-- A timer that is removed is in neither, whether or not the kernel still had it. -/
theorem remove_timer {e' : KqueuePoller} (hs : e.remove c = some e') (h : c.events = CHANNEL_TIMER)
    {p : ℕ} (hp : e.channels c.fd = some p) :
    e'.channels c.fd = none ∧
      ∀ f, e'.kq c.fd f = if f = EVFILT_TIMER then none else e.kq c.fd f := by
  obtain ⟨hnone, -⟩ | ⟨-, -, rfl⟩ := remove_cases hs
  · exact absurd (hp.symm.trans hnone) (Option.some_ne_none p)
  rw [removeChanges_timer h]
  refine ⟨Function.update_self .., fun f => ?_⟩
  have happly : e.kq.apply ⟨c.fd, EVFILT_TIMER, EV_DELETE, 0⟩ =
      (e.kq c.fd EVFILT_TIMER).map fun _ => e.kq.put c.fd EVFILT_TIMER none :=
    Kqueue.apply_delete (by decide)
  show attempt Kqueue.apply e.kq [⟨c.fd, EVFILT_TIMER, EV_DELETE, 0⟩] c.fd f = _
  cases hk : e.kq c.fd EVFILT_TIMER with
  | none =>
    rw [hk] at happly
    rw [attempt_cons_of_none happly]
    by_cases hf : f = EVFILT_TIMER
    · rw [if_pos hf, hf, hk]
    · rw [if_neg hf]
  | some enabled =>
    rw [hk] at happly
    rw [attempt_cons_of_some happly]
    show e.kq.put c.fd EVFILT_TIMER none c.fd f = _
    rw [Kqueue.put_apply]
    simp

/-- The kernel takes what it reports of the events with `EV_ONESHOT` out of the queue. -/
def takeOut (oneshot : ℤ → Bool) (kq : Kqueue) (events : List Kevent) : Kqueue :=
  events.foldl (fun kq ev =>
    if ev.filter = EVFILT_TIMER ∧ oneshot ev.ident = true then kq.put ev.ident ev.filter none
    else kq) kq

theorem takeOut_apply (oneshot : ℤ → Bool) (events : List Kevent) (id f : ℤ) : ∀ kq : Kqueue,
    takeOut oneshot kq events id f =
      if f = EVFILT_TIMER ∧ oneshot id = true ∧ ⟨id, EVFILT_TIMER⟩ ∈ events then none
      else kq id f := by
  induction events with
  | nil => intro kq; simp [takeOut]
  | cons ev events ih =>
    intro kq
    show takeOut oneshot (if _ then _ else _) events id f = _
    rw [ih]
    by_cases hrest : f = EVFILT_TIMER ∧ oneshot id = true ∧ ⟨id, EVFILT_TIMER⟩ ∈ events
    · rw [if_pos hrest, if_pos ⟨hrest.1, hrest.2.1, List.mem_cons_of_mem ev hrest.2.2⟩]
    · rw [if_neg hrest]
      by_cases hev : ev.filter = EVFILT_TIMER ∧ oneshot ev.ident = true
      · rw [if_pos hev, Kqueue.put_apply]
        by_cases hown : id = ev.ident ∧ f = ev.filter
        · have heq : ev = ⟨id, EVFILT_TIMER⟩ := by
            rw [hown.1, ← hev.1]
          rw [if_pos hown, if_pos ⟨hown.2.trans hev.1, hown.1 ▸ hev.2, heq ▸ List.mem_cons_self⟩]
        · rw [if_neg hown, if_neg]
          rintro ⟨hf, ho, hmem⟩
          rcases List.mem_cons.mp hmem with rfl | hmem
          · exact hown ⟨rfl, hf⟩
          · exact hrest ⟨hf, ho, hmem⟩
      · rw [if_neg hev, if_neg]
        rintro ⟨hf, ho, hmem⟩
        rcases List.mem_cons.mp hmem with rfl | hmem
        · exact hev ⟨rfl, ho⟩
        · exact hrest ⟨hf, ho, hmem⟩

end KqueuePoller

/-! ## Model -/

/-- An `EventLoop` over `KqueuePoller`, and which timers have been added with `EV_ONESHOT`.
    `history` are the handlers called in the iterations that are over, `expiries` how often the
    kernel has reported a timer since it was added. -/
structure TimerService where
  reactor : Reactor KqueuePoller
  oneshot : ℤ → Bool
  history : List (ℕ × Handler)
  expiries : ℤ → ℕ

namespace TimerService

open KqueuePoller

def start (wakeupFd : ℤ) : TimerService :=
  { reactor := Reactor.init (KqueuePoller.construct wakeupFd)
    oneshot := fun _ => false
    history := []
    expiries := fun _ => 0 }

/-- The handlers called so far. -/
def called (s : TimerService) : List (ℕ × Handler) := s.history ++ s.reactor.calls

/-- What becomes of the kernel and the counts in a step of the loop thread to `r`. -/
def note (s : TimerService) (r : Reactor KqueuePoller) :
    ReactorEvent Unit (List Kevent) → TimerService
  | .poll events =>
    { s with
      reactor := { r with poller := { r.poller with kq := takeOut s.oneshot r.poller.kq events } }
      history := s.called
      expiries := fun id => s.expiries id + events.count ⟨id, EVFILT_TIMER⟩ }
  | .act (.addTimer fd interval isRepeat junk _) =>
    { s with
      reactor := r
      oneshot := Function.update s.oneshot fd
        ((updateChanges (timerChannel fd interval isRepeat junk)).any fun c => has c.flags EV_ONESHOT)
      expiries := Function.update s.expiries fd 0 }
  | _ => { s with reactor := r }

def step (s : TimerService) (e : ReactorEvent Unit (List Kevent)) : Option TimerService :=
  (Reactor.step kqueuePoller s.reactor e).map fun r => s.note r e

/-- Between a poll and the first handler nothing is called. -/
theorem called_poll (s : TimerService) {r : Reactor KqueuePoller} (h : r.calls = [])
    (events : List Kevent) : (s.note r (.poll events)).called = s.called := by
  show s.called ++ r.calls = s.called
  rw [h, List.append_nil]

/-- `handleEvent` of the channel `p` calls at most one handler. -/
theorem called_begin (s : TimerService) {r : Reactor KqueuePoller} {p : ℕ} {c : Channel}
    (h : r.calls = s.reactor.calls ++ (c.handleEvent.map fun k => (p, k)).toList) :
    (s.note r .begin).called = s.called ++ (c.handleEvent.map fun k => (p, k)).toList := by
  show s.history ++ r.calls = s.history ++ s.reactor.calls ++ _
  rw [h, List.append_assoc]

theorem eq_of_mem_handler {p : ℕ} {c : Channel} {x : ℕ × Handler}
    (h : x ∈ (c.handleEvent.map fun k => (p, k)).toList) :
    x.1 = p ∧ c.handleEvent = some x.2 := by
  obtain ⟨k, hk, rfl⟩ := Option.map_eq_some_iff.mp (Option.mem_toList.mp h)
  exact ⟨rfl, hk⟩

/-- The loop makes its steps in order, with actions in handlers and between iterations. -/
def InOrder (s : TimerService) : ReactorEvent Unit (List Kevent) → Prop
  | .poll _ => s.reactor.running = none ∧ s.reactor.active = []
  | e => s.reactor.Legal kqueuePoller e

instance (s : TimerService) : ∀ e, Decidable (s.InOrder e)
  | .poll _ => inferInstanceAs (Decidable (_ ∧ _))
  | .begin => inferInstanceAs (Decidable (s.reactor.Legal kqueuePoller .begin))
  | .act a => inferInstanceAs (Decidable (s.reactor.Legal kqueuePoller (.act a)))
  | .finish => inferInstanceAs (Decidable (s.reactor.Legal kqueuePoller .finish))

/-- The kernel reports what is in the queue and enabled, once each; the descriptor of a timer is an
    id, and other descriptors are below the ids. -/
def Admits (s : TimerService) : ReactorEvent Unit (List Kevent) → Prop
  | .poll events =>
    events.Nodup ∧ ∀ ev ∈ events, s.reactor.poller.kq ev.ident ev.filter = some true
  | .act (.addTimer fd _ _ _ _) => TimerId fd
  | .act (.attach fd _ _ _) => fd < TIMER_FD_BEGIN
  | .act (.newConnection fd _ _) => fd < TIMER_FD_BEGIN
  | _ => True

instance (s : TimerService) : ∀ e, Decidable (s.Admits e)
  | .poll _ => inferInstanceAs (Decidable (_ ∧ _))
  | .act (.addTimer fd _ _ _ _) => inferInstanceAs (Decidable (TimerId fd))
  | .act (.attach fd _ _ _) => inferInstanceAs (Decidable (fd < TIMER_FD_BEGIN))
  | .act (.newConnection fd _ _) => inferInstanceAs (Decidable (fd < TIMER_FD_BEGIN))
  | .act (.cancel ..) | .act (.endOfFile _) | .act (.setEvent ..) | .act (.hold _) | .act (.drop _)
  | .begin | .finish => instDecidableTrue

def Enabled (s : TimerService) (e : ReactorEvent Unit (List Kevent)) : Prop :=
  s.InOrder e ∧ s.reactor.Spares e ∧ s.reactor.Orderly e ∧ s.Admits e

instance (s : TimerService) (e : ReactorEvent Unit (List Kevent)) : Decidable (s.Enabled e) := by
  unfold Enabled
  infer_instance

/-! ## The invariant -/

/-- The channel `p` serves the timer `id`: it has been called as often as the kernel has reported
    the timer, but for a call that is to come in this iteration, and the timer is in the queue
    unless it is one for one time and this is over. -/
structure Serves (s : TimerService) (id : ℤ) (p : ℕ) : Prop where
  isId : TimerId id
  channel : s.reactor.poller.channels id = some p
  cell : ∃ c, s.reactor.heap.cell p = some c ∧ c.fd = id ∧ c.isListenFd = false ∧
    c.events = CHANNEL_TIMER ∧ c.isRepeat = !s.oneshot id ∧
    (p ∈ s.reactor.active → c.activeEvents = CHANNEL_TIMER)
  queued : (s.oneshot id = true → s.expiries id = 0) →
    s.reactor.poller.kq id EVFILT_TIMER = some true
  spent : s.oneshot id = true → s.expiries id ≠ 0 → s.reactor.poller.kq id EVFILT_TIMER = none
  once : s.oneshot id = true → s.expiries id ≤ 1
  made : s.called.count (p, .timer) + s.reactor.active.count p = s.expiries id
  only : ∀ k, (p, k) ∈ s.called → k = .timer

structure Inv (s : TimerService) : Prop where
  reactor : s.reactor.Sound
  timers : ∀ id p, s.reactor.timers id = some p → s.Serves id p
  free : ∀ id, TimerId id → s.reactor.timers id = none →
    s.reactor.poller.channels id = none ∧ s.reactor.poller.kq id EVFILT_TIMER = none
  filters : ∀ id, TimerId id → ∀ f, f ≠ EVFILT_TIMER → s.reactor.poller.kq id f = none
  others : ∀ p c, s.reactor.heap.cell p = some c → (∀ id, s.reactor.timers id ≠ some p) →
    c.fd < TIMER_FD_BEGIN
  unused : ∀ p k, s.reactor.heap.next ≤ p → (p, k) ∉ s.called

theorem start_inv {wakeupFd : ℤ} (h : WAKEUP_FD ≤ wakeupFd) : (start wakeupFd).Inv where
  reactor := Reactor.init_sound wakeupFd
  timers := fun _ _ hp => by cases hp
  free := fun id hid _ => by
    refine ⟨rfl, ?_⟩
    show Kqueue.put (fun _ _ => none) wakeupFd EVFILT_USER (some true) id EVFILT_TIMER = none
    have hne : id ≠ wakeupFd := Int.ne_of_lt (Int.lt_of_lt_of_le hid.2 h)
    rw [Kqueue.put_apply, if_neg fun hboth => hne hboth.1]
  filters := fun id hid f _ => by
    show Kqueue.put (fun _ _ => none) wakeupFd EVFILT_USER (some true) id f = none
    have hne : id ≠ wakeupFd := Int.ne_of_lt (Int.lt_of_lt_of_le hid.2 h)
    rw [Kqueue.put_apply, if_neg fun hboth => hne hboth.1]
  others := fun _ _ hc => by cases hc
  unused := fun _ _ _ => List.not_mem_nil

variable {s : TimerService}

/-- `poll` succeeds. -/
theorem Inv.legal (h : s.Inv) {e : ReactorEvent Unit (List Kevent)} (he : s.InOrder e) :
    s.reactor.Legal kqueuePoller e := by
  cases e with
  | poll events => exact ⟨he.1, he.2, Reactor.poll_current h.reactor.current events⟩
  | _ => exact he

/-- What another timer's channel, descriptor and counts have to do with a step. -/
theorem Serves.frame {id : ℤ} {p : ℕ} (h : s.Serves id p) {s' : TimerService}
    (hun : Untouched s.reactor.poller s'.reactor.poller id)
    (hcell : s'.reactor.heap.cell p = s.reactor.heap.cell p)
    (ho : s'.oneshot id = s.oneshot id) (he : s'.expiries id = s.expiries id)
    (hact : s'.reactor.active = s.reactor.active) (hcalled : s'.called = s.called) :
    s'.Serves id p where
  isId := h.isId
  channel := hun.1.trans h.channel
  cell := by
    rw [hcell, ho, hact]
    exact h.cell
  queued := by
    rw [hun.2, ho, he]
    exact h.queued
  spent := by
    rw [hun.2, ho, he]
    exact h.spent
  once := by
    rw [ho, he]
    exact h.once
  made := by
    rw [hact, hcalled, he]
    exact h.made
  only := by
    rw [hcalled]
    exact h.only

/-! ## Actions -/

variable {r : Reactor KqueuePoller}

/-- A step that changes the timer `fd` only. -/
theorem Inv.filters_of_timer (h : s.Inv) {e : KqueuePoller} {fd : ℤ} {entry : Option Bool}
    (hkq : ∀ f, e.kq fd f = if f = EVFILT_TIMER then entry else s.reactor.poller.kq fd f)
    (hun : ∀ id, id ≠ fd → Untouched s.reactor.poller e id) {id : ℤ} (hid : TimerId id) {f : ℤ}
    (hf : f ≠ EVFILT_TIMER) : e.kq id f = none := by
  have hbefore := h.filters id hid f hf
  by_cases hne : id = fd
  · subst hne
    rw [hkq, if_neg hf, hbefore]
  · rw [(hun id hne).2, hbefore]

/-- A step that does nothing to the timers. -/
theorem Inv.keep (h : s.Inv) (hr : r.Sound) (ht : r.timers = s.reactor.timers)
    (hun : ∀ id, TimerId id → Untouched s.reactor.poller r.poller id)
    (hcell : ∀ id p, s.reactor.timers id = some p → r.heap.cell p = s.reactor.heap.cell p)
    (hoth : ∀ p c, r.heap.cell p = some c → (∀ id, s.reactor.timers id ≠ some p) →
      c.fd < TIMER_FD_BEGIN)
    (hbatch : s.reactor.heap.next ≤ r.heap.next ∧ r.active = s.reactor.active ∧
      r.calls = s.reactor.calls) : Inv { s with reactor := r } := by
  have hcalled : called { s with reactor := r } = s.called := by
    show s.history ++ r.calls = s.history ++ s.reactor.calls
    rw [hbatch.2.2]
  refine ⟨hr, fun id p hid => ?_, fun id hid hnone => ?_, fun id hid f hf => ?_,
    fun p c hc hno => ?_, fun p k hp => ?_⟩
  · rw [ht] at hid
    have hserves := h.timers id p hid
    exact hserves.frame (hun id hserves.isId) (hcell id p hid) rfl rfl hbatch.2.1 hcalled
  · rw [ht] at hnone
    obtain ⟨hch, hkq⟩ := h.free id hid hnone
    exact ⟨(hun id hid).1.trans hch, ((hun id hid).2 _).trans hkq⟩
  · exact ((hun id hid).2 f).trans (h.filters id hid f hf)
  · rw [ht] at hno
    exact hoth p c hc hno
  · rw [hcalled]
    exact h.unused p k (le_trans hbatch.1 hp)

theorem ne_of_timerId {id fd : ℤ} (hid : TimerId id) (hfd : fd < TIMER_FD_BEGIN) : id ≠ fd := by
  have := hid.1
  omega

/-- A timer that stays in `timers_` keeps its channel. -/
theorem Inv.timer_cell (h : s.Inv) (hr : r.Sound) {a : Action Unit}
    (hleg : s.reactor.ActLegal kqueuePoller a) (hs : s.reactor.act kqueuePoller a = some r)
    {id : ℤ} {p : ℕ} (hid : s.reactor.timers id = some p) (hid' : r.timers id = some p) :
    r.heap.cell p = s.reactor.heap.cell p := by
  obtain ⟨-, hcell, -, -⟩ := Reactor.act_frame (h.reactor.inv.other hid) hleg hs
  rcases hcell with hsame | hnone
  · exact hsame
  · obtain ⟨c, hc⟩ := Heap.live_iff.mp (hr.inv.timers_live id p hid')
    exact absurd (hnone.symm.trans hc) (Option.some_ne_none c).symm

/-- A channel that was there before and is no timer's has the descriptor that it had. -/
theorem Inv.other_fd (h : s.Inv) {a : Action Unit} (hs : s.reactor.act kqueuePoller a = some r)
    {p : ℕ} (hp : p < s.reactor.heap.next) {c : Channel} (hc : r.heap.cell p = some c)
    (hno : ∀ id, s.reactor.timers id ≠ some p) : c.fd < TIMER_FD_BEGIN := by
  obtain ⟨c₀, hc₀, halike⟩ := Reactor.act_cell KqueuePoller.tabled hs hp hc
  rw [halike.1]
  exact h.others p c₀ hc₀ hno

/-- Actions other than those of timers use only descriptors that are not among the ids. -/
theorem connection_untouched (h : s.Inv) {a : Action Unit}
    (ha : (ReactorEvent.act a : ReactorEvent Unit (List Kevent)).isTimer = false)
    (hleg : s.reactor.ActLegal kqueuePoller a) (hadm : s.Admits (.act a))
    (hs : s.reactor.act kqueuePoller a = some r) {id : ℤ} (hid : TimerId id) :
    Untouched s.reactor.poller r.poller id := by
  have hsame : Untouched s.reactor.poller s.reactor.poller id := ⟨rfl, fun _ => rfl⟩
  have hconn : ∀ p c, (s.reactor.conns p).Alive → s.reactor.heap.cell p = some c → id ≠ c.fd := by
    intro p c halive hc
    apply ne_of_timerId hid
    exact h.others p c hc fun i hi => h.reactor.inv.timers_conns i p hi halive
  cases a with
  | addTimer fd interval isRepeat junk a => cases ha
  | cancel i a => cases ha
  | attach fd isListen junk a =>
    cases hs
    exact update_untouched _ (ne_of_timerId hid hadm)
  | newConnection fd junk a =>
    cases hs
    exact update_untouched _ (ne_of_timerId hid hadm)
  | setEvent p event a =>
    obtain ⟨c, hc, rfl⟩ := Reactor.setEvent_cases hs
    exact update_untouched (c := c.setEvent event) p (hconn p c hleg.1 hc)
  | endOfFile a =>
    obtain ⟨p, c, poller, -, hc, hrem, halive, rfl⟩ := Reactor.endOfFile_cases hs
    exact remove_untouched hrem (hconn p c (Shared.alive_of_release halive) hc)
  | hold p =>
    cases hs
    exact hsame
  | drop p => obtain ⟨-, rfl⟩ | ⟨-, -, rfl⟩ := Reactor.release_cases hs <;> exact hsame

theorem connection_new {a : Action Unit}
    (ha : (ReactorEvent.act a : ReactorEvent Unit (List Kevent)).isTimer = false)
    (hadm : s.Admits (.act a)) (hs : s.reactor.act kqueuePoller a = some r) {p : ℕ}
    (hp : s.reactor.heap.next ≤ p) {c : Channel} (hc : r.heap.cell p = some c) :
    c.fd < TIMER_FD_BEGIN := by
  have hnone := s.reactor.heap.fresh p hp
  have hold : s.reactor.heap.cell p ≠ some c := by
    rw [hnone]
    exact (Option.some_ne_none c).symm
  cases a with
  | addTimer fd interval isRepeat junk a => cases ha
  | cancel i a => cases ha
  | attach fd isListen junk a =>
    cases hs
    obtain ⟨-, rfl⟩ | hc := Heap.cell_alloc_eq_some.mp hc
    · exact hadm
    · exact absurd hc hold
  | newConnection fd junk a =>
    cases hs
    obtain ⟨-, rfl⟩ | hc := Heap.cell_alloc_eq_some.mp hc
    · exact hadm
    · exact absurd hc hold
  | setEvent q event a =>
    obtain ⟨d, hd, rfl⟩ := Reactor.setEvent_cases hs
    have hne : p ≠ q := by
      rintro rfl
      exact absurd (hnone.symm.trans hd) (Option.some_ne_none d).symm
    exact absurd ((Heap.cell_set_of_ne _ hne _).symm.trans hc) hold
  | endOfFile a =>
    obtain ⟨q, d, poller, -, -, -, -, rfl⟩ := Reactor.endOfFile_cases hs
    exact absurd hc hold
  | hold q =>
    cases hs
    exact absurd hc hold
  | drop q =>
    obtain ⟨-, rfl⟩ | ⟨-, -, rfl⟩ := Reactor.release_cases hs
    · exact absurd hc hold
    · exact absurd (Heap.cell_free_eq_some.mp hc).2 hold

theorem connection_spec (h : s.Inv) {a : Action Unit}
    (ha : (ReactorEvent.act a : ReactorEvent Unit (List Kevent)).isTimer = false)
    (hleg : s.reactor.ActLegal kqueuePoller a) (hadm : s.Admits (.act a)) (hr : r.Sound)
    (hs : s.reactor.act kqueuePoller a = some r) : Inv { s with reactor := r } := by
  have hstep : Reactor.step kqueuePoller s.reactor (.act a) = some r := hs
  have ht := Reactor.step_timers ha hstep
  refine h.keep hr ht (fun id hid => connection_untouched h ha hleg hadm hs hid) (fun id p hid => ?_)
    (fun p c hc hno => ?_) (Reactor.act_batch hs)
  · exact h.timer_cell hr hleg hs hid (by rw [ht]; exact hid)
  · by_cases hp : p < s.reactor.heap.next
    · exact h.other_fd hs hp hc hno
    · exact connection_new ha hadm hs (Nat.le_of_not_lt hp) hc

/-- The channel that `runAfter` or `runEvery` makes. -/
theorem serves_new (h : s.Inv) {fd interval : ℤ} {isRepeat : Bool} {junk : Flags} {u : Unit}
    (hid : TimerId fd) {timers : ℤ → Option ℕ} :
    Serves (s.note { s.reactor.create kqueuePoller (timerChannel fd interval isRepeat junk) u with
      timers } (.act (.addTimer fd interval isRepeat junk u))) fd s.reactor.heap.next := by
  obtain ⟨hch, hkq⟩ := update_timer s.reactor.poller s.reactor.heap.next fd interval isRepeat junk
  have hinactive : s.reactor.heap.next ∉ s.reactor.active :=
    fun hmem => Nat.lt_irrefl _ (h.reactor.inv.active_live _ hmem).lt_next
  have huncalled : ∀ k, (s.reactor.heap.next, k) ∉ s.called := fun k => h.unused _ k (le_refl _)
  have hzero : Function.update s.expiries fd 0 fd = 0 := Function.update_self ..
  refine ⟨hid, hch, ⟨_, Heap.cell_alloc_self _ _, rfl, rfl, rfl, ?_, fun hmem => ?_⟩,
    fun _ => (hkq _).trans (if_pos rfl), fun _ hne => absurd hzero hne, fun _ => ?_, ?_,
    fun k hk => ?_⟩
  · show isRepeat = !Function.update s.oneshot fd _ fd
    rw [Function.update_self, any_oneshot, Bool.not_not]
  · exact absurd hmem hinactive
  · show Function.update s.expiries fd 0 fd ≤ 1
    omega
  · show s.called.count _ + s.reactor.active.count _ = Function.update s.expiries fd 0 fd
    rw [List.count_eq_zero.mpr (huncalled _), List.count_eq_zero.mpr hinactive, hzero]
  · exact absurd hk (huncalled k)

theorem addTimer_spec (h : s.Inv) {fd interval : ℤ} {isRepeat : Bool} {junk : Flags} {u : Unit}
    (hid : TimerId fd) (hnew : s.reactor.timers fd = none) (hr : r.Sound)
    (hs : s.reactor.act kqueuePoller (.addTimer fd interval isRepeat junk u) = some r) :
    (s.note r (.act (.addTimer fd interval isRepeat junk u))).Inv := by
  obtain ⟨-, rfl⟩ | ⟨old, hold, -⟩ := Reactor.addTimer_cases hs
  · obtain ⟨hch, hkq⟩ := update_timer s.reactor.poller s.reactor.heap.next fd interval isRepeat junk
    have hun : ∀ id, id ≠ fd → Untouched s.reactor.poller
        (s.reactor.create kqueuePoller (timerChannel fd interval isRepeat junk) u).poller id :=
      fun id hne => update_untouched (c := timerChannel fd interval isRepeat junk) _ hne
    refine ⟨hr, fun id p hp => ?_, fun id hi hnone => ?_, fun id hi f hf => ?_,
      fun p c hc hno => ?_, fun p k hp => ?_⟩
    · have hp : Function.update s.reactor.timers fd (some s.reactor.heap.next) id = some p := hp
      rcases eq_or_ne id fd with rfl | hne
      · rw [Function.update_self] at hp
        obtain rfl := Option.some.inj hp
        exact serves_new h hid
      · have hp' : s.reactor.timers id = some p := (Function.update_of_ne hne ..).symm.trans hp
        exact (h.timers id p hp').frame (hun id hne)
          (Heap.cell_alloc_of_live (h.reactor.inv.timers_live id p hp') _)
          (Function.update_of_ne hne ..) (Function.update_of_ne hne ..) rfl rfl
    · have hne : id ≠ fd := by
        rintro rfl
        exact absurd ((Function.update_self ..).symm.trans hnone) (Option.some_ne_none _)
      obtain ⟨hch', hkq'⟩ := h.free id hi ((Function.update_of_ne hne ..).symm.trans hnone)
      exact ⟨(hun id hne).1.trans hch', ((hun id hne).2 _).trans hkq'⟩
    · exact h.filters_of_timer hkq hun hi hf
    · obtain ⟨rfl, -⟩ | hc := Heap.cell_alloc_eq_some.mp hc
      · exact absurd (Function.update_self ..) (hno fd)
      · refine h.others p c hc fun id hp => hno id ?_
        have hne : id ≠ fd := by
          rintro rfl
          exact absurd (hnew.symm.trans hp) (Option.some_ne_none _).symm
        exact (Function.update_of_ne hne ..).trans hp
    · exact h.unused p k (Nat.le_of_succ_le hp)
  · exact absurd (hnew.symm.trans hold) (Option.some_ne_none _).symm

theorem cancel_spec (h : s.Inv) {fd : ℤ} {u : Unit} (hr : r.Sound)
    (hs : s.reactor.act kqueuePoller (.cancel fd u) = some r) : Inv { s with reactor := r } := by
  obtain ⟨-, rfl⟩ | ⟨q, c, poller, hq, hc, hrem, -, rfl⟩ := Reactor.cancel_cases hs
  · exact h
  · obtain ⟨d, hd, hfd, -, hevents, -, -⟩ := (h.timers fd q hq).cell
    obtain rfl := Option.some.inj (hc.symm.trans hd)
    obtain ⟨hch, hkq⟩ := remove_timer hrem hevents (hfd.symm ▸ (h.timers fd q hq).channel)
    rw [hfd] at hch hkq
    have hun : ∀ id, id ≠ fd → Untouched s.reactor.poller poller id :=
      fun id hne => remove_untouched hrem (hfd.symm ▸ hne)
    refine ⟨hr, fun id p hp => ?_, fun id hi hnone => ?_, fun id hi f hf => ?_,
      fun p d hd hno => ?_, fun p k hp => h.unused p k hp⟩
    · have hne : id ≠ fd := by
        rintro rfl
        exact absurd ((Function.update_self ..).symm.trans hp) (Option.some_ne_none _).symm
      have hp' : s.reactor.timers id = some p := (Function.update_of_ne hne ..).symm.trans hp
      have hpq : p ≠ q := by
        rintro rfl
        exact hne (h.reactor.inv.timers_inj id fd p hp' hq)
      exact (h.timers id p hp').frame (hun id hne) (Heap.cell_free_of_ne _ hpq) rfl rfl rfl rfl
    · rcases eq_or_ne id fd with rfl | hne
      · exact ⟨hch, (hkq _).trans (if_pos rfl)⟩
      · obtain ⟨hch', hkq'⟩ := h.free id hi ((Function.update_of_ne hne ..).symm.trans hnone)
        exact ⟨(hun id hne).1.trans hch', ((hun id hne).2 _).trans hkq'⟩
    · exact h.filters_of_timer hkq hun hi hf
    · obtain ⟨hpq, hd⟩ := Heap.cell_free_eq_some.mp hd
      refine h.others p d hd fun id hp => hno id ?_
      have hne : id ≠ fd := by
        rintro rfl
        exact hpq (Option.some.inj (hp.symm.trans hq))
      exact (Function.update_of_ne hne ..).trans hp

/-! ## The loop -/

/-- `kevent` reports a timer id only as a timer, and at most once. -/
theorem events_timer (h : s.Inv) {events : List Kevent} (hadm : s.Admits (.poll events)) {id : ℤ}
    (hid : TimerId id) :
    (∀ ev ∈ events, ev.ident = id ↔ ev = ⟨id, EVFILT_TIMER⟩) ∧
      events.countP (fun ev => ev.ident = id) = events.count ⟨id, EVFILT_TIMER⟩ ∧
      events.count ⟨id, EVFILT_TIMER⟩ ≤ 1 := by
  have hiff : ∀ ev ∈ events, ev.ident = id ↔ ev = ⟨id, EVFILT_TIMER⟩ := by
    intro ev hev
    constructor
    · rintro rfl
      by_contra hne
      have hfilter : ev.filter ≠ EVFILT_TIMER := fun hf => hne (hf ▸ rfl)
      have hnone := h.filters _ hid _ hfilter
      exact absurd (hnone.symm.trans (hadm.2 ev hev)) (Option.some_ne_none _).symm
    · rintro rfl
      rfl
  refine ⟨hiff, List.countP_congr fun ev hev => ?_, List.nodup_iff_count.mp hadm.1 _⟩
  rw [decide_eq_true_iff, hiff ev hev, beq_iff_eq]

/-- `poll` reports the channel of a timer as often as `kevent` reports the timer, and as a timer. -/
theorem poll_timer (h : s.Inv) {events : List Kevent} (hadm : s.Admits (.poll events))
    {ret : List ℕ} {heap : Heap Channel}
    (hpoll : s.reactor.poller.poll events s.reactor.heap = some (ret, heap)) {id : ℤ} {p : ℕ}
    (hs : s.Serves id p) {c : Channel} (hc : s.reactor.heap.cell p = some c) :
    ret.count p = events.count ⟨id, EVFILT_TIMER⟩ ∧
      ∃ y, heap.cell p = some (c.setActiveEvent y) ∧ (p ∈ ret → y = CHANNEL_TIMER) := by
  obtain ⟨hiff, hcountP, -⟩ := events_timer h hadm hs.isId
  obtain ⟨hcount, y, hy, hfrom⟩ := pollAll_last (h.reactor.registered.key_iff hs.channel hc)
    (x := c.activeEvents) events hc hpoll
  have hret : ret.count p = events.count ⟨id, EVFILT_TIMER⟩ := by
    rw [← hcountP, hcount]
    exact Nat.zero_add _
  refine ⟨hret, y, hy, fun hmem => ?_⟩
  obtain ⟨ev, hev, hident, rfl⟩ | ⟨hnone, -⟩ := hfrom
  · rw [(hiff ev hev).mp hident]
    show KqueuePoller.translate EVFILT_TIMER = CHANNEL_TIMER
    decide
  · have hpos : ⟨id, EVFILT_TIMER⟩ ∈ events := by
      by_contra habsent
      rw [← List.count_eq_zero, ← hret, List.count_eq_zero] at habsent
      exact habsent hmem
    exact absurd rfl (hnone _ hpos)

theorem Serves.poll (h : s.Inv) {events : List Kevent} (hadm : s.Admits (.poll events))
    (hactive : s.reactor.active = []) {ret : List ℕ} {heap : Heap Channel}
    (hpoll : s.reactor.poller.poll events s.reactor.heap = some (ret, heap)) {id : ℤ} {p : ℕ}
    (hid : s.reactor.timers id = some p) :
    Serves (s.note { s.reactor with heap := heap, active := ret, calls := [] } (.poll events))
      id p := by
  have hs := h.timers id p hid
  obtain ⟨c, hc, hfd, hlisten, hevents, hrepeat, -⟩ := hs.cell
  obtain ⟨-, -, hle⟩ := events_timer h hadm hs.isId
  obtain ⟨hret, y, hy, hmask⟩ := poll_timer h hadm hpoll hs hc
  have hmade := hs.made
  rw [hactive, List.count_nil, Nat.add_zero] at hmade
  have hzero : ⟨id, EVFILT_TIMER⟩ ∉ events ↔ events.count ⟨id, EVFILT_TIMER⟩ = 0 :=
    List.count_eq_zero.symm
  have hkq := takeOut_apply s.oneshot events id EVFILT_TIMER s.reactor.poller.kq
  refine ⟨hs.isId, hs.channel, ⟨_, hy, hfd, hlisten, hevents, hrepeat, hmask⟩,
    fun hnone => ?_, fun ho hne => ?_, fun ho => ?_, ?_, fun k hk => hs.only k ?_⟩
  · have hnone : s.oneshot id = true → s.expiries id + events.count ⟨id, EVFILT_TIMER⟩ = 0 := hnone
    refine hkq.trans ((if_neg ?_).trans (hs.queued fun ho => ?_))
    · rintro ⟨-, ho, hmem⟩
      have := hnone ho
      exact hzero.mpr (by omega) hmem
    · have := hnone ho
      omega
  · have hne : s.expiries id + events.count ⟨id, EVFILT_TIMER⟩ ≠ 0 := hne
    refine hkq.trans ?_
    by_cases hmem : ⟨id, EVFILT_TIMER⟩ ∈ events
    · exact if_pos ⟨rfl, ho, hmem⟩
    · rw [if_neg fun hall => hmem hall.2.2]
      rw [hzero] at hmem
      exact hs.spent ho (by omega)
  · show s.expiries id + events.count ⟨id, EVFILT_TIMER⟩ ≤ 1
    by_cases hmem : ⟨id, EVFILT_TIMER⟩ ∈ events
    · -- the kernel still has it, so it has not been reported before
      have hbefore : s.expiries id = 0 := by
        by_contra hne
        exact absurd ((hs.spent ho hne).symm.trans (hadm.2 _ hmem)) (Option.some_ne_none _).symm
      omega
    · have := hs.once ho
      rw [hzero] at hmem
      omega
  · show (TimerService.called _).count (p, Handler.timer) + ret.count p =
      s.expiries id + events.count ⟨id, EVFILT_TIMER⟩
    rw [called_poll s rfl]
    omega
  · rwa [called_poll s rfl] at hk

theorem poll_spec (h : s.Inv) {events : List Kevent} (hadm : s.Admits (.poll events))
    (hleg : s.reactor.Legal kqueuePoller (.poll events)) (hr : r.Sound)
    (hs : Reactor.step kqueuePoller s.reactor (.poll events) = some r) :
    (s.note r (.poll events)).Inv := by
  obtain ⟨⟨ret, heap⟩, hpoll, rfl⟩ := Option.map_eq_some_iff.mp hs
  obtain ⟨hnext, hcells⟩ := KqueuePoller.tabled.poll_cells _ _ _ _ _ hpoll
  have hkq := takeOut_apply s.oneshot events
  refine ⟨⟨hr.inv.setHeap (fun p hp => hp) _, hr.removable, hr.registered, hr.current⟩,
    fun id p hid => Serves.poll h hadm hleg.2.1 hpoll hid, fun id hid hnone => ?_,
    fun id hid f hf => ?_, fun p c' hc' hno => ?_, fun p k hp hk => ?_⟩
  · obtain ⟨hch, hnone⟩ := h.free id hid hnone
    refine ⟨hch, (hkq id EVFILT_TIMER _).trans ?_⟩
    rw [hnone, ite_self]
  · exact (hkq id f _).trans ((if_neg fun hall => hf hall.1).trans (h.filters id hid f hf))
  · obtain ⟨c, x, hc, rfl⟩ := hcells p c' hc'
    exact h.others p c hc hno
  · rw [called_poll s rfl] at hk
    have hp : heap.next ≤ p := hp
    exact h.unused p k (by omega) hk

/-- A channel that a timer is active on gets its timer handler called. -/
theorem handleEvent_timer {c : Channel} (hlisten : c.isListenFd = false)
    (hactive : c.activeEvents = CHANNEL_TIMER) : c.handleEvent = some .timer := by
  obtain ⟨hread, -, hwrite, htimer⟩ := has_timer
  simp [Channel.handleEvent, hlisten, hactive, hread, hwrite, htimer]

theorem begin_spec (h : s.Inv) (hr : r.Sound) (hs : s.reactor.begin = some r) :
    (s.note r .begin).Inv := by
  obtain ⟨q, rest, c, hq, hc, rfl⟩ := Reactor.begin_cases hs
  refine ⟨hr, fun id p hid => ?_, h.free, h.filters, h.others, fun p k hp hk => ?_⟩
  · have hserves := h.timers id p hid
    obtain ⟨d, hd, hfd, hlisten, hevents, hrepeat, hactive⟩ := hserves.cell
    have hmade := hserves.made
    rw [hq] at hactive hmade
    refine ⟨hserves.isId, hserves.channel, ⟨d, hd, hfd, hlisten, hevents, hrepeat,
      fun hmem => hactive (List.mem_cons_of_mem q hmem)⟩, hserves.queued, hserves.spent, hserves.once,
      ?_, fun k hk => ?_⟩
    · show (TimerService.called _).count (p, .timer) + rest.count p = s.expiries id
      rw [called_begin s rfl, List.count_append]
      by_cases hpq : p = q
      · subst hpq
        obtain rfl := Option.some.inj (hc.symm.trans hd)
        rw [handleEvent_timer hlisten (hactive List.mem_cons_self), Option.map_some,
          Option.toList_some, List.count_singleton_self]
        rw [List.count_cons_self] at hmade
        show s.called.count (p, .timer) + 1 + rest.count p = s.expiries id
        omega
      · have hnone : (c.handleEvent.map fun k => (q, k)).toList.count (p, .timer) = 0 := by
          rw [List.count_eq_zero]
          exact fun hmem => hpq (eq_of_mem_handler hmem).1
        rw [List.count_cons_of_ne (Ne.symm hpq)] at hmade
        rw [hnone]
        exact hmade
    · rw [called_begin s rfl] at hk
      rcases List.mem_append.mp hk with hbefore | hadded
      · exact hserves.only k hbefore
      · obtain ⟨heq, hnow⟩ := eq_of_mem_handler hadded
        have heq : p = q := heq
        subst heq
        obtain rfl := Option.some.inj (hc.symm.trans hd)
        rw [handleEvent_timer hlisten (hactive List.mem_cons_self)] at hnow
        exact (Option.some.inj hnow).symm
  · rw [called_begin s rfl] at hk
    rcases List.mem_append.mp hk with hk | hk
    · exact h.unused p k hp hk
    · obtain ⟨rfl, -⟩ := eq_of_mem_handler hk
      exact absurd (Heap.live_of_cell hc).lt_next (Nat.not_lt_of_le hp)

theorem step_spec (h : s.Inv) {e : ReactorEvent Unit (List Kevent)} (he : s.Enabled e) :
    ∃ s', s.step e = some s' ∧ s'.Inv := by
  obtain ⟨hin, hsp, hord, hadm⟩ := he
  have hleg := h.legal hin
  obtain ⟨r, hs, hr⟩ := h.reactor.step hleg hsp hord
  refine ⟨s.note r e, by rw [step, hs]; rfl, ?_⟩
  cases e with
  | poll events => exact poll_spec h hadm hleg hr hs
  | begin => exact begin_spec h hr hs
  | finish =>
    obtain rfl := Option.some.inj hs
    exact h.keep hr rfl (fun _ _ => ⟨rfl, fun _ => rfl⟩) (fun _ _ _ => rfl) h.others
      ⟨le_refl _, rfl, rfl⟩
  | act a =>
    cases a with
    | addTimer fd interval isRepeat junk u => exact addTimer_spec h hadm hord hr hs
    | cancel id u => exact cancel_spec h hr hs
    | attach fd isListen junk u => exact connection_spec h rfl hleg.2 hadm hr hs
    | newConnection fd junk u => exact connection_spec h rfl hleg.2 hadm hr hs
    | setEvent p event u => exact connection_spec h rfl hleg.2 hadm hr hs
    | endOfFile u => exact connection_spec h rfl hleg.2 hadm hr hs
    | hold p => exact connection_spec h rfl hleg.2 hadm hr hs
    | drop p => exact connection_spec h rfl hleg.2 hadm hr hs

/-! ## Cancelled timers -/

theorem note_act_reactor (s : TimerService) (r : Reactor KqueuePoller) (a : Action Unit) :
    (s.note r (.act a)).reactor = r := by
  cases a <;> rfl

theorem note_act_history (s : TimerService) (r : Reactor KqueuePoller) (a : Action Unit) :
    (s.note r (.act a)).history = s.history := by
  cases a <;> rfl

/-- A channel that has been destroyed, and the calls that have been made of its handlers. -/
def Gone (p : ℕ) (calls : List (ℕ × Handler)) (s : TimerService) : Prop :=
  s.reactor.heap.Dead p ∧ (s.called.filter fun x => x.1 = p) = calls

/-- Nothing is called on a channel that has been destroyed. -/
theorem gone_step {s s' : TimerService} {e : ReactorEvent Unit (List Kevent)} {p : ℕ}
    {calls : List (ℕ × Handler)} (h : Gone p calls s) (hs : s.step e = some s') :
    Gone p calls s' := by
  obtain ⟨r, hr, rfl⟩ := Option.map_eq_some_iff.mp hs
  obtain ⟨hdead, hcalls⟩ := h
  cases e with
  | poll events =>
    obtain ⟨⟨ret, heap⟩, hpoll, rfl⟩ := Option.map_eq_some_iff.mp hr
    obtain ⟨hlive, -⟩ := KqueuePoller.poll_live hpoll
    obtain ⟨hnext, -⟩ := KqueuePoller.tabled.poll_cells _ _ _ _ _ hpoll
    refine ⟨⟨?_, ?_⟩, ?_⟩
    · show p < heap.next
      rw [hnext]
      exact hdead.1
    · have hnot : ¬ heap.Live p := fun hl => hdead.not_live ((hlive p).mp hl)
      exact Option.not_isSome_iff_eq_none.mp hnot
    · rw [called_poll s rfl]
      exact hcalls
  | begin =>
    obtain ⟨q, rest, c, hq, hc, rfl⟩ := Reactor.begin_cases hr
    have hne : q ≠ p := by
      rintro rfl
      exact hdead.not_live (Heap.live_of_cell hc)
    have hnone : ((c.handleEvent.map fun k => (q, k)).toList.filter fun x => x.1 = p) = [] := by
      rw [List.filter_eq_nil_iff]
      intro x hx
      rw [(eq_of_mem_handler hx).1]
      simpa using hne
    refine ⟨hdead, ?_⟩
    rw [called_begin s rfl, List.filter_append, hnone, List.append_nil]
    exact hcalls
  | finish =>
    obtain rfl := Option.some.inj hr
    exact ⟨hdead, hcalls⟩
  | act a =>
    refine ⟨?_, ?_⟩
    · rw [note_act_reactor]
      exact (Reactor.act_keeps hr).1 p hdead
    · rw [called, note_act_reactor, note_act_history, (Reactor.act_batch hr).2.2]
      exact hcalls

end TimerService

open TimerService in
/-- **Timers over kqueue.** In every run of a loop over `KqueuePoller` in which new timers get new
    ids, other descriptors are below the ids, and no handler cancels a timer that is executing or
    still to come in the batch; and in which a connection does not ask for READ, WRITE and TIMER
    at once, is not registered any more once it has been closed, is owned by user code when it
    sees end-of-file, and does not lose its last owner while it is executing or still to come: no
    step fails; the channel of a timer in `timers_` has been called exactly once for each time
    that the kernel has reported the timer, but for a call that is still to come in this
    iteration, and only its timer handler; a timer of `runEvery` is always in the queue, one of
    `runAfter` until it has been reported, which happens at most once; the kernel has no timer
    that is not in `timers_`; and nothing is ever called on a channel after it has been destroyed.
    -/
theorem timers_served (wakeupFd : ℤ) (hfd : KqueuePoller.WAKEUP_FD ≤ wakeupFd)
    (es es' : List (ReactorEvent Unit (List Kevent)))
    (hes : Along TimerService.step TimerService.Enabled (TimerService.start wakeupFd) (es ++ es')) :
    ∃ s s', run TimerService.step (TimerService.start wakeupFd) es = some s ∧
      run TimerService.step s es' = some s' ∧
      (∀ id p, s'.reactor.timers id = some p → ∃ c, s'.reactor.heap.cell p = some c ∧
        s'.called.count (p, .timer) + s'.reactor.active.count p = s'.expiries id ∧
        (∀ k, (p, k) ∈ s'.called → k = .timer) ∧
        (c.isRepeat = true → s'.reactor.poller.kq id EVFILT_TIMER = some true) ∧
        (c.isRepeat = false →
          s'.expiries id = 0 ∧ s'.reactor.poller.kq id EVFILT_TIMER = some true ∨
          s'.expiries id = 1 ∧ s'.reactor.poller.kq id EVFILT_TIMER = none)) ∧
      (∀ id, KqueuePoller.TimerId id → s'.reactor.timers id = none →
        s'.reactor.poller.kq id EVFILT_TIMER = none) ∧
      ∀ p, s.reactor.heap.Dead p →
        (s'.called.filter fun x => x.1 = p) = s.called.filter fun x => x.1 = p := by
  obtain ⟨halong, hrest⟩ := along_append.mp hes
  obtain ⟨s, hs, hinv⟩ := run_total (fun _ _ h he => TimerService.step_spec h he) es _
    (start_inv hfd) halong
  obtain ⟨s', hs', hinv'⟩ := run_total (fun _ _ h he => TimerService.step_spec h he) es' s hinv
    (hrest s hs)
  refine ⟨s, s', hs, hs', fun id p hid => ?_, fun id hid hnone => (hinv'.free id hid hnone).2,
    fun p hdead => ?_⟩
  · have hserves := hinv'.timers id p hid
    obtain ⟨c, hc, -, -, -, hrepeat, -⟩ := hserves.cell
    refine ⟨c, hc, hserves.made, hserves.only, fun hr => ?_, fun hr => ?_⟩
    · have honeshot : s'.oneshot id = false := by rw [← Bool.not_eq_true', ← hrepeat, hr]
      refine hserves.queued fun ho => ?_
      rw [honeshot] at ho
      cases ho
    · have honeshot : s'.oneshot id = true := by rw [← Bool.not_eq_false', ← hrepeat, hr]
      have honce := hserves.once honeshot
      by_cases hzero : s'.expiries id = 0
      · exact Or.inl ⟨hzero, hserves.queued fun _ => hzero⟩
      · exact Or.inr ⟨by omega, hserves.spent honeshot hzero⟩
  · exact (run_invariant (fun _ _ _ h hs => gone_step h hs) es' s s' ⟨hdead, rfl⟩ hs').2

/-- A timer of `runAfter` and one of `runEvery` are reported together; the second one cancels the
    first one, which has been called, and is reported again. -/
theorem timers_served_sample :
    ∃ s s', run TimerService.step (TimerService.start 50001)
        [.act (.addTimer 40001 1000 false 0#32 ()), .act (.addTimer 40002 500 true 0#32 ()),
          .poll [⟨40001, EVFILT_TIMER⟩, ⟨40002, EVFILT_TIMER⟩], .begin, .finish, .begin,
          .act (.cancel 40001 ()), .finish] = some s ∧
      run TimerService.step s [.poll [⟨40002, EVFILT_TIMER⟩], .begin, .finish] = some s' ∧
      (∀ id p, s'.reactor.timers id = some p →
        s'.called.count (p, .timer) + s'.reactor.active.count p = s'.expiries id) ∧
      ∀ p, s.reactor.heap.Dead p →
        (s'.called.filter fun x => x.1 = p) = s.called.filter fun x => x.1 = p := by
  obtain ⟨s, s', hs, hs', hserved, -, hgone⟩ := timers_served 50001 (by decide)
    [.act (.addTimer 40001 1000 false 0#32 ()), .act (.addTimer 40002 500 true 0#32 ()),
      .poll [⟨40001, EVFILT_TIMER⟩, ⟨40002, EVFILT_TIMER⟩], .begin, .finish, .begin,
      .act (.cancel 40001 ()), .finish] [.poll [⟨40002, EVFILT_TIMER⟩], .begin, .finish]
    (by decide +kernel)
  refine ⟨s, s', hs, hs', fun id p hid => ?_, hgone⟩
  obtain ⟨c, -, hmade, -⟩ := hserved id p hid
  exact hmade

end XWeb.Net
