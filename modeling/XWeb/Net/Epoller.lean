import XWeb.Net.Poller

/-!
# `Epoller`

Model of `net/linux/epoller.cpp` lines 41–124 with the state that the kernel keeps for it: the
interest list of `epollfd_` and the timers.

The answers of the kernel to a call are a parameter of the call, and so is what an uninitialised
`struct epoll_event` holds.

* `epollCtl`: the interest list and the three calls that change it.
* `Epoller.update`, `remove`, `poll`: the three member functions.
* `Epoller.KeysAgree`: the keys of `channels_` are the descriptors that the kernel watches; under it
  `update_eq` and `remove_eq` say what the calls do.
* `translate`: the active events that `poll` makes from what `epoll_wait` reports.
* `translate_timer`: for a timer channel these are always zero.
* `epollPoller`: `Epoller` is a `Poller`.
-/

namespace XWeb.Net

open XWeb.Lib

/-! ## epoll -/

def EPOLLIN : Flags := 0x001#32
def EPOLLOUT : Flags := 0x004#32
def EPOLLERR : Flags := 0x008#32
def EPOLLHUP : Flags := 0x010#32

/-- `struct timespec`. -/
structure Timespec where
  sec : ℤ
  nsec : ℤ
  deriving DecidableEq

/-- `struct itimerspec`. -/
structure Itimerspec where
  interval : Timespec
  value : Timespec
  deriving DecidableEq

/-- The kernel's answers to one call of `update` or `remove`: whether `timerfd_settime` succeeds,
    and whether `epoll_ctl` does, where it has no reason of its own to fail (see `epollCtl`).
    `stack` is what `event.events` holds before line 48. -/
structure Answer where
  stack : Flags
  settime : Bool
  ctl : Bool
  deriving DecidableEq

/-- `channels_`, and what the kernel keeps by descriptor: the events of interest and the timer. -/
structure Epoller where
  channels : ℤ → Option ℕ
  interest : ℤ → Option Flags
  armed : ℤ → Option Itimerspec

/-- `EPOLL_CTL_ADD`, `EPOLL_CTL_MOD` and `EPOLL_CTL_DEL`. -/
inductive EpollOp
  | add
  | mod
  | del
  deriving DecidableEq

/-- `epoll_ctl` on an interest list. `EPOLL_CTL_ADD` of a descriptor that is watched fails
    (`EEXIST`), `EPOLL_CTL_MOD` and `EPOLL_CTL_DEL` of one that is not fail (`ENOENT`). The call
    may fail for another reason as well (`ok` is false). -/
def epollCtl (ok : Bool) (interest : ℤ → Option Flags) (op : EpollOp) (fd : ℤ) (events : Flags) :
    Option (ℤ → Option Flags) :=
  if ok then
    match op, interest fd with
    | .add, none => some (Function.update interest fd (some events))
    | .mod, some _ => some (Function.update interest fd (some events))
    | .del, some _ => some (Function.update interest fd none)
    | _, _ => none
  else none

/-- An event of `epoll_wait`: the descriptor in `data.fd`, and `events`. -/
structure EpollEvent where
  fd : ℤ
  events : Flags
  deriving DecidableEq

namespace Epoller

def init : Epoller := ⟨fun _ => none, fun _ => none, fun _ => none⟩

/-- The `itimerspec` of lines 55–65. `/` and `%` of `int64_t` truncate. -/
def timerSpec (channel : Channel) : Itimerspec :=
  let second := channel.interval.tdiv 1000
  let mill := channel.interval.tmod 1000
  { value := ⟨second, 0⟩
    interval := ⟨second, if channel.isRepeat then mill * 1000000 else 0⟩ }

/-- `event.events` after lines 48–70. -/
def eventMask (stack : Flags) (evt : Flags) : Flags :=
  let events := if has evt CHANNEL_READ || has evt CHANNEL_CONN then stack ||| EPOLLIN else stack
  let events := if has evt CHANNEL_WRITE then events ||| EPOLLOUT else events
  if has evt CHANNEL_TIMER then EPOLLIN else events

/-- The operation that lines 72–73 choose. -/
def chosenOp (e : Epoller) (fd : ℤ) : EpollOp :=
  let modify := (e.channels fd).isSome
  if modify then .mod else .add

/-- Lines 72–78: `epoll_ctl` and the registration. -/
def control (e : Epoller) (a : Answer) (p : ℕ) (channel : Channel) : Epoller × Channel :=
  match epollCtl a.ctl e.interest (e.chosenOp channel.fd) channel.fd
    (eventMask a.stack channel.events) with
  | some interest =>
    ({ e with
        interest := interest
        channels := Function.update e.channels channel.fd (some p) }, channel.updateEvent)
  | none => (e, channel)

/-- `update` (lines 41–80). -/
def update (e : Epoller) (a : Answer) (p : ℕ) (channel : Channel) : Epoller × Channel :=
  if has channel.events CHANNEL_TIMER then
    if a.settime then
      control { e with armed := Function.update e.armed channel.fd (some (timerSpec channel)) }
        a p channel
    else (e, channel)
  else control e a p channel

/-- `remove` (lines 82–92). -/
def remove (e : Epoller) (a : Answer) (channel : Channel) : Epoller :=
  match e.channels channel.fd with
  | some _ =>
    match epollCtl a.ctl e.interest .del channel.fd 0#32 with
    | some interest =>
      { e with
        interest := interest
        channels := Function.update e.channels channel.fd none }
    | none => e
  | none => e

/-- `evt` after lines 102–111, from the reported events and the interest of the channel. -/
def translate (reported interest : Flags) : Flags :=
  let evt := if has reported EPOLLIN then 0#32 ||| CHANNEL_READ else 0#32
  let evt := if reported = EPOLLOUT then evt ||| CHANNEL_WRITE else evt
  if has interest CHANNEL_TIMER then (evt ||| CHANNEL_TIMER) &&& lnot CHANNEL_READ else evt

/-- One round of the loop of line 99, on `ret` and the channels. -/
def pollOne (e : Epoller) (s : List ℕ × Heap Channel) (ev : EpollEvent) :
    Option (List ℕ × Heap Channel) :=
  match e.channels ev.fd with
  | none => some s
  | some p =>
    (s.2.cell p).map fun c =>
      (s.1 ++ [p], s.2.set p (c.setActiveEvent (translate ev.events c.events)))

/-- `poll` (lines 94–124), on what `epoll_wait` reports. -/
def poll (e : Epoller) (events : List EpollEvent) (h : Heap Channel) :
    Option (List ℕ × Heap Channel) :=
  events.foldlM e.pollOne ([], h)

/-! ## The two tables -/

/-- The keys of `channels_` are the descriptors in the interest list. -/
def KeysAgree (e : Epoller) : Prop := ∀ fd, (e.channels fd).isSome = (e.interest fd).isSome

theorem init_keysAgree : init.KeysAgree := fun _ => rfl

/-- `EPOLL_CTL_ADD` is chosen for the descriptors that the kernel does not watch. -/
theorem chosenOp_eq_add_iff {e : Epoller} (h : e.KeysAgree) (fd : ℤ) :
    e.chosenOp fd = .add ↔ e.interest fd = none := by
  rw [← Option.not_isSome_iff_eq_none, ← h fd]
  cases he : (e.channels fd).isSome <;> simp [chosenOp, he]

/-- `EPOLL_CTL_MOD` is chosen for the descriptors that it does watch. -/
theorem chosenOp_eq_mod_iff {e : Epoller} (h : e.KeysAgree) (fd : ℤ) :
    e.chosenOp fd = .mod ↔ (e.interest fd).isSome = true := by
  rw [← h fd]
  cases he : (e.channels fd).isSome <;> simp [chosenOp, he]

/-- The chosen operation fails only for another reason. -/
theorem epollCtl_chosenOp {e : Epoller} (h : e.KeysAgree) (ok : Bool) (fd : ℤ) (events : Flags) :
    epollCtl ok e.interest (e.chosenOp fd) fd events =
      if ok then some (Function.update e.interest fd (some events)) else none := by
  have hfd := h fd
  unfold epollCtl chosenOp
  cases hint : e.interest fd <;> cases hch : e.channels fd <;> simp_all

theorem control_eq {e : Epoller} (h : e.KeysAgree) (a : Answer) (p : ℕ) (c : Channel) :
    e.control a p c =
      if a.ctl then
        ({ e with
            interest := Function.update e.interest c.fd (some (eventMask a.stack c.events))
            channels := Function.update e.channels c.fd (some p) }, c.updateEvent)
      else (e, c) := by
  unfold control
  rw [epollCtl_chosenOp h]
  cases a.ctl <;> rfl

/-- Up to the timers, an `update` whose system calls do not succeed has no effect. -/
theorem update_eq {e : Epoller} (h : e.KeysAgree) (a : Answer) (p : ℕ) (c : Channel) :
    ∃ armed, e.update a p c =
      if a.ctl = true ∧ (has c.events CHANNEL_TIMER = true → a.settime = true) then
        (⟨Function.update e.channels c.fd (some p),
          Function.update e.interest c.fd (some (eventMask a.stack c.events)), armed⟩, c.updateEvent)
      else (⟨e.channels, e.interest, armed⟩, c) := by
  unfold update
  by_cases ht : has c.events CHANNEL_TIMER = true
  · rw [if_pos ht]
    by_cases hset : a.settime = true
    · refine ⟨Function.update e.armed c.fd (some (timerSpec c)), ?_⟩
      -- `timerfd_settime` changes neither of the tables
      have h' : KeysAgree { e with armed := Function.update e.armed c.fd (some (timerSpec c)) } := h
      rw [if_pos hset, control_eq h']
      cases hctl : a.ctl <;> simp [hset]
    · exact ⟨e.armed, by simp [ht, hset]⟩
  · refine ⟨e.armed, ?_⟩
    rw [if_neg ht, control_eq h]
    cases hctl : a.ctl <;> simp [ht]

theorem control_events (e : Epoller) (a : Answer) (p : ℕ) (c : Channel) :
    (e.control a p c).2.events = c.events := by
  unfold control
  split <;> rfl

theorem update_events (e : Epoller) (a : Answer) (p : ℕ) (c : Channel) :
    (e.update a p c).2.events = c.events := by
  unfold update
  split
  · split
    · exact control_events _ a p c
    · rfl
  · exact control_events e a p c

theorem remove_eq {e : Epoller} (h : e.KeysAgree) (a : Answer) (c : Channel) :
    e.remove a c =
      if a.ctl = true ∧ (e.channels c.fd).isSome = true then
        { e with
          interest := Function.update e.interest c.fd none
          channels := Function.update e.channels c.fd none }
      else e := by
  have hfd := h c.fd
  unfold remove epollCtl
  cases hch : e.channels c.fd with
  | none => simp
  | some q =>
    obtain ⟨x, hx⟩ := Option.isSome_iff_exists.mp (hfd.symm.trans (by rw [hch]; rfl))
    cases hctl : a.ctl <;> simp [hx]

theorem keysAgree_update {e : Epoller} (h : e.KeysAgree) (fd : ℤ) {x : Option ℕ} {y : Option Flags}
    (hxy : x.isSome = y.isSome) (armed : ℤ → Option Itimerspec) :
    KeysAgree ⟨Function.update e.channels fd x, Function.update e.interest fd y, armed⟩ := by
  intro fd'
  rcases eq_or_ne fd' fd with rfl | hne
  · simpa using hxy
  · simpa [hne] using h fd'

theorem update_keysAgree {e : Epoller} (h : e.KeysAgree) (a : Answer) (p : ℕ) (c : Channel) :
    (e.update a p c).1.KeysAgree := by
  obtain ⟨armed, hu⟩ := update_eq h a p c
  rw [hu]
  split
  · exact keysAgree_update h c.fd rfl armed
  · exact h

theorem remove_keysAgree {e : Epoller} (h : e.KeysAgree) (a : Answer) (c : Channel) :
    (e.remove a c).KeysAgree := by
  rw [remove_eq h]
  split
  · exact keysAgree_update h c.fd rfl e.armed
  · exact h

/-! ## What `poll` does -/

/-- `evt & !CHANNEL_READ` is zero: whatever is reported on a timer channel, nothing is active. -/
theorem translate_timer {interest : Flags} (h : has interest CHANNEL_TIMER = true)
    (reported : Flags) : translate reported interest = 0#32 := by
  simp only [translate, h, if_true]
  exact and_lnot (by decide) _

theorem pollOne_eq (e : Epoller) (s : List ℕ × Heap Channel) (ev : EpollEvent) :
    e.pollOne s ev = report e.channels ev.fd (fun c => translate ev.events c.events) s := rfl

theorem pollOne_spec {e : Epoller} {s s' : List ℕ × Heap Channel} {ev : EpollEvent}
    (hs : e.pollOne s ev = some s') :
    s' = s ∨ ∃ p c, e.channels ev.fd = some p ∧ s.2.cell p = some c ∧
      s' = (s.1 ++ [p], s.2.set p (c.setActiveEvent (translate ev.events c.events))) := by
  rw [pollOne_eq] at hs
  exact (report_cases hs).imp_left And.right

/-- An invariant of every round is one of `poll`. -/
theorem poll_induct {e : Epoller} {I : List ℕ × Heap Channel → Prop}
    (hstep : ∀ s s' ev, I s → e.pollOne s ev = some s' → I s') :
    ∀ (events : List EpollEvent) (s s' : List ℕ × Heap Channel), I s →
      events.foldlM e.pollOne s = some s' → I s' :=
  reportAll_induct EpollEvent.fd (fun ev c => translate ev.events c.events) hstep

theorem poll_live {e : Epoller} {events : List EpollEvent} {h h' : Heap Channel} {ret : List ℕ}
    (hs : e.poll events h = some (ret, h')) :
    (∀ p, h'.Live p ↔ h.Live p) ∧ ∀ p ∈ ret, h'.Live p :=
  reportAll_live EpollEvent.fd (fun ev c => translate ev.events c.events) hs

theorem poll_events {e : Epoller} {events : List EpollEvent} {h h' : Heap Channel} {ret : List ℕ}
    (hs : e.poll events h = some (ret, h')) (p : ℕ) (c' : Channel) (hc' : h'.cell p = some c') :
    ∃ c, h.cell p = some c ∧ c'.events = c.events :=
  reportAll_events EpollEvent.fd (fun ev c => translate ev.events c.events) hs p c' hc'

end Epoller

/-- `Epoller` as a `Poller`: `remove` is made for every mask. -/
def epollPoller : Poller Epoller Answer (List EpollEvent) where
  update := Epoller.update
  remove := fun e a channel => some (e.remove a channel)
  poll := Epoller.poll
  fits := fun _ => true
  update_events := Epoller.update_events
  remove_fits := fun _ _ _ _ => ⟨_, rfl⟩
  fits_of_two := fun _ _ => rfl
  poll_live := Epoller.poll_live
  poll_events := Epoller.poll_events

end XWeb.Net
