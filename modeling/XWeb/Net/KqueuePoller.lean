import XWeb.Lib.Run
import XWeb.Net.Registration

/-!
# `KqueuePoller`

Model of `net/mac/kqueue_poller.cpp` with the state that the kernel keeps for it: for a descriptor
and a filter, whether such an event has been added, and whether it is enabled. A list of changes
is made up to its first invalid entry: one that names no filter of the kernel, or that enables,
disables or deletes an event that has not been added.

* `KqueuePoller.update`, `remove`, `poll`, `getTimerFd`: the member functions.
* `attempt`: a call of `kevent` with changes.
* `fits`: the masks whose changes `remove` has room for.
* `kqueuePoller`, `KqueuePoller.tabled`: `KqueuePoller` is a `Poller`, with `channels_` as its
  table.
-/

namespace XWeb.Net

open XWeb.Lib

/-! ## The kernel -/

def EVFILT_READ : ℤ := -1
def EVFILT_WRITE : ℤ := -2
def EVFILT_TIMER : ℤ := -7
def EVFILT_USER : ℤ := -10

def EV_ADD : Flags := 0x0001#32
def EV_DELETE : Flags := 0x0002#32
def EV_ENABLE : Flags := 0x0004#32
def EV_DISABLE : Flags := 0x0008#32
def EV_ONESHOT : Flags := 0x0010#32

/-- An entry of the list of changes: the fields of `struct kevent` that `EV_SET` is given, without
    `fflags` and `udata`. -/
structure Change where
  ident : ℤ
  filter : ℤ
  flags : Flags
  data : ℤ
  deriving DecidableEq

/-- What has been added to the queue, by descriptor and filter, and whether it is enabled. -/
abbrev Kqueue := ℤ → ℤ → Option Bool

namespace Kqueue

/-- The entry of `ident` and `filter` becomes `x`. -/
def put (k : Kqueue) (ident filter : ℤ) (x : Option Bool) : Kqueue :=
  Function.update k ident (Function.update (k ident) filter x)

/-- One change; `none` if it is invalid. -/
def apply (k : Kqueue) (c : Change) : Option Kqueue :=
  if c.filter ∈ [EVFILT_READ, EVFILT_WRITE, EVFILT_TIMER, EVFILT_USER] then
    match k c.ident c.filter with
    | none =>
      if has c.flags EV_ADD then
        some (k.put c.ident c.filter (some (!has c.flags EV_DISABLE)))
      else none
    | some enabled =>
      if has c.flags EV_DELETE then some (k.put c.ident c.filter none)
      else if has c.flags EV_DISABLE then some (k.put c.ident c.filter (some false))
      else if has c.flags EV_ADD || has c.flags EV_ENABLE then
        some (k.put c.ident c.filter (some true))
      else some (k.put c.ident c.filter (some enabled))
  else none

end Kqueue

/-- What `kevent` reports: `ident` and `filter`. -/
structure Kevent where
  ident : ℤ
  filter : ℤ
  deriving DecidableEq

/-! ## The poller -/

/-- `channels_`, the descriptor of `wakeup_channel_`, and the queue `kq_`. -/
structure KqueuePoller where
  channels : ℤ → Option ℕ
  wakeupFd : ℤ
  kq : Kqueue

namespace KqueuePoller

def WAKEUP_FD : ℤ := 50000
def TIMER_FD_BEGIN : ℤ := 40000

/-- The constructor (lines 12–21), with the value of the static `fd`, which it increments. -/
def construct (fd : ℤ) : KqueuePoller :=
  { channels := fun _ => none
    wakeupFd := fd
    kq := Kqueue.put (fun _ _ => none) fd EVFILT_USER (some true) }

/-- The changes of lines 29–40. -/
def updateChanges (channel : Channel) : List Change :=
  let fd := channel.fd
  let last := channel.lastEvents
  let evt := channel.events
  (if has evt CHANNEL_READ || has last CHANNEL_READ || has evt CHANNEL_CONN then
    [⟨fd, EVFILT_READ,
      if has evt CHANNEL_READ || has evt CHANNEL_CONN then EV_ADD ||| EV_ENABLE else EV_DISABLE, 0⟩]
  else []) ++
  (if has last CHANNEL_WRITE || has evt CHANNEL_WRITE then
    [⟨fd, EVFILT_WRITE, if has evt CHANNEL_WRITE then EV_ADD ||| EV_ENABLE else EV_DISABLE, 0⟩]
  else []) ++
  if has evt CHANNEL_TIMER then
    [⟨fd, EVFILT_TIMER, if channel.isRepeat then EV_ADD else EV_ADD ||| EV_ONESHOT,
      channel.interval⟩]
  else []

/-- `update` (lines 24–47). An error of `kevent` is only logged. -/
def update (e : KqueuePoller) (p : ℕ) (channel : Channel) : KqueuePoller × Channel :=
  ({ e with
      kq := attempt Kqueue.apply e.kq (updateChanges channel)
      channels := Function.update e.channels channel.fd (some p) }, channel.updateEvent)

/-- The changes of lines 53–63. That of line 59 has `CHANNEL_WRITE` where the filter is expected. -/
def removeChanges (channel : Channel) : List Change :=
  let fd := channel.fd
  let evt := channel.events
  (if has evt CHANNEL_READ then [⟨fd, EVFILT_READ, EV_DELETE, 0⟩] else []) ++
  (if has evt CHANNEL_WRITE then [⟨fd, CHANNEL_WRITE.toInt, EV_DELETE, 0⟩] else []) ++
  if has evt CHANNEL_TIMER then [⟨fd, EVFILT_TIMER, EV_DELETE, 0⟩] else []

/-- `remove` (lines 49–67). `changes` of line 53 has two entries; `none` is the write of a third
    one, behind its end. -/
def remove (e : KqueuePoller) (channel : Channel) : Option KqueuePoller :=
  match e.channels channel.fd with
  | some _ =>
    if (removeChanges channel).length ≤ 2 then
      some
        { e with
          kq := attempt Kqueue.apply e.kq (removeChanges channel)
          channels := Function.update e.channels channel.fd none }
    else none
  | none => some e

/-- The changes of `remove` fit into its array. -/
def fits (events : Flags) : Bool :=
  !(has events CHANNEL_READ && has events CHANNEL_WRITE && has events CHANNEL_TIMER)

theorem fits_iff (channel : Channel) :
    fits channel.events = true ↔ (removeChanges channel).length ≤ 2 := by
  unfold fits removeChanges
  cases hR : has channel.events CHANNEL_READ <;> cases hW : has channel.events CHANNEL_WRITE <;>
    cases hT : has channel.events CHANNEL_TIMER <;> simp [hR, hW, hT]

/-- A channel that is registered and fits is taken out. -/
theorem remove_of_fits {e : KqueuePoller} {channel : Channel} (h : fits channel.events = true)
    (hreg : e.channels channel.fd ≠ none) :
    e.remove channel = some
      { e with
        kq := attempt Kqueue.apply e.kq (removeChanges channel)
        channels := Function.update e.channels channel.fd none } := by
  obtain ⟨q, hq⟩ := Option.ne_none_iff_exists'.mp hreg
  simp only [remove, hq]
  exact if_pos ((fits_iff channel).mp h)

/-- Nothing is done for one that is not registered. -/
theorem remove_of_unregistered {e : KqueuePoller} {channel : Channel}
    (h : e.channels channel.fd = none) : e.remove channel = some e := by
  simp only [remove, h]

theorem remove_cases {e e' : KqueuePoller} {channel : Channel} (hs : e.remove channel = some e') :
    (e.channels channel.fd = none ∧ e' = e) ∨
      e.channels channel.fd ≠ none ∧ fits channel.events = true ∧ e' =
        { e with
          kq := attempt Kqueue.apply e.kq (removeChanges channel)
          channels := Function.update e.channels channel.fd none } := by
  unfold remove at hs
  split at hs
  · rename_i q hq
    split_ifs at hs with hlen
    exact Or.inr ⟨by simp [hq], (fits_iff channel).mpr hlen, (Option.some.inj hs).symm⟩
  · rename_i hnone
    exact Or.inl ⟨hnone, (Option.some.inj hs).symm⟩

theorem remove_fits (e : KqueuePoller) (channel : Channel) (h : fits channel.events = true) :
    ∃ e', e.remove channel = some e' := by
  by_cases hreg : e.channels channel.fd = none
  · exact ⟨e, remove_of_unregistered hreg⟩
  · exact ⟨_, remove_of_fits h hreg⟩

/-- `getTimerFd` (lines 69–76), on its static `fd`, which is `40000` at first. -/
def getTimerFd (fd : ℤ) : ℤ := if fd + 1 ≥ WAKEUP_FD then TIMER_FD_BEGIN else fd + 1

/-- `evt` after lines 86–95. -/
def translate (filter : ℤ) : Flags :=
  let evt := if filter = EVFILT_READ then 0#32 ||| CHANNEL_READ else 0#32
  let evt := if filter = EVFILT_WRITE then evt ||| CHANNEL_WRITE else evt
  if filter = EVFILT_TIMER then evt ||| CHANNEL_TIMER else evt

/-- `poll` (lines 78–104), on what `kevent` reports. The event of `wakeup_channel_` is for no
    channel in `channels_`, and nothing is done for it. -/
def poll (e : KqueuePoller) (events : List Kevent) (h : Heap Channel) :
    Option (List ℕ × Heap Channel) :=
  events.foldlM (fun s ev => report e.channels ev.ident (fun _ => translate ev.filter) s) ([], h)

theorem poll_live {e : KqueuePoller} {events : List Kevent} {h h' : Heap Channel} {ret : List ℕ}
    (hs : e.poll events h = some (ret, h')) :
    (∀ p, h'.Live p ↔ h.Live p) ∧ ∀ p ∈ ret, h'.Live p :=
  reportAll_live Kevent.ident (fun ev _ => translate ev.filter) hs

theorem poll_events {e : KqueuePoller} {events : List Kevent} {h h' : Heap Channel} {ret : List ℕ}
    (hs : e.poll events h = some (ret, h')) (p : ℕ) (c' : Channel) (hc' : h'.cell p = some c') :
    ∃ c, h.cell p = some c ∧ c'.events = c.events :=
  reportAll_events Kevent.ident (fun ev _ => translate ev.filter) hs p c' hc'

end KqueuePoller

/-- `KqueuePoller` as a `Poller`; the kernel has no answers of its own to give. -/
def kqueuePoller : Poller KqueuePoller Unit (List Kevent) where
  update := fun e _ => e.update
  remove := fun e _ => e.remove
  poll := KqueuePoller.poll
  fits := KqueuePoller.fits
  update_events := fun _ _ _ _ => rfl
  remove_fits := fun e _ => e.remove_fits
  fits_of_two := fun _ h => by rw [KqueuePoller.fits, h]; rfl
  poll_live := KqueuePoller.poll_live
  poll_events := KqueuePoller.poll_events

namespace KqueuePoller

theorem remove_channels {e e' : KqueuePoller} {c : Channel} (hs : e.remove c = some e') {fd : ℤ}
    {q : ℕ} (h : e'.channels fd = some q) : e.channels fd = some q := by
  obtain ⟨-, rfl⟩ | ⟨-, -, rfl⟩ := remove_cases hs
  · exact h
  · rcases eq_or_ne fd c.fd with rfl | hne
    · exact absurd h (by simp)
    · simpa [hne] using h

theorem tabled : Tabled kqueuePoller KqueuePoller.channels where
  update_alike := fun _ _ _ c => Channel.Alike.refl c
  update_channels := by
    intro e _ p c fd q h
    simp only [kqueuePoller, update] at h
    rcases eq_or_ne fd c.fd with rfl | hne
    · rw [Function.update_self] at h
      exact Or.inl ⟨(Option.some.inj h).symm, rfl⟩
    · rw [Function.update_of_ne hne] at h
      exact Or.inr h
  remove_channels := fun _ _ _ _ hs _ _ h => remove_channels hs h
  poll_cells := fun _ _ _ _ _ h => reportAll_cells Kevent.ident (fun ev _ => translate ev.filter) h

end KqueuePoller

end XWeb.Net
