import XWeb.Lib.CInt

/-!
# `Channel`

Model of `net/channel.h` and `net/channel.cpp`: the interest mask `events_`, the mask
`active_events_` a poller reports, and the choice `handleEvent` makes between the handlers.
What a handler does belongs to the object that installed it, so `handleEvent` returns only
which one is called.
-/

namespace XWeb.Net

open XWeb.Lib

/-! ## Event bits (`net/channel.h` lines 5–8) -/

def CHANNEL_CONN : Flags := 0x01#32
def CHANNEL_READ : Flags := 0x02#32
def CHANNEL_WRITE : Flags := 0x04#32
def CHANNEL_TIMER : Flags := 0x08#32

/-- `class Channel` (`net/channel.h` lines 12–91) without its handlers. -/
structure Channel where
  events : Flags
  activeEvents : Flags
  lastEvents : Flags
  fd : ℤ
  isListenFd : Bool
  interval : ℤ
  isRepeat : Bool
  deriving DecidableEq

/-- The handlers `handleEvent` can call. `errorHandler_` is never called. -/
inductive Handler
  | conn
  | read
  | write
  | timer
  deriving DecidableEq

namespace Channel

/-- `Channel(int fd, bool isListen)` and `Channel()` (`net/channel.cpp` lines 4–22; the latter
    has `fd = 0`, `isListen = false`). `active_events_` is not initialised and starts at an
    arbitrary value. -/
def construct (activeEvents : Flags) (fd : ℤ) (isListen : Bool) : Channel :=
  { events := 0#32, activeEvents := activeEvents, lastEvents := 0#32, fd := fd,
    isListenFd := isListen, interval := 0, isRepeat := false }

/-- `setEvent` (line 62). -/
def setEvent (c : Channel) (event : Flags) : Channel := { c with events := event }

/-- `updateEvent` (line 68). -/
def updateEvent (c : Channel) : Channel := { c with lastEvents := c.events }

/-- `setActiveEvent` (line 71). -/
def setActiveEvent (c : Channel) (event : Flags) : Channel := { c with activeEvents := event }

/-- `isWriting` (line 77). -/
def isWriting (c : Channel) : Bool := has c.events CHANNEL_WRITE

/-- `isReading` (line 78). -/
def isReading (c : Channel) : Bool := has c.events CHANNEL_READ

/-- `handleEvent` (`net/channel.cpp` lines 24–36): the handler that is called, if any. -/
def handleEvent (c : Channel) : Option Handler :=
  if c.isListenFd then some .conn
  else if has c.activeEvents CHANNEL_READ then some .read
  else if has c.activeEvents CHANNEL_WRITE then some .write
  else if has c.activeEvents CHANNEL_TIMER then some .timer
  else none

@[simp] theorem setEvent_events (c : Channel) (e : Flags) : (c.setEvent e).events = e := rfl

@[simp] theorem setActiveEvent_events (c : Channel) (e : Flags) :
    (c.setActiveEvent e).events = c.events := rfl

@[simp] theorem updateEvent_events (c : Channel) : c.updateEvent.events = c.events := rfl

/-! ## Interest bits after the updates the connection makes -/

theorem isWriting_or_write (c : Channel) :
    (c.setEvent (c.events ||| CHANNEL_WRITE)).isWriting = true := by
  rw [isWriting, setEvent_events, has_or]
  simp [has, CHANNEL_WRITE]

theorem isReading_or_write (c : Channel) :
    (c.setEvent (c.events ||| CHANNEL_WRITE)).isReading = c.isReading := by
  rw [isReading, setEvent_events, has_or]
  simp [isReading, has, CHANNEL_WRITE, CHANNEL_READ]

/-- `events & !CHANNEL_WRITE` clears the whole mask, not the one bit. -/
theorem and_lnot_write (c : Channel) : c.events &&& lnot CHANNEL_WRITE = 0#32 :=
  and_lnot (by decide) _

theorem isWriting_setEvent_read (c : Channel) : (c.setEvent CHANNEL_READ).isWriting = false := by
  rw [isWriting, setEvent_events]; decide

theorem isReading_setEvent_read (c : Channel) : (c.setEvent CHANNEL_READ).isReading = true := by
  rw [isReading, setEvent_events]; decide

/-- A channel on which nothing is active, and which is not listening, calls no handler. -/
theorem handleEvent_eq_none {c : Channel} (hl : c.isListenFd = false)
    (ha : c.activeEvents = 0#32) : c.handleEvent = none := by
  simp [handleEvent, hl, ha]

end Channel

end XWeb.Net
