import XWeb.Net.Reactor

/-!
# When a timer expires

`Epoller::update` splits the milliseconds of `interval()` over the two fields of an `itimerspec`.
Times are in nanoseconds from the moment `timerfd_settime` arms the timer.

* `Itimerspec.expiry`: when an armed timer expires.
* `timerSpec_expiry`: what `update` makes of an interval.
* `timer_schedule_iff`: exactly which intervals are kept to.
-/

namespace XWeb.Net

open XWeb.Lib

/-! ## The kernel's timers -/

def Timespec.toNs (t : Timespec) : ℤ := t.sec * 1000000000 + t.nsec

/-- The time of expiration `n`, counted from `0`. A timer whose `it_value` is zero is disarmed,
    and one whose `it_interval` is zero expires once. -/
def Itimerspec.expiry (spec : Itimerspec) (n : ℕ) : Option ℤ :=
  if spec.value.toNs = 0 then none
  else if n ≠ 0 ∧ spec.interval.toNs = 0 then none
  else some (spec.value.toNs + n * spec.interval.toNs)

/-- The timer expires after `mill` milliseconds, and then every `mill` milliseconds if it repeats
    and never again if it does not. -/
def Itimerspec.Keeps (spec : Itimerspec) (mill : ℤ) (isRepeat : Bool) : Prop :=
  ∀ n : ℕ, spec.expiry n =
    if n = 0 ∨ isRepeat = true then some ((n + 1) * (mill * 1000000)) else none

/-! ## What `update` arms -/

namespace Epoller

theorem update_armed (e : Epoller) {a : Answer} (hset : a.settime = true) (p : ℕ) {c : Channel}
    (hc : has c.events CHANNEL_TIMER = true) :
    (e.update a p c).1.armed c.fd = some (timerSpec c) := by
  unfold update control
  rw [if_pos hc, if_pos hset]
  split <;> exact Function.update_self ..

theorem value_timerSpec {c : Channel} (hpos : 0 < c.interval) :
    (timerSpec c).value.toNs = c.interval / 1000 * 1000000000 := by
  simp only [timerSpec, Timespec.toNs, Int.tdiv_eq_ediv_of_nonneg (Int.le_of_lt hpos)]
  omega

theorem interval_timerSpec {c : Channel} (hpos : 0 < c.interval) :
    (timerSpec c).interval.toNs =
      if c.isRepeat then c.interval * 1000000 else c.interval / 1000 * 1000000000 := by
  simp only [timerSpec, Timespec.toNs, Int.tdiv_eq_ediv_of_nonneg (Int.le_of_lt hpos),
    Int.tmod_eq_emod_of_nonneg (Int.le_of_lt hpos)]
  split <;> omega

/-- The first expiration is at a whole second; a timer that does not repeat expires again, or is
    disarmed. -/
theorem keeps_timerSpec_iff {c : Channel} (hpos : 0 < c.interval) :
    (timerSpec c).Keeps c.interval c.isRepeat ↔ c.isRepeat = true ∧ c.interval % 1000 = 0 := by
  have hvalue := value_timerSpec hpos
  have hinterval := interval_timerSpec hpos
  constructor
  · intro hkeeps
    have hfirst : (timerSpec c).expiry 0 = some (c.interval * 1000000) := by simpa using hkeeps 0
    unfold Itimerspec.expiry at hfirst
    split_ifs at hfirst with hzero
    have hexact : (timerSpec c).value.toNs = c.interval * 1000000 := by simpa using hfirst
    refine ⟨?_, by omega⟩
    by_contra hrep
    -- it expires a second time
    have hsecond : (timerSpec c).expiry 1 = none := by simpa [hrep] using hkeeps 1
    rw [if_neg hrep] at hinterval
    unfold Itimerspec.expiry at hsecond
    rw [if_neg hzero, if_neg (by omega)] at hsecond
    exact absurd hsecond (by nofun)
  · rintro ⟨hrep, hsec⟩ n
    rw [if_pos hrep] at hinterval
    have hexact : (timerSpec c).value.toNs = c.interval * 1000000 := by omega
    unfold Itimerspec.expiry
    rw [if_neg (by omega), if_neg (by omega), if_pos (Or.inr hrep), hinterval, hexact,
      Int.add_mul, Int.one_mul, Int.add_comm]

end Epoller

/-! ## Intervals that are kept to -/

/-- **Only whole seconds that repeat are kept to.** Whatever `Epoller::update` is given for a
    timer channel with a positive interval, if `timerfd_settime` succeeds, then the timer it arms
    expires after exactly that many milliseconds, and from then on every such time if the channel
    repeats and never again if it does not, if and only if the channel repeats and the interval is
    a multiple of 1000. -/
theorem timer_schedule_iff (e : Epoller) (a : Answer) (p : ℕ) (c : Channel)
    (hset : a.settime = true) (hc : has c.events CHANNEL_TIMER = true) (hpos : 0 < c.interval) :
    ∃ spec, (e.update a p c).1.armed c.fd = some spec ∧
      (spec.Keeps c.interval c.isRepeat ↔ c.isRepeat = true ∧ c.interval % 1000 = 0) :=
  ⟨Epoller.timerSpec c, e.update_armed hset p hc, Epoller.keeps_timerSpec_iff hpos⟩

/-- The channel of `runEvery(1000, cb)`. -/
theorem timer_schedule_sample :
    ∃ spec, (Epoller.init.update ⟨0#32, true, true⟩ 0
        (Reactor.timerChannel 5 1000 true 0#32)).1.armed 5 = some spec ∧ spec.Keeps 1000 true := by
  obtain ⟨spec, harmed, hkeeps⟩ := timer_schedule_iff Epoller.init ⟨0#32, true, true⟩ 0
    (Reactor.timerChannel 5 1000 true 0#32) rfl (by decide) (by decide)
  exact ⟨spec, harmed, hkeeps.mpr (by decide)⟩

/-- `runAfter(500, cb)` arms nothing, `runAfter(1000, cb)` expires again after two seconds, and
    `runEvery(1500, cb)` expires first after one second. -/
theorem timer_schedule_broken :
    ∃ spec₁ spec₂ spec₃ : Itimerspec,
      (Epoller.init.update ⟨0#32, true, true⟩ 0 (Reactor.timerChannel 5 500 false 0#32)).1.armed 5 =
        some spec₁ ∧
      (Epoller.init.update ⟨0#32, true, true⟩ 0 (Reactor.timerChannel 5 1000 false 0#32)).1.armed 5 =
        some spec₂ ∧
      (Epoller.init.update ⟨0#32, true, true⟩ 0 (Reactor.timerChannel 5 1500 true 0#32)).1.armed 5 =
        some spec₃ ∧
      (spec₁.expiry 0 = none ∧ ¬ spec₁.Keeps 500 false) ∧
      (spec₂.expiry 1 = some 2000000000 ∧ ¬ spec₂.Keeps 1000 false) ∧
      (spec₃.expiry 0 = some 1000000000 ∧ ¬ spec₃.Keeps 1500 true) := by
  refine ⟨_, _, _, rfl, rfl, rfl, ⟨by decide, fun h => ?_⟩, ⟨by decide, fun h => ?_⟩, by decide,
    fun h => ?_⟩
  · exact absurd (h 0) (by decide)
  · exact absurd (h 1) (by decide)
  · exact absurd (h 0) (by decide)

end XWeb.Net
