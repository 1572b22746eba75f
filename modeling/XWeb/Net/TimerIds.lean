import XWeb.Lib.WrappingIds
import XWeb.Net.TimerQueue

/-!
# Timer ids on kqueue

`getTimerFd` of `KqueuePoller` (`net/mac/kqueue_poller.cpp` lines 69–76) counts in a static
variable, from `40000` to `49999` and round again, and does not look at `timers_`. The calls of
`runAfter`, `runEvery` and `cancel` (`net/event_loop.cpp` lines 109–148) are made on the loop
thread, in handlers or between iterations.

* `KqueueTimers.step`: a call, or another step of the loop thread.
* `AddsNew`: a timer that is added gets a new id, and no other is replaced or destroyed.
* `run_inv`: the timers in `timers_` are those that have been added and not been cancelled.
* `timer_ids_new_iff`: the calls with which ids are new.
-/

namespace XWeb.Net

open XWeb.Lib

/-- An `EventLoop` over `KqueuePoller` and the static variable, which all loops share. `uses` is
    what has happened to timer ids. -/
structure KqueueTimers where
  timerFd : ℤ
  reactor : Reactor KqueuePoller
  uses : List (IdUse ℤ)

/-- A call on the loop thread, a call of `getTimerFd` for another loop, or another step of the loop
    thread. -/
inductive KqueueTimerEvent
  | runAfter (delay : ℤ) (junk : Flags)
  | runEvery (interval : ℤ) (junk : Flags)
  | cancel (id : ℤ)
  | elsewhere
  | other (e : ReactorEvent Unit (List Kevent))

/-- A timer is added. -/
def KqueueTimerEvent.Creates : KqueueTimerEvent → Prop
  | .runAfter .. | .runEvery .. => True
  | _ => False

/-- A functor of `runAfter`, `runEvery` or `cancel`. -/
def ReactorEvent.isTimer {ω ι : Type*} : ReactorEvent ω ι → Bool
  | .act (.addTimer ..) => true
  | .act (.cancel ..) => true
  | _ => false

namespace KqueueTimers

/-- Before the first call, with the descriptor for wakeups. -/
def start (wakeupFd : ℤ) : KqueueTimers :=
  { timerFd := 40000
    reactor := Reactor.init (KqueuePoller.construct wakeupFd)
    uses := [] }

/-- The id that `runAfter` or `runEvery` returns. -/
def nextId (s : KqueueTimers) : ℤ := KqueuePoller.getTimerFd s.timerFd

/-- `runAfter` and `runEvery`. -/
def schedule (s : KqueueTimers) (interval : ℤ) (isRepeat : Bool) (junk : Flags) :
    Option KqueueTimers :=
  (s.reactor.addTimer kqueuePoller s.nextId interval isRepeat junk ()).map fun r =>
    { timerFd := s.nextId, reactor := r, uses := s.uses ++ [.take true] }

def step (s : KqueueTimers) : KqueueTimerEvent → Option KqueueTimers
  | .runAfter delay junk => s.schedule delay false junk
  | .runEvery interval junk => s.schedule interval true junk
  | .cancel id =>
    (s.reactor.cancel kqueuePoller id ()).map fun r =>
      { s with reactor := r, uses := s.uses ++ [.giveBack id] }
  | .elsewhere => some { s with timerFd := s.nextId, uses := s.uses ++ [.take false] }
  | .other e =>
    if e.isTimer then none
    else (Reactor.step kqueuePoller s.reactor e).map fun r => { s with reactor := r }

/-- If a timer is added, its id is not in `timers_`, and those that are there stay and are not
    destroyed. -/
def AddsNew (s : KqueueTimers) (e : KqueueTimerEvent) : Prop :=
  e.Creates → s.reactor.timers s.nextId = none ∧
    ∀ s', s.step e = some s' → ∀ id p, s.reactor.timers id = some p →
      s'.reactor.timers id = some p ∧ (s.reactor.heap.Live p → s'.reactor.heap.Live p)

end KqueueTimers

/-! ## Ids -/

/-- The id that is given out when `n` others have been. -/
def timerId (n : ℕ) : ℤ := 40000 + ((n + 1) % 10000 : ℕ)

theorem timerId_eq_iff (m n : ℕ) : timerId m = timerId n ↔ m % 10000 = n % 10000 := by
  unfold timerId
  omega

theorem getTimerFd_spec (n : ℕ) :
    KqueuePoller.getTimerFd (40000 + (n % 10000 : ℕ)) = timerId n := by
  unfold KqueuePoller.getTimerFd KqueuePoller.WAKEUP_FD KqueuePoller.TIMER_FD_BEGIN timerId
  split_ifs <;> omega

/-! ## What a step does to `timers_` -/

namespace Reactor

variable {σ ω ι : Type*} {P : Poller σ ω ι} {r r' : Reactor σ}

theorem addTimer_timers {fd interval : ℤ} {isRepeat : Bool} {junk : Flags} {a : ω}
    (hs : r.addTimer P fd interval isRepeat junk a = some r') :
    r'.timers = Function.update r.timers fd (some r.heap.next) := by
  obtain ⟨-, rfl⟩ | ⟨old, -, -, rfl⟩ := addTimer_cases hs <;> rfl

theorem cancel_timers {id : ℤ} {a : ω} (hs : r.cancel P id a = some r') :
    r'.timers = Function.update r.timers id none := by
  obtain ⟨hid, rfl⟩ | ⟨p, c, poller, -, -, -, -, rfl⟩ := cancel_cases hs
  · rw [← hid, Function.update_eq_self]
  · rfl

/-- Only the functors of timers change `timers_`. -/
theorem step_timers {e : ReactorEvent ω ι} (he : e.isTimer = false) (hs : step P r e = some r') :
    r'.timers = r.timers := by
  cases e with
  | poll i =>
    obtain ⟨x, -, rfl⟩ := Option.map_eq_some_iff.mp hs
    rfl
  | begin =>
    obtain ⟨p, rest, c, -, -, rfl⟩ := begin_cases hs
    rfl
  | act a =>
    cases a with
    | addTimer fd interval isRepeat junk a => exact absurd he (by simp [ReactorEvent.isTimer])
    | cancel id a => exact absurd he (by simp [ReactorEvent.isTimer])
    | attach fd isListen junk a => cases hs; rfl
    | newConnection fd junk a => cases hs; rfl
    | setEvent p event a =>
      obtain ⟨c, -, rfl⟩ := setEvent_cases hs
      rfl
    | endOfFile a =>
      obtain ⟨p, c, poller, -, -, -, -, rfl⟩ := endOfFile_cases hs
      rfl
    | hold p => cases hs; rfl
    | drop p => obtain ⟨-, rfl⟩ | ⟨-, -, rfl⟩ := release_cases hs <;> rfl
  | finish => cases hs; rfl

end Reactor

namespace KqueueTimers

variable {s s' : KqueueTimers} {e : KqueueTimerEvent}

/-- The counter is at the last id that has been given out, and `timers_` has the ids that have been
    taken and not been given back. -/
structure Inv (s : KqueueTimers) : Prop where
  counter : s.timerFd = 40000 + (takes s.uses % 10000 : ℕ)
  table : ∀ id, s.reactor.timers id ≠ none ↔ InTable timerId s.uses id

theorem Inv.nextId (h : s.Inv) : s.nextId = timerId (takes s.uses) := by
  rw [KqueueTimers.nextId, h.counter, getTimerFd_spec]

theorem inv_start (wakeupFd : ℤ) : (start wakeupFd).Inv := by
  refine ⟨rfl, fun id => ?_⟩
  exact iff_of_false (fun h => h rfl) not_inTable_nil

theorem Inv.schedule (h : s.Inv) {interval : ℤ} {isRepeat : Bool} {junk : Flags}
    (hs : s.schedule interval isRepeat junk = some s') : s'.Inv := by
  obtain ⟨r, hadd, rfl⟩ := Option.map_eq_some_iff.mp hs
  refine ⟨?_, fun id => ?_⟩
  · rw [takes_concat_take]
    exact h.nextId
  · simp only [Reactor.addTimer_timers hadd, inTable_take, true_and, ← h.nextId, ← h.table]
    by_cases hid : id = s.nextId
    · subst hid
      simp
    · simp [Function.update_of_ne hid, Ne.symm hid]

theorem Inv.cancel (h : s.Inv) {id : ℤ} (hs : s.step (.cancel id) = some s') : s'.Inv := by
  obtain ⟨r, hcancel, rfl⟩ := Option.map_eq_some_iff.mp hs
  refine ⟨by rw [takes_concat_giveBack]; exact h.counter, fun x => ?_⟩
  simp only [Reactor.cancel_timers hcancel, inTable_giveBack, ← h.table]
  by_cases hx : x = id
  · subst hx
    simp
  · simp [hx]

theorem step_inv (h : s.Inv) (hs : s.step e = some s') : s'.Inv := by
  cases e with
  | runAfter delay junk => exact h.schedule hs
  | runEvery interval junk => exact h.schedule hs
  | cancel id => exact h.cancel hs
  | elsewhere =>
    obtain rfl := Option.some.inj hs
    refine ⟨by rw [takes_concat_take]; exact h.nextId, fun id => ?_⟩
    rw [inTable_take]
    simpa using h.table id
  | other e =>
    simp only [step] at hs
    split_ifs at hs with he
    obtain ⟨r, hr, rfl⟩ := Option.map_eq_some_iff.mp hs
    refine ⟨h.counter, fun id => ?_⟩
    rw [← h.table, Reactor.step_timers (Bool.eq_false_iff.mpr he) hr]

theorem run_inv (wakeupFd : ℤ) {es : List KqueueTimerEvent}
    (hrun : run step (start wakeupFd) es = some s) : s.Inv := by
  exact run_invariant (fun s e s' h hs => step_inv h hs) es _ _ (inv_start wakeupFd) hrun

/-- A new id replaces nothing. -/
theorem schedule_keeps {interval : ℤ} {isRepeat : Bool} {junk : Flags}
    (hnew : s.reactor.timers s.nextId = none) (hs : s.schedule interval isRepeat junk = some s')
    {id : ℤ} {p : ℕ} (hid : s.reactor.timers id = some p) :
    s'.reactor.timers id = some p ∧ (s.reactor.heap.Live p → s'.reactor.heap.Live p) := by
  obtain ⟨r, hadd, rfl⟩ := Option.map_eq_some_iff.mp hs
  have hne : id ≠ s.nextId := by
    rintro rfl
    rw [hnew] at hid
    exact absurd hid (by simp)
  refine ⟨?_, fun hlive => ?_⟩
  · simp only [Reactor.addTimer_timers hadd, Function.update_of_ne hne, hid]
  · obtain ⟨-, rfl⟩ | ⟨old, hold, -⟩ := Reactor.addTimer_cases hadd
    · exact hlive.alloc _
    · rw [hnew] at hold
      exact absurd hold (by simp)

theorem addsNew_iff (h : s.Inv) (e : KqueueTimerEvent) :
    s.AddsNew e ↔ (e.Creates → Reusable timerId 10000 s.uses) := by
  have hfree : s.reactor.timers s.nextId = none ↔ Reusable timerId 10000 s.uses := by
    rw [← not_iff_not, ← ne_eq, h.table, h.nextId]
    exact inTable_next_iff timerId_eq_iff s.uses
  constructor
  · intro hnew hcreates
    exact hfree.mp (hnew hcreates).1
  · intro huse hcreates
    have hnone := hfree.mpr (huse hcreates)
    refine ⟨hnone, fun s' hs id p hid => ?_⟩
    cases e with
    | runAfter delay junk => exact schedule_keeps hnone hs hid
    | runEvery interval junk => exact schedule_keeps hnone hs hid
    | cancel id => exact hcreates.elim
    | elsewhere => exact hcreates.elim
    | other e => exact hcreates.elim

end KqueueTimers

open KqueueTimers

/-- **When timer ids are new.** In a run of the loop thread, with any calls of `runAfter`,
    `runEvery` and `cancel`, each timer that is added gets an id that is not in `timers_`, and
    replaces and destroys no other, exactly if each time a timer is added those that this loop has
    added `10000` ids before, or a multiple of that, have been cancelled since. -/
theorem timer_ids_new_iff (wakeupFd : ℤ) (es : List KqueueTimerEvent) :
    Along step AddsNew (start wakeupFd) es ↔
      Along step (fun s e => e.Creates → Reusable timerId 10000 s.uses) (start wakeupFd) es := by
  exact along_iff_of_invariant (fun s e h _ => addsNew_iff h e)
    (fun s e s' h _ _ hs => step_inv h hs) es _ (inv_start wakeupFd)
    (along_of_forall fun _ _ => trivial)

/-- Timers that are added outside handlers. -/
theorem run_runAfter (wakeupFd delay : ℤ) (junk : Flags) (n : ℕ) :
    ∃ s, run step (start wakeupFd) (List.replicate n (.runAfter delay junk)) = some s ∧
      s.reactor.TimersOk (fun _ => True) ∧ s.uses = List.replicate n (.take true) := by
  induction n with
  | zero =>
    refine ⟨start wakeupFd, rfl, ⟨rfl, trivial, fun id p hid => ?_⟩, rfl⟩
    exact absurd hid (by simp [start, Reactor.init])
  | succ n ih =>
    obtain ⟨s, hrun, hok, huses⟩ := ih
    obtain ⟨r, hadd, hok', -, -⟩ :=
      Reactor.addTimer_filed KqueuePoller.tabled KqueuePoller.erases hok s.nextId delay false junk ()
    have hs : s.step (.runAfter delay junk) =
        some { timerFd := s.nextId, reactor := r, uses := s.uses ++ [.take true] } := by
      simp [step, schedule, hadd]
    refine ⟨{ timerFd := s.nextId, reactor := r, uses := s.uses ++ [.take true] }, ?_, hok', ?_⟩
    · rw [List.replicate_succ']
      exact run_concat hrun hs
    · rw [List.replicate_succ', huses]

/-- A timer is added `10001` times and never cancelled. -/
theorem timer_id_taken :
    ¬ Along step AddsNew (start KqueuePoller.WAKEUP_FD)
      (List.replicate 10001 (.runAfter 1000 0#32)) := by
  intro hnew
  obtain ⟨s, hrun, -, huses⟩ := run_runAfter KqueuePoller.WAKEUP_FD 1000 0#32 10000
  rw [List.replicate_succ' (n := 10000)] at hnew
  obtain ⟨hlast, -⟩ := (along_append.mp hnew).2 s hrun
  have huse := (addsNew_iff (run_inv _ hrun) _).mp hlast trivial
  rw [huses] at huse
  -- the first timer has the same id, and nothing has been given back
  have hback := huse [] (List.replicate 9999 (.take true)) (List.replicate_succ (n := 9999)) (by
    rw [takes_replicate])
  exact absurd (List.eq_of_mem_replicate hback) (by simp)

end XWeb.Net
