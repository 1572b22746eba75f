import XWeb.Net.FunctorQueue

/-!
# `quit` from another thread

`quit` clears `running_` and writes to the eventfd; `loop` sets `running_` when it is entered. A new
`EventLoop` is handed out by `EventLoopThread::startLoop` before its thread has entered `loop`.

* `Quitting`: a loop, with a mark for a completed `quit` and the number of `poll`s since.
* `Ended`: what a completed `quit` is to bring about.
* `quit_kept_iff`: exactly which runs keep it.
-/

namespace XWeb.Net

open XWeb.Lib

variable {T F : Type*}

/-- A loop. `quit` is whether a call of `quit` by another thread has been completed, `polls` how
    often `poll` has returned since the first. -/
structure Quitting (T F : Type*) where
  loop : EventLoop T F
  quit : Bool
  polls : ℕ

namespace Quitting

/-- The thread `t₀` has made the loop. -/
def start (t₀ : T) : Quitting T F :=
  { loop := EventLoop.construct t₀
    quit := false
    polls := 0 }

/-- The step is the end of a call of `quit`. -/
def isEnd (s : Quitting T F) : EventLoop.Event T F → Bool
  | .wakeup t => s.loop.callers t = .quitting
  | _ => false

/-- `poll` returns. -/
def isPoll : EventLoop.Event T F → Bool
  | .poll _ => true
  | _ => false

variable [DecidableEq T]

def step (s : Quitting T F) (e : EventLoop.Event T F) : Option (Quitting T F) :=
  (s.loop.step e).map fun loop =>
    { loop := loop
      quit := s.quit || s.isEnd e
      polls := if s.quit && isPoll e then s.polls + 1 else s.polls }

/-- Threads make their steps in order. -/
def Enabled (s : Quitting T F) (e : EventLoop.Event T F) : Prop := s.loop.Enabled e

omit [DecidableEq T]

/-- After a completed `quit` the test of `loop` finds `running_` cleared, `poll` returns at most
    once, and it does not block. -/
def Ended (s : Quitting T F) : Prop :=
  s.quit = true → s.loop.running = false ∧ s.polls ≤ 1 ∧
    (s.loop.pc = .poll → s.polls = 0 ∧ 0 < s.loop.eventfd)

/-- `loop` is not entered after a completed `quit`, and when a `quit` is completed `running_` is
    still cleared. -/
def Kept (s : Quitting T F) : EventLoop.Event T F → Prop
  | .loop _ => s.quit = false
  | .wakeup t => s.loop.callers t = .quitting → s.loop.running = false
  | _ => True

/-- No `poll` is counted before a `quit` has been completed. -/
structure Inv (t₀ : T) (s : Quitting T F) : Prop where
  loop : s.loop.Inv t₀
  polls : s.quit = false → s.polls = 0

theorem start_inv (t₀ : T) : Inv t₀ (start t₀ : Quitting T F) :=
  ⟨EventLoop.construct_inv t₀, fun _ => rfl⟩

/-- A step that does not set `running_`, begin a `poll` after a `quit`, or reset the eventfd in
    one. -/
theorem ended_of_frame {s s' : Quitting T F} (h : s.Ended) (hquit : s'.quit = s.quit)
    (hpolls : s'.polls = s.polls) (hrun : s.loop.running = false → s'.loop.running = false)
    (hpc : s.loop.running = false → s'.loop.pc = .poll →
      s.loop.pc = .poll ∧ s.loop.eventfd ≤ s'.loop.eventfd) : s'.Ended := by
  intro hq
  rw [hquit] at hq
  obtain ⟨hrunning, hle, hpoll⟩ := h hq
  refine ⟨hrun hrunning, by rwa [hpolls], fun hpc' => ?_⟩
  obtain ⟨hold, hfd⟩ := hpc hrunning hpc'
  obtain ⟨hzero, hpos⟩ := hpoll hold
  exact ⟨by rwa [hpolls], Nat.lt_of_lt_of_le hpos hfd⟩

variable [DecidableEq T]

/-- Only `loop` sets `running_`, and with `running_` cleared no `poll` begins. -/
theorem loop_frame {s s' : EventLoop T F} {e : EventLoop.Event T F} (hloop : ∀ t, e ≠ .loop t)
    (hs : s.step e = some s') (hrun : s.running = false) :
    s'.running = false ∧ (s'.pc = .poll → s.pc = .poll ∧ s.eventfd ≤ s'.eventfd) := by
  cases EventLoop.moves_of_step hs with
  | direct cb => exact ⟨hrun, fun hpc => ⟨hpc, Nat.le_refl _⟩⟩
  | queue cb ht => exact ⟨hrun, fun hpc => ⟨hpc, Nat.le_refl _⟩⟩
  | wakeup t => exact ⟨hrun, fun hpc => ⟨hpc, Nat.le_succ _⟩⟩
  | quit t => exact ⟨rfl, fun hpc => ⟨hpc, Nat.le_refl _⟩⟩
  | loop _ => exact absurd rfl (hloop _)
  | stay htrue => exact absurd (htrue.symm.trans hrun) (by decide)
  | _ => exact ⟨hrun, fun hpc => by cases hpc⟩

theorem step_inv {t₀ : T} {s s' : Quitting T F} {e : EventLoop.Event T F} (h : Inv t₀ s)
    (hen : s.Enabled e) (hs : s.step e = some s') : Inv t₀ s' := by
  obtain ⟨loop, hloop, rfl⟩ := Option.map_eq_some_iff.mp hs
  obtain ⟨loop', hloop', hinv⟩ := EventLoop.step_spec h.loop hen
  obtain rfl := Option.some.inj (hloop'.symm.trans hloop)
  refine ⟨hinv, fun hq => ?_⟩
  obtain ⟨hq, -⟩ := Bool.or_eq_false_iff.mp hq
  simp [hq, h.polls hq]

/-- A step that is not the end of a `quit`, nor `loop` or a `poll`, keeps what `quit` has brought
    about. -/
theorem ended_quiet {s s' : Quitting T F} {e : EventLoop.Event T F} (hend : s.Ended)
    (hs : s.step e = some s') (hloop : ∀ t, e ≠ .loop t) (hpoll : isPoll e = false)
    (hquit : s.isEnd e = false) : s'.Ended := by
  obtain ⟨loop, hstep, rfl⟩ := Option.map_eq_some_iff.mp hs
  have hframe := loop_frame hloop hstep
  exact ended_of_frame hend (by simp [hquit]) (by simp [hpoll]) (fun hrun => (hframe hrun).1)
    fun hrun => (hframe hrun).2

/-- A step keeps it exactly if it is one of `Kept`. -/
theorem step_ended_iff {t₀ : T} {s s' : Quitting T F} {e : EventLoop.Event T F} (h : Inv t₀ s)
    (hend : s.Ended) (hen : s.Enabled e) (hs : s.step e = some s') : s'.Ended ↔ s.Kept e := by
  cases e with
  | wakeup t =>
    by_cases hc : s.loop.callers t = .quitting
    · obtain rfl := Option.some.inj hs
      have hkept : s.Kept (.wakeup t) ↔ s.loop.running = false :=
        ⟨fun hk => hk hc, fun hrun _ => hrun⟩
      rw [hkept]
      constructor
      · intro hend'
        exact (hend' (by simp [isEnd, hc])).1
      · intro hrun _
        have hpolls : s.polls ≤ 1 ∧ (s.loop.pc = .poll → s.polls = 0) := by
          cases hq : s.quit with
          | false => simp [h.polls hq]
          | true => exact ⟨(hend hq).2.1, fun hpc => ((hend hq).2.2 hpc).1⟩
        refine ⟨hrun, by simpa [isPoll] using hpolls.1, fun hpc => ⟨?_, Nat.succ_pos _⟩⟩
        simpa [isPoll] using hpolls.2 hpc
    · refine iff_of_true (ended_quiet hend hs (fun _ hloop => by cases hloop) rfl ?_)
        (fun hc' => absurd hc' hc)
      exact decide_eq_false hc
  | loop t =>
    obtain ⟨rfl, hpc⟩ := hen
    have hrun : ¬ s.loop.running = true := by simp [h.loop.outside hpc]
    obtain ⟨loop, hstep, rfl⟩ := Option.map_eq_some_iff.mp hs
    rw [EventLoop.step, EventLoop.loop, if_pos rfl, if_neg hrun] at hstep
    obtain rfl := Option.some.inj hstep
    show _ ↔ s.quit = false
    constructor
    · intro hend'
      by_contra hq
      exact absurd (hend' (by simpa [isEnd] using hq)).1 (by simp)
    · intro hq hq'
      exact absurd hq' (by simp [hq, isEnd])
  | poll batch =>
    obtain rfl := Option.some.inj hs
    refine iff_of_true (fun hq => ?_) trivial
    have hq : s.quit = true := by simpa [isEnd] using hq
    obtain ⟨hrun, -, hpoll⟩ := hend hq
    refine ⟨hrun, ?_, fun hpc => by cases hpc⟩
    simp [hq, isPoll, (hpoll hen.1).1]
  | _ => exact iff_of_true (ended_quiet hend hs (fun _ hloop => by cases hloop) rfl rfl) trivial

/-- **A `quit` before `loop` is lost.** In every interleaving of calls of `quit` and `runInLoop`
    with the steps of a new loop, the loop ends after a completed `quit` with at most one more
    `poll` if and only if `loop` is not entered behind a `quit`, be it completed, or only about to
    write to the eventfd. -/
theorem quit_kept_iff (t₀ : T) (es : List (EventLoop.Event T F))
    (h : Along step Enabled (start t₀) es) :
    Throughout step Ended (start t₀) es ↔ Along step Kept (start t₀) es := by
  refine throughout_iff_along (J := Inv t₀) (fun s e hinv hend hen => ?_) es (start t₀) (start_inv t₀)
    (by simp [Ended, start]) h
  obtain ⟨loop, hloop, -⟩ := EventLoop.step_spec hinv.loop hen
  obtain ⟨s', hs⟩ : ∃ s', s.step e = some s' := by
    rw [step, hloop]
    exact ⟨_, rfl⟩
  exact ⟨s', hs, step_inv hinv hen hs, step_ended_iff hinv hend hen hs⟩

/-- Thread `1` quits while the loop of thread `0` is in `poll`. -/
theorem quit_kept_sample :
    Throughout step Ended (start 0 : Quitting ℕ ℕ) [.loop 0, .test, .quit 1, .wakeup 1,
      .poll [.wakeup], .dispatch, .dispatch, .swap, .runNext, .test] := by
  have hen : Along step Enabled (start 0 : Quitting ℕ ℕ) [.loop 0, .test, .quit 1, .wakeup 1,
      .poll [.wakeup], .dispatch, .dispatch, .swap, .runNext, .test] :=
    along_step ⟨rfl, rfl⟩ rfl <| along_step rfl rfl <| along_step rfl rfl <|
      along_step (by nofun : _ ≠ _) rfl <| along_step ⟨rfl, fun _ => Nat.one_pos⟩ rfl <|
      along_step ⟨_, rfl⟩ rfl <| along_step ⟨_, rfl⟩ rfl <| along_step rfl rfl <|
      along_step ⟨_, rfl⟩ rfl <| along_step rfl rfl trivial
  exact (quit_kept_iff 0 _ hen).mpr <|
    along_step rfl rfl <| along_step trivial rfl <| along_step trivial rfl <|
      along_step (fun _ => rfl) rfl <| along_step trivial rfl <| along_step trivial rfl <|
      along_step trivial rfl <| along_step trivial rfl <| along_step trivial rfl <|
      along_step trivial rfl trivial

/-- The loop is handed out, thread `1` quits, and then thread `0` enters `loop`: it runs, and
    blocks in `poll` for good once it has read the eventfd. -/
theorem quit_lost :
    ¬ ∀ (t₀ : ℕ) (es : List (EventLoop.Event ℕ ℕ)), Along step Enabled (start t₀) es →
      Throughout step Ended (start t₀) es := by
  intro hall
  have hended := hall 0 [.quit 1, .wakeup 1, .loop 0, .test, .poll [.wakeup], .dispatch, .dispatch,
      .swap, .runNext, .test]
    (along_step rfl rfl <| along_step (by nofun : _ ≠ _) rfl <| along_step ⟨rfl, rfl⟩ rfl <|
      along_step rfl rfl <| along_step ⟨rfl, fun _ => Nat.one_pos⟩ rfl <| along_step ⟨_, rfl⟩ rfl <|
      along_step ⟨_, rfl⟩ rfl <| along_step rfl rfl <| along_step ⟨_, rfl⟩ rfl <|
      along_step rfl rfl trivial)
  have hend := hended _ _ (List.prefix_refl _) rfl rfl
  exact absurd (hend.2.2 rfl).2 (by decide)

end Quitting

end XWeb.Net
