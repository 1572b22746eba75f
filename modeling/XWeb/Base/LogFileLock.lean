import XWeb.Lib.Sections

/-!
# Threads that use a `LogFile`

`LogFile::append` and `LogFile::flush` (`base/log_file.cpp` lines 85–103) decide for themselves
whether they take `mtx_`. The section of a call is the body of `append_unlocked` or the flush of
`file_`, which read and replace `file_`, `count_`, `lastFlush_` and `lastRoll_`; what the body
does to them is in `XWeb.Base.LogFile`.

* `LogCall.locks`: which calls take `mtx_`.
* `sections_exclusive_iff`, `thread_safe_exclusive_iff`: when no two threads are in their sections
  together.
-/

namespace XWeb.Base

open XWeb.Lib

/-- A call of a `LogFile`. -/
inductive LogCall
  | append
  | flush
  deriving DecidableEq

/-- The test of `threadSafe_`: `append` (line 86) negates it, `flush` (line 97) does not. -/
def LogCall.locks (threadSafe : Bool) : LogCall → Bool
  | .append => !threadSafe
  | .flush => threadSafe

/-- The call that does not take `mtx_`. -/
def LogCall.unlocked (threadSafe : Bool) : LogCall := if threadSafe then .append else .flush

theorem LogCall.locks_eq_false_iff (threadSafe : Bool) (c : LogCall) :
    c.locks threadSafe = false ↔ c = unlocked threadSafe := by
  cases threadSafe <;> cases c <;> decide

variable {T : Type*} [DecidableEq T]

/-- In both modes one of the two calls goes without `mtx_`. If a thread makes it, no other thread
    may make any call. -/
theorem sections_exclusive_iff (threadSafe : Bool) (calls : T → List LogCall) :
    (∀ es s, run (Sections.step (LogCall.locks threadSafe)) (Sections.init calls) es = some s →
      s.Exclusive) ↔
      ∀ t u, t ≠ u → LogCall.unlocked threadSafe ∈ calls t → calls u = [] := by
  rw [Sections.exclusive_iff]
  simp only [LogCall.locks_eq_false_iff, exists_eq_right]

/-- **When a thread-safe `LogFile` is mutually exclusive.** Given the calls that each thread makes
    on a `LogFile` with `threadSafe_` set, in all interleavings at most one thread is in
    `append_unlocked` or in the flush of `file_`, exactly if a thread that calls `append` is the
    only one that makes calls. -/
theorem thread_safe_exclusive_iff (calls : T → List LogCall) :
    (∀ es s, run (Sections.step (LogCall.locks true)) (Sections.init calls) es = some s →
      s.Exclusive) ↔
      ∀ t u, t ≠ u → .append ∈ calls t → calls u = [] :=
  sections_exclusive_iff true calls

/-- Two threads that call `append` once are in `append_unlocked` together. -/
theorem appends_overlap :
    ¬ ∀ es s, run (Sections.step (LogCall.locks true)) (Sections.init fun _ : Bool => [.append])
      es = some s → s.Exclusive := by
  intro hall
  have hrun := hall [.call true, .call false] _ rfl
  exact absurd (hrun true false .append .append rfl rfl) (by decide)

end XWeb.Base
