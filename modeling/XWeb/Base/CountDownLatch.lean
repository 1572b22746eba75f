import XWeb.Lib.CInt
import XWeb.Lib.Monitor

/-!
# `CountDownLatch`

Model of `base/countdown_latch.cpp`. The bodies of `wait`, `countDown` and `getCount` are a
program for a monitor with `mutex_` and `cond_`. `count_` is an `int`; past the least `int` it
wraps here.

* `CountDownLatch.code`: the bodies.
* `CountDownLatch.sound`: why they are right; who has counted down to zero owes a `notify_all`.
* `barrier`: when `wait` returns and who sleeps, in every run.
-/

namespace XWeb.Base

open XWeb.Lib

/-- `count_`; and, for the record, how many calls of `countDown` have decremented it, and how many
    had at the time of each return of `wait`. -/
structure CountDownLatch where
  count : ℤ
  decrements : ℕ
  returned : List ℕ
  deriving DecidableEq

namespace CountDownLatch

/-- The constructor (lines 3–8). -/
def construct (count : ℤ) : CountDownLatch := ⟨count, 0, []⟩

/-- Where a thread is in the body of a call. -/
inductive Point
  /-- in `wait`, before the test of line 13 -/
  | test
  /-- in `countDown`, before line 22 -/
  | decrement
  /-- in `countDown`, before the test of line 23 -/
  | testZero
  /-- in `countDown`, before the end -/
  | done
  /-- in `getCount`, before line 32 -/
  | read
  deriving DecidableEq

/-- Where the calls begin. -/
def entry : Point → Bool
  | .test | .decrement | .read => true
  | .testZero | .done => false

/-- The bodies of the calls. A wait that ends goes back to the test. -/
def code : Point → CountDownLatch → CountDownLatch × Control Point
  | .test, d =>
    if d.count > 0 then (d, .wait .test)
    else ({ d with returned := d.decrements :: d.returned }, .leave)
  | .decrement, d =>
    ({ d with count := toInt (d.count - 1), decrements := d.decrements + 1 }, .goto .testZero)
  | .testZero, d => if d.count = 0 then (d, .notifyAll .done) else (d, .leave)
  | .done, d => (d, .leave)
  | .read, d => (d, .leave)

/-- A latch that was constructed with `count`: `count_` is what is left of it, and no `wait` has
    returned before there was nothing left. -/
structure Counts (count : ℤ) (d : CountDownLatch) : Prop where
  count_eq : d.count = toInt (count - d.decrements)
  returned : ∀ n ∈ d.returned, max count 0 ≤ n

theorem toInt_sub_one (n : ℤ) : toInt (toInt n - 1) = toInt (n - 1) := by
  unfold toInt
  exact Int.bmod_sub_bmod

variable {count : ℤ} {d : CountDownLatch}

theorem construct_counts (h : -2 ^ 31 ≤ count) (h' : count < 2 ^ 31) :
    Counts count (construct count) := by
  refine ⟨?_, fun n hn => absurd hn List.not_mem_nil⟩
  simp only [construct, Nat.cast_zero, sub_zero]
  exact (toInt_of_le_of_lt h h').symm

theorem Counts.decrement (h : Counts count d) :
    Counts count { d with count := toInt (d.count - 1), decrements := d.decrements + 1 } := by
  refine ⟨?_, h.returned⟩
  simp only [h.count_eq, toInt_sub_one]
  congr 1
  omega

/-- `count_` is positive as long as not enough calls have decremented it. -/
theorem Counts.max_le (h : Counts count d) (hcount : count < 2 ^ 31) (hle : d.count ≤ 0) :
    max count 0 ≤ d.decrements := by
  by_contra hlt
  have hleft : toInt (count - d.decrements) = count - d.decrements :=
    toInt_of_le_of_lt (by omega) (by omega)
  rw [h.count_eq, hleft] at hle
  omega

/-- A sleeper sleeps while `count_` is positive. -/
def assertions (count : ℤ) : Monitor.Assertions Point CountDownLatch where
  free := Counts count
  inside _ := Counts count
  asleep _ d := 0 < d.count
  owes p d := p = .testZero ∧ d.count = 0
  resumes _ := True

/-- From above zero `countDown` comes to zero or stays above it. -/
theorem decrement_pos (h : Counts count d) (hpos : 0 < d.count) :
    0 < toInt (d.count - 1) ∨ toInt (d.count - 1) = 0 := by
  have hrange := toInt_bounds (count - d.decrements)
  rw [← h.count_eq] at hrange
  rw [toInt_of_le_of_lt (by omega) (by omega)]
  omega

theorem sound (hcount : count < 2 ^ 31) : (assertions count).Sound entry code where
  of_entry _ _ := trivial
  enter _ _ _ h := h
  exec p d h := by
    cases p with
    | test =>
      simp only [code]
      split
      · next hpos => exact ⟨h, trivial, hpos, fun _ _ => Or.inl hpos⟩
      · next hle =>
        refine ⟨⟨h.count_eq, fun n hn => ?_⟩, fun _ hr => Or.inl (hr.resolve_right (by nofun))⟩
        rcases List.mem_cons.mp hn with rfl | hn
        · exact h.max_le hcount (Int.not_lt.mp hle)
        · exact h.returned n hn
    | decrement =>
      refine ⟨h.decrement, fun _ hr => ?_⟩
      exact (decrement_pos h (hr.resolve_right (by nofun))).imp id (And.intro rfl)
    | testZero =>
      simp only [code]
      split
      · exact h
      · next hne => exact ⟨h, fun _ hr => Or.inl (hr.resolve_right fun hz => hne hz.2)⟩
    | done => exact ⟨h, fun _ hr => Or.inl (hr.resolve_right (by nofun))⟩
    | read => exact ⟨h, fun _ hr => Or.inl (hr.resolve_right (by nofun))⟩

variable {T : Type*} [DecidableEq T]

/-- **The latch is a barrier.** For every initial count, in every interleaving of calls of `wait`,
    `countDown` and `getCount` by any threads, with spurious wakeups: no `wait` returns before the
    calls of `countDown` have decremented `count_` as often as it says, and when `count_` is not
    positive and `mutex_` is free, nobody sleeps on `cond_`. -/
theorem barrier (h : -2 ^ 31 ≤ count) (h' : count < 2 ^ 31) {es : List (MonitorEvent T Point)}
    {s : Monitor T Point CountDownLatch}
    (hrun : run (Monitor.step entry code) (Monitor.init (construct count)) es = some s) :
    (∀ n ∈ s.data.returned, max count 0 ≤ n) ∧
      (s.data.count ≤ 0 → s.mutex = none → ∀ t p, s.places t ≠ .asleep p) := by
  obtain ⟨holder, hinv⟩ := Monitor.run_inv (sound h') (construct_counts h h') hrun
  constructor
  · cases holder with
    | none => exact hinv.held.2.returned
    | some x => exact hinv.held.2.2.returned
  · intro hle hfree t p ht
    have hpos : 0 < s.data.count := hinv.asleep hfree ht
    omega

/-- A thread waits, wakes up for no reason and sleeps again; another counts down to zero; the first
    returns. -/
def waitForOther : List (MonitorEvent Bool Point) :=
  [.call true .test, .lock true, .exec true, .wake true, .lock true, .exec true,
    .call false .decrement, .lock false, .exec false, .exec false, .exec false, .lock true,
    .exec true]

theorem barrier_sample :
    ∃ s, run (Monitor.step entry code) (Monitor.init (construct 1)) waitForOther = some s ∧
      s.data = ⟨0, 1, [1]⟩ ∧ (∀ n ∈ s.data.returned, max 1 0 ≤ (n : ℤ)) ∧
      (s.data.count ≤ 0 → s.mutex = none → ∀ t p, s.places t ≠ .asleep p) := by
  obtain ⟨s, hrun, hdata⟩ : ∃ s, run (Monitor.step entry code) (Monitor.init (construct 1))
      waitForOther = some s ∧ s.data = ⟨0, 1, [1]⟩ := ⟨_, rfl, rfl⟩
  exact ⟨s, hrun, hdata, barrier (by decide) (by decide) hrun⟩

end CountDownLatch

end XWeb.Base
