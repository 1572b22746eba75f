import XWeb.Net.KqueueReadiness
import XWeb.Net.TimerQueue

/-!
# The poller's table over kqueue

`KqueuePoller::remove` takes a channel out of `channels_` whatever the kernel answers, and a channel
is destroyed behind its `remove`. So `poll` uses no destroyed channel, as long as a connection that
has been closed is not registered again.

* `Orderly`: what is asked of a step for that.
* `Current`: the entries of `channels_` are live channels; `step_current`: a step keeps it so.
* `Sound.step`: an orderly step that spares the batch is made.
* `poll_current`: `poll` succeeds, whatever `kevent` reports.
-/

namespace XWeb.Net.Reactor

open XWeb.Lib

/-- A timer gets a new id, and a connection is registered only while `conn_map_` has it. -/
def Orderly (r : Reactor KqueuePoller) : ReactorEvent Unit (List Kevent) → Prop
  | .act (.addTimer fd _ _ _ _) => r.timers fd = none
  | .act (.setEvent p _ _) => .connMap ∈ (r.conns p).owners
  | _ => True

instance (r : Reactor KqueuePoller) (e : ReactorEvent Unit (List Kevent)) :
    Decidable (r.Orderly e) := by
  unfold Orderly
  split <;> infer_instance

/-- An entry of `channels_` is a channel that has not been destroyed, and a connection's only while
    `conn_map_` has the connection. -/
def Current (r : Reactor KqueuePoller) : Prop :=
  ∀ fd p, r.poller.channels fd = some p →
    r.heap.Live p ∧ ((r.conns p).Alive → .connMap ∈ (r.conns p).owners)

theorem init_current (wakeupFd : ℤ) : Current (init (KqueuePoller.construct wakeupFd)) := by
  intro fd p hp
  exact absurd hp (by nofun)

variable {r r' : Reactor KqueuePoller} {p : ℕ}

theorem Current.create (h : r.Current) (hinv : r.Inv) (c : Channel) (u : Unit) :
    (r.create kqueuePoller c u).Current := by
  intro fd p hp
  rcases KqueuePoller.tabled.update_channels r.poller u r.heap.next c fd p hp with ⟨rfl, -⟩ | hold
  · refine ⟨Heap.live_alloc_self r.heap _, fun halive => ?_⟩
    exact absurd (hinv.conns_live _ halive).lt_next (Nat.lt_irrefl _)
  · obtain ⟨hlive, howned⟩ := h fd p hold
    exact ⟨hlive.alloc _, howned⟩

/-- A channel that is not in the table may go. -/
theorem Current.free (h : r.Current) (hp : ∀ fd, r.poller.channels fd ≠ some p) :
    Current { r with heap := r.heap.free p } := by
  intro fd q hq
  obtain ⟨hlive, howned⟩ := h fd q hq
  exact ⟨hlive.free fun he => hp fd (he ▸ hq), howned⟩

/-- What `remove` leaves, and the channel is not among it. -/
theorem Current.remove (h : r.Current) (hreg : r.RegisteredIn KqueuePoller.channels) {c : Channel}
    (hc : r.heap.cell p = some c) {u : Unit} {poller : KqueuePoller}
    (hs : kqueuePoller.remove r.poller u c = some poller) :
    Current { r with poller := poller } ∧ ∀ fd, poller.channels fd ≠ some p := by
  have hkept := KqueuePoller.tabled.remove_channels r.poller u c poller hs
  refine ⟨fun fd q hq => h fd q (hkept fd q hq), fun fd hfd => ?_⟩
  obtain rfl : c.fd = fd := (hreg fd p (hkept fd p hfd)).2 c hc
  have hnone := KqueuePoller.erases.erased r.poller u c poller trivial trivial hs
  exact absurd (hfd.symm.trans hnone) (Option.some_ne_none p)

/-- The owners of a connection change. If `conn_map_` lets go of it, it is not in the table. -/
theorem Current.setConn (h : r.Current) {owners : Shared Holder}
    (hp : (∀ fd, r.poller.channels fd ≠ some p) ∨ (.connMap ∈ (r.conns p).owners ∨
      ¬ (r.conns p).Alive → .connMap ∈ owners.owners)) :
    Current { r with conns := Function.update r.conns p owners } := by
  intro fd q hq
  obtain ⟨hlive, howned⟩ := h fd q hq
  refine ⟨hlive, fun halive => ?_⟩
  rcases eq_or_ne q p with rfl | hne
  · simp only [Function.update_self] at halive ⊢
    rcases hp with hp | hp
    · exact absurd hq (hp fd)
    · exact hp (or_iff_not_imp_right.mpr fun hnot => howned (not_not.mp hnot))
  · simp only [Function.update_of_ne hne] at halive ⊢
    exact howned halive

theorem Current.poll (h : r.Current) {events : List Kevent} {ret : List ℕ} {heap : Heap Channel}
    (hs : kqueuePoller.poll r.poller events r.heap = some (ret, heap)) :
    Current { r with heap := heap, active := ret, calls := [] } := by
  intro fd p hp
  obtain ⟨hlive, howned⟩ := h fd p hp
  exact ⟨((kqueuePoller.poll_live hs).1 p).mpr hlive, howned⟩

theorem act_current (hinv : r.Inv) (hreg : r.RegisteredIn KqueuePoller.channels) (h : r.Current)
    {a : Action Unit} (hleg : r.ActLegal kqueuePoller a) (hord : r.Orderly (.act a))
    (hs : r.act kqueuePoller a = some r') : r'.Current := by
  cases a with
  | addTimer fd interval isRepeat junk u =>
    obtain ⟨-, rfl⟩ | ⟨old, hold, -⟩ := addTimer_cases hs
    · exact h.create hinv _ u
    · exact absurd (hold.symm.trans hord) (Option.some_ne_none old)
  | cancel id u =>
    obtain ⟨-, rfl⟩ | ⟨p, c, poller, -, hc, hrem, -, rfl⟩ := cancel_cases hs
    · exact h
    · obtain ⟨hkept, hgone⟩ := h.remove hreg hc hrem
      exact hkept.free hgone
  | attach fd isListen junk u =>
    cases hs
    exact h.create hinv _ u
  | newConnection fd junk u =>
    cases hs
    exact (h.create hinv _ u).setConn (Or.inr fun _ => List.mem_singleton_self _)
  | setEvent p event u =>
    obtain ⟨c, hc, rfl⟩ := setEvent_cases hs
    intro fd q hq
    rw [Heap.live_set]
    rcases KqueuePoller.tabled.update_channels r.poller u p (c.setEvent event) fd q hq
      with ⟨rfl, -⟩ | hold
    · exact ⟨Heap.live_of_cell hc, fun _ => hord⟩
    · exact h fd q hold
  | endOfFile u =>
    obtain ⟨p, c, poller, -, hc, hrem, -, rfl⟩ := endOfFile_cases hs
    obtain ⟨hkept, hgone⟩ := h.remove hreg hc hrem
    exact hkept.setConn (Or.inl hgone)
  | hold p =>
    cases hs
    refine h.setConn (Or.inr ?_)
    rintro (hmap | hdead)
    · exact List.mem_cons_of_mem _ hmap
    · exact absurd hleg hdead
  | drop p =>
    have hmap : .connMap ∈ (r.conns p).owners ∨ ¬ (r.conns p).Alive →
        .connMap ∈ ((r.conns p).release .user).owners := by
      rintro (hmap | hdead)
      · exact Shared.mem_release hmap (by decide)
      · exact absurd (Shared.alive_of_mem hleg) hdead
    obtain ⟨-, rfl⟩ | ⟨hdead, -, rfl⟩ := release_cases hs
    · exact h.setConn (Or.inr hmap)
    · -- only user code has owned it, and it is not in the table
      have hgone : ∀ fd, r.poller.channels fd ≠ some p := by
        intro fd hfd
        have hlast := hmap (Or.inl ((h fd p hfd).2 (Shared.alive_of_mem hleg)))
        exact hdead (Shared.alive_of_mem hlast)
      exact (h.free hgone).setConn (Or.inl hgone)

theorem step_current (hinv : r.Inv) (hreg : r.RegisteredIn KqueuePoller.channels) (h : r.Current)
    {e : ReactorEvent Unit (List Kevent)} (hleg : r.Legal kqueuePoller e) (hord : r.Orderly e)
    (hs : step kqueuePoller r e = some r') : r'.Current := by
  cases e with
  | poll events =>
    obtain ⟨⟨ret, heap⟩, hpoll, rfl⟩ := Option.map_eq_some_iff.mp hs
    exact h.poll hpoll
  | begin =>
    obtain ⟨q, rest, c, -, -, rfl⟩ := begin_cases hs
    exact h
  | act a => exact act_current hinv hreg h hleg.2 hord hs
  | finish =>
    cases hs
    exact h

/-- What makes `poll` and `remove` succeed. -/
structure Sound (r : Reactor KqueuePoller) : Prop where
  inv : r.Inv
  removable : r.Removable kqueuePoller
  registered : r.RegisteredIn KqueuePoller.channels
  current : r.Current

theorem init_sound (wakeupFd : ℤ) : Sound (init (KqueuePoller.construct wakeupFd)) where
  inv := init_inv _
  removable := init_removable kqueuePoller _
  registered := fun _ _ hp => by cases hp
  current := init_current wakeupFd

theorem Sound.step (h : r.Sound) {e : ReactorEvent Unit (List Kevent)}
    (hleg : r.Legal kqueuePoller e) (hsp : r.Spares e) (hord : r.Orderly e) :
    ∃ r', Reactor.step kqueuePoller r e = some r' ∧ r'.Sound := by
  obtain ⟨r', hs, hinv⟩ := step_spec h.inv h.removable hleg hsp
  exact ⟨r', hs, hinv, step_removable h.removable hleg hs,
    step_registeredIn KqueuePoller.tabled h.registered hs,
    step_current h.inv h.registered h.current hleg hord hs⟩

/-- `poll` finds a live channel for every event, or none. -/
theorem poll_current (h : r.Current) (events : List Kevent) :
    (kqueuePoller.poll r.poller events r.heap).isSome = true := by
  obtain ⟨s, hs⟩ := reportAll_total Kevent.ident (fun ev _ => KqueuePoller.translate ev.filter)
    (s := ([], r.heap)) (fun fd p hp => (h fd p hp).1) events
  exact Option.isSome_iff_exists.mpr ⟨s, hs⟩

end XWeb.Net.Reactor
