import XWeb.Lib.Heap
import XWeb.Net.Channel

/-!
# The interface of the pollers

`Poller` is `net/poller.h` as the loop thread uses it. Channels are objects of a heap, a
`Channel*` is an address. Both backends look up the channel of a reported descriptor in
`channels_`, set its active events and add it to the vector that is returned: this round is
`report`.

* `report_cases`: what a round does.
* `reportAll_total`: a loop of such rounds gets through.
* `reportAll_induct`, `reportAll_live`, `reportAll_cells`, `reportAll_events`: what it keeps.
* `reportAll_mem`: which channels it returns.
-/

namespace XWeb.Net

open XWeb.Lib

/-- `class Poller` over states `σ`. A call to the kernel takes its answers from `ω`, a wait
    reports an `ι`. `poll` fails when it uses a channel that has been destroyed; otherwise it
    returns live channels and only changes their active events. `remove` may fail on a channel
    whose mask it is not made for: one that does not fit. -/
structure Poller (σ ω ι : Type*) where
  update : σ → ω → ℕ → Channel → σ × Channel
  remove : σ → ω → Channel → Option σ
  poll : σ → ι → Heap Channel → Option (List ℕ × Heap Channel)
  fits : Flags → Bool
  update_events : ∀ s a p (c : Channel), (update s a p c).2.events = c.events
  remove_fits : ∀ s a (c : Channel), fits c.events = true → ∃ s', remove s a c = some s'
  fits_of_two : ∀ events, (has events CHANNEL_READ && has events CHANNEL_WRITE &&
    has events CHANNEL_TIMER) = false → fits events = true
  poll_live : ∀ {s i h ret h'}, poll s i h = some (ret, h') →
    (∀ p, h'.Live p ↔ h.Live p) ∧ ∀ p ∈ ret, h'.Live p
  poll_events : ∀ {s i h ret h'}, poll s i h = some (ret, h') → ∀ p c', h'.cell p = some c' →
    ∃ c, h.cell p = some c ∧ c'.events = c.events

/-- A round of the loop in `poll` for the descriptor `fd`; `evt` is what becomes active. -/
def report (channels : ℤ → Option ℕ) (fd : ℤ) (evt : Channel → Flags) (s : List ℕ × Heap Channel) :
    Option (List ℕ × Heap Channel) :=
  match channels fd with
  | none => some s
  | some p => (s.2.cell p).map fun c => (s.1 ++ [p], s.2.set p (c.setActiveEvent (evt c)))

variable {channels : ℤ → Option ℕ} {fd : ℤ} {evt : Channel → Flags} {s s' : List ℕ × Heap Channel}

theorem report_cases (hs : report channels fd evt s = some s') :
    (channels fd = none ∧ s' = s) ∨ ∃ p c, channels fd = some p ∧ s.2.cell p = some c ∧
      s' = (s.1 ++ [p], s.2.set p (c.setActiveEvent (evt c))) := by
  unfold report at hs
  split at hs
  · rename_i hnone
    exact Or.inl ⟨hnone, (Option.some.inj hs).symm⟩
  · rename_i p hp
    obtain ⟨c, hc, rfl⟩ := Option.map_eq_some_iff.mp hs
    exact Or.inr ⟨p, c, hp, hc, rfl⟩

/-! ## The loop -/

variable {ε : Type*} (key : ε → ℤ) (mask : ε → Channel → Flags)

/-- An invariant of every round is one of the loop. -/
theorem reportAll_induct {I : List ℕ × Heap Channel → Prop}
    (hstep : ∀ s s' ev, I s → report channels (key ev) (mask ev) s = some s' → I s') :
    ∀ (events : List ε) (s s' : List ℕ × Heap Channel), I s →
      events.foldlM (fun s ev => report channels (key ev) (mask ev) s) s = some s' → I s' := by
  intro events
  induction events with
  | nil =>
    intro s s' hI hs
    obtain rfl : s = s' := Option.some.inj hs
    exact hI
  | cons ev events ih =>
    intro s s' hI hs
    obtain ⟨s₁, hs₁, hs⟩ := Option.bind_eq_some_iff.mp hs
    exact ih s₁ s' (hstep s s₁ ev hI hs₁) hs

/-- The loop gets through if the channels of the table are live. -/
theorem reportAll_total (hlive : ∀ fd p, channels fd = some p → s.2.Live p) (events : List ε) :
    ∃ s', events.foldlM (fun s ev => report channels (key ev) (mask ev) s) s = some s' := by
  induction events generalizing s with
  | nil => exact ⟨s, rfl⟩
  | cons ev events ih =>
    have hround : ∃ s₁, report channels (key ev) (mask ev) s = some s₁ ∧
        ∀ p, s₁.2.Live p ↔ s.2.Live p := by
      unfold report
      cases hp : channels (key ev) with
      | none => exact ⟨s, rfl, fun _ => Iff.rfl⟩
      | some p =>
        obtain ⟨c, hc⟩ := Heap.live_iff.mp (hlive (key ev) p hp)
        exact ⟨(s.1 ++ [p], s.2.set p (c.setActiveEvent (mask ev c))), by simp only [hc, Option.map_some],
          fun _ => Heap.live_set⟩
    obtain ⟨s₁, hs₁, hsame⟩ := hround
    obtain ⟨s', hs'⟩ := ih fun fd p hp => (hsame p).mpr (hlive fd p hp)
    exact ⟨s', by rw [List.foldlM_cons, hs₁]; exact hs'⟩

theorem reportAll_live {events : List ε} {h h' : Heap Channel} {ret : List ℕ}
    (hs : events.foldlM (fun s ev => report channels (key ev) (mask ev) s) ([], h) =
      some (ret, h')) :
    (∀ p, h'.Live p ↔ h.Live p) ∧ ∀ p ∈ ret, h'.Live p := by
  refine reportAll_induct key mask
    (I := fun s => (∀ p, s.2.Live p ↔ h.Live p) ∧ ∀ p ∈ s.1, s.2.Live p) ?_ events ([], h) (ret, h') ⟨fun _ => Iff.rfl, by simp⟩ hs
  intro s s' ev ⟨hlive, hret⟩ hstep
  obtain ⟨-, rfl⟩ | ⟨p, c, -, hc, rfl⟩ := report_cases hstep
  · exact ⟨hlive, hret⟩
  · refine ⟨fun q => Heap.live_set.trans (hlive q), fun q hq => Heap.live_set.mpr ?_⟩
    rcases List.mem_append.mp hq with hq | hq
    · exact hret q hq
    · rw [List.mem_singleton.mp hq]
      exact Heap.live_of_cell hc

/-- The loop makes no channel, and changes at most the active events of one. -/
theorem reportAll_cells {events : List ε} {h h' : Heap Channel} {ret : List ℕ}
    (hs : events.foldlM (fun s ev => report channels (key ev) (mask ev) s) ([], h) =
      some (ret, h')) :
    h'.next = h.next ∧ ∀ p c', h'.cell p = some c' →
      ∃ c x, h.cell p = some c ∧ c' = c.setActiveEvent x := by
  refine reportAll_induct key mask (I := fun s => s.2.next = h.next ∧ ∀ p c', s.2.cell p = some c' →
    ∃ c x, h.cell p = some c ∧ c' = c.setActiveEvent x) ?_ events ([], h) (ret, h')
    ⟨rfl, fun p c' hc' => ⟨c', c'.activeEvents, hc', rfl⟩⟩ hs
  intro s s' ev ⟨hnext, hI⟩ hstep
  obtain ⟨-, rfl⟩ | ⟨q, c, -, hc, rfl⟩ := report_cases hstep
  · exact ⟨hnext, hI⟩
  · refine ⟨hnext, fun p d hd => ?_⟩
    rcases eq_or_ne p q with rfl | hne
    · obtain ⟨c₀, x, hc₀, rfl⟩ := hI p c hc
      obtain rfl := Option.some.inj ((Heap.cell_set_self (Heap.live_of_cell hc) _).symm.trans hd)
      exact ⟨c₀, _, hc₀, rfl⟩
    · exact hI p d ((Heap.cell_set_of_ne s.2 hne _).symm.trans hd)

theorem reportAll_events {events : List ε} {h h' : Heap Channel} {ret : List ℕ}
    (hs : events.foldlM (fun s ev => report channels (key ev) (mask ev) s) ([], h) =
      some (ret, h')) (p : ℕ) (c' : Channel) (hc' : h'.cell p = some c') :
    ∃ c, h.cell p = some c ∧ c'.events = c.events := by
  obtain ⟨c, x, hc, rfl⟩ := (reportAll_cells key mask hs).2 p c' hc'
  exact ⟨c, hc, rfl⟩

/-- The channels that are returned are those of the events. -/
theorem reportAll_mem {events : List ε} {s s' : List ℕ × Heap Channel}
    (hs : events.foldlM (fun s ev => report channels (key ev) (mask ev) s) s = some s') :
    ∀ p ∈ s'.1, p ∈ s.1 ∨ ∃ ev ∈ events, channels (key ev) = some p := by
  induction events generalizing s with
  | nil =>
    obtain rfl : s = s' := Option.some.inj hs
    intro p hp
    exact Or.inl hp
  | cons ev events ih =>
    intro p hp
    obtain ⟨s₁, hs₁, hs⟩ := Option.bind_eq_some_iff.mp hs
    rcases ih hs p hp with hmem | ⟨ev', hev', hch⟩
    · obtain ⟨-, rfl⟩ | ⟨q, c, hq, -, rfl⟩ := report_cases hs₁
      · exact Or.inl hmem
      · rcases List.mem_append.mp hmem with hmem | hmem
        · exact Or.inl hmem
        · rw [List.mem_singleton.mp hmem]
          exact Or.inr ⟨ev, List.mem_cons_self, hq⟩
    · exact Or.inr ⟨ev', List.mem_cons_of_mem ev hev', hch⟩

end XWeb.Net
