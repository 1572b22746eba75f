import XWeb.Lib.Run
import XWeb.Net.Reactor

/-!
# Channels and the table of the poller

What a reactor keeps about its channels whatever backend it runs over. `Tabled` says of a poller
that `channels_` is changed by `update` and `remove` as both backends change it.

* `act_cell`, `act_batch`, `act_channels`: what an action does to a channel, to the batch, and to
  `channels_`.
* `step_registeredIn`, `run_registeredIn`: an entry of `channels_` is a channel with that
  descriptor.
-/

namespace XWeb.Net

open XWeb.Lib

/-- The channel is the same but for its interest. -/
def Channel.Alike (c c' : Channel) : Prop :=
  c'.fd = c.fd ∧ c'.isListenFd = c.isListenFd ∧ c'.activeEvents = c.activeEvents

theorem Channel.Alike.refl (c : Channel) : c.Alike c := ⟨rfl, rfl, rfl⟩

theorem Channel.Alike.handleEvent {c c' : Channel} (h : c.Alike c') :
    c'.handleEvent = c.handleEvent := by
  obtain ⟨-, hl, ha⟩ := h
  unfold Channel.handleEvent
  rw [hl, ha]

variable {σ ω ι : Type*}

/-- A new entry of `channels` is the channel that is updated; `remove` and `poll` make none. -/
structure Tabled (P : Poller σ ω ι) (channels : σ → ℤ → Option ℕ) : Prop where
  update_alike : ∀ s a p (c : Channel), c.Alike (P.update s a p c).2
  update_channels : ∀ s a p c fd q, channels (P.update s a p c).1 fd = some q →
    q = p ∧ fd = c.fd ∨ channels s fd = some q
  remove_channels : ∀ s a c s', P.remove s a c = some s' →
    ∀ fd q, channels s' fd = some q → channels s fd = some q
  poll_cells : ∀ s i h ret h', P.poll s i h = some (ret, h') →
    h'.next = h.next ∧ ∀ p c', h'.cell p = some c' → ∃ c x, h.cell p = some c ∧
      c' = c.setActiveEvent x

namespace Reactor

variable {P : Poller σ ω ι} {channels : σ → ℤ → Option ℕ} {r r' : Reactor σ} {a : Action ω}

/-! ## One action -/

/-- A channel that is there after an action was there before, or is new. -/
theorem act_cell (hP : Tabled P channels) (hs : r.act P a = some r') {p : ℕ} (hp : p < r.heap.next)
    {c' : Channel} (hc' : r'.heap.cell p = some c') : ∃ c, r.heap.cell p = some c ∧ c.Alike c' := by
  have hcreate : ∀ (c : Channel) (a : ω), (r.create P c a).heap.cell p = r.heap.cell p :=
    fun c a => Function.update_of_ne (Nat.ne_of_lt hp) ..
  have hfree : ∀ (h : Heap Channel) (q : ℕ), (h.free q).cell p = some c' → h.cell p = some c' := by
    intro h q hc
    rcases Heap.cell_free h q p with heq | hnone
    · exact heq.symm.trans hc
    · exact absurd (hnone.symm.trans hc) (by nofun)
  have hsame : r.heap.cell p = some c' → ∃ c, r.heap.cell p = some c ∧ c.Alike c' :=
    fun hc => ⟨c', hc, Channel.Alike.refl c'⟩
  cases a with
  | addTimer fd interval isRepeat junk a =>
    obtain ⟨-, rfl⟩ | ⟨old, -, -, rfl⟩ := addTimer_cases hs
    · exact hsame ((hcreate _ a).symm.trans hc')
    · exact hsame ((hcreate _ a).symm.trans (hfree _ old hc'))
  | cancel id a =>
    obtain ⟨-, rfl⟩ | ⟨q, c, poller, -, -, -, -, rfl⟩ := cancel_cases hs
    · exact hsame hc'
    · exact hsame (hfree _ q hc')
  | attach fd isListen junk a =>
    cases hs
    exact hsame ((hcreate _ a).symm.trans hc')
  | newConnection fd junk a =>
    cases hs
    exact hsame ((hcreate _ a).symm.trans hc')
  | setEvent q event a =>
    obtain ⟨c, hc, rfl⟩ := setEvent_cases hs
    rcases eq_or_ne p q with rfl | hne
    · refine ⟨c, hc, ?_⟩
      rw [← Option.some.inj ((Heap.cell_set_self (Heap.live_of_cell hc) _).symm.trans hc')]
      exact hP.update_alike r.poller a p (c.setEvent event)
    · exact hsame ((Heap.cell_set_of_ne r.heap hne _).symm.trans hc')
  | endOfFile a =>
    obtain ⟨q, c, poller, -, -, -, -, rfl⟩ := endOfFile_cases hs
    exact hsame hc'
  | hold q => cases hs; exact hsame hc'
  | drop q =>
    obtain ⟨-, rfl⟩ | ⟨-, -, rfl⟩ := release_cases hs
    · exact hsame hc'
    · exact hsame (hfree _ q hc')

/-- An action does not touch the batch, and addresses are not used again. -/
theorem act_batch (hs : r.act P a = some r') :
    r.heap.next ≤ r'.heap.next ∧ r'.active = r.active ∧ r'.calls = r.calls := by
  have hgrow : r.heap.next ≤ r.heap.next + 1 := Nat.le_succ _
  cases a with
  | addTimer fd interval isRepeat junk a =>
    obtain ⟨-, rfl⟩ | ⟨old, -, -, rfl⟩ := addTimer_cases hs <;> exact ⟨hgrow, rfl, rfl⟩
  | cancel id a =>
    obtain ⟨-, rfl⟩ | ⟨q, c, poller, -, -, -, -, rfl⟩ := cancel_cases hs <;> exact ⟨le_rfl, rfl, rfl⟩
  | attach fd isListen junk a => cases hs; exact ⟨hgrow, rfl, rfl⟩
  | newConnection fd junk a => cases hs; exact ⟨hgrow, rfl, rfl⟩
  | setEvent q event a => obtain ⟨c, -, rfl⟩ := setEvent_cases hs; exact ⟨le_rfl, rfl, rfl⟩
  | endOfFile a =>
    obtain ⟨q, c, poller, -, -, -, -, rfl⟩ := endOfFile_cases hs
    exact ⟨le_rfl, rfl, rfl⟩
  | hold q => cases hs; exact ⟨le_rfl, rfl, rfl⟩
  | drop q => obtain ⟨-, rfl⟩ | ⟨-, -, rfl⟩ := release_cases hs <;> exact ⟨le_rfl, rfl, rfl⟩

/-- An entry of `channels` after an action is an old one, or for a channel that was made or updated
    with this descriptor. -/
theorem act_channels (hP : Tabled P channels) (hs : r.act P a = some r') {fd : ℤ} {p : ℕ}
    (hp : channels r'.poller fd = some p) :
    channels r.poller fd = some p ∨ p < r'.heap.next ∧ ∀ c, r'.heap.cell p = some c → c.fd = fd := by
  have hcreate : ∀ (c : Channel) (a : ω), channels (r.create P c a).poller fd = some p →
      channels r.poller fd = some p ∨ p < r.heap.next + 1 ∧
        ∀ d, (r.create P c a).heap.cell p = some d → d.fd = fd := by
    intro c a hnew
    rcases hP.update_channels r.poller a r.heap.next c fd p hnew with ⟨rfl, rfl⟩ | hold
    · refine Or.inr ⟨Nat.lt_succ_self _, fun d hd => ?_⟩
      rw [← Option.some.inj ((Heap.cell_alloc_self r.heap _).symm.trans hd)]
      exact (hP.update_alike r.poller a r.heap.next c).1
    · exact Or.inl hold
  cases a with
  | addTimer tfd interval isRepeat junk a =>
    obtain ⟨-, rfl⟩ | ⟨old, -, -, rfl⟩ := addTimer_cases hs
    · exact hcreate _ a hp
    · rcases hcreate _ a hp with hold | ⟨hlt, hfd⟩
      · exact Or.inl hold
      · refine Or.inr ⟨hlt, fun c hc => hfd c ?_⟩
        rcases Heap.cell_free (r.create P (timerChannel tfd interval isRepeat junk) a).heap old p
          with heq | hnone
        · exact heq.symm.trans hc
        · exact absurd (hnone.symm.trans hc) (by nofun)
  | cancel id a =>
    obtain ⟨-, rfl⟩ | ⟨q, c, poller, -, -, hrem, -, rfl⟩ := cancel_cases hs
    · exact Or.inl hp
    · exact Or.inl (hP.remove_channels r.poller a c poller hrem fd p hp)
  | attach fd isListen junk a => cases hs; exact hcreate _ a hp
  | newConnection fd junk a => cases hs; exact hcreate _ a hp
  | setEvent q event a =>
    obtain ⟨c, hc, rfl⟩ := setEvent_cases hs
    rcases hP.update_channels r.poller a q (c.setEvent event) fd p hp with ⟨rfl, rfl⟩ | hold
    · refine Or.inr ⟨(Heap.live_of_cell hc).lt_next, fun d hd => ?_⟩
      rw [← Option.some.inj ((Heap.cell_set_self (Heap.live_of_cell hc) _).symm.trans hd)]
      exact (hP.update_alike r.poller a p (c.setEvent event)).1
    · exact Or.inl hold
  | endOfFile a =>
    obtain ⟨q, c, poller, -, -, hrem, -, rfl⟩ := endOfFile_cases hs
    exact Or.inl (hP.remove_channels r.poller a c poller hrem fd p hp)
  | hold q => cases hs; exact Or.inl hp
  | drop q => obtain ⟨-, rfl⟩ | ⟨-, -, rfl⟩ := release_cases hs <;> exact Or.inl hp

/-! ## Runs -/

/-- An entry of `channels` is for a channel that was made for this descriptor. -/
def RegisteredIn (channels : σ → ℤ → Option ℕ) (r : Reactor σ) : Prop :=
  ∀ fd p, channels r.poller fd = some p → p < r.heap.next ∧ ∀ c, r.heap.cell p = some c → c.fd = fd

theorem step_registeredIn (hP : Tabled P channels) {e : ReactorEvent ω ι}
    (h : r.RegisteredIn channels) (hs : step P r e = some r') : r'.RegisteredIn channels := by
  intro fd p hp
  cases e with
  | poll i =>
    obtain ⟨⟨ret, heap⟩, hpoll, rfl⟩ := Option.map_eq_some_iff.mp hs
    obtain ⟨hlt, hfd⟩ := h fd p hp
    obtain ⟨hnext, hcells⟩ := hP.poll_cells r.poller i r.heap ret heap hpoll
    refine ⟨hnext ▸ hlt, fun c' hc' => ?_⟩
    obtain ⟨c, x, hc, rfl⟩ := hcells p c' hc'
    exact hfd c hc
  | begin =>
    obtain ⟨q, rest, c, -, -, rfl⟩ := begin_cases hs
    exact h fd p hp
  | act a =>
    rcases act_channels hP hs hp with hold | hnew
    · obtain ⟨hlt, hfd⟩ := h fd p hold
      refine ⟨lt_of_lt_of_le hlt (act_batch hs).1, fun c' hc' => ?_⟩
      obtain ⟨c, hc, halike⟩ := act_cell hP hs hlt hc'
      exact halike.1.trans (hfd c hc)
    · exact hnew
  | finish =>
    cases hs
    exact h fd p hp

theorem run_registeredIn (hP : Tabled P channels) {s : σ} (hempty : ∀ fd, channels s fd = none)
    {es : List (ReactorEvent ω ι)} (hrun : run (step P) (init s) es = some r) :
    r.RegisteredIn channels := by
  refine run_invariant (fun _ _ _ h hs => step_registeredIn hP h hs) es (init s) r ?_ hrun
  intro fd p hp
  exact absurd ((hempty fd).symm.trans hp) (by nofun)

/-- In the registry of a run a channel is under one key. -/
theorem RegisteredIn.key_iff (h : r.RegisteredIn channels) {fd : ℤ} {p : ℕ} {c : Channel}
    (hp : channels r.poller fd = some p) (hc : r.heap.cell p = some c) (fd' : ℤ) :
    channels r.poller fd' = some p ↔ fd' = fd := by
  constructor
  · intro hp'
    exact ((h fd' p hp').2 c hc).symm.trans ((h fd p hp).2 c hc)
  · rintro rfl
    exact hp

end Reactor

end XWeb.Net
