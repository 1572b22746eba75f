import XWeb.Lib.Run
import XWeb.Net.Epoller

/-!
# `channels_` and the kernel

The two tables that `Epoller::update` and `Epoller::remove` keep: `channels_`, and the interest
list of `epollfd_` in the kernel.

* `eventMask_eq_wanted_iff`: when the mask that `update` passes is the one the channel asks for.
* `registry_mirrors_iff`: the keys always agree, and with them every operation that is passed to
  `epoll_ctl` is the right one; the masks agree in exactly the runs in which every mask that is
  passed is the one asked for.
-/

namespace XWeb.Net

open XWeb.Lib

/-- An `Epoller` and the channels, by address. -/
structure Registry where
  epoller : Epoller
  objects : ℕ → Channel

/-- A call of `setEvent`, `update` or `remove` for a channel, with the kernel's answers. -/
inductive RegistryOp
  | setEvent (p : ℕ) (event : Flags)
  | update (p : ℕ) (a : Answer)
  | remove (p : ℕ) (a : Answer)

/-! ## Masks -/

/-- What `events` asks of the kernel. -/
def wanted (events : Flags) : Flags :=
  (if has events CHANNEL_READ || has events CHANNEL_CONN || has events CHANNEL_TIMER then EPOLLIN
    else 0#32) |||
  if has events CHANNEL_WRITE then EPOLLOUT else 0#32

/-- With a timer the mask asks for no output; without one, the uninitialised `event.events` holds no
    bit that is not asked for. -/
def CleanMask (stack events : Flags) : Prop :=
  if has events CHANNEL_TIMER then has events CHANNEL_WRITE = false
  else stack &&& ~~~ wanted events = 0#32

instance (stack events : Flags) : Decidable (CleanMask stack events) := by
  unfold CleanMask
  infer_instance

theorem eventMask_of_not_timer (stack : Flags) {events : Flags}
    (ht : has events CHANNEL_TIMER = false) :
    Epoller.eventMask stack events = stack ||| wanted events := by
  unfold Epoller.eventMask wanted
  rw [ht]
  cases has events CHANNEL_READ || has events CHANNEL_CONN <;>
    cases has events CHANNEL_WRITE <;> simp [BitVec.or_assoc]

theorem eventMask_eq_wanted_iff (stack events : Flags) :
    Epoller.eventMask stack events = wanted events ↔ CleanMask stack events := by
  unfold CleanMask
  by_cases ht : has events CHANNEL_TIMER = true
  · rw [if_pos ht]
    unfold Epoller.eventMask wanted
    rw [ht]
    cases has events CHANNEL_WRITE
    · simp
    · simp
      decide
  · rw [if_neg ht, eventMask_of_not_timer stack (by simpa using ht)]
    exact or_eq_right_iff stack (wanted events)

/-! ## Steps -/

namespace Registry

/-- The channel at `p` after `f`. -/
def setObject (s : Registry) (p : ℕ) (c : Channel) : Registry :=
  { s with objects := Function.update s.objects p c }

def step (s : Registry) : RegistryOp → Option Registry
  | .setEvent p event => some (s.setObject p ((s.objects p).setEvent event))
  | .update p a =>
    let u := s.epoller.update a p (s.objects p)
    some { s.setObject p u.2 with epoller := u.1 }
  | .remove p a => some { s with epoller := s.epoller.remove a (s.objects p) }

/-- An `update` whose system calls succeed passes a clean mask. -/
def Clean (s : Registry) : RegistryOp → Prop
  | .update p a =>
    a.ctl = true → (has (s.objects p).events CHANNEL_TIMER = true → a.settime = true) →
      CleanMask a.stack (s.objects p).events
  | _ => True

/-! ## What holds between the calls -/

/-- The keys of `channels_` are the descriptors in the interest list. -/
def KeysAgree (s : Registry) : Prop := s.epoller.KeysAgree

/-- `update` passes `EPOLL_CTL_ADD` for a descriptor that the kernel does not watch, and
    `EPOLL_CTL_MOD` for one that it does; `remove` passes `EPOLL_CTL_DEL` only for one that it
    does. -/
def OpRight (s : Registry) : RegistryOp → Prop
  | .setEvent _ _ => True
  | .update p _ =>
    (s.epoller.chosenOp (s.objects p).fd = .add ↔ s.epoller.interest (s.objects p).fd = none) ∧
      (s.epoller.chosenOp (s.objects p).fd = .mod ↔
        (s.epoller.interest (s.objects p).fd).isSome = true)
  | .remove p _ =>
    (s.epoller.channels (s.objects p).fd).isSome = true →
      (s.epoller.interest (s.objects p).fd).isSome = true

/-- The kernel's mask of a registered descriptor is what its channel last asked for. -/
def MasksAgree (s : Registry) : Prop :=
  ∀ fd p, s.epoller.channels fd = some p →
    s.epoller.interest fd = some (wanted (s.objects p).lastEvents)

structure Inv (s : Registry) : Prop where
  keys : s.KeysAgree
  fds : ∀ fd p, s.epoller.channels fd = some p → (s.objects p).fd = fd

/-- The effect of an `update` whose system calls succeed. -/
def applied (s : Registry) (p : ℕ) (a : Answer) (armed : ℤ → Option Itimerspec) : Registry :=
  let c := s.objects p
  { s.setObject p c.updateEvent with
    epoller :=
      { interest := Function.update s.epoller.interest c.fd (some (Epoller.eventMask a.stack c.events))
        channels := Function.update s.epoller.channels c.fd (some p)
        armed := armed } }

/-- Up to the timers, an `update` whose system calls do not succeed has no effect. -/
theorem step_update {s : Registry} (h : s.Inv) (p : ℕ) (a : Answer) :
    ∃ armed, step s (.update p a) = some
      (if a.ctl = true ∧ (has (s.objects p).events CHANNEL_TIMER = true → a.settime = true) then
        s.applied p a armed
      else { s with epoller := { s.epoller with armed := armed } }) := by
  have hkeep : s.setObject p (s.objects p) = s := by
    unfold setObject
    rw [Function.update_eq_self]
  obtain ⟨armed, hu⟩ := Epoller.update_eq h.keys a p (s.objects p)
  refine ⟨armed, ?_⟩
  simp only [step, hu, applied]
  split
  · rfl
  · rw [hkeep]

theorem applied_inv {s : Registry} (h : s.Inv) (p : ℕ) (a : Answer)
    (armed : ℤ → Option Itimerspec) : (s.applied p a armed).Inv := by
  constructor
  · exact Epoller.keysAgree_update h.keys (s.objects p).fd rfl armed
  · intro fd q hq
    have hobj : ((s.applied p a armed).objects q).fd = (s.objects q).fd := by
      rcases eq_or_ne q p with rfl | hqp
      · simp [applied, setObject, Channel.updateEvent]
      · simp [applied, setObject, hqp]
    rw [hobj]
    rcases eq_or_ne fd (s.objects p).fd with rfl | hne
    · have hqp : p = q := by simpa [applied] using hq
      rw [hqp]
    · exact h.fds fd q (by simpa [applied, hne] using hq)

theorem applied_masksAgree {s : Registry} (h : s.Inv) (hm : s.MasksAgree) (p : ℕ) (a : Answer)
    (armed : ℤ → Option Itimerspec) :
    (s.applied p a armed).MasksAgree ↔ CleanMask a.stack (s.objects p).events := by
  rw [← eventMask_eq_wanted_iff]
  constructor
  · intro hm'
    have hnew := hm' (s.objects p).fd p (by simp [applied])
    simpa [applied, setObject, Channel.updateEvent] using hnew
  · intro hmask fd q hq
    rcases eq_or_ne fd (s.objects p).fd with rfl | hne
    · obtain rfl : p = q := by simpa [applied] using hq
      simp [applied, setObject, Channel.updateEvent, hmask]
    · have hold : s.epoller.channels fd = some q := by simpa [applied, hne] using hq
      have hqp : q ≠ p := by
        rintro rfl
        exact hne (h.fds fd q hold).symm
      simpa [applied, setObject, hne, hqp] using hm fd q hold

/-- The entries of one descriptor are taken out of both tables. -/
def erased (s : Registry) (fd : ℤ) : Registry :=
  { s with
    epoller :=
      { s.epoller with
        interest := Function.update s.epoller.interest fd none
        channels := Function.update s.epoller.channels fd none } }

theorem step_remove {s : Registry} (h : s.Inv) (p : ℕ) (a : Answer) :
    step s (.remove p a) = some
      (if a.ctl = true ∧ (s.epoller.channels (s.objects p).fd).isSome = true then
        s.erased (s.objects p).fd
      else s) := by
  simp only [step, Epoller.remove_eq h.keys, erased]
  split <;> rfl

theorem erased_inv {s : Registry} (h : s.Inv) (fd : ℤ) : (s.erased fd).Inv := by
  constructor
  · exact Epoller.keysAgree_update h.keys fd rfl s.epoller.armed
  · intro x q hq
    rcases eq_or_ne x fd with rfl | hne
    · simp [erased] at hq
    · exact h.fds x q (by simpa [erased, hne] using hq)

theorem erased_masksAgree {s : Registry} (hm : s.MasksAgree) (fd : ℤ) :
    (s.erased fd).MasksAgree := by
  intro x q hq
  rcases eq_or_ne x fd with rfl | hne
  · simp [erased] at hq
  · simpa [erased, hne] using hm x q (by simpa [erased, hne] using hq)

/-- A call keeps the keys in step; it keeps the masks in step exactly if it is clean. -/
theorem step_spec {s : Registry} (h : s.Inv) (op : RegistryOp) :
    ∃ s', step s op = some s' ∧ s'.Inv ∧ (s.MasksAgree → (s'.MasksAgree ↔ s.Clean op)) := by
  cases op with
  | setEvent p event =>
    have hobj : ∀ q, (Function.update s.objects p ((s.objects p).setEvent event) q).fd =
        (s.objects q).fd ∧
        (Function.update s.objects p ((s.objects p).setEvent event) q).lastEvents =
        (s.objects q).lastEvents := by
      intro q
      rcases eq_or_ne q p with rfl | hne
      · simp [Channel.setEvent]
      · simp [hne]
    refine ⟨_, rfl, ⟨h.keys, fun fd q hq => (hobj q).1.trans (h.fds fd q hq)⟩,
      fun hm => iff_true_intro fun fd q hq => ?_⟩
    show s.epoller.interest fd = some (wanted (Function.update s.objects p _ q).lastEvents)
    rw [(hobj q).2]
    exact hm fd q hq
  | update p a =>
    obtain ⟨armed, hs⟩ := step_update h p a
    by_cases hok : a.ctl = true ∧ (has (s.objects p).events CHANNEL_TIMER = true → a.settime = true)
    · rw [if_pos hok] at hs
      refine ⟨_, hs, applied_inv h p a armed, fun hm =>
        (applied_masksAgree h hm p a armed).trans ?_⟩
      exact ⟨fun hclean _ _ => hclean, fun hclean => hclean hok.1 hok.2⟩
    · rw [if_neg hok] at hs
      exact ⟨_, hs, ⟨h.keys, h.fds⟩, fun hm =>
        ⟨fun _ hctl hset => absurd ⟨hctl, hset⟩ hok, fun _ => hm⟩⟩
  | remove p a =>
    have hs := step_remove h p a
    by_cases hok : a.ctl = true ∧ (s.epoller.channels (s.objects p).fd).isSome = true
    · rw [if_pos hok] at hs
      exact ⟨_, hs, erased_inv h _, fun hm => iff_true_intro (erased_masksAgree hm _)⟩
    · rw [if_neg hok] at hs
      exact ⟨_, hs, h, fun hm => iff_true_intro hm⟩

/-- Where the keys agree, every call passes the right operation. -/
theorem opRight {s : Registry} (h : s.KeysAgree) : ∀ op, s.OpRight op
  | .setEvent _ _ => trivial
  | .update p _ =>
    ⟨Epoller.chosenOp_eq_add_iff h (s.objects p).fd, Epoller.chosenOp_eq_mod_iff h (s.objects p).fd⟩
  | .remove p _ => (h (s.objects p).fd).symm.trans

/-- Nothing is registered. -/
def start (objects : ℕ → Channel) : Registry := ⟨Epoller.init, objects⟩

theorem start_inv (objects : ℕ → Channel) : (start objects).Inv where
  keys := Epoller.init_keysAgree
  fds := by intro fd p hp; exact absurd hp (by nofun)

/-- **The registry and the kernel.** In every run of `update` and `remove` for any channels, masks
    and answers of the kernel, the keys of `channels_` are the kernel's interest list in every
    state, and every `update` passes `EPOLL_CTL_ADD` for a descriptor that is absent from the list
    and `EPOLL_CTL_MOD` for one that is present (every `remove` that calls `epoll_ctl` passes
    `EPOLL_CTL_DEL` for one that is present). The masks are the ones that the channels asked for
    in every state if and only if every `update` that succeeds passes a clean mask. -/
theorem registry_mirrors_iff (objects : ℕ → Channel) (ops : List RegistryOp) :
    Throughout step KeysAgree (start objects) ops ∧
    Along step OpRight (start objects) ops ∧
    (Throughout step MasksAgree (start objects) ops ↔
      Along step Clean (start objects) ops) := by
  have htrivial : Along step (fun _ _ => True) (start objects) ops :=
    along_of_forall fun _ _ => trivial
  have hstep : ∀ s op s', Inv s → True → step s op = some s' → Inv s' := by
    intro s op s' h _ hs
    obtain ⟨s₁, hs₁, h₁, -⟩ := step_spec h op
    rwa [Option.some.inj (hs.symm.trans hs₁)]
  refine ⟨?_, ?_, ?_⟩
  · exact throughout_of_invariant hstep (fun s h => h.keys) (start_inv objects) htrivial
  · exact along_of_invariant (fun s op h _ => opRight h.keys op) hstep ops _ (start_inv objects)
      htrivial
  · refine throughout_iff_along (J := Inv) (fun s op h hm _ => ?_) ops _ (start_inv objects)
      (fun fd p hp => absurd hp (by nofun)) htrivial
    obtain ⟨s', hs, h', hiff⟩ := step_spec h op
    exact ⟨s', hs, h', hiff hm⟩

/-- An `update` of a channel on descriptor 7 with the READ interest, where the stack holds
    `EPOLLOUT`: the kernel reports writability that nobody asked for. -/
theorem registry_stray_bit :
    ¬ ∀ (objects : ℕ → Channel) (ops : List RegistryOp),
      Throughout step (fun s => s.KeysAgree ∧ s.MasksAgree) (start objects) ops := by
  intro hall
  have hend := hall (fun _ => (Channel.construct 0#32 7 false).setEvent CHANNEL_READ)
    [.update 0 ⟨EPOLLOUT, true, true⟩] [.update 0 ⟨EPOLLOUT, true, true⟩] _ (List.prefix_refl _) rfl
  exact absurd (hend.2 7 0 rfl) (by decide)

end Registry

end XWeb.Net
