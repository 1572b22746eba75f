import XWeb.Net.KqueuePoller

/-!
# The filters in the kernel

`KqueuePoller::update` derives the changes from the difference between `lastEvents_` and
`events_`, and `remove` from `events_` alone. The filters of a descriptor are in step when those
that are enabled are those that its mask asks for.

* `update_read`, `update_write`, `update_timer`, `remove_*`: what a call does to each filter.
* `Follows`, `Clears`: when that is what is asked for.
* `filters_follow_iff`: the runs that are made to their end and in which the filters stay in step.
-/

namespace XWeb.Net

open XWeb.Lib

/-! ## Single changes -/

namespace Kqueue

theorem put_apply (k : Kqueue) (ident filter : ℤ) (x : Option Bool) (i f : ℤ) :
    k.put ident filter x i f = if i = ident ∧ f = filter then x else k i f := by
  unfold put
  rcases eq_or_ne i ident with rfl | hi
  · rcases eq_or_ne f filter with rfl | hf
    · simp
    · simp [hf]
  · simp [hi]

/-- A filter that a channel can ask for. -/
def Known (filter : ℤ) : Prop := filter ∈ [EVFILT_READ, EVFILT_WRITE, EVFILT_TIMER]

instance (filter : ℤ) : Decidable (Known filter) := by unfold Known; infer_instance

theorem Known.supported {filter : ℤ} (h : Known filter) :
    filter ∈ [EVFILT_READ, EVFILT_WRITE, EVFILT_TIMER, EVFILT_USER] := by
  simp only [Known, List.mem_cons, List.not_mem_nil, or_false] at h ⊢
  tauto

variable {k : Kqueue} {ident filter : ℤ} {flags : Flags} {data : ℤ}

theorem apply_add (h : Known filter) (ha : has flags EV_ADD = true)
    (hdel : has flags EV_DELETE = false) (hdis : has flags EV_DISABLE = false) :
    k.apply ⟨ident, filter, flags, data⟩ = some (k.put ident filter (some true)) := by
  unfold apply
  rw [if_pos h.supported]
  cases k ident filter <;> simp [ha, hdel, hdis]

theorem apply_disable (h : Known filter) :
    k.apply ⟨ident, filter, EV_DISABLE, data⟩ =
      (k ident filter).map fun _ => k.put ident filter (some false) := by
  have hadd : has EV_DISABLE EV_ADD = false := by decide
  have hdel : has EV_DISABLE EV_DELETE = false := by decide
  have hdis : has EV_DISABLE EV_DISABLE = true := by decide
  unfold apply
  rw [if_pos h.supported]
  cases k ident filter <;> simp [hadd, hdel, hdis]

theorem apply_delete (h : Known filter) :
    k.apply ⟨ident, filter, EV_DELETE, data⟩ =
      (k ident filter).map fun _ => k.put ident filter none := by
  have hadd : has EV_DELETE EV_ADD = false := by decide
  have hdel : has EV_DELETE EV_DELETE = true := by decide
  unfold apply
  rw [if_pos h.supported]
  cases k ident filter <;> simp [hadd, hdel]

/-- The change that `update` makes of one filter: it is wanted now, or it was before. -/
def toggle (ident filter : ℤ) (want was : Bool) : List Change :=
  if want || was then [⟨ident, filter, if want then EV_ADD ||| EV_ENABLE else EV_DISABLE, 0⟩] else []

/-- The change can be made. -/
def Valid (k : Kqueue) (ident filter : ℤ) (want was : Bool) : Prop :=
  want = true ∨ was = false ∨ k ident filter ≠ none

instance (k : Kqueue) (ident filter : ℤ) (want was : Bool) :
    Decidable (k.Valid ident filter want was) := by
  unfold Valid
  infer_instance

theorem attempt_toggle (k : Kqueue) (ident filter : ℤ) (h : Known filter) (want was : Bool)
    (rest : List Change) :
    (¬ k.Valid ident filter want was ∧
      attempt apply k (toggle ident filter want was ++ rest) = k) ∨
    (k.Valid ident filter want was ∧ ∃ k' : Kqueue,
      attempt apply k (toggle ident filter want was ++ rest) = attempt apply k' rest ∧
      (k' ident filter = some true ↔
        want = true ∨ was = false ∧ k ident filter = some true) ∧
      ∀ i f, ¬ (i = ident ∧ f = filter) → k' i f = k i f) := by
  have hput : ∀ x i f, ¬ (i = ident ∧ f = filter) → k.put ident filter x i f = k i f := by
    intro x i f hne
    rw [put_apply, if_neg hne]
  have hself : ∀ x, k.put ident filter x ident filter = x := by
    intro x
    rw [put_apply, if_pos ⟨rfl, rfl⟩]
  cases want with
  | true =>
    have happly : k.apply ⟨ident, filter, EV_ADD ||| EV_ENABLE, 0⟩ =
        some (k.put ident filter (some true)) :=
      apply_add h (by decide) (by decide) (by decide)
    exact Or.inr ⟨Or.inl rfl, _, attempt_cons_of_some happly rest, by simp [hself], hput _⟩
  | false =>
    cases was with
    | false =>
      exact Or.inr ⟨Or.inr (Or.inl rfl), k, rfl, by simp, fun _ _ _ => rfl⟩
    | true =>
      have happly : k.apply ⟨ident, filter, EV_DISABLE, 0⟩ =
          (k ident filter).map fun _ => k.put ident filter (some false) := apply_disable h
      cases hk : k ident filter with
      | none =>
        rw [hk] at happly
        exact Or.inl ⟨by simp [Valid, hk], attempt_cons_of_none happly rest⟩
      | some enabled =>
        rw [hk] at happly
        exact Or.inr ⟨by simp [Valid, hk], _, attempt_cons_of_some happly rest, by simp [hself],
          hput _⟩

/-- The change that `remove` makes of one filter. -/
theorem attempt_delete (k : Kqueue) (ident filter : ℤ) (h : Known filter) (b : Bool)
    (rest : List Change) :
    (b = true ∧ k ident filter = none ∧
      attempt apply k ((if b then [⟨ident, filter, EV_DELETE, 0⟩] else []) ++ rest) = k) ∨
    ((b = true → k ident filter ≠ none) ∧ ∃ k' : Kqueue,
      attempt apply k ((if b then [⟨ident, filter, EV_DELETE, 0⟩] else []) ++ rest) =
        attempt apply k' rest ∧
      (k' ident filter = some true ↔ b = false ∧ k ident filter = some true) ∧
      ∀ i f, ¬ (i = ident ∧ f = filter) → k' i f = k i f) := by
  cases b with
  | false => exact Or.inr ⟨by simp, k, rfl, by simp, fun _ _ _ => rfl⟩
  | true =>
    have happly : k.apply ⟨ident, filter, EV_DELETE, 0⟩ =
        (k ident filter).map fun _ => k.put ident filter none := apply_delete h
    cases hk : k ident filter with
    | none =>
      rw [hk] at happly
      exact Or.inl ⟨rfl, rfl, attempt_cons_of_none happly rest⟩
    | some enabled =>
      rw [hk] at happly
      refine Or.inr ⟨by simp, _, attempt_cons_of_some happly rest, by simp [put_apply], ?_⟩
      intro i f hne
      show k.put ident filter none i f = k i f
      rw [put_apply, if_neg hne]

/-- The filter of line 59 is none. -/
theorem apply_write_bit (k : Kqueue) (ident : ℤ) :
    k.apply ⟨ident, CHANNEL_WRITE.toInt, EV_DELETE, 0⟩ = none := by
  have hbit : CHANNEL_WRITE.toInt ∉ [EVFILT_READ, EVFILT_WRITE, EVFILT_TIMER, EVFILT_USER] := by decide
  exact if_neg hbit

end Kqueue

/-! ## What `update` does -/

namespace KqueuePoller

open Kqueue

/-- The READ filter is asked for. -/
def wantsRead (mask : Flags) : Bool := has mask CHANNEL_READ || has mask CHANNEL_CONN

theorem updateChanges_eq (c : Channel) :
    updateChanges c =
      toggle c.fd EVFILT_READ (wantsRead c.events) (has c.lastEvents CHANNEL_READ) ++
      (toggle c.fd EVFILT_WRITE (has c.events CHANNEL_WRITE) (has c.lastEvents CHANNEL_WRITE) ++
      if has c.events CHANNEL_TIMER then
        [⟨c.fd, EVFILT_TIMER, if c.isRepeat then EV_ADD else EV_ADD ||| EV_ONESHOT, c.interval⟩]
      else []) := by
  unfold updateChanges toggle wantsRead
  simp only [List.append_assoc, Bool.or_assoc, Bool.or_comm]

/-- The READ change of `update` can be made, and the WRITE change. -/
def ReadValid (k : Kqueue) (c : Channel) : Prop :=
  k.Valid c.fd EVFILT_READ (wantsRead c.events) (has c.lastEvents CHANNEL_READ)

def WriteValid (k : Kqueue) (c : Channel) : Prop :=
  k.Valid c.fd EVFILT_WRITE (has c.events CHANNEL_WRITE) (has c.lastEvents CHANNEL_WRITE)

theorem attempt_timer (k : Kqueue) (c : Channel) :
    (attempt apply k (if has c.events CHANNEL_TIMER then
        [⟨c.fd, EVFILT_TIMER, if c.isRepeat then EV_ADD else EV_ADD ||| EV_ONESHOT, c.interval⟩]
      else []) c.fd EVFILT_TIMER = some true ↔
        has c.events CHANNEL_TIMER = true ∨ k c.fd EVFILT_TIMER = some true) ∧
    ∀ i f, ¬ (i = c.fd ∧ f = EVFILT_TIMER) →
      attempt apply k (if has c.events CHANNEL_TIMER then
        [⟨c.fd, EVFILT_TIMER, if c.isRepeat then EV_ADD else EV_ADD ||| EV_ONESHOT, c.interval⟩]
      else []) i f = k i f := by
  have hadd : ∀ flags ∈ [EV_ADD, EV_ADD ||| EV_ONESHOT],
      k.apply ⟨c.fd, EVFILT_TIMER, flags, c.interval⟩ =
        some (k.put c.fd EVFILT_TIMER (some true)) := by
    intro flags hflags
    refine apply_add (by decide) ?_ ?_ ?_ <;>
      simp only [List.mem_cons, List.not_mem_nil, or_false] at hflags <;>
      rcases hflags with rfl | rfl <;> decide
  by_cases ht : has c.events CHANNEL_TIMER = true
  · rw [if_pos ht, attempt_cons_of_some (hadd _ (by split <;> simp))]
    refine ⟨by simp [attempt, put_apply, ht], fun i f hne => ?_⟩
    simp only [attempt]
    rw [put_apply, if_neg hne]
  · rw [if_neg ht]
    exact ⟨by simp [attempt, ht], fun i f _ => rfl⟩

/-- The three filters of the channel after `update`, and those of other descriptors. -/
theorem update_filters (e : KqueuePoller) (p : ℕ) (c : Channel) :
    ((e.update p c).1.kq c.fd EVFILT_READ = some true ↔ wantsRead c.events = true ∨
      has c.lastEvents CHANNEL_READ = false ∧ e.kq c.fd EVFILT_READ = some true) ∧
    ((e.update p c).1.kq c.fd EVFILT_WRITE = some true ↔
      ReadValid e.kq c ∧ has c.events CHANNEL_WRITE = true ∨
      ¬ (ReadValid e.kq c ∧ has c.lastEvents CHANNEL_WRITE = true) ∧
        e.kq c.fd EVFILT_WRITE = some true) ∧
    ((e.update p c).1.kq c.fd EVFILT_TIMER = some true ↔
      ReadValid e.kq c ∧ WriteValid e.kq c ∧ has c.events CHANNEL_TIMER = true ∨
      e.kq c.fd EVFILT_TIMER = some true) ∧
    ∀ fd f, fd ≠ c.fd → (e.update p c).1.kq fd f = e.kq fd f := by
  have hne : EVFILT_WRITE ≠ EVFILT_READ ∧ EVFILT_TIMER ≠ EVFILT_READ ∧
      EVFILT_READ ≠ EVFILT_WRITE ∧ EVFILT_TIMER ≠ EVFILT_WRITE ∧
      EVFILT_READ ≠ EVFILT_TIMER ∧ EVFILT_WRITE ≠ EVFILT_TIMER := by decide
  obtain ⟨hwr, htr, hrw, htw, hrt, hwt⟩ := hne
  unfold update
  simp only [updateChanges_eq]
  rcases attempt_toggle e.kq c.fd EVFILT_READ (by decide) (wantsRead c.events)
    (has c.lastEvents CHANNEL_READ) _ with ⟨hR, he⟩ | ⟨hR, k₁, he, h₁, ho₁⟩
  · -- the list ends at the READ change
    rw [he]
    have hinvalid : ¬ ReadValid e.kq c := hR
    obtain ⟨hwant, hlast, hnone⟩ : wantsRead c.events = false ∧
        has c.lastEvents CHANNEL_READ = true ∧ e.kq c.fd EVFILT_READ = none := by
      simpa [Valid, not_or] using hR
    simp [hinvalid, hwant, hlast, hnone]
  · rw [he]
    have hvalid : ReadValid e.kq c := hR
    have hw₁ : k₁ c.fd EVFILT_WRITE = e.kq c.fd EVFILT_WRITE := ho₁ _ _ fun h => hwr h.2
    have ht₁ : k₁ c.fd EVFILT_TIMER = e.kq c.fd EVFILT_TIMER := ho₁ _ _ fun h => htr h.2
    have hsame : WriteValid k₁ c ↔ WriteValid e.kq c := by
      rw [WriteValid, WriteValid, Valid, Valid, hw₁]
    rcases attempt_toggle k₁ c.fd EVFILT_WRITE (by decide) (has c.events CHANNEL_WRITE)
      (has c.lastEvents CHANNEL_WRITE) _ with ⟨hW, he⟩ | ⟨hW, k₂, he, h₂, ho₂⟩
    · -- the list ends at the WRITE change
      rw [he]
      have hinvalid : ¬ WriteValid e.kq c := hsame.not.mp hW
      obtain ⟨hwant, hlast, hnone⟩ : has c.events CHANNEL_WRITE = false ∧
          has c.lastEvents CHANNEL_WRITE = true ∧ k₁ c.fd EVFILT_WRITE = none := by
        simpa [Valid, not_or] using hW
      rw [hw₁] at hnone
      refine ⟨h₁, by simp [hw₁, hwant, hnone], by simp [ht₁, hinvalid], fun fd f hfd => ?_⟩
      exact ho₁ fd f fun h => hfd h.1
    · rw [he]
      have hvalid' : WriteValid e.kq c := hsame.mp hW
      obtain ⟨h₃, ho₃⟩ := attempt_timer k₂ c
      refine ⟨?_, ?_, ?_, fun fd f hfd => ?_⟩
      · rw [ho₃ _ _ fun h => hrt h.2, ho₂ _ _ fun h => hrw h.2]
        exact h₁
      · rw [ho₃ _ _ fun h => hwt h.2, h₂, hw₁]
        simp [hvalid]
      · rw [h₃, ho₂ _ _ fun h => htw h.2, ht₁]
        simp [hvalid, hvalid']
      · rw [ho₃ _ _ fun h => hfd h.1, ho₂ _ _ fun h => hfd h.1, ho₁ _ _ fun h => hfd h.1]

/-- And after the changes of `remove`. -/
theorem remove_filters {e e' : KqueuePoller} {c : Channel} (hs : e.remove c = some e')
    (hreg : e.channels c.fd ≠ none) :
    (e'.kq c.fd EVFILT_READ = some true ↔
      has c.events CHANNEL_READ = false ∧ e.kq c.fd EVFILT_READ = some true) ∧
    e'.kq c.fd EVFILT_WRITE = e.kq c.fd EVFILT_WRITE ∧
    (e'.kq c.fd EVFILT_TIMER = some true ↔
      ¬ (has c.events CHANNEL_TIMER = true ∧ has c.events CHANNEL_WRITE = false ∧
        (has c.events CHANNEL_READ = true → e.kq c.fd EVFILT_READ ≠ none)) ∧
      e.kq c.fd EVFILT_TIMER = some true) ∧
    ∀ fd f, fd ≠ c.fd → e'.kq fd f = e.kq fd f := by
  have hne : EVFILT_READ ≠ EVFILT_TIMER ∧ EVFILT_TIMER ≠ EVFILT_READ ∧ EVFILT_WRITE ≠ EVFILT_READ ∧
      EVFILT_WRITE ≠ EVFILT_TIMER := by decide
  obtain ⟨hrt, htr, hwr, hwt⟩ := hne
  obtain ⟨-, -, rfl⟩ := (remove_cases hs).resolve_left fun h => hreg h.1
  unfold removeChanges
  simp only [List.append_assoc]
  rcases attempt_delete e.kq c.fd EVFILT_READ (by decide) (has c.events CHANNEL_READ) _ with
    ⟨hR, hnone, he⟩ | ⟨hR, k₁, he, h₁, ho₁⟩
  · rw [he]
    simp [hR, hnone]
  · rw [he]
    have ht₁ : k₁ c.fd EVFILT_TIMER = e.kq c.fd EVFILT_TIMER := ho₁ _ _ fun h => htr h.2
    cases hW : has c.events CHANNEL_WRITE with
    | true =>
      -- the list ends at the entry for WRITE
      simp only [if_true, List.singleton_append, attempt_cons_of_none (apply_write_bit k₁ c.fd)]
      refine ⟨h₁, ho₁ _ _ fun h => hwr h.2, by simp [ht₁], fun fd f hfd => ?_⟩
      exact ho₁ fd f fun h => hfd h.1
    | false =>
      have hlast := attempt_delete k₁ c.fd EVFILT_TIMER (by decide) (has c.events CHANNEL_TIMER) []
      simp only [List.append_nil, attempt] at hlast
      simp only [Bool.false_eq_true, if_false, List.nil_append]
      rcases hlast with ⟨hT, hnone, he⟩ | ⟨hT, k₂, he, h₂, ho₂⟩
      · rw [he]
        refine ⟨h₁, ho₁ _ _ fun h => hwr h.2, ?_, fun fd f hfd => ho₁ fd f fun h => hfd h.1⟩
        rw [ht₁] at hnone
        simp [ht₁, hnone]
      · rw [he]
        refine ⟨?_, ?_, ?_, fun fd f hfd => ?_⟩
        · rw [ho₂ _ _ fun h => hrt h.2]
          exact h₁
        · rw [ho₂ _ _ fun h => hwt h.2, ho₁ _ _ fun h => hwr h.2]
        · rw [h₂, ht₁]
          simp only [true_and]
          constructor
          · rintro ⟨hf, hk⟩
            exact ⟨by simp [hf], hk⟩
          · rintro ⟨hn, hk⟩
            refine ⟨?_, hk⟩
            cases hTb : has c.events CHANNEL_TIMER with
            | false => rfl
            | true => exact absurd ⟨hTb, hR⟩ hn
        · rw [ho₂ _ _ fun h => hfd h.1, ho₁ _ _ fun h => hfd h.1]

end KqueuePoller

/-! ## Filters in step -/

/-- A poller, the channels, by address, and for each descriptor the mask of its last `update`,
    which is empty after a `remove` and at the start. -/
structure KqueueRegistry where
  poller : KqueuePoller
  objects : ℕ → Channel
  asked : ℤ → Flags

/-- A call of `setEvent`, `update` or `remove` for a channel. -/
inductive KqueueOp
  | setEvent (p : ℕ) (event : Flags)
  | update (p : ℕ)
  | remove (p : ℕ)

/-- The filters that a mask asks for. -/
def asks (mask : Flags) (filter : ℤ) : Bool :=
  if filter = EVFILT_READ then has mask CHANNEL_READ || has mask CHANNEL_CONN
  else if filter = EVFILT_WRITE then has mask CHANNEL_WRITE
  else if filter = EVFILT_TIMER then has mask CHANNEL_TIMER
  else false

namespace KqueueRegistry

open KqueuePoller

def start (wakeupFd : ℤ) (objects : ℕ → Channel) : KqueueRegistry :=
  { poller := KqueuePoller.construct wakeupFd
    objects := objects
    asked := fun _ => 0#32 }

def step (s : KqueueRegistry) : KqueueOp → Option KqueueRegistry
  | .setEvent p event =>
    some { s with objects := Function.update s.objects p ((s.objects p).setEvent event) }
  | .update p =>
    let c := s.objects p
    let u := s.poller.update p c
    some
      { poller := u.1
        objects := Function.update s.objects p u.2
        asked := Function.update s.asked c.fd c.events }
  | .remove p =>
    let c := s.objects p
    (s.poller.remove c).map fun poller =>
      { s with poller := poller, asked := Function.update s.asked c.fd 0#32 }

/-- The enabled filters of every descriptor are those asked for. -/
def InStep (s : KqueueRegistry) : Prop :=
  ∀ fd, ∀ filter ∈ [EVFILT_READ, EVFILT_WRITE, EVFILT_TIMER],
    s.poller.kq fd filter = some true ↔ asks (s.asked fd) filter = true

/-- `update` can bring the filters in step. What is to be switched off has to be in `lastEvents_`,
    for READ under that name and not as CONN, and TIMER is never switched off. And no invalid
    change may come before one that matters. -/
structure Follows (k : Kqueue) (c : Channel) : Prop where
  read_off : k c.fd EVFILT_READ = some true →
    wantsRead c.events = true ∨ has c.lastEvents CHANNEL_READ = true
  write_on : has c.events CHANNEL_WRITE = true → k c.fd EVFILT_WRITE = some true ∨ ReadValid k c
  write_off : k c.fd EVFILT_WRITE = some true →
    has c.events CHANNEL_WRITE = true ∨ has c.lastEvents CHANNEL_WRITE = true ∧ ReadValid k c
  timer_on : has c.events CHANNEL_TIMER = true →
    k c.fd EVFILT_TIMER = some true ∨ ReadValid k c ∧ WriteValid k c
  timer_off : k c.fd EVFILT_TIMER = some true → has c.events CHANNEL_TIMER = true

/-- `remove` can. Its changes have to fit into its array. It never removes the WRITE filter, it
    removes READ and TIMER if they are in `events_`, and TIMER not behind an invalid change, as the
    one for WRITE always is. -/
structure Clears (k : Kqueue) (c : Channel) : Prop where
  room : (has c.events CHANNEL_READ && has c.events CHANNEL_WRITE && has c.events CHANNEL_TIMER) =
    false
  read : k c.fd EVFILT_READ = some true → has c.events CHANNEL_READ = true
  write : k c.fd EVFILT_WRITE ≠ some true
  timer : k c.fd EVFILT_TIMER = some true → has c.events CHANNEL_TIMER = true ∧
    has c.events CHANNEL_WRITE = false ∧
    (has c.events CHANNEL_READ = true → k c.fd EVFILT_READ ≠ none)

/-- The condition on a step. -/
def Keeps (s : KqueueRegistry) : KqueueOp → Prop
  | .setEvent _ _ => True
  | .update p => Follows s.poller.kq (s.objects p)
  | .remove p => s.poller.channels (s.objects p).fd ≠ none → Clears s.poller.kq (s.objects p)

/-- A descriptor that is not in `channels_` has been asked for nothing. -/
def Unasked (s : KqueueRegistry) : Prop :=
  ∀ fd, s.poller.channels fd = none → s.asked fd = 0#32

/-- The filters of one descriptor. -/
def FdInStep (k : Kqueue) (mask : Flags) (fd : ℤ) : Prop :=
  (k fd EVFILT_READ = some true ↔ wantsRead mask = true) ∧
  (k fd EVFILT_WRITE = some true ↔ has mask CHANNEL_WRITE = true) ∧
  (k fd EVFILT_TIMER = some true ↔ has mask CHANNEL_TIMER = true)

theorem inStep_iff (s : KqueueRegistry) :
    s.InStep ↔ ∀ fd, FdInStep s.poller.kq (s.asked fd) fd := by
  unfold InStep FdInStep
  refine forall_congr' fun fd => ?_
  simp only [List.forall_mem_cons, List.not_mem_nil, false_imp_iff, implies_true, and_true]
  exact Iff.rfl

/-- A call that changes the filters of one descriptor keeps those of all in step if it does those
    of this one. -/
theorem inStep_of_others {s s' : KqueueRegistry} (h : s.InStep) {fd : ℤ}
    (hkq : ∀ i f, i ≠ fd → s'.poller.kq i f = s.poller.kq i f)
    (hasked : ∀ i, i ≠ fd → s'.asked i = s.asked i) :
    s'.InStep ↔ FdInStep s'.poller.kq (s'.asked fd) fd := by
  rw [inStep_iff] at h ⊢
  refine ⟨fun h' => h' fd, fun h' i => ?_⟩
  rcases eq_or_ne i fd with rfl | hne
  · exact h'
  · have hi := h i
    unfold FdInStep at hi ⊢
    simpa only [hkq i _ hne, hasked i hne] using hi

theorem update_inStep_iff {s s' : KqueueRegistry} (h : s.InStep) {p : ℕ}
    (hs : step s (.update p) = some s') : s'.InStep ↔ Follows s.poller.kq (s.objects p) := by
  obtain rfl := Option.some.inj hs
  obtain ⟨hread, hwrite, htimer, hother⟩ := update_filters s.poller p (s.objects p)
  rw [inStep_of_others h (fun i f hi => hother i f hi) (fun i hi => Function.update_of_ne hi ..)]
  simp only [FdInStep, Function.update_self, hread, hwrite, htimer]
  constructor
  · rintro ⟨hr, hw, ht⟩
    refine ⟨fun hk => ?_, fun hW => ?_, fun hk => ?_, fun hT => ?_, fun hk => ht.mp (Or.inr hk)⟩
    · cases hl : has (s.objects p).lastEvents CHANNEL_READ with
      | true => exact Or.inr rfl
      | false => exact Or.inl (hr.mp (Or.inr ⟨hl, hk⟩))
    · obtain ⟨hv, -⟩ | ⟨-, hk⟩ := hw.mpr hW
      · exact Or.inr hv
      · exact Or.inl hk
    · by_cases hoff : ReadValid s.poller.kq (s.objects p) ∧
          has (s.objects p).lastEvents CHANNEL_WRITE = true
      · exact Or.inr ⟨hoff.2, hoff.1⟩
      · exact Or.inl (hw.mp (Or.inr ⟨hoff, hk⟩))
    · obtain ⟨hv, hv', -⟩ | hk := ht.mpr hT
      · exact Or.inr ⟨hv, hv'⟩
      · exact Or.inl hk
  · rintro ⟨hro, hwon, hwoff, hton, htoff⟩
    refine ⟨⟨?_, Or.inl⟩, ⟨?_, fun hW => ?_⟩, ⟨?_, fun hT => ?_⟩⟩
    · rintro (hwant | ⟨hl, hk⟩)
      · exact hwant
      · exact (hro hk).resolve_right (by simp [hl])
    · rintro (⟨-, hW⟩ | ⟨hoff, hk⟩)
      · exact hW
      · exact (hwoff hk).resolve_right fun h => hoff ⟨h.2, h.1⟩
    · by_cases hv : ReadValid s.poller.kq (s.objects p)
      · exact Or.inl ⟨hv, hW⟩
      · exact Or.inr ⟨fun h => hv h.1, (hwon hW).resolve_right hv⟩
    · rintro (⟨-, -, hT⟩ | hk)
      · exact hT
      · exact htoff hk
    · rcases hton hT with hk | ⟨hv, hv'⟩
      · exact Or.inr hk
      · exact Or.inl ⟨hv, hv', hT⟩

theorem remove_inStep_iff {s s' : KqueueRegistry} (h : s.InStep) (hun : s.Unasked) {p : ℕ}
    (hs : step s (.remove p) = some s') :
    s'.InStep ↔ (s.poller.channels (s.objects p).fd ≠ none → Clears s.poller.kq (s.objects p)) := by
  obtain ⟨e', hrem, rfl⟩ := Option.map_eq_some_iff.mp hs
  by_cases hreg : s.poller.channels (s.objects p).fd = none
  · obtain rfl := Option.some.inj ((remove_of_unregistered hreg).symm.trans hrem)
    rw [inStep_of_others h (fun i f _ => by rfl) (fun i hi => Function.update_of_ne hi ..)]
    simp only [Function.update_self]
    have hfd := (inStep_iff s).mp h (s.objects p).fd
    rw [hun _ hreg] at hfd
    exact iff_of_true hfd fun hne => absurd hreg hne
  · obtain ⟨hread, hwrite, htimer, hother⟩ := remove_filters hrem hreg
    obtain ⟨-, hfits, -⟩ := (remove_cases hrem).resolve_left fun h => hreg h.1
    rw [inStep_of_others h (fun i f hi => hother i f hi) (fun i hi => Function.update_of_ne hi ..)]
    have hzero : wantsRead 0#32 = false ∧ has 0#32 CHANNEL_WRITE = false ∧
        has 0#32 CHANNEL_TIMER = false := by decide
    simp only [FdInStep, Function.update_self, hread, hwrite, htimer, hzero, Bool.false_eq_true,
      iff_false]
    constructor
    · rintro ⟨hr, hw, ht⟩ -
      refine ⟨Bool.not_inj hfits, fun hk => ?_, hw, fun hk => ?_⟩
      · by_contra hR
        exact hr ⟨by simpa using hR, hk⟩
      · by_contra hT
        exact ht ⟨hT, hk⟩
    · intro hclears
      obtain ⟨-, hr, hw, ht⟩ := hclears hreg
      refine ⟨?_, hw, fun h => h.1 (ht h.2)⟩
      rintro ⟨hR, hk⟩
      exact absurd (hr hk) (by simp [hR])

theorem step_unasked {s s' : KqueueRegistry} (h : s.Unasked) {op : KqueueOp}
    (hs : step s op = some s') : s'.Unasked := by
  intro fd hfd
  cases op with
  | setEvent p event =>
    obtain rfl := Option.some.inj hs
    exact h fd hfd
  | update p =>
    obtain rfl := Option.some.inj hs
    rcases eq_or_ne fd (s.objects p).fd with rfl | hne
    · simp [KqueuePoller.update] at hfd
    · rw [← h fd (by simpa [KqueuePoller.update, hne] using hfd)]
      exact Function.update_of_ne hne ..
  | remove p =>
    obtain ⟨e', hrem, rfl⟩ := Option.map_eq_some_iff.mp hs
    rcases eq_or_ne fd (s.objects p).fd with rfl | hne
    · exact Function.update_self ..
    · have hold : s.poller.channels fd = none := by
        obtain ⟨-, rfl⟩ | ⟨-, -, rfl⟩ := remove_cases hrem
        · exact hfd
        · exact (Function.update_of_ne hne ..).symm.trans hfd
      rw [← h fd hold]
      exact Function.update_of_ne hne ..

/-- A step that meets the condition is made, and keeps the filters in step; no other step does. -/
theorem keeps_iff {s : KqueueRegistry} (h : s.InStep) (hun : s.Unasked) (op : KqueueOp) :
    s.Keeps op ↔ ∃ s', step s op = some s' ∧ s'.InStep := by
  have hmade : ∀ {s'}, step s op = some s' → (s'.InStep ↔ s.Keeps op) := by
    intro s' hs
    cases op with
    | setEvent p event =>
      obtain rfl := Option.some.inj hs
      exact iff_of_true h trivial
    | update p => exact update_inStep_iff h hs
    | remove p => exact remove_inStep_iff h hun hs
  constructor
  · intro hkeeps
    obtain ⟨s', hs⟩ : ∃ s', step s op = some s' := by
      cases op with
      | setEvent p event => exact ⟨_, rfl⟩
      | update p => exact ⟨_, rfl⟩
      | remove p =>
        by_cases hreg : s.poller.channels (s.objects p).fd = none
        · exact ⟨_, congrArg (Option.map _) (remove_of_unregistered hreg)⟩
        · have hfits : fits (s.objects p).events = true := by rw [fits, (hkeeps hreg).room]; rfl
          exact ⟨_, congrArg (Option.map _) (remove_of_fits hfits hreg)⟩
    exact ⟨s', hs, (hmade hs).mpr hkeeps⟩
  · rintro ⟨s', hs, h'⟩
    exact (hmade hs).mp h'

theorem start_inStep (wakeupFd : ℤ) (objects : ℕ → Channel) : (start wakeupFd objects).InStep := by
  have huser : EVFILT_READ ≠ EVFILT_USER ∧ EVFILT_WRITE ≠ EVFILT_USER ∧
      EVFILT_TIMER ≠ EVFILT_USER := by decide
  have hzero : wantsRead 0#32 = false := by decide
  rw [inStep_iff]
  intro fd
  simp [FdInStep, start, KqueuePoller.construct, Kqueue.put_apply, huser, hzero]

/-- **Where the kernel's filters follow the masks.** A run of `setEvent`, `update` and `remove` on a
    `KqueuePoller` is made to its end, and the enabled filters of every descriptor are at all times
    those that the mask of its last `update` asks for, and none after a `remove`, if and only if
    every `update` finds what it has to switch off in `lastEvents_`, every `remove` finds it in
    `events_`, without WRITE, no invalid change comes before one that matters, and no `remove` makes
    three changes, for which its array has no room. -/
theorem filters_follow_iff (wakeupFd : ℤ) (objects : ℕ → Channel) (ops : List KqueueOp) :
    (∃ s, run step (start wakeupFd objects) ops = some s) ∧
        Throughout step InStep (start wakeupFd objects) ops ↔
      Along step Keeps (start wakeupFd objects) ops :=
  total_throughout_iff_along (J := Unasked) (fun _ op hun h => keeps_iff h hun op)
    (fun _ _ _ hun hs => step_unasked hun hs) ops _ (fun _ _ => rfl) (start_inStep wakeupFd objects)

/-- The acceptor's interest is taken back: its READ filter stays. -/
theorem filters_not_switched_off :
    ¬ ∀ (wakeupFd : ℤ) (objects : ℕ → Channel) (ops : List KqueueOp),
      Throughout step InStep (start wakeupFd objects) ops := by
  intro hall
  have hend := hall WAKEUP_FD (fun _ => Channel.construct 0#32 7 false)
    [.setEvent 0 CHANNEL_CONN, .update 0, .setEvent 0 0#32, .update 0]
    [.setEvent 0 CHANNEL_CONN, .update 0, .setEvent 0 0#32, .update 0] _ (List.prefix_refl _) rfl
  exact absurd (hend 7 EVFILT_READ (by decide)) (by decide)

end KqueueRegistry

end XWeb.Net
