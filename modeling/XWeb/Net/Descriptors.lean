import Mathlib.Data.Int.Order.Basic
import Mathlib.Data.List.Nodup
import Mathlib.Logic.Function.Basic
import XWeb.Lib.Run

/-!
# Descriptors

Who closes what `socket`, `accept` and `timerfd_create` return on Linux. The body of `~Acceptor`
(`net/acceptor.cpp` lines 36–39) closes `listenfd_`, and then the destructor of its member
`accept_sock_` (`net/socket.cpp` lines 12–16) closes the same number; a `TcpConnection` closes its
descriptor through `socket_` only; `cancel` (`net/event_loop.cpp` lines 141–148) takes the channel
of a timer out of the poller and destroys it, and neither closes a descriptor.

The kernel may hand out any number that is not open, and between any two steps other threads may
open and close descriptors of their own. `socket` and `timerfd_create` give a descriptor or end
the program (`LOG_FATAL`); a failed `accept` gives `-1`, for which a `TcpConnection` is made as
well.

* `Descriptors`: the descriptor table, and what the objects of the library hold.
* `Owned`: every descriptor is closed at most once, by its owner, and after `cancel` it is closed.
* `owned_iff`: exactly which runs keep it, and which close nothing of somebody else's.
-/

namespace XWeb.Net

open XWeb.Lib

/-- What an object has a descriptor for. -/
inductive Role
  /-- An `Acceptor`, as `listenfd_` and in `accept_sock_`. -/
  | listening
  /-- `accept_sock_` when the body of `~Acceptor` has been run. -/
  | acceptSock
  /-- Returned by `accept`, and not yet given to a `TcpConnection`. -/
  | accepted
  | connection
  /-- Returned by `getTimerFd`, and not yet in `timers_`. -/
  | timerFd
  | timer
  deriving DecidableEq

/-- The number that an object keeps, and as what. -/
structure Descriptor where
  role : Role
  fd : ℤ
  deriving DecidableEq

/-- `table` is what the open descriptors refer to. Everything that is obtained from the kernel has
    a number of its own, below `made`: those in `theirs` belong to other threads, the others to
    the object in `objects`, as long as it is there. `closes` lists the calls of `close` by the
    library, latest first, each with the owner of the number at that moment, and `cancelled` the
    timers that `cancel` has found in `timers_`. -/
structure Descriptors where
  table : ℤ → Option ℕ
  made : ℕ
  theirs : List ℕ
  objects : ℕ → Option Descriptor
  timers : ℤ → Option ℕ
  closes : List (ℕ × Option ℕ)
  cancelled : List ℕ

/-- A step of a thread. `acceptSockDtor` ends what `acceptorDtor` begins. -/
inductive DescriptorEvent
  | otherOpen (fd : ℤ)
  | otherClose (fd : ℤ)
  | acceptor (fd : ℤ)
  | acceptorDtor (n : ℕ)
  | acceptSockDtor (n : ℕ)
  | accept (fd : ℤ)
  | newConnection (n : ℕ)
  | connectionDtor (n : ℕ)
  | getTimerFd (fd : ℤ)
  | addTimer (n : ℕ)
  | cancel (id : ℤ)

namespace Descriptors

def init : Descriptors :=
  { table := fun _ => none
    made := 0
    theirs := []
    objects := fun _ => none
    timers := fun _ => none
    closes := []
    cancelled := [] }

/-- The objects that have called `close`. -/
def closed (s : Descriptors) : List ℕ := s.closes.map Prod.fst

/-- The descriptor that the object `n` has as a `role`. -/
def held (s : Descriptors) (n : ℕ) (role : Role) : Option ℤ :=
  (s.objects n).bind fun h => if h.role = role then some h.fd else none

/-- A new object of the library gets the descriptor `fd`, or `-1`. -/
def opened (s : Descriptors) (role : Role) (fd : ℤ) : Descriptors :=
  { s with
    table := if 0 ≤ fd then Function.update s.table fd (some s.made) else s.table
    made := s.made + 1
    objects := Function.update s.objects s.made (some ⟨role, fd⟩) }

/-- `close(fd)` by the object `n`, of which `rest` is left. -/
def close (s : Descriptors) (n : ℕ) (fd : ℤ) (rest : Option Descriptor) : Descriptors :=
  { s with
    table := Function.update s.table fd none
    objects := Function.update s.objects n rest
    closes := (n, s.table fd) :: s.closes }

/-- The descriptor of `n` is passed on. -/
def pass (s : Descriptors) (n : ℕ) (role : Role) (fd : ℤ) : Descriptors :=
  { s with objects := Function.update s.objects n (some ⟨role, fd⟩) }

/-- The functor of `cancel` (lines 143–146). -/
def cancel (s : Descriptors) (id : ℤ) : Descriptors :=
  match s.timers id with
  | none => s
  | some n =>
    { s with
      timers := Function.update s.timers id none
      objects := Function.update s.objects n none
      cancelled := n :: s.cancelled }

def step (s : Descriptors) : DescriptorEvent → Option Descriptors
  | .otherOpen fd => some { s with
      table := Function.update s.table fd (some s.made)
      made := s.made + 1
      theirs := s.made :: s.theirs }
  | .otherClose fd => some { s with table := Function.update s.table fd none }
  | .acceptor fd => some (s.opened .listening fd)
  | .acceptorDtor n => (s.held n .listening).map fun fd => s.close n fd (some ⟨.acceptSock, fd⟩)
  | .acceptSockDtor n => (s.held n .acceptSock).map fun fd => s.close n fd none
  | .accept fd => some (s.opened .accepted fd)
  | .newConnection n => (s.held n .accepted).map fun fd => s.pass n .connection fd
  | .connectionDtor n => (s.held n .connection).map fun fd => s.close n fd none
  | .getTimerFd fd => some (s.opened .timerFd fd)
  | .addTimer n => (s.held n .timerFd).map fun fd =>
      { s.pass n .timer fd with timers := Function.update s.timers fd (some n) }
  | .cancel id => some (s.cancel id)

/-- The kernel can hand out `fd`. -/
def Free (s : Descriptors) (fd : ℤ) : Prop := 0 ≤ fd ∧ s.table fd = none

/-- Other threads close what they have opened, and an object is there when its destructor is run. -/
def Enabled (s : Descriptors) : DescriptorEvent → Prop
  | .otherOpen fd => s.Free fd
  | .otherClose fd => ∃ m ∈ s.theirs, s.table fd = some m
  | .acceptor fd => s.Free fd
  | .acceptorDtor n => s.held n .listening ≠ none
  | .acceptSockDtor n => s.held n .acceptSock ≠ none
  | .accept fd => fd = -1 ∨ s.Free fd
  | .newConnection n => s.held n .accepted ≠ none
  | .connectionDtor n => s.held n .connection ≠ none
  | .getTimerFd fd => s.Free fd
  | .addTimer n => s.held n .timerFd ≠ none
  | .cancel _ => True

/-! ## Ownership -/

/-- No object has called `close` twice. -/
def Once (s : Descriptors) : Prop := s.closed.Nodup

/-- No `close` has hit what belongs to another owner. -/
def Own (s : Descriptors) : Prop := ∀ c ∈ s.closes, ∀ m, c.2 = some m → m = c.1

/-- The descriptors of cancelled timers are not open. -/
def Freed (s : Descriptors) : Prop := ∀ n ∈ s.cancelled, ∀ fd, s.table fd ≠ some n

structure Owned (s : Descriptors) : Prop where
  once : s.Once
  own : s.Own
  freed : s.Freed

/-- No `Acceptor` is destroyed to the end, and `cancel` finds nothing in `timers_`. -/
def Kept (s : Descriptors) : DescriptorEvent → Prop
  | .acceptSockDtor _ => False
  | .cancel id => s.timers id = none
  | _ => True

/-- Between the two calls of `close` for an `Acceptor` nobody gets its number. -/
def Undisturbed (s : Descriptors) : DescriptorEvent → Prop
  | .acceptSockDtor n => ∀ fd, s.held n .acceptSock = some fd → s.table fd = none
  | _ => True

/-- What `h` in the object `n` says about the descriptor: it is open and belongs to `n`, or it is
    closed, or `accept` has failed. -/
def Holds (s : Descriptors) (n : ℕ) (h : Descriptor) : Prop :=
  if h.role = .acceptSock then n ∈ s.closed ∧ s.table h.fd ≠ some n
  else n ∉ s.closed ∧
    (s.table h.fd = some n ∨ h.fd < 0 ∧ (h.role = .accepted ∨ h.role = .connection))

structure Inv (s : Descriptors) : Prop where
  table : ∀ fd m, s.table fd = some m → 0 ≤ fd ∧ m < s.made
  objects : ∀ n h, s.objects n = some h → n < s.made ∧ s.Holds n h
  theirs : ∀ m ∈ s.theirs, m < s.made ∧ s.objects m = none
  timers : ∀ id n, s.timers id = some n → s.objects n = some ⟨.timer, id⟩
  closed : ∀ n ∈ s.closed, n < s.made
  cancelled : ∀ n ∈ s.cancelled, n < s.made

theorem init_inv : Inv init := by
  constructor <;> simp [init, Descriptors.closed]

theorem held_eq_some {s : Descriptors} {n : ℕ} {role : Role} {fd : ℤ} :
    s.held n role = some fd ↔ s.objects n = some ⟨role, fd⟩ := by
  unfold held
  constructor
  · intro h
    obtain ⟨⟨role', fd'⟩, hobj, hif⟩ := Option.bind_eq_some_iff.mp h
    split_ifs at hif with hrole
    obtain rfl : role' = role := hrole
    obtain rfl : fd' = fd := Option.some.inj hif
    exact hobj
  · intro h
    simp [h]

/-- A step that can be made on an object of a role is made with its descriptor. -/
theorem held_map {s : Descriptors} {n : ℕ} {role : Role} (h : s.held n role ≠ none)
    (f : ℤ → Descriptors) :
    ∃ fd, s.objects n = some ⟨role, fd⟩ ∧ (s.held n role).map f = some (f fd) := by
  obtain ⟨fd, hfd⟩ := Option.ne_none_iff_exists'.mp h
  exact ⟨fd, held_eq_some.mp hfd, by rw [hfd]; rfl⟩

/-! ## The invariant -/

section Table

variable {table : ℤ → Option ℕ} {fd : ℤ}

theorem update_some_iff (hfree : table fd = none) (k m : ℕ) (fd' : ℤ) :
    Function.update table fd (some k) fd' = some m ↔ table fd' = some m ∨ (m = k ∧ fd' = fd) := by
  rcases eq_or_ne fd' fd with rfl | hne
  · simp [hfree, eq_comm]
  · simp [hne]

theorem update_none_iff {m : ℕ} (hne : table fd ≠ some m) (fd' : ℤ) :
    Function.update table fd none fd' = some m ↔ table fd' = some m := by
  rcases eq_or_ne fd' fd with rfl | hfd
  · simp [hne]
  · rw [Function.update_of_ne hfd]

theorem of_update_none {m : ℕ} {fd' : ℤ} (h : Function.update table fd none fd' = some m) :
    table fd' = some m := by
  rcases eq_or_ne fd' fd with rfl | hfd
  · simp at h
  · rwa [Function.update_of_ne hfd] at h

end Table

variable {s : Descriptors} {n : ℕ} {fd : ℤ} {role : Role}

theorem Holds.congr {s' : Descriptors} {h : Descriptor} (hheld : s.Holds n h)
    (hclosed : n ∈ s'.closed ↔ n ∈ s.closed)
    (htable : s'.table h.fd = some n ↔ s.table h.fd = some n) : s'.Holds n h := by
  unfold Holds at hheld ⊢
  rw [hclosed, Ne, htable]
  exact hheld

theorem Inv.holds_of_ne (h : Inv s) (hobj : s.objects n = some ⟨role, fd⟩)
    (hrole : role ≠ .acceptSock) :
    n ∉ s.closed ∧ (s.table fd = some n ∨ fd < 0 ∧ (role = .accepted ∨ role = .connection)) := by
  have hheld := (h.objects n _ hobj).2
  unfold Holds at hheld
  rwa [if_neg hrole] at hheld

theorem Inv.holds_acceptSock (h : Inv s) (hobj : s.objects n = some ⟨.acceptSock, fd⟩) :
    n ∈ s.closed ∧ s.table fd ≠ some n := by
  have hheld := (h.objects n _ hobj).2
  unfold Holds at hheld
  rwa [if_pos rfl] at hheld

/-- What is open under the number of an object is that of the object. -/
theorem Inv.table_eq (h : Inv s) (hobj : s.objects n = some ⟨role, fd⟩)
    (hrole : role ≠ .acceptSock) {m : ℕ}
    (hm : s.table fd = some m) : m = n := by
  rcases (h.holds_of_ne hobj hrole).2 with hopen | ⟨hneg, -⟩
  · exact Option.some.inj (hm.symm.trans hopen)
  · have hpos := (h.table fd m hm).1
    omega

/-- A timer has a descriptor, which is open. -/
theorem Inv.timer_open (h : Inv s) {id : ℤ} (hid : s.timers id = some n) : s.table id = some n := by
  rcases (h.holds_of_ne (h.timers id n hid) (by decide)).2 with hopen | ⟨-, hrole⟩
  · exact hopen
  · exact absurd hrole (by decide)

/-- What belongs to another thread is no object. -/
theorem Inv.ne_of_theirs (h : Inv s) {d : Descriptor} (hobj : s.objects n = some d) {m : ℕ}
    (hm : m ∈ s.theirs) : m ≠ n := by
  rintro rfl
  exact Option.some_ne_none d (hobj.symm.trans (h.theirs m hm).2)

theorem Inv.ne_of_timers (h : Inv s) (hobj : s.objects n = some ⟨role, fd⟩) {id : ℤ} {m : ℕ}
    (hm : s.timers id = some m) (hne : role ≠ .timer ∨ fd ≠ id) : m ≠ n := by
  rintro rfl
  obtain ⟨hrole, hfd⟩ := Descriptor.mk.inj (Option.some.inj (hobj.symm.trans (h.timers id m hm)))
  exact hne.elim (fun hne => hne hrole) fun hne => hne hfd

theorem otherOpen_inv (h : Inv s) (hfree : s.Free fd) :
    Inv { s with
      table := Function.update s.table fd (some s.made)
      made := s.made + 1
      theirs := s.made :: s.theirs } := by
  refine
    { h with
      table := fun fd' m hm => ?_
      objects := fun n holder hobj => ?_
      theirs := fun m hm => ?_
      closed := fun n hn => Nat.lt_succ_of_lt (h.closed n hn)
      cancelled := fun n hn => Nat.lt_succ_of_lt (h.cancelled n hn) }
  · rcases (update_some_iff hfree.2 _ _ _).mp hm with hm | ⟨rfl, rfl⟩
    · exact ⟨(h.table fd' m hm).1, Nat.lt_succ_of_lt (h.table fd' m hm).2⟩
    · exact ⟨hfree.1, Nat.lt_succ_self _⟩
  · obtain ⟨hlt, hheld⟩ := h.objects n holder hobj
    refine ⟨Nat.lt_succ_of_lt hlt, hheld.congr Iff.rfl ?_⟩
    rw [update_some_iff hfree.2]
    exact or_iff_left fun hnew => absurd hnew.1 (Nat.ne_of_lt hlt)
  · rcases List.mem_cons.mp hm with rfl | hm
    · refine ⟨Nat.lt_succ_self _, Option.eq_none_iff_forall_ne_some.mpr fun holder hobj => ?_⟩
      exact Nat.lt_irrefl _ (h.objects _ holder hobj).1
    · exact ⟨Nat.lt_succ_of_lt (h.theirs m hm).1, (h.theirs m hm).2⟩

theorem otherClose_inv (h : Inv s) (hopen : ∃ m ∈ s.theirs, s.table fd = some m) :
    Inv { s with table := Function.update s.table fd none } := by
  obtain ⟨m, hm, hfd⟩ := hopen
  refine
    { h with
      table := fun fd' m hm => h.table fd' m (of_update_none hm)
      objects := fun n holder hobj => ⟨(h.objects n holder hobj).1, ?_⟩ }
  refine (h.objects n holder hobj).2.congr Iff.rfl (update_none_iff (fun hn => ?_) _)
  exact h.ne_of_theirs hobj hm (Option.some.inj (hfd.symm.trans hn))

theorem opened_inv (h : Inv s) (hfd : fd < 0 ∧ role = .accepted ∨ s.Free fd)
    (hrole : role ≠ .acceptSock) :
    Inv (s.opened role fd) := by
  have htable : ∀ fd' m, (s.opened role fd).table fd' = some m ↔
      s.table fd' = some m ∨ (m = s.made ∧ fd' = fd ∧ 0 ≤ fd) := by
    intro fd' m
    unfold opened
    rcases hfd with ⟨hneg, -⟩ | hfree
    · simp [show ¬ 0 ≤ fd by omega]
    · simp only [hfree.1, if_true, and_true]
      exact update_some_iff hfree.2 _ _ _
  have hnew : ∀ n holder, (s.opened role fd).objects n = some holder →
      (n = s.made ∧ holder = ⟨role, fd⟩) ∨ (n < s.made ∧ s.objects n = some holder) := by
    intro n holder hobj
    rcases eq_or_ne n s.made with rfl | hne
    · exact .inl ⟨rfl, by simpa [opened, eq_comm] using hobj⟩
    · have hobj : s.objects n = some holder := by simpa [opened, hne] using hobj
      exact .inr ⟨(h.objects n holder hobj).1, hobj⟩
  constructor
  · intro fd' m hm
    rcases (htable fd' m).mp hm with hm | ⟨rfl, rfl, hpos⟩
    · exact ⟨(h.table fd' m hm).1, Nat.lt_succ_of_lt (h.table fd' m hm).2⟩
    · exact ⟨hpos, Nat.lt_succ_self _⟩
  · intro n holder hobj
    rcases hnew n holder hobj with ⟨rfl, rfl⟩ | ⟨hlt, hobj⟩
    · refine ⟨Nat.lt_succ_self _, ?_⟩
      unfold Holds
      rw [if_neg hrole]
      refine ⟨fun hn => Nat.lt_irrefl _ (h.closed _ hn), ?_⟩
      rw [htable]
      rcases hfd with ⟨hneg, hrole⟩ | hfree
      · exact .inr ⟨hneg, .inl hrole⟩
      · exact .inl (.inr ⟨rfl, rfl, hfree.1⟩)
    · refine ⟨Nat.lt_succ_of_lt hlt, (h.objects n holder hobj).2.congr Iff.rfl ?_⟩
      rw [htable]
      exact or_iff_left fun hm => absurd hm.1 (Nat.ne_of_lt hlt)
  · intro m hm
    obtain ⟨hlt, hobj⟩ := h.theirs m hm
    refine ⟨Nat.lt_succ_of_lt hlt, ?_⟩
    rw [← hobj]
    exact Function.update_of_ne (Nat.ne_of_lt hlt) _ _
  · intro id n hn
    have hobj := h.timers id n hn
    rw [← hobj]
    exact Function.update_of_ne (Nat.ne_of_lt (h.objects n _ hobj).1) _ _
  · intro n hn
    exact Nat.lt_succ_of_lt (h.closed n hn)
  · intro n hn
    exact Nat.lt_succ_of_lt (h.cancelled n hn)

/-- A `close` that hits nobody else's descriptor. -/
theorem close_inv (h : Inv s) (hobj : s.objects n = some ⟨role, fd⟩) (hrole : role ≠ .timer)
    (hopen : ∀ m, s.table fd = some m → m = n) {rest : Option Descriptor}
    (hrest : ∀ holder, rest = some holder → holder = ⟨.acceptSock, fd⟩) : Inv (s.close n fd rest) := by
  have hother : ∀ {n'}, n' ≠ n → (s.close n fd rest).objects n' = s.objects n' :=
    fun hne => Function.update_of_ne hne _ _
  constructor
  · intro fd' m hm
    exact h.table fd' m (of_update_none hm)
  · intro n' holder hobj'
    rcases eq_or_ne n' n with rfl | hne
    · have hrest' : rest = some holder := by simpa [close] using hobj'
      obtain rfl := hrest holder hrest'
      refine ⟨(h.objects n' _ hobj).1, ?_⟩
      unfold Holds
      rw [if_pos rfl]
      exact ⟨List.mem_cons_self, by simp [close]⟩
    · rw [hother hne] at hobj'
      refine ⟨(h.objects n' holder hobj').1, (h.objects n' holder hobj').2.congr ?_ ?_⟩
      · exact List.mem_cons.trans (or_iff_right hne)
      · exact update_none_iff (fun hm => hne (hopen n' hm)) _
  · intro m hm
    rw [hother (h.ne_of_theirs hobj hm)]
    exact h.theirs m hm
  · intro id n' hid
    rw [hother (h.ne_of_timers hobj hid (.inl hrole))]
    exact h.timers id n' hid
  · intro n' hn'
    rcases List.mem_cons.mp hn' with rfl | hn'
    · exact (h.objects _ _ hobj).1
    · exact h.closed n' hn'
  · exact h.cancelled

theorem pass_inv (h : Inv s) {role' : Role} (hobj : s.objects n = some ⟨role, fd⟩)
    (hrole : role = .accepted ∧ role' = .connection ∨ role = .timerFd ∧ role' = .timer) :
    Inv (s.pass n role' fd) := by
  have hother : ∀ {n'}, n' ≠ n → (s.pass n role' fd).objects n' = s.objects n' :=
    fun hne => Function.update_of_ne hne _ _
  refine
    { h with
      objects := fun n' holder hobj' => ?_
      theirs := fun m hm => ?_
      timers := fun id n' hid => ?_ }
  · rcases eq_or_ne n' n with rfl | hne
    · obtain rfl : ⟨role', fd⟩ = holder := by simpa [pass] using hobj'
      refine ⟨(h.objects n' _ hobj).1, ?_⟩
      obtain ⟨rfl, rfl⟩ | ⟨rfl, rfl⟩ := hrole
      · simpa [Holds, pass, closed] using h.holds_of_ne hobj (by decide)
      · simpa [Holds, pass, closed] using h.holds_of_ne hobj (by decide)
    · rw [hother hne] at hobj'
      exact h.objects n' holder hobj'
  · rw [hother (h.ne_of_theirs hobj hm)]
    exact h.theirs m hm
  · have hne : role ≠ .timer := by
      obtain ⟨rfl, -⟩ | ⟨rfl, -⟩ := hrole <;> decide
    rw [hother (h.ne_of_timers hobj hid (.inl hne))]
    exact h.timers id n' hid

theorem addTimer_inv (h : Inv s) (hobj : s.objects n = some ⟨.timerFd, fd⟩) :
    Inv { s.pass n .timer fd with timers := Function.update s.timers fd (some n) } := by
  have hpass : Inv (s.pass n .timer fd) := pass_inv h hobj (.inr ⟨rfl, rfl⟩)
  refine { hpass with timers := fun id n' hid => ?_ }
  rcases eq_or_ne id fd with rfl | hne
  · obtain rfl : n = n' := by simpa using hid
    simp [pass]
  · exact hpass.timers id n' ((Function.update_of_ne hne _ _).symm.trans hid)

theorem cancel_inv (h : Inv s) (id : ℤ) : Inv (s.cancel id) := by
  unfold cancel
  split
  · exact h
  · rename_i n hid
    have hobj := h.timers id n hid
    have hother : ∀ {n'}, n' ≠ n → Function.update s.objects n none n' = s.objects n' :=
      fun hne => Function.update_of_ne hne _ _
    refine
      { h with
        objects := fun n' d hobj' => ?_
        theirs := fun m hm => ?_
        timers := fun id' n' hid' => ?_
        cancelled := fun n' hn' => ?_ }
    · rcases eq_or_ne n' n with rfl | hne
      · exact absurd ((Function.update_self ..).symm.trans hobj') (Option.some_ne_none d).symm
      · exact h.objects n' d ((hother hne).symm.trans hobj')
    · refine ⟨(h.theirs m hm).1, ?_⟩
      exact (hother (h.ne_of_theirs hobj hm)).trans (h.theirs m hm).2
    · rcases eq_or_ne id' id with rfl | hne
      · exact absurd ((Function.update_self ..).symm.trans hid') (Option.some_ne_none n').symm
      · have hid'' := (Function.update_of_ne hne _ _).symm.trans hid'
        exact (hother (h.ne_of_timers hobj hid'' (.inr hne.symm))).trans (h.timers id' n' hid'')
    · rcases List.mem_cons.mp hn' with rfl | hn'
      · exact (h.objects _ _ hobj).1
      · exact h.cancelled n' hn'

/-! ## What a step can do -/

/-- A step closes nothing, or it is the only `close` of an object, the second `close` of an
    `Acceptor`, or a `cancel` that finds its timer. -/
inductive Effect (s s' : Descriptors) (e : DescriptorEvent) : Prop
  | quiet (kept : s.Kept e) (undisturbed : s.Undisturbed e)
      (table : ∀ fd m, s'.table fd = some m → s.table fd = some m ∨ m = s.made)
      (closes : s'.closes = s.closes) (cancelled : s'.cancelled = s.cancelled)
  | close (n : ℕ) (role : Role) (fd : ℤ) (rest : Option Descriptor)
      (object : s.objects n = some ⟨role, fd⟩)
      (once : role ≠ .acceptSock) (kept : s.Kept e) (undisturbed : s.Undisturbed e)
      (eq : s' = s.close n fd rest)
  | again (n : ℕ) (fd : ℤ) (object : s.objects n = some ⟨.acceptSock, fd⟩)
      (event : e = .acceptSockDtor n)
      (eq : s' = s.close n fd none)
  | cancel (n : ℕ) (id : ℤ) (event : e = .cancel id) (timer : s.timers id = some n)
      (table : s'.table = s.table) (closes : s'.closes = s.closes)
      (cancelled : s'.cancelled = n :: s.cancelled)

theorem opened_effect {e : DescriptorEvent} (role : Role) (fd : ℤ) (kept : s.Kept e)
    (undisturbed : s.Undisturbed e) : Effect s (s.opened role fd) e := by
  refine .quiet kept undisturbed (fun fd' m hm => ?_) rfl rfl
  unfold opened at hm
  dsimp only at hm
  split_ifs at hm
  · rcases eq_or_ne fd' fd with rfl | hne
    · exact .inr (by simpa [eq_comm] using hm)
    · rw [Function.update_of_ne hne] at hm
      exact .inl hm
  · exact .inl hm

theorem step_spec {e : DescriptorEvent} (h : Inv s) (hen : s.Enabled e) :
    ∃ s', s.step e = some s' ∧ (s.Undisturbed e → Inv s') ∧ Effect s s' e := by
  cases e with
  | otherOpen fd =>
    refine ⟨_, rfl, fun _ => otherOpen_inv h hen, .quiet trivial trivial (fun fd' m hm => ?_) rfl rfl⟩
    rcases (update_some_iff hen.2 _ _ _).mp hm with hm | ⟨rfl, -⟩
    · exact .inl hm
    · exact .inr rfl
  | otherClose fd =>
    exact ⟨_, rfl, fun _ => otherClose_inv h hen,
      .quiet trivial trivial (fun fd' m hm => .inl (of_update_none hm)) rfl rfl⟩
  | acceptor fd =>
    exact ⟨_, rfl, fun _ => opened_inv h (.inr hen) (by decide), opened_effect _ _ trivial trivial⟩
  | acceptorDtor n =>
    obtain ⟨fd, hobj, hstep⟩ := held_map hen fun fd => s.close n fd (some ⟨.acceptSock, fd⟩)
    refine ⟨_, hstep, fun _ => close_inv h hobj (by decide) (fun m hm => ?_) (fun holder hrest => ?_),
      .close n _ fd _ hobj (by decide) trivial trivial rfl⟩
    · exact h.table_eq hobj (by decide) hm
    · exact (Option.some.inj hrest).symm
  | acceptSockDtor n =>
    obtain ⟨fd, hobj, hstep⟩ := held_map hen fun fd => s.close n fd none
    refine ⟨_, hstep, fun hund => close_inv h hobj (by decide) (fun m hm => ?_) (by nofun),
      .again n fd hobj rfl rfl⟩
    exact absurd ((hund fd (held_eq_some.mpr hobj)).symm.trans hm) (by nofun)
  | accept fd =>
    refine ⟨_, rfl, fun _ => opened_inv h ?_ (by decide), opened_effect _ _ trivial trivial⟩
    rcases hen with rfl | hfree
    · exact .inl ⟨by decide, rfl⟩
    · exact .inr hfree
  | newConnection n =>
    obtain ⟨fd, hobj, hstep⟩ := held_map hen fun fd => s.pass n .connection fd
    exact ⟨_, hstep, fun _ => pass_inv h hobj (.inl ⟨rfl, rfl⟩),
      .quiet trivial trivial (fun _ _ hm => .inl hm) rfl rfl⟩
  | connectionDtor n =>
    obtain ⟨fd, hobj, hstep⟩ := held_map hen fun fd => s.close n fd none
    refine ⟨_, hstep, fun _ => close_inv h hobj (by decide) (fun m hm => ?_) (by nofun),
      .close n _ fd _ hobj (by decide) trivial trivial rfl⟩
    exact h.table_eq hobj (by decide) hm
  | getTimerFd fd =>
    exact ⟨_, rfl, fun _ => opened_inv h (.inr hen) (by decide), opened_effect _ _ trivial trivial⟩
  | addTimer n =>
    obtain ⟨fd, hobj, hstep⟩ := held_map hen fun fd =>
      { s.pass n .timer fd with timers := Function.update s.timers fd (some n) }
    exact ⟨_, hstep, fun _ => addTimer_inv h hobj,
      .quiet trivial trivial (fun _ _ hm => .inl hm) rfl rfl⟩
  | cancel id =>
    refine ⟨_, rfl, fun _ => cancel_inv h id, ?_⟩
    unfold cancel
    split
    · rename_i hid
      exact .quiet hid trivial (fun _ _ hm => .inl hm) rfl rfl
    · rename_i n hid
      exact .cancel n id rfl hid rfl rfl rfl

/-! ## Closing once, and one's own -/

theorem close_own (n : ℕ) (fd : ℤ) (rest : Option Descriptor) :
    (s.close n fd rest).Own ↔ (∀ m, s.table fd = some m → m = n) ∧ s.Own := by
  exact List.forall_mem_cons

theorem close_once (n : ℕ) (fd : ℤ) (rest : Option Descriptor) :
    (s.close n fd rest).Once ↔ n ∉ s.closed ∧ s.Once := by
  exact List.nodup_cons

theorem freed_of_table {s' : Descriptors} (h : Inv s) (hfreed : s.Freed)
    (htable : ∀ fd m, s'.table fd = some m → s.table fd = some m ∨ m = s.made)
    (hcancelled : s'.cancelled = s.cancelled) : s'.Freed := by
  intro n hn fd hfd
  rw [hcancelled] at hn
  rcases htable fd n hfd with hold | rfl
  · exact hfreed n hn fd hold
  · exact Nat.lt_irrefl _ (h.cancelled _ hn)

theorem own_step {s' : Descriptors} {e : DescriptorEvent} (h : Inv s) (hown : s.Own)
    (heff : Effect s s' e) :
    s'.Own ↔ s.Undisturbed e := by
  cases heff with
  | quiet kept undisturbed table closes cancelled =>
    refine iff_of_true ?_ undisturbed
    unfold Own
    rwa [closes]
  | close n role fd rest object once kept undisturbed eq =>
    subst eq
    have hself : ∀ m, s.table fd = some m → m = n := fun m hm => h.table_eq object once hm
    exact iff_of_true ((close_own n fd rest).mpr ⟨hself, hown⟩) undisturbed
  | again n fd object event eq =>
    subst eq event
    rw [close_own]
    constructor
    · rintro ⟨hself, -⟩ fd' hheld
      obtain rfl : fd = fd' := Option.some.inj ((held_eq_some.mpr object).symm.trans hheld)
      -- what `n` had is closed, so whatever is open belongs to another
      refine Option.eq_none_iff_forall_ne_some.mpr fun m hm => ?_
      obtain rfl := hself m hm
      exact (h.holds_acceptSock object).2 hm
    · intro hund
      have hfree := hund fd (held_eq_some.mpr object)
      exact ⟨fun m hm => absurd (hfree.symm.trans hm) (by nofun), hown⟩
  | cancel n id event timer table closes cancelled =>
    subst event
    refine iff_of_true ?_ trivial
    unfold Own
    rwa [closes]

theorem owned_step {s' : Descriptors} {e : DescriptorEvent} (h : Inv s) (howned : s.Owned)
    (heff : Effect s s' e) : s'.Owned ↔ s.Kept e := by
  have hown := own_step h howned.own heff
  cases heff with
  | quiet kept undisturbed table closes cancelled =>
    refine iff_of_true ⟨?_, hown.mpr undisturbed, freed_of_table h howned.freed table cancelled⟩ kept
    have hclosed : s'.closed = s.closed := congrArg (List.map Prod.fst) closes
    unfold Once
    rw [hclosed]
    exact howned.once
  | close n role fd rest object once kept undisturbed eq =>
    have hmine := hown.mpr undisturbed
    subst eq
    refine iff_of_true ⟨?_, hmine, ?_⟩ kept
    · exact (close_once n fd rest).mpr ⟨(h.holds_of_ne object once).1, howned.once⟩
    · exact freed_of_table h howned.freed (fun fd' m hm => .inl (of_update_none hm)) rfl
  | again n fd object event eq =>
    subst eq event
    refine iff_of_false (fun howned' => ?_) (fun hkept => hkept)
    exact ((close_once n fd none).mp howned'.once).1 (h.holds_acceptSock object).1
  | cancel n id event timer table closes cancelled =>
    subst event
    refine iff_of_false (fun howned' => ?_) (fun hkept => absurd (timer.symm.trans hkept) (by nofun))
    -- the descriptor of the timer stays in the table
    refine howned'.freed n ?_ id ?_
    · rw [cancelled]
      exact List.mem_cons_self
    · rw [table]
      exact h.timer_open timer

theorem undisturbed_of_kept {e : DescriptorEvent} (h : s.Kept e) : s.Undisturbed e := by
  unfold Undisturbed
  split
  · exact absurd h id
  · trivial

/-- **A listening descriptor is closed twice, and that of a timer never.** In every run of objects
    that come and go, timers that are added and cancelled, and other threads that open and close
    descriptors: every descriptor is closed at most once, by its owner, and closed after `cancel`,
    if and only if no `Acceptor` is destroyed to the end and no `cancel` finds its timer. Nothing
    of another owner is closed if and only if nobody gets the number of an `Acceptor` between the
    two calls of its destruction. -/
theorem owned_iff (es : List DescriptorEvent) (h : Along step Enabled init es) :
    (Throughout step Owned init es ↔ Along step Kept init es) ∧
      (Throughout step Own init es ↔ Along step Undisturbed init es) := by
  constructor
  · refine throughout_iff_along_of_kept (J := Inv) (fun s e hinv howned hen => ?_)
      es init init_inv ?_ h
    · obtain ⟨s', hs', hinv', heff⟩ := step_spec hinv hen
      exact ⟨s', hs', fun hkept => hinv' (undisturbed_of_kept hkept), owned_step hinv howned heff⟩
    · constructor <;> simp [Once, Own, Freed, init, closed]
  · refine throughout_iff_along_of_kept (J := Inv) (fun s e hinv hown hen => ?_) es init init_inv ?_ h
    · obtain ⟨s', hs', hinv', heff⟩ := step_spec hinv hen
      exact ⟨s', hs', hinv', own_step hinv hown heff⟩
    · simp [Own, init]

/-- A connection comes and goes, and its number is given to a timer. -/
theorem owned_sample :
    Throughout step Owned init [.acceptor 3, .accept 4, .newConnection 1, .otherOpen 5,
      .connectionDtor 1, .getTimerFd 4, .addTimer 3, .cancel 7, .otherClose 5,
      .acceptorDtor 0] := by
  refine ((owned_iff _ ?_).1).mpr ?_
  · exact along_step ⟨by decide, rfl⟩ rfl <| along_step (.inr ⟨by decide, rfl⟩) rfl <|
      along_step (by decide : _ ≠ _) rfl <| along_step ⟨by decide, rfl⟩ rfl <|
      along_step (by decide : _ ≠ _) rfl <| along_step ⟨by decide, rfl⟩ rfl <|
      along_step (by decide : _ ≠ _) rfl <| along_step trivial rfl <|
      along_step ⟨2, by decide, rfl⟩ rfl <| along_step (by decide : _ ≠ _) rfl trivial
  · exact along_step trivial rfl <| along_step trivial rfl <| along_step trivial rfl <|
      along_step trivial rfl <| along_step trivial rfl <| along_step trivial rfl <|
      along_step trivial rfl <| along_step rfl rfl <| along_step trivial rfl <|
      along_step trivial rfl trivial

/-- Another thread opens a file between the two calls of `close` for an `Acceptor`, gets its
    number, and the second call closes the file. -/
theorem other_descriptor_closed :
    ¬ ∀ es, Along step Enabled init es → Throughout step Owned init es := by
  intro hall
  have howned := hall [.acceptor 3, .acceptorDtor 0, .otherOpen 3, .acceptSockDtor 0]
    (along_step ⟨by decide, rfl⟩ rfl <| along_step (by decide : _ ≠ _) rfl <|
      along_step ⟨by decide, rfl⟩ rfl <| along_step (by decide : _ ≠ _) rfl trivial)
  have hend := howned _ _ (List.prefix_refl _) rfl
  exact absurd (hend.own (0, some 1) (by decide) 1 rfl) (by decide)

end Descriptors

end XWeb.Net
