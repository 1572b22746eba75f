import XWeb.Net.LifeCycle
import XWeb.Net.SendPaths

/-!
# Messages of several threads

Any number of threads call `send` on one connection. On the loop thread the message is written or
queued in the output buffer at once; another thread leaves a functor with a copy of it, of which a
`StringPiece` is made when it runs. `Senders` is a `SharedConnection` with the messages that have
been handed to `runInLoop`, those that wait in a functor, and those that `sendInLoop` has been
called with, each with its thread.

* `Senders.advance_eq`: a message of `int` length survives the `StringPiece`.
* `Senders.Inv`, `Senders.step_spec`: the functors and the messages, step by step.
* `messages_whole_in_order`: what reaches the connection are whole messages, those of one thread
  in the order in which it sent them.
-/

namespace XWeb.Net

open XWeb.Lib

variable {T : Type*}

/-! ## Model -/

/-- `sendInLoop` with this result of `write()` takes charge of its message. -/
def Session.takes (s : Session) (w : WriteResult) : Bool :=
  ¬ (s.conn.state = .kDisconnected ∨ s.Faults w)

/-- A message and the thread that sends it. -/
structure ThreadMessage (T : Type*) where
  thread : T
  bytes : Bytes
  deriving DecidableEq

structure Senders (T : Type*) where
  shared : SharedConnection T
  posted : List (ThreadMessage T)
  waiting : List (ThreadMessage T)
  /-- Each with whether `sendInLoop` has taken charge of it. -/
  handled : List (ThreadMessage T × Bool)

/-- The message that a functor is bound to. -/
def Op.message : Op → Option Bytes
  | .send message => some message
  | .shutdown => none

namespace Senders

def start (activeEvents : Flags) (sockfd : ℤ) (wcc hwm : Bool) (loopThread : T) : Senders T :=
  { shared := SharedConnection.start activeEvents sockfd wcc hwm loopThread
    posted := []
    waiting := []
    handled := [] }

section

variable [DecidableEq T]

/-- The messages of thread `t`. -/
def ofThread (t : T) (l : List (ThreadMessage T)) : List Bytes :=
  (l.filter fun m => m.thread = t).map ThreadMessage.bytes

/-- Where the message of a step goes. -/
def note (s : Senders T) (e : SharedEvent T) (shared : SharedConnection T) : Senders T :=
  let s' := { s with shared }
  match e with
  | .post t w =>
    match (s.shared.calls t).op.bind Op.message with
    | none => s'
    | some bytes =>
      if t = s.shared.loopThread then
        { s' with
          posted := s.posted ++ [⟨t, bytes⟩]
          handled := s.handled ++ [(⟨t, bytes⟩, s.shared.session.takes w)] }
      else { s' with posted := s.posted ++ [⟨t, bytes⟩], waiting := s.waiting ++ [⟨t, bytes⟩] }
  | .runFunctor w =>
    match s.shared.functors.head?.bind Op.message, s.waiting with
    | some _, m :: rest =>
      { s' with waiting := rest, handled := s.handled ++ [(m, s.shared.session.takes w)] }
    | _, _ => s'
  | .loop (.send bytes w) =>
    if s.shared.session.conn.state = .kConnected then
      { s' with
        posted := s.posted ++ [⟨s.shared.loopThread, bytes⟩]
        handled := s.handled ++ [(⟨s.shared.loopThread, bytes⟩, s.shared.session.takes w)] }
    else s'
  | _ => s'

/-- The step of the connection. A functor that sends gets its message through a `StringPiece`. -/
def advance (s : SharedConnection T) : SharedEvent T → Option (SharedConnection T)
  | .runFunctor w =>
    match s.functors with
    | .send message :: rest =>
      ((sendInLoopPiece (.ofString message)).exec s.session w).map fun session =>
        { s with session := session, functors := rest }
    | _ => s.step (.runFunctor w)
  | e => s.step e

def step (s : Senders T) (e : SharedEvent T) : Option (Senders T) :=
  (advance s.shared e).map (s.note e)

/-- A message that is left in a functor is shorter than `2^31` bytes. -/
def Short (s : Senders T) : SharedEvent T → Prop
  | .post t _ => t ≠ s.shared.loopThread →
    ∀ message ∈ (s.shared.calls t).op.bind Op.message, message.length < 2 ^ 31
  | _ => True

instance (s : Senders T) : ∀ e, Decidable (s.Short e)
  | .post t _ => inferInstanceAs (Decidable (t ≠ s.shared.loopThread →
      ∀ message ∈ (s.shared.calls t).op.bind Op.message, message.length < 2 ^ 31))
  | .connectEstablished | .test .. | .setState _ | .runFunctor _ | .loop _ | .destroy =>
    instDecidableTrue

end

/-- The messages that `sendInLoop` has taken charge of, one behind the other. -/
def sent (handled : List (ThreadMessage T × Bool)) : Bytes :=
  (handled.filter fun h => h.2).flatMap fun h => h.1.bytes

/-! ## The invariant -/

section

variable [DecidableEq T]

@[simp] theorem ofThread_append (t : T) (l m : List (ThreadMessage T)) :
    ofThread t (l ++ m) = ofThread t l ++ ofThread t m := by
  rw [ofThread, List.filter_append, List.map_append, ofThread, ofThread]

theorem ofThread_of_ne {t : T} {l : List (ThreadMessage T)} (h : ∀ m ∈ l, m.thread ≠ t) :
    ofThread t l = [] := by
  rw [ofThread, List.map_eq_nil_iff, List.filter_eq_nil_iff]
  intro m hm
  simpa using h m hm

/-- The messages of a thread have been handled in the order in which it sent them, or wait. -/
def Ordered (s : Senders T) : Prop :=
  ∀ t, ofThread t (s.handled.map Prod.fst) ++ ofThread t s.waiting = ofThread t s.posted

structure Inv (s : Senders T) : Prop where
  shared : s.shared.Inv
  functors : s.shared.functors.filterMap Op.message = s.waiting.map ThreadMessage.bytes
  others : ∀ m ∈ s.waiting, m.thread ≠ s.shared.loopThread
  short : ∀ m ∈ s.waiting, m.bytes.length < 2 ^ 31
  ordered : s.Ordered
  stream : committed s.shared.session.log = sent s.handled

/-- A step without a message. -/
theorem Inv.keep {s : Senders T} (h : s.Inv) {shared : SharedConnection T} (hinv : shared.Inv)
    (hf : shared.functors.filterMap Op.message = s.shared.functors.filterMap Op.message)
    (hl : shared.loopThread = s.shared.loopThread)
    (hc : committed shared.session.log = committed s.shared.session.log) :
    Inv { s with shared } where
  shared := hinv
  functors := hf.trans h.functors
  others := by
    rw [hl]
    exact h.others
  short := h.short
  ordered := h.ordered
  stream := hc.trans h.stream

variable {s : Senders T} {m : ThreadMessage T}

/-- A message of a thread that has none waiting is handled at once. -/
theorem Ordered.handle (h : s.Ordered) (hm : ∀ m' ∈ s.waiting, m'.thread ≠ m.thread)
    (taken : Bool) (shared : SharedConnection T) :
    Ordered { s with
      shared, posted := s.posted ++ [m], handled := s.handled ++ [(m, taken)] } := by
  intro t
  show ofThread t ((s.handled ++ [(m, taken)]).map Prod.fst) ++ ofThread t s.waiting =
    ofThread t (s.posted ++ [m])
  rw [List.map_append, ofThread_append, ofThread_append, ← h t]
  by_cases ht : t = m.thread
  · rw [ht, ofThread_of_ne hm, List.append_nil, List.append_nil]
    rfl
  · have hnone : ofThread t [m] = [] := ofThread_of_ne (by simpa using Ne.symm ht)
    rw [hnone, List.append_nil, show ofThread t ([(m, taken)].map Prod.fst) = [] from hnone,
      List.append_nil]

theorem Ordered.wait (h : s.Ordered) (shared : SharedConnection T) :
    Ordered { s with shared, posted := s.posted ++ [m], waiting := s.waiting ++ [m] } := by
  intro t
  show ofThread t (s.handled.map Prod.fst) ++ ofThread t (s.waiting ++ [m]) =
    ofThread t (s.posted ++ [m])
  rw [ofThread_append, ofThread_append, ← h t, List.append_assoc]

theorem Ordered.run (h : s.Ordered) {rest : List (ThreadMessage T)} (hw : s.waiting = m :: rest)
    (taken : Bool) (shared : SharedConnection T) :
    Ordered { s with shared, waiting := rest, handled := s.handled ++ [(m, taken)] } := by
  intro t
  have ht := h t
  rw [hw, ← List.singleton_append, ofThread_append] at ht
  show ofThread t ((s.handled ++ [(m, taken)]).map Prod.fst) ++ ofThread t rest = ofThread t s.posted
  rw [List.map_append, ofThread_append, List.append_assoc]
  exact ht

end

theorem sent_concat (handled : List (ThreadMessage T × Bool)) (m : ThreadMessage T) (taken : Bool) :
    sent (handled ++ [(m, taken)]) = sent handled ++ if taken then m.bytes else [] := by
  rw [sent, List.filter_append, List.flatMap_append, sent]
  cases taken with
  | true => simp
  | false => simp

end Senders

namespace Session

variable {s s' : Session}

theorem takes_iff {w : WriteResult} :
    s.takes w = true ↔ ¬ (s.conn.state = .kDisconnected ∨ s.Faults w) := decide_eq_true_iff

theorem taken_send (hst : s.conn.state = .kConnected) (bytes : Bytes) (w : WriteResult) :
    s.taken (.send bytes w) = if s.takes w then bytes else [] := by
  show (if s.conn.state ≠ .kConnected ∨ s.Faults w then [] else bytes) = _
  by_cases hfault : s.Faults w
  · rw [if_pos (Or.inr hfault), if_neg fun ht => takes_iff.mp ht (Or.inr hfault)]
  · have hkept : ¬ (s.conn.state = .kDisconnected ∨ s.Faults w) := by simp [hst, hfault]
    rw [if_neg (by simp [hst, hfault]), if_pos (takes_iff.mpr hkept)]

theorem committed_exec (h : s.Core) {bytes : Bytes} {w : WriteResult}
    (hz : (Op.send bytes).Sized s w) (hs : (Op.send bytes).exec s w = some s') :
    committed s'.log = committed s.log ++ if s.takes w then bytes else [] := by
  obtain ⟨t, ht, hok⟩ := step_spec h (e := .sendInLoop bytes w) hz
  obtain rfl := Option.some.inj (ht.symm.trans hs)
  rw [hok.committed_eq, taken]
  by_cases hdrop : s.conn.state = .kDisconnected ∨ s.Faults w
  · rw [if_pos hdrop, if_neg (fun ht => takes_iff.mp ht hdrop)]
  · rw [if_neg hdrop, if_pos (takes_iff.mpr hdrop)]

theorem committed_connectEstablished (hs : s.connectEstablished = some s') :
    committed s'.log = committed s.log := by
  unfold connectEstablished at hs
  split_ifs at hs
  rw [← Option.some.inj hs, committed_emit _ (show Io.Neutral .connectionCallback from trivial),
    committed_emit _ (show Io.Neutral .updateChannel from trivial)]
  rfl

end Session

namespace Senders

variable [DecidableEq T] {s : Senders T}

/-! ## Steps -/

theorem advance_eq (h : s.Inv) (e : SharedEvent T) :
    advance s.shared e = SharedConnection.step s.shared e := by
  cases e with
  | runFunctor w =>
    cases hf : s.shared.functors with
    | nil => simp only [advance, hf]
    | cons op rest =>
      cases op with
      | shutdown => simp only [advance, hf]
      | send message =>
        have hwaits : message ∈ s.waiting.map ThreadMessage.bytes := by
          rw [← h.functors, hf]
          exact List.mem_cons_self
        obtain ⟨m, hm, rfl⟩ := List.mem_map.mp hwaits
        simp only [advance, hf, functor_exec (h.short m hm), SharedConnection.step,
          SharedConnection.runFunctor]
  | _ => rfl

theorem post_spec (h : s.Inv) {t : T} {w : WriteResult} {shared : SharedConnection T}
    (hl : s.shared.Legal (.post t w)) (hshort : s.Short (.post t w)) (hinv : shared.Inv)
    (hs : SharedConnection.step s.shared (.post t w) = some shared) :
    (s.note (.post t w) shared).Inv := by
  obtain ⟨op, hmem, hz⟩ := hl
  have hop : (s.shared.calls t).op = some op := hmem
  have hbusy : s.shared.calls t ≠ .idle := by
    intro hidle
    rw [hidle] at hop
    cases hop
  have hcore := h.shared.stage.core (h.shared.ne_created hbusy)
  simp only [SharedConnection.step, SharedConnection.post, hop] at hs
  unfold note
  simp only [hop, Option.bind_some]
  by_cases ht : t = s.shared.loopThread
  · rw [if_pos ht] at hs
    obtain ⟨session, hexec, rfl⟩ := Option.map_eq_some_iff.mp hs
    cases op with
    | send bytes =>
      simp only [Op.message, if_pos ht]
      refine ⟨hinv, h.functors, h.others, h.short, h.ordered.handle (fun m hm => ?_) _ _, ?_⟩
      · exact ht ▸ h.others m hm
      · show committed session.log = sent (s.handled ++ [(⟨t, bytes⟩, s.shared.session.takes w)])
        rw [Session.committed_exec hcore (hz ht) hexec, h.stream, sent_concat]
    | shutdown =>
      refine h.keep hinv rfl rfl ?_
      show committed session.log = _
      rw [← Option.some.inj hexec]
      exact Session.committed_shutdownInLoop _
  · rw [if_neg ht] at hs
    obtain rfl := Option.some.inj hs
    cases op with
    | send bytes =>
      simp only [Op.message, if_neg ht]
      refine ⟨hinv, ?_, fun m hm => ?_, fun m hm => ?_, h.ordered.wait _, h.stream⟩
      · show (s.shared.functors ++ [Op.send bytes]).filterMap Op.message = _
        rw [List.filterMap_append, h.functors, List.map_append]
        rfl
      · rcases List.mem_append.mp hm with hm | hm
        · exact h.others m hm
        · rw [List.mem_singleton.mp hm]
          exact ht
      · rcases List.mem_append.mp hm with hm | hm
        · exact h.short m hm
        · rw [List.mem_singleton.mp hm]
          exact hshort ht bytes (by rw [hop]; rfl)
    | shutdown =>
      refine h.keep hinv ?_ rfl rfl
      show (s.shared.functors ++ [Op.shutdown]).filterMap Op.message = _
      rw [List.filterMap_append]
      exact List.append_nil _

theorem runFunctor_spec (h : s.Inv) {w : WriteResult} {shared : SharedConnection T}
    (hl : s.shared.Legal (.runFunctor w)) (hinv : shared.Inv)
    (hs : SharedConnection.step s.shared (.runFunctor w) = some shared) :
    (s.note (.runFunctor w) shared).Inv := by
  obtain ⟨-, -, op, hmem, hz⟩ := hl
  obtain ⟨rest, hf⟩ := List.head?_eq_some_iff.mp hmem
  have hcore := h.shared.stage.core (h.shared.functors (by rw [hf]; simp))
  have hwaiting := h.functors
  rw [hf] at hwaiting
  simp only [SharedConnection.step, SharedConnection.runFunctor, hf] at hs
  obtain ⟨session, hexec, rfl⟩ := Option.map_eq_some_iff.mp hs
  unfold note
  simp only [hf, List.head?_cons, Option.bind_some]
  cases op with
  | send bytes =>
    cases hw : s.waiting with
    | nil =>
      rw [hw] at hwaiting
      cases hwaiting
    | cons m ms =>
      rw [hw] at hwaiting
      obtain ⟨hbytes, hms⟩ := List.cons.inj hwaiting
      simp only [Op.message]
      have hrest : ∀ m' ∈ ms, m' ∈ s.waiting := fun m' hm' => by
        rw [hw]
        exact List.mem_cons_of_mem m hm'
      refine ⟨hinv, hms, fun m' hm' => h.others m' (hrest m' hm'),
        fun m' hm' => h.short m' (hrest m' hm'), h.ordered.run hw _ _, ?_⟩
      · show committed session.log = sent (s.handled ++ [(m, s.shared.session.takes w)])
        rw [Session.committed_exec hcore hz hexec, h.stream, sent_concat, hbytes]
  | shutdown =>
    refine h.keep hinv ?_ rfl ?_
    · rw [hf]
      rfl
    · show committed session.log = _
      rw [← Option.some.inj hexec]
      exact Session.committed_shutdownInLoop _

theorem loop_spec (h : s.Inv) {e : ConnEvent} {shared : SharedConnection T}
    (hl : s.shared.Legal (.loop e)) (hinv : shared.Inv)
    (hs : SharedConnection.step s.shared (.loop e) = some shared) :
    (s.note (.loop e) shared).Inv := by
  obtain ⟨hwhen, hnf, -, hz⟩ := hl
  have hstage := h.shared.stage
  have hne : s.shared.stage ≠ .created := by
    rcases hwhen with hreg | ⟨hclosed, -⟩
    · rw [hreg]
      decide
    · rw [hclosed]
      decide
  have hlive : e.isHandler = true → s.shared.session.conn.Live := by
    intro hh
    rcases hwhen with hreg | ⟨-, hhandler⟩
    · rw [hreg] at hstage
      exact hstage.2.1
    · rw [hh] at hhandler
      cases hhandler
  obtain ⟨session, hevent, rfl⟩ := Option.map_eq_some_iff.mp hs
  obtain ⟨t, ht, hok⟩ :=
    Session.step_spec (hstage.core hne) (Session.possible_of_sized hz hlive)
  obtain rfl := Option.some.inj (ht.symm.trans hevent)
  have hc := hok.committed_eq
  cases e with
  | send bytes w =>
    unfold note
    dsimp only
    by_cases hst : s.shared.session.conn.state = .kConnected
    · rw [if_pos hst]
      refine ⟨hinv, h.functors, h.others, h.short, h.ordered.handle h.others _ _, ?_⟩
      show committed t.log =
        sent (s.handled ++ [(⟨s.shared.loopThread, bytes⟩, s.shared.session.takes w)])
      rw [hc, h.stream, sent_concat, Session.taken_send hst]
    · rw [if_neg hst]
      refine h.keep hinv rfl rfl ?_
      show committed t.log = _
      rw [hc, Session.taken, if_pos (Or.inl hst), List.append_nil]
  | sendInLoop bytes w => cases hnf
  | shutdown => exact h.keep hinv rfl rfl (hc.trans (List.append_nil _))
  | handleWrite w => exact h.keep hinv rfl rfl (hc.trans (List.append_nil _))
  | handleRead r => exact h.keep hinv rfl rfl (hc.trans (List.append_nil _))

theorem step_spec (h : s.Inv) {e : SharedEvent T} (hl : s.shared.Legal e)
    (hin : s.shared.SetsInTime e) (hshort : s.Short e) : ∃ s', s.step e = some s' ∧ s'.Inv := by
  obtain ⟨shared, hs, hinv, -⟩ := SharedConnection.step_spec h.shared hl hin
  refine ⟨s.note e shared, by rw [step, advance_eq h, hs]; rfl, ?_⟩
  cases e with
  | connectEstablished =>
    obtain ⟨session, hsession, rfl⟩ := Option.map_eq_some_iff.mp hs
    exact h.keep hinv rfl rfl (Session.committed_connectEstablished hsession)
  | test t op =>
    have hkeep : (s.shared.test t op).functors = s.shared.functors ∧
        (s.shared.test t op).loopThread = s.shared.loopThread ∧
        (s.shared.test t op).session = s.shared.session := by
      unfold SharedConnection.test
      split_ifs
      · cases op with
        | send bytes => exact ⟨rfl, rfl, rfl⟩
        | shutdown => exact ⟨rfl, rfl, rfl⟩
      · exact ⟨rfl, rfl, rfl⟩
    obtain rfl := Option.some.inj hs
    exact h.keep hinv (by rw [hkeep.1]) hkeep.2.1 (by rw [hkeep.2.2])
  | setState t =>
    obtain rfl := Option.some.inj hs
    exact h.keep hinv rfl rfl rfl
  | post t w => exact post_spec h hl hshort hinv hs
  | runFunctor w => exact runFunctor_spec h hl hinv hs
  | loop e => exact loop_spec h hl hinv hs
  | destroy =>
    unfold SharedConnection.step at hs
    split_ifs at hs
    obtain rfl := Option.some.inj hs
    exact h.keep hinv rfl rfl rfl

theorem start_inv (activeEvents : Flags) (sockfd : ℤ) (wcc hwm : Bool) (loopThread : T) :
    (start activeEvents sockfd wcc hwm loopThread).Inv where
  shared := SharedConnection.start_inv activeEvents sockfd wcc hwm loopThread
  functors := rfl
  others := fun _ hm => absurd hm List.not_mem_nil
  short := fun _ hm => absurd hm List.not_mem_nil
  ordered := fun _ => rfl
  stream := rfl

end Senders

end XWeb.Net
