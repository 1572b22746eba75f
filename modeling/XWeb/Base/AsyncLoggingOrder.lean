import XWeb.Base.AsyncLogging
import XWeb.Lib.Chunks
import XWeb.Lib.Run

/-!
# Order and wholeness of the log

* `Inv`: what holds of the four buffers between any two steps of the threads.
* `step_spec`: no step fails, each keeps `Inv`, and each changes the stream in one of four ways.
* `log_keeps_order`: the stream is made of whole lines in the order of the `append` calls, and
  of all of them as long as no iteration collects more than 25 buffers.
-/

namespace XWeb.Base.AsyncLogging

open XWeb.Lib

/-! ## The invariant -/

/-- A buffer with nothing in it. -/
def Clean (p : BufferPtr) : Prop := ∃ b, p = some b ∧ b.data = []

/-- A buffer that is not full; no buffer ever is, `append` keeps the last byte free. -/
def Held (p : BufferPtr) : Prop := ∃ b, p = some b ∧ b.Spare

/-- The spares and `buffersToWrite`, by the place of the backend. While it writes, the second
    spare is missing only if two buffers were collected. -/
def BackendInv (s : AsyncLogging) : Prop :=
  match s.backend with
  | .notStarted => s.buffersToWrite = [] ∧ s.stopper = .idle
  | .entering => s.buffersToWrite = [] ∧ s.stopper = .idle ∧ s.running = true
  | .top | .collect | .waiting =>
    s.buffersToWrite = [] ∧ Clean s.newBuffer1 ∧ Clean s.newBuffer2
  | .batch | .writing _ =>
    s.newBuffer1 = none ∧ s.buffersToWrite ≠ [] ∧
      (Clean s.newBuffer2 ∨ (s.newBuffer2 = none ∧ 2 ≤ s.buffersToWrite.length))
  | .finished => s.buffersToWrite = []

/-- The invariant of all steps. -/
structure Inv (s : AsyncLogging) : Prop where
  current : Held s.currentBuffer
  next : Clean s.nextBuffer ∨ (s.nextBuffer = none ∧ s.buffers ≠ [])
  buffers : ∀ p ∈ s.buffers, Held p
  toWrite : ∀ p ∈ s.buffersToWrite, Held p
  backend : s.BackendInv

theorem kLargeBuffer_lt : kLargeBuffer < 2 ^ 31 := by decide

theorem Clean.held {p : BufferPtr} (h : Clean p) : Held p := by
  obtain ⟨b, rfl, hb⟩ := h
  exact ⟨b, rfl, FixedBuffer.spare_of_nil hb (by decide)⟩

theorem Clean.text {p : BufferPtr} (h : Clean p) : text p = [] := by
  obtain ⟨b, rfl, hb⟩ := h
  exact FixedBuffer.text_of_nil hb

theorem Clean.isSpare {p : BufferPtr} (h : Clean p) : isSpare p = true := by
  obtain ⟨b, rfl, hb⟩ := h
  have hs : b.Spare := FixedBuffer.spare_of_nil hb (by decide)
  simp [AsyncLogging.isSpare, hs.length_eq kLargeBuffer_lt, hb]

theorem clean_new : Clean (some FixedBuffer.new.bzero) := ⟨_, rfl, rfl⟩

theorem construct_inv : Inv construct where
  current := clean_new.held
  next := Or.inl clean_new
  buffers := by simp [construct]
  toWrite := by simp [construct]
  backend := ⟨rfl, rfl⟩

/-! ## The stream -/

@[simp] theorem handed_append_data (out : List Chunk) (bs : Bytes) :
    handed (out ++ [.data bs]) = handed out ++ [bs] := by simp [handed]

@[simp] theorem handed_append_notice (out : List Chunk) (t : String) :
    handed (out ++ [.notice t]) = handed out := by simp [handed]

/-- The line `x` goes to the end of the chunks `cs`, into the last one or a new one. -/
def Grows (cs : List Bytes) (x : Bytes) (cs' : List Bytes) : Prop :=
  (∃ pre c, cs = pre ++ [c] ∧ cs' = pre ++ [c ++ x]) ∨ cs' = cs ++ [x]

theorem Grows.flatten {cs cs' : List Bytes} {x : Bytes} (h : Grows cs x cs') :
    cs'.flatten = cs.flatten ++ x := by
  obtain ⟨pre, c, rfl, rfl⟩ | rfl := h <;> simp

theorem Grows.carries {ds cs cs' xs : List Bytes} {x : Bytes} (h : Grows cs x cs')
    (hc : Carries (ds ++ cs) xs) : Carries (ds ++ cs') (xs ++ [x]) := by
  obtain ⟨pre, c, rfl, rfl⟩ | rfl := h
  · rw [← List.append_assoc] at hc ⊢
    exact hc.extend x
  · rw [← List.append_assoc]
    exact hc.push x

/-- The stream stays as it is, in both its halves. -/
def Same (s s' : AsyncLogging) : Prop := s'.taken = s.taken ∧ s'.pending = s.pending

theorem same_of_nil {s s' : AsyncLogging} (h : s.buffersToWrite = []) (h' : s'.buffersToWrite = [])
    (ho : s'.output = s.output) (hp : s'.pending = s.pending) : Same s s' :=
  ⟨by simp [taken, unwritten, h, h', ho], hp⟩

/-! ## Producers -/

/-- What `append` does: the line fits behind the current buffer, or the current buffer is
    handed over and the line goes to an empty one, unless it is too long for any. -/
theorem append_cases {s : AsyncLogging} (h : s.Inv) {line : Bytes} (hlen : line.length < 2 ^ 31) :
    ∃ cur, s.currentBuffer = some cur ∧ cur.Spare ∧
      ((cur.data.length + line.length < kLargeBuffer ∧
        s.append line = some { s.echo line with currentBuffer := some ⟨cur.data ++ line⟩ }) ∨
      ∃ b : LargeBuffer, b.Spare ∧ (line.length < kLargeBuffer → b.data = line) ∧
        s.append line = some { s.echo line with
          buffers := s.buffers ++ [some cur], nextBuffer := none, currentBuffer := some b }) := by
  obtain ⟨cur, hcur, hsp⟩ := h.current
  refine ⟨cur, hcur, hsp, ?_⟩
  rcases Nat.lt_or_ge (cur.data.length + line.length) kLargeBuffer with hlt | hge
  · refine Or.inl ⟨hlt, ?_⟩
    have htest := (hsp.avail_gt_iff kLargeBuffer_lt line.length).mpr hlt
    simp only [append, hcur, htest, if_true, hsp.append_of_lt kLargeBuffer_lt hlt]
  · right
    have htest : ¬ cur.avail > line.length := by
      rw [hsp.avail_gt_iff kLargeBuffer_lt]; omega
    -- the replacement is empty, whether it is the spare or a new one
    obtain ⟨fresh, hfresh, hrep⟩ : ∃ fresh : LargeBuffer, fresh.data = [] ∧
        (s.echo line).replaceCurrent cur line = { s.echo line with
          buffers := s.buffers ++ [some cur], nextBuffer := none
          currentBuffer := some (fresh.append line) } := by
      obtain ⟨next, hnext, hclean⟩ | ⟨hnext, -⟩ := h.next
      · exact ⟨next, hclean, by simp [replaceCurrent, echo, hnext]⟩
      · exact ⟨FixedBuffer.new, rfl, by simp [replaceCurrent, echo, hnext]⟩
    have hspare : fresh.Spare := FixedBuffer.spare_of_nil hfresh (by decide)
    refine ⟨fresh.append line, hspare.append kLargeBuffer_lt hlen, fun hshort => ?_, ?_⟩
    · rw [hspare.append_of_lt kLargeBuffer_lt (by simpa [hfresh] using hshort), hfresh]
      rfl
    · simp only [append, hcur, htest, if_false, hrep]

theorem append_spec {s : AsyncLogging} (h : s.Inv) {line : Bytes} (hlen : line.length < 2 ^ 31) :
    ∃ s', s.append line = some s' ∧ s'.Inv ∧
      s'.backend = s.backend ∧ s'.running = s.running ∧ s'.taken = s.taken ∧
      (line.length < kLargeBuffer → Grows s.pending line s'.pending) := by
  obtain ⟨cur, hcur, hsp, ⟨hlt, heq⟩ | ⟨b, hb, hline, heq⟩⟩ := append_cases h hlen
  · refine ⟨_, heq, ⟨⟨_, rfl, by simpa [FixedBuffer.Spare] using hlt⟩, h.next, h.buffers,
      h.toWrite, h.backend⟩, rfl, rfl, rfl, fun _ => Or.inl ⟨_, _, rfl, ?_⟩⟩
    have hext : (⟨cur.data ++ line⟩ : LargeBuffer).Spare := by simpa [FixedBuffer.Spare] using hlt
    rw [hcur]
    simp [pending, text, echo, hsp.text_eq kLargeBuffer_lt, hext.text_eq kLargeBuffer_lt]
  · refine ⟨_, heq, ⟨⟨b, rfl, hb⟩, Or.inr ⟨rfl, by simp⟩, ?_, h.toWrite, h.backend⟩,
      rfl, rfl, rfl, fun hshort => Or.inr ?_⟩
    · intro p hp
      rcases List.mem_append.mp hp with hp | hp
      · exact h.buffers p hp
      · rw [List.mem_singleton.mp hp]
        exact ⟨cur, rfl, hsp⟩
    · simp [pending, text, hcur, hb.text_eq kLargeBuffer_lt, hline hshort]

/-! ## The backend -/

theorem enter_spec {s : AsyncLogging} (h : s.Inv) (hb : s.backend = .entering) :
    ∃ s', s.enter = some s' ∧ s'.Inv ∧ Same s s' ∧ s.running = true := by
  have hB := h.backend
  simp only [BackendInv, hb] at hB
  obtain ⟨hw, -, hrun⟩ := hB
  exact ⟨_, if_pos hrun, ⟨h.current, h.next, h.buffers, by simp, rfl, clean_new, clean_new⟩,
    same_of_nil hw rfl rfl rfl, hrun⟩

theorem test_spec {s : AsyncLogging} (h : s.Inv) (hb : s.backend = .top) :
    ∃ s', s.test = some s' ∧ s'.Inv ∧ Same s s' ∧
      s'.backend = (if s.running then .collect else .finished) ∧ s'.running = s.running := by
  have hB := h.backend
  simp only [BackendInv, hb] at hB
  obtain ⟨hw, h1, h2⟩ := hB
  cases hrun : s.running with
  | true =>
    exact ⟨{ s with backend := .collect }, by simp [test, hrun, h1.isSpare, h2.isSpare, hw],
      ⟨h.current, h.next, h.buffers, h.toWrite, hw, h1, h2⟩, same_of_nil hw hw rfl rfl, rfl, hrun⟩
  | false =>
    exact ⟨{ s with backend := .finished }, by simp [test, hrun],
      ⟨h.current, h.next, h.buffers, h.toWrite, hw⟩, same_of_nil hw hw rfl rfl, rfl, hrun⟩

/-- The collection: all of `buffers_` and `currentBuffer_` go to the backend, and both spares
    are clean, or the second one went to the producers and two buffers are in hand. -/
theorem collect_spec {s : AsyncLogging} (h : s.Inv)
    (hb : s.backend = .collect ∨ s.backend = .waiting) :
    s.collect.Inv ∧ s.collect.taken = s.taken ++ s.pending ∧ s.collect.pending = [[]] := by
  obtain ⟨hw, h1, h2⟩ : s.buffersToWrite = [] ∧ Clean s.newBuffer1 ∧ Clean s.newBuffer2 := by
    have hB := h.backend
    rcases hb with hb | hb <;> simpa only [BackendInv, hb] using hB
  have hheld : ∀ p ∈ s.buffers ++ [s.currentBuffer], Held p := by
    intro p hp
    rcases List.mem_append.mp hp with hp | hp
    · exact h.buffers p hp
    · rw [List.mem_singleton.mp hp]
      exact h.current
  refine ⟨?_, ?_, ?_⟩
  · obtain ⟨next, hnext, hclean⟩ | ⟨hnext, hne⟩ := h.next
    · refine ⟨h1.held, Or.inl ⟨next, by simp [collect, hnext], hclean⟩, by simp [collect, hw],
        by simpa [collect] using hheld, rfl, by simp [collect], Or.inl ?_⟩
      simpa [collect, hnext] using h2
    · refine ⟨h1.held, Or.inl ?_, by simp [collect, hw], by simpa [collect] using hheld, rfl,
        by simp [collect], Or.inr ⟨by simp [collect, hnext], ?_⟩⟩
      · simpa [collect, hnext] using h2
      · have := List.length_pos_iff.mpr hne
        simp [collect]
        omega
  · simp [taken, pending, collect, unwritten, Backend.index, hw]
  · simp [pending, collect, hw, h1.text]

theorem lock_spec {s : AsyncLogging} (h : s.Inv) (hb : s.backend = .collect) :
    s.lock = s.collect ∨ (s.lock.Inv ∧ Same s s.lock ∧ s.lock.backend = .waiting ∧
      s.lock.running = s.running) := by
  unfold lock
  split
  · have hB := h.backend
    simp only [BackendInv, hb] at hB
    exact Or.inr ⟨⟨h.current, h.next, h.buffers, h.toWrite, hB⟩, same_of_nil hB.1 hB.1 rfl rfl,
      rfl, rfl⟩
  · exact Or.inl rfl

/-- More than 25 buffers lose all but the first two, fewer lose nothing. -/
theorem batch_spec {s : AsyncLogging} (h : s.Inv) (hb : s.backend = .batch) :
    ∃ s', s.batch = some s' ∧ s'.Inv ∧ s'.backend = .writing 0 ∧ s'.running = s.running ∧
      s'.pending = s.pending ∧ s'.taken.Sublist s.taken ∧
      (s.buffersToWrite.length ≤ 25 → s'.taken = s.taken) := by
  have hB := h.backend
  simp only [BackendInv, hb] at hB
  obtain ⟨h1, hne, h2⟩ := hB
  have h0 : s.unwritten = s.buffersToWrite := by simp [unwritten, hb, Backend.index]
  have hempty : ¬ s.buffersToWrite.isEmpty := by simpa using hne
  by_cases hlen : s.buffersToWrite.length > 25
  · refine ⟨_, (if_neg hempty).trans (if_pos hlen), ⟨h.current, h.next, h.buffers,
      fun p hp => h.toWrite p (List.mem_of_mem_take hp), h1, ?_, ?_⟩, rfl, rfl, rfl, ?_, by omega⟩
    · exact List.ne_nil_of_length_pos (by rw [List.length_take]; omega)
    · exact h2.imp_right fun h2 => ⟨h2.1, by rw [List.length_take]; omega⟩
    · rw [taken, taken, h0, handed_append_notice]
      exact (List.Sublist.refl _).append ((List.take_sublist 2 _).map _)
  · have hsame : taken { s with backend := .writing 0 } = s.taken := by
      rw [taken, taken, h0]
      rfl
    refine ⟨_, (if_neg hempty).trans (if_neg hlen),
      ⟨h.current, h.next, h.buffers, h.toWrite, h1, hne, h2⟩, rfl, rfl, rfl, ?_,
      fun _ => hsame⟩
    exact hsame ▸ List.Sublist.refl _

/-- A round of the loop moves one buffer from the backend to the file. -/
theorem write_spec {s : AsyncLogging} (h : s.Inv) {i : ℕ} (hi : i < s.buffersToWrite.length)
    (hb : s.backend = .writing i) :
    ∃ s', s.write i = some s' ∧ s'.Inv ∧ Same s s' ∧ s'.backend = .writing (i + 1) ∧
      s'.running = s.running := by
  have hB := h.backend
  simp only [BackendInv, hb] at hB
  obtain ⟨b, hget, hsp⟩ := h.toWrite _ (List.getElem_mem hi)
  have hwrite : s.write i = some { s with
      output := s.output ++ [.data b.text], backend := .writing (i + 1) } := by
    rw [write, List.getElem?_eq_getElem hi, hget]
  refine ⟨_, hwrite, ⟨h.current, h.next, h.buffers, h.toWrite, hB⟩, ⟨?_, rfl⟩, rfl, rfl⟩
  simp only [taken, unwritten, Backend.index, hb, handed_append_data]
  rw [List.drop_eq_getElem_cons hi, hget]
  simp [text]

theorem refill_of_clean {p : BufferPtr} (h : Clean p) (toWrite : List BufferPtr) :
    refill p toWrite = some (p, toWrite) := by
  obtain ⟨b, rfl, -⟩ := h
  rfl

theorem refill_none {toWrite : List BufferPtr} (h : ∀ p ∈ toWrite, Held p) (hne : toWrite ≠ []) :
    ∃ p, refill none toWrite = some (p, toWrite.dropLast) ∧ Clean p := by
  obtain ⟨b, hb, -⟩ := h _ (List.getLast_mem hne)
  refine ⟨some b.reset, ?_, b.reset, rfl, rfl⟩
  simp [refill, List.getLast?_eq_some_getLast hne, hb]

/-- Both spares can be refilled: two buffers are in hand when both are missing. -/
theorem recycle_spec {s : AsyncLogging} (h : s.Inv)
    (hb : s.backend = .writing s.buffersToWrite.length) :
    ∃ s', s.recycle = some s' ∧ s'.Inv ∧ Same s s' ∧ s'.backend = .top ∧
      s'.running = s.running := by
  have hB := h.backend
  simp only [BackendInv, hb] at hB
  obtain ⟨h1, hne, h2⟩ := hB
  have hpos := List.length_pos_iff.mpr hne
  -- what the `resize` of line 104 leaves
  obtain ⟨ws, hws, hheld, hlen⟩ : ∃ ws, (if s.buffersToWrite.length > 2 then
      s.buffersToWrite.take 2 else s.buffersToWrite) = ws ∧ (∀ p ∈ ws, Held p) ∧
      ws.length = min 2 s.buffersToWrite.length := by
    refine ⟨_, rfl, ?_, ?_⟩
    · intro p hp
      split at hp
      · exact h.toWrite p (List.mem_of_mem_take hp)
      · exact h.toWrite p hp
    · split
      · rw [List.length_take]
      · omega
  obtain ⟨new1, hnew1, hc1⟩ := refill_none hheld (List.ne_nil_of_length_pos (by omega))
  obtain ⟨new2, rest, hnew2, hc2⟩ : ∃ new2 rest,
      refill s.newBuffer2 ws.dropLast = some (new2, rest) ∧ Clean new2 := by
    rcases h2 with h2 | ⟨h2, hlen2⟩
    · exact ⟨_, _, refill_of_clean h2 _, h2⟩
    · have hne' : ws.dropLast ≠ [] :=
        List.ne_nil_of_length_pos (by rw [List.length_dropLast]; omega)
      obtain ⟨p, hp, hcp⟩ := refill_none (fun q hq => hheld q (List.dropLast_subset ws hq)) hne'
      exact ⟨p, _, by rw [h2]; exact hp, hcp⟩
  refine ⟨{ s with newBuffer1 := new1, newBuffer2 := new2, buffersToWrite := [], backend := .top },
    ?_, ⟨h.current, h.next, h.buffers, by simp, rfl, hc1, hc2⟩, ⟨?_, rfl⟩, rfl, rfl⟩
  · simp only [recycle, hws, h1, hnew1, Option.bind_eq_bind, Option.bind_some, hnew2]
  · simp [taken, unwritten, hb, Backend.index]

/-! ## Steps and runs -/

/-- `stop()` has cleared `running_`. -/
def Stopped (s : AsyncLogging) : Prop := s.running = false ∧ s.backend ≠ .notStarted

/-- What a step does to the two halves of the stream and to the loop of the backend. -/
inductive Effect (s s' : AsyncLogging) : Event → Prop
  | append {line : Bytes} (taken : s'.taken = s.taken)
      (pending : line.length < kLargeBuffer → Grows s.pending line s'.pending)
      (backend : s'.backend = s.backend) (running : s'.running = s.running) :
      Effect s s' (.append line)
  | collect {e : Event} (lines : e.lines = []) (opened : s.backend.Open)
      (backend : s'.backend = .batch) (running : s'.running = s.running)
      (taken : s'.taken = s.taken ++ s.pending) (pending : s'.pending = [[]]) : Effect s s' e
  | batch (closed : s.backend = .batch) (backend : s'.backend = .writing 0)
      (running : s'.running = s.running) (taken : s'.taken.Sublist s.taken)
      (exact : s.buffersToWrite.length ≤ 25 → s'.taken = s.taken)
      (pending : s'.pending = s.pending) : Effect s s' .batch
  | other {e : Event} (lines : e.lines = []) (same : Same s s')
      (loop : s.Stopped → s'.Stopped ∧ (s'.backend.Open ↔ s.backend.Open)) : Effect s s' e

theorem effect_collect {s : AsyncLogging} (h : s.Inv) {e : Event} (he : e.lines = [])
    (hb : s.backend = .collect ∨ s.backend = .waiting) :
    s.collect.Inv ∧ Effect s s.collect e := by
  obtain ⟨hinv, htaken, hpending⟩ := collect_spec h hb
  refine ⟨hinv, .collect he ?_ rfl rfl htaken hpending⟩
  rcases hb with hb | hb <;> rw [hb] <;> trivial

/-- The statements of `stop()` touch only `running_`, and only once the backend runs. -/
theorem effect_stopper {s : AsyncLogging} (h : s.Inv) {e : Event} (he : e.lines = [])
    (hb : s.stopper ≠ .idle ∨ s.backend ≠ .notStarted ∧ s.backend ≠ .entering) (r : Bool)
    (t : Stopper) (hr : s.running = false → r = false) :
    Inv { s with running := r, stopper := t } ∧
      Effect s { s with running := r, stopper := t } e := by
  have hB := h.backend
  refine ⟨⟨h.current, h.next, h.buffers, h.toWrite, ?_⟩,
    .other he ⟨rfl, rfl⟩ fun hs => ⟨⟨hr hs.1, hs.2⟩, Iff.rfl⟩⟩
  cases hbk : s.backend <;> simp_all [BackendInv]

/-- No step fails; every step keeps the invariant. -/
theorem step_spec {s : AsyncLogging} (h : s.Inv) {e : Event} (hen : s.Enabled e)
    (hlen : e.IntLen) : ∃ s', s.step e = some s' ∧ s'.Inv ∧ Effect s s' e := by
  cases e with
  | append line =>
    obtain ⟨s', hs', hinv, hb, hr, ht, hp⟩ := append_spec h hlen
    exact ⟨s', hs', hinv, .append ht hp hb hr⟩
  | start =>
    have hB := h.backend
    simp only [BackendInv, show s.backend = .notStarted from hen] at hB
    exact ⟨_, rfl, ⟨h.current, h.next, h.buffers, h.toWrite, hB.1, hB.2, rfl⟩,
      .other rfl (same_of_nil hB.1 hB.1 rfl rfl) fun hs => absurd hen hs.2⟩
  | enter =>
    obtain ⟨s', hs', hinv, hsame, hrun⟩ := enter_spec h hen
    refine ⟨s', hs', hinv, .other rfl hsame fun hs => ?_⟩
    exact absurd (hrun.symm.trans hs.1) (by simp)
  | test =>
    obtain ⟨s', hs', hinv, hsame, hb, hr⟩ := test_spec h hen
    refine ⟨s', hs', hinv, .other rfl hsame fun hs => ?_⟩
    rw [hs.1, if_neg (by simp)] at hb
    have hen : s.backend = .top := hen
    simp [Stopped, hb, hr, hs.1, hen, Backend.Open]
  | lock =>
    rcases lock_spec h hen with heq | ⟨hinv, hsame, hb, hr⟩
    · rw [step, heq]
      obtain ⟨hinv, heff⟩ := effect_collect h (e := .lock) rfl (Or.inl hen)
      exact ⟨_, rfl, hinv, heff⟩
    · refine ⟨_, rfl, hinv, .other rfl hsame fun hs => ?_⟩
      have hen : s.backend = .collect := hen
      simp [Stopped, hb, hr, hs.1, hen, Backend.Open]
  | wake =>
    obtain ⟨hinv, heff⟩ := effect_collect h (e := .wake) rfl (Or.inr hen)
    exact ⟨_, rfl, hinv, heff⟩
  | batch =>
    obtain ⟨s', hs', hinv, hb, hr, hp, hsub, hex⟩ := batch_spec h hen
    exact ⟨s', hs', hinv, .batch hen hb hr hsub hex hp⟩
  | write =>
    obtain ⟨i, hi, hb⟩ := hen
    obtain ⟨s', hs', hinv, hsame, hb', hr⟩ := write_spec h hi hb
    refine ⟨s', ?_, hinv, .other rfl hsame fun hs => ?_⟩
    · simpa only [step, hb, Backend.index] using hs'
    · simp [Stopped, hb, hb', hr, hs.1, Backend.Open]
  | recycle =>
    obtain ⟨s', hs', hinv, hsame, hb', hr⟩ := recycle_spec h hen
    have hen : s.backend = .writing s.buffersToWrite.length := hen
    refine ⟨s', hs', hinv, .other rfl hsame fun hs => ?_⟩
    simp [Stopped, hb', hr, hs.1, hen, Backend.Open]
  | stop =>
    obtain ⟨hinv, heff⟩ := effect_stopper h (e := .stop) rfl (Or.inr hen.2) s.running .called id
    exact ⟨_, rfl, hinv, heff⟩
  | clear =>
    have hne : s.stopper ≠ .idle := by rw [show s.stopper = .called from hen]; nofun
    obtain ⟨hinv, heff⟩ := effect_stopper h (e := .clear) rfl (Or.inl hne) false .cleared fun _ => rfl
    exact ⟨_, rfl, hinv, heff⟩
  | notify =>
    have hne : s.stopper ≠ .idle := by rw [show s.stopper = .cleared from hen]; nofun
    obtain ⟨hinv, heff⟩ := effect_stopper h (e := .notify) rfl (Or.inl hne) s.running .notified id
    exact ⟨_, rfl, hinv, heff⟩
  | join =>
    have hne : s.stopper ≠ .idle := by rw [show s.stopper = .notified from hen.1]; nofun
    obtain ⟨hinv, heff⟩ := effect_stopper h (e := .join) rfl (Or.inl hne) s.running .returned id
    exact ⟨_, rfl, hinv, heff⟩

/-- The stream carries the lines that it carried and the line of the step, if there is one. -/
theorem Effect.carries {s s' : AsyncLogging} {e : Event} (h : Effect s s' e) (hshort : e.Short)
    {xs : List Bytes} (hc : Carries s.chunks xs) : Carries s'.chunks (xs ++ e.lines) := by
  unfold chunks at hc ⊢
  cases h with
  | append ht hp _ _ =>
    rw [ht]
    exact (hp hshort).carries hc
  | collect he _ _ _ ht hp =>
    rw [ht, hp, he, List.append_nil]
    exact hc.fresh
  | batch _ _ _ hsub _ hp =>
    rw [hp, show Event.batch.lines = [] from rfl, List.append_nil]
    exact hc.sublist (hsub.append (List.Sublist.refl _))
  | other he hsame _ => rwa [hsame.1, hsame.2, he, List.append_nil]

/-- Nothing is lost but in an iteration that drops buffers. -/
theorem Effect.stream {s s' : AsyncLogging} {e : Event} (h : Effect s s' e) (hshort : e.Short)
    (hno : s.NoDrop e) : s'.stream = s.stream ++ e.lines.flatten := by
  unfold AsyncLogging.stream chunks
  cases h with
  | append ht hp _ _ => simp [ht, (hp hshort).flatten, Event.lines]
  | collect he _ _ _ ht hp => simp [ht, hp, he]
  | batch _ _ _ _ hex hp => simp [hex (hno rfl), hp, Event.lines]
  | other he hsame _ => simp [hsame.1, hsame.2, he]

theorem Event.Short.intLen {e : Event} (h : e.Short) : e.IntLen := by
  cases e with
  | append line => exact Nat.lt_trans h kLargeBuffer_lt
  | _ => trivial

/-- The events that the threads and the callers of `append` can bring. -/
def Legal (s : AsyncLogging) (e : Event) : Prop := s.Enabled e ∧ e.Short

instance (s : AsyncLogging) (e : Event) : Decidable (s.Legal e) := by
  unfold Legal; infer_instance

theorem appended_eq_foldl (es : List Event) :
    es.foldl (fun xs e => xs ++ e.lines) [] = appended es := by
  rw [appended, List.flatMap_eq_foldl]

/-- A run without drops, from its first state to its last. -/
theorem run_exact {es : List Event} (h : Along step Legal construct es)
    (hno : Along step NoDrop construct es) :
    ∃ s, run step construct es = some s ∧ s.Inv ∧ s.stream = (appended es).flatten := by
  rw [← appended_eq_foldl]
  refine run_refines (fun xs e => xs ++ e.lines) (fun s xs => s.Inv ∧ s.stream = xs.flatten) ?_
    es construct [] ⟨construct_inv, rfl⟩ (h.and hno)
  intro s xs e ⟨hinv, hx⟩ ⟨⟨hen, hshort⟩, hno⟩
  obtain ⟨s', hs', hinv', heff⟩ := step_spec hinv hen hshort.intLen
  exact ⟨s', hs', hinv', by rw [heff.stream hshort hno, hx, List.flatten_append]⟩

theorem run_carries {es : List Event} (h : Along step Legal construct es) :
    ∃ s, run step construct es = some s ∧ s.Inv ∧ Carries s.chunks (appended es) := by
  rw [← appended_eq_foldl]
  refine run_refines (fun xs e => xs ++ e.lines) (fun s xs => s.Inv ∧ Carries s.chunks xs) ?_
    es construct [] ⟨construct_inv, (carries_nil []).fresh⟩ h
  intro s xs e ⟨hinv, hc⟩ ⟨hen, hshort⟩
  obtain ⟨s', hs', hinv', heff⟩ := step_spec hinv hen hshort.intLen
  exact ⟨s', hs', hinv', heff.carries hshort hc⟩

/-- **Order and whole lines.** In every interleaving no assertion fails, the stream consists of
    whole lines in the order in which they were appended, each at most once, and it is exactly
    the appended lines as long as no iteration has collected more than 25 buffers. -/
theorem log_keeps_order (es : List Event) (h : Along step Legal construct es) :
    ∃ s, run step construct es = some s ∧
      (∃ lines : List Bytes, lines.Sublist (appended es) ∧ s.stream = lines.flatten) ∧
      (Along step NoDrop construct es → s.stream = (appended es).flatten) := by
  obtain ⟨s, hrun, -, hcarries⟩ := run_carries h
  refine ⟨s, hrun, hcarries.lines, fun hno => ?_⟩
  obtain ⟨s', hrun', -, hexact⟩ := run_exact h hno
  rwa [Option.some.inj (hrun.symm.trans hrun')]

/-- Two producers; the second line arrives while the backend writes the first. -/
theorem log_keeps_order_sample :
    ∃ s, run step construct [.start, .append [97, 10], .enter, .test, .lock, .wake, .batch,
        .append [98, 10], .write, .recycle, .test] = some s ∧
      s.stream = [97, 10, 98, 10] := by
  obtain ⟨s, hrun, -, hall⟩ := log_keeps_order [.start, .append [97, 10], .enter, .test, .lock,
    .wake, .batch, .append [98, 10], .write, .recycle, .test] (by decide +kernel)
  exact ⟨s, hrun, hall (by decide +kernel)⟩

end XWeb.Base.AsyncLogging
