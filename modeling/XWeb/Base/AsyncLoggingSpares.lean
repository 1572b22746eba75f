import XWeb.Base.AsyncLoggingOrder

/-!
# The spare buffers

`threadFunc` takes two spares from the batch it has written, and `append` takes the one that the
backend left in `nextBuffer_`. What makes the spares last is the relation that
`AsyncLogging.Inv` keeps: the second spare is gone only if two buffers were collected.

* `Asserts`: the assertions of `threadFunc`, each at its place.
* `Inv.asserts`: the invariant implies them.
* `buffers_never_dry`: no buffer that is used is missing, in any interleaving.
-/

namespace XWeb.Base.AsyncLogging

open XWeb.Lib

instance : ∀ e : Event, Decidable e.IntLen
  | .append _ => inferInstanceAs (Decidable (_ < _))
  | .start | .enter | .test | .lock | .wake | .batch | .write | .recycle | .stop | .clear | .notify
  | .join => instDecidableTrue

/-- The assertions of `threadFunc` (lines 54, 65–67, 83, 109 and 117). The last two are about what
    `resize(2)` leaves of `buffersToWrite`, before and after the first refill. -/
structure Asserts (s : AsyncLogging) : Prop where
  entering : s.backend = .entering → s.running = true
  top : s.backend = .top →
    isSpare s.newBuffer1 = true ∧ isSpare s.newBuffer2 = true ∧ s.buffersToWrite = []
  batch : s.backend = .batch → s.buffersToWrite ≠ []
  refill1 : s.backend = .writing s.buffersToWrite.length → s.newBuffer1 = none →
    s.buffersToWrite.take 2 ≠ []
  refill2 : s.backend = .writing s.buffersToWrite.length → s.newBuffer2 = none →
    ∃ new1 rest, refill s.newBuffer1 (s.buffersToWrite.take 2) = some (new1, rest) ∧ rest ≠ []

theorem Inv.asserts {s : AsyncLogging} (h : s.Inv) : s.Asserts := by
  have hB := h.backend
  constructor
  · intro hb
    simp only [BackendInv, hb] at hB
    exact hB.2.2
  · intro hb
    simp only [BackendInv, hb] at hB
    obtain ⟨hw, h1, h2⟩ := hB
    exact ⟨h1.isSpare, h2.isSpare, hw⟩
  · intro hb
    simp only [BackendInv, hb] at hB
    exact hB.2.1
  · intro hb _
    simp only [BackendInv, hb] at hB
    have hpos := List.length_pos_iff.mpr hB.2.1
    apply List.ne_nil_of_length_pos
    rw [List.length_take]
    omega
  · intro hb hnone
    simp only [BackendInv, hb] at hB
    obtain ⟨h1, hne, h2⟩ := hB
    -- the second spare was given away, so two buffers are in hand
    have hlen : 2 ≤ s.buffersToWrite.length := by
      rcases h2 with ⟨b, hb2, -⟩ | ⟨-, hlen⟩
      · rw [hnone] at hb2
        exact absurd hb2 (by simp)
      · exact hlen
    have htake : (s.buffersToWrite.take 2).length = 2 := by
      rw [List.length_take]
      omega
    have hheld : ∀ p ∈ s.buffersToWrite.take 2, Held p := fun p hp =>
      h.toWrite p (List.mem_of_mem_take hp)
    obtain ⟨p, hp, -⟩ := refill_none hheld (List.ne_nil_of_length_pos (by omega))
    rw [h1]
    refine ⟨p, _, hp, List.ne_nil_of_length_pos ?_⟩
    rw [List.length_dropLast]
    omega

/-- What `append` installs in place of a full buffer is empty. -/
theorem Inv.fresh {s : AsyncLogging} (h : s.Inv) :
    (s.nextBuffer.getD FixedBuffer.new).length = 0 := by
  have hnil : (s.nextBuffer.getD FixedBuffer.new).data = [] := by
    obtain ⟨b, hb, hclean⟩ | ⟨hnone, -⟩ := h.next
    · rw [hb]
      exact hclean
    · rw [hnone]
      rfl
  have hspare : (s.nextBuffer.getD FixedBuffer.new).Spare :=
    FixedBuffer.spare_of_nil hnil (by decide)
  rw [hspare.length_eq kLargeBuffer_lt, hnil]
  rfl

/-- **The buffers never run dry.** In every interleaving of `append` calls, with lines of any
    length, and the steps of the backend, no step fails. `currentBuffer_` is there, `nextBuffer_` is
    missing only while `buffers_` holds a buffer, what `append` would install next is empty, and
    every assertion of `threadFunc` holds where the backend meets it. -/
theorem buffers_never_dry (es : List Event)
    (h : Along step (fun s e => s.Enabled e ∧ e.IntLen) construct es) :
    ∃ s, run step construct es = some s ∧
      (∃ cur, s.currentBuffer = some cur) ∧
      (s.nextBuffer = none → s.buffers ≠ []) ∧
      (s.nextBuffer.getD FixedBuffer.new).length = 0 ∧
      s.Asserts := by
  obtain ⟨s, hrun, hinv⟩ := run_total (fun s e hI he => by
    obtain ⟨s', hs', hinv, -⟩ := step_spec hI he.1 he.2
    exact ⟨s', hs', hinv⟩) es construct construct_inv h
  obtain ⟨cur, hcur, -⟩ := hinv.current
  refine ⟨s, hrun, ⟨cur, hcur⟩, fun hnone => ?_, hinv.fresh, hinv.asserts⟩
  rcases hinv.next with ⟨b, hb, -⟩ | ⟨-, hne⟩
  · rw [hnone] at hb
    exact absurd hb (by simp)
  · exact hne

/-- One iteration of the backend, with a line that comes while it waits. -/
theorem buffers_never_dry_sample :
    ∃ s, run step construct [.start, .append [97, 10], .enter, .test, .lock, .append [98, 10], .wake,
        .batch, .write, .recycle, .test] = some s ∧ s.Asserts := by
  obtain ⟨s, hrun, -, -, -, hasserts⟩ := buffers_never_dry [.start, .append [97, 10], .enter, .test,
    .lock, .append [98, 10], .wake, .batch, .write, .recycle, .test] (by decide +kernel)
  exact ⟨s, hrun, hasserts⟩

end XWeb.Base.AsyncLogging
