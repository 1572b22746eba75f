import XWeb.Base.RioLines
import XWeb.Lib.ReadAhead

/-!
# What a `rio_t` has read ahead

`rio_read` calls `read` only when it has no unread byte left, so that the unread bytes are the end
of the last chunk that was delivered.

* `Reads.chunks`: the chunks a descriptor delivers before end-of-file.
* `Held`: what a `rio_t` has unread, beside the chunks that are still to come.
* `rioReadlineb_held`: a call of `rio_readlineb` keeps it so.
* `rioReadlineb_line`, `rioReadlineb_end`: a call that reads a given line, and one at end-of-file.
-/

namespace XWeb.Base

open XWeb.Lib

namespace Reads

/-- The results of `read` with data, before the first end-of-file. -/
def chunks : Reads → List Bytes
  | .always _ => []
  | .next (.data []) _ => []
  | .next (.data bytes) later => bytes :: later.chunks
  | .next (.error _) later => later.chunks

theorem flatten_chunks (fd : Reads) : fd.chunks.flatten = fd.stream := by
  induction fd with
  | always r => rfl
  | next r later ih =>
    match r with
    | .data [] => rfl
    | .data (b :: bs) => simp [chunks, stream, ih]
    | .error errno => exact ih

theorem Chunked.ne_nil {fd : Reads} (h : fd.Chunked) : ∀ c ∈ fd.chunks, c ≠ [] := by
  induction fd with
  | always r => intro c hc; exact absurd hc List.not_mem_nil
  | next r later ih =>
    match r with
    | .data [] => intro c hc; exact absurd hc List.not_mem_nil
    | .data (b :: bs) =>
      intro c hc
      rcases List.mem_cons.mp hc with rfl | hc
      · exact h.1
      · exact ih h.2.2 c hc
    | .error errno => exact ih h.2

theorem Chunked.chunks_eq_nil {fd : Reads} (h : fd.Chunked) (hs : fd.stream = []) :
    fd.chunks = [] := by
  rw [← flatten_chunks] at hs
  cases hc : fd.chunks with
  | nil => rfl
  | cons c cs =>
    rw [hc, List.flatten_cons] at hs
    exact absurd (List.append_eq_nil_iff.mp hs).1 (h.ne_nil c (hc ▸ List.mem_cons_self))

end Reads

namespace Rio

/-! ## One byte -/

/-- The loop of `rio_read` takes a chunk only if nothing is left. -/
theorem refill_chunks {fd : Reads} (hfd : fd.Chunked) : ∀ (rp : Rio) {rp' : Rio} {ret : Option ℤ}
    {fd' : Reads}, rp.refill fd = some (rp', ret, fd') →
      fd'.chunks = if 0 < rp.rioCnt then fd.chunks else fd.chunks.tail := by
  induction fd with
  | always r =>
    intro rp rp' ret fd' hr
    rw [refill] at hr
    split at hr
    · rename_i hcnt
      obtain ⟨-, -, rfl⟩ : rp = rp' ∧ none = ret ∧ .always r = fd' := by simpa using hr
      rw [if_pos hcnt]
    · rename_i hcnt
      rw [if_neg hcnt]
      simp only at hr
      split at hr
      · obtain ⟨-, -, rfl⟩ : _ ∧ _ ∧ .always r = fd' := by simpa using hr
        rfl
      · exact absurd hr (by simp)
  | next r later ih =>
    intro rp rp' ret fd' hr
    rw [refill] at hr
    split at hr
    · rename_i hcnt
      obtain ⟨-, -, rfl⟩ : rp = rp' ∧ none = ret ∧ .next r later = fd' := by simpa using hr
      rw [if_pos hcnt]
    · rename_i hcnt
      rw [if_neg hcnt]
      cases r with
      | data bytes =>
        cases bytes with
        | nil => exact absurd rfl hfd.1
        | cons b bs =>
          -- the chunk is in the buffer, and the loop is left
          have hpos : 0 < (rp.filled (.data (b :: bs))).1.rioCnt :=
            Int.natCast_pos.mpr (Nat.succ_pos _)
          have hlater := ih hfd.2.2 (rp.filled (.data (b :: bs))).1 hr
          rwa [if_pos hpos] at hlater
      | error errno =>
        obtain ⟨rfl, hlater⟩ := hfd
        have hneg : ¬ 0 < (rp.filled (.error EINTR)).1.rioCnt := show ¬ (0 : ℤ) < -1 by decide
        have hrest := ih hlater (rp.filled (.error EINTR)).1 (by simpa [filled] using hr)
        rwa [if_neg hneg] at hrest

/-- What a `rio_t` has unread has been read ahead of the chunks to come. -/
structure Held (cs : List Bytes) (rp : Rio) (fd : Reads) : Prop where
  wf : rp.Wf
  chunked : fd.Chunked
  ahead : Ahead cs rp.unread fd.chunks

theorem held_init {rioBuf : Bytes} (hbuf : rioBuf.length = RIO_BUFSIZE) {fd : Reads}
    (hfd : fd.Chunked) : Held fd.chunks (init rioBuf) fd := by
  have hnil : (init rioBuf).unread = [] := window_self _ _
  refine ⟨⟨hbuf, Nat.zero_le _⟩, hfd, ?_⟩
  rw [hnil]
  exact ahead_start fd.chunks

/-- Whatever is unread may be the rest of a chunk. -/
theorem held_of_wf {rp : Rio} (h : rp.Wf) {fd : Reads} (hfd : fd.Chunked) : ∃ cs, Held cs rp fd := by
  refine ⟨(0 :: rp.unread) :: fd.chunks, h, hfd, [0 :: rp.unread], rfl, Or.inr ?_⟩
  exact ⟨[], 0 :: rp.unread, rfl, Nat.lt_succ_self _⟩

theorem unread_ne_nil {rp : Rio} (h : rp.Wf) (hcnt : 0 < rp.rioCnt) : rp.unread ≠ [] := by
  have hlen : rp.unread.length = rp.rioCnt.toNat := by
    rw [unread, length_window (by rw [h.size]; exact h.within)]
    omega
  intro hnil
  rw [hnil, List.length_nil] at hlen
  omega

theorem rioRead_held {cs : List Bytes} {rp : Rio} {fd : Reads} (h : Held cs rp fd) {r : Result}
    (hr : rp.rioRead fd 1 = some r) : Held cs r.rp r.fd := by
  obtain ⟨ret, rp₁, hrefill⟩ : ∃ ret rp₁, rp.refill fd = some (rp₁, ret, r.fd) := by
    unfold rioRead at hr
    obtain ⟨⟨rp₁, ret, fd₁⟩, hrefill, hr⟩ := Option.bind_eq_some_iff.mp hr
    refine ⟨ret, rp₁, ?_⟩
    cases ret <;> obtain rfl := Option.some.inj hr <;> exact hrefill
  have hchunks := refill_chunks h.chunked rp hrefill
  cases hs : rp.unread ++ fd.stream with
  | nil =>
    obtain ⟨rp', fd', hr', hwf, hfd, hs'⟩ := rioRead_nil h.wf h.chunked hs
    obtain rfl := Option.some.inj (hr'.symm.trans hr)
    obtain ⟨hu, hnil⟩ := List.append_eq_nil_iff.mp hs
    obtain ⟨hu', hnil'⟩ := List.append_eq_nil_iff.mp hs'
    have hahead := h.ahead
    rw [hu, h.chunked.chunks_eq_nil hnil] at hahead
    refine ⟨hwf, hfd, ?_⟩
    simp only
    rwa [hu', hfd.chunks_eq_nil hnil']
  | cons c s =>
    obtain ⟨rp', fd', hr', hwf, hfd, hs'⟩ := rioRead_cons h.wf h.chunked hs
    obtain rfl := Option.some.inj (hr'.symm.trans hr)
    refine ⟨hwf, hfd, ?_⟩
    have hahead := h.ahead
    simp only at hchunks ⊢
    rw [← Reads.flatten_chunks] at hs hs'
    by_cases hcnt : 0 < rp.rioCnt
    · -- the byte was there
      rw [if_pos hcnt] at hchunks
      obtain ⟨b, u, hu⟩ := List.exists_cons_of_ne_nil (unread_ne_nil h.wf hcnt)
      rw [hu, List.cons_append] at hs
      obtain ⟨rfl, htail⟩ := List.cons.inj hs
      rw [hchunks] at hs'
      rw [List.append_cancel_right (hs'.trans htail.symm), hchunks]
      rw [hu] at hahead
      exact hahead.take
    · rw [if_neg hcnt] at hchunks
      have hnil : rp.unread = [] := unread_of_nonpos (by omega)
      rw [hnil] at hahead hs
      cases hfdc : fd.chunks with
      | nil => rw [hfdc] at hs; exact absurd hs (by simp)
      | cons d ds =>
        rw [hfdc] at hahead hs
        obtain ⟨b, u, rfl⟩ := List.exists_cons_of_ne_nil
          (h.chunked.ne_nil d (hfdc ▸ List.mem_cons_self))
        rw [hfdc, List.tail_cons] at hchunks
        rw [List.nil_append, List.flatten_cons, List.cons_append] at hs
        obtain ⟨rfl, htail⟩ := List.cons.inj hs
        rw [hchunks] at hs'
        rw [List.append_cancel_right (hs'.trans htail.symm), hchunks]
        exact hahead.refill

/-! ## One line -/

theorem loop_held {cs : List Bytes} (k : ℕ) : ∀ {l l' : Readlineb} {ret : Option ℤ},
    Held cs l.rp l.fd → Readlineb.loop k l = some (ret, l') → Held cs l'.rp l'.fd := by
  induction k with
  | zero =>
    intro l l' ret h hl
    obtain ⟨-, rfl⟩ : none = ret ∧ l = l' := by simpa [Readlineb.loop] using hl
    exact h
  | succ k ih =>
    intro l l' ret h hl
    rw [Readlineb.loop] at hl
    obtain ⟨r, hr, hl⟩ := Option.bind_eq_some_iff.mp hl
    have hheld := rioRead_held h hr
    simp only at hl
    split at hl
    · obtain ⟨usrbuf, -, hl⟩ := Option.bind_eq_some_iff.mp hl
      split_ifs at hl with hc hint
      · obtain ⟨-, rfl⟩ := Prod.mk.inj (Option.some.inj hl)
        exact hheld
      · exact ih hheld hl
    · split_ifs at hl <;> obtain ⟨-, rfl⟩ := Prod.mk.inj (Option.some.inj hl) <;> exact hheld

theorem rioReadlineb_held {cs : List Bytes} {rp : Rio} {fd : Reads} (h : Held cs rp fd)
    {usrbuf : Bytes} {maxlen : ℕ} {ret : ℤ} {l : Readlineb}
    (hr : rp.rioReadlineb fd usrbuf maxlen = some (ret, l)) : Held cs l.rp l.fd := by
  unfold rioReadlineb at hr
  obtain ⟨⟨ret', l'⟩, hl, hr⟩ := Option.bind_eq_some_iff.mp hr
  have hheld := loop_held (maxlen - 1) (l := { n := 1, bufp := 0, usrbuf, rp, fd }) h hl
  cases ret' with
  | some v =>
    obtain ⟨-, rfl⟩ := Prod.mk.inj (Option.some.inj hr)
    exact hheld
  | none =>
    obtain ⟨usrbuf', -, hr⟩ := Option.bind_eq_some_iff.mp hr
    obtain ⟨-, rfl⟩ := Prod.mk.inj (Option.some.inj hr)
    exact hheld

/-- With nothing left a call returns `0` and stores nothing. -/
theorem rioReadlineb_end {cs : List Bytes} {rp : Rio} {fd : Reads} (h : Held cs rp fd)
    (hs : rp.unread ++ fd.stream = []) (usrbuf : Bytes) (maxlen : ℕ) (hmax : 2 ≤ maxlen) :
    ∃ l, rp.rioReadlineb fd usrbuf maxlen = some (0, l) ∧ l.usrbuf = usrbuf ∧ Held cs l.rp l.fd ∧
      l.rp.unread ++ l.fd.stream = [] := by
  obtain ⟨rp', fd', hr, -, -, hs'⟩ := rioRead_nil h.wf h.chunked hs
  obtain ⟨k, rfl⟩ : ∃ k, maxlen = k + 2 := ⟨maxlen - 2, by omega⟩
  have hcall : rp.rioReadlineb fd usrbuf (k + 2) =
      some (0, { n := 1, bufp := 0, usrbuf, rp := rp', fd := fd' }) := by
    simp [rioReadlineb, Readlineb.loop, hr]
  exact ⟨_, hcall, rfl, rioReadlineb_held h hcall, hs'⟩

/-- A call that has `line` in front of it stores `line` and a NUL. -/
theorem rioReadlineb_line {cs : List Bytes} {rp : Rio} {fd : Reads} (h : Held cs rp fd)
    {line s : Bytes} (hs : rp.unread ++ fd.stream = line ++ s) (hne : line ≠ []) {usrbuf : Bytes}
    {maxlen : ℕ} (hlen : usrbuf.length = maxlen) (hmax : 2 ≤ maxlen) (hint : maxlen < 2 ^ 31)
    (hline : firstLine newline (maxlen - 1) (line ++ s) = line) :
    ∃ ret l, rp.rioReadlineb fd usrbuf maxlen = some (ret, l) ∧ ret ≠ 0 ∧ Held cs l.rp l.fd ∧
      l.rp.unread ++ l.fd.stream = s ∧ l.usrbuf.length = maxlen ∧ l.stored = line ∧
      l.usrbuf[l.bufp]? = some 0 := by
  obtain ⟨ret, l, hcall, -, -, hret, hrest⟩ := rioReadlineb_spec h.wf h.chunked hlen hmax hint
  have hnz : ret ≠ 0 := by
    intro h0
    rw [hret.mp h0] at hs
    exact hne (List.append_eq_nil_iff.mp hs.symm).1
  obtain ⟨hst, hrem, hlen', hnul⟩ := hrest hnz
  rw [hs, hline] at hst
  rw [hs, hst, List.drop_left] at hrem
  exact ⟨ret, l, hcall, hnz, rioReadlineb_held h hcall, hrem, hlen', hst, hnul⟩

end Rio

end XWeb.Base
