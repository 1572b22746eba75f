import XWeb.Base.RioLines

/-!
# What `rio_readlineb` returns

The counter `n` of `rio_readlineb` (`base/rio.cpp` lines 77–94) starts at `1`, and the `for` loop
increments it behind every byte but a newline. So it is the number of bytes stored when a newline
ends the loop, and one more when anything else does.

* `Readlineb.loop_exit`: the counter at each exit of the loop.
* `Readlineb.loop_line`: a line that ends in time.
* `readlineb_length_iff`: when the value returned is the number of bytes stored.
-/

namespace XWeb.Base

open XWeb.Lib

namespace Rio

namespace Readlineb

/-- A newline comes within the first `k` bytes. -/
def EndsWithin (k : ℕ) (s : Bytes) : Prop :=
  ∃ text rest, s = text ++ newline :: rest ∧ newline ∉ text ∧ text.length < k

theorem endsWithin_cons {c : UInt8} (hc : c ≠ newline) (k : ℕ) (s : Bytes) :
    EndsWithin (k + 1) (c :: s) ↔ EndsWithin k s := by
  constructor
  · rintro ⟨text, rest, hs, hsep, hlen⟩
    cases text with
    | nil => exact absurd (List.cons.inj hs).1 hc
    | cons d text =>
      obtain ⟨rfl, htail⟩ := List.cons.inj hs
      exact ⟨text, rest, htail, fun h => hsep (List.mem_cons_of_mem _ h), Nat.lt_of_succ_lt_succ hlen⟩
  · rintro ⟨text, rest, rfl, hsep, hlen⟩
    refine ⟨c :: text, rest, rfl, ?_, Nat.succ_lt_succ hlen⟩
    rw [List.mem_cons, not_or]
    exact ⟨hc.symm, hsep⟩

/-- While the loop runs the counter is one ahead of the bytes stored. -/
structure Counting (k : ℕ) (l : Readlineb) : Prop where
  wf : l.rp.Wf
  chunked : l.fd.Chunked
  room : l.bufp + k < l.usrbuf.length
  ahead : l.n = l.bufp + 1
  fits : l.n < 2 ^ 31

/-- The counter at the three exits of the loop: at a newline, when `maxlen` or the end of the stream
    is reached, and at the end before any byte. -/
inductive Exit (k : ℕ) (l l' : Readlineb) : Option ℤ → Prop
  | line (text rest : Bytes) : l.remaining = text ++ newline :: rest → newline ∉ text →
      text.length < k → l'.bufp = l.bufp + text.length + 1 → l'.n = l'.bufp → l'.n < 2 ^ 31 →
      Exit k l l' none
  | other : ¬ EndsWithin k l.remaining → l'.n = l'.bufp + 1 → Exit k l l' none
  | nothing : l.remaining = [] → 0 < k → l.bufp = 0 → l'.bufp = 0 → Exit k l l' (some 0)

/-- The end of the stream, before any byte or after some. -/
theorem Counting.exit_nil {k : ℕ} {l l' : Readlineb} {ret : Option ℤ} (h : l.Counting (k + 1))
    (hs : l.remaining = []) (hl : loop (k + 1) l = some (ret, l')) :
    Exit (k + 1) l l' ret ∧ l'.bufp < l'.usrbuf.length := by
  have hroom := h.room
  have hahead := h.ahead
  obtain ⟨rp', fd', hr, -, -, -⟩ := rioRead_nil h.wf h.chunked hs
  have hnone : ¬ EndsWithin (k + 1) l.remaining := by
    rw [hs]
    rintro ⟨text, rest, hnil, -, -⟩
    exact absurd hnil (by simp)
  simp only [loop, hr, Option.bind_eq_bind, Option.bind_some] at hl
  rw [if_neg (by decide), if_pos trivial] at hl
  split_ifs at hl with hn
  · obtain ⟨rfl, rfl⟩ := Prod.mk.inj (Option.some.inj hl)
    exact ⟨.nothing hs (Nat.succ_pos k) (by omega) (by simp only; omega), by simp only; omega⟩
  · obtain ⟨rfl, rfl⟩ := Prod.mk.inj (Option.some.inj hl)
    exact ⟨.other hnone hahead, by simp only; omega⟩

/-- One byte more in front, which is not a newline. -/
theorem Exit.cons {k : ℕ} {l m l' : Readlineb} {ret : Option ℤ} {c : UInt8}
    (hs : l.remaining = c :: m.remaining) (hc : c ≠ newline) (hbufp : m.bufp = l.bufp + 1)
    (h : Exit k m l' ret) : Exit (k + 1) l l' ret := by
  have hiff := endsWithin_cons hc k m.remaining
  rw [← hs] at hiff
  cases h with
  | line text rest hline hsep hlen hend hn hn' =>
    refine .line (c :: text) rest (by rw [hs, hline]; rfl) ?_ (Nat.succ_lt_succ hlen) ?_ hn hn'
    · rw [List.mem_cons, not_or]
      exact ⟨Ne.symm hc, hsep⟩
    · rw [hend, hbufp, List.length_cons]
      omega
  | other hnone hn => exact .other (fun hline => hnone (hiff.mp hline)) hn
  | nothing _ _ hzero _ => omega

theorem loop_exit (k : ℕ) : ∀ {l l' : Readlineb} {ret : Option ℤ}, l.Counting k →
    loop k l = some (ret, l') → Exit k l l' ret ∧ l'.bufp < l'.usrbuf.length := by
  induction k with
  | zero =>
    intro l l' ret h hl
    obtain ⟨rfl, rfl⟩ : none = ret ∧ l = l' := by simpa [loop] using hl
    refine ⟨.other ?_ h.ahead, h.room⟩
    rintro ⟨text, rest, -, -, hlen⟩
    exact absurd hlen (Nat.not_lt_zero _)
  | succ k ih =>
    intro l l' ret h hl
    have hroom := h.room
    have hahead := h.ahead
    have hfits := h.fits
    cases hs : l.remaining with
    | nil => exact h.exit_nil hs hl
    | cons c s =>
      obtain ⟨rp', fd', hr, hwf, hfd, hs'⟩ := rioRead_cons h.wf h.chunked hs
      have hlt : l.bufp < l.usrbuf.length := by omega
      have hlen := length_storeAt hlt c
      rw [loop_byte hr hlt] at hl
      by_cases hc : c = newline
      · rw [if_pos hc] at hl
        obtain ⟨rfl, rfl⟩ := Prod.mk.inj (Option.some.inj hl)
        refine ⟨.line [] s (by rw [hs, hc]; rfl) (by simp) (Nat.succ_pos k) rfl
          hahead hfits, ?_⟩
        simp only [hlen]
        omega
      · rw [if_neg hc] at hl
        split_ifs at hl with hint
        obtain ⟨hexit, hend⟩ := ih
          ⟨hwf, hfd, by simp only [hlen]; omega, by simp only; omega, by simp only; omega⟩ hl
        refine ⟨hexit.cons ?_ hc rfl, hend⟩
        rw [hs, ← hs']
        rfl

/-- A line that ends before the block and the counter do. -/
theorem loop_line {text : Bytes} : ∀ {k : ℕ} {l : Readlineb} {rest : Bytes}, l.Counting k →
    l.remaining = text ++ newline :: rest → newline ∉ text → text.length < k →
    l.n + text.length < 2 ^ 31 → ∃ l', loop k l = some (none, l') := by
  induction text with
  | nil =>
    intro k l rest h hs _ hlen _
    obtain ⟨k, rfl⟩ := Nat.exists_eq_succ_of_ne_zero (Nat.ne_of_gt hlen)
    have hroom := h.room
    obtain ⟨rp', fd', hr, -, -, -⟩ := rioRead_cons h.wf h.chunked hs
    exact ⟨_, (loop_byte hr (by omega)).trans (if_pos rfl)⟩
  | cons c text ih =>
    intro k l rest h hs hsep hlen hint
    obtain ⟨k, rfl⟩ := Nat.exists_eq_succ_of_ne_zero (Nat.ne_of_gt (Nat.zero_lt_of_lt hlen))
    have hroom := h.room
    have hahead := h.ahead
    obtain ⟨hc, hsep⟩ := not_or.mp (mt List.mem_cons.mpr hsep)
    obtain ⟨rp', fd', hr, hwf, hfd, hs'⟩ := rioRead_cons h.wf h.chunked hs
    have hlt : l.bufp < l.usrbuf.length := by omega
    have hsize := length_storeAt hlt c
    rw [List.length_cons] at hlen hint
    obtain ⟨l', hl'⟩ := ih (k := k) (l :=
      { n := l.n + 1, bufp := l.bufp + 1, usrbuf := overwrite l.usrbuf l.bufp [c], rp := rp',
        fd := fd' })
      ⟨hwf, hfd, by simp only [hsize]; omega, by simp only; omega, by simp only; omega⟩ hs' hsep
      (by omega) (by simp only; omega)
    refine ⟨l', ?_⟩
    rw [loop_byte hr hlt, if_neg (Ne.symm hc), if_pos (by omega), hl']

end Readlineb

variable {rp : Rio} {fd : Reads} {usrbuf : Bytes} {maxlen : ℕ}

/-- The variables before the loop. -/
theorem counting_start (h : rp.Wf) (hfd : fd.Chunked) (hmax : 1 ≤ maxlen)
    (hlen : maxlen ≤ usrbuf.length) :
    Readlineb.Counting (maxlen - 1) { n := 1, bufp := 0, usrbuf, rp, fd } := by
  exact ⟨h, hfd, by simp only; omega, rfl, show 1 < 2 ^ 31 by decide⟩

/-- The number of bytes stored. -/
theorem length_stored {l : Readlineb} (h : l.bufp ≤ l.usrbuf.length) : l.stored.length = l.bufp := by
  rw [Readlineb.stored, length_window h, Nat.sub_zero]

/-- What `rio_readlineb` returns is the counter, once it has stored a NUL. -/
theorem readlineb_of_loop {l : Readlineb}
    (hl : Readlineb.loop (maxlen - 1) { n := 1, bufp := 0, usrbuf, rp, fd } = some (none, l))
    (hend : l.bufp < l.usrbuf.length) :
    rp.rioReadlineb fd usrbuf maxlen =
      some ((l.n : ℤ), { l with usrbuf := overwrite l.usrbuf l.bufp [0] }) := by
  simp [rioReadlineb, hl, storeAt_of_lt hend]

/-- The ways in which the value returned is the number of bytes stored. -/
def Counts (maxlen : ℕ) (s : Bytes) : Prop :=
  (∃ text rest, s = text ++ newline :: rest ∧ newline ∉ text ∧ text.length + 1 < maxlen ∧
    text.length + 1 < 2 ^ 31) ∨
  s = [] ∧ 2 ≤ maxlen

/-- A value that is not the number of bytes stored is one more. -/
theorem readlineb_value (h : rp.Wf) (hfd : fd.Chunked) (hmax : 1 ≤ maxlen)
    (hlen : maxlen ≤ usrbuf.length) {ret : ℤ} {l : Readlineb}
    (hcall : rp.rioReadlineb fd usrbuf maxlen = some (ret, l)) :
    ret = l.stored.length ∧ Counts maxlen (rp.unread ++ fd.stream) ∨ ret = l.stored.length + 1 := by
  obtain ⟨⟨ret', l'⟩, hl, hrest⟩ := Option.bind_eq_some_iff.mp hcall
  obtain ⟨hexit, hend⟩ := Readlineb.loop_exit _ (counting_start h hfd hmax hlen) hl
  have hstored : (Readlineb.stored { l' with usrbuf := overwrite l'.usrbuf l'.bufp [0] }).length =
      l'.bufp := by
    have hkeep : Readlineb.stored { l' with usrbuf := overwrite l'.usrbuf l'.bufp [0] } = l'.stored :=
      window_storeAt hend 0
    rw [hkeep, length_stored (Nat.le_of_lt hend)]
  cases hexit with
  | line text rest hs hsep htext hbufp hn hint =>
    obtain ⟨rfl, rfl⟩ := Prod.mk.inj (Option.some.inj ((readlineb_of_loop hl hend).symm.trans hcall))
    simp only at hbufp
    left
    refine ⟨by rw [hstored, hn], Or.inl ⟨_, _, hs, hsep, by omega, by omega⟩⟩
  | other hnone hn =>
    obtain ⟨rfl, rfl⟩ := Prod.mk.inj (Option.some.inj ((readlineb_of_loop hl hend).symm.trans hcall))
    right
    rw [hstored, hn]
    rfl
  | nothing hnil hpos _ hzero =>
    obtain ⟨rfl, rfl⟩ := Prod.mk.inj (Option.some.inj hrest)
    left
    refine ⟨?_, Or.inr ⟨hnil, by omega⟩⟩
    rw [length_stored (Nat.le_of_lt hend), hzero]
    rfl

/-- A line that ends in time, and nothing to read. -/
theorem readlineb_counts (h : rp.Wf) (hfd : fd.Chunked) (hlen : maxlen ≤ usrbuf.length)
    (hs : Counts maxlen (rp.unread ++ fd.stream)) :
    ∃ ret l, rp.rioReadlineb fd usrbuf maxlen = some (ret, l) ∧ ret = l.stored.length := by
  obtain ⟨text, rest, hs, hsep, htext, hint⟩ | ⟨hnil, htwo⟩ := hs
  · have hstart := counting_start h hfd (show 1 ≤ maxlen by omega) hlen
    obtain ⟨l, hl⟩ := Readlineb.loop_line hstart hs hsep (by omega) (by simp only; omega)
    obtain ⟨hexit, hend⟩ := Readlineb.loop_exit _ hstart hl
    have hkeep : Readlineb.stored { l with usrbuf := overwrite l.usrbuf l.bufp [0] } = l.stored :=
      window_storeAt hend 0
    refine ⟨_, _, readlineb_of_loop hl hend, ?_⟩
    rw [hkeep, length_stored (Nat.le_of_lt hend)]
    cases hexit with
    | line _ _ _ _ _ _ hn _ => rw [hn]
    | other hnone _ => exact absurd ⟨text, rest, hs, hsep, by omega⟩ hnone
  · obtain ⟨rp', fd', hr, -, -, -⟩ := rioRead_nil h hfd hnil
    obtain ⟨k, rfl⟩ : ∃ k, maxlen = k + 2 := ⟨maxlen - 2, by omega⟩
    refine ⟨0, { n := 1, bufp := 0, usrbuf, rp := rp', fd := fd' }, ?_, ?_⟩
    · simp [rioReadlineb, Readlineb.loop, hr]
    · rw [length_stored (Nat.zero_le _)]
      rfl

end Rio

open Rio in
/-- **When the length is right.** For every stream, every way of cutting it and interrupting the calls,
    and every `maxlen`, `rio_readlineb` returns the number of bytes that it stores before the NUL
    exactly if a newline comes before `maxlen` and before the counter overflows, or there is nothing
    to read and `maxlen` is not `1`. -/
theorem readlineb_length_iff {rp : Rio} (h : rp.Wf) {fd : Reads} (hfd : fd.Chunked) {usrbuf : Bytes}
    {maxlen : ℕ} (hmax : 1 ≤ maxlen) (hlen : maxlen ≤ usrbuf.length) :
    (∃ ret l, rp.rioReadlineb fd usrbuf maxlen = some (ret, l) ∧ ret = l.stored.length) ↔
      (∃ text rest, rp.unread ++ fd.stream = text ++ newline :: rest ∧ newline ∉ text ∧
        text.length + 1 < maxlen ∧ text.length + 1 < 2 ^ 31) ∨
      rp.unread ++ fd.stream = [] ∧ 2 ≤ maxlen := by
  constructor
  · rintro ⟨ret, l, hcall, hret⟩
    obtain ⟨-, hcounts⟩ | hmore := readlineb_value h hfd hmax hlen hcall
    · exact hcounts
    · omega
  · exact fun hcounts => readlineb_counts h hfd hlen hcounts

open Rio in
theorem readlineb_length_iff_sample :
    ∃ ret l, (Rio.init (List.replicate RIO_BUFSIZE 0)).rioReadlineb cutLine (List.replicate 80 255) 80 =
      some (ret, l) ∧ ret = l.stored.length := by
  have hwf : (Rio.init (List.replicate RIO_BUFSIZE 0)).Wf := ⟨List.length_replicate, Nat.zero_le _⟩
  have hfd : cutLine.Chunked := ⟨rfl, by decide, by decide, by decide, by decide, rfl⟩
  have hnil : (Rio.init (List.replicate RIO_BUFSIZE 0)).unread = [] := window_self _ _
  refine (readlineb_length_iff hwf hfd (by decide) (Nat.le_of_eq List.length_replicate.symm)).mpr
    (Or.inl ⟨[97, 13], [98], ?_, by decide⟩)
  rw [hnil]
  rfl

open Rio in
/-- The last line of a stream has one byte and no newline. -/
theorem readlineb_truncated_line :
    ∃ l, (Rio.init (List.replicate RIO_BUFSIZE 0)).rioReadlineb
        (.next (.data [98]) (.always (.data []))) (List.replicate 80 255) 80 = some (2, l) ∧
      l.stored = [98] := by
  have hwf : (Rio.init (List.replicate RIO_BUFSIZE 0)).Wf := ⟨List.length_replicate, Nat.zero_le _⟩
  have hfd : Reads.Chunked (.next (.data [98]) (.always (.data []))) := ⟨by decide, by decide, rfl⟩
  have hbuf : (List.replicate 80 (255 : UInt8)).length = 80 := List.length_replicate
  have hs : (Rio.init (List.replicate RIO_BUFSIZE 0)).unread ++
      Reads.stream (.next (.data [98]) (.always (.data []))) = [98] := by
    rw [show (Rio.init (List.replicate RIO_BUFSIZE 0)).unread = [] from window_self _ _]
    rfl
  obtain ⟨ret, l, hcall, -, -, hret, hline⟩ :=
    rioReadlineb_spec hwf hfd hbuf (by decide) (by decide)
  rw [hs] at hret hline
  obtain ⟨hst, -⟩ := hline (mt hret.mp (by decide))
  have hstored : l.stored = [98] := hst.trans (by decide)
  obtain ⟨-, hcounts⟩ | hmore := readlineb_value hwf hfd (by decide) (Nat.le_of_eq hbuf.symm) hcall
  · rw [hs] at hcounts
    obtain ⟨text, rest, he, -⟩ | ⟨hnil, -⟩ := hcounts
    · have hmem : newline ∈ ([98] : Bytes) := by rw [he]; simp
      exact absurd hmem (by decide)
    · exact absurd hnil (by decide)
  · rw [hstored] at hmore
    exact ⟨l, by rw [hcall, hmore]; rfl, hstored⟩

end XWeb.Base
