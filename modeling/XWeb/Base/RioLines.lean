import XWeb.Base.Memory
import XWeb.Base.Rio
import XWeb.Lib.Lines

/-!
# Reading lines

Model of `rio_readlineb` (`base/rio.cpp` lines 77–94) into a block of the caller's memory. A store
outside the block makes the call `none`, and so does an overflow of the counter `n`, which is an
`int`.

* `Readlineb.loop_ends`, `Readlineb.loop_spec`: the loop stores the first line of what is left.
* `rioReadlineb_spec`: so does the call, with a NUL behind it; with nothing left it returns `0`.
* `rioReadlineb_error`: a call on a descriptor that fails at the end.
* `readlineb_transparent`: all calls together store the lines of the stream, however `read` cut it.
-/

namespace XWeb.Base

open XWeb.Lib

namespace Rio

/-- The variables of `rio_readlineb`; `bufp` is an offset in `usrbuf`. -/
structure Readlineb where
  n : ℕ
  bufp : ℕ
  usrbuf : Bytes
  rp : Rio
  fd : Reads

namespace Readlineb

/-- The bytes stored so far. -/
def stored (l : Readlineb) : Bytes := window l.usrbuf 0 l.bufp

/-- What the calls to come can store. -/
def remaining (l : Readlineb) : Bytes := l.rp.unread ++ l.fd.stream

/-- The loop (lines 80–91) when `maxlen - n` is `k`: the value returned from inside it, or `none` if
    it is left. -/
def loop : ℕ → Readlineb → Option (Option ℤ × Readlineb)
  | 0, l => some (none, l)
  | k + 1, l => do
    let r ← l.rp.rioRead l.fd 1
    let l := { l with rp := r.rp, fd := r.fd }
    if r.ret = 1 then
      let c := r.usrbuf.headD 0
      let usrbuf ← storeAt l.usrbuf l.bufp c
      let l := { l with usrbuf, bufp := l.bufp + 1 }
      if c = newline then some (none, l)
      else if l.n + 1 < 2 ^ 31 then loop k { l with n := l.n + 1 } else none
    else if r.ret = 0 then
      if l.n = 1 then some (some 0, l) else some (none, l)
    else some (some (-1), l)

end Readlineb

/-- `rio_readlineb`: what it returns, and its variables at the end. -/
def rioReadlineb (rp : Rio) (fd : Reads) (usrbuf : Bytes) (maxlen : ℕ) :
    Option (ℤ × Readlineb) := do
  let (ret, l) ← Readlineb.loop (maxlen - 1) { n := 1, bufp := 0, usrbuf, rp, fd }
  match ret with
  | some v => some (v, l)
  | none =>
    let usrbuf ← storeAt l.usrbuf l.bufp 0
    some (l.n, { l with usrbuf })

/-- Calls of `rio_readlineb` until one returns `0`; `usrbuf i` is the memory of the `i`-th. `none` if
    that takes more than the given number of calls. -/
def readLines (maxlen : ℕ) (usrbuf : ℕ → Bytes) : ℕ → ℕ → Rio → Reads → Option (List Readlineb)
  | 0, _, _, _ => none
  | calls + 1, i, rp, fd => do
    let (ret, l) ← rp.rioReadlineb fd (usrbuf i) maxlen
    if ret = 0 then some []
    else
      let ls ← readLines maxlen usrbuf calls (i + 1) l.rp l.fd
      some (l :: ls)

/-! ## The loop -/

namespace Readlineb

/-- The variables while `k` more bytes may be stored. -/
structure Ready (k : ℕ) (l : Readlineb) : Prop where
  wf : l.rp.Wf
  chunked : l.fd.Chunked
  room : l.bufp + k < l.usrbuf.length
  counts : l.n + k < 2 ^ 31
  started : 0 < l.n

/-- The loop once `rio_read` has returned a byte. -/
theorem loop_byte {k : ℕ} {l : Readlineb} {c : UInt8} {rp : Rio} {fd : Reads}
    (hr : l.rp.rioRead l.fd 1 = some { ret := 1, usrbuf := [c], rp := rp, fd := fd })
    (hlt : l.bufp < l.usrbuf.length) :
    loop (k + 1) l =
      if c = newline then
        some (none, { n := l.n, bufp := l.bufp + 1, usrbuf := overwrite l.usrbuf l.bufp [c], rp, fd })
      else if l.n + 1 < 2 ^ 31 then
        loop k
          { n := l.n + 1, bufp := l.bufp + 1, usrbuf := overwrite l.usrbuf l.bufp [c], rp, fd }
      else none := by
  rw [loop, hr]
  show (storeAt l.usrbuf l.bufp c).bind _ = _
  rw [storeAt_of_lt hlt]
  rfl

/-- A line that is followed by a NUL in any case: it is full or ends with a newline. -/
def Complete (k : ℕ) (line : Bytes) : Prop := line.length = k ∨ line.getLast? = some newline

instance (k : ℕ) (line : Bytes) : Decidable (Complete k line) :=
  inferInstanceAs (Decidable (_ ∨ _))

theorem complete_cons {c : UInt8} (hc : c ≠ newline) (k : ℕ) (line : Bytes) :
    Complete (k + 1) (c :: line) ↔ Complete k line := by
  cases line with
  | nil => simp [Complete, hc, eq_comm]
  | cons d line => simp [Complete, List.getLast?_cons_cons]

/-- The value returned from inside the loop where the bytes end. -/
def endValue (r : ReadOutcome) (n : ℕ) : Option ℤ :=
  match r with
  | .data _ => if n = 1 then some 0 else none
  | .error _ => some (-1)

/-- A round in which there is no byte. -/
theorem loop_nil {r : ReadOutcome} (k : ℕ) {l : Readlineb} (h : l.rp.Wf) (hfd : l.fd.Delivers r)
    (hs : l.remaining = []) :
    ∃ rp' fd', loop (k + 1) l = some (endValue r l.n, { l with rp := rp', fd := fd' }) ∧ rp'.Wf ∧
      fd'.Delivers r ∧ remaining { l with rp := rp', fd := fd' } = [] := by
  obtain ⟨rp', fd', hr, hwf, hfd', hs'⟩ := rioRead_end h hfd hs
  refine ⟨rp', fd', ?_, hwf, hfd', hs'⟩
  simp only [loop, hr, Option.bind_eq_bind, Option.bind_some]
  cases r with
  | data bytes =>
    simp only [ReadOutcome.exit, endValue]
    rw [if_neg (by decide), if_pos trivial]
    by_cases hn : l.n = 1 <;> simp [hn]
  | error errno => rfl

theorem loop_ends {r : ReadOutcome} (k : ℕ) : ∀ {l : Readlineb}, l.rp.Wf → l.fd.Delivers r →
    l.bufp + k < l.usrbuf.length → l.n + k < 2 ^ 31 → ∀ {line : Bytes},
    line = firstLine newline k l.remaining →
    ∃ l', loop k l = some (if Complete k line then none else endValue r (l.n + line.length), l') ∧
      l'.rp.Wf ∧ l'.fd.Delivers r ∧ l'.remaining = l.remaining.drop line.length ∧
      l'.usrbuf = overwrite l.usrbuf l.bufp line ∧ l'.bufp = l.bufp + line.length ∧
      l.n ≤ l'.n ∧ l'.n ≤ l.n + line.length := by
  induction k with
  | zero =>
    rintro l h hfd - - line rfl
    exact ⟨l, by simp [loop, firstLine, Complete], h, hfd, rfl, by simp [firstLine], rfl, le_rfl,
      le_rfl⟩
  | succ k ih =>
    rintro l h hfd hroom hcounts line rfl
    cases hs : l.remaining with
    | nil =>
      obtain ⟨rp', fd', hl', hwf, hfd', hs'⟩ := loop_nil k h hfd hs
      have hline : firstLine newline (k + 1) [] = [] := rfl
      rw [hline, if_neg (show ¬ Complete (k + 1) [] by simp [Complete])]
      exact ⟨_, hl', hwf, hfd', hs', by simp, rfl, le_rfl, le_rfl⟩
    | cons c s =>
      obtain ⟨rp', fd', hr, hwf, hfd', hs'⟩ := rioRead_byte h hfd hs
      have hlt : l.bufp < l.usrbuf.length := by omega
      have hlen := length_storeAt hlt c
      by_cases hc : c = newline
      · -- the line ends here
        have hline : firstLine newline (k + 1) (c :: s) = [c] := if_pos hc
        have hcomplete : Complete (k + 1) [c] := Or.inr (by rw [hc]; rfl)
        rw [hline, if_pos hcomplete]
        exact ⟨_, (loop_byte hr hlt).trans (if_pos hc), hwf, hfd', hs', rfl, rfl, le_rfl,
          Nat.le_succ _⟩
      · have hline : firstLine newline (k + 1) (c :: s) = c :: firstLine newline k s := if_neg hc
        obtain ⟨l', hl', hwf', hfd'', hrem, hbuf, hbufp, hge, hle⟩ := ih (l :=
          { n := l.n + 1, bufp := l.bufp + 1, usrbuf := overwrite l.usrbuf l.bufp [c], rp := rp',
            fd := fd' })
          hwf hfd' (by simp only [hlen]; omega) (by simp only; omega) rfl
        have hrem' : remaining
            { n := l.n + 1, bufp := l.bufp + 1, usrbuf := overwrite l.usrbuf l.bufp [c], rp := rp',
              fd := fd' } = s := hs'
        rw [hrem'] at hl' hrem hbuf hbufp hle
        simp only at hge hle hbufp
        rw [hline]
        refine ⟨l', ?_, hwf', hfd'', hrem, ?_, ?_, by omega, ?_⟩
        · rw [loop_byte hr hlt, if_neg hc, if_pos (by omega), hl']
          simp only [complete_cons hc, List.length_cons]
          rw [Nat.add_right_comm, Nat.add_assoc]
        · rw [hbuf]
          exact overwrite_overwrite (d := [c]) (by rw [List.length_singleton]; omega)
        · rw [hbufp, List.length_cons]
          omega
        · rw [List.length_cons]
          omega

theorem loop_spec (k : ℕ) {l : Readlineb} (h : l.Ready k) :
    ∃ l', loop k l = some (if 0 < k ∧ l.n = 1 ∧ l.remaining = [] then some 0 else none, l') ∧
      l'.Ready 0 ∧ l'.usrbuf.length = l.usrbuf.length ∧
      l'.stored = l.stored ++ firstLine newline k l.remaining ∧
      l'.remaining = l.remaining.drop (firstLine newline k l.remaining).length := by
  have hroom := h.room
  have hcounts := h.counts
  have hstarted := h.started
  obtain ⟨l', hl', hwf, hfd, hrem, hbuf, hbufp, hge, hle⟩ :=
    loop_ends k h.wf ((Reads.chunked_iff l.fd).mp h.chunked) hroom hcounts rfl
  have hshort : (firstLine newline k l.remaining).length ≤ k :=
    (isLine_firstLine k l.remaining).length_le
  have hfits : l.bufp + (firstLine newline k l.remaining).length ≤ l.usrbuf.length := by omega
  have hlen : l'.usrbuf.length = l.usrbuf.length := by rw [hbuf, length_overwrite hfits]
  refine ⟨l', ?_, ⟨hwf, (Reads.chunked_iff l'.fd).mpr hfd, by omega, by omega, by omega⟩, hlen, ?_,
    hrem⟩
  · rw [hl']
    congr 2
    by_cases hk : 0 < k
    · have hnil : firstLine newline k l.remaining = [] ↔ _ := firstLine_eq_nil_iff hk
      have hzero := List.length_eq_zero_iff (l := firstLine newline k l.remaining)
      by_cases hempty : l.remaining = []
      · have hline := hnil.mpr hempty
        rw [hline, if_neg (by simp [Complete]; omega)]
        simp [endValue, hk, hempty]
      · have hne := mt hnil.mp hempty
        have hpos := List.length_pos_iff.mpr hne
        rw [if_neg (show ¬ (0 < k ∧ l.n = 1 ∧ l.remaining = []) from fun hc => hempty hc.2.2)]
        split_ifs
        · rfl
        · exact if_neg (by omega)
    · obtain rfl : k = 0 := by omega
      simp [Complete, firstLine]
  · rw [stored, stored, hbuf, hbufp]
    exact window_overwrite_back (Nat.zero_le _) hfits

end Readlineb

/-! ## One call and all calls -/

theorem rioReadlineb_spec {rp : Rio} (h : rp.Wf) {fd : Reads} (hfd : fd.Chunked) {usrbuf : Bytes}
    {maxlen : ℕ} (hlen : usrbuf.length = maxlen) (hmax : 2 ≤ maxlen) (hint : maxlen < 2 ^ 31) :
    ∃ ret l, rp.rioReadlineb fd usrbuf maxlen = some (ret, l) ∧ l.rp.Wf ∧ l.fd.Chunked ∧
      (ret = 0 ↔ rp.unread ++ fd.stream = []) ∧
      (ret ≠ 0 → l.stored = firstLine newline (maxlen - 1) (rp.unread ++ fd.stream) ∧
        l.remaining = (rp.unread ++ fd.stream).drop l.stored.length ∧
        l.usrbuf.length = maxlen ∧ l.usrbuf[l.bufp]? = some 0) := by
  obtain ⟨l, hl, hready, hlen', hst, hrem⟩ := Readlineb.loop_spec (maxlen - 1) (l :=
    { n := 1, bufp := 0, usrbuf, rp, fd })
    ⟨h, hfd, by simp only; omega, by simp only; omega, Nat.one_pos⟩
  have hempty : Readlineb.stored { n := 1, bufp := 0, usrbuf, rp, fd } = [] := window_self _ _
  have hs : Readlineb.remaining { n := 1, bufp := 0, usrbuf, rp, fd } = rp.unread ++ fd.stream := rfl
  rw [hempty, List.nil_append] at hst
  rw [hs] at hl hst hrem
  by_cases hnil : rp.unread ++ fd.stream = []
  · rw [if_pos ⟨by omega, rfl, hnil⟩] at hl
    refine ⟨0, l, ?_, hready.wf, hready.chunked, by simp [hnil], fun h0 => absurd rfl h0⟩
    simp [rioReadlineb, hl]
  · rw [if_neg fun hc => hnil hc.2.2] at hl
    have hlt : l.bufp < l.usrbuf.length := by
      have hroom := hready.room
      omega
    have hn : (l.n : ℤ) ≠ 0 := by
      have hstarted := hready.started
      omega
    have hkeep : Readlineb.stored { l with usrbuf := overwrite l.usrbuf l.bufp [0] } = l.stored :=
      window_storeAt hlt 0
    refine ⟨l.n, { l with usrbuf := overwrite l.usrbuf l.bufp [0] }, ?_, hready.wf, hready.chunked,
      by simp only [hn, hnil], fun _ => ⟨hkeep.trans hst, ?_, ?_, getElem?_storeAt hlt 0⟩⟩
    · simp [rioReadlineb, hl, storeAt_of_lt hlt]
    · rw [hkeep, hst]
      exact hrem
    · exact (length_storeAt hlt 0).trans (hlen'.trans hlen)

/-- Before an error a line that is not complete is stored without a NUL. -/
theorem rioReadlineb_error {errno : ℕ} {rp : Rio} (h : rp.Wf) {fd : Reads}
    (hfd : fd.Delivers (.error errno)) {usrbuf : Bytes} {maxlen : ℕ} (hlen : usrbuf.length = maxlen)
    (hmax : 1 ≤ maxlen) (hint : maxlen < 2 ^ 31) {line : Bytes}
    (hline : line = firstLine newline (maxlen - 1) (rp.unread ++ fd.stream)) :
    ∃ ret l, rp.rioReadlineb fd usrbuf maxlen = some (ret, l) ∧ ret ≠ 0 ∧ l.rp.Wf ∧
      l.fd.Delivers (.error errno) ∧ l.remaining = (rp.unread ++ fd.stream).drop line.length ∧
      l.usrbuf = overwrite usrbuf 0
        (if Readlineb.Complete (maxlen - 1) line then line ++ [0] else line) := by
  have hshort : line.length ≤ maxlen - 1 := hline ▸ (isLine_firstLine (maxlen - 1) _).length_le
  obtain ⟨l, hl, hwf, hfd', hrem, hbuf, hbufp, hge, -⟩ := Readlineb.loop_ends (maxlen - 1) (l :=
    { n := 1, bufp := 0, usrbuf, rp, fd }) h hfd (by simp only; omega) (by simp only; omega) hline
  simp only [Nat.zero_add] at hl hbuf hbufp hge
  have hroom : 0 + line.length ≤ usrbuf.length := by omega
  by_cases hcomplete : Readlineb.Complete (maxlen - 1) line
  · rw [if_pos hcomplete] at hl ⊢
    have hlt : l.bufp < l.usrbuf.length := by
      rw [hbuf, length_overwrite hroom]
      omega
    have hcall : rp.rioReadlineb fd usrbuf maxlen =
        some ((l.n : ℤ), { l with usrbuf := overwrite l.usrbuf l.bufp [0] }) := by
      simp [rioReadlineb, hl, storeAt_of_lt hlt]
    refine ⟨_, _, hcall, by omega, hwf, hfd', hrem, ?_⟩
    have hnul := overwrite_overwrite (e := [0]) hroom
    rw [Nat.zero_add] at hnul
    simp only [hbuf, hbufp, hnul]
  · rw [if_neg hcomplete] at hl ⊢
    have hcall : rp.rioReadlineb fd usrbuf maxlen = some (-1, l) := by
      simp [rioReadlineb, hl, Readlineb.endValue]
    exact ⟨-1, l, hcall, by decide, hwf, hfd', hrem, hbuf⟩

variable {maxlen : ℕ} {usrbuf : ℕ → Bytes}

/-- What the calls store are the lines of what is left. -/
theorem readLines_sound (hmax : 2 ≤ maxlen) (hint : maxlen < 2 ^ 31)
    (hlen : ∀ i, (usrbuf i).length = maxlen) (calls : ℕ) :
    ∀ {i : ℕ} {rp : Rio} {fd : Reads} {ls : List Readlineb}, rp.Wf → fd.Chunked →
      readLines maxlen usrbuf calls i rp fd = some ls →
      Lines newline (maxlen - 1) (rp.unread ++ fd.stream) (ls.map Readlineb.stored) ∧
        ∀ l ∈ ls, l.usrbuf.length = maxlen ∧ l.usrbuf[l.bufp]? = some 0 := by
  induction calls with
  | zero => intro i rp fd ls _ _ hls; exact absurd hls (by simp [readLines])
  | succ calls ih =>
    intro i rp fd ls h hfd hls
    obtain ⟨ret, l, hcall, hwf, hfd', hret, hline⟩ :=
      rioReadlineb_spec h hfd (hlen i) hmax hint
    simp only [readLines, hcall, Option.bind_eq_bind, Option.bind_some] at hls
    split_ifs at hls with h0
    · obtain rfl := Option.some.inj hls
      rw [hret.mp h0]
      exact ⟨Lines.nil, by simp⟩
    · obtain ⟨ls', hls', he⟩ := Option.bind_eq_some_iff.mp hls
      obtain rfl := Option.some.inj he
      obtain ⟨hst, hrem, hnul⟩ := hline h0
      obtain ⟨hlines, hnuls⟩ := ih hwf hfd' hls'
      refine ⟨Lines.cons (fun hnil => h0 (hret.mpr hnil)) ?_ ?_, ?_⟩
      · rw [hst]
        exact isLine_firstLine _ _
      · rw [← hrem]
        exact hlines
      · simpa using ⟨hnul, hnuls⟩

/-- Every call but the last takes at least one byte. -/
theorem readLines_returns (hmax : 2 ≤ maxlen) (hint : maxlen < 2 ^ 31)
    (hlen : ∀ i, (usrbuf i).length = maxlen) (calls : ℕ) :
    ∀ {i : ℕ} {rp : Rio} {fd : Reads}, rp.Wf → fd.Chunked →
      (rp.unread ++ fd.stream).length < calls →
      ∃ ls, readLines maxlen usrbuf calls i rp fd = some ls := by
  induction calls with
  | zero => intro i rp fd _ _ hcalls; exact absurd hcalls (Nat.not_lt_zero _)
  | succ calls ih =>
    intro i rp fd h hfd hcalls
    obtain ⟨ret, l, hcall, hwf, hfd', hret, hline⟩ :=
      rioReadlineb_spec h hfd (hlen i) hmax hint
    by_cases h0 : ret = 0
    · exact ⟨[], by simp [readLines, hcall, h0]⟩
    · obtain ⟨hst, hrem, -⟩ := hline h0
      have hne : rp.unread ++ fd.stream ≠ [] := fun hnil => h0 (hret.mpr hnil)
      have hpos : 0 < (firstLine newline (maxlen - 1) (rp.unread ++ fd.stream)).length :=
        List.length_pos_iff.mpr (firstLine_ne_nil (by omega) hne)
      rw [← hst] at hpos
      have hall := List.length_pos_iff.mpr hne
      have hfewer : l.remaining.length < calls := by
        rw [hrem, List.length_drop]
        omega
      obtain ⟨ls, hls⟩ := ih (i := i + 1) hwf hfd' hfewer
      exact ⟨l :: ls, by simp [readLines, hcall, h0, hls]⟩

end Rio

open Rio in
/-- **Lines do not depend on chunks.** A descriptor delivers a stream in chunks that fit the buffer,
    with interrupted calls between them. Then the calls of `rio_readlineb` on a new `rio_t`, until one
    returns `0`, store the lines of the stream, each with a NUL behind it in the caller's memory. The
    lines are the whole stream, and another descriptor with the same stream gives the same lines. -/
theorem readlineb_transparent (maxlen : ℕ) (hmax : 2 ≤ maxlen) (hint : maxlen < 2 ^ 31) (fd : Reads)
    (hfd : fd.Chunked) (rioBuf : Bytes) (hbuf : rioBuf.length = RIO_BUFSIZE) (usrbuf : ℕ → Bytes)
    (hlen : ∀ i, (usrbuf i).length = maxlen) :
    ∃ calls ls, readLines maxlen usrbuf calls 0 (Rio.init rioBuf) fd = some ls ∧
      (ls.map Readlineb.stored).flatten = fd.stream ∧
      Lines newline (maxlen - 1) fd.stream (ls.map Readlineb.stored) ∧
      (∀ l ∈ ls, l.usrbuf.length = maxlen ∧ l.usrbuf[l.bufp]? = some 0) ∧
      ∀ (fd₂ : Reads) (rioBuf₂ : Bytes) (usrbuf₂ : ℕ → Bytes) (calls₂ : ℕ) (ls₂ : List Readlineb),
        fd₂.Chunked → fd₂.stream = fd.stream → rioBuf₂.length = RIO_BUFSIZE →
        (∀ i, (usrbuf₂ i).length = maxlen) →
        readLines maxlen usrbuf₂ calls₂ 0 (Rio.init rioBuf₂) fd₂ = some ls₂ →
        ls₂.map Readlineb.stored = ls.map Readlineb.stored := by
  have hinit : ∀ buf : Bytes, buf.length = RIO_BUFSIZE → (Rio.init buf).Wf := fun buf hb =>
    ⟨hb, Nat.zero_le _⟩
  have hunread : ∀ buf : Bytes, (Rio.init buf).unread = [] := fun buf => window_self _ _
  obtain ⟨ls, hls⟩ := readLines_returns hmax hint hlen
    (((Rio.init rioBuf).unread ++ fd.stream).length + 1) (i := 0) (hinit _ hbuf) hfd
    (Nat.lt_succ_self _)
  obtain ⟨hlines, hnuls⟩ := readLines_sound hmax hint hlen _ (hinit _ hbuf) hfd hls
  rw [hunread, List.nil_append] at hlines
  refine ⟨_, ls, hls, hlines.flatten_eq, hlines, hnuls, ?_⟩
  intro fd₂ rioBuf₂ usrbuf₂ calls₂ ls₂ hfd₂ hstream hbuf₂ hlen₂ hls₂
  obtain ⟨hlines₂, -⟩ := readLines_sound hmax hint hlen₂ calls₂ (hinit _ hbuf₂) hfd₂ hls₂
  rw [hunread, List.nil_append, hstream] at hlines₂
  exact hlines₂.unique hlines

/-- A line cut between its `\r` and its `\n`, behind an interrupted call. -/
def cutLine : Reads :=
  .next (.error EINTR) (.next (.data [97, 13]) (.next (.data [10, 98]) (.always (.data []))))

open Rio in
theorem readlineb_transparent_sample :
    ∃ calls ls, readLines 80 (fun _ => List.replicate 80 255) calls 0
        (Rio.init (List.replicate RIO_BUFSIZE 0)) cutLine = some ls ∧
      ls.map Readlineb.stored = [[97, 13, 10], [98]] := by
  obtain ⟨calls, ls, hls, -, hlines, -, -⟩ := readlineb_transparent 80 (by decide) (by decide)
    cutLine ⟨rfl, by decide, by decide, by decide, by decide, rfl⟩ (List.replicate RIO_BUFSIZE 0)
    List.length_replicate (fun _ => List.replicate 80 255) (fun _ => List.length_replicate)
  have hcut : Lines newline 79 cutLine.stream [[97, 13, 10], [98]] :=
    Lines.cons (by decide) (isLine_firstLine 79 _)
      (Lines.cons (by decide) (isLine_firstLine 79 _) Lines.nil)
  exact ⟨calls, ls, hls, hlines.unique hcut⟩

end XWeb.Base
