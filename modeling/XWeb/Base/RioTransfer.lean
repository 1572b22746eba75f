import XWeb.Base.Rio

/-!
# Transfers of a given length

Model of `rio_readn` and `rio_writen` (`base/rio.cpp` lines 39–75). A call of `read` takes what is
asked for of the bytes at hand, a call of `write` what there is room for. Each loop is given the
number of system calls that it may make.

* `Reads.call`: one call of `read` for a number of bytes.
* `Readn.loop_spec`, `rioReadn_spec`: what is read, and what is left.
* `Writen.loop_spec`, `rioWriten_spec`: what is written.
* `rio_transfer_round_trip`: what `rio_writen` writes is what `rio_readn` reads.
-/

namespace XWeb.Base

open XWeb.Lib

/-! ## System calls -/

namespace Reads

/-- One call of `read` for `n` bytes. -/
def call (n : ℕ) : Reads → ReadOutcome × Reads
  | .always (.data bytes) => (.data (bytes.take n), .always (.data bytes))
  | .always (.error errno) => (.error errno, .always (.error errno))
  | .next (.data bytes) later =>
    if bytes.length ≤ n then (.data bytes, later)
    else (.data (bytes.take n), .next (.data (bytes.drop n)) later)
  | .next (.error errno) later => (.error errno, later)

/-- A bound on the number of calls before the end. -/
def cost : Reads → ℕ
  | .always _ => 0
  | .next (.data bytes) later => bytes.length + later.cost
  | .next (.error _) later => 1 + later.cost

end Reads

/-- What a call of `write` does: it accepts one byte and up to `more` others, or it returns `0` or
    `-1`, which `rio_writen` does not tell apart, and then finds this value in `errno`. -/
inductive WriteOutcome
  | wrote (more : ℕ)
  | stopped (errno : ℕ)
  deriving DecidableEq

/-- A descriptor that is written: the results of the calls of `write` on it, the number of those
    that have been made, and the bytes that have been accepted. -/
structure Sink where
  results : ℕ → WriteOutcome
  calls : ℕ
  sent : Bytes

namespace Sink

/-- A call that accepts `bytes`. -/
def accept (fd : Sink) (bytes : Bytes) : Sink :=
  { fd with calls := fd.calls + 1, sent := fd.sent ++ bytes }

/-- From the `M`-th call on none is interrupted. -/
def Settles (fd : Sink) (M : ℕ) : Prop := ∀ i, M ≤ i → fd.results i ≠ .stopped EINTR

/-- No call to come fails but for an interruption. -/
def Clean (fd : Sink) : Prop :=
  ∀ i, fd.calls ≤ i → ∀ errno, fd.results i = .stopped errno → errno = EINTR

end Sink

/-! ## `rio_readn` -/

/-- The variables of `rio_readn`; `bufp` is an offset in `usrbuf`. -/
structure Readn where
  nleft : ℕ
  bufp : ℕ
  usrbuf : Bytes
  fd : Reads

/-- The loop (lines 43–53): the value returned from inside it, or `none` if it is left. A store behind
    the end of `usrbuf` is undefined. -/
def Readn.loop : ℕ → Readn → Option (Option ℤ × Readn)
  | 0, _ => none
  | calls + 1, l =>
    if 0 < l.nleft then
      match l.fd.call l.nleft with
      | (.error errno, fd) =>
        if errno = EINTR then loop calls { l with fd } else some (some (-1), { l with fd })
      | (.data [], fd) => some (none, { l with fd })
      | (.data bytes, fd) =>
        if l.bufp + bytes.length ≤ l.usrbuf.length then
          loop calls
            { nleft := sizeSub l.nleft bytes.length
              bufp := l.bufp + bytes.length
              usrbuf := overwrite l.usrbuf l.bufp bytes
              fd }
        else none
    else some (none, l)

/-- `rio_readn` (lines 39–55): what it returns, and its variables at the end. -/
def rioReadn (calls : ℕ) (fd : Reads) (usrbuf : Bytes) (n : ℕ) : Option (ℤ × Readn) := do
  let (ret, l) ← Readn.loop calls { nleft := n, bufp := 0, usrbuf, fd }
  match ret with
  | some v => some (v, l)
  | none => some (toSsize (sizeSub n l.nleft), l)

/-! ## `rio_writen` -/

/-- The variables of `rio_writen`; `bufp` is an offset in `usrbuf`. -/
structure Writen where
  nleft : ℕ
  bufp : ℕ
  fd : Sink

/-- The loop (lines 61–73): the value returned from inside it, or `none` if it is left. -/
def Writen.loop (usrbuf : Bytes) : ℕ → Writen → Option (Option ℤ × Writen)
  | 0, _ => none
  | calls + 1, l =>
    if 0 < l.nleft then
      match l.fd.results l.fd.calls with
      | .stopped errno =>
        if errno = EINTR then loop usrbuf calls { l with fd := l.fd.accept [] }
        else some (some (-1), { l with fd := l.fd.accept [] })
      | .wrote more =>
        let nwritten := min (more + 1) l.nleft
        if l.bufp + nwritten ≤ usrbuf.length then
          loop usrbuf calls
            { nleft := sizeSub l.nleft nwritten
              bufp := l.bufp + nwritten
              fd := l.fd.accept (window usrbuf l.bufp (l.bufp + nwritten)) }
        else none
    else some (none, l)

/-- `rio_writen` (lines 57–75): what it returns, and the descriptor afterwards. -/
def rioWriten (calls : ℕ) (fd : Sink) (usrbuf : Bytes) (n : ℕ) : Option (ℤ × Sink) := do
  let (ret, l) ← Writen.loop usrbuf calls { nleft := n, bufp := 0, fd }
  match ret with
  | some v => some (v, l.fd)
  | none => some (toSsize n, l.fd)

/-! ## One call of `read` -/

namespace Reads

variable {r : ReadOutcome} {fd : Reads} {n : ℕ}

/-- Bytes, an interruption, or the end. -/
theorem call_cases (h : fd.EndsWith r) (hn : 0 < n) :
    (∃ b bs fd', fd.call n = (.data (b :: bs), fd') ∧ (b :: bs).length ≤ n ∧
      fd.stream = b :: bs ++ fd'.stream ∧ fd'.EndsWith r ∧ fd'.cost < fd.cost) ∨
    (∃ fd', fd.call n = (.error EINTR, fd') ∧ fd.stream = fd'.stream ∧ fd'.EndsWith r ∧
      fd'.cost < fd.cost) ∨
    fd = .always r := by
  match fd, h with
  | .always r', h =>
    right; right
    rw [show r' = r from h]
  | .next (.error errno) later, ⟨he, hlater⟩ =>
    right; left
    refine ⟨later, by rw [call, he], rfl, hlater, ?_⟩
    rw [cost]
    omega
  | .next (.data bytes) later, ⟨hne, hlater⟩ =>
    left
    obtain ⟨b, bs, rfl⟩ := List.exists_cons_of_ne_nil hne
    by_cases hle : (b :: bs).length ≤ n
    · refine ⟨b, bs, later, if_pos hle, hle, rfl, hlater, ?_⟩
      rw [cost, List.length_cons]
      omega
    · -- the rest of the chunk is left for the next call
      obtain ⟨m, rfl⟩ := Nat.exists_eq_succ_of_ne_zero (Nat.ne_of_gt hn)
      have hrest : bs.drop m ≠ [] := by
        intro hnil
        have := List.drop_eq_nil_iff.mp hnil
        simp only [List.length_cons] at hle
        omega
      have hstream : stream (.next (.data (bs.drop m)) later) = bs.drop m ++ later.stream := by
        obtain ⟨c, cs, hcs⟩ := List.exists_cons_of_ne_nil hrest
        rw [hcs]
        rfl
      refine ⟨b, bs.take m, .next (.data (bs.drop m)) later, if_neg hle, ?_, ?_, ⟨hrest, hlater⟩, ?_⟩
      · simp only [List.length_cons, List.length_take]
        omega
      · rw [hstream, List.cons_append, ← List.append_assoc, List.take_append_drop]
        rfl
      · rw [cost, cost, List.length_cons, List.length_drop]
        omega

theorem EndsWith.unique {r' : ReadOutcome} (h : fd.EndsWith r) (h' : fd.EndsWith r') : r = r' := by
  induction fd with
  | always r₀ => exact h.symm.trans h'
  | next r₀ later ih =>
    cases r₀ with
    | data bytes => exact ih h.2 h'.2
    | error errno => exact ih h.2 h'.2

theorem stream_always (r : ReadOutcome) : (Reads.always r).stream = [] := rfl

end Reads

/-- The value that a last result makes the loop return, if any. -/
def ReadOutcome.value : ReadOutcome → Option ℤ
  | .data _ => none
  | .error _ => some (-1)

namespace Readn

variable {r : ReadOutcome}

/-- The loop reads what it is to read, or up to the end. -/
theorem loop_spec (hr : r.Final) (calls : ℕ) : ∀ {l : Readn}, l.fd.EndsWith r → l.fd.cost < calls →
    l.nleft < 2 ^ 64 → l.bufp + l.nleft ≤ l.usrbuf.length →
    ∃ l', loop calls l = some (if l.nleft ≤ l.fd.stream.length then none else r.value, l') ∧
      l'.usrbuf = overwrite l.usrbuf l.bufp (l.fd.stream.take l.nleft) ∧
      l'.nleft = l.nleft - l.fd.stream.length ∧ l'.fd.EndsWith r ∧
      l'.fd.stream = l.fd.stream.drop l.nleft ∧ l'.fd.cost ≤ l.fd.cost := by
  induction calls with
  | zero => intro l _ hcost; exact absurd hcost (Nat.not_lt_zero _)
  | succ calls ih =>
    intro l hfd hcost hsize hroom
    by_cases hpos : 0 < l.nleft
    · obtain ⟨b, bs, fd', hcall, hle, hs, hfd', hlt⟩ | ⟨fd', hcall, hs, hfd', hlt⟩ | hend :=
        Reads.call_cases hfd hpos
      · -- some bytes are stored, and the loop goes on behind them
        have hsub : sizeSub l.nleft (b :: bs).length = l.nleft - (b :: bs).length :=
          sizeSub_of_le hle hsize
        have hin : l.bufp + (b :: bs).length ≤ l.usrbuf.length := by omega
        have hlen := length_overwrite hin
        obtain ⟨l', hl', hbuf, hleft, hends, hrest, hc⟩ := ih (l :=
          { nleft := l.nleft - (b :: bs).length, bufp := l.bufp + (b :: bs).length,
            usrbuf := overwrite l.usrbuf l.bufp (b :: bs), fd := fd' }) hfd' (by simp only; omega)
          (by simp only; omega) (by simp only [hlen]; omega)
        simp only at hl' hbuf hleft hends hrest hc
        have htotal : l.fd.stream.length = (b :: bs).length + fd'.stream.length := by
          rw [hs, List.length_append]
        refine ⟨l', ?_, ?_, by omega, hends, ?_, by omega⟩
        · rw [loop, if_pos hpos, hcall]
          simp only [if_pos hin, hsub, hl']
          congr 2
          simp only [htotal]
          congr 1
          rw [eq_iff_iff]
          omega
        · rw [hbuf, overwrite_overwrite hin, hs, List.take_append, List.take_of_length_le hle]
        · rw [hrest, hs, List.drop_append, List.drop_of_length_le hle, List.nil_append]
      · obtain ⟨l', hl', hrest⟩ := ih (l := { l with fd := fd' }) hfd' (by simp only; omega) hsize hroom
        rw [hs]
        obtain ⟨hbuf, hleft, hends, hstream, hc⟩ := hrest
        refine ⟨l', ?_, hbuf, hleft, hends, hstream, le_trans hc (Nat.le_of_lt hlt)⟩
        rw [loop, if_pos hpos, hcall]
        exact hl'
      · have hnil : l.fd.stream = [] := by rw [hend, Reads.stream_always]
        refine ⟨l, ?_, by simp [hnil], by simp [hnil], hfd, by simp [hnil], le_rfl⟩
        rw [hnil, List.length_nil, if_neg (by omega), loop, if_pos hpos]
        obtain ⟨nleft, bufp, usrbuf, fd⟩ := l
        obtain rfl : fd = .always r := hend
        cases r with
        | data bytes =>
          obtain rfl : bytes = [] := hr
          simp [Reads.call, ReadOutcome.value]
        | error errno => exact if_neg hr
    · have hzero : l.nleft = 0 := by omega
      refine ⟨l, ?_, by simp [hzero], by simp [hzero], hfd, by simp [hzero], le_rfl⟩
      rw [loop, if_neg hpos, if_pos (by omega)]

end Readn

/-- `rio_readn` stores what there is, up to `n` bytes, and returns their number; or `-1` if there are
    fewer and an error follows. -/
theorem rioReadn_spec {r : ReadOutcome} (hr : r.Final) {fd : Reads} (hfd : fd.EndsWith r) {calls : ℕ}
    (hcost : fd.cost < calls) {usrbuf : Bytes} {n : ℕ} (hn : n < 2 ^ 63) (hroom : n ≤ usrbuf.length) :
    ∃ l, rioReadn calls fd usrbuf n =
        some (if n ≤ fd.stream.length then (n : ℤ) else r.value.getD fd.stream.length, l) ∧
      l.usrbuf = overwrite usrbuf 0 (fd.stream.take n) ∧ l.fd.EndsWith r ∧
      l.fd.stream = fd.stream.drop n ∧ l.fd.cost ≤ fd.cost := by
  obtain ⟨l, hl, hbuf, hleft, hends, hs, hc⟩ := Readn.loop_spec hr calls (l :=
    { nleft := n, bufp := 0, usrbuf, fd }) hfd hcost (by simp only; omega) (by simp only; omega)
  simp only at hl hbuf hleft hs hc
  refine ⟨l, ?_, hbuf, hends, hs, hc⟩
  rw [rioReadn, hl, Option.bind_eq_bind, Option.bind_some]
  have hsub : toSsize (sizeSub n l.nleft) = (n - l.nleft : ℕ) := by
    rw [sizeSub_of_le (by omega) (by omega), toSsize_of_lt (by omega)]
  by_cases hle : n ≤ fd.stream.length
  · rw [if_pos hle, if_pos hle]
    simp only [hsub]
    rw [hleft, Nat.sub_eq_zero_of_le hle, Nat.sub_zero]
  · rw [if_neg hle, if_neg hle]
    cases r with
    | data bytes =>
      simp only [ReadOutcome.value, hsub, Option.getD_none]
      rw [hleft, Nat.sub_sub_self (by omega)]
    | error errno => rfl

/-- More system calls change nothing. -/
theorem Readn.loop_mono {calls : ℕ} : ∀ {l : Readn} {res : Option ℤ × Readn},
    loop calls l = some res → ∀ {calls' : ℕ}, calls ≤ calls' → loop calls' l = some res := by
  induction calls with
  | zero => intro l res h; exact absurd h (by simp [loop])
  | succ calls ih =>
    intro l res h calls' hle
    obtain ⟨calls', rfl⟩ := Nat.exists_eq_succ_of_ne_zero (Nat.ne_of_gt (Nat.zero_lt_of_lt hle))
    have hle' := Nat.le_of_succ_le_succ hle
    rw [loop] at h ⊢
    split_ifs at h ⊢ with hpos
    · cases hcall : l.fd.call l.nleft with
      | mk r fd =>
        rw [hcall] at h
        match r, h with
        | .error errno, h =>
          simp only at h ⊢
          split_ifs at h ⊢
          · exact ih h hle'
          · exact h
        | .data [], h => exact h
        | .data (b :: bs), h =>
          simp only at h ⊢
          split_ifs at h ⊢
          exact ih h hle'
    · exact h

theorem rioReadn_mono {calls calls' : ℕ} {fd : Reads} {usrbuf : Bytes} {n : ℕ} {res : ℤ × Readn}
    (h : rioReadn calls fd usrbuf n = some res) (hle : calls ≤ calls') :
    rioReadn calls' fd usrbuf n = some res := by
  obtain ⟨⟨ret, l⟩, hl, hrest⟩ := Option.bind_eq_some_iff.mp h
  rw [rioReadn, Readn.loop_mono hl hle]
  exact hrest

/-! ## One call of `rio_writen` -/

namespace Writen

/-- The loop writes everything, or it gives up at a failure that is not an interruption. -/
theorem loop_spec (usrbuf : Bytes) {M : ℕ} (calls : ℕ) : ∀ {l : Writen}, l.fd.Settles M →
    M - l.fd.calls + l.nleft < calls → l.nleft < 2 ^ 64 → l.bufp + l.nleft ≤ usrbuf.length →
    ∃ ret l' k, loop usrbuf calls l = some (ret, l') ∧ l'.fd.results = l.fd.results ∧
      l.fd.calls ≤ l'.fd.calls ∧
      l'.fd.sent = l.fd.sent ++ window usrbuf l.bufp (l.bufp + k) ∧
      (ret = none ∧ k = l.nleft ∨ ret = some (-1) ∧ k < l.nleft ∧ ¬ l.fd.Clean) := by
  induction calls with
  | zero => intro l _ hcost; exact absurd hcost (Nat.not_lt_zero _)
  | succ calls ih =>
    intro l hset hcost hsize hroom
    by_cases hpos : 0 < l.nleft
    · cases hres : l.fd.results l.fd.calls with
      | stopped errno =>
        by_cases hintr : errno = EINTR
        · have hearly : l.fd.calls < M := by
            by_contra hlate
            exact hset _ (Nat.not_lt.mp hlate) (by rw [hres, hintr])
          obtain ⟨ret, l', k, hl', hsame, hcalls, hsent, hret⟩ := ih (l :=
            { l with fd := l.fd.accept [] }) hset (by simp only [Sink.accept]; omega) hsize hroom
          simp only [Sink.accept, List.append_nil] at hsame hcalls hsent
          refine ⟨ret, l', k, ?_, hsame, by omega, hsent, ?_⟩
          · rw [loop, if_pos hpos, hres]
            simp only [if_pos hintr, hl']
          · refine hret.imp id fun ⟨h1, h2, hdirty⟩ => ⟨h1, h2, fun hclean => hdirty ?_⟩
            intro i hi
            exact hclean i (by simp only [Sink.accept] at hi; omega)
        · refine ⟨some (-1), { l with fd := l.fd.accept [] }, 0, ?_, rfl, Nat.le_succ _,
            by simp [Sink.accept], Or.inr ⟨rfl, hpos, fun hclean => hintr ?_⟩⟩
          · rw [loop, if_pos hpos, hres]
            simp only [if_neg hintr]
          · exact hclean _ le_rfl errno hres
      | wrote more =>
        set nwritten := min (more + 1) l.nleft with hnw
        have hle : nwritten ≤ l.nleft := Nat.min_le_right _ _
        have hsub : sizeSub l.nleft nwritten = l.nleft - nwritten := sizeSub_of_le hle hsize
        have hin : l.bufp + nwritten ≤ usrbuf.length := by omega
        obtain ⟨ret, l', k, hl', hsame, hcalls, hsent, hret⟩ := ih (l :=
          { nleft := l.nleft - nwritten, bufp := l.bufp + nwritten,
            fd := l.fd.accept (window usrbuf l.bufp (l.bufp + nwritten)) })
          hset (by simp only [Sink.accept]; omega) (by simp only; omega) (by simp only; omega)
        simp only [Sink.accept] at hsame hcalls hsent hret
        refine ⟨ret, l', nwritten + k, ?_, hsame, by omega, ?_, ?_⟩
        · rw [loop, if_pos hpos, hres]
          simp only [← hnw, if_pos hin, hsub, hl']
        · rw [hsent, List.append_assoc, ← Nat.add_assoc]
          congr 1
          exact window_add usrbuf (Nat.le_add_right _ _) hin
        · obtain ⟨h1, h2⟩ | ⟨h1, h2, hdirty⟩ := hret
          · exact Or.inl ⟨h1, by omega⟩
          · refine Or.inr ⟨h1, by omega, fun hclean => hdirty ?_⟩
            intro i hi
            exact hclean i (by simp only at hi; omega)
    · refine ⟨none, l, 0, ?_, rfl, le_rfl, by simp, Or.inl ⟨rfl, by omega⟩⟩
      rw [loop, if_neg hpos]

end Writen

/-- `rio_writen` writes its argument and returns its length, or it writes less and returns `-1`. -/
theorem rioWriten_spec {fd : Sink} {M : ℕ} (hset : fd.Settles M) {usrbuf : Bytes} {n : ℕ}
    (hn : n < 2 ^ 63) (hroom : n ≤ usrbuf.length) {calls : ℕ} (hcalls : M + n < calls) :
    ∃ ret fd' k, rioWriten calls fd usrbuf n = some (ret, fd') ∧ fd'.Settles M ∧
      fd'.sent = fd.sent ++ usrbuf.take k ∧ (fd.Clean → fd'.Clean) ∧
      (ret = n ∧ k = n ∨ ret = -1 ∧ k < n ∧ ¬ fd.Clean) := by
  obtain ⟨ret, l, k, hl, hsame, hle, hsent, hret⟩ := Writen.loop_spec usrbuf calls (l :=
    { nleft := n, bufp := 0, fd }) hset (by simp only; omega) (by simp only; omega)
    (by simp only; omega)
  simp only at hsame hle hsent hret
  have hset' : l.fd.Settles M := by
    intro i hi
    rw [hsame]
    exact hset i hi
  have hclean : fd.Clean → l.fd.Clean := by
    intro h i hi
    rw [hsame]
    exact h i (by omega)
  have hsent' : l.fd.sent = fd.sent ++ usrbuf.take k := by
    rw [hsent, Nat.zero_add, window, List.drop_zero]
  rw [rioWriten, hl, Option.bind_eq_bind, Option.bind_some]
  obtain ⟨rfl, hk⟩ | ⟨rfl, hk, hdirty⟩ := hret
  · exact ⟨n, l.fd, k, by rw [toSsize_of_lt hn], hset', hsent', hclean, Or.inl ⟨rfl, hk⟩⟩
  · exact ⟨-1, l.fd, k, rfl, hset', hsent', hclean, Or.inr ⟨rfl, hk, hdirty⟩⟩

theorem Writen.loop_mono {usrbuf : Bytes} {calls : ℕ} : ∀ {l : Writen} {res : Option ℤ × Writen},
    loop usrbuf calls l = some res → ∀ {calls' : ℕ}, calls ≤ calls' →
      loop usrbuf calls' l = some res := by
  induction calls with
  | zero => intro l res h; exact absurd h (by simp [loop])
  | succ calls ih =>
    intro l res h calls' hle
    obtain ⟨calls', rfl⟩ := Nat.exists_eq_succ_of_ne_zero (Nat.ne_of_gt (Nat.zero_lt_of_lt hle))
    have hle' := Nat.le_of_succ_le_succ hle
    rw [loop] at h ⊢
    split_ifs at h ⊢ with hpos
    · cases hres : l.fd.results l.fd.calls with
      | stopped errno =>
        rw [hres] at h
        simp only at h ⊢
        split_ifs at h ⊢
        · exact ih h hle'
        · exact h
      | wrote more =>
        rw [hres] at h
        simp only at h ⊢
        split_ifs at h ⊢
        exact ih h hle'
    · exact h

theorem rioWriten_mono {calls calls' : ℕ} {fd : Sink} {usrbuf : Bytes} {n : ℕ} {res : ℤ × Sink}
    (h : rioWriten calls fd usrbuf n = some res) (hle : calls ≤ calls') :
    rioWriten calls' fd usrbuf n = some res := by
  obtain ⟨⟨ret, l⟩, hl, hrest⟩ := Option.bind_eq_some_iff.mp h
  rw [rioWriten, Writen.loop_mono hl hle]
  exact hrest

/-! ## Round trip -/

/-- **What is written is read.** A byte array, which is never longer than half the address space, is
    written with `rio_writen`, where each call of `write` accepts some bytes or is interrupted,
    finitely often. It returns the length, and exactly the array has been written. At the other end of
    the stream, however it is cut and interrupted, `rio_readn` for that length returns it, with the
    array in memory; and if the stream ends before, it returns the number of bytes there were. -/
theorem rio_transfer_round_trip (data : Bytes) (hmax : data.length < 2 ^ 63) (fd : Sink) (M : ℕ)
    (hset : fd.Settles M) (hclean : fd.Clean) :
    ∃ calls fd', rioWriten calls fd data data.length = some ((data.length : ℤ), fd') ∧
      fd'.sent = fd.sent ++ data ∧
      (∀ (r : ReadOutcome) (other : Reads) (rest usrbuf : Bytes), r.Final → other.EndsWith r →
        fd.sent ++ other.stream = fd'.sent ++ rest → data.length ≤ usrbuf.length →
        ∃ calls l, rioReadn calls other usrbuf data.length = some ((data.length : ℤ), l) ∧
          l.usrbuf = overwrite usrbuf 0 data ∧ l.fd.stream = rest) ∧
      ∀ (other : Reads) (usrbuf : Bytes) (j : ℕ), other.EndsWith (.data []) → j < data.length →
        fd.sent ++ other.stream = fd.sent ++ data.take j → data.length ≤ usrbuf.length →
        ∃ calls l, rioReadn calls other usrbuf data.length = some ((j : ℤ), l) ∧
          l.usrbuf = overwrite usrbuf 0 (data.take j) := by
  obtain ⟨ret, fd', k, hwrite, -, hsent, -, hret⟩ := rioWriten_spec hset hmax le_rfl
    (Nat.lt_succ_self (M + data.length))
  obtain ⟨rfl, rfl⟩ : ret = data.length ∧ k = data.length := by
    obtain hdone | ⟨-, -, hdirty⟩ := hret
    · exact hdone
    · exact absurd hclean hdirty
  rw [List.take_length] at hsent
  refine ⟨_, fd', hwrite, hsent, ?_, ?_⟩
  · intro r other rest usrbuf hr hends hstream hroom
    rw [hsent, List.append_assoc] at hstream
    have hs := List.append_cancel_left hstream
    obtain ⟨l, hread, hbuf, -, hrest, -⟩ := rioReadn_spec hr hends (Nat.lt_succ_self _) hmax hroom
    rw [hs, List.take_left] at hbuf
    rw [hs, List.drop_left] at hrest
    refine ⟨_, l, hread.trans ?_, hbuf, hrest⟩
    rw [if_pos (by rw [hs, List.length_append]; omega)]
  · intro other usrbuf j hends hj hstream hroom
    have hs := List.append_cancel_left hstream
    have hlen : other.stream.length = j := by
      rw [hs, List.length_take]
      omega
    obtain ⟨l, hread, hbuf, -, -, -⟩ := rioReadn_spec (show (ReadOutcome.data []).Final from rfl) hends
      (Nat.lt_succ_self _) hmax hroom
    rw [hs, List.take_take, Nat.min_eq_right (Nat.le_of_lt hj)] at hbuf
    refine ⟨_, l, hread.trans ?_, hbuf⟩
    rw [if_neg (by omega), hlen]
    rfl

/-- A descriptor that is interrupted once and then takes a byte at a time. -/
def slowSink : Sink :=
  { results := fun i => if i = 0 then .stopped EINTR else .wrote 0, calls := 0, sent := [] }

theorem slowSink_settles : slowSink.Settles 1 := by
  intro i hi
  simp [slowSink, show i ≠ 0 by omega]

theorem slowSink_clean : slowSink.Clean := by
  intro i _ errno hres
  by_cases hi : i = 0
  · simpa [slowSink, hi, eq_comm] using hres
  · simp [slowSink, hi] at hres

/-- Three bytes in two chunks, with an interrupted call between them. -/
def cutStream : Reads :=
  .next (.data [1, 2]) (.next (.error EINTR) (.next (.data [3]) (.always (.data []))))

theorem cutStream_ends : cutStream.EndsWith (.data []) := ⟨by decide, rfl, by decide, rfl⟩

theorem rio_transfer_round_trip_sample :
    ∃ calls fd', rioWriten calls slowSink [1, 2, 3] 3 = some (3, fd') ∧ fd'.sent = [1, 2, 3] ∧
      ∃ calls l, rioReadn calls cutStream [9, 9, 9] 3 = some (3, l) ∧ l.usrbuf = [1, 2, 3] := by
  obtain ⟨calls, fd', hwrite, hsent, hread, -⟩ :=
    rio_transfer_round_trip [1, 2, 3] (by decide) slowSink 1 slowSink_settles slowSink_clean
  obtain ⟨calls', l, hl, hbuf, -⟩ := hread (.data []) cutStream [] [9, 9, 9] rfl cutStream_ends
    (by rw [hsent]; rfl) (by decide)
  exact ⟨calls, fd', hwrite, hsent, calls', l, hl, hbuf⟩

end XWeb.Base
