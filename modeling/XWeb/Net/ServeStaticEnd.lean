import XWeb.Net.ServeStatic

/-!
# When `serve_static` ends

The loop of `serve_static` (`net/http_data.cpp` lines 60–63) goes on while `rio_readn` returns
anything but `0`, and that is also `-1`. What `open` and `rio_writen` return is not looked at.

* `NoWriteAfterFailure`: no call of `rio_writen` comes after a call of `rio_readn` that failed.
* `copyRounds_error`, `copyRounds_failure`: the loop on a file that ends with an error.
* `serve_static_ends_iff`: the files with which `serve_static` returns, and stops at a failure.
-/

namespace XWeb.Net

open XWeb.Lib XWeb.Base

/-- No call of `rio_writen` comes after a call of `rio_readn` that failed. -/
def NoWriteAfterFailure (log : List Transfer) : Prop :=
  ∀ before between after w, log ≠ before ++ .read (-1) :: (between ++ .write w :: after)

/-! ## More system calls -/

section

variable {calls calls' : ℕ}

theorem copyStep_mono {l : ServeStatic} {res : Bool × ServeStatic} (h : copyStep calls l = some res)
    (hle : calls ≤ calls') : copyStep calls' l = some res := by
  obtain ⟨⟨n, r⟩, hread, hrest⟩ := Option.bind_eq_some_iff.mp h
  rw [copyStep, rioReadn_mono hread hle, Option.bind_eq_bind, Option.bind_some]
  simp only at hrest ⊢
  split_ifs at hrest ⊢
  · exact hrest
  · obtain ⟨⟨w, fd⟩, hwrite, hdone⟩ := Option.bind_eq_some_iff.mp hrest
    rw [rioWriten_mono hwrite hle]
    exact hdone

theorem copyRounds_mono (rounds : ℕ) : ∀ {l : ServeStatic} {res : Bool × ServeStatic},
    copyRounds calls rounds l = some res → calls ≤ calls' → copyRounds calls' rounds l = some res := by
  induction rounds with
  | zero => intro l res h _; exact h
  | succ rounds ih =>
    intro l res h hle
    obtain ⟨⟨more, l'⟩, hstep, hrest⟩ := Option.bind_eq_some_iff.mp h
    rw [copyRounds, copyStep_mono hstep hle, Option.bind_eq_bind, Option.bind_some]
    simp only at hrest ⊢
    split_ifs at hrest ⊢
    · exact ih hrest hle
    · exact hrest

theorem serveStatic_mono {rounds : ℕ} {buf filename : Bytes} {fd : Sink} {filesize : ℤ}
    {opened : Option Reads} {res : Bool × ServeStatic}
    (h : serveStatic calls rounds buf fd filename filesize opened = some res) (hle : calls ≤ calls') :
    serveStatic calls' rounds buf fd filename filesize opened = some res := by
  obtain ⟨buf', hheaders, hrest⟩ := Option.bind_eq_some_iff.mp h
  obtain ⟨⟨w, fd'⟩, hwrite, hrun⟩ := Option.bind_eq_some_iff.mp hrest
  rw [serveStatic, hheaders, Option.bind_eq_bind, Option.bind_some, rioWriten_mono hwrite hle]
  exact copyRounds_mono rounds hrun hle

end

theorem copyRounds_done {calls rounds rounds' : ℕ} {l l' : ServeStatic}
    (h : copyRounds calls rounds l = some (false, l')) (hle : rounds ≤ rounds') :
    copyRounds calls rounds' l = some (false, l') := by
  induction rounds generalizing l rounds' with
  | zero =>
    obtain ⟨hmore, -⟩ := Prod.mk.inj (Option.some.inj h)
    exact absurd hmore (by decide)
  | succ rounds ih =>
    obtain ⟨rounds', rfl⟩ := Nat.exists_eq_succ_of_ne_zero (Nat.ne_of_gt (Nat.zero_lt_of_lt hle))
    obtain ⟨⟨more, l₁⟩, hstep, hrest⟩ := Option.bind_eq_some_iff.mp h
    rw [copyRounds, hstep, Option.bind_eq_bind, Option.bind_some]
    simp only at hrest ⊢
    split_ifs at hrest ⊢
    · exact ih hrest (Nat.le_of_succ_le_succ hle)
    · exact hrest

theorem serveStatic_done {calls calls' rounds rounds' : ℕ} {buf filename : Bytes} {fd : Sink}
    {filesize : ℤ} {opened : Option Reads} {l : ServeStatic}
    (h : serveStatic calls rounds buf fd filename filesize opened = some (false, l))
    (hcalls : calls ≤ calls') (hrounds : rounds ≤ rounds') :
    serveStatic calls' rounds' buf fd filename filesize opened = some (false, l) := by
  have h' := serveStatic_mono h hcalls
  obtain ⟨buf', hheaders, hrest⟩ := Option.bind_eq_some_iff.mp h'
  obtain ⟨⟨w, fd'⟩, hwrite, hrun⟩ := Option.bind_eq_some_iff.mp hrest
  rw [serveStatic, hheaders, Option.bind_eq_bind, Option.bind_some, hwrite]
  exact copyRounds_done hrun hrounds

/-! ## Rounds on a file that ends with an error -/

namespace ServeStatic

variable {r : ReadOutcome} {M calls errno : ℕ} {l : ServeStatic}

theorem readValue_error : l.readValue (.error errno) ≠ 0 := by
  rw [readValue]
  split_ifs
  · decide
  · show (-1 : ℤ) ≠ 0
    decide

/-- No round is the last one. -/
theorem copyRounds_error (rounds : ℕ) : ∀ {l : ServeStatic}, l.Serving (.error errno) M calls →
    ∃ l', copyRounds calls rounds l = some (true, l') := by
  induction rounds with
  | zero => intro l _; exact ⟨l, rfl⟩
  | succ rounds ih =>
    intro l h
    obtain ⟨l₁, w, hstep, h₁, -⟩ := copyStep_more h readValue_error
    obtain ⟨l', hrun⟩ := ih h₁
    exact ⟨l', by simp [copyRounds, hstep, hrun]⟩

theorem copyRounds_ne_last {rounds : ℕ} {l' : ServeStatic} (h : l.Serving (.error errno) M calls) :
    copyRounds calls rounds l ≠ some (false, l') := by
  intro hlast
  obtain ⟨l'', hon⟩ := copyRounds_error rounds h
  rw [hlast] at hon
  exact absurd (Prod.mk.inj (Option.some.inj hon)).1 (by decide)

/-- In the end a call of `rio_readn` fails, and `buf` is written all the same. -/
theorem copyRounds_failure (h : l.Serving (.error errno) M calls) :
    ∃ rounds l', copyRounds calls rounds l = some (true, l') ∧ ¬ NoWriteAfterFailure l'.log := by
  induction hlen : l.srcfd.stream.length using Nat.strongRecOn generalizing l with
  | _ len ih =>
    obtain ⟨l₁, w, hstep, h₁, hrest, hlog, -⟩ := copyStep_more h readValue_error
    by_cases hshort : len < MAXLINE
    · have hvalue : l.readValue (.error errno) = -1 := if_neg (by omega)
      refine ⟨1, l₁, by simp [copyRounds, hstep], fun hnone => ?_⟩
      exact hnone l.log [] [] w (by rw [hlog, hvalue]; rfl)
    · have hmax : 0 < MAXLINE := by decide
      have hless : l₁.srcfd.stream.length < len := by
        rw [hrest, List.length_drop]
        omega
      obtain ⟨rounds, l', hrun, hfails⟩ := ih _ hless h₁ rfl
      exact ⟨rounds + 1, l', by simp [copyRounds, hstep, hrun], hfails⟩

/-! ## Rounds on a file that ends with end-of-file -/

/-- No call of `rio_readn` fails. -/
theorem copyRounds_reads (rounds : ℕ) : ∀ {l : ServeStatic} {res : Bool × ServeStatic},
    l.Serving (.data []) M calls → (.read (-1) ∉ l.log) → copyRounds calls rounds l = some res →
    .read (-1) ∉ res.2.log := by
  induction rounds with
  | zero =>
    intro l res _ hlog hrun
    obtain rfl : (true, l) = res := Option.some.inj hrun
    exact hlog
  | succ rounds ih =>
    intro l res h hlog hrun
    by_cases hn : l.readValue (.data []) = 0
    · obtain ⟨l', hstep, -, hlog'⟩ := copyStep_last h hn
      simp only [copyRounds, hstep, Option.bind_eq_bind, Option.bind_some] at hrun
      obtain rfl : (false, l') = res := Option.some.inj hrun
      simp only [hlog']
      simp [hlog]
    · obtain ⟨l', w, hstep, h', -, hlog', -⟩ := copyStep_more h hn
      simp only [copyRounds, hstep, Option.bind_eq_bind, Option.bind_some] at hrun
      refine ih h' ?_ hrun
      have hvalue : -1 ≠ l.readValue (.data []) := by
        rw [readValue]
        split_ifs
        · decide
        · show (-1 : ℤ) ≠ (l.srcfd.stream.length : ℕ)
          omega
      rw [hlog']
      simp [hlog, hvalue]

end ServeStatic

/-! ## All outcomes -/

open ServeStatic

section

variable (buf : Bytes) (fd : Sink) (filename : Bytes) (filesize : ℤ) (opened : Option Reads)

/-- `serve_static` returns. -/
def ServeStaticReturns : Prop :=
  ∃ calls rounds l, serveStatic calls rounds buf fd filename filesize opened = some (false, l)

/-- At no time it has written after a failed read. -/
def StopsAtFailure : Prop :=
  ∀ calls rounds more l, serveStatic calls rounds buf fd filename filesize opened = some (more, l) →
    NoWriteAfterFailure l.log

end

theorem noWriteAfterFailure_of_not_mem {log : List Transfer} (h : .read (-1) ∉ log) :
    NoWriteAfterFailure log := by
  rintro before between after w rfl
  exact h (by simp)

/-- What the calls of `read` come to, also if there is no file. -/
theorem opened_ends {opened : Option Reads}
    (h : ∀ src, opened = some src → ∃ r : ReadOutcome, r.Final ∧ src.EndsWith r) :
    ∃ r : ReadOutcome, r.Final ∧ (opened.getD (.always (.error EBADF))).EndsWith r ∧
      (r = .data [] ↔ ∃ src, opened = some src ∧ src.EndsWith (.data [])) := by
  cases opened with
  | none => exact ⟨.error EBADF, by decide, rfl, by simp⟩
  | some src =>
    obtain ⟨r, hr, hends⟩ := h src rfl
    refine ⟨r, hr, hends, ?_, ?_⟩
    · rintro rfl
      exact ⟨src, rfl, hends⟩
    · rintro ⟨src', he, hends'⟩
      obtain rfl := Option.some.inj he
      exact hends.unique hends'

/-- A run, from where its loop begins. -/
theorem serveStatic_run {buf : Bytes} (hbuf : buf.length = MAXLINE) {fd : Sink} {M : ℕ}
    (hset : fd.Settles M) {filename : Bytes} {filesize : ℤ} {opened : Option Reads}
    {r : ReadOutcome} (hr : r.Final) (hends : (opened.getD (.always (.error EBADF))).EndsWith r)
    {calls rounds : ℕ} {res : Bool × ServeStatic}
    (hres : serveStatic calls rounds buf fd filename filesize opened = some res) :
    ∃ calls' l, l.Serving r M calls' ∧ l.log = [] ∧ copyRounds calls' rounds l = some res := by
  set enough := (opened.getD (.always (.error EBADF))).cost + M + MAXLINE
  obtain ⟨l, h, -, hlog, -, hrun⟩ := serveStatic_start hbuf hset filename filesize opened hr hends
    (show enough < calls + enough + 1 by omega)
  have hmore := serveStatic_mono hres (show calls ≤ calls + enough + 1 by omega)
  exact ⟨_, l, h, hlog, by rw [← hrun, hmore]⟩

/-- **When serving a file ends.** `open` succeeds or not; the file gives bytes, with interrupted
    calls between them, and then an end or an error for ever; and `write` does anything, but is
    interrupted finitely often. `serve_static` returns exactly if `open` has succeeded and the
    file ends with end-of-file, and exactly then it never writes after a failed read. -/
theorem serve_static_ends_iff {buf : Bytes} (hbuf : buf.length = MAXLINE) {fd : Sink} {M : ℕ}
    (hset : fd.Settles M) (filename : Bytes) (filesize : ℤ) {opened : Option Reads}
    (hopened : ∀ src, opened = some src → ∃ r : ReadOutcome, r.Final ∧ src.EndsWith r) :
    (ServeStaticReturns buf fd filename filesize opened ↔
      ∃ src, opened = some src ∧ src.EndsWith (.data [])) ∧
    (StopsAtFailure buf fd filename filesize opened ↔
      ∃ src, opened = some src ∧ src.EndsWith (.data [])) := by
  obtain ⟨r, hr, hends, hiff⟩ := opened_ends hopened
  rw [← hiff]
  obtain ⟨l, h, -, -, -, hrun⟩ :=
    serveStatic_start hbuf hset filename filesize opened hr hends (Nat.lt_succ_self _)
  cases r with
  | data bytes =>
    have hnil : bytes = [] := hr
    subst hnil
    refine ⟨iff_of_true ?_ rfl, iff_of_true ?_ rfl⟩
    · obtain ⟨rounds, l', body, hbody, -⟩ := copyRounds_eof h
      exact ⟨_, rounds, l', (hrun rounds).trans hbody⟩
    · intro calls rounds more l' hres
      obtain ⟨calls', l₀, h₀, hlog, hrun₀⟩ := serveStatic_run hbuf hset hr hends hres
      exact noWriteAfterFailure_of_not_mem (copyRounds_reads rounds h₀ (by simp [hlog]) hrun₀)
  | error errno =>
    refine ⟨iff_of_false ?_ (by simp), iff_of_false ?_ (by simp)⟩
    · rintro ⟨calls, rounds, l', hres⟩
      obtain ⟨calls', l₀, h₀, -, hrun₀⟩ := serveStatic_run hbuf hset hr hends hres
      exact copyRounds_ne_last h₀ hrun₀
    · intro hstops
      obtain ⟨rounds, l', hbad, hfails⟩ := copyRounds_failure h
      exact hfails (hstops _ rounds true l' ((hrun rounds).trans hbad))

theorem serve_static_ends_iff_sample :
    ServeStaticReturns (List.replicate MAXLINE 0) slowSink (ascii "./home.html") 3
      (some cutStream) := by
  have hopened : ∀ src, some cutStream = some src → ∃ r : ReadOutcome, r.Final ∧ src.EndsWith r := by
    intro src he
    rw [← Option.some.inj he]
    exact ⟨.data [], rfl, cutStream_ends⟩
  exact (serve_static_ends_iff List.length_replicate slowSink_settles (ascii "./home.html") 3
    hopened).1.mpr ⟨cutStream, rfl, cutStream_ends⟩

/-- If the file is not there, `serve_static` writes its buffer for ever. -/
theorem missing_file_never_ends :
    ¬ ServeStaticReturns (List.replicate MAXLINE 0) slowSink (ascii "./home.html") 0 none := by
  rintro ⟨calls, rounds, l', hres⟩
  have herror : (ReadOutcome.error EBADF).Final := by decide
  have hends : (Option.getD none (Reads.always (.error EBADF))).EndsWith (.error EBADF) := rfl
  obtain ⟨calls', l, h, -, hrun⟩ :=
    serveStatic_run List.length_replicate slowSink_settles herror hends hres
  exact copyRounds_ne_last h hrun

end XWeb.Net
