import XWeb.Base.LogFile

/-!
# What `AppendFile` counts

`AppendFile::append` (`base/file_util.cpp` lines 21–37) with every result of `fwrite`. The loop
goes on behind what has been written until the line is complete or a call of `fwrite` returns `0`;
then the length of the line is added to `writtenBytes_`.

* `Append.loop`, `AppendFile.appendCalls`: the loop and the function, with a bound on the calls.
* `Append.loop_spec`, `Append.loop_returns`: what the file accepts, and that the loop ends.
* `appendCalls_eq`: the line of a file of `XWeb.Base.LogFile` is what has been accepted.
* `append_accounts_iff`: when `writtenBytes_` grows by the number of bytes that have been
  accepted.
-/

namespace XWeb.Base

open XWeb.Lib

/-- A file opened with `fopen`: what call number `i` of `fwrite` returns when `n` bytes are to be
    written. -/
structure Fwrite where
  result : ℕ → ℕ → ℕ
  result_le : ∀ i n, result i n ≤ n

/-- The variables of `append`; and what the calls of `fwrite` have returned, in order, and the bytes
    that they have accepted. -/
structure Append where
  n : ℕ
  remain : ℕ
  results : List ℕ
  accepted : Bytes

namespace Append

/-- Before the first call of `fwrite`, which is for the whole line. -/
def start (line : Bytes) : Append := ⟨0, line.length, [], []⟩

/-- `write(line + n, remain)` (lines 22 and 25): the variables and what `fwrite` returns. -/
def write (w : Fwrite) (line : Bytes) (l : Append) : ℕ × Append :=
  let x := w.result l.results.length l.remain
  (x, { l with
    results := l.results ++ [x]
    accepted := l.accepted ++ (line.drop l.n).take x })

/-- The loop (lines 24–35). -/
def loop (w : Fwrite) (line : Bytes) : ℕ → Append → Option Append
  | 0, _ => none
  | calls + 1, l =>
    if l.remain > 0 then
      let (x, l) := l.write w line
      if x = 0 then some l
      else
        let n := sizeAdd l.n x
        loop w line calls { l with n := n, remain := sizeSub line.length n }
    else some l

end Append

/-- `append` (lines 21–37), with at most `calls` rounds of the loop. -/
def AppendFile.appendCalls (calls : ℕ) (w : Fwrite) (f : AppendFile) (line : Bytes) :
    Option (AppendFile × Append) := do
  let (n, l) := (Append.start line).write w line
  let l ← Append.loop w line calls { l with n := n, remain := sizeSub line.length n }
  some ({ f with writtenBytes := f.writtenBytes + line.length }, l)

/-- `append` returns. The file has accepted the beginning of the line, and all of it unless a call
    of `fwrite` after the first has returned `0`; and `writtenBytes_` has grown by what was
    accepted. -/
def AppendFile.Accounts (f : AppendFile) (line : Bytes) (w : Fwrite) : Prop :=
  ∃ calls f' l, f.appendCalls calls w line = some (f', l) ∧ l.accepted <+: line ∧
    (l.accepted = line ∨ 0 ∈ l.results.tail) ∧
    f'.writtenBytes = f.writtenBytes + l.accepted.length

/-- How many of `len` bytes have been accepted before call number `i`, if the calls go on. -/
def Fwrite.offset (w : Fwrite) (len : ℕ) : ℕ → ℕ
  | 0 => 0
  | i + 1 => w.offset len i + w.result i (len - w.offset len i)

/-- No call of `fwrite` after the first returns `0` as long as there are bytes to write. -/
def Fwrite.GoesOn (w : Fwrite) (len : ℕ) : Prop :=
  ∀ i, 1 ≤ i → w.offset len i < len → w.result i (len - w.offset len i) ≠ 0

theorem Fwrite.offset_le (w : Fwrite) (len : ℕ) : ∀ i, w.offset len i ≤ len
  | 0 => Nat.zero_le len
  | i + 1 => by
    have hle := w.offset_le len i
    have hresult := w.result_le i (len - w.offset len i)
    rw [offset]
    omega

theorem Fwrite.le_offset (w : Fwrite) (len i : ℕ) : ∀ k, w.offset len i ≤ w.offset len (i + k)
  | 0 => Nat.le_refl _
  | k + 1 => Nat.le_trans (w.le_offset len i k) (Nat.le_add_right _ _)

namespace Append

variable {w : Fwrite} {line : Bytes}

/-- The loop has come behind what has been accepted, which is the beginning of the line. -/
structure At (w : Fwrite) (line : Bytes) (l : Append) : Prop where
  n_eq : l.n = w.offset line.length l.results.length
  remain_eq : l.remain = line.length - l.n
  accepted : l.accepted = line.take l.n

variable {l l' : Append}

theorem At.n_le (h : At w line l) : l.n ≤ line.length := h.n_eq ▸ w.offset_le _ _

/-- The variables after a round in which `x` bytes are accepted. -/
def next (line : Bytes) (l : Append) (x : ℕ) : Append :=
  { n := sizeAdd l.n x
    remain := sizeSub line.length (sizeAdd l.n x)
    results := l.results ++ [x]
    accepted := l.accepted ++ (line.drop l.n).take x }

/-! Each round of the loop finds the line complete, or `fwrite` returns `0`, or the loop goes on. -/

theorem loop_complete (calls : ℕ) (h : l.remain = 0) : loop w line (calls + 1) l = some l := by
  rw [loop, if_neg (by omega)]

theorem loop_zero (calls : ℕ) (h : 0 < l.remain) (hx : w.result l.results.length l.remain = 0) :
    loop w line (calls + 1) l = some { l with results := l.results ++ [0] } := by
  rw [loop, if_pos h]
  simp [Append.write, hx]

theorem loop_more (calls : ℕ) (h : 0 < l.remain) {x : ℕ}
    (hx : w.result l.results.length l.remain = x) (hne : x ≠ 0) :
    loop w line (calls + 1) l = loop w line calls (l.next line x) := by
  rw [loop, if_pos h]
  simp only [Append.write, hx, if_neg hne]
  rfl

/-- A round keeps the place. -/
theorem At.next (h : At w line l) (hlen : line.length < 2 ^ 64) {x : ℕ}
    (hx : w.result l.results.length l.remain = x) :
    (l.next line x).n = l.n + x ∧ (l.next line x).remain = l.remain - x ∧
      At w line (l.next line x) := by
  have hle := h.n_le
  have hx_le : x ≤ l.remain := hx ▸ w.result_le _ _
  have hremain := h.remain_eq
  have hn : (l.next line x).n = l.n + x := sizeAdd_of_lt (by omega)
  have hrest : (l.next line x).remain = line.length - (l.n + x) := by
    simp only [Append.next, sizeAdd_of_lt (show l.n + x < 2 ^ 64 by omega)]
    exact sizeSub_of_le (by omega) hlen
  refine ⟨hn, by omega, ?_, by rw [hrest, hn], ?_⟩
  · rw [hn]
    simp only [Append.next, List.length_append, List.length_singleton, Fwrite.offset]
    rw [← h.n_eq, ← hremain, hx]
  · rw [hn, List.take_add, ← h.accepted]
    rfl

/-- The loop ends. -/
theorem loop_returns (hlen : line.length < 2 ^ 64) (calls : ℕ) : ∀ {l : Append}, At w line l →
    l.remain < calls → ∃ l', loop w line calls l = some l' := by
  induction calls with
  | zero => intro l _ hlt; exact absurd hlt (Nat.not_lt_zero _)
  | succ calls ih =>
    intro l h hlt
    rcases Nat.eq_zero_or_pos l.remain with hzero | hpos
    · exact ⟨l, loop_complete calls hzero⟩
    · by_cases hx : w.result l.results.length l.remain = 0
      · exact ⟨_, loop_zero calls hpos hx⟩
      · -- a byte at least is accepted
        obtain ⟨-, hremain, hnext⟩ := h.next hlen rfl
        rw [loop_more calls hpos rfl hx]
        exact ih hnext (by omega)

/-- What the loop, begun in `l`, has done when it ends in `l'`. -/
def Done (w : Fwrite) (line : Bytes) (l l' : Append) : Prop :=
  ∃ rs, l'.results = l.results ++ rs ∧ l'.accepted <+: line ∧
    AppendFile.writeLoop line.length l.n rs = l'.accepted.length ∧
    (l'.accepted = line ∨ 0 ∈ rs) ∧
    (l'.accepted = line ↔ ∀ i, l.results.length ≤ i → w.offset line.length i < line.length →
      w.result i (line.length - w.offset line.length i) ≠ 0)

theorem At.length_accepted (h : At w line l) : l.accepted.length = l.n := by
  rw [h.accepted, List.length_take_of_le h.n_le]

theorem At.accepted_begins (h : At w line l) : l.accepted <+: line :=
  h.accepted ▸ List.take_prefix _ _

theorem At.done_complete (h : At w line l) (hzero : l.remain = 0) : Done w line l l := by
  have hremain := h.remain_eq
  have hwhole : l.accepted = line := by rw [h.accepted, List.take_of_length_le (by omega)]
  refine ⟨[], by simp, h.accepted_begins, h.length_accepted.symm, Or.inl hwhole, ?_⟩
  -- no offset to come is less than the length
  refine iff_of_true hwhole fun i hi hlt => ?_
  obtain ⟨k, rfl⟩ := Nat.exists_eq_add_of_le hi
  have hmono := w.le_offset line.length l.results.length k
  rw [← h.n_eq] at hmono
  omega

theorem At.done_zero (h : At w line l) (hpos : 0 < l.remain)
    (hx : w.result l.results.length l.remain = 0) :
    Done w line l { l with results := l.results ++ [0] } := by
  have hremain := h.remain_eq
  have hlength := h.length_accepted
  refine ⟨[0], rfl, h.accepted_begins, ?_, Or.inr (by simp), ?_⟩
  · simp [AppendFile.writeLoop, hlength]
  · refine iff_of_false (fun he => ?_) fun hall => ?_
    · have hshort := congrArg List.length he
      simp only [hlength] at hshort
      omega
    · refine hall l.results.length le_rfl ?_ ?_
      · rw [← h.n_eq]
        omega
      · rw [← h.n_eq, ← hremain]
        exact hx

theorem At.done_more (h : At w line l) (hlen : line.length < 2 ^ 64) (hpos : 0 < l.remain)
    (hx : w.result l.results.length l.remain ≠ 0)
    (hdone : Done w line (l.next line (w.result l.results.length l.remain)) l') :
    Done w line l l' := by
  have hremain := h.remain_eq
  obtain ⟨hn, -, -⟩ := h.next hlen rfl
  obtain ⟨rs, hresults, hbegins, hwritten, hwhole, hiff⟩ := hdone
  refine ⟨w.result l.results.length l.remain :: rs, ?_, hbegins, ?_, ?_, ?_⟩
  · rw [hresults, Append.next, List.append_assoc]
    rfl
  · rw [AppendFile.writeLoop, if_pos (by omega), if_neg hx, ← hn, hwritten]
  · exact hwhole.imp_right (List.mem_cons_of_mem _)
  · rw [hiff]
    simp only [Append.next, List.length_append, List.length_singleton]
    constructor
    · intro hall i hi hlt
      rcases Nat.eq_or_lt_of_le hi with rfl | hi
      · rw [← h.n_eq, ← hremain]
        exact hx
      · exact hall i hi hlt
    · exact fun hall i hi => hall i (Nat.le_of_succ_le hi)

/-- What the loop has done when it ends. -/
theorem loop_spec (hlen : line.length < 2 ^ 64) (calls : ℕ) : ∀ {l l' : Append}, At w line l →
    loop w line calls l = some l' → Done w line l l' := by
  induction calls with
  | zero => intro l l' _ hloop; cases hloop
  | succ calls ih =>
    intro l l' h hloop
    rcases Nat.eq_zero_or_pos l.remain with hzero | hpos
    · rw [loop_complete calls hzero] at hloop
      obtain rfl := Option.some.inj hloop
      exact h.done_complete hzero
    · by_cases hx : w.result l.results.length l.remain = 0
      · rw [loop_zero calls hpos hx] at hloop
        obtain rfl := Option.some.inj hloop
        exact h.done_zero hpos hx
      · obtain ⟨-, -, hnext⟩ := h.next hlen rfl
        rw [loop_more calls hpos rfl hx] at hloop
        exact h.done_more hlen hpos hx (ih hnext hloop)

theorem start_at (w : Fwrite) (line : Bytes) : At w line (start line) := ⟨rfl, rfl, rfl⟩

end Append

/-! ## The whole function -/

variable {w : Fwrite} {f : AppendFile} {line : Bytes}

theorem appendCalls_eq (hlen : line.length < 2 ^ 64) (calls : ℕ) :
    f.appendCalls calls w line =
      (Append.loop w line calls ((Append.start line).next line (w.result 0 line.length))).map
        fun l => ({ f with writtenBytes := f.writtenBytes + line.length }, l) := by
  have hresult := w.result_le 0 line.length
  have hfirst : sizeAdd 0 (w.result 0 line.length) = w.result 0 line.length := by
    rw [sizeAdd_of_lt (by omega), Nat.zero_add]
  have hnext : (Append.start line).next line (w.result 0 line.length) =
      { n := w.result 0 line.length
        remain := sizeSub line.length (w.result 0 line.length)
        results := [w.result 0 line.length]
        accepted := line.take (w.result 0 line.length) } := by
    simp only [Append.next, Append.start, hfirst, List.nil_append, List.drop_zero]
  rw [hnext, Option.map_eq_bind]
  rfl

/-- Enough rounds of the loop. -/
theorem appendCalls_returns (hlen : line.length < 2 ^ 64) :
    ∃ f' l, f.appendCalls (line.length + 1) w line = some (f', l) := by
  obtain ⟨-, hremain, hat⟩ := (Append.start_at w line).next hlen rfl
  obtain ⟨l, hl⟩ := Append.loop_returns hlen (line.length + 1) hat (by
    have hle : (Append.start line).remain ≤ line.length := le_rfl
    omega)
  exact ⟨_, l, by rw [appendCalls_eq hlen]; exact congrArg _ hl⟩

/-- What `append` has done when it returns. -/
theorem appendCalls_spec (hlen : line.length < 2 ^ 64) {calls : ℕ} {f' : AppendFile} {l : Append}
    (h : f.appendCalls calls w line = some (f', l)) :
    f' = { f with writtenBytes := f.writtenBytes + line.length } ∧ l.accepted <+: line ∧
      AppendFile.written line.length l.results = l.accepted.length ∧
      (l.accepted = line ∨ 0 ∈ l.results.tail) ∧ (l.accepted = line ↔ w.GoesOn line.length) := by
  rw [appendCalls_eq hlen] at h
  obtain ⟨l', hloop, he⟩ := Option.map_eq_some_iff.mp h
  obtain ⟨rfl, rfl⟩ := Prod.mk.inj he
  obtain ⟨hn, -, hat⟩ := (Append.start_at w line).next hlen rfl
  obtain ⟨rs, hresults, hbegins, hwritten, hwhole, hiff⟩ := Append.loop_spec hlen calls hat hloop
  have hfirst : l'.results = w.result 0 line.length :: rs := hresults
  refine ⟨rfl, hbegins, ?_, ?_, hiff⟩
  · rw [hfirst, AppendFile.written, ← hwritten, hn]
    simp [Append.start]
  · rwa [hfirst]

/-- What the file gets is what `AppendFile.append` gives it, with the same results of `fwrite`. -/
theorem append_eq_appendCalls (hlen : line.length < 2 ^ 64) {calls : ℕ} {f' : AppendFile}
    {l : Append} (h : f.appendCalls calls w line = some (f', l)) (disk : Disk) :
    f.append disk line l.results =
      (f', Function.update disk f.path ((disk f.path).map fun lines => lines ++ [l.accepted])) := by
  obtain ⟨rfl, hbegins, hwritten, -, -⟩ := appendCalls_spec hlen h
  rw [AppendFile.append, hwritten, ← List.prefix_iff_eq_take.mp hbegins]

/-- **When `writtenBytes_` is right.** For every line and every sequence of results of `fwrite`,
    each at most what was asked for: `append` returns, the file has accepted the beginning of the
    line, all of it unless a call after the first returned `0`, and `writtenBytes_` has grown by
    the number of bytes accepted, exactly if no call after the first returns `0` before the line
    is complete. -/
theorem append_accounts_iff (f : AppendFile) (line : Bytes) (w : Fwrite)
    (hlen : line.length < 2 ^ 64) : f.Accounts line w ↔ w.GoesOn line.length := by
  constructor
  · rintro ⟨calls, f', l, h, -, -, hgrown⟩
    obtain ⟨rfl, hbegins, -, -, hiff⟩ := appendCalls_spec hlen h
    exact hiff.mp (hbegins.eq_of_length (Nat.add_left_cancel hgrown).symm)
  · intro hgoes
    obtain ⟨f', l, h⟩ := appendCalls_returns (f := f) (w := w) hlen
    obtain ⟨rfl, hbegins, -, hwhole, hiff⟩ := appendCalls_spec hlen h
    exact ⟨_, _, l, h, hbegins, hwhole, by rw [hiff.mpr hgoes]⟩

/-- Three bytes at a time. -/
def Fwrite.three : Fwrite := ⟨fun _ n => min 3 n, fun _ n => Nat.min_le_right 3 n⟩

theorem append_accounts_iff_sample :
    AppendFile.Accounts ⟨[97], 0, false⟩ (ascii "a long line\n") Fwrite.three := by
  refine (append_accounts_iff _ _ _ (by decide)).mpr fun i _ hlt => ?_
  show min 3 _ ≠ 0
  omega

/-- A byte at the first call, and then the disk is full. -/
def Fwrite.diskFull : Fwrite :=
  ⟨fun i n => if i = 0 then min 1 n else 0, fun i n => by
    split
    · exact Nat.min_le_right 1 n
    · exact Nat.zero_le n⟩

/-- Of two bytes one is written, and two are counted. -/
theorem full_disk_counted : ¬ AppendFile.Accounts ⟨[97], 0, false⟩ [1, 2] Fwrite.diskFull := by
  rintro ⟨calls, f', l, h, -, -, hgrown⟩
  obtain ⟨rfl, hbegins, -, -, hiff⟩ := appendCalls_spec (by decide) h
  have hgoes := hiff.mp (hbegins.eq_of_length (Nat.add_left_cancel hgrown).symm)
  exact hgoes 1 le_rfl (by decide) rfl

end XWeb.Base
