import XWeb.Lib.CInt
import XWeb.Lib.Slice

/-!
# Buffered reading

Model of `rio_init` and `rio_read` (`base/rio.h` and `base/rio.cpp`). A descriptor is the results of
the calls of `read` on it, in order; from some call on they are all the same. `rio_cnt` is an `int`
that also holds the `-1` of a failed call, `rio_bufptr` is an offset in `rio_buf`.

* `Reads.stream`: the bytes a descriptor delivers before the end.
* `Reads.Delivers`, `Reads.Chunked`: what is delivered before a last result, and before end-of-file.
* `Rio.refill_ends`: the loop of `rio_read` ends with the next bytes in the buffer, or at the end.
* `Rio.rioRead_end`, `Rio.rioRead_byte`: one call for one byte.
-/

namespace XWeb.Base

open XWeb.Lib

def RIO_BUFSIZE : ℕ := 8192

def EINTR : ℕ := 4

/-- What one call of `read` does: the bytes it stores (none at end-of-file), or `-1` and `errno`. -/
inductive ReadOutcome
  | data (bytes : Bytes)
  | error (errno : ℕ)
  deriving DecidableEq

/-- A result that stays: end-of-file, or an error. -/
def ReadOutcome.Final : ReadOutcome → Prop
  | .data bytes => bytes = []
  | .error errno => errno ≠ EINTR

instance : ∀ r : ReadOutcome, Decidable r.Final
  | .data _ => inferInstanceAs (Decidable (_ = _))
  | .error _ => inferInstanceAs (Decidable (_ ≠ _))

/-- What a result that stays makes `rio_read` return. -/
def ReadOutcome.exit : ReadOutcome → ℤ
  | .data _ => 0
  | .error _ => -1

/-- The results of the calls of `read` on a descriptor. -/
inductive Reads
  /-- Every call from here on has this result. -/
  | always (r : ReadOutcome)
  | next (r : ReadOutcome) (later : Reads)
  deriving DecidableEq

/-- `rio_t`, without the descriptor. -/
structure Rio where
  rioCnt : ℤ
  rioBufptr : ℕ
  rioBuf : Bytes
  deriving DecidableEq

namespace Rio

/-- `rio_init` (lines 33–37). It leaves `rio_buf` as it is. -/
def init (rioBuf : Bytes) : Rio := { rioCnt := 0, rioBufptr := 0, rioBuf := rioBuf }

/-- The body of the loop of `rio_read` (lines 10–21), once `read` has returned: the value `rio_read`
    returns, or `none` if the loop goes on. -/
def filled (rp : Rio) : ReadOutcome → Rio × Option ℤ
  | .error errno => ({ rp with rioCnt := -1 }, if errno ≠ EINTR then some (-1) else none)
  | .data [] => ({ rp with rioCnt := 0 }, some 0)
  | .data bytes =>
    ({ rioCnt := bytes.length, rioBufptr := 0, rioBuf := overwrite rp.rioBuf 0 bytes }, none)

/-- The loop (lines 9–22): `none` if it does not end, which is when `read` fails with `EINTR` for
    ever. -/
def refill (rp : Rio) : Reads → Option (Rio × Option ℤ × Reads)
  | .always r =>
    if 0 < rp.rioCnt then some (rp, none, .always r)
    else
      let (rp', ret) := rp.filled r
      if ret ≠ none ∨ 0 < rp'.rioCnt then some (rp', ret, .always r) else none
  | .next r later =>
    if 0 < rp.rioCnt then some (rp, none, .next r later)
    else
      let (rp', ret) := rp.filled r
      if ret ≠ none then some (rp', ret, later) else rp'.refill later

/-- What `rio_read` returns and stores at `usrbuf`. -/
structure Result where
  ret : ℤ
  usrbuf : Bytes
  rp : Rio
  fd : Reads

/-- `rio_read` (lines 7–31). Behind the loop `rio_cnt` is positive, so that comparing it to `n` as
    unsigned numbers is comparing the numbers. -/
def rioRead (rp : Rio) (fd : Reads) (n : ℕ) : Option Result := do
  let (rp, ret, fd) ← rp.refill fd
  match ret with
  | some v => some { ret := v, usrbuf := [], rp, fd }
  | none =>
    let cnt := if rp.rioCnt < n then rp.rioCnt else toInt n
    some
      { ret := cnt
        usrbuf := window rp.rioBuf rp.rioBufptr (rp.rioBufptr + cnt.toNat)
        rp := { rp with rioBufptr := rp.rioBufptr + cnt.toNat, rioCnt := rp.rioCnt - cnt }
        fd }

/-! ## What is still to be read -/

/-- The unread bytes lie in the buffer. -/
structure Wf (rp : Rio) : Prop where
  size : rp.rioBuf.length = RIO_BUFSIZE
  within : rp.rioBufptr + rp.rioCnt.toNat ≤ RIO_BUFSIZE

def unread (rp : Rio) : Bytes :=
  window rp.rioBuf rp.rioBufptr (rp.rioBufptr + rp.rioCnt.toNat)

theorem unread_of_nonpos {rp : Rio} (h : rp.rioCnt ≤ 0) : rp.unread = [] := by
  rw [unread, Int.toNat_of_nonpos h]
  exact window_self _ _

end Rio

namespace Reads

/-- The bytes delivered before the first end-of-file. -/
def stream : Reads → Bytes
  | .always _ => []
  | .next (.data []) _ => []
  | .next (.data bytes) later => bytes ++ later.stream
  | .next (.error _) later => later.stream

/-- Chunks that are not empty and fit the buffer, interrupted calls, and then end-of-file. -/
def Chunked : Reads → Prop
  | .always r => r = .data []
  | .next (.data bytes) later => bytes ≠ [] ∧ bytes.length ≤ RIO_BUFSIZE ∧ later.Chunked
  | .next (.error errno) later => errno = EINTR ∧ later.Chunked

/-- Bytes and interrupted calls, and then `r` for ever. -/
def EndsWith (r : ReadOutcome) : Reads → Prop
  | .always r' => r' = r
  | .next (.data bytes) later => bytes ≠ [] ∧ later.EndsWith r
  | .next (.error errno) later => errno = EINTR ∧ later.EndsWith r

/-- The chunks fit `rio_buf`. -/
def Sized : Reads → Prop
  | .always _ => True
  | .next (.data bytes) later => bytes.length ≤ RIO_BUFSIZE ∧ later.Sized
  | .next (.error _) later => later.Sized

/-- What `read` delivers into `rio_buf` before a last result. -/
structure Delivers (r : ReadOutcome) (fd : Reads) : Prop where
  final : r.Final
  ends : fd.EndsWith r
  sized : fd.Sized

theorem chunked_iff (fd : Reads) : fd.Chunked ↔ fd.Delivers (.data []) := by
  have hiff : fd.Chunked ↔ fd.EndsWith (.data []) ∧ fd.Sized := by
    induction fd with
    | always r => simp [Chunked, EndsWith, Sized]
    | next r later ih =>
      cases r with
      | data bytes =>
        simp only [Chunked, EndsWith, Sized, ih]
        tauto
      | error errno =>
        simp only [Chunked, EndsWith, Sized, ih]
        tauto
  rw [hiff]
  exact ⟨fun h => ⟨rfl, h.1, h.2⟩, fun h => ⟨h.ends, h.sized⟩⟩

end Reads

namespace Rio

/-- With `rio_cnt` not positive nothing is unread. -/
theorem Wf.empty {rp : Rio} (h : rp.Wf) {cnt : ℤ} (hcnt : cnt ≤ 0) :
    Wf { rp with rioCnt := cnt } ∧ unread { rp with rioCnt := cnt } = [] := by
  have hwithin := h.within
  exact ⟨⟨h.size, by simp only; omega⟩, unread_of_nonpos hcnt⟩

/-- A result that stays ends the loop. -/
theorem filled_final {r : ReadOutcome} (hr : r.Final) {rp : Rio} (h : rp.Wf) :
    ∃ rp', rp.filled r = (rp', some r.exit) ∧ rp'.Wf ∧ rp'.unread = [] := by
  cases r with
  | data bytes =>
    obtain rfl : bytes = [] := hr
    exact ⟨_, rfl, h.empty (Int.le_refl 0)⟩
  | error errno =>
    have herr : errno ≠ EINTR := hr
    refine ⟨{ rp with rioCnt := -1 }, ?_, h.empty (show (-1 : ℤ) ≤ 0 by decide)⟩
    rw [filled, if_pos herr]
    rfl

/-- A chunk is what is unread then. -/
theorem filled_data {rp : Rio} (h : rp.Wf) {b : UInt8} {bs : Bytes}
    (hlen : (b :: bs).length ≤ RIO_BUFSIZE) :
    ∃ rp', rp.filled (.data (b :: bs)) = (rp', none) ∧ rp'.Wf ∧ rp'.unread = b :: bs ∧
      0 < rp'.rioCnt := by
  have hroom : 0 + (b :: bs).length ≤ rp.rioBuf.length := by
    rw [h.size, Nat.zero_add]
    exact hlen
  refine ⟨_, rfl, ⟨(length_overwrite hroom).trans h.size, ?_⟩, window_overwrite_self hroom,
    Int.natCast_pos.mpr (Nat.succ_pos _)⟩
  rw [Int.toNat_natCast, Nat.zero_add]
  exact hlen

theorem refill_of_pos {rp : Rio} (hcnt : 0 < rp.rioCnt) (fd : Reads) :
    rp.refill fd = some (rp, none, fd) := by
  cases fd <;> exact if_pos hcnt

/-- The loop ends: with unread bytes in the buffer, or at the end with nothing left. -/
theorem refill_ends {r : ReadOutcome} {fd : Reads} (hfd : fd.Delivers r) : ∀ {rp : Rio}, rp.Wf →
    ∃ rp' ret fd', rp.refill fd = some (rp', ret, fd') ∧ rp'.Wf ∧ fd'.Delivers r ∧
      rp'.unread ++ fd'.stream = rp.unread ++ fd.stream ∧
      (ret = none ∧ 0 < rp'.rioCnt ∨ ret = some r.exit ∧ rp.unread ++ fd.stream = []) := by
  induction fd with
  | always r' =>
    intro rp h
    by_cases hcnt : 0 < rp.rioCnt
    · exact ⟨rp, none, _, refill_of_pos hcnt _, h, hfd, rfl, Or.inl ⟨rfl, hcnt⟩⟩
    · obtain rfl : r' = r := hfd.ends
      obtain ⟨rp', hfilled, hwf, hnil'⟩ := filled_final hfd.final h
      have hnil : rp.unread = [] := unread_of_nonpos (by omega)
      refine ⟨rp', some r'.exit, _, ?_, hwf, hfd, by rw [hnil, hnil'], Or.inr ⟨rfl, by rw [hnil]; rfl⟩⟩
      rw [refill, if_neg hcnt, hfilled]
      simp
  | next r' later ih =>
    intro rp h
    by_cases hcnt : 0 < rp.rioCnt
    · exact ⟨rp, none, _, refill_of_pos hcnt _, h, hfd, rfl, Or.inl ⟨rfl, hcnt⟩⟩
    · have hnil : rp.unread = [] := unread_of_nonpos (by omega)
      rw [refill, if_neg hcnt, hnil]
      cases r' with
      | error errno =>
        -- an interrupted call is made again
        obtain ⟨rfl, hlater⟩ := hfd.ends
        obtain ⟨hwf, hnil'⟩ := h.empty (show (-1 : ℤ) ≤ 0 by decide)
        obtain ⟨rp', ret, fd', hrefill, hwf', hfd', hs, hret⟩ :=
          ih ⟨hfd.final, hlater, hfd.sized⟩ hwf
        rw [hnil'] at hs hret
        refine ⟨rp', ret, fd', ?_, hwf', hfd', hs, hret⟩
        simpa [filled] using hrefill
      | data bytes =>
        obtain ⟨hne, hlater⟩ := hfd.ends
        obtain ⟨hlen, hsized⟩ := hfd.sized
        obtain ⟨b, bs, rfl⟩ := List.exists_cons_of_ne_nil hne
        obtain ⟨rp', hfilled, hwf, hunread, hpos⟩ := filled_data h hlen
        refine ⟨rp', none, later, ?_, hwf, ⟨hfd.final, hlater, hsized⟩, by rw [hunread]; rfl,
          Or.inl ⟨rfl, hpos⟩⟩
        rw [hfilled]
        simp [refill_of_pos hpos]

/-- With nothing left `rio_read` returns what the last result makes it return. -/
theorem rioRead_end {r : ReadOutcome} {rp : Rio} (h : rp.Wf) {fd : Reads} (hfd : fd.Delivers r)
    (hs : rp.unread ++ fd.stream = []) :
    ∃ rp' fd', rp.rioRead fd 1 = some { ret := r.exit, usrbuf := [], rp := rp', fd := fd' } ∧
      rp'.Wf ∧ fd'.Delivers r ∧ rp'.unread ++ fd'.stream = [] := by
  obtain ⟨rp', ret, fd', hr, hwf, hfd', hs', hret⟩ := refill_ends hfd h
  rw [hs] at hs'
  refine ⟨rp', fd', ?_, hwf, hfd', hs'⟩
  rcases hret with ⟨-, hcnt⟩ | ⟨rfl, -⟩
  · have hlen : rp'.unread.length = rp'.rioCnt.toNat := by
      rw [unread, length_window (by rw [hwf.size]; exact hwf.within)]
      omega
    rw [(List.append_eq_nil_iff.mp hs').1] at hlen
    simp only [List.length_nil] at hlen
    omega
  · rw [rioRead, hr]
    rfl

/-- Otherwise it returns `1` and the next byte. -/
theorem rioRead_byte {r : ReadOutcome} {rp : Rio} (h : rp.Wf) {fd : Reads} (hfd : fd.Delivers r)
    {c : UInt8} {s : Bytes} (hs : rp.unread ++ fd.stream = c :: s) :
    ∃ rp' fd', rp.rioRead fd 1 = some { ret := 1, usrbuf := [c], rp := rp', fd := fd' } ∧
      rp'.Wf ∧ fd'.Delivers r ∧ rp'.unread ++ fd'.stream = s := by
  obtain ⟨rp₁, ret, fd', hr, hwf, hfd', hs₁, hret⟩ := refill_ends hfd h
  rw [hs] at hs₁ hret
  rcases hret with ⟨rfl, hcnt⟩ | ⟨-, hnil⟩
  · have hend : (rp₁.rioCnt - 1).toNat + 1 = rp₁.rioCnt.toNat := by omega
    have hwithin := hwf.within
    -- the unread bytes are the one that is taken and those after it
    have hfront : window rp₁.rioBuf rp₁.rioBufptr (rp₁.rioBufptr + 1) = rp₁.unread.take 1 :=
      window_take _ _ _ _ (by omega)
    have hback : unread { rp₁ with rioBufptr := rp₁.rioBufptr + 1, rioCnt := rp₁.rioCnt - 1 } =
        rp₁.unread.drop 1 := by
      rw [unread, unread, ← window_drop, ← hend]
      congr 1
      simp only
      omega
    have hlen : rp₁.unread.length = rp₁.rioCnt.toNat := by
      rw [unread, length_window (by rw [hwf.size]; exact hwithin)]
      omega
    obtain ⟨b, bs, hb⟩ := List.exists_cons_of_length_pos (show 0 < rp₁.unread.length by omega)
    rw [hb, List.cons_append] at hs₁
    obtain ⟨rfl, rfl⟩ := List.cons.inj hs₁
    refine ⟨{ rp₁ with rioBufptr := rp₁.rioBufptr + 1, rioCnt := rp₁.rioCnt - 1 }, fd', ?_,
      ⟨hwf.size, by simp only; omega⟩, hfd', by rw [hback, hb]; rfl⟩
    have hn : (if rp₁.rioCnt < (1 : ℕ) then rp₁.rioCnt else toInt (1 : ℕ)) = 1 := by
      rw [if_neg (by omega)]
      rfl
    rw [rioRead, hr]
    simp only [Option.bind_eq_bind, Option.bind_some, hn, Int.toNat_one, hfront, hb]
    rfl
  · exact absurd hnil (by simp)

/-- At end-of-file `rio_read` returns `0`. -/
theorem rioRead_nil {rp : Rio} (h : rp.Wf) {fd : Reads} (hfd : fd.Chunked)
    (hs : rp.unread ++ fd.stream = []) :
    ∃ rp' fd', rp.rioRead fd 1 = some { ret := 0, usrbuf := [], rp := rp', fd := fd' } ∧
      rp'.Wf ∧ fd'.Chunked ∧ rp'.unread ++ fd'.stream = [] := by
  obtain ⟨rp', fd', hr, hwf, hfd', hs'⟩ := rioRead_end h ((Reads.chunked_iff fd).mp hfd) hs
  exact ⟨rp', fd', hr, hwf, (Reads.chunked_iff fd').mpr hfd', hs'⟩

theorem rioRead_cons {rp : Rio} (h : rp.Wf) {fd : Reads} (hfd : fd.Chunked) {c : UInt8} {s : Bytes}
    (hs : rp.unread ++ fd.stream = c :: s) :
    ∃ rp' fd', rp.rioRead fd 1 = some { ret := 1, usrbuf := [c], rp := rp', fd := fd' } ∧
      rp'.Wf ∧ fd'.Chunked ∧ rp'.unread ++ fd'.stream = s := by
  obtain ⟨rp', fd', hr, hwf, hfd', hs'⟩ := rioRead_byte h ((Reads.chunked_iff fd).mp hfd) hs
  exact ⟨rp', fd', hr, hwf, (Reads.chunked_iff fd').mpr hfd', hs'⟩

end Rio

end XWeb.Base
