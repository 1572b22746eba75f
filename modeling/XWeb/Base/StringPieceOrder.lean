import XWeb.Base.StringPiece

/-!
# Comparisons of `StringPiece`

`operator==`, the four predicates of `STRINGPIECE_BINARY_PREDICATE`, `compare`, `starts_with` and
`remove_prefix` of `base/StringPiece.h` (lines 113–163). They compare with `memcmp` what both pieces
have and then the lengths.

* `lt_iff_memdiff`, `eq_iff_memdiff`, `prefix_iff_memdiff`: the orders on byte strings in terms of
  the first bytes that differ.
* `comparisons`: the operators are equality and the lexicographic order of unsigned bytes.
-/

namespace XWeb.Base

open XWeb.Lib

/-! ## `memcmp` -/

/-- The difference of the first two bytes, as `unsigned char`, that differ; `0` if one string is a
    prefix of the other. -/
def memdiff : Bytes → Bytes → ℤ
  | a :: as, b :: bs => if a = b then memdiff as bs else (a.toNat : ℤ) - b.toNat
  | _, _ => 0

/-- `memcmp`. Only the sign of the result is promised; reading beyond an object is undefined. -/
def memcmp (a b : Bytes) (n : ℕ) : Option ℤ :=
  if n ≤ a.length ∧ n ≤ b.length then some (memdiff (a.take n) (b.take n)) else none

@[simp] theorem memdiff_nil_left (b : Bytes) : memdiff [] b = 0 := by
  unfold memdiff
  rfl

@[simp] theorem memdiff_nil_right (a : Bytes) : memdiff a [] = 0 := by
  cases a <;> rfl

theorem memdiff_comm (a b : Bytes) : memdiff b a = -memdiff a b := by
  induction a generalizing b with
  | nil => simp
  | cons x xs ih =>
    cases b with
    | nil => simp
    | cons y ys =>
      unfold memdiff
      by_cases h : x = y
      · rw [if_pos h, if_pos h.symm, ih]
      · rw [if_neg h, if_neg (Ne.symm h), Int.neg_sub]

/-- What lies beyond the shorter of two strings makes no difference. -/
theorem memdiff_take (a b : Bytes) (n : ℕ) (h : min a.length b.length ≤ n) :
    memdiff (a.take n) (b.take n) = memdiff a b := by
  induction a generalizing b n with
  | nil => simp
  | cons x xs ih =>
    cases b with
    | nil => simp
    | cons y ys =>
      cases n with
      | zero =>
        simp only [List.length_cons] at h
        omega
      | succ n =>
        have hn : min xs.length ys.length ≤ n := by
          simp only [List.length_cons] at h
          omega
        show (if x = y then memdiff (xs.take n) (ys.take n) else _) = if x = y then _ else _
        rw [ih ys n hn]

theorem memdiff_cons_of_ne {x y : UInt8} (xs ys : Bytes) (h : x ≠ y) :
    memdiff (x :: xs) (y :: ys) = (x.toNat : ℤ) - y.toNat := if_neg h

theorem memdiff_cons_self (x : UInt8) (xs ys : Bytes) :
    memdiff (x :: xs) (x :: ys) = memdiff xs ys := if_pos rfl

theorem eq_iff_memdiff (a b : Bytes) : a = b ↔ a.length = b.length ∧ memdiff a b = 0 := by
  induction a generalizing b with
  | nil => simp [eq_comm]
  | cons x xs ih =>
    cases b with
    | nil => simp
    | cons y ys =>
      by_cases h : x = y
      · subst h
        rw [memdiff_cons_self, List.cons_eq_cons, ih ys]
        simp
      · have hn : x.toNat ≠ y.toNat := fun he => h (UInt8.toNat_inj.mp he)
        rw [memdiff_cons_of_ne xs ys h, List.cons_eq_cons]
        constructor
        · rintro ⟨he, -⟩
          exact absurd he h
        · omega

theorem lt_iff_memdiff (a b : Bytes) :
    a < b ↔ memdiff a b < 0 ∨ memdiff a b = 0 ∧ a.length < b.length := by
  induction a generalizing b with
  | nil =>
    cases b with
    | nil => simp
    | cons y ys => simp
  | cons x xs ih =>
    cases b with
    | nil => simp
    | cons y ys =>
      rw [List.cons_lt_cons_iff]
      by_cases h : x = y
      · subst h
        rw [memdiff_cons_self, ih ys]
        simp
      · have hn : x.toNat ≠ y.toNat := fun he => h (UInt8.toNat_inj.mp he)
        rw [memdiff_cons_of_ne xs ys h, UInt8.lt_iff_toNat_lt]
        constructor
        · rintro (hlt | ⟨he, -⟩)
          · omega
          · exact absurd he h
        · omega

theorem le_iff_memdiff (a b : Bytes) :
    a ≤ b ↔ memdiff a b < 0 ∨ memdiff a b = 0 ∧ a.length ≤ b.length := by
  rw [← List.not_lt, lt_iff_memdiff, memdiff_comm a b]
  omega

theorem prefix_iff_memdiff (a b : Bytes) :
    b <+: a ↔ b.length ≤ a.length ∧ memdiff a b = 0 := by
  rw [List.prefix_iff_eq_take, eq_iff_memdiff, List.length_take, memdiff_comm,
    ← memdiff_take a b b.length (Nat.min_le_right _ _), List.take_length]
  omega

namespace StringPiece

/-! ## Model -/

/-- `operator==` (lines 124–127). -/
def equal (p x : StringPiece) : Option Bool :=
  if p.length = x.length then (memcmp p.ptr x.ptr (toSize p.length)).map fun r => decide (r = 0)
  else some false

/-- `operator!=` (lines 128–130). -/
def notEqual (p x : StringPiece) : Option Bool := (equal p x).map not

/-- The length that the predicates and `compare` hand to `memcmp`. -/
def shorter (p x : StringPiece) : ℤ := if p.length < x.length then p.length else x.length

/-- `STRINGPIECE_BINARY_PREDICATE(cmp, auxcmp)` (lines 132–136). -/
def binaryPredicate (cmp auxcmp : ℤ → ℤ → Bool) (p x : StringPiece) : Option Bool :=
  (memcmp p.ptr x.ptr (toSize (shorter p x))).map fun r =>
    auxcmp r 0 || (decide (r = 0) && cmp p.length x.length)

/-- `operator<` (line 137). -/
def lt : StringPiece → StringPiece → Option Bool :=
  binaryPredicate (fun a b => a < b) (fun a b => a < b)

/-- `operator<=` (line 138). -/
def le : StringPiece → StringPiece → Option Bool :=
  binaryPredicate (fun a b => a ≤ b) (fun a b => a < b)

/-- `operator>=` (line 139). -/
def ge : StringPiece → StringPiece → Option Bool :=
  binaryPredicate (fun a b => a ≥ b) (fun a b => a > b)

/-- `operator>` (line 140). -/
def gt : StringPiece → StringPiece → Option Bool :=
  binaryPredicate (fun a b => a > b) (fun a b => a > b)

/-- `compare` (lines 143–150). -/
def compare (p x : StringPiece) : Option ℤ :=
  (memcmp p.ptr x.ptr (toSize (shorter p x))).map fun r =>
    if r = 0 then
      if p.length < x.length then -1 else if p.length > x.length then 1 else r
    else r

/-- `starts_with` (lines 161–163). -/
def startsWith (p x : StringPiece) : Option Bool :=
  if p.length ≥ x.length then (memcmp p.ptr x.ptr (toSize x.length)).map fun r => decide (r = 0)
  else some false

/-- `remove_prefix` (lines 115–118), forward and within the object. -/
def removePrefix (p : StringPiece) (n : ℤ) : Option StringPiece :=
  if 0 ≤ n ∧ n ≤ p.ptr.length then
    some { ptr := p.ptr.drop n.toNat, length := p.length - n }
  else none

/-! ## Pieces of an object -/

/-- The bytes of the piece are bytes of the object. -/
structure Valid (p : StringPiece) : Prop where
  nonneg : 0 ≤ p.length
  within : p.length ≤ p.ptr.length
  int : p.length < 2 ^ 31

def contents (p : StringPiece) : Bytes := p.ptr.take p.length.toNat

theorem ofString_length {str : Bytes} (h : str.length < 2 ^ 31) :
    (ofString str).length = str.length := by
  have hlen : toInt str.length = str.length := toInt_of_le_of_lt (by omega) (by omega)
  simpa only [ofString] using hlen

theorem ofString_valid {str : Bytes} (h : str.length < 2 ^ 31) : (ofString str).Valid where
  nonneg := by
    rw [ofString_length h]
    omega
  within := by
    rw [ofString_length h]
    exact Int.le_refl _
  int := by
    rw [ofString_length h]
    omega

theorem ofString_contents {str : Bytes} (h : str.length < 2 ^ 31) :
    (ofString str).contents = str := by
  rw [contents, ofString_length h, Int.toNat_natCast]
  exact List.take_length

variable {p x : StringPiece}

theorem Valid.length_contents (h : p.Valid) : (p.contents.length : ℤ) = p.length := by
  have := h.nonneg
  have := h.within
  rw [contents, List.length_take]
  omega

theorem Valid.asString (h : p.Valid) : p.asString = some p.contents := by
  have hint := h.int
  have hsize : toSize p.length = p.length.toNat := toSize_of_nonneg h.nonneg (by omega)
  have hwithin : p.length.toNat ≤ p.ptr.length := by
    have := h.nonneg
    have := h.within
    omega
  rw [StringPiece.asString, hsize, if_pos hwithin]
  rfl

/-- A comparison of as many bytes as both pieces have. -/
theorem Valid.memcmp_eq (hp : p.Valid) (hx : x.Valid) {n : ℤ} (hn : n = min p.length x.length) :
    memcmp p.ptr x.ptr (toSize n) = some (memdiff p.contents x.contents) := by
  obtain ⟨hp0, hpw, hpi⟩ := hp
  obtain ⟨hx0, hxw, hxi⟩ := hx
  have hsize : toSize n = n.toNat := toSize_of_nonneg (by omega) (by omega)
  have hmin : n.toNat = min p.contents.length x.contents.length := by
    simp only [contents, List.length_take]
    omega
  rw [memcmp, hsize, if_pos ⟨by omega, by omega⟩,
    ← memdiff_take p.contents x.contents n.toNat (by omega), contents, contents, List.take_take,
    List.take_take, Nat.min_eq_left (by omega), Nat.min_eq_left (by omega)]

theorem shorter_eq (p x : StringPiece) : shorter p x = min p.length x.length := by
  unfold shorter
  split <;> omega

/-! ## The operators -/

theorem binaryPredicate_eq (hp : p.Valid) (hx : x.Valid) (cmp auxcmp : ℤ → ℤ → Bool) :
    binaryPredicate cmp auxcmp p x =
      some (auxcmp (memdiff p.contents x.contents) 0 ||
        (decide (memdiff p.contents x.contents = 0) && cmp p.contents.length x.contents.length)) := by
  rw [binaryPredicate, hp.memcmp_eq hx (shorter_eq p x), hp.length_contents, hx.length_contents]
  rfl

theorem equal_eq (hp : p.Valid) (hx : x.Valid) :
    equal p x = some (decide (p.contents = x.contents)) := by
  have hpl := hp.length_contents
  have hxl := hx.length_contents
  unfold equal
  by_cases h : p.length = x.length
  · rw [if_pos h, hp.memcmp_eq hx (by omega), Option.map_some]
    have hlen : p.contents.length = x.contents.length := by omega
    simp [eq_iff_memdiff p.contents, hlen]
  · have hlen : p.contents.length ≠ x.contents.length := by omega
    rw [if_neg h]
    simp [eq_iff_memdiff p.contents, hlen]

theorem compare_eq (hp : p.Valid) (hx : x.Valid) :
    ∃ r, compare p x = some r ∧ (r < 0 ↔ p.contents < x.contents) ∧
      (r = 0 ↔ p.contents = x.contents) ∧ (0 < r ↔ x.contents < p.contents) := by
  have hpl := hp.length_contents
  have hxl := hx.length_contents
  rw [compare, hp.memcmp_eq hx (shorter_eq p x), Option.map_some, lt_iff_memdiff,
    lt_iff_memdiff x.contents, memdiff_comm p.contents, eq_iff_memdiff]
  refine ⟨_, rfl, ?_⟩
  by_cases hr : memdiff p.contents x.contents = 0
  · rw [if_pos hr, hr]
    by_cases hlt : p.length < x.length
    · rw [if_pos hlt]
      omega
    · rw [if_neg hlt]
      split <;> omega
  · rw [if_neg hr]
    omega

theorem startsWith_eq (hp : p.Valid) (hx : x.Valid) :
    startsWith p x = some (decide (x.contents <+: p.contents)) := by
  have hpl := hp.length_contents
  have hxl := hx.length_contents
  unfold startsWith
  by_cases h : p.length ≥ x.length
  · rw [if_pos h, hp.memcmp_eq hx (by omega), Option.map_some]
    have hlen : x.contents.length ≤ p.contents.length := by omega
    simp [prefix_iff_memdiff, hlen]
  · have hlen : ¬ x.contents.length ≤ p.contents.length := by omega
    rw [if_neg h]
    simp [prefix_iff_memdiff, hlen]

theorem removePrefix_eq (hp : p.Valid) {n : ℕ} (hn : n ≤ p.contents.length) :
    ∃ q, removePrefix p n = some q ∧ q.Valid ∧ q.contents = p.contents.drop n := by
  have hpl := hp.length_contents
  obtain ⟨hp0, hpw, hpi⟩ := hp
  refine ⟨_, if_pos ⟨by omega, by omega⟩, ⟨?_, ?_, ?_⟩, ?_⟩
  · show 0 ≤ p.length - n
    omega
  · show p.length - n ≤ (p.ptr.drop n).length
    rw [List.length_drop]
    omega
  · show p.length - n < 2 ^ 31
    omega
  · show (p.ptr.drop n).take (p.length - n).toNat = (p.ptr.take p.length.toNat).drop n
    rw [List.drop_take]
    congr 1
    omega

end StringPiece

open StringPiece in
/-- **Comparisons.** On pieces of at most `INT_MAX` bytes the operators never read beyond what both
    pieces have; `==` and `!=` are equality of the bytes, the four predicates and the sign of
    `compare` their lexicographic order as unsigned bytes, whichever comparison of `memcmp`'s result
    the macro is given; `starts_with(x)` tests for a prefix, and after it has returned true
    `remove_prefix(x.size())` leaves the rest. -/
theorem comparisons {p x : StringPiece} (hp : p.Valid) (hx : x.Valid) :
    equal p x = some (decide (p.contents = x.contents)) ∧
    notEqual p x = some (decide (p.contents ≠ x.contents)) ∧
    lt p x = some (decide (p.contents < x.contents)) ∧
    le p x = some (decide (p.contents ≤ x.contents)) ∧
    ge p x = some (decide (x.contents ≤ p.contents)) ∧
    gt p x = some (decide (x.contents < p.contents)) ∧
    (∃ r, compare p x = some r ∧ (r < 0 ↔ p.contents < x.contents) ∧
      (r = 0 ↔ p.contents = x.contents) ∧ (0 < r ↔ x.contents < p.contents)) ∧
    startsWith p x = some (decide (x.contents <+: p.contents)) ∧
    (startsWith p x = some true →
      ∃ q, removePrefix p x.length = some q ∧ q.Valid ∧ p.contents = x.contents ++ q.contents) := by
  refine ⟨equal_eq hp hx, ?_, ?_, ?_, ?_, ?_, compare_eq hp hx, startsWith_eq hp hx, fun h => ?_⟩
  · rw [notEqual, equal_eq hp hx]
    simp
  · rw [lt, binaryPredicate_eq hp hx]
    simp [lt_iff_memdiff]
  · rw [le, binaryPredicate_eq hp hx]
    simp [le_iff_memdiff]
  · rw [ge, binaryPredicate_eq hp hx]
    simp [le_iff_memdiff x.contents, memdiff_comm p.contents]
  · rw [gt, binaryPredicate_eq hp hx]
    simp [lt_iff_memdiff x.contents, memdiff_comm p.contents]
  · rw [startsWith_eq hp hx, Option.some.injEq, decide_eq_true_iff] at h
    obtain ⟨rest, hrest⟩ := h
    obtain ⟨q, hq, hvalid, hcontents⟩ :=
      removePrefix_eq hp (n := x.contents.length) (by rw [← hrest, List.length_append]; omega)
    refine ⟨q, by rw [← hx.length_contents]; exact hq, hvalid, ?_⟩
    rw [hcontents, ← hrest, List.drop_left]

open StringPiece in
/-- `"ab"` lies before `"b"` and is a prefix of `"ab\x80"`. -/
theorem comparisons_sample :
    let p := ofString [97, 98, 128]
    let x := ofString [97, 98]
    equal p x = some (decide (p.contents = x.contents)) ∧
    notEqual p x = some (decide (p.contents ≠ x.contents)) ∧
    lt p x = some (decide (p.contents < x.contents)) ∧
    le p x = some (decide (p.contents ≤ x.contents)) ∧
    ge p x = some (decide (x.contents ≤ p.contents)) ∧
    gt p x = some (decide (x.contents < p.contents)) ∧
    (∃ r, compare p x = some r ∧ (r < 0 ↔ p.contents < x.contents) ∧
      (r = 0 ↔ p.contents = x.contents) ∧ (0 < r ↔ x.contents < p.contents)) ∧
    startsWith p x = some (decide (x.contents <+: p.contents)) ∧
    (startsWith p x = some true →
      ∃ q, removePrefix p x.length = some q ∧ q.Valid ∧ p.contents = x.contents ++ q.contents) :=
  comparisons (ofString_valid (by decide)) (ofString_valid (by decide))

end XWeb.Base
