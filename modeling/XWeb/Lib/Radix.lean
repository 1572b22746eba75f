import XWeb.Lib.Decimal
import Mathlib.Data.Nat.Digits.Lemmas

/-!
# Numerals

Numbers in a base up to sixteen, with capital letters for the digits above nine.

* `IsNumeral`, `parse`: what a numeral is, and the number that it denotes.
* `numeral`, `numeral_spec`: the numeral of a number; `length_numeral`: its length.
* `decimal_eq_numeral`, `isDecimal_decimalInt`: `%d` gives the numeral of a number with its sign.
-/

namespace XWeb.Lib

/-- The ASCII code of a digit below sixteen. -/
def upperDigit (d : ℕ) : UInt8 := if d < 10 then digit d else UInt8.ofNat (55 + d)

/-- The digit with an ASCII code. -/
def digitValue (c : UInt8) : Option ℕ :=
  if 48 ≤ c.toNat ∧ c.toNat ≤ 57 then some (c.toNat - 48)
  else if 65 ≤ c.toNat ∧ c.toNat ≤ 70 then some (c.toNat - 55)
  else none

/-- One more digit behind what has been read. -/
def parseDigit (b : ℕ) (v : Option ℕ) (c : UInt8) : Option ℕ :=
  v.bind fun v => (digitValue c).bind fun d => if d < b then some (b * v + d) else none

/-- The number that a string denotes in base `b`. -/
def parse (b : ℕ) (s : Bytes) : Option ℕ := s.foldl (parseDigit b) (some 0)

/-- Digits of the base, one at least, and no superfluous zero in front. -/
structure IsNumeral (b : ℕ) (s : Bytes) : Prop where
  ne_nil : s ≠ []
  digits : ∀ c ∈ s, ∃ d < b, digitValue c = some d
  lead : s.head? = some (digit 0) → s = [digit 0]

/-- The digits of `n`, the last one first. There is one at least. -/
def lowDigits (b n : ℕ) : List ℕ := n % b :: Nat.digits b (n / b)

/-- The numeral of `n`. -/
def numeral (b n : ℕ) : Bytes := ((lowDigits b n).map upperDigit).reverse

theorem digitValue_upperDigit : ∀ d < 16, digitValue (upperDigit d) = some d := by decide

variable {b n : ℕ}

theorem lowDigits_lt (hb : 1 < b) : ∀ d ∈ lowDigits b n, d < b := by
  intro d hd
  rcases List.mem_cons.mp hd with rfl | hd
  · exact Nat.mod_lt n (by omega)
  · exact Nat.digits_lt_base hb hd

theorem ofDigits_lowDigits (b n : ℕ) : Nat.ofDigits b (lowDigits b n) = n := by
  rw [lowDigits, Nat.ofDigits_cons, Nat.ofDigits_digits]
  exact Nat.mod_add_div n b

theorem lowDigits_of_le (hb : 1 < b) (h : b ≤ n) :
    lowDigits b n = n % b :: lowDigits b (n / b) := by
  rw [lowDigits, Nat.digits_def' hb (Nat.div_pos h (by omega)), lowDigits]

theorem lowDigits_of_lt (h : n < b) : lowDigits b n = [n] := by
  rw [lowDigits, Nat.mod_eq_of_lt h, Nat.div_eq_of_lt h, Nat.digits_zero]

theorem numeral_ne_nil (b n : ℕ) : numeral b n ≠ [] := by simp [numeral, lowDigits]

theorem numeral_of_lt (h : n < b) : numeral b n = [upperDigit n] := by
  rw [numeral, lowDigits_of_lt h, List.map_singleton, List.reverse_singleton]

theorem numeral_of_le (hb : 1 < b) (h : b ≤ n) :
    numeral b n = numeral b (n / b) ++ [upperDigit (n % b)] := by
  rw [numeral, lowDigits_of_le hb h, List.map_cons, List.reverse_cons, numeral]

theorem parse_concat (b : ℕ) (s : Bytes) (c : UInt8) :
    parse b (s ++ [c]) = parseDigit b (parse b s) c := by
  rw [parse, List.foldl_append]
  rfl

/-- Digits are read back. -/
theorem parse_reverse (hb : b ≤ 16) (ds : List ℕ) (h : ∀ d ∈ ds, d < b) :
    parse b (ds.map upperDigit).reverse = some (Nat.ofDigits b ds) := by
  induction ds with
  | nil => rfl
  | cons d ds ih =>
    have hd : d < b := h d List.mem_cons_self
    rw [List.map_cons, List.reverse_cons, parse_concat,
      ih fun d' hd' => h d' (List.mem_cons_of_mem d hd'), parseDigit, Option.bind_some,
      digitValue_upperDigit d (by omega), Option.bind_some, if_pos hd, Nat.ofDigits_cons,
      Nat.add_comm]

theorem parse_numeral (hb : 1 < b) (hb' : b ≤ 16) (n : ℕ) : parse b (numeral b n) = some n := by
  rw [numeral, parse_reverse hb' _ (lowDigits_lt hb), ofDigits_lowDigits]

/-- No zero in front of a number that is not zero. -/
theorem head_numeral (hb : 1 < b) (hb' : b ≤ 16) : ∀ n, 0 < n →
    (numeral b n).head? ≠ some (digit 0) := by
  intro n
  induction n using Nat.strong_induction_on with
  | _ n ih =>
    intro hpos hhead
    rcases Nat.lt_or_ge n b with hlt | hge
    · rw [numeral_of_lt hlt] at hhead
      have hvalue := digitValue_upperDigit n (by omega)
      rw [Option.some.inj hhead] at hvalue
      have hzero : 0 = n := Option.some.inj hvalue
      omega
    · rw [numeral_of_le hb hge, List.head?_append_of_ne_nil _ (numeral_ne_nil b _)] at hhead
      exact ih (n / b) (Nat.div_lt_self hpos hb) (Nat.div_pos hge (by omega)) hhead

theorem isNumeral_numeral (hb : 1 < b) (hb' : b ≤ 16) (n : ℕ) : IsNumeral b (numeral b n) where
  ne_nil := numeral_ne_nil b n
  digits c hc := by
    rw [numeral, List.mem_reverse, List.mem_map] at hc
    obtain ⟨d, hd, rfl⟩ := hc
    have hlt := lowDigits_lt hb d hd
    exact ⟨d, hlt, digitValue_upperDigit d (by omega)⟩
  lead h := by
    rcases Nat.eq_zero_or_pos n with rfl | hpos
    · rw [numeral_of_lt (by omega)]
      rfl
    · exact absurd h (head_numeral hb hb' n hpos)

/-- **The numeral of a number** is one, and it denotes the number. -/
theorem numeral_spec (hb : 1 < b) (hb' : b ≤ 16) (n : ℕ) :
    IsNumeral b (numeral b n) ∧ parse b (numeral b n) = some n :=
  ⟨isNumeral_numeral hb hb' n, parse_numeral hb hb' n⟩

theorem length_numeral (hb : 1 < b) {m : ℕ} (h : n < b ^ (m + 1)) :
    (numeral b n).length ≤ m + 1 := by
  have hdiv : n / b < b ^ m := by
    rw [Nat.div_lt_iff_lt_mul (by omega)]
    rwa [pow_succ] at h
  have hle := (Nat.digits_length_le_iff hb (n / b)).mpr hdiv
  simp only [numeral, lowDigits, List.length_reverse, List.length_map, List.length_cons]
  omega

/-! ## Decimal notation -/

theorem digits_eq_numeral (k : ℕ) : ∀ n, n < k → digits k n = numeral 10 n := by
  induction k with
  | zero => intro n hn; omega
  | succ k ih =>
    intro n hn
    rw [digits]
    split_ifs with hlt
    · rw [numeral_of_lt hlt, upperDigit, if_pos hlt]
    · have hlow : n % 10 < 10 := Nat.mod_lt n (by decide)
      rw [ih (n / 10) (by omega), numeral_of_le (by decide) (Nat.not_lt.mp hlt), upperDigit,
        if_pos hlow]

theorem decimal_eq_numeral (n : ℕ) : decimal n = numeral 10 n :=
  digits_eq_numeral (n + 1) n (Nat.lt_succ_self n)

/-- The canonical notation of an integer: a minus sign if it is negative, and the numeral of what is
    left. -/
def IsDecimal (s : Bytes) (v : ℤ) : Prop :=
  ∃ ds, s = (if v < 0 then 45 :: ds else ds) ∧ IsNumeral 10 ds ∧ parse 10 ds = some v.natAbs

theorem decimalInt_eq (v : ℤ) :
    decimalInt v = if v < 0 then 45 :: numeral 10 v.natAbs else numeral 10 v.natAbs := by
  cases v with
  | ofNat n => simp [decimalInt, decimal_eq_numeral]
  | negSucc n => simp [decimalInt, decimal_eq_numeral, Int.negSucc_lt_zero]

theorem isDecimal_decimalInt (v : ℤ) : IsDecimal (decimalInt v) v :=
  ⟨numeral 10 v.natAbs, decimalInt_eq v, numeral_spec (by decide) (by decide) _⟩

/-- A sign and nineteen digits, or twenty digits, are enough for 64 bits. -/
theorem length_decimalInt_long (h : -2 ^ 63 ≤ v) (h' : v < 2 ^ 64) :
    (decimalInt v).length ≤ 20 := by
  rw [decimalInt_eq]
  split_ifs with hneg
  · have hle := length_numeral (b := 10) (n := v.natAbs) (m := 18) (by decide) (by omega)
    rw [List.length_cons]
    omega
  · exact length_numeral (by decide) (by omega)

end XWeb.Lib
