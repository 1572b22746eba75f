import XWeb.Lib.CInt

/-!
# Decimal notation

What `printf` prints for `%d`.

* `value_decimal`: a number is read back from its digits.
* `decimal_injective`, `decimalInt_injective`: two numbers have two notations.
* `length_decimalInt`: the length of the notation of an `int`.
-/

namespace XWeb.Lib

/-- The ASCII code of a digit. -/
def digit (d : ℕ) : UInt8 := UInt8.ofNat (48 + d)

/-- The digits of `n`; the first argument bounds their number. -/
def digits : ℕ → ℕ → Bytes
  | 0, _ => []
  | k + 1, n => if n < 10 then [digit n] else digits k (n / 10) ++ [digit (n % 10)]

/-- `%d` of a number that is not negative. -/
def decimal (n : ℕ) : Bytes := digits (n + 1) n

/-- `%d`. -/
def decimalInt : ℤ → Bytes
  | .ofNat n => decimal n
  | .negSucc n => 45 :: decimal (n + 1)

/-- The number that a string of digits denotes. -/
def value (s : Bytes) : ℕ := s.foldl (fun v c => 10 * v + (c.toNat - 48)) 0

theorem value_concat (s : Bytes) {d : ℕ} (hd : d < 10) :
    value (s ++ [digit d]) = 10 * value s + d := by
  have hdigit : (digit d).toNat = 48 + d := by
    rw [digit, UInt8.toNat_ofNat']
    omega
  rw [value, List.foldl_append, List.foldl_cons, List.foldl_nil, hdigit]
  show 10 * value s + (48 + d - 48) = 10 * value s + d
  omega

theorem value_digits (k : ℕ) : ∀ n, n < k → value (digits k n) = n := by
  induction k with
  | zero => intro n hn; omega
  | succ k ih =>
    intro n hn
    rw [digits]
    split_ifs with hlt
    · have hone := value_concat [] hlt
      rw [List.nil_append] at hone
      rw [hone]
      show 10 * 0 + n = n
      omega
    · rw [value_concat _ (Nat.mod_lt n (by omega)), ih (n / 10) (by omega)]
      omega

theorem value_decimal (n : ℕ) : value (decimal n) = n := value_digits (n + 1) n (Nat.lt_succ_self n)

theorem decimal_injective : Function.Injective decimal := by
  intro m n h
  rw [← value_decimal m, h, value_decimal]

theorem le_of_mem_digits (k : ℕ) : ∀ n, ∀ c ∈ digits k n, 48 ≤ c.toNat := by
  have hdigit : ∀ {d : ℕ}, d < 10 → 48 ≤ (digit d).toNat := by
    intro d hd
    rw [digit, UInt8.toNat_ofNat']
    omega
  induction k with
  | zero => intro n c hc; exact absurd hc List.not_mem_nil
  | succ k ih =>
    intro n c hc
    rw [digits] at hc
    split_ifs at hc with hlt
    · rw [List.mem_singleton.mp hc]
      exact hdigit hlt
    · rcases List.mem_append.mp hc with hc | hc
      · exact ih (n / 10) c hc
      · rw [List.mem_singleton.mp hc]
        exact hdigit (Nat.mod_lt n (by omega))

theorem length_digits (k : ℕ) : ∀ {m n : ℕ}, 0 < m → n < 10 ^ m → (digits k n).length ≤ m := by
  induction k with
  | zero => intro m n _ _; exact Nat.zero_le m
  | succ k ih =>
    intro m n hm hn
    rw [digits]
    split_ifs with hlt
    · rw [List.length_singleton]
      omega
    · obtain ⟨m, rfl⟩ := Nat.exists_eq_succ_of_ne_zero (Nat.ne_of_gt hm)
      have hm' : 0 < m := by
        by_contra hzero
        obtain rfl : m = 0 := by omega
        exact hlt hn
      have hle := ih hm' (n := n / 10) (by rw [pow_succ] at hn; omega)
      rw [List.length_append, List.length_singleton]
      omega

/-- A sign and ten digits are enough for an `int`. -/
theorem length_decimalInt {n : ℤ} (h : -2 ^ 31 ≤ n) (h' : n < 2 ^ 31) :
    (decimalInt n).length ≤ 11 := by
  have hdecimal : ∀ {m : ℕ}, m < 10 ^ 10 → (decimal m).length ≤ 10 :=
    fun hm => length_digits _ (Nat.succ_pos 9) hm
  cases n with
  | ofNat n =>
    rw [Int.ofNat_eq_natCast] at h'
    have hle := hdecimal (show n < 10 ^ 10 by omega)
    rw [decimalInt]
    omega
  | negSucc n =>
    rw [Int.negSucc_eq] at h
    have hle := hdecimal (show n + 1 < 10 ^ 10 by omega)
    rw [decimalInt, List.length_cons]
    omega

/-- There is no NUL in it. -/
theorem zero_not_mem_decimalInt (n : ℤ) : 0 ∉ decimalInt n := by
  have hdecimal : ∀ m, 0 ∉ decimal m := by
    intro m hmem
    exact absurd (le_of_mem_digits _ _ 0 hmem) (by decide)
  match n with
  | .ofNat m => exact hdecimal m
  | .negSucc m =>
    rw [decimalInt, List.mem_cons, not_or]
    exact ⟨by decide, hdecimal (m + 1)⟩

/-- No number that is not negative is printed with a sign. -/
theorem decimal_ne_minus (n : ℕ) (s : Bytes) : decimal n ≠ 45 :: s := by
  intro h
  have hle := le_of_mem_digits (n + 1) n 45 (by rw [← decimal, h]; exact List.mem_cons_self)
  exact absurd hle (by decide)

theorem decimalInt_injective : Function.Injective decimalInt := by
  intro m n h
  match m, n with
  | .ofNat m, .ofNat n => rw [decimal_injective h]
  | .ofNat m, .negSucc n => exact absurd h (decimal_ne_minus m _)
  | .negSucc m, .ofNat n => exact absurd h.symm (decimal_ne_minus n _)
  | .negSucc m, .negSucc n =>
    have hsucc : m + 1 = n + 1 := decimal_injective (List.cons.inj h).2
    rw [Nat.succ.inj hsucc]

end XWeb.Lib
