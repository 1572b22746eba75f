import XWeb.Base.Memory
import XWeb.Lib.Radix

/-!
# `convert` and `convertHex`

Model of `base/log_stream.cpp` lines 4–41. The digits are stored from the last on and turned
round. The remainder of a negative number is negative, and `zero` points to the middle of a table
that has the digits on both sides. A store behind the memory is undefined.

* `digitLoop`, `convert`, `convertHex`: the functions.
* `digitLoop_spec`: what the loop stores.
* `convert_spec`, `convertHex_spec`: the notation of the number and a NUL are stored.
-/

namespace XWeb.Base

open XWeb.Lib

/-- `"9876543210123456789"`. -/
def digitsMirrored : Bytes := ascii "9876543210123456789"

/-- `zero[lsd]`, where `zero` points to the middle. -/
def zero (lsd : ℤ) : Option UInt8 :=
  if 0 ≤ 9 + lsd then digitsMirrored[(9 + lsd).toNat]? else none

/-- `digitsHex[lsd]`. -/
def digitsHex (lsd : ℤ) : Option UInt8 :=
  if 0 ≤ lsd then (ascii "0123456789ABCDEF")[lsd.toNat]? else none

/-- The loop of `convert` and `convertHex`: `p` is where the next digit goes. -/
def digitLoop (base : ℤ) (table : ℤ → Option UInt8) : ℕ → ℤ → ℕ → Bytes → Option (ℕ × Bytes)
  | 0, _, _, _ => none
  | k + 1, i, p, buf => do
    let lsd := toInt (i.tmod base)
    let i := i.tdiv base
    let c ← table lsd
    let buf ← storeAt buf p c
    if i ≠ 0 then digitLoop base table k i (p + 1) buf else some (p + 1, buf)

/-- `std::reverse(buf, p)`. -/
def reverseTo (buf : Bytes) (p : ℕ) : Bytes := (buf.take p).reverse ++ buf.drop p

/-- `convert` (lines 10–27): the length that it returns, and the memory. -/
def convert (buf : Bytes) (value : ℤ) : Option (ℕ × Bytes) := do
  let (p, buf) ← digitLoop 10 zero (value.natAbs + 1) value 0 buf
  let (p, buf) ← if value < 0 then (storeAt buf p 45).map fun buf => (p + 1, buf) else some (p, buf)
  let buf ← storeAt buf p 0
  some (p, reverseTo buf p)

/-- `convertHex` (lines 29–41). -/
def convertHex (buf : Bytes) (value : ℕ) : Option (ℕ × Bytes) := do
  let (p, buf) ← digitLoop 16 digitsHex (value + 1) value 0 buf
  let buf ← storeAt buf p 0
  some (p, reverseTo buf p)

theorem zero_spec : ∀ d : ℕ, d < 10 → zero d = some (digit d) ∧ zero (-d) = some (digit d) := by
  decide

theorem digitsHex_spec : ∀ d : ℕ, d < 16 → digitsHex d = some (upperDigit d) := by decide

theorem zero_tmod (i : ℤ) : zero (toInt (i.tmod 10)) = some (upperDigit (i.natAbs % 10)) := by
  have habs : (i.tmod 10).natAbs = i.natAbs % 10 := Int.natAbs_tmod i 10
  have hlt : i.natAbs % 10 < 10 := Nat.mod_lt _ (by decide)
  rw [toInt_of_le_of_lt (by omega) (by omega), upperDigit, if_pos hlt]
  obtain hsign | hsign := Int.natAbs_eq (i.tmod 10)
  · rw [hsign, habs]
    exact (zero_spec _ hlt).1
  · rw [hsign, habs]
    exact (zero_spec _ hlt).2

theorem digitsHex_tmod {i : ℤ} (h : 0 ≤ i) :
    digitsHex (toInt (i.tmod 16)) = some (upperDigit (i.natAbs % 16)) := by
  have habs : (i.tmod 16).natAbs = i.natAbs % 16 := Int.natAbs_tmod i 16
  have hnonneg : 0 ≤ i.tmod 16 := Int.tmod_nonneg 16 h
  have hlt : i.natAbs % 16 < 16 := Nat.mod_lt _ (by decide)
  rw [toInt_of_le_of_lt (by omega) (by omega), ← digitsHex_spec _ hlt]
  congr 1
  omega

/-- The loop stores the digits, the last one first, behind what has been stored. `Q` is what the
    table needs. -/
theorem digitLoop_spec {base : ℕ} (hbase : 1 < base) {table : ℤ → Option UInt8} {Q : ℤ → Prop}
    (htable : ∀ i, Q i → table (toInt (i.tmod base)) = some (upperDigit (i.natAbs % base)))
    (hQ : ∀ i, Q i → Q (i.tdiv base)) (buf : Bytes) (k : ℕ) : ∀ {i : ℤ} {d : Bytes}, Q i →
    i.natAbs < k → d.length + (lowDigits base i.natAbs).length ≤ buf.length →
    digitLoop base table k i d.length (overwrite buf 0 d) =
      some (d.length + (lowDigits base i.natAbs).length,
        overwrite buf 0 (d ++ (lowDigits base i.natAbs).map upperDigit)) := by
  induction k with
  | zero => intro i d _ hk; exact absurd hk (Nat.not_lt_zero _)
  | succ k ih =>
    intro i d hi hk hroom
    have hpos : 0 < (lowDigits base i.natAbs).length := Nat.succ_pos _
    have hdiv : (i.tdiv base).natAbs = i.natAbs / base := Int.natAbs_tdiv i base
    have hroom' : d.length < buf.length := by omega
    rw [digitLoop, htable i hi]
    simp only [Option.bind_eq_bind, Option.bind_some, storeAt_overwrite hroom']
    rcases Nat.lt_or_ge i.natAbs base with hlt | hge
    · -- the last digit to store
      have hzero : i.tdiv base = 0 := by
        rw [← Int.natAbs_eq_zero, hdiv, Nat.div_eq_of_lt hlt]
      rw [if_neg (by simp [hzero]), lowDigits_of_lt hlt, Nat.mod_eq_of_lt hlt]
      rfl
    · have hne : i.tdiv base ≠ 0 := by
        rw [← Int.natAbs_ne_zero, hdiv]
        exact Nat.ne_of_gt (Nat.div_pos hge (by omega))
      rw [lowDigits_of_le hbase hge] at hroom ⊢
      rw [if_pos hne]
      have hsmaller : i.natAbs / base < i.natAbs := Nat.div_lt_self (by omega) hbase
      have hlen : (d ++ [upperDigit (i.natAbs % base)]).length = d.length + 1 := by simp
      have hrest := ih (d := d ++ [upperDigit (i.natAbs % base)]) (hQ i hi) (by omega)
        (by rw [hdiv, hlen]; simp only [List.length_cons] at hroom; omega)
      rw [hlen, hdiv] at hrest
      rw [hrest]
      simp only [List.length_cons, List.map_cons, List.append_assoc, List.cons_append,
        List.nil_append, Option.some.injEq, Prod.mk.injEq, and_true]
      omega

/-- The loop from the beginning of the memory. -/
theorem digitLoop_start {base : ℕ} (hbase : 1 < base) {table : ℤ → Option UInt8} {Q : ℤ → Prop}
    (htable : ∀ i, Q i → table (toInt (i.tmod base)) = some (upperDigit (i.natAbs % base)))
    (hQ : ∀ i, Q i → Q (i.tdiv base)) {buf : Bytes} {i : ℤ} (hi : Q i)
    (hroom : (numeral base i.natAbs).length ≤ buf.length) :
    digitLoop base table (i.natAbs + 1) i 0 buf =
      some ((numeral base i.natAbs).length, overwrite buf 0 (numeral base i.natAbs).reverse) := by
  rw [numeral, List.length_reverse, List.length_map] at hroom
  have hloop := digitLoop_spec hbase htable hQ buf (i.natAbs + 1) (d := []) hi
    (Nat.lt_succ_self _) (by rw [List.length_nil]; omega)
  rw [overwrite_nil, List.length_nil, Nat.zero_add, List.nil_append] at hloop
  rw [hloop, numeral, List.reverse_reverse, List.length_reverse, List.length_map]

/-- One more byte behind what has been stored from the last on. -/
theorem storeAt_reverse {buf w : Bytes} (h : w.length < buf.length) (c : UInt8) :
    storeAt (overwrite buf 0 w.reverse) w.length c =
      some (overwrite buf 0 (w.reverse ++ [c])) := by
  have hlen : w.reverse.length = w.length := List.length_reverse
  have hroom : w.reverse.length < buf.length := by rwa [hlen]
  have hstore := storeAt_overwrite hroom c
  rwa [hlen] at hstore

/-- What has been stored is turned round, and the NUL behind it stays. -/
theorem reverseTo_overwrite (buf w : Bytes) :
    reverseTo (overwrite buf 0 (w.reverse ++ [0])) w.length = overwrite buf 0 (w ++ [0]) := by
  have hlen : w.reverse.length = w.length := List.length_reverse
  simp [reverseTo, overwrite, hlen]

/-- **`convert`** stores the notation of the number and a NUL, and nothing else. -/
theorem convert_spec {buf : Bytes} {value : ℤ} (h : (decimalInt value).length < buf.length) :
    convert buf value =
      some ((decimalInt value).length, overwrite buf 0 (decimalInt value ++ [0])) := by
  rw [decimalInt_eq] at h ⊢
  have hdigits : (numeral 10 value.natAbs).length < buf.length := by
    split_ifs at h
    · exact Nat.lt_of_succ_lt h
    · exact h
  have hloop : digitLoop 10 zero (value.natAbs + 1) value 0 buf = _ :=
    digitLoop_start (Q := fun _ => True) (by decide : 1 < 10) (fun i _ => zero_tmod i)
      (fun _ _ => trivial) trivial (Nat.le_of_lt hdigits)
  rw [convert, hloop]
  simp only [Option.bind_eq_bind, Option.bind_some]
  split_ifs at h ⊢ with hneg
  · have hminus : (numeral 10 value.natAbs).reverse ++ [45] =
        (45 :: numeral 10 value.natAbs).reverse := List.reverse_cons.symm
    rw [storeAt_reverse hdigits, hminus]
    simp only [Option.map_some, Option.bind_some]
    rw [← List.length_cons (a := (45 : UInt8)), storeAt_reverse h, Option.bind_some,
      reverseTo_overwrite]
  · rw [storeAt_reverse h, Option.bind_some, reverseTo_overwrite]

example : convert (List.replicate 8 7) (-1205) = some (5, ascii "-1205" ++ [0, 7, 7]) := by decide

/-- **`convertHex`** stores the numeral in base 16 and a NUL, and nothing else. -/
theorem convertHex_spec {buf : Bytes} {value : ℕ} (h : (numeral 16 value).length < buf.length) :
    convertHex buf value =
      some ((numeral 16 value).length, overwrite buf 0 (numeral 16 value ++ [0])) := by
  have hloop : digitLoop 16 digitsHex (value + 1) value 0 buf = _ :=
    digitLoop_start (Q := fun i => 0 ≤ i) (by decide : 1 < 16) (fun i => digitsHex_tmod)
      (fun i hi => Int.tdiv_nonneg hi (by decide)) (Int.natCast_nonneg value) (Nat.le_of_lt h)
  rw [convertHex, hloop]
  simp only [Option.bind_eq_bind, Option.bind_some, Int.natAbs_natCast]
  rw [storeAt_reverse h, Option.bind_some, reverseTo_overwrite]

end XWeb.Base
