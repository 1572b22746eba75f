import XWeb.Lib.Decimal

/-!
# Dates

`gmtime` and `strftime` with `%Y%m%d`: the Gregorian date of a day that is given by its number,
day 0 being 1 January 1970. Years are counted from 1 March, so that the leap day is the last one.

* `dayNumber_civil`: the number of a day is got back from its date.
* `strftime_injective`: two days are printed in two ways.
-/

namespace XWeb.Lib

/-- `tm_year + 1900`, `tm_mon + 1` and `tm_mday`. -/
structure Date where
  year : ℤ
  month : ℤ
  day : ℤ
  deriving DecidableEq

/-! ## Years from 1 March -/

/-- The year and the day in it of the day `z` after 1 March of the year 0. The last century of
    four and the last year of four are a day longer, if the leap day is not left out. -/
def yearDay (z : ℤ) : ℤ × ℤ :=
  let era := z / 146097
  let century := min 3 (z % 146097 / 36524)
  let dayOfCentury := z % 146097 - century * 36524
  let quad := dayOfCentury / 1461
  let dayOfQuad := dayOfCentury - quad * 1461
  let year := min 3 (dayOfQuad / 365)
  (400 * era + 100 * century + 4 * quad + year, dayOfQuad - year * 365)

/-- The days from 1 March of the year 0 to that of the year `y`. -/
def daysBefore (y : ℤ) : ℤ := 365 * y + y / 4 - y / 100 + y / 400

theorem daysBefore_split {e c q y : ℤ} (hc : 0 ≤ c ∧ c ≤ 3) (hq : 0 ≤ q ∧ q ≤ 24)
    (hy : 0 ≤ y ∧ y ≤ 3) :
    daysBefore (400 * e + 100 * c + 4 * q + y) = 146097 * e + 36524 * c + 1461 * q + 365 * y := by
  unfold daysBefore
  have h4 : (400 * e + 100 * c + 4 * q + y) / 4 = 100 * e + 25 * c + q := by omega
  have h100 : (400 * e + 100 * c + 4 * q + y) / 100 = 4 * e + c := by omega
  have h400 : (400 * e + 100 * c + 4 * q + y) / 400 = e := by omega
  omega

theorem yearDay_spec (z : ℤ) :
    daysBefore (yearDay z).1 + (yearDay z).2 = z ∧ 0 ≤ (yearDay z).2 ∧ (yearDay z).2 ≤ 365 := by
  unfold yearDay
  dsimp only
  have hz : 146097 * (z / 146097) + z % 146097 = z := Int.mul_ediv_add_emod z 146097
  have hdoe : 0 ≤ z % 146097 ∧ z % 146097 < 146097 := by omega
  generalize z % 146097 = doe at *
  generalize z / 146097 = e at *
  obtain ⟨c, hc⟩ : ∃ c, min 3 (doe / 36524) = c := ⟨_, rfl⟩
  have hcentury : 0 ≤ c ∧ c ≤ 3 ∧ 0 ≤ doe - c * 36524 ∧ doe - c * 36524 ≤ 36524 := by omega
  rw [hc]
  generalize hdoc : doe - c * 36524 = doc at *
  have hquad : 0 ≤ doc / 1461 ∧ doc / 1461 ≤ 24 := by omega
  obtain ⟨q, hq⟩ : ∃ q, doc / 1461 = q := ⟨_, rfl⟩
  have hdoq : 0 ≤ doc - q * 1461 ∧ doc - q * 1461 ≤ 1460 := by omega
  rw [hq] at hquad ⊢
  generalize hdq : doc - q * 1461 = doq at *
  obtain ⟨y, hy⟩ : ∃ y, min 3 (doq / 365) = y := ⟨_, rfl⟩
  have hyear : 0 ≤ y ∧ y ≤ 3 ∧ 0 ≤ doq - y * 365 ∧ doq - y * 365 ≤ 365 := by omega
  rw [hy, daysBefore_split ⟨hcentury.1, hcentury.2.1⟩ hquad ⟨hyear.1, hyear.2.1⟩]
  omega

/-! ## Dates -/

/-- The number of the month `m` after March. -/
def monthOf (m : ℤ) : ℤ := if m < 10 then m + 3 else m - 9

/-- How many months after March the month with a number is. -/
def monthsAfterMarch (month : ℤ) : ℤ := if 3 ≤ month then month - 3 else month + 9

theorem monthOf_spec {m : ℤ} (h : 0 ≤ m) (h' : m ≤ 11) :
    monthsAfterMarch (monthOf m) = m ∧ 1 ≤ monthOf m ∧ monthOf m ≤ 12 ∧ (3 ≤ monthOf m ↔ m < 10) := by
  unfold monthsAfterMarch monthOf
  split_ifs <;> omega

/-- The date of the day `n`. In `(5 * d + 2) / 153` the months have 31, 30, 31, 30 and 31 days in
    turn. -/
def civil (n : ℤ) : Date :=
  let year := (yearDay (n + 719468)).1
  let dayOfYear := (yearDay (n + 719468)).2
  let month := (5 * dayOfYear + 2) / 153
  { year := if month < 10 then year else year + 1
    month := monthOf month
    day := dayOfYear - (153 * month + 2) / 5 + 1 }

/-- The number of the day of a date. -/
def dayNumber (date : Date) : ℤ :=
  daysBefore (if 3 ≤ date.month then date.year else date.year - 1) +
    (153 * monthsAfterMarch date.month + 2) / 5 + date.day - 1 - 719468

theorem civil_spec (n : ℤ) :
    dayNumber (civil n) = n ∧ 1 ≤ (civil n).month ∧ (civil n).month ≤ 12 ∧ 1 ≤ (civil n).day ∧
      (civil n).day ≤ 31 := by
  obtain ⟨hnumber, hzero, hlast⟩ := yearDay_spec (n + 719468)
  have hmonth : 0 ≤ (5 * (yearDay (n + 719468)).2 + 2) / 153 ∧
      (5 * (yearDay (n + 719468)).2 + 2) / 153 ≤ 11 := by omega
  obtain ⟨hback, hfirst, htwelve, hmarch⟩ := monthOf_spec hmonth.1 hmonth.2
  have hyear : (if 3 ≤ (civil n).month then (civil n).year else (civil n).year - 1) =
      (yearDay (n + 719468)).1 := by
    simp only [civil, hmarch]
    split_ifs <;> omega
  refine ⟨?_, hfirst, htwelve, ?_, ?_⟩
  · rw [dayNumber, hyear]
    show _ + (153 * monthsAfterMarch (monthOf _) + 2) / 5 + (_ - _ + 1) - 1 - 719468 = n
    rw [hback]
    omega
  · simp only [civil]
    omega
  · simp only [civil]
    omega

theorem dayNumber_civil (n : ℤ) : dayNumber (civil n) = n := (civil_spec n).1

example : civil 11016 = ⟨2000, 2, 29⟩ ∧ civil (-25509) = ⟨1900, 2, 28⟩ := by decide

/-! ## Printing -/

/-- `%02d`, of a number below 100. -/
def twoDigits (n : ℕ) : Bytes := [digit (n / 10), digit (n % 10)]

theorem value_twoDigits {n : ℕ} (h : n < 100) : value (twoDigits n) = n := by
  have hone := value_concat [] (d := n / 10) (by omega)
  have htwo := value_concat [digit (n / 10)] (d := n % 10) (by omega)
  rw [List.nil_append] at hone
  show value ([digit (n / 10)] ++ [digit (n % 10)]) = n
  rw [htwo, hone]
  show 10 * (10 * 0 + n / 10) + n % 10 = n
  omega

/-- `strftime` with `%Y%m%d`. -/
def strftime (date : Date) : Bytes :=
  decimalInt date.year ++ twoDigits date.month.toNat ++ twoDigits date.day.toNat

theorem strftime_injective {n m : ℤ} (h : strftime (civil n) = strftime (civil m)) : n = m := by
  rw [← dayNumber_civil n, ← dayNumber_civil m]
  obtain ⟨-, hn1, hn2, hn3, hn4⟩ := civil_spec n
  obtain ⟨-, hm1, hm2, hm3, hm4⟩ := civil_spec m
  generalize civil n = a at *
  generalize civil m = b at *
  obtain ⟨hleft, hdays⟩ := List.append_inj' h rfl
  obtain ⟨hyears, hmonths⟩ := List.append_inj' hleft rfl
  have hyear : a.year = b.year := decimalInt_injective hyears
  have hmonth : a.month.toNat = b.month.toNat := by
    rw [← value_twoDigits (n := a.month.toNat) (by omega), hmonths, value_twoDigits (by omega)]
  have hday : a.day.toNat = b.day.toNat := by
    rw [← value_twoDigits (n := a.day.toNat) (by omega), hdays, value_twoDigits (by omega)]
  congr 1
  obtain ⟨ya, ma, da⟩ := a
  obtain ⟨yb, mb, db⟩ := b
  simp only [Date.mk.injEq]
  dsimp only at *
  omega

example : strftime (civil 0) = [49, 57, 55, 48, 48, 49, 48, 49] := by decide

end XWeb.Lib
