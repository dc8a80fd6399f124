import Mathlib.Tactic.IntervalCases
import PromqlEngine.Telemetry

/-!
# `PromqlEngine.Time` — the calendar of Go's `time` package

The date functions of `src/` read a `time.Time` built by `time.Unix(sec, 0).UTC()`
through `Year`, `Month`, `Day`, `Hour`, `Minute`, `Weekday` and `YearDay`.
`daysInMonth` also builds `time.Date(year, month, 32, 0, 0, 0, 0, time.UTC)`.
The package is not in `src/`, so it is modelled here by what it computes,
which is the proleptic Gregorian calendar in UTC:

* `isLeap`, `daysBefore` and `daysIn` are the package's own;
* `daysOfDate year month day` is the number of days from 1970-01-01 that
  `time.Date` gives, with a `day` past the end of the month carried into the
  next months, as `Date` normalises it;
* `dateOfDays` is `t.Date()`.  It cuts the days into cycles of 400, 100, 4 and
  1 years, as the package does, counting each year from March 1 so that a leap
  day is the last day of its year.

## What is proved

The two conversions are inverse (`dateOfDays_daysOfDate`,
`dateOfDays_valid`): `dateOfDays` returns a month in `1..12` and a day within
`daysIn` of it, and every such date comes back.  Adding the length of a month
moves to the first day of the next one (`daysOfDate_carry`).

## Go's wraparound

The package counts seconds from January 1 of `absoluteZeroYear`, in `uint64`
(`abs`).  `Time.abs` is that count: the Unix seconds plus `unixToAbsolute`,
an `int64` sum, which wraps for the times within about `8.1 · 10^9` s of
`-2^63`.  Those times read as dates near the end of the `uint64` range, in
the year 292277026596 and after.  `time.Date` counts days and seconds in
`uint64` too (`daysSinceEpoch`, `Time.ofDate`).  Every field is read off
`abs`, so on every `int64` the model gives the package's answer.  The date is
exact on the times `abs` reads without a wrap (`Time.InRange`), where
`time.Date` of a day in the month does not wrap either (`Time.days_ofDate`,
`Time.ofDate_32_fits`).

`Time` is a `time.Time` of `time.Unix(sec, 0).UTC()`, and its fields are the
methods `src/` calls.

**Proved here.**

    a month in 1..12 and a day within it come back from `daysOfDate`  (`dateOfDays_daysOfDate`)
    `dateOfDays` gives such a date, and `daysOfDate` of it              (`dateOfDays_valid`)
    a month's length carries into the next month                       (`daysOfDate_carry`)
    in range, `time.Date` builds the day `daysOfDate` counts           (`Time.days_ofDate`)
-/

namespace PromqlEngine

/-- `isLeap(year)`. -/
def isLeap (year : Int) : Bool := year % 4 == 0 && (year % 100 != 0 || year % 400 == 0)

/-- `daysBefore`: the days before each month of a year that is not a leap year. -/
def daysBefore : List Int := [0, 31, 59, 90, 120, 151, 181, 212, 243, 273, 304, 334, 365]

/-- `daysIn(m, year)`. -/
def daysIn (m year : Int) : Int :=
  if m = 2 ∧ isLeap year then 29 else daysBefore.getD m.toNat 0 - daysBefore.getD (m - 1).toNat 0

/-- The days from 1970-01-01 to January 1 of `year`. -/
def daysBeforeYear (year : Int) : Int :=
  365 * year + (year + 3) / 4 - (year + 99) / 100 + (year + 399) / 400 - 719528

/-- The days from 1970-01-01 of the day `time.Date` gives for `year`, a
`month` in `1..12` and any `day`. -/
def daysOfDate (year month day : Int) : Int :=
  daysBeforeYear year + daysBefore.getD (month - 1).toNat 0 +
    (if isLeap year ∧ 3 ≤ month then 1 else 0) + (day - 1)

/-- The year counted from March, and the day of that year (March 1 is `0`),
of the day `z` from 1970-01-01, by cycles of 400, 100, 4 and 1 years. -/
def marchDate (z : Int) : Int × Int :=
  let n400 := (z + 719468) / 146097
  let r400 := (z + 719468) % 146097
  let n100 := min (r400 / 36524) 3
  let r100 := r400 - 36524 * n100
  let n4 := r100 / 1461
  let r4 := r100 % 1461
  let n1 := min (r4 / 365) 3
  (400 * n400 + 100 * n100 + 4 * n4 + n1, r4 - 365 * n1)

/-- The month of the `mp`-th month from March. -/
def monthOfMarch (mp : Int) : Int := if mp < 10 then mp + 3 else mp - 9

/-- The place of month `m` from March. -/
def marchOfMonth (m : Int) : Int := if 2 < m then m - 3 else m + 9

/-- The days of the year from March before the `mp`-th month from March. -/
def marchOffset (mp : Int) : Int := (153 * mp + 2) / 5

/-- Year, month and day of the day `doy` of the year from March `y`. -/
def ofMarch (y doy : Int) : Int × Int × Int :=
  let mp := (5 * doy + 2) / 153
  let m := monthOfMarch mp
  (if m ≤ 2 then y + 1 else y, m, doy - marchOffset mp + 1)

/-- `t.Date()` of the day `z` from 1970-01-01. -/
def dateOfDays (z : Int) : Int × Int × Int := ofMarch (marchDate z).1 (marchDate z).2

/-! ## Years from March -/

/-- The days from 0000-03-01 to March 1 of `y`. -/
def marchStart (y : Int) : Int := 365 * y + y / 4 - y / 100 + y / 400

/-- The day of the year from March of day `d` of month `m`. -/
def marchDoy (m d : Int) : Int := marchOffset (marchOfMonth m) + d - 1

/-- `doy` is a day of the year from March `y`: its last day, `365`, is
February 29 of `y + 1`. -/
def MarchDoy (y doy : Int) : Prop := 0 ≤ doy ∧ (doy ≤ 364 ∨ (doy = 365 ∧ isLeap (y + 1) = true))

theorem isLeap_iff (y : Int) : isLeap y = true ↔ y % 4 = 0 ∧ (y % 100 ≠ 0 ∨ y % 400 = 0) := by
  simp [isLeap]

theorem daysBeforeYear_march (y : Int) : daysBeforeYear y + 719468 = marchStart (y - 1) + 306 := by
  unfold daysBeforeYear marchStart; omega

theorem daysBeforeYear_march_leap (y : Int) :
    daysBeforeYear y + (if isLeap y then 1 else 0) + 719468 + 59 = marchStart y := by
  unfold daysBeforeYear marchStart
  split_ifs with h <;> rw [isLeap_iff] at h <;> omega

theorem marchStart_succ (y : Int) :
    marchStart (y + 1) = marchStart y + 365 + (if isLeap (y + 1) then 1 else 0) := by
  have h₁ := daysBeforeYear_march (y + 1)
  have h₂ := daysBeforeYear_march_leap (y + 1)
  rw [add_sub_cancel_right] at h₁
  omega

theorem marchStart_le {y y' : Int} (h : y ≤ y') : marchStart y ≤ marchStart y' := by
  unfold marchStart; omega

theorem offset_table {m : Int} (h₁ : 1 ≤ m) (h₂ : m ≤ 12) :
    daysBefore.getD (m - 1).toNat 0 + (if m ≤ 2 then 306 else -59) = marchOffset (marchOfMonth m) := by
  interval_cases m <;> rfl

/-- **`daysOfDate` counted from March.** -/
theorem daysOfDate_march {m : Int} (h₁ : 1 ≤ m) (h₂ : m ≤ 12) (y d : Int) :
    daysOfDate y m d + 719468 = marchStart (if m ≤ 2 then y - 1 else y) + marchDoy m d := by
  have ht := offset_table h₁ h₂
  have ha := daysBeforeYear_march y
  have hb := daysBeforeYear_march_leap y
  unfold daysOfDate marchDoy
  by_cases hm : m ≤ 2
  · simp only [hm, if_true, show ¬ 3 ≤ m by omega, and_false, if_false] at ht ⊢
    omega
  · simp only [hm, if_false, show 3 ≤ m by omega, and_true] at ht ⊢
    omega

/-! ## Cycles -/

theorem marchStart_cycles (e c q r : Int) (hc : 0 ≤ c ∧ c ≤ 3) (hq : 0 ≤ q ∧ q ≤ 24)
    (hr : 0 ≤ r ∧ r ≤ 3) :
    marchStart (400 * e + 100 * c + 4 * q + r) = 146097 * e + 36524 * c + 1461 * q + 365 * r := by
  unfold marchStart; omega

theorem cycles_spec (r400 : Int) (h : 0 ≤ r400 ∧ r400 < 146097) :
    let n100 := min (r400 / 36524) 3
    let r100 := r400 - 36524 * n100
    let n4 := r100 / 1461
    let r4 := r100 % 1461
    let n1 := min (r4 / 365) 3
    let doy := r4 - 365 * n1
    (0 ≤ n100 ∧ n100 ≤ 3) ∧ (0 ≤ n4 ∧ n4 ≤ 24) ∧ (0 ≤ n1 ∧ n1 ≤ 3) ∧ 0 ≤ doy ∧
      (doy ≤ 364 ∨ (doy = 365 ∧ n1 = 3 ∧ (n4 ≠ 24 ∨ n100 = 3))) ∧
      r400 = 36524 * n100 + 1461 * n4 + 365 * n1 + doy := by
  intro n100 r100 n4 r4 n1 doy
  omega

theorem marchDate_spec (z : Int) :
    MarchDoy (marchDate z).1 (marchDate z).2 ∧ z + 719468 = marchStart (marchDate z).1 + (marchDate z).2 := by
  have hr : 0 ≤ (z + 719468) % 146097 ∧ (z + 719468) % 146097 < 146097 := by omega
  obtain ⟨hc, hq, hn, hd0, hd, hsum⟩ := cycles_spec _ hr
  unfold marchDate
  dsimp only
  rw [marchStart_cycles _ _ _ _ hc hq hn]
  refine ⟨⟨hd0, ?_⟩, by omega⟩
  rw [isLeap_iff]
  omega

theorem march_unique {y doy y' doy' : Int} (h : MarchDoy y doy) (h' : MarchDoy y' doy')
    (he : marchStart y + doy = marchStart y' + doy') : y = y' ∧ doy = doy' := by
  have below : ∀ {a b c d : Int}, MarchDoy a b → MarchDoy c d → a < c →
      marchStart a + b < marchStart c + d := by
    intro a b c d hab hcd hac
    have h₁ := marchStart_succ a
    have h₂ := marchStart_le (show a + 1 ≤ c by omega)
    have hd0 := hcd.1
    rcases hab.2 with hb | ⟨rfl, hl⟩
    · split_ifs at h₁ <;> omega
    · rw [if_pos hl] at h₁
      omega
  rcases lt_trichotomy y y' with hy | rfl | hy
  · exact absurd he (ne_of_lt (below h h' hy))
  · exact ⟨rfl, by omega⟩
  · exact absurd he.symm (ne_of_lt (below h' h hy))

theorem marchDate_marchStart {y doy : Int} (h : MarchDoy y doy) :
    marchDate (marchStart y + doy - 719468) = (y, doy) := by
  obtain ⟨hm, he⟩ := marchDate_spec (marchStart y + doy - 719468)
  obtain ⟨h₁, h₂⟩ := march_unique hm h (by omega)
  exact Prod.ext h₁ h₂

/-! ## Months -/

theorem marchOfMonth_monthOfMarch {mp : Int} (h₀ : 0 ≤ mp) (h₁ : mp ≤ 11) :
    marchOfMonth (monthOfMarch mp) = mp := by
  unfold marchOfMonth monthOfMarch; split_ifs <;> omega

theorem monthOfMarch_marchOfMonth {m : Int} (h₁ : 1 ≤ m) (h₂ : m ≤ 12) :
    monthOfMarch (marchOfMonth m) = m := by
  unfold marchOfMonth monthOfMarch; split_ifs <;> omega

theorem daysIn_two (y : Int) : daysIn 2 y = if isLeap y then 29 else 28 := by
  rcases Bool.eq_false_or_eq_true (isLeap y) with h | h <;> simp [daysIn, daysBefore, h]

theorem daysIn_of_ne_two {m : Int} (h₁ : 1 ≤ m) (h₂ : m ≤ 12) (hm : m ≠ 2) (y : Int) :
    daysIn m y = marchOffset (marchOfMonth m + 1) - marchOffset (marchOfMonth m) := by
  rw [daysIn, if_neg fun h => hm h.1]
  interval_cases m <;> first | rfl | exact absurd rfl hm

theorem daysIn_range {m : Int} (h₁ : 1 ≤ m) (h₂ : m ≤ 12) (y : Int) : 28 ≤ daysIn m y ∧ daysIn m y ≤ 31 := by
  by_cases hm : m = 2
  · subst hm; rw [daysIn_two]; split_ifs <;> omega
  · have : 0 ≤ marchOfMonth m ∧ marchOfMonth m ≤ 11 := by unfold marchOfMonth; split_ifs <;> omega
    rw [daysIn_of_ne_two h₁ h₂ hm]
    unfold marchOffset
    omega

theorem day_le_daysIn {y doy mp : Int} (h : MarchDoy y doy) (hmp : 0 ≤ mp ∧ mp ≤ 11)
    (hlt : 5 * doy + 2 < 153 * (mp + 1)) :
    doy - marchOffset mp + 1 ≤ daysIn (monthOfMarch mp) (if monthOfMarch mp ≤ 2 then y + 1 else y) := by
  by_cases h11 : mp = 11
  · subst h11
    rw [show monthOfMarch 11 = 2 from rfl, if_pos (le_refl _), daysIn_two,
      show marchOffset 11 = 337 from rfl]
    rcases h.2 with hd | ⟨rfl, hl⟩
    · split_ifs <;> omega
    · rw [if_pos hl]; omega
  · have hm : 1 ≤ monthOfMarch mp ∧ monthOfMarch mp ≤ 12 ∧ monthOfMarch mp ≠ 2 := by
      unfold monthOfMarch; split_ifs <;> omega
    rw [daysIn_of_ne_two hm.1 hm.2.1 hm.2.2, marchOfMonth_monthOfMarch hmp.1 hmp.2]
    unfold marchOffset
    omega

theorem ofMarch_valid {y doy : Int} (h : MarchDoy y doy) :
    1 ≤ (ofMarch y doy).2.1 ∧ (ofMarch y doy).2.1 ≤ 12 ∧ 1 ≤ (ofMarch y doy).2.2 ∧
      (ofMarch y doy).2.2 ≤ daysIn (ofMarch y doy).2.1 (ofMarch y doy).1 ∧
      (if (ofMarch y doy).2.1 ≤ 2 then (ofMarch y doy).1 - 1 else (ofMarch y doy).1) = y ∧
      marchDoy (ofMarch y doy).2.1 (ofMarch y doy).2.2 = doy := by
  have hd : doy ≤ 365 := by rcases h.2 with h | h <;> omega
  have h₀ := h.1
  unfold ofMarch
  dsimp only
  generalize hm : (5 * doy + 2) / 153 = mp
  have hmp : 0 ≤ mp ∧ mp ≤ 11 ∧ 153 * mp ≤ 5 * doy + 2 ∧ 5 * doy + 2 < 153 * (mp + 1) := by omega
  have hrange : 1 ≤ monthOfMarch mp ∧ monthOfMarch mp ≤ 12 := by
    unfold monthOfMarch; split_ifs <;> omega
  refine ⟨hrange.1, hrange.2, by unfold marchOffset; omega,
    day_le_daysIn h ⟨hmp.1, hmp.2.1⟩ hmp.2.2.2, by split_ifs <;> omega, ?_⟩
  unfold marchDoy
  rw [marchOfMonth_monthOfMarch hmp.1 hmp.2.1]
  omega

theorem ofMarch_marchDoy {y m d : Int} (h₁ : 1 ≤ m) (h₂ : m ≤ 12) (hd₁ : 1 ≤ d) (hd₂ : d ≤ daysIn m y) :
    MarchDoy (if m ≤ 2 then y - 1 else y) (marchDoy m d) ∧
      ofMarch (if m ≤ 2 then y - 1 else y) (marchDoy m d) = (y, m, d) := by
  have hmp : 0 ≤ marchOfMonth m ∧ marchOfMonth m ≤ 11 := by unfold marchOfMonth; split_ifs <;> omega
  have hback := monthOfMarch_marchOfMonth h₁ h₂
  have hlen : d ≤ marchOffset (marchOfMonth m + 1) - marchOffset (marchOfMonth m) ∧
      (marchDoy m d ≤ 364 ∨ (m = 2 ∧ d = 29 ∧ isLeap y = true)) := by
    unfold marchDoy
    by_cases hm : m = 2
    · subst hm
      rw [daysIn_two] at hd₂
      rw [show marchOfMonth 2 = 11 from rfl, show marchOffset 11 = 337 from rfl,
        show marchOffset (11 + 1) = 367 from rfl]
      split_ifs at hd₂ with hl
      · refine ⟨by omega, ?_⟩
        rcases (show d ≤ 28 ∨ d = 29 by omega) with h | h
        · exact Or.inl (by omega)
        · exact Or.inr ⟨rfl, h, hl⟩
      · exact ⟨by omega, Or.inl (by omega)⟩
    · rw [daysIn_of_ne_two h₁ h₂ hm] at hd₂
      have : marchOfMonth m ≠ 11 := fun h => hm (by rw [← hback, h]; rfl)
      unfold marchOffset at *
      omega
  have hq : (5 * marchDoy m d + 2) / 153 = marchOfMonth m := by
    have := hlen.1; unfold marchDoy marchOffset at *; omega
  refine ⟨⟨by unfold marchDoy marchOffset; omega, ?_⟩, ?_⟩
  · rcases hlen.2 with h | ⟨rfl, rfl, hl⟩
    · exact Or.inl h
    · exact Or.inr ⟨rfl, by simpa using hl⟩
  · unfold ofMarch
    simp only [hq, hback, Prod.mk.injEq, true_and]
    exact ⟨by split_ifs <;> omega, by unfold marchDoy; omega⟩

/-! ## The two conversions -/

/-- **`t.Date()` of `time.Date(year, month, day)`** is that date, for a month in
`1..12` and a day within it. -/
theorem dateOfDays_daysOfDate {y m d : Int} (h₁ : 1 ≤ m) (h₂ : m ≤ 12) (hd₁ : 1 ≤ d)
    (hd₂ : d ≤ daysIn m y) : dateOfDays (daysOfDate y m d) = (y, m, d) := by
  obtain ⟨hok, hof⟩ := ofMarch_marchDoy h₁ h₂ hd₁ hd₂
  have hz : daysOfDate y m d = marchStart (if m ≤ 2 then y - 1 else y) + marchDoy m d - 719468 := by
    have := daysOfDate_march h₁ h₂ y d; omega
  rw [dateOfDays, hz, marchDate_marchStart hok, hof]

/-- **`t.Date()` is a date**: a month in `1..12`, a day within it, and the
day `time.Date` gives for it is the day it was read from. -/
theorem dateOfDays_valid (z : Int) :
    1 ≤ (dateOfDays z).2.1 ∧ (dateOfDays z).2.1 ≤ 12 ∧ 1 ≤ (dateOfDays z).2.2 ∧
      (dateOfDays z).2.2 ≤ daysIn (dateOfDays z).2.1 (dateOfDays z).1 ∧
      daysOfDate (dateOfDays z).1 (dateOfDays z).2.1 (dateOfDays z).2.2 = z := by
  obtain ⟨hok, hz⟩ := marchDate_spec z
  obtain ⟨h₁, h₂, hd₁, hd₂, hy, hdoy⟩ := ofMarch_valid hok
  refine ⟨h₁, h₂, hd₁, hd₂, ?_⟩
  have := daysOfDate_march h₁ h₂ (ofMarch (marchDate z).1 (marchDate z).2).1
    (ofMarch (marchDate z).1 (marchDate z).2).2.2
  rw [hy, hdoy] at this
  unfold dateOfDays
  omega

/-- The month after `m` of `y`. -/
def nextMonth (y m : Int) : Int × Int := if m = 12 then (y + 1, 1) else (y, m + 1)

theorem nextMonth_range (y m : Int) (h₁ : 1 ≤ m) (h₂ : m ≤ 12) :
    1 ≤ (nextMonth y m).2 ∧ (nextMonth y m).2 ≤ 12 := by
  unfold nextMonth; split_ifs <;> simp only <;> omega

theorem nextMonth_march {y m : Int} (h₁ : 1 ≤ m) (h₂ : m ≤ 12) (hm : m ≠ 2) :
    (if (nextMonth y m).2 ≤ 2 then (nextMonth y m).1 - 1 else (nextMonth y m).1) =
        (if m ≤ 2 then y - 1 else y) ∧ marchOfMonth (nextMonth y m).2 = marchOfMonth m + 1 := by
  unfold nextMonth
  by_cases h12 : m = 12
  · subst h12
    exact ⟨by simp, rfl⟩
  · simp only [h12, if_false]
    unfold marchOfMonth
    constructor <;> split_ifs <;> omega

/-- **A month's length carries into the next month.** -/
theorem daysOfDate_carry {m : Int} (h₁ : 1 ≤ m) (h₂ : m ≤ 12) (y k : Int) :
    daysOfDate y m (daysIn m y + k) = daysOfDate (nextMonth y m).1 (nextMonth y m).2 k := by
  have hn := nextMonth_range y m h₁ h₂
  have ha := daysOfDate_march h₁ h₂ y (daysIn m y + k)
  have hb := daysOfDate_march hn.1 hn.2 (nextMonth y m).1 k
  by_cases hm : m = 2
  · subst hm
    have hs := marchStart_succ (y - 1)
    rw [sub_add_cancel] at hs
    have hd := daysIn_two y
    simp only [show nextMonth y 2 = (y, 3) from rfl] at hb ⊢
    simp only [marchDoy, show marchOfMonth 2 = 11 from rfl, show marchOfMonth 3 = 0 from rfl,
      show marchOffset 11 = 337 from rfl, show marchOffset 0 = 0 from rfl, le_refl, if_true,
      show ¬ (3 : Int) ≤ 2 by omega, if_false] at ha hb
    split_ifs at hd hs <;> omega
  · have hd := daysIn_of_ne_two h₁ h₂ hm y
    obtain ⟨hy, hmp⟩ := nextMonth_march (y := y) h₁ h₂ hm
    unfold marchDoy at ha hb
    rw [hy, hmp] at hb
    omega

theorem dayOfYear_range {y m d : Int} (h₁ : 1 ≤ m) (h₂ : m ≤ 12) (hd₁ : 1 ≤ d) (hd₂ : d ≤ daysIn m y) :
    1 ≤ daysOfDate y m d - daysBeforeYear y + 1 ∧
      daysOfDate y m d - daysBeforeYear y + 1 ≤ 365 + (if isLeap y then 1 else 0) := by
  unfold daysOfDate
  by_cases hm : m = 2
  · subst hm
    rw [daysIn_two] at hd₂
    simp only [show daysBefore.getD ((2 : Int) - 1).toNat 0 = 31 from rfl, show ¬ (3 : Int) ≤ 2 by omega,
      and_false, if_false]
    split_ifs at hd₂ ⊢ <;> omega
  · have ht := offset_table h₁ h₂
    have hmp : (m ≤ 2 → marchOfMonth m = 10) ∧ (2 < m → 0 ≤ marchOfMonth m ∧ marchOfMonth m ≤ 9) := by
      unfold marchOfMonth; constructor <;> intro <;> split_ifs <;> omega
    rw [daysIn_of_ne_two h₁ h₂ hm] at hd₂
    unfold marchOffset at ht hd₂
    by_cases h3 : 3 ≤ m
    · simp only [h3, and_true, show ¬ m ≤ 2 by omega, if_false] at ht ⊢
      split_ifs <;> omega
    · simp only [h3, and_false, if_false, show m ≤ 2 by omega, if_true] at ht ⊢
      split_ifs <;> omega

theorem daysBeforeYear_le {y y' : Int} (h : y ≤ y') : daysBeforeYear y ≤ daysBeforeYear y' := by
  have := daysBeforeYear_march y
  have := daysBeforeYear_march y'
  have := marchStart_le (show y - 1 ≤ y' - 1 by omega)
  omega

theorem daysBefore_getD_nonneg (i : Nat) : 0 ≤ daysBefore.getD i 0 := by
  rw [List.getD_eq_getElem?_getD]
  cases h : daysBefore[i]? with
  | none => exact le_refl 0
  | some x =>
    have := List.getElem?_mem h
    simp only [daysBefore, List.mem_cons, List.mem_singleton, List.not_mem_nil, or_false] at this
    simp only [Option.getD_some]
    omega

/-! ## `time.Time` -/

/-- `absoluteZeroYear`: the package counts seconds from January 1 of this
year.  It is `1` mod `400`, so the package's cycles of 400, 100 and 4 years
are those of the proleptic calendar. -/
def absoluteZeroYear : Int := -292277022399

/-- `unixToInternal + internalToAbsolute`: the seconds from the absolute epoch
to 1970-01-01, a whole number of days. -/
def unixToAbsolute : Int := 9223372028715321600

/-- `daysSinceEpoch(year)`: the days from the absolute epoch to January 1 of
`year`, by cycles of 400, 100, 4 and 1 years.  The package computes in
`uint64`; past the first reduction every step that can wrap is a sum or a
product, so one reduction mod `2^64` at the end gives what wrapping at each
step gives. -/
def daysSinceEpoch (year : Int) : Int :=
  let y := (year - absoluteZeroYear) % 2 ^ 64
  (146097 * (y / 400) + 36524 * (y % 400 / 100) + 1461 * (y % 100 / 4) + 365 * (y % 4)) % 2 ^ 64

theorem daysBeforeYear_absoluteZeroYear : daysBeforeYear absoluteZeroYear = -(unixToAbsolute / 86400) := by
  norm_num [daysBeforeYear, absoluteZeroYear, unixToAbsolute]

theorem cycles_days (y : Int) :
    146097 * (y / 400) + 36524 * (y % 400 / 100) + 1461 * (y % 100 / 4) + 365 * (y % 4) =
      365 * y + y / 4 - y / 100 + y / 400 := by
  omega

theorem daysSinceEpoch_eq {y : Int} (h₁ : absoluteZeroYear ≤ y)
    (h₂ : daysBeforeYear y + unixToAbsolute / 86400 < 2 ^ 64) :
    daysSinceEpoch y = daysBeforeYear y + unixToAbsolute / 86400 := by
  have hz := daysBeforeYear_le h₁
  have hZ := daysBeforeYear_absoluteZeroYear
  have hshift : 365 * (y - absoluteZeroYear) + (y - absoluteZeroYear) / 4 - (y - absoluteZeroYear) / 100 +
      (y - absoluteZeroYear) / 400 = daysBeforeYear y + unixToAbsolute / 86400 := by
    unfold daysBeforeYear absoluteZeroYear unixToAbsolute; omega
  have hY : (y - absoluteZeroYear) % 2 ^ 64 = y - absoluteZeroYear := Int.emod_eq_of_lt (by omega) (by omega)
  unfold daysSinceEpoch
  dsimp only
  rw [hY, cycles_days, hshift, Int.emod_eq_of_lt (by omega) h₂]

/-- A `time.Time` of `time.Unix(unix, 0).UTC()`: the `int64` seconds from
1970-01-01 UTC. -/
structure Time where
  unix : Int
deriving DecidableEq, Repr

namespace Time

/-- `t.abs()`, `uint64(sec + (unixToInternal + internalToAbsolute))`: the
seconds from the absolute epoch.  The sum is an `int64`, so for the times
within `2^63 - unixToAbsolute` seconds (about 258 years) of `-2^63` it wraps,
and `abs()` reads a count near the end of the `uint64` range. -/
def abs (t : Time) : Int := (t.unix + unixToAbsolute) % 2 ^ 64

/-- The days from 1970-01-01 of the day `absDate` reads off `t.abs()`. -/
def days (t : Time) : Int := t.abs / 86400 - unixToAbsolute / 86400

/-- `t.Year()`. -/
def year (t : Time) : Int := (dateOfDays t.days).1

/-- `t.Month()`. -/
def month (t : Time) : Int := (dateOfDays t.days).2.1

/-- `t.Day()`. -/
def day (t : Time) : Int := (dateOfDays t.days).2.2

/-- `t.Hour()`: `int(t.abs()%secondsPerDay) / secondsPerHour`. -/
def hour (t : Time) : Int := t.abs % 86400 / 3600

/-- `t.Minute()`: `int(t.abs()%secondsPerHour) / secondsPerMinute`. -/
def minute (t : Time) : Int := t.abs % 3600 / 60

/-- `t.Weekday()`, `absWeekday(t.abs())`: the absolute epoch was a Monday,
and Sunday is `0`.  The `uint64` sum wraps too. -/
def weekday (t : Time) : Int := (t.abs + 86400) % 2 ^ 64 % 604800 / 86400

/-- `t.YearDay()`: January 1 is `1`. -/
def yearDay (t : Time) : Int := t.days - daysBeforeYear t.year + 1

/-- `time.Date(year, month, day, 0, 0, 0, 0, time.UTC)` for a month in `1..12`:
the days from the absolute epoch, then the seconds, both in `uint64`, and the
Unix seconds `int64(abs) + (absoluteToInternal + internalToUnix)`. -/
def ofDate (year month day : Int) : Time :=
  let d := (daysSinceEpoch year + daysBefore.getD (month - 1).toNat 0 +
    (if isLeap year ∧ 3 ≤ month then 1 else 0) + (day - 1)) % 2 ^ 64
  ⟨wrapInt64 (d * 86400 % 2 ^ 64 - unixToAbsolute)⟩

/-- The times whose `abs()` does not wrap: the `int64` seconds from
`-unixToAbsolute` on. -/
def InRange (t : Time) : Prop := -unixToAbsolute ≤ t.unix ∧ t.unix < 2 ^ 63

instance (t : Time) : Decidable t.InRange := inferInstanceAs (Decidable (_ ∧ _))

theorem date_valid (t : Time) :
    1 ≤ t.month ∧ t.month ≤ 12 ∧ 1 ≤ t.day ∧ t.day ≤ daysIn t.month t.year ∧
      daysOfDate t.year t.month t.day = t.days :=
  dateOfDays_valid t.days

theorem days_of_inRange {t : Time} (h : t.InRange) : t.days = t.unix / 86400 := by
  unfold days abs InRange unixToAbsolute at *
  rw [Int.emod_eq_of_lt (by omega) (by omega)]
  omega

theorem absoluteZeroYear_le {z : Int} (h : -(unixToAbsolute / 86400) ≤ z) :
    absoluteZeroYear ≤ (dateOfDays z).1 := by
  obtain ⟨h₁, h₂, hd₁, hd₂, hz⟩ := dateOfDays_valid z
  have hy := dayOfYear_range h₁ h₂ hd₁ hd₂
  rw [hz] at hy
  by_contra hlt
  have hle := daysBeforeYear_le (show (dateOfDays z).1 ≤ absoluteZeroYear - 1 by omega)
  have hZ : daysBeforeYear (absoluteZeroYear - 1) = -(unixToAbsolute / 86400) - 366 := by
    norm_num [daysBeforeYear, absoluteZeroYear, unixToAbsolute]
  split_ifs at hy <;> omega

/-- **`time.Date` without a wrap**: from `absoluteZeroYear` on, and while the
seconds from the absolute epoch fit `uint64`, the `Time` that `time.Date`
builds is on the day `daysOfDate` counts. -/
theorem days_ofDate {y m d : Int} (hy : absoluteZeroYear ≤ y) (hd : 1 ≤ d)
    (hfit : (daysOfDate y m d + unixToAbsolute / 86400) * 86400 < 2 ^ 64) :
    (ofDate y m d).days = daysOfDate y m d := by
  have hb := daysBefore_getD_nonneg (m - 1).toNat
  have hl : 0 ≤ (if isLeap y ∧ 3 ≤ m then (1 : Int) else 0) := by split_ifs <;> omega
  have hz := daysBeforeYear_le hy
  have hZ := daysBeforeYear_absoluteZeroYear
  unfold daysOfDate at hfit ⊢
  have hs := daysSinceEpoch_eq hy (by omega)
  simp only [ofDate, days, abs, wrapInt64, hs]
  unfold unixToAbsolute at *
  omega

theorem ofDate_32_fits {t : Time} (h : t.InRange) :
    absoluteZeroYear ≤ t.year ∧ (daysOfDate t.year t.month 32 + unixToAbsolute / 86400) * 86400 < 2 ^ 64 := by
  have hd := days_of_inRange h
  obtain ⟨-, -, hd₁, -, hz⟩ := t.date_valid
  have h32 : daysOfDate t.year t.month 32 = t.days + (32 - t.day) := by
    rw [← hz]; unfold daysOfDate; ring
  unfold InRange unixToAbsolute at h
  refine ⟨absoluteZeroYear_le (by unfold unixToAbsolute; omega), ?_⟩
  rw [h32]
  unfold unixToAbsolute
  omega

end Time

end PromqlEngine
