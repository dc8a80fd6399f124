import PromqlEngine.Time

/-!
# `PromqlEngine.Function.Functions` — the tables of instant-vector functions

`instantVectorFuncs` maps the name of a PromQL function to a `functionCall`.
A `functionCall` takes the sample's float, its histogram (nil for a float
sample) and the function's extra arguments.  It returns the new value and
whether the sample is kept.  `noArgFuncs` maps a name to a function of the
step's timestamp in milliseconds.

The entries check their arguments before they compute:

* a function of floats drops a histogram sample;
* a `histogram_` function drops a float sample;
* `round` takes at most one extra argument;
* `clamp` takes two, and drops the sample when its maximum is below its
  minimum;
* `clamp_min` and `clamp_max` take one;
* `pi` and `vector` keep every sample, a histogram sample included.
  `vector` returns the float the sample carries.

The date functions read a `time.Time` (`PromqlEngine.Time`).
`daysInMonth` computes the month's length through `time.Date` of day 32 of the
month, which normalises into the next month.  `daysInMonth_eq` proves that the
result is `daysIn`, and `date_functions_range` that every date function
returns a value in its calendar range.

Go's `math` routines for `Exp`, `Log` and the trigonometric functions are not
in `src/` and are not exact IEEE operations, so they are the fields of
`GoMath`.  `Abs`, `Ceil`, `Floor` and `Sqrt` are exact and are Lean's.
`math.Max` and `math.Min` are written out with their special cases.  The
histogram is a type `H` read through `HistogramFields`.

**Proved here.**

    `days_in_month` is the length of the month                   (`daysInMonth_eq`)
    every date function is in its calendar range                 (`date_functions_range`)
-/

namespace PromqlEngine

/-! ## Go's `math` -/

/-- `math.Pi`. -/
def mathPi : Float := 3.141592653589793

/-- `math.Max`: `+Inf` before `NaN`, and `+0` over `-0`. -/
def goMax (x y : Float) : Float :=
  if (x.isInf ∧ 0 < x) ∨ (y.isInf ∧ 0 < y) then 1 / 0
  else if x.isNaN ∨ y.isNaN then 0 / 0
  else if x == 0 ∧ x == y then (if 1 / x < 0 then y else x)
  else if x > y then x else y

/-- `math.Min`: `-Inf` before `NaN`, and `-0` under `+0`. -/
def goMin (x y : Float) : Float :=
  if (x.isInf ∧ x < 0) ∨ (y.isInf ∧ y < 0) then -1 / 0
  else if x.isNaN ∨ y.isNaN then 0 / 0
  else if x == 0 ∧ x == y then (if 1 / x < 0 then x else y)
  else if x < y then x else y

/-- The routines of Go's `math` package that the table calls and that are
not exact IEEE operations. -/
structure GoMath where
  exp : Float → Float
  log : Float → Float
  log2 : Float → Float
  log10 : Float → Float
  sin : Float → Float
  cos : Float → Float
  tan : Float → Float
  asin : Float → Float
  acos : Float → Float
  atan : Float → Float
  sinh : Float → Float
  cosh : Float → Float
  tanh : Float → Float
  asinh : Float → Float
  acosh : Float → Float
  atanh : Float → Float

/-! ## Histograms -/

/-- A bucket of `h.AllBucketIterator()`. -/
structure Bucket where
  lower : Float
  upper : Float
  count : Float

/-- What the functions read of a `*histogram.FloatHistogram`. -/
structure HistogramFields (H : Type) where
  sum : H → Float
  count : H → Float
  usesCustomBuckets : H → Bool
  allBuckets : H → List Bucket

/-- `aggregate.KahanSumInc`, Neumaier's compensated sum. -/
def kahanSumInc (inc sum c : Float) : Float × Float :=
  let t := sum + inc
  if t.isInf then (t, 0)
  else if sum.abs ≥ inc.abs then (t, c + ((sum - t) + inc))
  else (t, c + ((inc - t) + sum))

/-- The value a bucket stands for: the arithmetic mean of its bounds for
custom buckets, `0` for the zero bucket, and the geometric mean otherwise. -/
def bucketValue (customBuckets : Bool) (b : Bucket) : Float :=
  if customBuckets then (b.upper + b.lower) / 2
  else if b.lower ≤ 0 ∧ b.upper ≥ 0 then 0
  else
    let val := Float.sqrt (b.upper * b.lower)
    if b.upper < 0 then -val else val

/-- One pass of the bucket loop: an empty bucket is skipped. -/
def varianceStep (customBuckets : Bool) (mean : Float) (acc : Float × Float) (b : Bucket) :
    Float × Float :=
  if b.count == 0 then acc
  else
    let delta := bucketValue customBuckets b - mean
    kahanSumInc (b.count * delta * delta) acc.1 acc.2

/-- The variance that `histogramStdDev` and `histogramStdVar` both compute. -/
def histogramVariance {H : Type} (hf : HistogramFields H) (h : H) : Float :=
  let mean := hf.sum h / hf.count h
  let acc := (hf.allBuckets h).foldl (varianceStep (hf.usesCustomBuckets h) mean) (0, 0)
  (acc.1 + acc.2) / hf.count h

/-- `histogramStdDev`. -/
def histogramStdDev {H : Type} (hf : HistogramFields H) (h : H) : Float :=
  Float.sqrt (histogramVariance hf h)

/-- `histogramStdVar`. -/
def histogramStdVar {H : Type} (hf : HistogramFields H) (h : H) : Float :=
  histogramVariance hf h

/-! ## Dates -/

/-- `int64(f)` on amd64: the float truncated toward zero; `NaN` and floats
outside the range of `int64` give `-2^63`. -/
def int64OfFloat (f : Float) : Int :=
  if f.isNaN ∨ f ≥ 9223372036854775808 ∨ f < -9223372036854775808 then -2 ^ 63
  else if f < 0 then -((-f).toUInt64.toNat : Int) else (f.toUInt64.toNat : Int)

/-- `dateFromSampleValue`. -/
def dateFromSampleValue (f : Float) : Time := ⟨int64OfFloat f⟩

/-- `dateFromStepTime`: `t / 1000` in Go truncates toward zero. -/
def dateFromStepTime (t : Int) : Time := ⟨t.tdiv 1000⟩

/-- `daysInMonth`: `32 - time.Date(t.Year(), t.Month(), 32, …).Day()`. -/
def daysInMonth (t : Time) : Float := Float.ofInt (32 - (Time.ofDate t.year t.month 32).day)

/-- `dayOfMonth`. -/
def dayOfMonth (t : Time) : Float := Float.ofInt t.day

/-- `dayOfWeek`. -/
def dayOfWeek (t : Time) : Float := Float.ofInt t.weekday

/-- `dayOfYear`. -/
def dayOfYear (t : Time) : Float := Float.ofInt t.yearDay

/-- `hour`. -/
def hour (t : Time) : Float := Float.ofInt t.hour

/-- `minute`. -/
def minute (t : Time) : Float := Float.ofInt t.minute

/-- `month`. -/
def month (t : Time) : Float := Float.ofInt t.month

/-- `year`. -/
def year (t : Time) : Float := Float.ofInt t.year

/-! ## The tables -/

/-- `functionCall`: the sample's float, its histogram and the extra
arguments give the new value and whether the sample is kept. -/
abbrev FunctionCall (H : Type) := Float → Option H → List Float → Float × Bool

variable {H : Type}

/-- `simpleFunc(f)`. -/
def simpleFunc (f : Float → Float) : FunctionCall H := fun v h _ =>
  match h with
  | some _ => (0, false)
  | none => (f v, true)

/-- The date functions with an argument, each with its own `fn`. -/
def dateCall (fn : Time → Float) : FunctionCall H := fun f h _ =>
  match h with
  | some _ => (0, false)
  | none => (fn (dateFromSampleValue f), true)

/-- The `histogram_` functions, each with its own `fn`. -/
def histogramCall (fn : H → Float) : FunctionCall H := fun _ h _ =>
  match h with
  | none => (0, false)
  | some h => (fn h, true)

/-- The function of `sgn`. -/
def sgn (v : Float) : Float :=
  let sign : Float := if v > 0 then 1 else if v < 0 then -1 else 0
  if v.isNaN then 0 / 0 else sign

/-- The entry of `round`. -/
def round : FunctionCall H := fun f h vargs =>
  match h with
  | some _ => (0, false)
  | none =>
    if vargs.length > 1 then (0, false)
    else
      let toNearest : Float := match vargs with
        | x :: _ => x
        | [] => 1
      let toNearestInverse := 1 / toNearest
      (Float.floor (f * toNearestInverse + 0.5) / toNearestInverse, true)

/-- The entry of `pi`. -/
def pi : FunctionCall H := fun _ _ _ => (mathPi, true)

/-- The entry of `vector`. -/
def vector : FunctionCall H := fun f _ _ => (f, true)

/-- The entry of `clamp`. -/
def clamp : FunctionCall H := fun f h vargs =>
  match h with
  | some _ => (0, false)
  | none =>
    match vargs with
    | [min, max] => if max < min then (0, false) else (goMax min (goMin max f), true)
    | _ => (0, false)

/-- The entry of `clamp_min`. -/
def clampMin : FunctionCall H := fun f h vargs =>
  match h with
  | some _ => (0, false)
  | none =>
    match vargs with
    | [min] => (goMax min f, true)
    | _ => (0, false)

/-- The entry of `clamp_max`. -/
def clampMax : FunctionCall H := fun f h vargs =>
  match h with
  | some _ => (0, false)
  | none =>
    match vargs with
    | [max] => (goMin max f, true)
    | _ => (0, false)

/-- `instantVectorFuncs`, in the order of the source. -/
def instantVectorFuncs (gm : GoMath) (hf : HistogramFields H) : List (String × FunctionCall H) :=
  [("abs", simpleFunc Float.abs), ("ceil", simpleFunc Float.ceil), ("exp", simpleFunc gm.exp),
    ("floor", simpleFunc Float.floor), ("sqrt", simpleFunc Float.sqrt), ("ln", simpleFunc gm.log),
    ("log2", simpleFunc gm.log2), ("log10", simpleFunc gm.log10), ("sin", simpleFunc gm.sin),
    ("cos", simpleFunc gm.cos), ("tan", simpleFunc gm.tan), ("asin", simpleFunc gm.asin),
    ("acos", simpleFunc gm.acos), ("atan", simpleFunc gm.atan), ("sinh", simpleFunc gm.sinh),
    ("cosh", simpleFunc gm.cosh), ("tanh", simpleFunc gm.tanh), ("asinh", simpleFunc gm.asinh),
    ("acosh", simpleFunc gm.acosh), ("atanh", simpleFunc gm.atanh),
    ("rad", simpleFunc fun v => v * mathPi / 180), ("deg", simpleFunc fun v => v * 180 / mathPi),
    ("sgn", simpleFunc sgn), ("round", round), ("pi", pi), ("vector", vector), ("clamp", clamp),
    ("clamp_min", clampMin), ("clamp_max", clampMax),
    ("histogram_sum", histogramCall hf.sum), ("histogram_count", histogramCall hf.count),
    ("histogram_avg", histogramCall fun h => hf.sum h / hf.count h),
    ("histogram_stddev", histogramCall (histogramStdDev hf)),
    ("histogram_stdvar", histogramCall (histogramStdVar hf)),
    ("days_in_month", dateCall daysInMonth), ("day_of_month", dateCall dayOfMonth),
    ("day_of_week", dateCall dayOfWeek), ("day_of_year", dateCall dayOfYear),
    ("hour", dateCall hour), ("minute", dateCall minute), ("month", dateCall month),
    ("year", dateCall year),
    ("sort", simpleFunc fun v => v), ("sort_desc", simpleFunc fun v => v),
    ("sort_by_label", simpleFunc fun v => v), ("sort_by_label_desc", simpleFunc fun v => v)]

/-- `noArgFunctionCall`: a function of the step's timestamp. -/
abbrev NoArgFunctionCall := Int → Float

/-- `noArgFuncs`, in the order of the source. -/
def noArgFuncs : List (String × NoArgFunctionCall) :=
  [("pi", fun _ => mathPi), ("time", fun t => Float.ofInt t / 1000),
    ("days_in_month", fun t => daysInMonth (dateFromStepTime t)),
    ("day_of_month", fun t => dayOfMonth (dateFromStepTime t)),
    ("day_of_week", fun t => dayOfWeek (dateFromStepTime t)),
    ("day_of_year", fun t => dayOfYear (dateFromStepTime t)),
    ("hour", fun t => hour (dateFromStepTime t)),
    ("minute", fun t => minute (dateFromStepTime t)),
    ("month", fun t => month (dateFromStepTime t)),
    ("year", fun t => year (dateFromStepTime t))]

/-! ## The date functions -/

theorem day_ofDate_32 {y m : Int} (h₁ : 1 ≤ m) (h₂ : m ≤ 12) (hy : absoluteZeroYear ≤ y)
    (hfit : (daysOfDate y m 32 + unixToAbsolute / 86400) * 86400 < 2 ^ 64) :
    (Time.ofDate y m 32).day = 32 - daysIn m y := by
  have hr := daysIn_range h₁ h₂ y
  have hn := nextMonth_range y m h₁ h₂
  have hn' := daysIn_range hn.1 hn.2 (nextMonth y m).1
  have hc := daysOfDate_carry h₁ h₂ y (32 - daysIn m y)
  rw [show daysIn m y + (32 - daysIn m y) = 32 by omega] at hc
  rw [Time.day, Time.days_ofDate hy (by omega) hfit, hc,
    dateOfDays_daysOfDate hn.1 hn.2 (by omega) (by omega)]

theorem day_ofDate_32_of_inRange {t : Time} (h : t.InRange) :
    (Time.ofDate t.year t.month 32).day = 32 - daysIn t.month t.year := by
  obtain ⟨h₁, h₂, -⟩ := t.date_valid
  obtain ⟨hy, hfit⟩ := Time.ofDate_32_fits h
  exact day_ofDate_32 h₁ h₂ hy hfit

set_option maxRecDepth 2000 in
/-- Out of range the wrap shows: the `int64` seconds of `-9.2233720287154e18`
are read in November of the year 292277026854, and day 32 of that month wraps
past the end of `uint64` to day 23 of the absolute epoch's January. -/
example : 32 - (Time.ofDate (⟨-9223372028715400192⟩ : Time).year (⟨-9223372028715400192⟩ : Time).month 32).day = 9 := by
  decide

/-- **The date functions stay in their calendar ranges**, on every time:
the month, the day of the month, of the week and of the year, the hour and
the minute, through Go's wraparound too.  Where the absolute seconds do not
wrap, `day_of_month` never passes `days_in_month`, which is `28` to `31`. -/
theorem date_functions_range (t : Time) :
    (∃ m, month t = Float.ofInt m ∧ 1 ≤ m ∧ m ≤ 12) ∧
      (∃ d, dayOfMonth t = Float.ofInt d ∧ 1 ≤ d ∧ d ≤ 31) ∧
      (∃ w, dayOfWeek t = Float.ofInt w ∧ 0 ≤ w ∧ w ≤ 6) ∧
      (∃ d, dayOfYear t = Float.ofInt d ∧ 1 ≤ d ∧ d ≤ 365 + if isLeap t.year then 1 else 0) ∧
      (∃ h, hour t = Float.ofInt h ∧ 0 ≤ h ∧ h ≤ 23) ∧
      (∃ m, minute t = Float.ofInt m ∧ 0 ≤ m ∧ m ≤ 59) ∧
      (t.InRange → ∃ d n, dayOfMonth t = Float.ofInt d ∧ daysInMonth t = Float.ofInt n ∧ d ≤ n ∧
        28 ≤ n ∧ n ≤ 31) := by
  obtain ⟨h₁, h₂, hd₁, hd₂, hz⟩ := t.date_valid
  have hr := daysIn_range h₁ h₂ t.year
  have hy := dayOfYear_range h₁ h₂ hd₁ hd₂
  rw [hz] at hy
  refine ⟨⟨_, rfl, h₁, h₂⟩, ⟨_, rfl, hd₁, by omega⟩, ⟨_, rfl, ?_⟩, ⟨_, rfl, hy⟩, ⟨_, rfl, ?_⟩, ⟨_, rfl, ?_⟩,
    fun h => ⟨t.day, daysIn t.month t.year, rfl,
      by rw [daysInMonth, day_ofDate_32_of_inRange h, sub_sub_cancel], hd₂, hr⟩⟩ <;>
    simp only [Time.weekday, Time.hour, Time.minute] <;> omega

theorem dateFromSampleValue_of_isNaN {f : Float} (h : f.isNaN) : dateFromSampleValue f = ⟨-2 ^ 63⟩ := by
  simp [dateFromSampleValue, int64OfFloat, h]

set_option maxRecDepth 2000 in
/-- `int64(NaN)` is `-2^63`, which `abs()` reads 15:30 in the year 292277026596. -/
example {f : Float} (h : f.isNaN) : (dateFromSampleValue f).year = 292277026596 ∧
    (dateFromSampleValue f).hour = 15 ∧ (dateFromSampleValue f).minute = 30 := by
  rw [dateFromSampleValue_of_isNaN h]
  exact ⟨rfl, rfl, rfl⟩

end PromqlEngine
