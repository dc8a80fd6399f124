import Mathlib.Tactic.Ring

/-!
# `PromqlEngine.Telemetry` — tracked telemetry and its step interval

With `EnableAnalysis`, every operator carries a `TrackedTelemetry`, built by
`NewTrackedTelemetry`; otherwise a `NoopTelemetry`, whose getters return `0`.
`NewTrackedTelemetry` starts the per-step sample tracking of its
`stats.QuerySamples` with the query's start and end in milliseconds and the
interval `StepTrackingInterval(opts.Step)`, which the tracker divides each
sample's timestamp offset by.  `StepTrackingInterval` sends a step of `0` (an
instant query) to `1`, and any other step to whole milliseconds, by Go's
truncating division: every step strictly between `0` and one millisecond
gives the interval `0`.

The tracked counters add each duration they are given: `SeriesTime` the
`Series` times, `NextTime` the `Next` times, and `ExecutionTime` both, and
also the times given to `AddExecutionTimeTaken`, a method outside
`OperatorTelemetry`.

A `time.Duration` is an `int64` count of nanoseconds, modelled as `Int`.
Go's `+` on it wraps, and is `wrapInt64` of the sum here.  The one division,
by the positive constant `time.Millisecond / time.Nanosecond`, cannot
overflow.

**Proved here.**

    for every step `≥ 0` the interval is `≥ 0`, and `≥ 1` exactly
    when the step is `0` or at least one millisecond            (`newTrackedTelemetry_interval`)
    after any calls, `ExecutionTime` is `SeriesTime + NextTime`
    plus what `AddExecutionTimeTaken` was given                  (`run_executionTime`)
    through `OperatorTelemetry`, `ExecutionTimeTaken()` is
    `SeriesExecutionTime() + NextExecutionTime()`, for both flavours (`interface_executionTimeTaken`)
-/

namespace PromqlEngine

/-! ## `time.Duration` -/

/-- `time.Nanosecond`; a `time.Duration` counts nanoseconds. -/
def nanosecond : Int := 1

/-- `time.Millisecond`. -/
def millisecond : Int := 1000000

/-- Go's two's-complement wrap of an `int64` result. -/
def wrapInt64 (x : Int) : Int := (x + 2 ^ 63) % 2 ^ 64 - 2 ^ 63

/-! ## The step interval -/

/-- `query.Options`, with the fields the telemetry constructors read; the
start and end are given as `UnixMilli()` gives them. -/
structure Options where
  startMilli : Int
  endMilli : Int
  step : Int
  enableAnalysis : Bool
  enablePerStepStats : Bool

/-- The `stats.QuerySamples` of a tracked telemetry, as `NewTrackedTelemetry`
sets it up: `NewQuerySamples(enablePerStepStats)`, then
`InitStepTracking(start, end, interval)`. -/
structure QuerySamples where
  enablePerStepStats : Bool
  start : Int
  stop : Int
  interval : Int

/-- `TrackedTelemetry`, without the operator's name and the logical node. -/
structure TrackedTelemetry where
  series : Int
  executionTime : Int
  seriesTime : Int
  nextTime : Int
  loadedSamples : QuerySamples

/-- `StepTrackingInterval`. -/
def stepTrackingInterval (step : Int) : Int :=
  if step = 0 then 1 else step.tdiv (millisecond.tdiv nanosecond)

/-- `NewTrackedTelemetry`: zero counters and a started tracker. -/
def newTrackedTelemetry (opts : Options) : TrackedTelemetry :=
  ⟨0, 0, 0, 0, ⟨opts.enablePerStepStats, opts.startMilli, opts.endMilli, stepTrackingInterval opts.step⟩⟩

theorem millisecond_tdiv_nanosecond : millisecond.tdiv nanosecond = 1000000 := rfl

theorem stepTrackingInterval_of_pos {step : Int} (h : 0 < step) :
    stepTrackingInterval step = step / 1000000 := by
  rw [stepTrackingInterval, if_neg (by omega), millisecond_tdiv_nanosecond,
    Int.tdiv_eq_ediv (by omega) (by decide)]

/-- **The interval of the tracker**: never negative for a step `≥ 0`, and at
least `1` exactly when the step is `0` or at least one millisecond; every step
in between starts the tracker with the interval `0`. -/
theorem newTrackedTelemetry_interval (opts : Options) (h : 0 ≤ opts.step) :
    0 ≤ (newTrackedTelemetry opts).loadedSamples.interval ∧
      (1 ≤ (newTrackedTelemetry opts).loadedSamples.interval ↔
        opts.step = 0 ∨ millisecond ≤ opts.step) := by
  show 0 ≤ stepTrackingInterval opts.step ∧
    (1 ≤ stepTrackingInterval opts.step ↔ opts.step = 0 ∨ millisecond ≤ opts.step)
  rcases h.eq_or_lt with h₀ | hpos
  · simp [stepTrackingInterval, ← h₀]
  · rw [stepTrackingInterval_of_pos hpos, millisecond]
    omega

/-- A range query with a step of one nanosecond starts the tracker with the
interval `0`. -/
theorem newTrackedTelemetry_interval_one_nanosecond :
    (newTrackedTelemetry ⟨0, 60000, nanosecond, true, true⟩).loadedSamples.interval = 0 := by
  obtain ⟨h₀, h₁⟩ := newTrackedTelemetry_interval ⟨0, 60000, nanosecond, true, true⟩ (by decide)
  have h₂ := mt h₁.mp (by decide)
  omega

/-! ## The counters -/

/-- The calls that change a tracked telemetry. -/
inductive TelemetryCall
  | addExecutionTimeTaken (t : Int)
  | addSeriesExecutionTime (t : Int)
  | addNextExecutionTime (t : Int)
  | setMaxSeriesCount (count : Int)

namespace TrackedTelemetry

/-- One call, as the methods of `*TrackedTelemetry` apply it. -/
def apply (ti : TrackedTelemetry) : TelemetryCall → TrackedTelemetry
  | .addExecutionTimeTaken t => { ti with executionTime := wrapInt64 (ti.executionTime + t) }
  | .addSeriesExecutionTime t =>
    { ti with seriesTime := wrapInt64 (ti.seriesTime + t),
              executionTime := wrapInt64 (ti.executionTime + t) }
  | .addNextExecutionTime t =>
    { ti with nextTime := wrapInt64 (ti.nextTime + t),
              executionTime := wrapInt64 (ti.executionTime + t) }
  | .setMaxSeriesCount count => { ti with series := count }

/-- The calls in order. -/
def run (ti : TrackedTelemetry) (calls : List TelemetryCall) : TrackedTelemetry :=
  calls.foldl apply ti

/-- What `AddExecutionTimeTaken` was given, in all. -/
def extraTime : List TelemetryCall → Int
  | [] => 0
  | .addExecutionTimeTaken t :: calls => t + extraTime calls
  | _ :: calls => extraTime calls

/-- `ExecutionTime` is the two other times and `e` more. -/
def Sums (e : Int) (ti : TrackedTelemetry) : Prop :=
  ti.executionTime = wrapInt64 (ti.seriesTime + ti.nextTime + e)

theorem sums_apply {e : Int} {ti : TrackedTelemetry} (h : Sums e ti) (c : TelemetryCall) :
    Sums (e + extraTime [c]) (ti.apply c) := by
  unfold Sums at h ⊢
  cases c <;> simp only [apply, extraTime, h, wrapInt64, Int.reducePow] <;> omega

theorem sums_run : ∀ (calls : List TelemetryCall) (e : Int) (ti : TrackedTelemetry),
    Sums e ti → Sums (e + extraTime calls) (ti.run calls)
  | [], e, ti, h => by simpa [run, extraTime] using h
  | c :: calls, e, ti, h => by
    have := sums_run calls _ _ (sums_apply h c)
    have hsplit : extraTime (c :: calls) = extraTime [c] + extraTime calls := by
      cases c <;> simp [extraTime]
    rwa [run, List.foldl_cons, hsplit, ← Int.add_assoc]

/-- **After any calls on a new tracked telemetry, `ExecutionTime` is
`SeriesTime + NextTime` plus what `AddExecutionTimeTaken` was given**, in
`int64` arithmetic. -/
theorem run_executionTime (opts : Options) (calls : List TelemetryCall) :
    ((newTrackedTelemetry opts).run calls).executionTime =
      wrapInt64 (((newTrackedTelemetry opts).run calls).seriesTime +
        ((newTrackedTelemetry opts).run calls).nextTime + extraTime calls) := by
  simpa using sums_run calls 0 (newTrackedTelemetry opts) (by simp [Sums, newTrackedTelemetry, wrapInt64])

/-- `AddExecutionTimeTaken` counts towards `ExecutionTime` only. -/
example : ((newTrackedTelemetry ⟨0, 0, 0, true, false⟩).run [.addExecutionTimeTaken 3]).executionTime = 3 ∧
    ((newTrackedTelemetry ⟨0, 0, 0, true, false⟩).run [.addExecutionTimeTaken 3]).seriesTime = 0 := by
  decide

end TrackedTelemetry

/-! ## Through `OperatorTelemetry` -/

/-- An `OperatorTelemetry`: `NoopTelemetry` or `*TrackedTelemetry`. -/
inductive Telemetry
  | noop
  | tracked (ti : TrackedTelemetry)

namespace Telemetry

/-- `NewTelemetry`; `NewSubqueryTelemetry` and `NewStepInvariantTelemetry`
differ from it only in the logical node, which is left out. -/
def new (opts : Options) : Telemetry :=
  if opts.enableAnalysis then .tracked (newTrackedTelemetry opts) else .noop

/-- The calls `OperatorTelemetry` has. -/
def InterfaceCall : TelemetryCall → Bool
  | .addExecutionTimeTaken _ => false
  | _ => true

/-- A call; `NoopTelemetry` ignores it. -/
def apply : Telemetry → TelemetryCall → Telemetry
  | .noop, _ => .noop
  | .tracked ti, c => .tracked (ti.apply c)

/-- `ExecutionTimeTaken()`. -/
def executionTimeTaken : Telemetry → Int
  | .noop => 0
  | .tracked ti => ti.executionTime

/-- `SeriesExecutionTime()`. -/
def seriesExecutionTime : Telemetry → Int
  | .noop => 0
  | .tracked ti => ti.seriesTime

/-- `NextExecutionTime()`. -/
def nextExecutionTime : Telemetry → Int
  | .noop => 0
  | .tracked ti => ti.nextTime

theorem foldl_apply_tracked (ti : TrackedTelemetry) (calls : List TelemetryCall) :
    calls.foldl apply (.tracked ti) = .tracked (ti.run calls) := by
  induction calls generalizing ti with
  | nil => rfl
  | cons c calls ih => exact ih (ti.apply c)

theorem foldl_apply_noop (calls : List TelemetryCall) : calls.foldl apply .noop = .noop := by
  induction calls with
  | nil => rfl
  | cons _ _ ih => exact ih

theorem extraTime_eq_zero {calls : List TelemetryCall} (h : ∀ c ∈ calls, InterfaceCall c = true) :
    TrackedTelemetry.extraTime calls = 0 := by
  induction calls with
  | nil => rfl
  | cons c calls ih =>
    have ih := ih fun c' hc' => h c' (List.mem_cons_of_mem _ hc')
    cases c
    case addExecutionTimeTaken t => exact absurd (h _ (List.mem_cons_self _ _)) Bool.false_ne_true
    all_goals exact ih

/-- **Through `OperatorTelemetry`, `ExecutionTimeTaken()` is
`SeriesExecutionTime() + NextExecutionTime()`** after any calls, for both
flavours. -/
theorem interface_executionTimeTaken (opts : Options) (calls : List TelemetryCall)
    (h : ∀ c ∈ calls, InterfaceCall c = true) :
    executionTimeTaken (calls.foldl apply (new opts)) =
      wrapInt64 (seriesExecutionTime (calls.foldl apply (new opts)) +
        nextExecutionTime (calls.foldl apply (new opts))) := by
  unfold new
  split
  · have := TrackedTelemetry.sums_run calls 0 (newTrackedTelemetry opts)
      (by simp [TrackedTelemetry.Sums, newTrackedTelemetry, wrapInt64])
    rw [extraTime_eq_zero h, Int.add_zero, TrackedTelemetry.Sums, Int.add_zero] at this
    simpa [foldl_apply_tracked, executionTimeTaken, seriesExecutionTime, nextExecutionTime]
  · simp [foldl_apply_noop, executionTimeTaken, seriesExecutionTime, nextExecutionTime, wrapInt64]

/-- A `Series` time and a `Next` time, on a tracked telemetry. -/
theorem interface_executionTimeTaken_two_calls :
    executionTimeTaken ([.addSeriesExecutionTime 5, .addNextExecutionTime 7].foldl apply
        (new ⟨0, 60000, millisecond, true, false⟩)) =
      wrapInt64 (seriesExecutionTime ([.addSeriesExecutionTime 5, .addNextExecutionTime 7].foldl apply
          (new ⟨0, 60000, millisecond, true, false⟩)) +
        nextExecutionTime ([.addSeriesExecutionTime 5, .addNextExecutionTime 7].foldl apply
          (new ⟨0, 60000, millisecond, true, false⟩))) :=
  interface_executionTimeTaken _ _ (by decide)

end Telemetry

end PromqlEngine
