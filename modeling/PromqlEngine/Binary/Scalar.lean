import PromqlEngine.Binary.ElemBinop

/-!
# `PromqlEngine.Binary.Scalar` — a vector against a scalar

`scalarOperator` combines each sample of its vector child with the scalar of
the step, through the `operation` that `newOperation` builds for the operator
and the side of the scalar, and each histogram through the histogram
operation.  Both come from outside `src/`, so they are parameters here.  Its
`Series()` is the child's, with `__name__` dropped where
`shouldDropMetricName` says; `loadSeries` runs once, from whichever of
`Series` and `Next` comes first.

**Proved here.**

    a step of `Next` keeps the timestamp of its input step, and
    carries only IDs of it                                         (`evalStep_ids`)
-/

namespace PromqlEngine

/-- `ScalarSide`: which operand is the scalar. -/
inductive ScalarSide
  | both
  | left
  | right
deriving DecidableEq, Repr

/-- `extlabels.DropMetricName`, modelled from the spec: the label set without
its `__name__`. -/
def dropMetricName (ls : Labels) : Labels := ls.filter (·.name ≠ metricName)

/-- The binary `scalarOperator`, without its children, pool and telemetry.
`floatOp` is the `operation` of `newOperation(op, scalarSide != ScalarSideBoth)`
and `histOp` the result of `getHistogramFloatOperation(op, scalarSide)`. -/
structure ScalarOperator (H : Type) where
  seriesOnce : Bool
  series : List Labels
  opType : ItemType
  scalarSide : ScalarSide
  returnBool : Bool
  floatOp : Float × Float → Nat → Float × Bool
  histOp : H → Float → Option H

namespace ScalarOperator

variable {H : Type}

/-- `NewScalar`, once `newOperation` has succeeded. -/
def newScalar (floatOp : Float × Float → Nat → Float × Bool) (histOp : H → Float → Option H)
    (op : ItemType) (scalarSide : ScalarSide) (returnBool : Bool) : ScalarOperator H :=
  ⟨false, [], op, scalarSide, returnBool, floatOp, histOp⟩

/-- `bothScalars`. -/
def bothScalars (o : ScalarOperator H) : Bool := o.scalarSide = .both

/-- `operandValIdx`: `1` when the scalar is on the left. -/
def operandValIdx (o : ScalarOperator H) : Nat := if o.scalarSide = .left then 1 else 0

/-- `getOperands`: `getOperandsScalarLeft` when the scalar is on the left,
`getOperandsScalarRight` otherwise. -/
def getOperands (o : ScalarOperator H) (v scalar : Float) : Float × Float :=
  if o.scalarSide = .left then (scalar, v) else (v, scalar)

/-- `scalarOperator.loadSeries`: the child's series, `__name__` dropped from
the non-empty ones when `shouldDropMetricName` holds. -/
def loadSeries (o : ScalarOperator H) (vectorSeries : Except Err (List Labels)) :
    Except Err (List Labels) :=
  vectorSeries.map fun vs => vs.map fun ls =>
    if ls.isEmpty then ls
    else if shouldDropMetricName o.opType o.returnBool then dropMetricName ls else ls

/-- `seriesOnce.Do(loadSeries)`: the error of the first run only; a failed
run leaves `series` as it was. -/
def seriesOnceDo (o : ScalarOperator H) (vectorSeries : Except Err (List Labels)) :
    Option Err × ScalarOperator H :=
  if o.seriesOnce then (none, o)
  else
    match o.loadSeries vectorSeries with
    | .error e => (some e, { o with seriesOnce := true })
    | .ok series => (none, { o with seriesOnce := true, series := series })

/-- `scalarOperator.Series`. -/
def callSeries (o : ScalarOperator H) (vectorSeries : Except Err (List Labels)) :
    Except Err (List Labels) × ScalarOperator H :=
  match o.seriesOnceDo vectorSeries with
  | (some e, o) => (.error e, o)
  | (none, o) => (.ok o.series, o)

/-- The scalar of step `v`: its first sample, or `NaN`. -/
def scalarVal (scalarIn : Batch H) (v : Nat) : Float :=
  match scalarIn[v]? with
  | some sv =>
    match sv.samples with
    | (_, x) :: _ => x
    | [] => 0 / 0
  | none => 0 / 0

/-- The sample loop of `Next` on one step. -/
def evalSamples (o : ScalarOperator H) (scalar : Float) :
    List (UInt64 × Float) → StepVector UInt64 H → StepVector UInt64 H
  | [], step => step
  | (id, x) :: rest, step =>
    let (val, keep) := o.floatOp (o.getOperands x scalar) o.operandValIdx
    if o.returnBool then
      evalSamples o scalar rest
        (step.appendSample id (if !o.bothScalars then (if keep then 1 else 0) else val))
    else if !keep then evalSamples o scalar rest step
    else evalSamples o scalar rest (step.appendSample id val)

/-- The histogram loop of `Next` on one step: a nil result is dropped. -/
def evalHistograms (o : ScalarOperator H) (scalar : Float) :
    List (UInt64 × Option H) → StepVector UInt64 H → StepVector UInt64 H
  | [], step => step
  | (id, h) :: rest, step =>
    match h.bind fun h => o.histOp h scalar with
    | some val => evalHistograms o scalar rest (step.appendHistogram id (some val))
    | none => evalHistograms o scalar rest step

/-- One step of `Next`, the `v`-th of the batch. -/
def evalStep (o : ScalarOperator H) (scalarIn : Batch H) (v : Nat) (vector : StepVector UInt64 H) :
    StepVector UInt64 H :=
  let scalar := scalarVal scalarIn v
  o.evalHistograms scalar vector.histograms (o.evalSamples scalar vector.samples (.empty vector.t))

/-- `scalarOperator.Next`: the vector child first, then `seriesOnce`, then the
scalar child.  The children's batches are `none` for a nil slice. -/
def next (o : ScalarOperator H) (ctx : Context) (vectorSeries : Except Err (List Labels))
    (input : Except Err (Option (Batch H))) (scalarIn : Except Err (Batch H)) :
    Except Err (Option (Batch H)) × ScalarOperator H :=
  match ctx.err with
  | some e => (.error e, o)
  | none =>
    match input with
    | .error e => (.error e, o)
    | .ok none => (.ok none, o)
    | .ok (some batch) =>
      match o.seriesOnceDo vectorSeries with
      | (some e, o) => (.error e, o)
      | (none, o) =>
        match scalarIn with
        | .error e => (.error e, o)
        | .ok scalarIn => (.ok (some (batch.enum.map fun p => o.evalStep scalarIn p.1 p.2)), o)

/-! ## `Series` and `Next` -/

theorem evalSamples_frame (o : ScalarOperator H) (scalar : Float) :
    ∀ (xs : List (UInt64 × Float)) (step : StepVector UInt64 H),
      (o.evalSamples scalar xs step).t = step.t ∧
        (o.evalSamples scalar xs step).histograms = step.histograms
  | [], _ => ⟨rfl, rfl⟩
  | (x, v) :: rest, step => by
    unfold evalSamples
    dsimp only
    split_ifs <;> exact evalSamples_frame o scalar rest _

theorem evalSamples_ids (o : ScalarOperator H) (scalar : Float) :
    ∀ (xs : List (UInt64 × Float)) (step : StepVector UInt64 H),
      (o.evalSamples scalar xs step).sampleIDs ⊆ step.sampleIDs ++ xs.map Prod.fst
  | [], _ => fun _ h => List.mem_append_left _ h
  | (x, v) :: rest, step => by
    unfold evalSamples
    dsimp only
    split_ifs <;> refine (evalSamples_ids o scalar rest _).trans fun a ha => ?_ <;>
      simp only [StepVector.sampleIDs_appendSample, List.mem_append, List.mem_singleton,
        List.map_cons, List.mem_cons] at ha ⊢ <;> tauto

theorem evalHistograms_ids (o : ScalarOperator H) (scalar : Float) :
    ∀ (xs : List (UInt64 × Option H)) (step : StepVector UInt64 H),
      (o.evalHistograms scalar xs step).t = step.t ∧
        (o.evalHistograms scalar xs step).samples = step.samples ∧
          (o.evalHistograms scalar xs step).histogramIDs ⊆ step.histogramIDs ++ xs.map Prod.fst
  | [], _ => ⟨rfl, rfl, fun _ h => List.mem_append_left _ h⟩
  | (x, hx) :: rest, step => by
    unfold evalHistograms
    split
    · obtain ⟨ht, hs, hids⟩ := evalHistograms_ids o scalar rest (step.appendHistogram x _)
      refine ⟨ht, hs, hids.trans fun a ha => ?_⟩
      simp only [StepVector.histogramIDs_appendHistogram, List.mem_append, List.mem_singleton,
        List.map_cons, List.mem_cons] at ha ⊢
      tauto
    · obtain ⟨ht, hs, hids⟩ := evalHistograms_ids o scalar rest step
      refine ⟨ht, hs, hids.trans fun a ha => ?_⟩
      simp only [List.mem_append, List.map_cons, List.mem_cons] at ha ⊢
      tauto

/-- The IDs of a step of `Next` are those of its input step. -/
theorem evalStep_ids (o : ScalarOperator H) (scalarIn : Batch H) (v : Nat)
    (vector : StepVector UInt64 H) :
    (o.evalStep scalarIn v vector).t = vector.t ∧
      (o.evalStep scalarIn v vector).sampleIDs ⊆ vector.sampleIDs ∧
        (o.evalStep scalarIn v vector).histogramIDs ⊆ vector.histogramIDs := by
  obtain ⟨ht, hs, hids⟩ := evalHistograms_ids o (scalarVal scalarIn v) vector.histograms
    (o.evalSamples (scalarVal scalarIn v) vector.samples (.empty vector.t))
  obtain ⟨ht', hh'⟩ := evalSamples_frame o (scalarVal scalarIn v) vector.samples (.empty vector.t)
  refine ⟨ht.trans ht', ?_, ?_⟩
  · rw [evalStep, StepVector.sampleIDs, hs, ← StepVector.sampleIDs]
    exact (evalSamples_ids o _ vector.samples _).trans fun a ha => by
      simpa [StepVector.empty, StepVector.sampleIDs] using ha
  · refine hids.trans fun a ha => ?_
    rw [List.mem_append, StepVector.histogramIDs, hh'] at ha
    simpa [StepVector.histogramIDs, StepVector.empty] using ha

end ScalarOperator

end PromqlEngine
