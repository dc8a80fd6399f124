import PromqlEngine.Binary.JoinTables

/-!
# `PromqlEngine.Binary.Vector` — `vectorOperator`: `Series`, `Next` and the step loops

Everything `Next` does after initialisation is a sequence of loops over the
samples of one step, reading and writing join buckets.  Each loop is a
structurally recursive function that threads a `Store` — the buckets, named
by signature, and the query's warnings — and returns `Except Err _` with the
store as it stood when the loop returned or failed: a bucket written before
an error stays written, as in the source.

The two loops of `and` and `unless`, and the second loop of `or`, are the
same loop with a different bucket update or a different choice of output ID:
`markSamples` and `emitSamples`.  The first loop of `or` marks and emits at
once and keeps its own body, `markOr`.  The arithmetic path has its own
loops: `claimLowCard` (for samples and histograms alike), then
`joinHighCardSamples` and `joinHighCardHistograms`.

`init` reads the children's `Series()` results, which are inputs here, as
are the batches the children return to each `Next`.
-/

namespace PromqlEngine

/-- What the loops of one step change besides the operator's fields: the join
buckets, named by signature, and the warnings of the query's context. -/
structure Store (H : Type) where
  buckets : UInt64 → JoinBucket H
  warnings : List Warning

namespace Store

variable {H : Type}

/-- The store before `init` runs; `init` allocates the buckets anew. -/
def empty : Store H := ⟨fun _ => JoinBucket.new, []⟩

/-- Write bucket `k`. -/
def setBucket (s : Store H) (k : UInt64) (b : JoinBucket H) : Store H :=
  { s with buckets := Function.update s.buckets k b }

/-- `warnings.AddToContext(err, ctx)`: a nil error adds nothing. -/
def warn (s : Store H) : Option Warning → Store H
  | some w => { s with warnings := s.warnings ++ [w] }
  | none => s

@[simp] theorem setBucket_buckets (s : Store H) (k : UInt64) (b : JoinBucket H) :
    (s.setBucket k b).buckets = Function.update s.buckets k b := rfl

@[simp] theorem warn_buckets (s : Store H) (w : Option Warning) :
    (s.warn w).buckets = s.buckets := by
  cases w <;> rfl

/-- Go's early return on `err != nil` between two loops: the second runs on
the store the first left, and an error keeps that store. -/
def andThen {α β : Type} (p : Except Err α × Store H)
    (f : α → Store H → Except Err β × Store H) : Except Err β × Store H :=
  match p with
  | (.error e, s) => (.error e, s)
  | (.ok a, s) => f a s

@[simp] theorem andThen_error {α β : Type} (e : Err) (s : Store H)
    (f : α → Store H → Except Err β × Store H) : andThen (.error e, s) f = (.error e, s) := rfl

@[simp] theorem andThen_ok {α β : Type} (a : α) (s : Store H)
    (f : α → Store H → Except Err β × Store H) : andThen (.ok a, s) f = f a s := rfl

end Store

/-- What the two children return to one `Next`. -/
structure Pull (H : Type) where
  lhs : Except Err (Batch H)
  rhs : Except Err (Batch H)

namespace VectorOperator

variable {H : Type} (hops : HistogramOps H)

/-- `vectorOperator.computeBinaryPairing`: the kernel, with the operands put
back in lhs, rhs order for one-to-many matching. -/
def computeBinaryPairing (o : VectorOperator) (lhs rhs : Float) (hlhs hrhs : Option H) :
    Option (BinopResult H) :=
  if o.matching.card = .oneToMany then vectorElemBinop hops o.opType rhs lhs hrhs hlhs
  else vectorElemBinop hops o.opType lhs rhs hlhs hrhs

/-- `vectorOperator.newManyToManyMatchErrorOnLowCardSide`. -/
def newManyToManyMatchErrorOnLowCardSide (o : VectorOperator)
    (originalSampleId duplicateSampleId : UInt64) : Err :=
  let (side, labels) :=
    if o.matching.card = .oneToMany then (BinOpSide.lhs, o.lhsSampleIDs)
    else (BinOpSide.rhs, o.rhsSampleIDs)
  match index labels duplicateSampleId, index labels originalSampleId with
  | .ok dup, .ok orig => .manyToManyMatch o.matching dup orig side
  | _, _ => indexOutOfRange

/-- `vectorOperator.newImplicitManyToOneError`. -/
def newImplicitManyToOneError : Err :=
  .msg "multiple matches for labels: many-to-one matching must be explicit (group_left/group_right)"

/-- The panic closing `vectorElemBinop`. -/
def opNotAllowed (o : VectorOperator) : Err :=
  .panic ("operator " ++ o.opType.str ++ " not allowed for operations between Vectors")

/-! ## The set operators -/

/-- A marking loop of `and` and `unless`: each sample's bucket is rewritten
by `mark`, given the sample's ID. -/
def markSamples (buckets : List UInt64) (mark : UInt64 → JoinBucket H → JoinBucket H) :
    List (UInt64 × Float) → Store H → Except Err Unit × Store H
  | [], s => (.ok (), s)
  | (sampleID, _) :: rest, s =>
    match index buckets sampleID with
    | .error e => (.error e, s)
    | .ok k => markSamples buckets mark rest (s.setBucket k (mark sampleID (s.buckets k)))

/-- An emitting loop of the set operators: a sample is appended under the ID
`out` reads off its bucket, or skipped when `out` gives none. -/
def emitSamples (buckets : List UInt64) (out : UInt64 → JoinBucket H → Option UInt64) :
    List (UInt64 × Float) → StepVector UInt64 H → Store H → Except Err (StepVector UInt64 H)
  | [], step, _ => .ok step
  | (sampleID, v) :: rest, step, s =>
    match index buckets sampleID with
    | .error e => .error e
    | .ok k =>
      emitSamples buckets out rest
        (match out sampleID (s.buckets k) with
          | some id => step.appendSample id v
          | none => step) s

/-- The first loop of `execBinaryOr`: every lhs sample marks its bucket and is
appended. -/
def markOr (o : VectorOperator) (ts : Int) :
    List (UInt64 × Float) → StepVector UInt64 H → Store H →
      Except Err (StepVector UInt64 H) × Store H
  | [], step, s => (.ok step, s)
  | (sampleID, v) :: rest, step, s =>
    match index o.hcJoinBuckets sampleID with
    | .error e => (.error e, s)
    | .ok k =>
      markOr o ts rest (step.appendSample (o.outputSeriesID (sampleID + 1) 0) v)
        (s.setBucket k { s.buckets k with ats := ts })

/-- `vectorOperator.execBinaryAnd`. -/
def execBinaryAnd (o : VectorOperator) (lhs rhs : StepVector UInt64 H) (s : Store H) :
    Except Err (StepVector UInt64 H) × Store H :=
  let ts := lhs.t
  Store.andThen
    (markSamples o.lcJoinBuckets (fun sampleID jp => { jp with sid := sampleID, ats := ts })
      rhs.samples s) fun _ s =>
    (emitSamples o.hcJoinBuckets
      (fun sampleID jp =>
        if jp.ats = ts then some (o.outputSeriesID (sampleID + 1) (jp.sid + 1)) else none)
      lhs.samples (.empty ts) s, s)

/-- `vectorOperator.execBinaryOr`. -/
def execBinaryOr (o : VectorOperator) (lhs rhs : StepVector UInt64 H) (s : Store H) :
    Except Err (StepVector UInt64 H) × Store H :=
  let ts := lhs.t
  Store.andThen (o.markOr ts lhs.samples (.empty ts) s) fun step s =>
    (emitSamples o.lcJoinBuckets
      (fun sampleID jp => if jp.ats ≠ ts then some (o.outputSeriesID 0 (sampleID + 1)) else none)
      rhs.samples step s, s)

/-- `vectorOperator.execBinaryUnless`. -/
def execBinaryUnless (o : VectorOperator) (lhs rhs : StepVector UInt64 H) (s : Store H) :
    Except Err (StepVector UInt64 H) × Store H :=
  let ts := lhs.t
  Store.andThen
    (markSamples o.lcJoinBuckets (fun _ jp => { jp with ats := ts }) rhs.samples s) fun _ s =>
    (emitSamples o.hcJoinBuckets
      (fun sampleID jp => if jp.ats ≠ ts then some (o.outputSeriesID (sampleID + 1) 0) else none)
      lhs.samples (.empty ts) s, s)

/-! ## Arithmetic and comparison -/

/-- The low-card loops of `execBinaryArithmetic`, for samples and for
histograms: each element claims its bucket with `claim`; a bucket already
claimed at this step is a many-to-many match. -/
def claimLowCard {X : Type} (o : VectorOperator) (ts : Int)
    (claim : UInt64 → X → JoinBucket H → JoinBucket H) :
    List (UInt64 × X) → Store H → Except Err Unit × Store H
  | [], s => (.ok (), s)
  | (id, x) :: rest, s =>
    match index o.lcJoinBuckets id with
    | .error e => (.error e, s)
    | .ok k =>
      if (s.buckets k).ats = ts then
        (.error (o.newManyToManyMatchErrorOnLowCardSide (s.buckets k).sid id), s)
      else claimLowCard o ts claim rest (s.setBucket k (claim id x (s.buckets k)))

/-- The high-card sample loop of `execBinaryArithmetic`. -/
def joinHighCardSamples (o : VectorOperator) (ts : Int) :
    List (UInt64 × Float) → StepVector UInt64 H → Store H →
      Except Err (StepVector UInt64 H) × Store H
  | [], step, s => (.ok step, s)
  | (sampleID, v) :: rest, step, s =>
    match index o.hcJoinBuckets sampleID with
    | .error e => (.error e, s)
    | .ok k =>
      let jp := s.buckets k
      if jp.ats ≠ ts then joinHighCardSamples o ts rest step s
      else if jp.bts = ts ∧ o.matching.card = .oneToOne then (.error newImplicitManyToOneError, s)
      else
        let s := s.setBucket k { jp with bts := ts }
        match o.computeBinaryPairing hops v jp.val none none with
        | none => (.error o.opNotAllowed, s)
        | some (f, _, keep, err) =>
          let out := o.outputSeriesID (sampleID + 1) (jp.sid + 1)
          if o.returnBool then
            joinHighCardSamples o ts rest (step.appendSample out (if keep then 1 else 0)) (s.warn err)
          else if keep then joinHighCardSamples o ts rest (step.appendSample out f) (s.warn err)
          else joinHighCardSamples o ts rest step (s.warn err)

/-- The high-card histogram loop of `execBinaryArithmetic`. -/
def joinHighCardHistograms (o : VectorOperator) (ts : Int) :
    List (UInt64 × Option H) → StepVector UInt64 H → Store H →
      Except Err (StepVector UInt64 H) × Store H
  | [], step, s => (.ok step, s)
  | (hID, h) :: rest, step, s =>
    match index o.hcJoinBuckets hID with
    | .error e => (.error e, s)
    | .ok k =>
      let jp := s.buckets k
      if jp.ats ≠ ts then joinHighCardHistograms o ts rest step s
      else if jp.bts = ts ∧ o.matching.card = .oneToOne then (.error newImplicitManyToOneError, s)
      else
        let s := s.setBucket k { jp with bts := ts }
        match o.computeBinaryPairing hops 0 0 h jp.hval with
        | none => (.error o.opNotAllowed, s)
        | some (_, h', _, err) =>
          joinHighCardHistograms o ts rest
            (step.appendHistogram (o.outputSeriesID (hID + 1) (jp.sid + 1)) h') (s.warn err)

/-- The `switch o.matching.Card` of `execBinaryArithmetic`: the high- and
low-card steps. -/
def highLowCard (o : VectorOperator) (lhs rhs : StepVector UInt64 H) :
    Option (StepVector UInt64 H × StepVector UInt64 H) :=
  match o.matching.card with
  | .manyToOne | .oneToOne => some (lhs, rhs)
  | .oneToMany => some (rhs, lhs)
  | .manyToMany => none

/-- `vectorOperator.execBinaryArithmetic`. -/
def execBinaryArithmetic (o : VectorOperator) (lhs rhs : StepVector UInt64 H) (s : Store H) :
    Except Err (StepVector UInt64 H) × Store H :=
  let ts := lhs.t
  match o.highLowCard lhs rhs with
  | none => (.error (.msg ("Unexpected matching cardinality: " ++ o.matching.card.toString)), s)
  | some (hcs, lcs) =>
    if hcs.samples.isEmpty then (.ok (.empty ts), s)
    else
      Store.andThen
        (o.claimLowCard ts (fun sampleID v jp => { jp with sid := sampleID, val := v, ats := ts })
          lcs.samples s) fun _ s =>
      Store.andThen
        (o.claimLowCard ts (fun hID h jp => { jp with hid := hID, hval := h, ats := ts })
          lcs.histograms s) fun _ s =>
      Store.andThen (o.joinHighCardSamples hops ts hcs.samples (.empty ts) s) fun step s =>
      o.joinHighCardHistograms hops ts hcs.histograms step s

/-- `vectorOperator.execBinaryOperation`. -/
def execBinaryOperation (o : VectorOperator) (lhs rhs : StepVector UInt64 H) (s : Store H) :
    Except Err (StepVector UInt64 H) × Store H :=
  match o.opType with
  | .land => o.execBinaryAnd lhs rhs s
  | .lor => o.execBinaryOr lhs rhs s
  | .lunless => o.execBinaryUnless lhs rhs s
  | _ => o.execBinaryArithmetic hops lhs rhs s

/-- The batch loop of `Next`: the `i`-th steps of both sides, while both
have one; the first error ends the call. -/
def execBatch (o : VectorOperator) : Batch H → Batch H → Store H → Except Err (Batch H) × Store H
  | l :: ls, r :: rs, s =>
    Store.andThen (o.execBinaryOperation hops l r s) fun step s =>
    Store.andThen (execBatch o ls rs s) fun steps s => (.ok (step :: steps), s)
  | _, _, s => (.ok [], s)

/-! ## Initialisation, `Series` and `Next` -/

/-- The `(highCardSide, lowCardSide)` of `init`: the children's series,
swapped for one-to-many matching. -/
def sides (o : VectorOperator) (lhsSeries rhsSeries : List Labels) : List Labels × List Labels :=
  if o.matching.card = .oneToMany then (rhsSeries, lhsSeries) else (lhsSeries, rhsSeries)

variable (hash : Labels → UInt64)

/-- `vectorOperator.init`: the rhs error is looked at first. -/
def init (o : VectorOperator) (lhsSeries rhsSeries : Except Err (List Labels)) (s : Store H) :
    Except Err Unit × VectorOperator × Store H :=
  match rhsSeries, lhsSeries with
  | .error e, _ => (.error e, o, s)
  | .ok _, .error e => (.error e, o, s)
  | .ok rhsSeries, .ok lhsSeries =>
    let o := { o with lhsSampleIDs := lhsSeries, rhsSampleIDs := rhsSeries }
    (.ok (), o.initJoinTables hash (o.sides lhsSeries rhsSeries).1 (o.sides lhsSeries rhsSeries).2,
      { s with buckets := fun _ => JoinBucket.new })

/-- `vectorOperator.initOnce`: `init` runs on the first call only, and its
error is returned to that call only. -/
def initOnce (o : VectorOperator) (lhsSeries rhsSeries : Except Err (List Labels))
    (s : Store H) : Except Err Unit × VectorOperator × Store H :=
  if o.once then (.ok (), o, s)
  else init hash { o with once := true } lhsSeries rhsSeries s

/-- `vectorOperator.Series` (`series` is the field it returns). -/
def callSeries (o : VectorOperator) (lhsSeries rhsSeries : Except Err (List Labels))
    (s : Store H) : Except Err (List Labels) × VectorOperator × Store H :=
  match initOnce hash o lhsSeries rhsSeries s with
  | (.error e, o, s) => (.error e, o, s)
  | (.ok (), o, s) => (.ok o.series, o, s)

/-- `vectorOperator.Next`.  `rhs.Next` runs on this goroutine and `lhs.Next`
on another; the rhs error is looked at first. -/
def next (o : VectorOperator) (ctx : Context) (lhsSeries rhsSeries : Except Err (List Labels))
    (pull : Pull H) (s : Store H) : Except Err (Batch H) × VectorOperator × Store H :=
  match ctx.err with
  | some e => (.error e, o, s)
  | none =>
    match initOnce hash o lhsSeries rhsSeries s with
    | (.error e, o, s) => (.error e, o, s)
    | (.ok (), o, s) =>
      match pull.rhs, pull.lhs with
      | .error e, _ => (.error e, o, s)
      | .ok _, .error e => (.error e, o, s)
      | .ok rhs, .ok lhs =>
        if lhs.isEmpty || rhs.isEmpty then (.ok [], o, s)
        else ((o.execBatch hops lhs rhs s).1, o, (o.execBatch hops lhs rhs s).2)

/-- A run of `Next` calls under a live context, the children's `Series()`
fixed: the result of each call. -/
def run (o : VectorOperator) (lhsSeries rhsSeries : Except Err (List Labels)) :
    List (Pull H) → Store H → List (Except Err (Batch H))
  | [], _ => []
  | p :: ps, s =>
    let r := o.next hops hash .background lhsSeries rhsSeries p s
    r.1 :: run r.2.1 lhsSeries rhsSeries ps r.2.2

end VectorOperator

end PromqlEngine
