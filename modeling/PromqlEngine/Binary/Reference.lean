import PromqlEngine.Binary.Vector

/-!
# `PromqlEngine.Binary.Reference` — what a step computes, from the step alone

The source evaluates a step through join buckets that persist across steps
and calls, and are compared with the step's timestamp.  This module says
what a step should come to without any of that state: which samples are
emitted, keyed by the pair `(hc+1, lc+1)` the source hands to
`outputSeriesID` (`(hc+1, 0)` and `(0, lc+1)` for `or` and `unless`), and
with which value.  Everything here reads only the two steps, the series of
both sides and the operator's configuration.

* `refAnd`: the lhs samples whose signature some rhs sample has, paired with
  the last such rhs sample (the one whose ID the bucket ends up holding);
* `refOr`: every lhs sample, then the rhs samples whose signature no lhs
  sample has;
* `refUnless`: the lhs samples whose signature no rhs sample has;
* `refArithmetic`: empty when the high-card side has no sample; else the
  first low-card signature clash is the many-to-many error; else a walk over
  the high-card samples (`refJoin`).

The high-card side is the rhs under `group_right` and the lhs otherwise
(`refSides`), and the kernel always sees the query's operands in order, lhs
first (`refPair`).  Neither refers to the source's `highLowCard` or
`computeBinaryPairing`; `Binary/Loops.lean` and `Binary/Simulation.lean` prove
that those compute the same.

`Binary/Simulation.lean` proves that a step of the operator is its reference,
with every key sent through `outputSeriesID`, whenever no bucket carries the
step's timestamp.
-/

namespace PromqlEngine

namespace VectorOperator

variable {H : Type} (hops : HistogramOps H)

/-- The signature of series `id` of a side (`0` past the end). -/
def sigOf (o : VectorOperator) (side : List Labels) (id : UInt64) : UInt64 :=
  (side.map o.sigFunc).getD id.toNat 0

/-- Some sample of `xs` has a series of signature `k`. -/
def hasSig (o : VectorOperator) (side : List Labels) (xs : List (UInt64 × Float))
    (k : UInt64) : Bool :=
  xs.any fun x => o.sigOf side x.1 = k

/-- The last sample of `xs` whose series has signature `k`. -/
def lastWithSig (o : VectorOperator) (side : List Labels) (xs : List (UInt64 × Float))
    (k : UInt64) : Option UInt64 :=
  ((xs.filter fun x => o.sigOf side x.1 = k).map Prod.fst).getLast?

/-- `and`, from the step alone. -/
def refAnd (o : VectorOperator) (hcSide lcSide : List Labels) (lhs rhs : StepVector UInt64 H) :
    StepVector (UInt64 × UInt64) H :=
  ⟨lhs.t, lhs.samples.filterMap (fun x =>
    (o.lastWithSig lcSide rhs.samples (o.sigOf hcSide x.1)).map fun lid => ((x.1 + 1, lid + 1), x.2)),
    []⟩

/-- `or`, from the step alone. -/
def refOr (o : VectorOperator) (hcSide lcSide : List Labels) (lhs rhs : StepVector UInt64 H) :
    StepVector (UInt64 × UInt64) H :=
  ⟨lhs.t, lhs.samples.map (fun x => ((x.1 + 1, 0), x.2)) ++
    (rhs.samples.filter fun x => !o.hasSig hcSide lhs.samples (o.sigOf lcSide x.1)).map
      (fun x => ((0, x.1 + 1), x.2)), []⟩

/-- `unless`, from the step alone. -/
def refUnless (o : VectorOperator) (hcSide lcSide : List Labels) (lhs rhs : StepVector UInt64 H) :
    StepVector (UInt64 × UInt64) H :=
  ⟨lhs.t, (lhs.samples.filter fun x => !o.hasSig lcSide rhs.samples (o.sigOf hcSide x.1)).map
    (fun x => ((x.1 + 1, 0), x.2)), []⟩

/-- The first low-card sample whose signature an earlier sample of the step
(in `seen`) has: that earlier sample's ID and its own. -/
def lowCardConflict (o : VectorOperator) (lcSide : List Labels) :
    List (UInt64 × Float) → List (UInt64 × Float) → Option (UInt64 × UInt64)
  | [], _ => none
  | x :: xs, seen =>
    match seen.find? (fun y => o.sigOf lcSide y.1 = o.sigOf lcSide x.1) with
    | some y => some (y.1, x.1)
    | none => lowCardConflict o lcSide xs (seen ++ [x])

/-- The high-card and the low-card side, in that order: `group_right`
(one-to-many) puts the many on the rhs, every other matching on the lhs. -/
def refSides {α : Type} (o : VectorOperator) (lhs rhs : α) : α × α :=
  if o.matching.card = .oneToMany then (rhs, lhs) else (lhs, rhs)

/-- The kernel on a high-card value and a low-card value, with the operands in
the query's order: under `group_right` the high-card value is the rhs. -/
def refPair (o : VectorOperator) (hcVal lcVal : Float) : Option (BinopResult H) :=
  if o.matching.card = .oneToMany then vectorElemBinop hops o.opType lcVal hcVal none none
  else vectorElemBinop hops o.opType hcVal lcVal none none

/-- The walk over the high-card samples of an arithmetic step: a sample whose
signature no low-card sample has is skipped; a second sample of a signature
already matched is, under one-to-one matching, the implicit many-to-one
error; otherwise the kernel combines it with the low-card sample of its
signature.  `matched` holds the signatures matched so far. -/
def refJoin (o : VectorOperator) (hcSide lcSide : List Labels) (lcs : List (UInt64 × Float)) :
    List (UInt64 × Float) → List UInt64 → Except Err (List ((UInt64 × UInt64) × Float))
  | [], _ => .ok []
  | x :: xs, matched =>
    match lcs.find? (fun y => o.sigOf lcSide y.1 = o.sigOf hcSide x.1) with
    | none => refJoin o hcSide lcSide lcs xs matched
    | some y =>
      if o.sigOf hcSide x.1 ∈ matched ∧ o.matching.card = .oneToOne then
        .error newImplicitManyToOneError
      else
        match o.refPair hops x.2 y.2 with
        | none => .error o.opNotAllowed
        | some (f, _, keep, _) =>
          (refJoin o hcSide lcSide lcs xs (o.sigOf hcSide x.1 :: matched)).map fun rest =>
            if o.returnBool then ((x.1 + 1, y.1 + 1), if keep then 1 else 0) :: rest
            else if keep then ((x.1 + 1, y.1 + 1), f) :: rest
            else rest

/-- An arithmetic or comparison step, from the step alone. -/
def refArithmetic (o : VectorOperator) (hcSide lcSide : List Labels)
    (lhs rhs : StepVector UInt64 H) : Except Err (StepVector (UInt64 × UInt64) H) :=
  if o.matching.card = .manyToMany then
    .error (.msg ("Unexpected matching cardinality: " ++ o.matching.card.toString))
  else
    let hcs := (o.refSides lhs rhs).1
    let lcs := (o.refSides lhs rhs).2
    if hcs.samples.isEmpty then .ok (.empty lhs.t)
    else
      match o.lowCardConflict lcSide lcs.samples [] with
      | some (orig, dup) => .error (o.newManyToManyMatchErrorOnLowCardSide orig dup)
      | none => (o.refJoin hops hcSide lcSide lcs.samples hcs.samples []).map fun out =>
          ⟨lhs.t, out, []⟩

/-- One step of the operator, from the step alone; the sides are those of
`init`. -/
def refStep (o : VectorOperator) (lhsSeries rhsSeries : List Labels)
    (lhs rhs : StepVector UInt64 H) : Except Err (StepVector (UInt64 × UInt64) H) :=
  let hcSide := (o.refSides lhsSeries rhsSeries).1
  let lcSide := (o.refSides lhsSeries rhsSeries).2
  match o.opType with
  | .land => .ok (o.refAnd hcSide lcSide lhs rhs)
  | .lor => .ok (o.refOr hcSide lcSide lhs rhs)
  | .lunless => .ok (o.refUnless hcSide lcSide lhs rhs)
  | _ => o.refArithmetic hops hcSide lcSide lhs rhs

/-- The batch loop, from the steps alone. -/
def refBatch (o : VectorOperator) (lhsSeries rhsSeries : List Labels) :
    Batch H → Batch H → Except Err (List (StepVector (UInt64 × UInt64) H))
  | l :: ls, r :: rs => do
    let step ← o.refStep hops lhsSeries rhsSeries l r
    let steps ← refBatch o lhsSeries rhsSeries ls rs
    pure (step :: steps)
  | _, _ => .ok []

/-- One `Next`, from what the children returned alone. -/
def refNext (o : VectorOperator) (lhsSeries rhsSeries : List Labels) (pull : Pull H) :
    Except Err (List (StepVector (UInt64 × UInt64) H)) :=
  match pull.rhs, pull.lhs with
  | .error e, _ => .error e
  | .ok _, .error e => .error e
  | .ok rhs, .ok lhs =>
    if lhs.isEmpty || rhs.isEmpty then .ok [] else o.refBatch hops lhsSeries rhsSeries lhs rhs

end VectorOperator

end PromqlEngine
