import PromqlEngine.Model

/-!
# `PromqlEngine.Binary.ElemBinop` — the element kernel of the binary operators

`vectorElemBinop` combines one left and one right element: two floats, a
float and a histogram, or two histograms.  It returns the float result, the
histogram result, whether to keep the element, and an annotation for the
query's warnings.  Its table ends in a `panic` for any operator it does not
list; here that is the `none` result.

Floats are Lean's `Float`, the IEEE double that Go's `float64` is.  Go's
`math.Mod` has no counterpart among Lean's `Float` primitives, so `goMod`
spells out the algorithm of `math/mod.go`.

`shouldDropMetricName` is called by `src/` but defined elsewhere in the
package; it is modelled from the spec.
-/

namespace PromqlEngine

/-- The subtraction loop of Go's `math.Mod`: while `r ≥ y`, subtract the
largest `y · 2^k` not above `r`.  Each pass lowers `k`, so the 2100 passes
`goMod` allows cover every finite `float64`. -/
def goModLoop (yfr : Float) (yexp : Int) (y : Float) : Nat → Float → Float
  | 0, r => r
  | fuel + 1, r =>
    if y ≤ r then
      let (rfr, rexp) := r.frExp
      let rexp := if rfr < yfr then rexp - 1 else rexp
      goModLoop yfr yexp y fuel (r - y.scaleB (rexp - yexp))
    else r

/-- Go's `math.Mod(x, y)`: the remainder of `x / y`, with the sign of `x`. -/
def goMod (x y : Float) : Float :=
  if y == 0 || x.isInf || x.isNaN || y.isNaN then 0 / 0
  else
    let y := y.abs
    let r := goModLoop y.frExp.1 y.frExp.2 y 2100 (if x < 0 then -x else x)
    if x < 0 then -r else r

/-- What `vectorElemBinop` returns: the float result, the histogram result,
whether the element is kept, and the annotation it reports. -/
abbrev BinopResult (H : Type) := Float × Option H × Bool × Option Warning

section

variable {H : Type} (hops : HistogramOps H)

/-- `vectorElemBinop`; `none` is its closing `panic`. -/
def vectorElemBinop (op : ItemType) (lhs rhs : Float) :
    Option H → Option H → Option (BinopResult H)
  | none, none =>
    match op with
    | .add => some (lhs + rhs, none, true, none)
    | .sub => some (lhs - rhs, none, true, none)
    | .mul => some (lhs * rhs, none, true, none)
    | .div => some (lhs / rhs, none, true, none)
    | .pow => some (lhs.pow rhs, none, true, none)
    | .mod => some (goMod lhs rhs, none, true, none)
    | .eqlc => some (lhs, none, lhs == rhs, none)
    | .neq => some (lhs, none, lhs != rhs, none)
    | .gtr => some (lhs, none, decide (lhs > rhs), none)
    | .lss => some (lhs, none, decide (lhs < rhs), none)
    | .gte => some (lhs, none, decide (lhs ≥ rhs), none)
    | .lte => some (lhs, none, decide (lhs ≤ rhs), none)
    | .atan2 => some (Float.atan2 lhs rhs, none, true, none)
    | .land | .lor | .lunless => none
  | none, some hrhs =>
    match op with
    | .mul => some (0, some (hops.compact (hops.mul hrhs lhs)), true, none)
    | .land | .lor | .lunless => none
    | _ => some (0, none, false, some (.incompatibleTypesInBinOp "float" op.str "histogram"))
  | some hlhs, none =>
    match op with
    | .mul => some (0, some (hops.compact (hops.mul hlhs rhs)), true, none)
    | .div => some (0, some (hops.compact (hops.div hlhs rhs)), true, none)
    | .land | .lor | .lunless => none
    | _ => some (0, none, false, some (.incompatibleTypesInBinOp "histogram" op.str "float"))
  | some hlhs, some hrhs =>
    match op with
    | .add =>
      match hops.add hlhs hrhs with
      | .error e => some (0, none, false, some (.histogramError e))
      | .ok res => some (0, some (hops.compact res), true, none)
    | .sub =>
      match hops.sub hlhs hrhs with
      | .error e => some (0, none, false, some (.histogramError e))
      | .ok res => some (0, some (hops.compact res), true, none)
    | .eqlc => some (0, some hlhs, hops.equals hlhs hrhs, none)
    | .neq => some (0, some hlhs, !hops.equals hlhs hrhs, none)
    | .land | .lor | .lunless => none
    | _ => some (0, none, false, some (.incompatibleTypesInBinOp "histogram" op.str "histogram"))

end

/-- Modelled from the spec: `shouldDropMetricName`, called by `src/` but not
part of it.  "true for every arithmetic and comparison op, false only for
`EQLC`, `NEQ`, `GTR`, `LSS`, `GTE`, `LTE` when `returnBool=false`". -/
def shouldDropMetricName (op : ItemType) (returnBool : Bool) : Bool :=
  if op.isComparisonOperator then returnBool else true

end PromqlEngine
