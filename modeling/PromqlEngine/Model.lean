import PromqlEngine.Labels

/-!
# `PromqlEngine.Model` — step vectors, operator types, matchings and errors

The data every operator of `src/` passes around:

* `StepVector ι H` is `model.StepVector`.  The source keeps sample IDs and
  values in two parallel slices (and histogram IDs and histograms in two
  more); here each sample is one pair, so the slices of a step always have the
  same length.  `ι` is the type of IDs: `UInt64` for the operators, and the
  references of `Binary/Reference.lean` key their samples by other things.
* A histogram is a `*histogram.FloatHistogram`: `Option H`, with `none` the
  nil pointer.  The operators never look inside a histogram; the methods
  `vectorElemBinop` calls are the fields of `HistogramOps`.
* `ItemType`, `Card` and `VectorMatching` are the parser's, restricted to the
  binary operators.
* `Err` holds the errors the operators return, and a runtime panic (an index
  out of range, an operator outside `vectorElemBinop`'s table) as `.panic`.

The vector pool (`GetStepVector`, `PutStepVector`, …) recycles memory and
changes no value, so it is left out.
-/

namespace PromqlEngine

/-- `model.StepVector`: the samples and histograms of one timestamp. -/
structure StepVector (ι H : Type) where
  t : Int
  samples : List (ι × Float)
  histograms : List (ι × Option H)

namespace StepVector

variable {ι κ H : Type}

/-- `pool.GetStepVector(t)`. -/
def empty (t : Int) : StepVector ι H := ⟨t, [], []⟩

/-- `StepVector.AppendSample`. -/
def appendSample (s : StepVector ι H) (id : ι) (v : Float) : StepVector ι H :=
  { s with samples := s.samples ++ [(id, v)] }

/-- `StepVector.AppendHistogram`. -/
def appendHistogram (s : StepVector ι H) (id : ι) (h : Option H) : StepVector ι H :=
  { s with histograms := s.histograms ++ [(id, h)] }

/-- `SampleIDs`. -/
def sampleIDs (s : StepVector ι H) : List ι := s.samples.map Prod.fst

/-- `HistogramIDs`. -/
def histogramIDs (s : StepVector ι H) : List ι := s.histograms.map Prod.fst

theorem sampleIDs_appendSample (s : StepVector ι H) (id : ι) (v : Float) :
    (s.appendSample id v).sampleIDs = s.sampleIDs ++ [id] := by
  simp [sampleIDs, appendSample]

theorem histogramIDs_appendHistogram (s : StepVector ι H) (id : ι) (h : Option H) :
    (s.appendHistogram id h).histogramIDs = s.histogramIDs ++ [id] := by
  simp [histogramIDs, appendHistogram]

/-- Rename every ID of a step. -/
def mapIds (f : ι → κ) (s : StepVector ι H) : StepVector κ H :=
  ⟨s.t, s.samples.map (Prod.map f id), s.histograms.map (Prod.map f id)⟩

@[simp] theorem mapIds_t (f : ι → κ) (s : StepVector ι H) : (s.mapIds f).t = s.t := rfl

@[simp] theorem mapIds_samples (f : ι → κ) (s : StepVector ι H) :
    (s.mapIds f).samples = s.samples.map (Prod.map f id) := rfl

@[simp] theorem mapIds_histograms (f : ι → κ) (s : StepVector ι H) :
    (s.mapIds f).histograms = s.histograms.map (Prod.map f id) := rfl

theorem mapIds_congr {f g : ι → κ} {s : StepVector ι H} (h₁ : ∀ x ∈ s.samples, f x.1 = g x.1)
    (h₂ : ∀ x ∈ s.histograms, f x.1 = g x.1) : s.mapIds f = s.mapIds g := by
  simp only [mapIds, mk.injEq, true_and]
  exact ⟨List.map_congr_left fun x hx => Prod.ext (h₁ x hx) rfl,
    List.map_congr_left fun x hx => Prod.ext (h₂ x hx) rfl⟩

theorem mapIds_mapIds {μ : Type} (f : ι → κ) (g : κ → μ) (s : StepVector ι H) :
    (s.mapIds f).mapIds g = s.mapIds (g ∘ f) := by
  simp [mapIds, List.map_map, Prod.map_comp_map]

end StepVector

/-- The steps one `Next` returns. -/
abbrev Batch (H : Type) := List (StepVector UInt64 H)

/-- `parser.VectorMatchCardinality`. -/
inductive Card
  | oneToOne
  | manyToOne
  | oneToMany
  | manyToMany
deriving DecidableEq, Repr

/-- `VectorMatchCardinality.String`. -/
def Card.toString : Card → String
  | .oneToOne => "one-to-one"
  | .manyToOne => "many-to-one"
  | .oneToMany => "one-to-many"
  | .manyToMany => "many-to-many"

/-- `parser.VectorMatching`.  The source's `On` and `Include` are `isOn` and
`includeLabels`: `on` and `include` are tokens. -/
structure VectorMatching where
  card : Card
  matchingLabels : List String
  isOn : Bool
  includeLabels : List String
deriving DecidableEq, Repr

/-- The binary operators of `parser.ItemType`. -/
inductive ItemType
  | add | sub | mul | div | pow | mod
  | eqlc | neq | gtr | lss | gte | lte
  | atan2
  | land | lor | lunless
deriving DecidableEq, Repr

/-- `parser.ItemTypeStr`. -/
def ItemType.str : ItemType → String
  | .add => "+" | .sub => "-" | .mul => "*" | .div => "/" | .pow => "^" | .mod => "%"
  | .eqlc => "==" | .neq => "!=" | .gtr => ">" | .lss => "<" | .gte => ">=" | .lte => "<="
  | .atan2 => "atan2" | .land => "and" | .lor => "or" | .lunless => "unless"

/-- `ItemType.IsComparisonOperator`. -/
def ItemType.isComparisonOperator : ItemType → Bool
  | .eqlc | .neq | .gtr | .lss | .gte | .lte => true
  | _ => false

/-- `ItemType.IsSetOperator`. -/
def ItemType.isSetOperator : ItemType → Bool
  | .land | .lor | .lunless => true
  | _ => false

theorem ItemType.isSetOperator_eq_false {t : ItemType} (h₁ : t ≠ .land) (h₂ : t ≠ .lor)
    (h₃ : t ≠ .lunless) : t.isSetOperator = false := by
  cases t <;> simp_all [isSetOperator]

/-- A non-fatal warning (an annotation of the source), added to the query's warnings. -/
inductive Warning
  | incompatibleTypesInBinOp (lhs op rhs : String)
  | histogramError (msg : String)
deriving DecidableEq, Repr

/-- `lhBinOpSide` / `rhBinOpSide`. -/
inductive BinOpSide
  | lhs
  | rhs
deriving DecidableEq, Repr

/-- The errors the operators return. -/
inductive Err
  /-- `newManyToManyMatchError(matching, duplicate labels, original labels, side)`. -/
  | manyToManyMatch (matching : VectorMatching) (dup orig : Labels) (side : BinOpSide)
  /-- `errors.New` and `errors.Newf`, with their text. -/
  | msg (text : String)
  /-- `extlabels.ErrDuplicateLabelSet`. -/
  | duplicateLabelSet
  /-- A runtime panic. -/
  | panic (what : String)
deriving DecidableEq, Repr

/-- The panic of a slice index out of range. -/
def indexOutOfRange : Err := .panic "index out of range"

/-- `s[i]` on a Go slice: out of range panics. -/
def index {α : Type} (s : List α) (i : UInt64) : Except Err α :=
  match s[i.toNat]? with
  | some a => .ok a
  | none => .error indexOutOfRange

theorem index_eq_ok {α : Type} {s : List α} {i : UInt64} {a : α} :
    index s i = .ok a ↔ s[i.toNat]? = some a := by
  unfold index; cases s[i.toNat]? <;> simp

/-- The `FloatHistogram` methods `vectorElemBinop` calls.  Each call there
works on a `Copy()`, so they are functions of values. -/
structure HistogramOps (H : Type) where
  /-- `Mul(f)`. -/
  mul : H → Float → H
  /-- `Div(f)`. -/
  div : H → Float → H
  /-- `Add(other)`, which fails on incompatible schemas. -/
  add : H → H → Except String H
  /-- `Sub(other)`. -/
  sub : H → H → Except String H
  /-- `Compact(0)`. -/
  compact : H → H
  /-- `Equals(other)`. -/
  equals : H → H → Bool

/-- The algebra of a single histogram, to run the model on concrete steps:
every operation returns it, and `Add` and `Sub` succeed. -/
def HistogramOps.unit : HistogramOps Unit :=
  ⟨fun _ _ => (), fun _ _ => (), fun _ _ => .ok (), fun _ _ => .ok (), id, fun _ _ => true⟩

/-- The context handed to `Next` and `Series`: its error once it is done. -/
structure Context where
  err : Option Err

/-- A context that is not done. -/
def Context.background : Context := ⟨none⟩

end PromqlEngine
