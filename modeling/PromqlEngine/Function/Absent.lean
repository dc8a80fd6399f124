import PromqlEngine.Labels
import PromqlEngine.Model

/-!
# `PromqlEngine.Function.Absent` — the series of `absent`

`absentOperator` returns one series, whose labels `loadSeries` rebuilds from
the matchers of the argument of `absent`: for a vector or matrix selector it
walks `LabelMatchers` followed by `Filters` with a label builder, setting the
first equality matcher on each name and deleting the name on every other
matcher; for any other argument the series has no label.  Its `Next` returns,
per step of the child, the sample `(0, 1)` when the child's step is empty, and
nothing else.

**Proved here.**

    one pass of the matcher loop keeps its invariant            (`loopInv_snoc`)
    the labels of the builder are those of the closed form      (`mem_absentLabels`)
    `Series` of a new operator returns one label set: the
    closed form for a selector, no label otherwise              (`absent_series_labels`)
-/

namespace PromqlEngine

/-- `labels.MatchType`. -/
inductive MatchType
  | equal
  | notEqual
  | regexp
  | notRegexp
deriving DecidableEq, Repr

/-- `labels.Matcher`, without its compiled regular expression. -/
structure Matcher where
  type : MatchType
  name : String
  value : String
deriving DecidableEq, Repr

/-- `logicalplan.VectorSelector`, with the fields `loadSeries` reads. -/
structure VectorSelector where
  labelMatchers : List Matcher
  filters : List Matcher

/-- The argument of the call, as the type switch of `loadSeries` tells it
apart; a matrix selector is read through its `VectorSelector`. -/
inductive Expr
  | vectorSelector (v : VectorSelector)
  | matrixSelector (v : VectorSelector)
  | other

/-- `absentOperator` without its pool, child and telemetry: `arg` is
`funcExpr.Args[0]`, and `once` says whether `loadSeries` has run. -/
structure AbsentOperator where
  once : Bool
  arg : Expr
  series : List Labels

namespace AbsentOperator

/-- `newAbsentOperator`. -/
def new (arg : Expr) : AbsentOperator := ⟨false, arg, []⟩

/-- One pass of the matcher loop of `loadSeries`; `has` holds the names set
so far. -/
def matcherStep (acc : (String → Bool) × Builder) (l : Matcher) : (String → Bool) × Builder :=
  if l.name = metricName then acc
  else if l.type = .equal ∧ acc.1 l.name = false then
    (Function.update acc.1 l.name true, acc.2.set l.name l.value)
  else (acc.1, acc.2.del [l.name])

/-- The label set the matcher loop builds, from `labels.EmptyLabels()`. -/
def absentLabels (lm : List Matcher) : Labels :=
  (lm.foldl matcherStep (fun _ => false, Builder.new [])).2.labels

/-- `absentOperator.loadSeries`, run once. -/
def loadSeries (o : AbsentOperator) : AbsentOperator :=
  if o.once then o
  else
    match o.arg with
    | .vectorSelector n => ⟨true, o.arg, [absentLabels (n.labelMatchers ++ n.filters)]⟩
    | .matrixSelector n => ⟨true, o.arg, [absentLabels (n.labelMatchers ++ n.filters)]⟩
    | .other => ⟨true, o.arg, [[]]⟩

/-- `absentOperator.Series`. -/
def callSeries (o : AbsentOperator) : Except Err (List Labels) × AbsentOperator :=
  (.ok o.loadSeries.series, o.loadSeries)

/-- The step `Next` returns for a step of the child. -/
def absentStep {H : Type} (v : StepVector UInt64 H) : StepVector UInt64 H :=
  if v.samples.isEmpty ∧ v.histograms.isEmpty then (StepVector.empty v.t).appendSample 0 1
  else .empty v.t

/-- `absentOperator.Next`; `none` is the nil batch returned when the child's
batch is empty. -/
def next {H : Type} (o : AbsentOperator) (ctx : Context) (input : Except Err (Batch H)) :
    Except Err (Option (Batch H)) × AbsentOperator :=
  match ctx.err with
  | some e => (.error e, o)
  | none =>
    match input with
    | .error e => (.error e, o.loadSeries)
    | .ok vectors =>
      if vectors.isEmpty then (.ok none, o.loadSeries)
      else (.ok (some (vectors.map absentStep)), o.loadSeries)

/-! ## The matcher loop -/

/-- The label `n="v"` the loop should leave: `n` is not the metric name, `v`
is not empty, and the matchers on `n` end in an equality matcher with value
`v`, the only equality matcher on `n`. -/
def AbsentLabel (lm : List Matcher) (l : Label) : Prop :=
  l.name ≠ metricName ∧ l.value ≠ "" ∧
    ∃ pre, lm.filter (·.name = l.name) = pre ++ [⟨.equal, l.name, l.value⟩] ∧
      ∀ m ∈ pre, m.type ≠ .equal

theorem filter_snoc (pre : List Matcher) (m : Matcher) (n : String) :
    (pre ++ [m]).filter (·.name = n) = pre.filter (·.name = n) ++ if m.name = n then [m] else [] := by
  by_cases h : m.name = n <;> simp [List.filter_append, List.filter_cons, h]

theorem absentLabel_snoc_of_ne {pre : List Matcher} {m : Matcher} {l : Label}
    (h : m.name ≠ l.name) : AbsentLabel (pre ++ [m]) l ↔ AbsentLabel pre l := by
  simp only [AbsentLabel, filter_snoc, if_neg h, List.append_nil]

theorem absentLabel_snoc_self {pre : List Matcher} {m : Matcher} {l : Label}
    (h : m.name = l.name) : AbsentLabel (pre ++ [m]) l ↔
      l.name ≠ metricName ∧ l.value ≠ "" ∧ m = ⟨.equal, l.name, l.value⟩ ∧
        ∀ x ∈ pre, x.name = l.name → x.type ≠ .equal := by
  simp only [AbsentLabel, filter_snoc, if_pos h]
  refine and_congr_right fun _ => and_congr_right fun _ => ⟨?_, ?_⟩
  · rintro ⟨p, hp, hne⟩
    obtain ⟨rfl, hm⟩ := List.append_inj' hp rfl
    refine ⟨List.singleton_inj.mp hm, fun x hx hxn => hne x ?_⟩
    simp [hx, hxn]
  · rintro ⟨rfl, hne⟩
    exact ⟨_, rfl, fun x hx => by simp at hx; exact hne x hx.1 hx.2⟩

/-- What the loop keeps true after the matchers `pre`: `has` holds the names
of their equality matchers, the base is empty, and the additions are the
closed form. -/
structure LoopInv (pre : List Matcher) (acc : (String → Bool) × Builder) : Prop where
  has : ∀ n, acc.1 n = true ↔ n ≠ metricName ∧ ∃ m ∈ pre, m.name = n ∧ m.type = .equal
  base : acc.2.base = []
  adds : ∀ l, l ∈ acc.2.adds ↔ AbsentLabel pre l

theorem loopInv_nil : LoopInv [] (fun _ => false, Builder.new []) :=
  ⟨by simp, rfl, by simp [AbsentLabel]⟩

theorem exists_equal_snoc (pre : List Matcher) (m : Matcher) (n : String) :
    (∃ x ∈ pre ++ [m], x.name = n ∧ x.type = .equal) ↔
      (∃ x ∈ pre, x.name = n ∧ x.type = .equal) ∨ (m.name = n ∧ m.type = .equal) := by
  simp [or_and_right, exists_or]

section Step

variable {pre : List Matcher} {acc : (String → Bool) × Builder} (m : Matcher)

theorem loopInv_snoc_metricName (hname : m.name = metricName) (hinv : LoopInv pre acc) :
    LoopInv (pre ++ [m]) acc := by
  refine ⟨fun n => ?_, hinv.base, fun l => ?_⟩
  · rw [hinv.has, exists_equal_snoc]
    constructor
    · exact fun ⟨hn, h⟩ => ⟨hn, .inl h⟩
    · rintro ⟨hn, h | ⟨rfl, -⟩⟩
      · exact ⟨hn, h⟩
      · exact absurd hname hn
  · by_cases hl : m.name = l.name
    · rw [absentLabel_snoc_self hl, hinv.adds]
      exact ⟨fun h => absurd (hl ▸ hname) h.1, fun h => absurd (hl ▸ hname) h.1⟩
    · rw [absentLabel_snoc_of_ne hl, hinv.adds]

theorem loopInv_snoc_set (hname : m.name ≠ metricName) (htype : m.type = .equal)
    (hhas : acc.1 m.name = false) (hinv : LoopInv pre acc) :
    LoopInv (pre ++ [m]) (Function.update acc.1 m.name true, acc.2.set m.name m.value) := by
  have hnone : ∀ x ∈ pre, x.name = m.name → x.type ≠ .equal := fun x hx hxn hxt => by
    have := (hinv.has m.name).mpr ⟨hname, x, hx, hxn, hxt⟩
    simp_all
  refine ⟨fun n => ?_, by simp [hinv.base], fun l => ?_⟩
  · by_cases hn : m.name = n
    · subst hn
      rw [exists_equal_snoc]
      simp [hname, htype]
    · dsimp only
      rw [Function.update_noteq (Ne.symm hn), hinv.has, exists_equal_snoc]
      simp [hn]
  · rw [Builder.mem_set_adds, hinv.adds]
    by_cases hl : m.name = l.name
    · rw [absentLabel_snoc_self hl]
      obtain ⟨mt, mn, mv⟩ := m
      obtain ⟨ln, lv⟩ := l
      simp only at htype hl hnone ⊢
      subst htype hl
      constructor
      · rintro (⟨-, h⟩ | ⟨hv, h⟩)
        · exact absurd rfl h
        · cases h; exact ⟨hname, hv, rfl, hnone⟩
      · rintro ⟨-, hv, h, -⟩
        cases h; exact .inr ⟨hv, rfl⟩
    · rw [absentLabel_snoc_of_ne hl]
      simp only [Ne.symm hl, ne_eq, not_false_eq_true, and_true]
      constructor
      · rintro (h | ⟨-, rfl⟩)
        · exact h
        · exact absurd rfl hl
      · exact .inl

theorem loopInv_snoc_del (hset : ¬(m.type = .equal ∧ acc.1 m.name = false))
    (hinv : LoopInv pre acc) : LoopInv (pre ++ [m]) (acc.1, acc.2.del [m.name]) := by
  refine ⟨fun n => ?_, by simp [hinv.base], fun l => ?_⟩
  · rw [hinv.has, exists_equal_snoc]
    by_cases hn : m.name = n
    · subst hn
      by_cases ht : m.type = .equal
      · have : acc.1 m.name = true := by simpa [ht] using hset
        have := (hinv.has m.name).mp this
        simp_all
      · simp [ht]
    · simp [hn]
  · rw [Builder.mem_del_adds, hinv.adds]
    by_cases hl : m.name = l.name
    · rw [absentLabel_snoc_self hl]
      simp only [List.mem_singleton, hl, not_true_eq_false, and_false, false_iff]
      rintro ⟨-, -, rfl, hne⟩
      have : acc.1 l.name = true := by simpa using hset
      obtain ⟨-, x, hx, hxn, hxt⟩ := (hinv.has l.name).mp this
      exact hne x hx hxn hxt
    · rw [absentLabel_snoc_of_ne hl]
      simp [Ne.symm hl]

/-- **One pass of the loop keeps the invariant.** -/
theorem loopInv_snoc (hinv : LoopInv pre acc) : LoopInv (pre ++ [m]) (matcherStep acc m) := by
  unfold matcherStep
  split_ifs with hname hset
  · exact loopInv_snoc_metricName m hname hinv
  · exact loopInv_snoc_set m hname hset.1 hset.2 hinv
  · exact loopInv_snoc_del m hset hinv

end Step

theorem loopInv_foldl : ∀ (rest pre : List Matcher) (acc : (String → Bool) × Builder),
    LoopInv pre acc → LoopInv (pre ++ rest) (rest.foldl matcherStep acc)
  | [], pre, acc, h => by simpa using h
  | m :: rest, pre, acc, h => by
    rw [List.foldl_cons, ← List.singleton_append, ← List.append_assoc]
    exact loopInv_foldl rest _ _ (loopInv_snoc m h)

/-- **The labels the loop builds are those of the closed form.** -/
theorem mem_absentLabels (lm : List Matcher) (l : Label) :
    l ∈ absentLabels lm ↔ AbsentLabel lm l := by
  have h := loopInv_foldl lm [] _ loopInv_nil
  rw [List.nil_append] at h
  rw [absentLabels, Builder.mem_labels, h.base, h.adds]
  simp

/-! ## `Series` and `Next` -/

/-- **`Series` of a new operator returns one label set**: for a vector or
matrix selector, the closed form over `LabelMatchers` followed by `Filters`;
for any other argument, no label. -/
theorem absent_series_labels (arg : Expr) :
    ∃ ls, (new arg).callSeries.1 = .ok [ls] ∧
      ∀ l, l ∈ ls ↔ match arg with
        | .vectorSelector v | .matrixSelector v => AbsentLabel (v.labelMatchers ++ v.filters) l
        | .other => False := by
  cases arg with
  | vectorSelector v => exact ⟨_, rfl, mem_absentLabels _⟩
  | matrixSelector v => exact ⟨_, rfl, mem_absentLabels _⟩
  | other => exact ⟨[], rfl, by simp⟩

end AbsentOperator

end PromqlEngine
