import PromqlEngine.Binary.Run

/-!
# `PromqlEngine.Binary.Histograms` — native histograms in the binary operator

The simulation of `Binary/Simulation.lean` is for float steps.  This module
follows the histograms of a step through the loops of `Binary/Vector.lean`:

* the set operators read and write `Samples` only, so no histogram ever
  leaves `and`, `or` or `unless`, whatever the children return;
* the histogram loop of `execBinaryArithmetic` appends one histogram for each
  high-card histogram whose bucket was claimed at the step, whether or not
  the kernel keeps it, and under the bucket's `sid`, which only a low-card
  *sample* sets.

**Proved here.**

    every step a run returns is a step of the operator          (`run_steps`)
    a set operator returns no histogram, on any run             (`run_set_histograms`)
    `or` drops an lhs histogram                                 (`or_drops_lhs_histogram`)
    one histogram per claimed match, kept or not                (`joinHighCardHistograms_length`)
    a histogram-only step is skipped; a histogram pair of
    incompatible types is emitted as nil, at another series    (`arithmetic_histogram_steps`)
-/

namespace PromqlEngine

theorem Store.andThen_fst_ok {H α β : Type} {p : Except Err α × Store H}
    {f : α → Store H → Except Err β × Store H} {b : β} (h : (Store.andThen p f).1 = .ok b) :
    ∃ a s, p = (.ok a, s) ∧ (f a s).1 = .ok b := by
  obtain ⟨_ | a, s⟩ := p
  · cases h
  · exact ⟨a, s, rfl, h⟩

namespace VectorOperator

variable {H : Type} (hops : HistogramOps H) (hash : Labels → UInt64)

/-! ## The steps of a run -/

theorem initOnce_opType (o : VectorOperator) (lser rser : Except Err (List Labels)) (s : Store H) :
    (o.initOnce hash lser rser s).2.1.opType = o.opType := by
  unfold initOnce init
  split_ifs
  · rfl
  · split <;> rfl

theorem execBatch_steps (o : VectorOperator) :
    ∀ (ls rs : Batch H) (s : Store H) (b : Batch H), (o.execBatch hops ls rs s).1 = .ok b →
      ∀ st ∈ b, ∃ l r s', (o.execBinaryOperation hops l r s').1 = .ok st
  | l :: ls, r :: rs, s, b, h => by
    obtain ⟨step, s₁, h₁, h⟩ := Store.andThen_fst_ok h
    obtain ⟨steps, s₂, h₂, h⟩ := Store.andThen_fst_ok h
    cases h
    intro st hst
    rcases List.mem_cons.mp hst with rfl | hst
    · exact ⟨l, r, s, congrArg Prod.fst h₁⟩
    · exact execBatch_steps o ls rs s₁ steps (congrArg Prod.fst h₂) st hst
  | [], _, _, _, h => by cases h; simp
  | _ :: _, [], _, _, h => by cases h; simp

theorem next_steps (o : VectorOperator) (ctx : Context) (lser rser : Except Err (List Labels))
    (p : Pull H) (s : Store H) :
    (o.next hops hash ctx lser rser p s).2.1.opType = o.opType ∧
      ∀ b, (o.next hops hash ctx lser rser p s).1 = .ok b →
        ∀ st ∈ b, ∃ o' : VectorOperator, ∃ l r s', o'.opType = o.opType ∧
          (o'.execBinaryOperation hops l r s').1 = .ok st := by
  have hop := initOnce_opType hash o lser rser s
  unfold next
  split
  · exact ⟨rfl, fun _ h => by cases h⟩
  · revert hop
    obtain ⟨_ | ⟨⟩, o', s'⟩ := o.initOnce hash lser rser s <;> intro hop <;> dsimp only at hop ⊢
    · exact ⟨hop, fun _ h => by cases h⟩
    · refine ⟨?_, ?_⟩
      · split <;> try exact hop
        split_ifs <;> exact hop
      split
      · exact fun _ h => by cases h
      · exact fun _ h => by cases h
      · split_ifs
        · exact fun _ h st hst => by cases h; simp at hst
        · exact fun b h st hst =>
            let ⟨l, r, s'', h'⟩ := execBatch_steps hops o' _ _ _ b h st hst
            ⟨o', l, r, s'', hop, h'⟩

/-- **Every step a run returns is a step of `execBinaryOperation`**, on some
store, of an operator with the run's `opType`. -/
theorem run_steps (lser rser : Except Err (List Labels)) :
    ∀ (o : VectorOperator) (pulls : List (Pull H)) (s : Store H),
      ∀ res ∈ o.run hops hash lser rser pulls s, ∀ b, res = .ok b →
        ∀ st ∈ b, ∃ o' : VectorOperator, ∃ l r s', o'.opType = o.opType ∧
          (o'.execBinaryOperation hops l r s').1 = .ok st
  | _, [], _, _, h => by cases h
  | o, p :: ps, s, res, h => by
    obtain ⟨hop, hsteps⟩ := next_steps hops hash o .background lser rser p s
    rcases List.mem_cons.mp h with rfl | h
    · exact hsteps
    · intro b hb st hst
      obtain ⟨o', l, r, s', ho', h'⟩ := run_steps lser rser _ ps _ res h b hb st hst
      exact ⟨o', l, r, s', ho'.trans hop, h'⟩

/-! ## The set operators -/

theorem emitSamples_histograms (buckets : List UInt64) (out : UInt64 → JoinBucket H → Option UInt64) :
    ∀ (xs : List (UInt64 × Float)) (step st : StepVector UInt64 H) (s : Store H),
      emitSamples buckets out xs step s = .ok st → st.histograms = step.histograms
  | [], _, _, _, h => by cases h; rfl
  | (id, v) :: rest, step, st, s, h => by
    unfold emitSamples at h
    split at h
    · cases h
    · rw [emitSamples_histograms buckets out rest _ st s h]
      split <;> rfl

theorem markOr_histograms (o : VectorOperator) (ts : Int) :
    ∀ (xs : List (UInt64 × Float)) (step st : StepVector UInt64 H) (s : Store H),
      (o.markOr ts xs step s).1 = .ok st → st.histograms = step.histograms
  | [], _, _, _, h => by cases h; rfl
  | (id, v) :: rest, step, st, s, h => by
    unfold markOr at h
    split at h
    · cases h
    · exact (markOr_histograms o ts rest _ st _ h).trans rfl

theorem execBinaryOperation_set_histograms {o : VectorOperator} (hop : o.opType.isSetOperator = true)
    {lhs rhs : StepVector UInt64 H} {s : Store H} {st : StepVector UInt64 H}
    (h : (o.execBinaryOperation hops lhs rhs s).1 = .ok st) : st.histograms = [] := by
  unfold execBinaryOperation at h
  split at h
  · obtain ⟨_, _, -, h⟩ := Store.andThen_fst_ok h
    exact emitSamples_histograms _ _ _ _ _ _ h
  · obtain ⟨step, _, hm, h⟩ := Store.andThen_fst_ok h
    rw [emitSamples_histograms _ _ _ _ _ _ h]
    exact markOr_histograms o _ _ _ _ _ (congrArg Prod.fst hm)
  · obtain ⟨_, _, -, h⟩ := Store.andThen_fst_ok h
    exact emitSamples_histograms _ _ _ _ _ _ h
  · rename_i hand hor hunless
    simp [ItemType.isSetOperator_eq_false hand hor hunless] at hop

/-- **No set operator returns a histogram**, on any run. -/
theorem run_set_histograms (o : VectorOperator) (hop : o.opType.isSetOperator = true)
    (lser rser : Except Err (List Labels)) (pulls : List (Pull H)) (s : Store H) :
    ∀ res ∈ o.run hops hash lser rser pulls s, ∀ b, res = .ok b → ∀ st ∈ b, st.histograms = [] := by
  intro res hres b hb st hst
  obtain ⟨o', l, r, s', ho', h⟩ := run_steps hops hash lser rser o pulls s res hres b hb st hst
  exact execBinaryOperation_set_histograms hops (by rw [ho']; exact hop) h

/-- `a or b` over one call, which returns one step. -/
theorem run_set_histograms_or :
    (newVectorOperator lengthHash ⟨.manyToMany, [], false, []⟩ .lor false).run HistogramOps.unit
        lengthHash (.ok [[⟨"__name__", "a"⟩]]) (.ok [[⟨"__name__", "bb"⟩]])
        [⟨.ok [⟨0, [], [(0, some ())]⟩], .ok [⟨0, [], []⟩]⟩] Store.empty = [.ok [⟨0, [], []⟩]] ∧
      (⟨0, [], []⟩ : StepVector UInt64 Unit).histograms = [] := by
  have h : (newVectorOperator lengthHash ⟨.manyToMany, [], false, []⟩ .lor false).run
      HistogramOps.unit lengthHash (.ok [[⟨"__name__", "a"⟩]]) (.ok [[⟨"__name__", "bb"⟩]])
      [⟨.ok [⟨0, [], [(0, some ())]⟩], .ok [⟨0, [], []⟩]⟩] Store.empty = [.ok [⟨0, [], []⟩]] := rfl
  exact ⟨h, run_set_histograms HistogramOps.unit lengthHash _ (by rfl) _ _ _ _ _
    (h ▸ List.mem_singleton_self _) _ rfl _ (List.mem_singleton_self _)⟩

/-- `a or b`, where `a` returns one histogram and `b` nothing. -/
theorem or_drops_lhs_histogram :
    let o : VectorOperator := newVectorOperator lengthHash ⟨.manyToMany, [], false, []⟩ .lor false
    let pulls : List (Pull Unit) := [⟨.ok [⟨0, [], [(0, some ())]⟩], .ok [⟨0, [], []⟩]⟩]
    (o.run HistogramOps.unit lengthHash (.ok [[⟨"__name__", "a"⟩]]) (.ok [[⟨"__name__", "bb"⟩]])
      pulls Store.empty).map (Except.map (List.map fun st => (st.sampleIDs, st.histograms))) =
        [.ok [([], [])]] :=
  rfl

/-! ## The histogram loop of arithmetic -/

/-- The high-card histogram `id` points at a bucket claimed at `ts`. -/
def claimedAt (o : VectorOperator) (s : Store H) (ts : Int) (id : UInt64) : Bool :=
  match index o.hcJoinBuckets id with
  | .ok k => (s.buckets k).ats = ts
  | .error _ => false

theorem claimedAt_setBts (o : VectorOperator) (s : Store H) (ts : Int) (k : UInt64) (b : Int)
    (w : Option Warning) :
    claimedAt o ((s.setBucket k { s.buckets k with bts := b }).warn w) ts = claimedAt o s ts := by
  funext id
  unfold claimedAt
  split
  · rename_i k' _
    by_cases hk : k' = k
    · subst hk; simp [Store.setBucket]
    · simp [Store.setBucket, Function.update_noteq hk]
  · rfl

/-- **One histogram per claimed match**: when the loop succeeds, it has
appended a histogram for every high-card histogram whose bucket is claimed at
the step, the ones the kernel does not keep included. -/
theorem joinHighCardHistograms_length (o : VectorOperator) (ts : Int) :
    ∀ (xs : List (UInt64 × Option H)) (step st : StepVector UInt64 H) (s s' : Store H),
      o.joinHighCardHistograms hops ts xs step s = (.ok st, s') →
        st.samples = step.samples ∧
          st.histograms.length = step.histograms.length + (xs.filter (o.claimedAt s ts ·.1)).length
  | [], _, _, _, _, h => by cases h; simp
  | (id, x) :: rest, step, st, s, s', h => by
    unfold joinHighCardHistograms at h
    split at h
    · cases h
    · rename_i k hk
      have hcl : claimedAt o s ts id = decide ((s.buckets k).ats = ts) := by simp [claimedAt, hk]
      dsimp only at h
      split_ifs at h with h₁ h₂
      · have ih := joinHighCardHistograms_length o ts rest step st s s' h
        simpa [List.filter_cons, hcl, h₁] using ih
      · cases h
      · split at h
        · cases h
        · have hats : (s.buckets k).ats = ts := not_not.mp h₁
          have ih := joinHighCardHistograms_length o ts rest _ st _ s' h
          rw [claimedAt_setBts] at ih
          simp only [StepVector.appendHistogram, List.length_append, List.length_singleton] at ih
          simp only [List.filter_cons, hcl, hats, decide_True, if_true, List.length_cons, ih, true_and]
          omega

/-- `a * b` on one claimed histogram pair. -/
theorem joinHighCardHistograms_length_mul :
    let o : VectorOperator := (newVectorOperator lengthHash ⟨.oneToOne, [], false, []⟩ .mul false).ready
      lengthHash [[⟨"job", "x"⟩]] [[⟨"job", "x"⟩]]
    let s : Store Unit := Store.empty.setBucket (o.hcJoinBuckets.getD 0 0)
      { (JoinBucket.new : JoinBucket Unit) with ats := 0, hval := some () }
    ∃ st s', o.joinHighCardHistograms HistogramOps.unit 0 [(0, some ())] (.empty 0) s = (.ok st, s') ∧
      st.samples = [] ∧ st.histograms.length = 0 + ([(0, some ())].filter (o.claimedAt s 0 ·.1)).length := by
  intro o s
  obtain ⟨st, s', h⟩ : ∃ st s', o.joinHighCardHistograms HistogramOps.unit 0 [(0, some ())]
      (.empty 0) s = (.ok st, s') := ⟨_, _, rfl⟩
  exact ⟨st, s', h, joinHighCardHistograms_length HistogramOps.unit o 0 _ _ st s s' h⟩

/-- `a * on(job) group_left b` over two steps.  At `0` the lhs has a
histogram only, and the step is skipped.  At `1` the lhs histogram of job
`yy` meets the rhs histogram of job `yy`: the kernel reports incompatible
types, and the loop emits a nil histogram, under the `sid` no rhs sample of
job `yy` set, which is the series of job `x`. -/
theorem arithmetic_histogram_steps :
    let o : VectorOperator := newVectorOperator lengthHash ⟨.manyToOne, ["job"], true, []⟩ .mul false
    let lser : List Labels := [[⟨"__name__", "a"⟩, ⟨"job", "x"⟩], [⟨"__name__", "a"⟩, ⟨"job", "yy"⟩]]
    let rser : List Labels := [[⟨"__name__", "b"⟩, ⟨"job", "x"⟩], [⟨"__name__", "b"⟩, ⟨"job", "yy"⟩]]
    let pulls : List (Pull Unit) :=
      [⟨.ok [⟨0, [], [(1, some ())]⟩, ⟨1, [(0, 2)], [(1, some ())]⟩],
        .ok [⟨0, [], [(1, some ())]⟩, ⟨1, [(0, 3)], [(1, some ())]⟩]⟩]
    vectorElemBinop HistogramOps.unit .mul 0 0 (some ()) (some ()) =
        some (0, none, false, some (.incompatibleTypesInBinOp "histogram" "*" "histogram")) ∧
      (o.run HistogramOps.unit lengthHash (.ok lser) (.ok rser) pulls Store.empty).map
        (Except.map (List.map fun st => (st.sampleIDs, st.histograms))) =
          [.ok [([], []), ([0], [(0, none)])]] ∧
      (o.ready lengthHash lser rser).series[0]? = some [⟨"job", "x"⟩] ∧
      o.resultMetric (lser.getD 1 []) (rser.getD 1 []) = [⟨"job", "yy"⟩] :=
  ⟨rfl, rfl, by decide, by decide⟩

end VectorOperator

end PromqlEngine
