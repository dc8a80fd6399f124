import PromqlEngine.Binary.Contract

/-!
# `PromqlEngine.Plan` — plans over `vectorOperator`

`duplicateLabelCheckOperator` reads its child's `Series()` once, in `init`,
and records every pair of series with one `Hash()`.  A step that holds samples
of both series of a pair fails with `ErrDuplicateLabelSet`.

Over a `vectorOperator` there is never a pair to record.  The operator's
`Series()` is the list `joinHelper.append` builds, and `append` keeps one
series per hash.  Two output label sets of one hash become one series, and
their samples share its ID (`Binary/Semantics.lean`).  The check compares
distinct IDs only, so it does not see them.

The plan is modelled as the source runs it.  The check's first `Next` runs
`init`, which reads the operator's `Series()`; every `Next` then reads the
operator's `Next()`, unless `init` failed on that call.  The result holds
for every label hash and whatever the operator's children return.

The second plan is a binary `scalarOperator` whose vector child is a
`vectorOperator`, as in `(a + on(job) b) * 2`.  The scalar operator's
`loadSeries` calls the vector operator's `Series()` on its first `Series`, or
on its first `Next` that has a batch, after the vector operator's `Next()`.
Either way it reads the table of `ready`, so the contract of each operator
(`Contract.lean`, `Binary/Contract.lean`) gives the contract of the plan.

**Proved here.**

    the series `joinHelper` collects have pairwise distinct hashes  (`storeEntries_distinct`)
    a table of distinct hashes has no pair to check                 (`pairsOf_eq_nil`)
    once its `init` has run, the check over the operator is the
    operator, call for call                                         (`run_checked`)
    the plan returns what the operator returns, call for call      (`check_over_vector`)
    the scalar operator over the vector operator keeps the
    contract on every run of calls                                 (`scaled_vector_keeps_contract`)
-/

namespace PromqlEngine

/-! ## `joinHelper` keeps one series per hash -/

section Distinct

variable (hash : Labels → UInt64)

/-- What `joinHelper` keeps beyond `Valid`: its series have pairwise distinct
hashes, and the hash of each is seen. -/
structure JoinHelper.Distinct (h : JoinHelper) : Prop where
  pairwise : h.ls.Pairwise fun a b => hash a ≠ hash b
  seen : ∀ l ∈ h.ls, h.seen (hash l) ≠ none

theorem JoinHelper.distinct_empty : JoinHelper.empty.Distinct hash :=
  ⟨List.Pairwise.nil, fun _ h => absurd h (List.not_mem_nil _)⟩

theorem JoinHelper.append_distinct {h : JoinHelper} (hd : h.Distinct hash) (l : Labels) :
    (h.append hash l).2.Distinct hash := by
  unfold JoinHelper.append
  split
  · exact hd
  case h_2 hn =>
    refine ⟨List.pairwise_append.mpr ⟨hd.pairwise, List.pairwise_singleton _ _, fun a ha b hb hab => ?_⟩,
      fun l' hl' => ?_⟩
    · rw [List.mem_singleton.mp hb] at hab
      exact hd.seen a ha (hab ▸ hn)
    · dsimp only
      by_cases hk : hash l' = hash l
      · rw [hk, Function.update_same]
        exact Option.some_ne_none _
      · rw [Function.update_noteq hk]
        rcases List.mem_append.mp hl' with hl' | hl'
        · exact hd.seen l' hl'
        · exact absurd (congrArg hash (List.mem_singleton.mp hl')) hk

theorem storeEntries_distinct :
    ∀ (es : List (UInt64 × Labels)) (h : JoinHelper) (m : UInt64 → Option UInt64),
      h.Distinct hash → (storeEntries hash es h m).1.Distinct hash
  | [], _, _, hd => hd
  | (_, l) :: es, _, _, hd => storeEntries_distinct es _ _ (JoinHelper.append_distinct hash hd l)

theorem initJoinTables_series_distinct (o : VectorOperator) (hcSide lcSide : List Labels) :
    (o.initJoinTables hash hcSide lcSide).series.Pairwise fun a b => hash a ≠ hash b :=
  (storeEntries_distinct hash _ _ _ (JoinHelper.distinct_empty hash)).pairwise

/-- `init` records no pair for a table of distinct hashes. -/
theorem pairsOf_eq_nil {series : List Labels} (h : series.Pairwise fun a b => hash a ≠ hash b) :
    DuplicateLabelCheck.pairsOf hash series = [] := by
  refine List.eq_nil_iff_forall_not_mem.mpr fun q hq => ?_
  obtain ⟨hba, ha, hh⟩ := DuplicateLabelCheck.pairsOf_sound hash series q hq
  have hb : q.b < series.length := by omega
  simp only [List.getD_eq_getElem?_getD, List.getElem?_eq_getElem ha, List.getElem?_eq_getElem hb,
    Option.getD_some] at hh
  exact List.pairwise_iff_getElem.mp h q.b q.a hb ha hba hh.symm

end Distinct

theorem DuplicateLabelCheck.next_of_no_pairs {H : Type} (hash : Labels → UInt64)
    {d : DuplicateLabelCheck} (hd : d.once = true) (hp : d.p = []) (series : Except Err (List Labels))
    (input : Except Err (Option (Batch H))) : d.next hash .background series input = (input, d) := by
  have hinit : d.init hash series = (.ok (), d) := by simp [DuplicateLabelCheck.init, hd]
  simp only [DuplicateLabelCheck.next, Context.background, hinit]
  rcases input with e | _ | b
  · rfl
  · rfl
  · simp [hp]

/-! ## The plan -/

/-- `duplicateLabelCheck` over `vectorOperator`: the check, the operator and
the operator's buckets. -/
structure CheckedVector (H : Type) where
  d : DuplicateLabelCheck
  o : VectorOperator
  s : Store H

namespace CheckedVector

variable {H : Type} (hops : HistogramOps H) (hash : Labels → UInt64)

/-- `Next` on the check under a live context.  The check's `init` reads the
operator's `Series()` on its first call only (later calls pass it nothing it
reads); then the check reads the operator's `Next()`. -/
def next (pl : CheckedVector H) (lser rser : Except Err (List Labels)) (p : Pull H) :
    Except Err (Option (Batch H)) × CheckedVector H :=
  let child : Except Err (List Labels) × VectorOperator × Store H :=
    if pl.d.once then (.ok [], pl.o, pl.s) else pl.o.callSeries hash lser rser pl.s
  match pl.d.init hash child.1 with
  | (.error e, d) => (.error e, ⟨d, child.2.1, child.2.2⟩)
  | (.ok (), d) =>
    let input := child.2.1.next hops hash .background lser rser p child.2.2
    let out := d.next hash .background child.1 (input.1.map VectorOperator.batchOf)
    (out.1, ⟨out.2, input.2.1, input.2.2⟩)

/-- A run of `Next` calls on the check, the operator's children's `Series()`
fixed: the result of each call. -/
def run (pl : CheckedVector H) (lser rser : Except Err (List Labels)) :
    List (Pull H) → List (Except Err (Option (Batch H)))
  | [] => []
  | p :: ps => (pl.next hops hash lser rser p).1 :: run (pl.next hops hash lser rser p).2 lser rser ps

theorem next_checked {pl : CheckedVector H} (hd : pl.d.once = true) (hp : pl.d.p = [])
    (lser rser : Except Err (List Labels)) (p : Pull H) :
    pl.next hops hash lser rser p =
      ((pl.o.next hops hash .background lser rser p pl.s).1.map VectorOperator.batchOf,
        ⟨pl.d, (pl.o.next hops hash .background lser rser p pl.s).2.1,
          (pl.o.next hops hash .background lser rser p pl.s).2.2⟩) := by
  have hinit : pl.d.init hash (.ok []) = (.ok (), pl.d) := by simp [DuplicateLabelCheck.init, hd]
  simp only [next, hd, if_true, hinit, DuplicateLabelCheck.next_of_no_pairs hash hd hp]

/-- **Once the check has run `init` and recorded no pair, the check over
the operator is the operator**, call for call. -/
theorem run_checked :
    ∀ (pl : CheckedVector H), pl.d.once = true → pl.d.p = [] →
      ∀ (lser rser : Except Err (List Labels)) (pulls : List (Pull H)),
        pl.run hops hash lser rser pulls =
          (pl.o.run hops hash lser rser pulls pl.s).map (Except.map VectorOperator.batchOf)
  | _, _, _, _, _, [] => rfl
  | pl, hd, hp, lser, rser, p :: ps => by
    rw [run, next_checked hops hash hd hp, VectorOperator.run, List.map_cons]
    exact congrArg _ (run_checked ⟨pl.d, (pl.o.next hops hash .background lser rser p pl.s).2.1,
      (pl.o.next hops hash .background lser rser p pl.s).2.2⟩ hd hp lser rser ps)

theorem next_new {o : VectorOperator} (hfresh : o.once = false) (s : Store H)
    (lser rser : Except Err (List Labels)) (p : Pull H) :
    ∃ d : DuplicateLabelCheck, d.once = true ∧ d.p = [] ∧
      (⟨.new, o, s⟩ : CheckedVector H).next hops hash lser rser p =
        ((o.next hops hash .background lser rser p s).1.map VectorOperator.batchOf,
          ⟨d, (o.next hops hash .background lser rser p s).2.1,
            (o.next hops hash .background lser rser p s).2.2⟩) := by
  -- a failed `Series()` of a child fails the check's `init` and the operator's `initOnce` alike
  rcases rser with e | rs
  · exact ⟨⟨true, [], []⟩, rfl, rfl, by simp [next, DuplicateLabelCheck.new, DuplicateLabelCheck.init,
      VectorOperator.callSeries, VectorOperator.next, VectorOperator.initOnce, VectorOperator.init, hfresh,
      Context.background, Except.map]⟩
  rcases lser with e | ls
  · exact ⟨⟨true, [], []⟩, rfl, rfl, by simp [next, DuplicateLabelCheck.new, DuplicateLabelCheck.init,
      VectorOperator.callSeries, VectorOperator.next, VectorOperator.initOnce, VectorOperator.init, hfresh,
      Context.background, Except.map]⟩
  have hp : DuplicateLabelCheck.pairsOf hash (o.ready hash ls rs).series = [] :=
    pairsOf_eq_nil hash (initJoinTables_series_distinct hash _ _ _)
  refine ⟨DuplicateLabelCheck.ready hash (o.ready hash ls rs).series, rfl, hp, ?_⟩
  have hinit : DuplicateLabelCheck.new.init hash (.ok (o.ready hash ls rs).series) =
      (.ok (), DuplicateLabelCheck.ready hash (o.ready hash ls rs).series) := rfl
  have hnew : DuplicateLabelCheck.new.once = false := rfl
  simp only [next, hnew, Bool.false_eq_true, if_false, VectorOperator.callSeries,
    VectorOperator.initOnce_first hash o ls rs hfresh, hinit,
    DuplicateLabelCheck.next_of_no_pairs hash (d := DuplicateLabelCheck.ready hash _) rfl hp,
    VectorOperator.next_first hash o ls rs hops hfresh]

/-- **`duplicateLabelCheck` over `vectorOperator` is the operator**: on every
run of `Next` calls on the plan, from a new check over a new operator, each
call returns what the operator returns on its own, for every label hash and
whatever the operator's children return. -/
theorem check_over_vector (o : VectorOperator) (hfresh : o.once = false) (s : Store H)
    (lser rser : Except Err (List Labels)) (pulls : List (Pull H)) :
    (⟨.new, o, s⟩ : CheckedVector H).run hops hash lser rser pulls =
      (o.run hops hash lser rser pulls s).map (Except.map VectorOperator.batchOf) := by
  cases pulls with
  | nil => rfl
  | cons p ps =>
    obtain ⟨d, hd, hp, hnext⟩ := next_new hops hash hfresh s lser rser p
    rw [run, hnext, run_checked hops hash _ hd hp]
    rfl

/-- Two lhs series that differ only in their name, under `group_left`: the
operator gives both samples of the step one ID, and the check passes the step
as the operator returns it. -/
theorem check_over_vector_passes_shared_id :
    let o : VectorOperator := newVectorOperator lengthHash ⟨.manyToOne, ["job"], true, []⟩ .add false
    let lser : List Labels := [[⟨"__name__", "a"⟩, ⟨"job", "x"⟩], [⟨"__name__", "b"⟩, ⟨"job", "x"⟩]]
    let rser : List Labels := [[⟨"__name__", "c"⟩, ⟨"job", "x"⟩]]
    let pulls : List (Pull Unit) := [⟨.ok [⟨0, [(0, 1.5), (1, 2.5)], []⟩], .ok [⟨0, [(0, 3.5)], []⟩]⟩]
    (⟨.new, o, Store.empty⟩ : CheckedVector Unit).run HistogramOps.unit lengthHash (.ok lser) (.ok rser) pulls =
        (o.run HistogramOps.unit lengthHash (.ok lser) (.ok rser) pulls Store.empty).map
          (Except.map VectorOperator.batchOf) ∧
      ((⟨.new, o, Store.empty⟩ : CheckedVector Unit).run HistogramOps.unit lengthHash (.ok lser) (.ok rser)
        pulls).map (Except.map (Option.map (List.map StepVector.sampleIDs))) = [.ok (some [[0, 0]])] := by
  intro o lser rser pulls
  have h := check_over_vector HistogramOps.unit lengthHash o rfl Store.empty (.ok lser) (.ok rser) pulls
  refine ⟨h, ?_⟩
  rw [h]
  simp only [o, lser, rser, pulls]
  rfl

end CheckedVector

namespace ScalarOperator

variable {H : Type} {o : ScalarOperator H}

theorem callSeries_unread (h : o.seriesOnce = true) (vs vs' : Except Err (List Labels)) :
    o.callSeries vs = o.callSeries vs' := by
  simp only [callSeries, seriesOnceDo, h, if_true]

theorem next_unread {input : Except Err (Option (Batch H))}
    (h : ∀ b, input = .ok (some b) → o.seriesOnce = false → False) (ctx : Context)
    (vs vs' : Except Err (List Labels)) (scalarIn : Except Err (Batch H)) :
    o.next ctx vs input scalarIn = o.next ctx vs' input scalarIn := by
  unfold next
  split
  · rfl
  rcases input with e | _ | b
  · rfl
  · rfl
  · simp only [seriesOnceDo, Bool.eq_false_or_eq_true o.seriesOnce |>.resolve_right (h b rfl), if_true]

end ScalarOperator

/-! ## The binary `scalarOperator` over `vectorOperator` -/

/-- A binary `scalarOperator` whose vector child is a `vectorOperator`, as in
`(a + on(job) b) * 2`: the scalar operator, the vector operator, and the
vector operator's buckets.  The scalar child is left open: a call reads its
`Next()`. -/
structure ScaledVector (H : Type) where
  so : ScalarOperator H
  vo : VectorOperator
  s : Store H

namespace ScaledVector

variable {H : Type} (hops : HistogramOps H) (hash : Labels → UInt64)

/-- What a call on the plan reads: for `Series` the vector operator's
children's `Series()`; for `Next` the context, those, the children's
`Next()`, and the scalar child's `Next()`. -/
abbrev Request (H : Type) :=
  Call (Except Err (List Labels) × Except Err (List Labels))
    (Context × Except Err (List Labels) × Except Err (List Labels) × Pull H × Except Err (Batch H))

/-- A call on the plan.  `Series` is the scalar operator's, whose `loadSeries`
calls the vector operator's `Series()` until `seriesOnce` has run.  `Next`
returns `ctx.Err()` first, then calls the vector operator's `Next()`; a batch
is followed by the vector operator's `Series()` when `seriesOnce` has not run
(other calls pass the scalar operator nothing it reads). -/
def call (pl : ScaledVector H) : Request H → Reply H × ScaledVector H
  | .series (ls, rs) =>
    let child : Except Err (List Labels) × VectorOperator × Store H :=
      if pl.so.seriesOnce then (.ok [], pl.vo, pl.s) else pl.vo.callSeries hash ls rs pl.s
    (.series (pl.so.callSeries child.1).1, ⟨(pl.so.callSeries child.1).2, child.2.1, child.2.2⟩)
  | .next (ctx, ls, rs, p, scalarIn) =>
    match ctx.err with
    | some e => (.next (.error e), pl)
    | none =>
      let input := pl.vo.next hops hash ctx ls rs p pl.s
      let batch := input.1.map VectorOperator.batchOf
      let child : Except Err (List Labels) × VectorOperator × Store H :=
        match batch, pl.so.seriesOnce with
        | .ok (some _), false => input.2.1.callSeries hash ls rs input.2.2
        | _, _ => (.ok [], input.2)
      let out := pl.so.next ctx child.1 batch scalarIn
      (.next out.1, ⟨out.2, child.2.1, child.2.2⟩)

/-- The vector operator's part of a call. -/
def vectorRequest : Request H → VectorOperator.Request H
  | .series a => .series a
  | .next (ctx, ls, rs, p, _) => .next (ctx, ls, rs, p)

/-- What the children return to a call: what `vectorOperator` asks of its own
children.  Nothing is asked of the scalar child. -/
def Admissible (lser rser : List Labels) (c : Request H) : Prop :=
  VectorOperator.Admissible lser rser (vectorRequest c)

/-- The states a run of calls reaches: the scalar operator's table is `ser`
once loaded, and the vector operator is in a state its own runs reach. -/
def Reached (vo : VectorOperator) (lser rser ser : List Labels) (pl : ScaledVector H) : Prop :=
  pl.so.Loaded (vo.ready hash lser rser).series ser ∧ VectorOperator.Reached hash vo lser rser (pl.vo, pl.s)

section Calls

variable {vo : VectorOperator} {lser rser : List Labels}

/-- **One call** from a reached state reaches a state again, and its reply
keeps the contract with `ser`: the scalar operator reads the table of
`ready`, whether or not it calls the vector operator's `Series()`. -/
theorem call_keeps (hfresh : vo.once = false) {ser : List Labels}
    (hlen : ser.length = (vo.ready hash lser rser).series.length)
    {pl : ScaledVector H} (hpl : Reached hash vo lser rser ser pl) {c : Request H}
    (hc : Admissible lser rser c) :
    Reached hash vo lser rser ser (call hops hash pl c).2 ∧ (call hops hash pl c).1.Keeps ser := by
  obtain ⟨hso, hvo⟩ := hpl
  cases c with
  | series a =>
    obtain ⟨ls, rs⟩ := a
    obtain ⟨rfl, rfl⟩ := hc
    have hsc := ScalarOperator.call_keeps hlen pl.so (.series (.ok (vo.ready hash lser rser).series)) hso rfl
    simp only [call]
    by_cases h : pl.so.seriesOnce = true
    · rw [if_pos h, ScalarOperator.callSeries_unread h _ (.ok (vo.ready hash lser rser).series)]
      exact ⟨⟨hsc.1, hvo⟩, hsc.2⟩
    · rw [if_neg h, VectorOperator.callSeries_reached hash hfresh hvo]
      exact ⟨⟨hsc.1, (VectorOperator.call_reached hops hash hfresh hvo
        (c := .series (.ok lser, .ok rser)) ⟨rfl, rfl⟩).1⟩, hsc.2⟩
  | next b =>
    obtain ⟨ctx, ls, rs, p, scalarIn⟩ := b
    obtain ⟨rfl, rfl, hts⟩ := hc
    cases hctx : ctx.err with
    | some e =>
      simp only [call, hctx]
      exact ⟨⟨hso, hvo⟩, trivial⟩
    | none =>
      obtain ⟨hvr, hvk⟩ := VectorOperator.call_reached hops hash hfresh hvo
        (c := .next (ctx, .ok lser, .ok rser, p)) ⟨rfl, rfl, hts⟩
      have hvr' : VectorOperator.Reached hash vo lser rser
          (pl.vo.next hops hash ctx (.ok lser) (.ok rser) p pl.s).2 := hvr
      have hsc := ScalarOperator.call_keeps hlen pl.so (.next (ctx, .ok (vo.ready hash lser rser).series,
        (pl.vo.next hops hash ctx (.ok lser) (.ok rser) p pl.s).1.map VectorOperator.batchOf, scalarIn)) hso
        ⟨rfl, hvk⟩
      simp only [call, hctx]
      split
      · rw [VectorOperator.callSeries_reached hash hfresh hvr']
        exact ⟨⟨hsc.1, (VectorOperator.call_reached hops hash hfresh hvr'
          (c := .series (.ok lser, .ok rser)) ⟨rfl, rfl⟩).1⟩, hsc.2⟩
      · rename_i hne
        rw [ScalarOperator.next_unread hne ctx (.ok []) (.ok (vo.ready hash lser rser).series)]
        exact ⟨⟨hsc.1, hvr'⟩, hsc.2⟩

end Calls

/-- **The binary `scalarOperator` over `vectorOperator` keeps the contract.**
On a fresh scalar operator over a new vector operator, whose children return
the tables `lser` and `rser` and no lhs step at `-1`, every run of calls on
the plan, `Series` and `Next` in any order, replies with one table on every
`Series`: the scalar operator's table over the table of `ready`, one label
set per series of it.  Every ID that `Next` returns is below its length. -/
theorem scaled_vector_keeps_contract (so : ScalarOperator H) (hso : so.seriesOnce = false)
    {vo : VectorOperator} (hfresh : vo.once = false) {lser rser : List Labels}
    (s : Store H) (calls : List (Request H))
    (hcalls : ∀ c ∈ calls, Admissible lser rser c) :
    ∃ ser, (so.callSeries (.ok (vo.ready hash lser rser).series)).1 = .ok ser ∧
      ser.length = (vo.ready hash lser rser).series.length ∧
      ∀ r ∈ runCalls (call hops hash) ⟨so, vo, s⟩ calls, r.Keeps ser := by
  obtain ⟨ser, hser⟩ : ∃ ser, so.loadSeries (.ok (vo.ready hash lser rser).series) = .ok ser := ⟨_, rfl⟩
  have ho : so.Loaded (vo.ready hash lser rser).series ser := ⟨hser, fun h => absurd h (by simp [hso])⟩
  have hlen := ScalarOperator.length_loadSeries hser
  refine ⟨ser, by simp [ScalarOperator.callSeries, ScalarOperator.seriesOnceDo_loaded ho], hlen, ?_⟩
  exact runCalls_all (call hops hash) (Reached hash vo lser rser ser) (Admissible lser rser) (Reply.Keeps ser)
    (fun _ _ hpl hc => call_keeps hops hash hfresh hlen hpl hc) calls _ ⟨ho, Or.inl rfl⟩ hcalls

/-- `(a + on(job) group_left b) * 2`: `Next` first, then `Series`. -/
theorem scaled_vector_keeps_contract_times_two :
    let so : ScalarOperator Unit := .newScalar (fun p _ => (p.1 * p.2, true)) (fun _ _ => none) .mul .right false
    let vo : VectorOperator := newVectorOperator lengthHash ⟨.manyToOne, ["job"], true, []⟩ .add false
    let lser : List Labels := [[⟨"__name__", "a"⟩, ⟨"job", "x"⟩], [⟨"__name__", "b"⟩, ⟨"job", "x"⟩]]
    let rser : List Labels := [[⟨"__name__", "c"⟩, ⟨"job", "x"⟩]]
    let calls : List (Request Unit) :=
      [.next (.background, .ok lser, .ok rser,
          ⟨.ok [⟨5, [(0, 1.5), (1, 2.5)], []⟩], .ok [⟨5, [(0, 3.5)], []⟩]⟩, .ok [⟨5, [(0, 2)], []⟩]),
        .series (.ok lser, .ok rser)]
    ∃ ser, (so.callSeries (.ok (vo.ready lengthHash lser rser).series)).1 = .ok ser ∧
      ser.length = (vo.ready lengthHash lser rser).series.length ∧
      ∀ r ∈ runCalls (call HistogramOps.unit lengthHash) ⟨so, vo, Store.empty⟩ calls, r.Keeps ser := by
  intro so vo lser rser calls
  refine scaled_vector_keeps_contract HistogramOps.unit lengthHash so rfl rfl _ calls
    fun c hc => ?_
  simp only [calls, List.mem_cons, List.mem_singleton, List.not_mem_nil, or_false] at hc
  rcases hc with rfl | rfl
  · exact ⟨rfl, rfl, fun _ hb => by cases hb; decide⟩
  · exact ⟨rfl, rfl⟩

end ScaledVector

end PromqlEngine
