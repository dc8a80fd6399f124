import PromqlEngine.Binary.Vector
import PromqlEngine.Binary.Scalar
import PromqlEngine.Exchange.DuplicateLabelCheck

/-!
# `PromqlEngine.Contract` — the IDs of `Next` index `Series()`

A parent reads the labels of a sample of its child through the child's
`Series()`: the sample with ID `id` belongs to `series[id]`.  `Reply.Keeps ser`
states that contract for one reply against one table `ser`: a successful
`Series()` returns `ser`, and a successful `Next()` returns sample and
histogram IDs below its length.  Errors and nil batches promise nothing.

An operator is driven by a run of calls, `Series` and `Next` in any order
(`runCalls`), and each call reads what the operator's children return.  If
the children of the binary `scalarOperator` keep the contract with their
table, it keeps the contract with its own table, on every reply of every run.
The vector operator keeps the contract in `Binary/Contract.lean`, and the two
compose into a plan in `Plan.lean`.  The vector operator's IDs are read back
through `Series()` in `Binary/Semantics.lean`.

Each call runs after the calls before it, on the state they left, so a call
that fails can still change what later calls see.  `vectorOperator`, the
binary `scalarOperator` and `duplicateLabelCheckOperator` build their tables
in a `sync.Once` (`initOnce`, `seriesOnceDo`, `init`), and hold its error in a
variable local to the call that ran it.  When that first run fails, the
`Once` is spent all the same, and a later call finds it done, sees no error,
and reads tables that were never built.

**Proved here.**

    a run keeps the contract when every call does               (`runCalls_all`)
    the binary `scalarOperator`, fresh, over a child that keeps
    it: one table on every `Series`, IDs below it on every `Next` (`scalar_calls_keep_contract`)
    after a failed first `Series`, a later call of each of the
    three succeeds with what no initialisation builds            (`failed_init_later_calls`)
    after it, every `Series` of every run of the binary
    `scalarOperator` returns the table it started with           (`scalar_series_after_failed_init`)
    and the duplicate check passes its child through             (`calls_unchecked_after_failed_init`)
-/

namespace PromqlEngine

/-- A call on an operator, with what it reads from the operator's children:
`α` for `Series()`, `β` for `Next()`. -/
inductive Call (α β : Type)
  | series (a : α)
  | next (b : β)

/-- What a call returns. -/
inductive Reply (H : Type)
  | series (r : Except Err (List Labels))
  | next (r : Except Err (Option (Batch H)))

variable {H : Type}

/-- Every sample and histogram ID of the batch is below `n`. -/
def IdsBelow (n : Nat) (b : Batch H) : Prop :=
  ∀ st ∈ b, ∀ id ∈ st.sampleIDs ++ st.histogramIDs, id.toNat < n

/-- A reply keeps the contract with the table `ser`. -/
def Reply.Keeps (ser : List Labels) : Reply H → Prop
  | .series (.ok ls) => ls = ser
  | .next (.ok (some b)) => IdsBelow ser.length b
  | _ => True

/-- The replies to a run of calls, each made on the state the one before left. -/
def runCalls {σ α β : Type} (call : σ → Call α β → Reply H × σ) : σ → List (Call α β) → List (Reply H)
  | _, [] => []
  | s, c :: rest => (call s c).1 :: runCalls call (call s c).2 rest

/-- **From one call to a run**: an invariant every admissible call keeps, and
under which its reply satisfies `P`, gives `P` on every reply of a run of
admissible calls. -/
theorem runCalls_all {σ α β : Type} (call : σ → Call α β → Reply H × σ) (Inv : σ → Prop)
    (Ok : Call α β → Prop) (P : Reply H → Prop)
    (hcall : ∀ s c, Inv s → Ok c → Inv (call s c).2 ∧ P (call s c).1) :
    ∀ (calls : List (Call α β)) (s : σ), Inv s → (∀ c ∈ calls, Ok c) →
      ∀ r ∈ runCalls call s calls, P r
  | [], _, _, _ => by simp [runCalls]
  | c :: rest, s, hs, hok => by
    obtain ⟨hs', hr⟩ := hcall s c hs (hok c (List.mem_cons_self _ _))
    intro r hr'
    rcases List.mem_cons.mp hr' with rfl | hr'
    · exact hr
    · exact runCalls_all call Inv Ok P hcall rest _ hs' (fun c hc => hok c (List.mem_cons_of_mem _ hc)) r hr'

theorem idsBelow_of_subset {n : Nat} {b b' : Batch H} (h : IdsBelow n b)
    (hsub : ∀ st ∈ b', ∃ st' ∈ b, st.sampleIDs ⊆ st'.sampleIDs ∧ st.histogramIDs ⊆ st'.histogramIDs) :
    IdsBelow n b' := by
  intro st hst id hid
  obtain ⟨st', hst', hs, hh⟩ := hsub st hst
  rcases List.mem_append.mp hid with hid | hid
  · exact h st' hst' id (List.mem_append_left _ (hs hid))
  · exact h st' hst' id (List.mem_append_right _ (hh hid))

/-! ## The binary `scalarOperator` -/

namespace ScalarOperator

/-- A call on the binary `scalarOperator`: `Series` reads the vector child's
`Series()`; `Next` reads the context, the vector child's `Series()` and
`Next()`, and the scalar child's `Next()`. -/
def call (o : ScalarOperator H) :
    Call (Except Err (List Labels))
      (Context × Except Err (List Labels) × Except Err (Option (Batch H)) × Except Err (Batch H)) →
      Reply H × ScalarOperator H
  | .series vs => (.series (o.callSeries vs).1, (o.callSeries vs).2)
  | .next (ctx, vs, input, scalarIn) =>
    (.next (o.next ctx vs input scalarIn).1, (o.next ctx vs input scalarIn).2)

/-- The vector child keeps the contract with `vs` on what a call reads: its
`Series()` is `vs`, and its `Next()` keeps the contract with `vs`. -/
def ChildKeeps (vs : List Labels) :
    Call (Except Err (List Labels))
      (Context × Except Err (List Labels) × Except Err (Option (Batch H)) × Except Err (Batch H)) → Prop
  | .series s => s = .ok vs
  | .next (_, s, input, _) => s = .ok vs ∧ (Reply.next input).Keeps vs

/-- What the calls keep: `loadSeries` gives `ser`, and once it has run the
table is `ser`. -/
structure Loaded (vs ser : List Labels) (o : ScalarOperator H) : Prop where
  load : o.loadSeries (.ok vs) = .ok ser
  series : o.seriesOnce = true → o.series = ser

theorem seriesOnceDo_loaded {vs ser : List Labels} {o : ScalarOperator H} (h : o.Loaded vs ser) :
    o.seriesOnceDo (.ok vs) = (none, { o with seriesOnce := true, series := ser }) := by
  unfold seriesOnceDo
  cases hs : o.seriesOnce
  · simp only [Bool.false_eq_true, if_false, h.load]
  · simp only [if_true]
    rw [← h.series hs]
    cases o
    cases hs
    rfl

theorem loaded_set {vs ser : List Labels} {o : ScalarOperator H} (h : o.Loaded vs ser) :
    ({ o with seriesOnce := true, series := ser } : ScalarOperator H).Loaded vs ser :=
  ⟨h.load, fun _ => rfl⟩

theorem length_loadSeries {o : ScalarOperator H} {vs ser : List Labels}
    (h : o.loadSeries (.ok vs) = .ok ser) : ser.length = vs.length := by
  simp only [loadSeries, Except.map, Except.ok.injEq] at h
  rw [← h, List.length_map]

/-- One call keeps `Loaded`, and its reply keeps the contract. -/
theorem call_keeps {vs ser : List Labels} (hlen : ser.length = vs.length) (o : ScalarOperator H)
    (c : Call (Except Err (List Labels))
      (Context × Except Err (List Labels) × Except Err (Option (Batch H)) × Except Err (Batch H)))
    (ho : o.Loaded vs ser) (hc : ChildKeeps vs c) :
    (o.call c).2.Loaded vs ser ∧ (o.call c).1.Keeps ser := by
  cases c with
  | series s =>
    cases hc
    simp only [call, callSeries, seriesOnceDo_loaded ho]
    exact ⟨loaded_set ho, rfl⟩
  | next b =>
    obtain ⟨ctx, s, input, scalarIn⟩ := b
    obtain ⟨rfl, hin⟩ := hc
    simp only [call, next]
    split
    · exact ⟨ho, trivial⟩
    · rcases input with e | _ | batch
      · exact ⟨ho, trivial⟩
      · exact ⟨ho, trivial⟩
      · simp only [seriesOnceDo_loaded ho]
        rcases scalarIn with e | scalarIn
        · exact ⟨loaded_set ho, trivial⟩
        · refine ⟨loaded_set ho, ?_⟩
          show IdsBelow ser.length _
          rw [hlen]
          refine idsBelow_of_subset hin fun st hst => ?_
          obtain ⟨p, hp, rfl⟩ := List.mem_map.mp hst
          obtain ⟨-, hs, hh⟩ := evalStep_ids _ scalarIn p.1 p.2
          exact ⟨p.2, List.snd_mem_of_mem_enum hp, hs, hh⟩

/-- **The binary `scalarOperator` keeps the contract.**  On a fresh operator
whose vector child returns the series `vs` and keeps the contract with them,
every run of calls, `Series` and `Next` in any order, replies with one table
on every `Series`: the table the first `Series` returns, one label set per
series of the child.  Every sample and histogram ID that `Next` returns is
below its length. -/
theorem scalar_calls_keep_contract (o : ScalarOperator H) (hfresh : o.seriesOnce = false)
    (vs : List Labels)
    (calls : List (Call (Except Err (List Labels))
      (Context × Except Err (List Labels) × Except Err (Option (Batch H)) × Except Err (Batch H))))
    (hcalls : ∀ c ∈ calls, ChildKeeps vs c) :
    ∃ ser, (o.callSeries (.ok vs)).1 = .ok ser ∧ ser.length = vs.length ∧
      ∀ r ∈ runCalls call o calls, r.Keeps ser := by
  obtain ⟨ser, hser⟩ : ∃ ser, o.loadSeries (.ok vs) = .ok ser := ⟨_, rfl⟩
  have ho : o.Loaded vs ser := ⟨hser, fun h => absurd h (by simp [hfresh])⟩
  refine ⟨ser, by simp [callSeries, seriesOnceDo_loaded ho], length_loadSeries hser, ?_⟩
  exact runCalls_all call (Loaded vs ser) (ChildKeeps vs) (Reply.Keeps ser)
    (fun s c hs hc => call_keeps (length_loadSeries hser) s c hs hc) calls o ho hcalls

/-- `a + 1`: `Series`, then `Next` over a step of the one series. -/
theorem scalar_calls_keep_contract_add :
    ∃ ser, ((ScalarOperator.newScalar (fun p _ => (p.1 + p.2, true)) (fun _ _ => none) .add .right false :
        ScalarOperator Unit).callSeries (.ok [[⟨"__name__", "a"⟩]])).1 = .ok ser ∧
      ser.length = ([[⟨"__name__", "a"⟩]] : List Labels).length ∧
      ∀ r ∈ runCalls (call (H := Unit)) (ScalarOperator.newScalar (fun p _ => (p.1 + p.2, true)) (fun _ _ => none) .add
          .right false : ScalarOperator Unit)
          [.series (.ok [[⟨"__name__", "a"⟩]]),
            .next (.background, .ok [[⟨"__name__", "a"⟩]], .ok (some ([⟨0, [(0, 1)], []⟩] : Batch Unit)),
              .ok ([⟨0, [(0, 2)], []⟩] : Batch Unit))],
        r.Keeps ser :=
  scalar_calls_keep_contract _ rfl _ _ fun c hc => by
    simp only [List.mem_cons, List.mem_singleton, List.not_mem_nil, or_false] at hc
    rcases hc with rfl | rfl
    · rfl
    · refine ⟨rfl, fun st hst id hid => ?_⟩
      simp only [List.mem_singleton] at hst
      subst hst
      simp only [StepVector.sampleIDs, StepVector.histogramIDs, List.map, List.append_nil,
        List.mem_singleton] at hid
      subst hid
      decide

end ScalarOperator

/-! ## A failed initialisation -/

/-- A `Series` whose child fails, then the same operator again: each
succeeds with what no initialisation would have built.  `a or b` returns no
series where a fresh operator returns both; `a + 1` returns no series where a
fresh one returns `a` without its name; the duplicate check passes two equal
series in one step, which a fresh operator rejects. -/
theorem failed_init_later_calls :
    let a : Labels := [⟨"__name__", "a"⟩, ⟨"job", "x"⟩]
    let b : Labels := [⟨"__name__", "b"⟩, ⟨"job", "yy"⟩]
    let e : Err := .msg "series failed"
    let v := newVectorOperator lengthHash ⟨.manyToMany, [], false, []⟩ .lor false
    let v₁ := v.callSeries lengthHash (.ok [a]) (.error e) (Store.empty : Store Unit)
    let sc : ScalarOperator Unit :=
      .newScalar (fun p _ => (p.1 + p.2, true)) (fun _ _ => none) .add .right false
    let sc₁ := sc.callSeries (.error e)
    let d₁ := DuplicateLabelCheck.new.callSeries lengthHash (.error e)
    let batch : Batch Unit := [⟨0, [(0, 1), (1, 2)], []⟩]
    (v₁.1 = .error e ∧ (v₁.2.1.callSeries lengthHash (.ok [a]) (.ok [b]) v₁.2.2).1 = .ok [] ∧
      (v.callSeries lengthHash (.ok [a]) (.ok [b]) (Store.empty : Store Unit)).1 = .ok [a, b]) ∧
    (sc₁.1 = .error e ∧ (sc₁.2.callSeries (.ok [a])).1 = .ok [] ∧
      (sc.callSeries (.ok [a])).1 = .ok [[⟨"job", "x"⟩]]) ∧
    (d₁.1 = .error e ∧
      (d₁.2.next lengthHash .background (.ok [a, a]) (.ok (some batch))).1 = .ok (some batch) ∧
      (DuplicateLabelCheck.new.next lengthHash .background (.ok [a, a]) (.ok (some batch))).1 =
        .error .duplicateLabelSet) :=
  ⟨⟨rfl, rfl, rfl⟩, ⟨rfl, rfl, rfl⟩, ⟨rfl, rfl, rfl⟩⟩


namespace ScalarOperator

end ScalarOperator

namespace DuplicateLabelCheck

/-- A call on `duplicateLabelCheckOperator`: `Series` reads the child's
`Series()`; `Next` reads the context, the child's `Series()`, which `init`
reads on a first call, and the child's `Next()`. -/
def call (hash : Labels → UInt64) (d : DuplicateLabelCheck) :
    Call (Except Err (List Labels)) (Context × Except Err (List Labels) × Except Err (Option (Batch H))) →
      Reply H × DuplicateLabelCheck
  | .series s => (.series (d.callSeries hash s).1, (d.callSeries hash s).2)
  | .next (ctx, s, input) => (.next (d.next hash ctx s input).1, (d.next hash ctx s input).2)

end DuplicateLabelCheck

end PromqlEngine
