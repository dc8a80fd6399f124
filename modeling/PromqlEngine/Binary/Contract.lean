import PromqlEngine.Binary.Histograms
import PromqlEngine.Binary.Semantics
import PromqlEngine.Contract

/-!
# `PromqlEngine.Binary.Contract` — `vectorOperator` keeps the contract of `Series()`

`Contract.lean` states the contract between operators: every ID of a step
that `Next` returns indexes the table that `Series()` returns.  This module
proves it for `vectorOperator`, on every run of `Series` and `Next` calls in
any order from a new operator.  Either call may come first, since both run
`initOnce`, and cancelled calls may come anywhere.

Nothing is asked of the label hash or of the number of series, and of the
children's steps only their timestamps.  An ID the operator emits is the
`outputSeriesID` of a row of `or` or `unless`, or of a pair whose low-card
bucket was marked at the step's timestamp.  Only low-card buckets are ever
marked (`LowMarked`), so such a pair matches a high-card series with a
low-card one, and `initJoinTables` stored at least one key
(`outputEntries_ne_nil_of_marked`).  The ID of a stored key is an index of
`series` (`storeEntries_lt`; a `uint64` that wraps only gets smaller), and a
key that is not stored reads `0`, an index too once one key is stored.  Two
output label sets of one hash share an index (`joinHelper.append`), which is
still an index.

A fresh bucket has `ats = -1`, so at the timestamp `-1` every bucket looks
marked, and `and` and the arithmetic operators pair series that do not
match, under IDs that may be past the end of `series`.  The lhs child is
asked for no step at `-1`.

A run whose first `init` fails is another matter: the `Once` is spent all the
same (`Contract.lean`), and every later `Series` returns the operator's
initial table, whatever the children return.

**Proved here.**

    every ID is an index of `series` once one key is stored      (`outputSeriesID_lt`)
    one step of the ready operator keeps its IDs in range and
    its marks on low-card buckets                                (`execBinaryOperation_idsBelow`)
    every reply of every run of calls on a new operator keeps
    the contract with the table of `ready`                       (`vector_calls_keep_contract`)
    at `-1`, `and` over an empty rhs breaks it                   (`and_at_minus_one_breaks_contract`)
    after a failed first `Series`, every `Series` of every run
    returns the table the operator started with                  (`vector_series_after_failed_init`)
-/

namespace PromqlEngine

/-! ## The IDs of a step -/

/-- Every sample and histogram ID of the step is below `n`. -/
def StepVector.IdsBelow {H : Type} (n : Nat) (st : StepVector UInt64 H) : Prop :=
  ∀ id ∈ st.sampleIDs ++ st.histogramIDs, id.toNat < n

section IdsBelow

variable {H : Type} {n : Nat}

theorem StepVector.idsBelow_empty (t : Int) : (StepVector.empty t : StepVector UInt64 H).IdsBelow n := by
  simp [StepVector.IdsBelow, StepVector.empty, StepVector.sampleIDs, StepVector.histogramIDs]

theorem StepVector.IdsBelow.appendSample {st : StepVector UInt64 H} (h : st.IdsBelow n) {id : UInt64}
    (hid : id.toNat < n) (v : Float) : (st.appendSample id v).IdsBelow n := by
  intro x hx
  rw [StepVector.sampleIDs_appendSample, show (st.appendSample id v).histogramIDs = st.histogramIDs from rfl,
    List.append_assoc, List.mem_append, List.mem_append, List.mem_singleton] at hx
  rcases hx with hx | rfl | hx
  · exact h x (List.mem_append_left _ hx)
  · exact hid
  · exact h x (List.mem_append_right _ hx)

theorem StepVector.IdsBelow.appendHistogram {st : StepVector UInt64 H} (h : st.IdsBelow n) {id : UInt64}
    (hid : id.toNat < n) (x : Option H) : (st.appendHistogram id x).IdsBelow n := by
  intro y hy
  rw [StepVector.histogramIDs_appendHistogram, show (st.appendHistogram id x).sampleIDs = st.sampleIDs from rfl,
    ← List.append_assoc, List.mem_append, List.mem_singleton] at hy
  rcases hy with hy | rfl
  · exact h y hy
  · exact hid

theorem Store.andThen_snd {α β : Type} {P : Store H → Prop} {p : Except Err α × Store H}
    {f : α → Store H → Except Err β × Store H} (hp : P p.2) (hf : ∀ a s, P s → P (f a s).2) :
    P (Store.andThen p f).2 := by
  obtain ⟨_ | a, s⟩ := p
  · exact hp
  · exact hf a s hp

theorem Store.andThen_ok_of {α β : Type} {P : Store H → Prop} {p : Except Err α × Store H}
    {f : α → Store H → Except Err β × Store H} (hp : P p.2) {b : β} (h : (Store.andThen p f).1 = .ok b) :
    ∃ a s, p.1 = .ok a ∧ P s ∧ (f a s).1 = .ok b := by
  obtain ⟨_ | a, s⟩ := p
  · cases h
  · exact ⟨a, s, rfl, hp, h⟩

end IdsBelow

namespace VectorOperator

variable {H : Type} (hops : HistogramOps H) (hash : Labels → UInt64)

/-! ## The calls -/

/-- What a call on `vectorOperator` reads: for `Series` both children's
`Series()`, which `initOnce` reads on a first call; for `Next` the context,
the children's `Series()` and their `Next()`. -/
abbrev Request (H : Type) :=
  Call (Except Err (List Labels) × Except Err (List Labels))
    (Context × Except Err (List Labels) × Except Err (List Labels) × Pull H)

/-- The batch `Next` returns, as the source returns it: nil when a child's
batch is empty, the one case in which the model returns no step. -/
def batchOf (b : Batch H) : Option (Batch H) := if b.isEmpty then none else some b

/-- A call on `vectorOperator`. -/
def call (st : VectorOperator × Store H) : Request H → Reply H × (VectorOperator × Store H)
  | .series (ls, rs) => (.series (st.1.callSeries hash ls rs st.2).1, (st.1.callSeries hash ls rs st.2).2)
  | .next (ctx, ls, rs, p) =>
    (.next ((st.1.next hops hash ctx ls rs p st.2).1.map batchOf), (st.1.next hops hash ctx ls rs p st.2).2)

/-- What the children return to a call: the tables `lser` and `rser` from
`Series()`, and from the lhs `Next()` no step at `-1`. -/
def Admissible (lser rser : List Labels) : Request H → Prop
  | .series (ls, rs) => ls = .ok lser ∧ rs = .ok rser
  | .next (_, ls, rs, p) => ls = .ok lser ∧ rs = .ok rser ∧ ∀ b, p.lhs = .ok b → ∀ l ∈ b, l.t ≠ -1

theorem keeps_batchOf {ser : List Labels} {b : Batch H} (h : IdsBelow ser.length b) :
    (Reply.next (.ok (batchOf b))).Keeps ser := by
  unfold batchOf
  split_ifs
  exacts [trivial, h]

theorem eq_background {ctx : Context} (h : ctx.err = none) : ctx = .background := by
  obtain ⟨err⟩ := ctx
  cases h
  rfl

/-! ## Marks on low-card buckets -/

/-- Only a bucket of a low-card series carries an `ats` mark. -/
def LowMarked (o : VectorOperator) (s : Store H) : Prop :=
  ∀ k, (s.buckets k).ats ≠ -1 → k ∈ o.lcJoinBuckets

section Marks

variable {o : VectorOperator} {s : Store H}

theorem lowMarked_new (o : VectorOperator) (w : List Warning) :
    o.LowMarked (⟨fun _ => JoinBucket.new, w⟩ : Store H) :=
  fun _ h => absurd rfl h

theorem LowMarked.setBucket (hs : o.LowMarked s) {k : UInt64} {b : JoinBucket H}
    (hb : b.ats ≠ -1 → k ∈ o.lcJoinBuckets) : o.LowMarked (s.setBucket k b) := by
  intro k' hk'
  by_cases h : k' = k
  · subst h
    simp only [Store.setBucket_buckets, Function.update_same] at hk'
    exact hb hk'
  · simp only [Store.setBucket_buckets, Function.update_noteq h] at hk'
    exact hs k' hk'

theorem LowMarked.warn (hs : o.LowMarked s) (w : Option Warning) : o.LowMarked (s.warn w) :=
  fun k hk => hs k (by rwa [Store.warn_buckets] at hk)

theorem mem_of_index {l : List UInt64} {x k : UInt64} (h : index l x = .ok k) : k ∈ l :=
  List.getElem?_mem (index_eq_ok.mp h)

theorem markSamples_lowMarked {mark : UInt64 → JoinBucket H → JoinBucket H} :
    ∀ (xs : List (UInt64 × Float)) (s : Store H), o.LowMarked s →
      o.LowMarked (markSamples o.lcJoinBuckets mark xs s).2
  | [], _, hs => hs
  | (id, _) :: xs, s, hs => by
    unfold markSamples
    split
    · exact hs
    · rename_i k hk
      exact markSamples_lowMarked xs _ (hs.setBucket fun _ => mem_of_index hk)

theorem claimLowCard_lowMarked {X : Type} {ts : Int} {claim : UInt64 → X → JoinBucket H → JoinBucket H} :
    ∀ (xs : List (UInt64 × X)) (s : Store H), o.LowMarked s → o.LowMarked (o.claimLowCard ts claim xs s).2
  | [], _, hs => hs
  | (id, x) :: xs, s, hs => by
    unfold claimLowCard
    split
    · exact hs
    · rename_i k hk
      split
      · exact hs
      · exact claimLowCard_lowMarked xs _ (hs.setBucket fun _ => mem_of_index hk)

end Marks

/-! ## The loops of a step -/

section Emit

variable {o : VectorOperator} {n : Nat} {ts : Int}

theorem emitSamples_idsBelow {buckets : List UInt64} {out : UInt64 → JoinBucket H → Option UInt64}
    {s : Store H} (hout : ∀ x k id, index buckets x = .ok k → out x (s.buckets k) = some id → id.toNat < n) :
    ∀ (xs : List (UInt64 × Float)) (step st : StepVector UInt64 H), step.IdsBelow n →
      emitSamples buckets out xs step s = .ok st → st.IdsBelow n
  | [], step, st, h, he => by
    cases he
    exact h
  | (x, v) :: xs, step, st, h, he => by
    unfold emitSamples at he
    split at he
    · cases he
    · rename_i k hk
      refine emitSamples_idsBelow hout xs _ st ?_ he
      split
      · rename_i id hid
        exact h.appendSample (hout x k id hk hid) v
      · exact h

theorem markOr_idsBelow (hrow : ∀ x k, index o.hcJoinBuckets x = .ok k → (o.outputSeriesID (x + 1) 0).toNat < n) :
    ∀ (xs : List (UInt64 × Float)) (step st : StepVector UInt64 H) (s : Store H), step.IdsBelow n →
      (o.markOr ts xs step s).1 = .ok st → st.IdsBelow n
  | [], step, st, _, h, he => by
    cases he
    exact h
  | (x, v) :: xs, step, st, s, h, he => by
    unfold markOr at he
    split at he
    · cases he
    · rename_i k hk
      exact markOr_idsBelow hrow xs _ st _ (h.appendSample (hrow x k hk) v) he

variable (hts : ts ≠ -1)
  (hpair : ∀ x k b, index o.hcJoinBuckets x = .ok k → k ∈ o.lcJoinBuckets → (o.outputSeriesID (x + 1) b).toNat < n)

include hts hpair

theorem joinHighCardSamples_idsBelow :
    ∀ (xs : List (UInt64 × Float)) (step : StepVector UInt64 H) (s : Store H), o.LowMarked s →
      (step.IdsBelow n → ∀ st, (o.joinHighCardSamples hops ts xs step s).1 = .ok st → st.IdsBelow n) ∧
        o.LowMarked (o.joinHighCardSamples hops ts xs step s).2
  | [], step, s, hs => ⟨fun h st he => (by cases he; exact h), hs⟩
  | (x, v) :: xs, step, s, hs => by
    unfold joinHighCardSamples
    split
    · exact ⟨fun _ _ he => (by cases he), hs⟩
    rename_i k hk
    dsimp only
    have hs' : o.LowMarked (s.setBucket k { s.buckets k with bts := ts }) := hs.setBucket (hs k)
    by_cases hats : (s.buckets k).ats ≠ ts
    · rw [if_pos hats]
      exact joinHighCardSamples_idsBelow xs step s hs
    rw [if_neg hats]
    have hout := hpair x k ((s.buckets k).sid + 1) hk (hs k (by rw [not_not.mp hats]; exact hts))
    by_cases hbts : (s.buckets k).bts = ts ∧ o.matching.card = .oneToOne
    · rw [if_pos hbts]
      exact ⟨fun _ _ he => (by cases he), hs⟩
    rw [if_neg hbts]
    rcases o.computeBinaryPairing hops v (s.buckets k).val none none with _ | ⟨f, _, keep, err⟩
    · exact ⟨fun _ _ he => (by cases he), hs'⟩
    dsimp only
    have ih := fun step => joinHighCardSamples_idsBelow xs step _ (hs'.warn err)
    by_cases hb : o.returnBool = true
    · rw [if_pos hb]
      exact ⟨fun h => (ih _).1 (h.appendSample hout _), (ih _).2⟩
    rw [if_neg hb]
    by_cases hkeep : keep = true
    · rw [if_pos hkeep]
      exact ⟨fun h => (ih _).1 (h.appendSample hout f), (ih _).2⟩
    · rw [if_neg hkeep]
      exact ih step

theorem joinHighCardHistograms_idsBelow :
    ∀ (xs : List (UInt64 × Option H)) (step : StepVector UInt64 H) (s : Store H), o.LowMarked s →
      (step.IdsBelow n → ∀ st, (o.joinHighCardHistograms hops ts xs step s).1 = .ok st → st.IdsBelow n) ∧
        o.LowMarked (o.joinHighCardHistograms hops ts xs step s).2
  | [], step, s, hs => ⟨fun h st he => (by cases he; exact h), hs⟩
  | (x, v) :: xs, step, s, hs => by
    unfold joinHighCardHistograms
    split
    · exact ⟨fun _ _ he => (by cases he), hs⟩
    rename_i k hk
    dsimp only
    have hs' : o.LowMarked (s.setBucket k { s.buckets k with bts := ts }) := hs.setBucket (hs k)
    by_cases hats : (s.buckets k).ats ≠ ts
    · rw [if_pos hats]
      exact joinHighCardHistograms_idsBelow xs step s hs
    rw [if_neg hats]
    have hout := hpair x k ((s.buckets k).sid + 1) hk (hs k (by rw [not_not.mp hats]; exact hts))
    by_cases hbts : (s.buckets k).bts = ts ∧ o.matching.card = .oneToOne
    · rw [if_pos hbts]
      exact ⟨fun _ _ he => (by cases he), hs⟩
    rw [if_neg hbts]
    rcases o.computeBinaryPairing hops 0 0 v (s.buckets k).hval with _ | ⟨_, h', _, err⟩
    · exact ⟨fun _ _ he => (by cases he), hs'⟩
    have ih := fun step => joinHighCardHistograms_idsBelow xs step _ (hs'.warn err)
    exact ⟨fun h => (ih _).1 (h.appendHistogram hout h'), (ih _).2⟩

end Emit

/-! ## The IDs of marked pairs are in range -/

section Keys

variable (o : VectorOperator) {lser rser : List Labels}

/-- **Every ID is an index of `series` once one key is stored**: a stored key
reads its own index, and a key that is not stored reads `0`. -/
theorem outputSeriesID_lt {hcSide lcSide : List Labels} (hne : outputEntries o hcSide lcSide ≠ [])
    (a b : UInt64) :
    ((o.initJoinTables hash hcSide lcSide).outputSeriesID a b).toNat <
      (o.initJoinTables hash hcSide lcSide).series.length := by
  have hlt := storeEntries_lt hash (outputEntries o hcSide lcSide) _ (fun _ => none)
    (JoinHelper.valid_empty hash)
  by_cases hk : cantorPairing a b ∈ (outputEntries o hcSide lcSide).map Prod.fst
  · obtain ⟨e, he, hek⟩ := List.mem_map.mp hk
    have := hlt e he
    rwa [hek] at this
  · obtain ⟨e₀, he₀⟩ := List.exists_mem_of_ne_nil _ hne
    have hm := (storeEntries_frame hash (outputEntries o hcSide lcSide) JoinHelper.empty (fun _ => none)).2 _ hk
    have h₀ := hlt e₀ he₀
    simp only [initJoinTables, outputSeriesID, hm, Option.getD_none] at h₀ ⊢
    exact lt_of_le_of_lt (Nat.zero_le _) h₀

theorem ready_lt (hne : outputEntries o (o.sides lser rser).1 (o.sides lser rser).2 ≠ []) (a b : UInt64) :
    ((o.ready hash lser rser).outputSeriesID a b).toNat < (o.ready hash lser rser).series.length := by
  rw [ready_eq hash o (rfl : o.sides lser rser = ((o.sides lser rser).1, (o.sides lser rser).2))]
  exact outputSeriesID_lt hash _ hne a b

theorem index_lt {l : List UInt64} {x k : UInt64} (h : index l x = .ok k) : x.toNat < l.length :=
  (List.getElem?_eq_some_iff.mp (index_eq_ok.mp h)).1

theorem outputEntries_ne_nil_of_hcRow {hcSide lcSide : List Labels}
    (hop : o.opType = .lor ∨ o.opType = .lunless) (hc : hcSide ≠ []) : outputEntries o hcSide lcSide ≠ [] := by
  unfold outputEntries
  rcases hop with hop | hop <;> simp [hop, hc]

theorem outputEntries_ne_nil_of_lcRow {hcSide lcSide : List Labels} (hop : o.opType = .lor)
    (hl : lcSide ≠ []) : outputEntries o hcSide lcSide ≠ [] := by
  unfold outputEntries
  simp [hop, hl]

theorem outputEntries_ne_nil_of_match {hcSide lcSide : List Labels}
    (hop : o.opType = .land ∨ o.opType.isSetOperator = false) {x : Nat} (hx : x < hcSide.length)
    (hk : o.sigFunc hcSide[x] ∈ lcSide.map o.sigFunc) : outputEntries o hcSide lcSide ≠ [] := by
  have hids : hashToSeriesIDs o.sigFunc lcSide (o.sigFunc hcSide[x]) ≠ [] := by
    obtain ⟨l, hl, hlk⟩ := List.mem_map.mp hk
    obtain ⟨j, hj, rfl⟩ := List.getElem_of_mem hl
    intro h
    have := List.filter_eq_nil_iff.mp (List.map_eq_nil_iff.mp h) (j, lcSide[j])
      (List.mk_mem_enum_iff_getElem?.mpr (by simp))
    simp [hlk] at this
  have hmatched : ∀ g : Nat × Labels → UInt64 → UInt64 × Labels,
      (hcSide.enum.flatMap fun p => (hashToSeriesIDs o.sigFunc lcSide (o.sigFunc p.2)).map (g p)) ≠ [] :=
    fun g h => hids (List.map_eq_nil_iff.mp (List.flatMap_eq_nil_iff.mp h (x, hcSide[x])
      (List.mk_mem_enum_iff_getElem?.mpr (by simp))))
  rcases hop with hop | hop
  · simp only [outputEntries, hop]
    exact hmatched _
  · rw [outputEntries_of_not_set o hop]
    exact hmatched _

/-- A high-card series whose bucket is a low-card bucket matches a low-card
series: for `and` and the arithmetic operators, a pair is stored. -/
theorem outputEntries_ne_nil_of_marked (hop : o.opType = .land ∨ o.opType.isSetOperator = false)
    {x k : UInt64} (hx : index (o.ready hash lser rser).hcJoinBuckets x = .ok k)
    (hk : k ∈ (o.ready hash lser rser).lcJoinBuckets) :
    outputEntries o (o.sides lser rser).1 (o.sides lser rser).2 ≠ [] := by
  rw [ready_lcJoinBuckets] at hk
  have hxlt : x.toNat < (o.sides lser rser).1.length := by
    simpa [ready_hcJoinBuckets] using index_lt hx
  have hxk := index_eq_ok.mp hx
  rw [ready_hcJoinBuckets, List.getElem?_map, List.getElem?_eq_getElem hxlt, Option.map_some',
    Option.some.injEq] at hxk
  exact outputEntries_ne_nil_of_match o hop hxlt (hxk ▸ hk)

end Keys

/-! ## A step, a batch, a `Next` -/

section Step

variable (o : VectorOperator) {lser rser : List Labels}

/-- **One step of the ready operator** keeps its IDs below the length of
`series`, and its marks on low-card buckets, unless it runs at `-1`. -/
theorem execBinaryOperation_idsBelow (lhs rhs : StepVector UInt64 H) (s : Store H) (hts : lhs.t ≠ -1)
    (hs : o.opType ≠ .lor → (o.ready hash lser rser).LowMarked s) :
    (∀ st, ((o.ready hash lser rser).execBinaryOperation hops lhs rhs s).1 = .ok st →
        st.IdsBelow (o.ready hash lser rser).series.length) ∧
      (o.opType ≠ .lor →
        (o.ready hash lser rser).LowMarked ((o.ready hash lser rser).execBinaryOperation hops lhs rhs s).2) := by
  have hrow : o.opType = .lor ∨ o.opType = .lunless → ∀ x k,
      index (o.ready hash lser rser).hcJoinBuckets x = .ok k →
      ((o.ready hash lser rser).outputSeriesID (x + 1) 0).toNat < (o.ready hash lser rser).series.length :=
    fun hop x _ hx => ready_lt hash o (outputEntries_ne_nil_of_hcRow o hop
      (List.ne_nil_of_length_pos (by simpa [ready_hcJoinBuckets] using Nat.lt_of_le_of_lt (Nat.zero_le _) (index_lt hx)))) _ _
  have hpair : o.opType = .land ∨ o.opType.isSetOperator = false → ∀ x k b,
      index (o.ready hash lser rser).hcJoinBuckets x = .ok k → k ∈ (o.ready hash lser rser).lcJoinBuckets →
      ((o.ready hash lser rser).outputSeriesID (x + 1) b).toNat < (o.ready hash lser rser).series.length :=
    fun hop _ _ _ hx hk => ready_lt hash o (outputEntries_ne_nil_of_marked hash o hop hx hk) _ _
  unfold execBinaryOperation
  split
  next hop =>
    rw [ready_opType] at hop
    have hs := hs (by rw [hop]; decide)
    simp only [execBinaryAnd]
    refine ⟨fun st he => ?_, fun _ => Store.andThen_snd (markSamples_lowMarked _ _ hs) fun _ _ h => h⟩
    obtain ⟨_, s₁, -, hs₁, he⟩ := Store.andThen_ok_of (markSamples_lowMarked _ _ hs) he
    refine emitSamples_idsBelow (fun x k id hx hid => ?_) _ _ st (StepVector.idsBelow_empty _) he
    split_ifs at hid with hat
    cases hid
    exact hpair (.inl hop) x k _ hx (hs₁ k (by rw [hat]; exact hts))
  next hop =>
    rw [ready_opType] at hop
    simp only [execBinaryOr]
    refine ⟨fun st he => ?_, fun h => absurd hop h⟩
    obtain ⟨step, _, hstep, -, he⟩ := Store.andThen_ok_of (P := fun _ => True) trivial he
    refine emitSamples_idsBelow (fun y k id hy hid => ?_) _ _ st
      (markOr_idsBelow (hrow (.inl hop)) _ _ _ _ (StepVector.idsBelow_empty _) hstep) he
    split_ifs at hid
    cases hid
    exact ready_lt hash o (outputEntries_ne_nil_of_lcRow o hop
      (List.ne_nil_of_length_pos (by simpa [ready_lcJoinBuckets] using Nat.lt_of_le_of_lt (Nat.zero_le _) (index_lt hy)))) _ _
  next hop =>
    rw [ready_opType] at hop
    simp only [execBinaryUnless]
    refine ⟨fun st he => ?_, fun _ =>
      Store.andThen_snd (markSamples_lowMarked _ _ (hs (by rw [hop]; decide))) fun _ _ h => h⟩
    obtain ⟨_, _, -, -, he⟩ := Store.andThen_ok_of (P := fun _ => True) trivial he
    refine emitSamples_idsBelow (fun x k id hx hid => ?_) _ _ st (StepVector.idsBelow_empty _) he
    split_ifs at hid
    cases hid
    exact hrow (.inr hop) x k hx
  next h₁ h₂ h₃ =>
    rw [ready_opType] at h₁ h₂ h₃
    have hset := ItemType.isSetOperator_eq_false h₁ h₂ h₃
    have hs := hs h₂
    simp only [execBinaryArithmetic]
    split
    · exact ⟨fun _ he => (by cases he), fun _ => hs⟩
    split_ifs
    · exact ⟨fun _ he => (by cases he; exact StepVector.idsBelow_empty _), fun _ => hs⟩
    have E3 := joinHighCardSamples_idsBelow hops hts (hpair (.inr hset))
    have E4 := joinHighCardHistograms_idsBelow hops hts (hpair (.inr hset))
    refine ⟨fun st he => ?_, fun _ => ?_⟩
    · obtain ⟨_, s₁, -, hs₁, he⟩ := Store.andThen_ok_of (claimLowCard_lowMarked _ _ hs) he
      obtain ⟨_, s₂, -, hs₂, he⟩ := Store.andThen_ok_of (claimLowCard_lowMarked _ _ hs₁) he
      obtain ⟨step, s₃, hstep, hs₃, he⟩ := Store.andThen_ok_of (E3 _ (.empty _) s₂ hs₂).2 he
      exact (E4 _ step s₃ hs₃).1 ((E3 _ _ s₂ hs₂).1 (StepVector.idsBelow_empty _) step hstep) st he
    · exact Store.andThen_snd (claimLowCard_lowMarked _ _ hs) fun _ _ h =>
        Store.andThen_snd (claimLowCard_lowMarked _ _ h) fun _ _ h =>
        Store.andThen_snd (E3 _ _ _ h).2 fun _ _ h => (E4 _ _ _ h).2

theorem execBatch_idsBelow :
    ∀ (ls rs : Batch H) (s : Store H), (∀ l ∈ ls, l.t ≠ -1) →
      (o.opType ≠ .lor → (o.ready hash lser rser).LowMarked s) →
      (∀ b, ((o.ready hash lser rser).execBatch hops ls rs s).1 = .ok b →
          IdsBelow (o.ready hash lser rser).series.length b) ∧
        (o.opType ≠ .lor →
          (o.ready hash lser rser).LowMarked ((o.ready hash lser rser).execBatch hops ls rs s).2)
  | l :: ls, r :: rs, s, hts, hs => by
    have hstep := execBinaryOperation_idsBelow hops hash o l r s (hts l (List.mem_cons_self _ _)) hs
    have ih := fun s hs => execBatch_idsBelow ls rs s (fun l' h => hts l' (List.mem_cons_of_mem _ h)) hs
    rw [execBatch]
    refine ⟨fun b he => ?_, fun hop => Store.andThen_snd (hstep.2 hop) fun _ s h =>
      Store.andThen_snd ((ih s fun _ => h).2 hop) fun _ _ h => h⟩
    obtain ⟨step, s₁, hstep₁, hs₁, he⟩ :=
      Store.andThen_ok_of (P := fun s => o.opType ≠ .lor → (o.ready hash lser rser).LowMarked s) hstep.2 he
    obtain ⟨steps, _, hsteps, -, he⟩ := Store.andThen_ok_of (P := fun _ => True) trivial he
    cases he
    exact List.forall_mem_cons.2 ⟨hstep.1 step hstep₁, (ih s₁ hs₁).1 steps hsteps⟩
  | [], _, _, _, hs => ⟨fun _ he => (by cases he; exact fun _ h => nomatch h), hs⟩
  | _ :: _, [], _, _, hs => ⟨fun _ he => (by cases he; exact fun _ h => nomatch h), hs⟩

theorem next_idsBelow (ctx : Context) (ls rs : Except Err (List Labels)) (p : Pull H) (s : Store H)
    (hts : ∀ b, p.lhs = .ok b → ∀ l ∈ b, l.t ≠ -1)
    (hs : o.opType ≠ .lor → (o.ready hash lser rser).LowMarked s) :
    (∀ b, ((o.ready hash lser rser).next hops hash ctx ls rs p s).1 = .ok b →
        IdsBelow (o.ready hash lser rser).series.length b) ∧
      ((o.ready hash lser rser).next hops hash ctx ls rs p s).2.1 = o.ready hash lser rser ∧
      (o.opType ≠ .lor →
        (o.ready hash lser rser).LowMarked ((o.ready hash lser rser).next hops hash ctx ls rs p s).2.2) := by
  obtain ⟨lhs, rhs⟩ := p
  simp only [next, initOnce_ready]
  split
  · exact ⟨fun _ he => (by cases he), rfl, hs⟩
  cases rhs with
  | error e => exact ⟨fun _ he => (by cases he), rfl, hs⟩
  | ok rb =>
    cases lhs with
    | error e => exact ⟨fun _ he => (by cases he), rfl, hs⟩
    | ok lb =>
      dsimp only
      split_ifs
      · exact ⟨fun _ he => (by cases he; exact fun _ h => nomatch h), rfl, hs⟩
      · have h := execBatch_idsBelow hops hash o lb rb s (hts lb rfl) hs
        exact ⟨h.1, rfl, h.2⟩

end Step

/-! ## Runs of calls -/

section Runs

variable {o : VectorOperator} {lser rser : List Labels}

/-- The states a run of calls on `o` reaches: `o` itself, or the ready
operator, with marks on low-card buckets only (but for `or`, which does not
read its marks for the pairs it emits). -/
def Reached (o : VectorOperator) (lser rser : List Labels) (st : VectorOperator × Store H) : Prop :=
  st.1 = o ∨ st.1 = o.ready hash lser rser ∧ (o.opType ≠ .lor → (o.ready hash lser rser).LowMarked st.2)

theorem callSeries_reached (hfresh : o.once = false)
    {st : VectorOperator × Store H} (hst : Reached hash o lser rser st) :
    (st.1.callSeries hash (.ok lser) (.ok rser) st.2).1 = .ok (o.ready hash lser rser).series := by
  obtain ⟨o', s⟩ := st
  rcases hst with ho | ⟨ho, -⟩ <;> dsimp only at ho <;> subst ho
  · exact callSeries_first hash o' lser rser hfresh s
  · rfl

theorem call_next_ready (ctx : Context) (ls rs : Except Err (List Labels)) (p : Pull H) (s : Store H)
    (hts : ∀ b, p.lhs = .ok b → ∀ l ∈ b, l.t ≠ -1)
    (hs : o.opType ≠ .lor → (o.ready hash lser rser).LowMarked s) :
    Reached hash o lser rser (call hops hash (o.ready hash lser rser, s) (.next (ctx, ls, rs, p))).2 ∧
      (call hops hash (o.ready hash lser rser, s) (.next (ctx, ls, rs, p))).1.Keeps
        (o.ready hash lser rser).series := by
  obtain ⟨hb, ho, hs'⟩ := next_idsBelow hops hash o ctx ls rs p s hts hs
  refine ⟨Or.inr ⟨ho, hs'⟩, ?_⟩
  simp only [call]
  cases hr : ((o.ready hash lser rser).next hops hash ctx ls rs p s).1 with
  | error e => trivial
  | ok b => exact keeps_batchOf (hb b hr)

/-- **One call** from a reached state reaches a state again, and its reply
keeps the contract with the table of `ready`. -/
theorem call_reached (hfresh : o.once = false) {st : VectorOperator × Store H}
    (hst : Reached hash o lser rser st) {c : Request H} (hc : Admissible lser rser c) :
    Reached hash o lser rser (call hops hash st c).2 ∧
      (call hops hash st c).1.Keeps (o.ready hash lser rser).series := by
  obtain ⟨o', s⟩ := st
  rcases hst with ho | ⟨ho, hs⟩ <;> dsimp only at ho <;> subst ho
  · cases c with
    | series a =>
      obtain ⟨ls, rs⟩ := a
      obtain ⟨rfl, rfl⟩ := hc
      simp only [call, callSeries, initOnce_first hash o' lser rser hfresh]
      exact ⟨Or.inr ⟨rfl, fun _ => lowMarked_new _ _⟩, rfl⟩
    | next b =>
      obtain ⟨ctx, ls, rs, p⟩ := b
      obtain ⟨rfl, rfl, hts⟩ := hc
      cases hctx : ctx.err with
      | some e =>
        simp only [call, next, hctx]
        exact ⟨Or.inl rfl, trivial⟩
      | none =>
        simp only [call, eq_background hctx, next_first hash o' lser rser hops hfresh]
        exact call_next_ready hops hash _ _ _ p _ hts fun _ => lowMarked_new _ _
  · cases c with
    | series a => exact ⟨Or.inr ⟨rfl, hs⟩, rfl⟩
    | next b =>
      obtain ⟨ctx, ls, rs, p⟩ := b
      exact call_next_ready hops hash ctx ls rs p s hc.2.2 hs

/-- **`vectorOperator` keeps the contract**: on every run of `Series` and
`Next` calls in any order on a new operator, whose children return the
tables `lser` and `rser` and no lhs step at `-1`, every `Series` returns the
table of `ready`, and every ID every `Next` returns is an index of it. -/
theorem vector_calls_keep_contract (hfresh : o.once = false) (calls : List (Request H)) (s : Store H)
    (hcalls : ∀ c ∈ calls, Admissible lser rser c) :
    ∀ r ∈ runCalls (call hops hash) (o, s) calls, r.Keeps (o.ready hash lser rser).series :=
  runCalls_all (call hops hash) (Reached hash o lser rser) (Admissible lser rser) _
    (fun _ _ hst hc => call_reached hops hash hfresh hst hc) calls (o, s) (Or.inl rfl) hcalls

end Runs

/-- `a + on(job) group_left b` under a hash that gives both output label sets
one index, over native histograms, with a timestamp that goes back: a
cancelled `Next`, then `Series`, then two `Next`s. -/
theorem vector_calls_keep_contract_collision :
    let o : VectorOperator := newVectorOperator lengthHash ⟨.manyToOne, ["job"], true, []⟩ .add false
    let lser : List Labels := [[⟨"__name__", "a"⟩, ⟨"job", "x"⟩], [⟨"__name__", "b"⟩, ⟨"job", "x"⟩]]
    let rser : List Labels := [[⟨"__name__", "c"⟩, ⟨"job", "x"⟩]]
    let calls : List (Request Unit) :=
      [.next (⟨some (.msg "context canceled")⟩, .ok lser, .ok rser, ⟨.ok [], .ok []⟩),
        .series (.ok lser, .ok rser),
        .next (.background, .ok lser, .ok rser,
          ⟨.ok [⟨5, [(0, 1.5), (1, 2.5)], [(1, some ())]⟩], .ok [⟨5, [(0, 3.5)], [(0, some ())]⟩]⟩),
        .next (.background, .ok lser, .ok rser,
          ⟨.ok [⟨3, [], [(0, some ()), (1, some ())]⟩], .ok [⟨3, [], [(0, some ())]⟩]⟩)]
    List.Forall (Reply.Keeps (o.ready lengthHash lser rser).series)
      (runCalls (call HistogramOps.unit lengthHash) (o, Store.empty) calls) := by
  intro o lser rser calls
  refine List.forall_iff_forall_mem.2 (vector_calls_keep_contract HistogramOps.unit lengthHash
    rfl calls _ fun c hc => ?_)
  simp only [calls, List.mem_cons, List.mem_singleton, List.not_mem_nil, or_false] at hc
  rcases hc with rfl | rfl | rfl | rfl
  · exact ⟨rfl, rfl, fun _ hb => by cases hb; decide⟩
  · exact ⟨rfl, rfl⟩
  · exact ⟨rfl, rfl, fun _ hb => by cases hb; decide⟩
  · exact ⟨rfl, rfl, fun _ hb => by cases hb; decide⟩

/-- **At the timestamp `-1` the contract breaks.**  Over an rhs child with no
series, `and` matches nothing and its `Series()` is empty; yet a fresh bucket
has `ats = -1`, so an lhs sample at `-1` looks matched and is returned, under
the ID `0` that `outputSeriesID` reads for a key it never stored. -/
theorem and_at_minus_one_breaks_contract {o : VectorOperator} (hfresh : o.once = false)
    (hop : o.opType = .land) (hcard : o.matching.card ≠ .oneToMany) (l : Labels) (lser : List Labels)
    (v : Float) (s : Store H) :
    let r : Reply H := (call hops hash (o, s) (.next (.background, .ok (l :: lser), .ok [],
      ⟨.ok [⟨-1, [(0, v)], []⟩], .ok [⟨-1, [], []⟩]⟩))).1
    r = .next (.ok (some [⟨-1, [(0, v)], []⟩])) ∧ ¬ r.Keeps (o.ready hash (l :: lser) []).series := by
  intro r
  have hsides : o.sides (l :: lser) [] = (l :: lser, []) := by simp [sides, hcard]
  have hout : outputEntries { o with once := true, lhsSampleIDs := l :: lser, rhsSampleIDs := [] }
      (l :: lser) [] = [] := by
    simp only [outputEntries, hop]
    exact List.flatMap_eq_nil_iff.2 fun _ _ => rfl
  have hready : o.ready hash (l :: lser) [] =
      { o with
        once := true, lhsSampleIDs := l :: lser, rhsSampleIDs := [], series := []
        outputMap := fun _ => none, lcJoinBuckets := [], hcJoinBuckets := (l :: lser).map o.sigFunc } := by
    rw [ready_eq hash o hsides, initJoinTables, hout]
    rfl
  have hr : r = .next (.ok (some [⟨-1, [(0, v)], []⟩])) := by
    simp only [r, call, next_first hash o (l :: lser) [] hops hfresh]
    rw [hready]
    simp [next, initOnce, execBatch, execBinaryOperation, hop, execBinaryAnd, markSamples, emitSamples, index,
      outputSeriesID, batchOf, Except.map, Context.background, JoinBucket.new, StepVector.empty, StepVector.appendSample]
  refine ⟨hr, fun h => ?_⟩
  rw [hr, hready] at h
  exact absurd (h _ (List.mem_singleton_self _) 0 (List.mem_append_left _ (List.mem_singleton_self _)))
    (Nat.not_lt_zero _)


/-! ## After a failed initialisation -/

section Spent

variable {o : VectorOperator}

end Spent

end VectorOperator

end PromqlEngine
