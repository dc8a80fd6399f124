import PromqlEngine.Binary.Simulation

/-!
# `PromqlEngine.Binary.Run` — every `Next` of a run is its reference

`vectorOperator` keeps two kinds of state between calls: the tables `init`
builds on the first call, and the join buckets.  This module follows both
along any sequence of `Next` calls.  The first call turns the operator into
`ready`, with fresh buckets; every later call leaves it so.  The buckets only
ever receive the timestamps of steps already run, so a run whose timestamps
increase and avoid `-1` meets every step with no bucket marked at it, and
`execBinaryOperation_eq` applies at each.

**Proved here.**

    a batch is the reference of its steps                       (`execBatch_eq`)
    a call on the ready operator is `refNext`, and keeps it ready (`next_of_ready`)
    a run of a freshly built operator is `refNext` call by call  (`run_eq_refNext`)

The reference keys its samples by pairs; `Binary/Resolve.lean` reads them back
as label sets through the ready operator's `series`.
-/

namespace PromqlEngine

variable {H : Type}

/-- The timestamps a `Next` call runs its steps at: those of the lhs batch
(`ts := lhs.T`), none when the lhs child fails. -/
def Pull.times (p : Pull H) : List Int :=
  match p.lhs with
  | .ok b => b.map (·.t)
  | .error _ => []

/-- Every step a child returns to the call fits its side. -/
def Pull.Fits (lser rser : List Labels) (p : Pull H) : Prop :=
  (∀ b, p.lhs = .ok b → ∀ st ∈ b, st.Fits lser) ∧
    (∀ b, p.rhs = .ok b → ∀ st ∈ b, st.Fits rser)

theorem Pull.fits_ok {lser rser : List Labels} {lb rb : Batch H} :
    Pull.Fits lser rser ⟨.ok lb, .ok rb⟩ ↔ (∀ st ∈ lb, st.Fits lser) ∧ ∀ st ∈ rb, st.Fits rser := by
  simp [Pull.Fits]

/-- The timestamps of a run: strictly increasing, and never the `-1` an
unmarked bucket carries. -/
structure GoodTimes (ts : List Int) : Prop where
  sorted : ts.Pairwise (· < ·)
  ne : ∀ t ∈ ts, t ≠ -1

theorem GoodTimes.of_append {ts rest : List Int} (h : GoodTimes (ts ++ rest)) : GoodTimes rest :=
  ⟨(List.pairwise_append.mp h.sorted).2.1, fun t ht => h.ne t (List.mem_append_right _ ht)⟩

namespace VectorOperator

variable (hash : Labels → UInt64)

/-- The operator after a successful `initOnce`. -/
def ready (o : VectorOperator) (lser rser : List Labels) : VectorOperator :=
  let o := { o with once := true, lhsSampleIDs := lser, rhsSampleIDs := rser }
  o.initJoinTables hash (o.sides lser rser).1 (o.sides lser rser).2

variable (o : VectorOperator) (lser rser : List Labels)

@[simp] theorem ready_once : (o.ready hash lser rser).once = true := rfl
@[simp] theorem ready_sigFunc : (o.ready hash lser rser).sigFunc = o.sigFunc := rfl
@[simp] theorem ready_matching : (o.ready hash lser rser).matching = o.matching := rfl
@[simp] theorem ready_opType : (o.ready hash lser rser).opType = o.opType := rfl
@[simp] theorem ready_returnBool : (o.ready hash lser rser).returnBool = o.returnBool := rfl

theorem sides_ready : (o.ready hash lser rser).sides lser rser = o.sides lser rser := rfl

theorem ready_hcJoinBuckets :
    (o.ready hash lser rser).hcJoinBuckets = (o.sides lser rser).1.map o.sigFunc := rfl

theorem ready_lcJoinBuckets :
    (o.ready hash lser rser).lcJoinBuckets = (o.sides lser rser).2.map o.sigFunc := rfl

theorem initOnce_first (h : o.once = false) (s : Store H) :
    o.initOnce hash (.ok lser) (.ok rser) s =
      (.ok (), o.ready hash lser rser, { s with buckets := fun _ => JoinBucket.new }) := by
  simp [initOnce, init, ready, h]

theorem callSeries_first (h : o.once = false) (s : Store H) :
    (o.callSeries hash (.ok lser) (.ok rser) s).1 = .ok (o.ready hash lser rser).series := by
  simp only [callSeries, initOnce_first hash o lser rser h]

theorem initOnce_ready (ls rs : Except Err (List Labels)) (s : Store H) :
    (o.ready hash lser rser).initOnce hash ls rs s = (.ok (), o.ready hash lser rser, s) := rfl

/-! ## A batch, a call, a run -/

section Batch

variable (hops : HistogramOps H) {hcSide lcSide lser rser : List Labels}
  (hhc : o.hcJoinBuckets = hcSide.map o.sigFunc) (hlc : o.lcJoinBuckets = lcSide.map o.sigFunc)
  (hsides : o.sides lser rser = (hcSide, lcSide))
  (hset : o.opType.isSetOperator = true → o.matching.card ≠ .oneToMany)

include hhc hlc hsides hset

/-- **A batch is the reference of its steps**, when its timestamps, and those
of the steps still to come (`rest`), are good and above every mark. -/
theorem execBatch_eq :
    ∀ (ls rs : Batch H) (s : Store H) (rest : List Int),
      (∀ l ∈ ls, l.Fits lser) → (∀ r ∈ rs, r.Fits rser) →
      GoodTimes (ls.map (·.t) ++ rest) → (∀ t ∈ ls.map (·.t) ++ rest, s.MarksBefore t) →
      (o.execBatch hops ls rs s).1 =
        (o.refBatch hops lser rser ls rs).map (List.map (·.mapIds o.outKey))
  | l :: ls, r :: rs, s, rest, hl, hr, ht, hs => by
    have hlt : ∀ t ∈ ls.map (·.t) ++ rest, l.t < t := fun t h =>
      List.rel_of_pairwise_cons ht.sorted h
    have h₁ := execBinaryOperation_eq o hhc hlc hops hsides hset
      (hl l (List.mem_cons_self _ _)) (hr r (List.mem_cons_self _ _))
      fun k => ((hs l.t (List.mem_cons_self _ _)) k).ne (ht.ne _ (List.mem_cons_self _ _))
    have h₂ := execBatch_eq ls rs (o.execBinaryOperation hops l r s).2 rest
      (fun l' h => hl l' (List.mem_cons_of_mem _ h)) (fun r' h => hr r' (List.mem_cons_of_mem _ h))
      ⟨ht.sorted.of_cons, fun t h => ht.ne t (List.mem_cons_of_mem _ h)⟩
      fun t h => execBinaryOperation_marks hops (hs t (List.mem_cons_of_mem _ h)) (hlt t h)
    rw [execBatch, refBatch]
    revert h₁ h₂
    obtain ⟨_ | step, s₁⟩ := o.execBinaryOperation hops l r s <;> intro h₁ h₂ <;>
      cases hstep : o.refStep hops lser rser l r <;>
      simp only [hstep, Except.map, reduceCtorEq, Except.ok.injEq, Except.error.injEq] at h₁
    · subst h₁; rfl
    · subst h₁
      dsimp only at h₂
      rw [Store.andThen_ok]
      revert h₂
      obtain ⟨_ | steps, s₂⟩ := o.execBatch hops ls rs s₁ <;> intro h₂ <;>
        cases hsteps : o.refBatch hops lser rser ls rs <;>
        simp_all [Except.map, bind, Except.bind, pure, Except.pure]
  | [], _, _, _, _, _, _, _ => rfl
  | _ :: _, [], _, _, _, _, _, _ => rfl

end Batch

/-! ## The ready operator -/

/-- What `init` leaves true of the operator: it will not run again, and the
join tables name the signatures of the two sides. -/
structure Ready (o : VectorOperator) (lser rser : List Labels) : Prop where
  once : o.once = true
  hc : o.hcJoinBuckets = (o.sides lser rser).1.map o.sigFunc
  lc : o.lcJoinBuckets = (o.sides lser rser).2.map o.sigFunc

theorem ready_ready : (o.ready hash lser rser).Ready lser rser := ⟨rfl, rfl, rfl⟩

section Calls

variable (hops : HistogramOps H) {o} (hready : o.Ready lser rser)
  (hset : o.opType.isSetOperator = true → o.matching.card ≠ .oneToMany)

include hready hset

/-- **A call on the ready operator is `refNext`**; it leaves the operator
ready and no mark at or after the timestamps still to come. -/
theorem next_of_ready (p : Pull H) (s : Store H) (rest : List Int) (hfit : p.Fits lser rser)
    (ht : GoodTimes (p.times ++ rest)) (hs : ∀ t ∈ p.times ++ rest, s.MarksBefore t) :
    (o.next hops hash .background (.ok lser) (.ok rser) p s).1 =
        (o.refNext hops lser rser p).map (List.map (·.mapIds o.outKey)) ∧
      (o.next hops hash .background (.ok lser) (.ok rser) p s).2.1 = o ∧
      ∀ t ∈ rest, (o.next hops hash .background (.ok lser) (.ok rser) p s).2.2.MarksBefore t := by
  have hrest : ∀ t ∈ rest, s.MarksBefore t := fun t h => hs t (List.mem_append_right _ h)
  obtain ⟨lhs, rhs⟩ := p
  simp only [next, refNext, Context.background, initOnce, hready.once, if_true]
  cases rhs with
  | error e => exact ⟨rfl, rfl, hrest⟩
  | ok rb =>
    cases lhs with
    | error e => exact ⟨rfl, rfl, hrest⟩
    | ok lb =>
      dsimp only
      split_ifs
      · exact ⟨rfl, rfl, hrest⟩
      · have hlb : Pull.times ⟨.ok lb, .ok rb⟩ = lb.map (·.t) := rfl
        rw [hlb] at ht hs
        refine ⟨execBatch_eq o hops hready.hc hready.lc rfl hset lb rb s rest
          (hfit.1 lb rfl) (hfit.2 rb rfl) ht hs, rfl, fun t h => ?_⟩
        exact execBatch_marks hops lb rb s (hrest t h) fun l hl =>
          (List.pairwise_append.mp ht.sorted).2.2 _ (List.mem_map_of_mem _ hl) t h

/-- **A run of the ready operator is `refNext`, call by call.** -/
theorem run_of_ready :
    ∀ (pulls : List (Pull H)) (s : Store H), (∀ p ∈ pulls, p.Fits lser rser) →
      GoodTimes (pulls.flatMap Pull.times) → (∀ t ∈ pulls.flatMap Pull.times, s.MarksBefore t) →
      o.run hops hash (.ok lser) (.ok rser) pulls s =
        pulls.map fun p => (o.refNext hops lser rser p).map (List.map (·.mapIds o.outKey))
  | [], _, _, _, _ => rfl
  | p :: ps, s, hf, ht, hs => by
    rw [List.flatMap_cons] at ht hs
    obtain ⟨h₁, h₂, h₃⟩ := next_of_ready hash lser rser hops hready hset p s _
      (hf p (List.mem_cons_self _ _)) ht hs
    rw [run, List.map_cons, h₁, h₂, run_of_ready ps _ (fun p' h => hf p' (List.mem_cons_of_mem _ h)) ht.of_append h₃]

end Calls

theorem next_first (hops : HistogramOps H) (h : o.once = false) (p : Pull H) (s : Store H) :
    o.next hops hash .background (.ok lser) (.ok rser) p s =
      (o.ready hash lser rser).next hops hash .background (.ok lser) (.ok rser) p
        { s with buckets := fun _ => JoinBucket.new } := by
  simp only [next, Context.background, initOnce_first hash o lser rser h, initOnce_ready]

/-- **A run of a freshly built operator is `refNext`, call by call**, on the
tables of `ready`. -/
theorem run_eq_refNext (hops : HistogramOps H) (h : o.once = false)
    (hset : o.opType.isSetOperator = true → o.matching.card ≠ .oneToMany)
    (pulls : List (Pull H)) (s : Store H) (hf : ∀ p ∈ pulls, p.Fits lser rser)
    (ht : GoodTimes (pulls.flatMap Pull.times)) :
    o.run hops hash (.ok lser) (.ok rser) pulls s =
      pulls.map fun p => ((o.ready hash lser rser).refNext hops lser rser p).map
        (List.map (·.mapIds (o.ready hash lser rser).outKey)) := by
  cases pulls with
  | nil => rfl
  | cons p ps =>
    rw [run, next_first hash o lser rser hops h, ← run]
    exact run_of_ready hash lser rser hops (ready_ready hash o lser rser) hset _ _ hf ht
      fun _ _ => Store.marksBefore_new s.warnings

end VectorOperator

end PromqlEngine
