import PromqlEngine.Binary.Run

/-!
# `PromqlEngine.Binary.Shift` — moving a run in time

The join buckets compare their marks with the step's timestamp for equality
only, and write the step's timestamp into them.  So moving every step of a run
by `d`, with every mark of the store, moves the output by `d` and changes
nothing else.  The one exception is `-1`.  A fresh bucket carries `-1`, which
is no timestamp and does not move (`shiftMark`), and a step at `-1` reads that
`-1` as a mark of its own.

The argument follows the code: one lemma per loop of `Binary/Vector.lean`
saying that the loop commutes with the move, then the step, the batch, the
call and the run.  It assumes nothing about the steps' series, the order of
their timestamps or the operator's state.  The only assumption is that no
lhs timestamp is `-1`, before or after the move.

**Proved here.**

    each loop of a step commutes with the move          (`markSamples_shift`, ..., `joinHighCardHistograms_shift`)
    a step commutes with the move                       (`execBinaryOperation_shift`)
    a run moved by d is the run with its output moved   (`run_shift`)
    under `and`, a step moved onto -1 keeps a sample    (`run_shift_fails_at_minus_one`)
-/

namespace PromqlEngine

variable {ι H : Type}

/-- The step `d` later. -/
def StepVector.shift (d : Int) (st : StepVector ι H) : StepVector ι H := { st with t := st.t + d }

/-- What the children return, every step `d` later. -/
def Pull.shift (d : Int) (p : Pull H) : Pull H :=
  ⟨p.lhs.map (List.map (StepVector.shift d)), p.rhs.map (List.map (StepVector.shift d))⟩

@[simp] theorem StepVector.shift_t (d : Int) (st : StepVector ι H) : (st.shift d).t = st.t + d := rfl

@[simp] theorem StepVector.shift_samples (d : Int) (st : StepVector ι H) :
    (st.shift d).samples = st.samples := rfl

@[simp] theorem StepVector.shift_histograms (d : Int) (st : StepVector ι H) :
    (st.shift d).histograms = st.histograms := rfl

/-- A bucket mark `d` later; the `-1` of a fresh bucket is no timestamp and
stays. -/
def shiftMark (d t : Int) : Int := if t = -1 then -1 else t + d

theorem shiftMark_of_ne {d t : Int} (h : t ≠ -1) : shiftMark d t = t + d := if_neg h

theorem shiftMark_eq_iff {d t a : Int} (ht : t ≠ -1) (hd : t + d ≠ -1) :
    shiftMark d a = t + d ↔ a = t := by
  unfold shiftMark; split_ifs <;> omega

/-- A bucket with both marks `d` later. -/
def JoinBucket.shift (d : Int) (b : JoinBucket H) : JoinBucket H :=
  { b with ats := shiftMark d b.ats, bts := shiftMark d b.bts }

namespace JoinBucket

variable (d : Int) (b : JoinBucket H)

@[simp] theorem shift_ats : (b.shift d).ats = shiftMark d b.ats := rfl
@[simp] theorem shift_bts : (b.shift d).bts = shiftMark d b.bts := rfl
@[simp] theorem shift_sid : (b.shift d).sid = b.sid := rfl
@[simp] theorem shift_val : (b.shift d).val = b.val := rfl
@[simp] theorem shift_hval : (b.shift d).hval = b.hval := rfl

end JoinBucket

@[simp] theorem StepVector.appendSample_shift (d : Int) (st : StepVector ι H) (id : ι) (v : Float) :
    (st.shift d).appendSample id v = (st.appendSample id v).shift d := rfl

@[simp] theorem StepVector.appendHistogram_shift (d : Int) (st : StepVector ι H) (id : ι) (h : Option H) :
    (st.shift d).appendHistogram id h = (st.appendHistogram id h).shift d := rfl

@[simp] theorem JoinBucket.shift_new (d : Int) : (JoinBucket.new : JoinBucket H).shift d = .new := by
  simp [JoinBucket.shift, JoinBucket.new, shiftMark]

/-- A store with every mark `d` later. -/
def Store.shift (d : Int) (s : Store H) : Store H :=
  { s with buckets := fun k => (s.buckets k).shift d }

/-- A loop's result `d` later: its output moved by `g`, its store's marks by `d`. -/
def Store.shiftResult {α β : Type} (g : α → β) (d : Int) (r : Except Err α × Store H) :
    Except Err β × Store H :=
  (r.1.map g, r.2.shift d)

namespace Store

variable (d : Int) (s : Store H)

@[simp] theorem shift_buckets (k : UInt64) : (s.shift d).buckets k = (s.buckets k).shift d := rfl

theorem shiftResult_pair {α β : Type} (g : α → β) (x : Except Err α) :
    shiftResult g d (x, s) = (x.map g, s.shift d) := rfl

theorem shift_setBucket (k : UInt64) (b : JoinBucket H) :
    (s.setBucket k b).shift d = (s.shift d).setBucket k (b.shift d) := by
  simp only [shift, setBucket]
  congr 1
  funext j
  exact Function.apply_update (fun _ b => JoinBucket.shift d b) s.buckets k b j

theorem shift_warn (w : Option Warning) : (s.warn w).shift d = (s.shift d).warn w := by
  cases w <;> rfl

theorem shift_fresh : ({ s with buckets := fun _ => JoinBucket.new } : Store H).shift d =
    { s.shift d with buckets := fun _ => JoinBucket.new } := by
  simp [shift]

@[simp] theorem shift_empty : (empty : Store H).shift d = empty := by
  simp [shift, empty]

theorem andThen_shift {α α' β β' : Type} {g : α → α'} {g' : β → β'} {p : Except Err α × Store H}
    {p' : Except Err α' × Store H} {f : α → Store H → Except Err β × Store H}
    {f' : α' → Store H → Except Err β' × Store H} (hp : p' = shiftResult g d p)
    (hf : ∀ a s, f' (g a) (s.shift d) = shiftResult g' d (f a s)) :
    andThen p' f' = shiftResult g' d (andThen p f) := by
  subst hp
  obtain ⟨_ | a, s⟩ := p
  · rfl
  · exact hf a s

end Store

namespace VectorOperator

variable (hops : HistogramOps H) (o : VectorOperator) (d : Int)

/-! ## The loops -/

section Loops

variable {t : Int}

theorem shift_write_ats (ht : t ≠ -1) (b : JoinBucket H) :
    { b.shift d with ats := t + d } = { b with ats := t }.shift d := by
  simp [JoinBucket.shift, shiftMark_of_ne ht]

theorem shift_write_bts (ht : t ≠ -1) (b : JoinBucket H) :
    { b.shift d with bts := t + d } = { b with bts := t }.shift d := by
  simp [JoinBucket.shift, shiftMark_of_ne ht]

theorem markSamples_shift (buckets : List UInt64) (mark mark' : UInt64 → JoinBucket H → JoinBucket H)
    (hmark : ∀ i b, mark' i (b.shift d) = (mark i b).shift d) :
    ∀ (xs : List (UInt64 × Float)) (s : Store H),
      markSamples buckets mark' xs (s.shift d) = Store.shiftResult id d (markSamples buckets mark xs s)
  | [], _ => rfl
  | (i, _) :: xs, s => by
    simp only [markSamples]
    cases index buckets i with
    | error => rfl
    | ok k =>
      dsimp only
      rw [Store.shift_buckets, hmark, ← Store.shift_setBucket]
      exact markSamples_shift buckets mark mark' hmark xs _

theorem emitSamples_shift (buckets : List UInt64) (out out' : UInt64 → JoinBucket H → Option UInt64)
    (hout : ∀ i b, out' i (b.shift d) = out i b) :
    ∀ (xs : List (UInt64 × Float)) (step : StepVector UInt64 H) (s : Store H),
      emitSamples buckets out' xs (step.shift d) (s.shift d) =
        (emitSamples buckets out xs step s).map (StepVector.shift d)
  | [], _, _ => rfl
  | (i, v) :: xs, step, s => by
    simp only [emitSamples]
    cases index buckets i with
    | error => rfl
    | ok k =>
      dsimp only
      rw [Store.shift_buckets, hout]
      cases out i (s.buckets k) with
      | none => exact emitSamples_shift buckets out out' hout xs step s
      | some id => exact emitSamples_shift buckets out out' hout xs (step.appendSample id v) s

theorem emitSamples_pair_shift (buckets : List UInt64) (out out' : UInt64 → JoinBucket H → Option UInt64)
    (hout : ∀ i b, out' i (b.shift d) = out i b) (xs : List (UInt64 × Float)) (step : StepVector UInt64 H)
    (s : Store H) :
    (emitSamples buckets out' xs (step.shift d) (s.shift d), s.shift d) =
      Store.shiftResult (StepVector.shift d) d (emitSamples buckets out xs step s, s) := by
  rw [Store.shiftResult_pair, emitSamples_shift d buckets out out' hout]

theorem markOr_shift (ht : t ≠ -1) :
    ∀ (xs : List (UInt64 × Float)) (step : StepVector UInt64 H) (s : Store H),
      o.markOr (t + d) xs (step.shift d) (s.shift d) =
        Store.shiftResult (StepVector.shift d) d (o.markOr t xs step s)
  | [], _, _ => rfl
  | (i, v) :: xs, step, s => by
    simp only [markOr]
    cases index o.hcJoinBuckets i with
    | error => rfl
    | ok k =>
      dsimp only
      rw [Store.shift_buckets, shift_write_ats d ht, ← Store.shift_setBucket]
      exact markOr_shift ht xs (step.appendSample (o.outputSeriesID (i + 1) 0) v) _

theorem claimLowCard_shift {X : Type} (ht : t ≠ -1) (hd : t + d ≠ -1)
    (claim claim' : UInt64 → X → JoinBucket H → JoinBucket H)
    (hclaim : ∀ i x b, claim' i x (b.shift d) = (claim i x b).shift d) :
    ∀ (xs : List (UInt64 × X)) (s : Store H),
      o.claimLowCard (t + d) claim' xs (s.shift d) = Store.shiftResult id d (o.claimLowCard t claim xs s)
  | [], _ => rfl
  | (i, x) :: xs, s => by
    simp only [claimLowCard, Store.shift_buckets]
    cases index o.lcJoinBuckets i with
    | error => rfl
    | ok k =>
      dsimp only
      simp only [JoinBucket.shift_ats, JoinBucket.shift_sid, shiftMark_eq_iff ht hd]
      split_ifs
      · rfl
      · rw [hclaim, ← Store.shift_setBucket]
        exact claimLowCard_shift ht hd claim claim' hclaim xs _

theorem joinHighCardSamples_shift (ht : t ≠ -1) (hd : t + d ≠ -1) :
    ∀ (xs : List (UInt64 × Float)) (step : StepVector UInt64 H) (s : Store H),
      o.joinHighCardSamples hops (t + d) xs (step.shift d) (s.shift d) =
        Store.shiftResult (StepVector.shift d) d (o.joinHighCardSamples hops t xs step s)
  | [], _, _ => rfl
  | (i, v) :: xs, step, s => by
    simp only [joinHighCardSamples]
    cases index o.hcJoinBuckets i with
    | error => rfl
    | ok k =>
      dsimp only
      have ih := joinHighCardSamples_shift ht hd xs
      rw [Store.shift_buckets, shift_write_bts d ht, ← Store.shift_setBucket]
      simp only [JoinBucket.shift_ats, JoinBucket.shift_bts, JoinBucket.shift_sid, JoinBucket.shift_val,
        ne_eq, shiftMark_eq_iff ht hd]
      by_cases ha : (s.buckets k).ats = t
      · by_cases hb : (s.buckets k).bts = t ∧ o.matching.card = .oneToOne
        · simp only [ha, hb, not_true_eq_false, if_false, if_true]; rfl
        simp only [ha, hb, not_true_eq_false, if_false]
        rcases o.computeBinaryPairing hops v (s.buckets k).val none none with _ | ⟨f, _, keep, err⟩
        · rfl
        · simp only [← Store.shift_warn, StepVector.appendSample_shift]
          split_ifs <;> exact ih _ _
      · simp only [ha, not_false_eq_true, if_true]; exact ih step s

theorem joinHighCardHistograms_shift (ht : t ≠ -1) (hd : t + d ≠ -1) :
    ∀ (xs : List (UInt64 × Option H)) (step : StepVector UInt64 H) (s : Store H),
      o.joinHighCardHistograms hops (t + d) xs (step.shift d) (s.shift d) =
        Store.shiftResult (StepVector.shift d) d (o.joinHighCardHistograms hops t xs step s)
  | [], _, _ => rfl
  | (i, h) :: xs, step, s => by
    simp only [joinHighCardHistograms]
    cases index o.hcJoinBuckets i with
    | error => rfl
    | ok k =>
      dsimp only
      have ih := joinHighCardHistograms_shift ht hd xs
      rw [Store.shift_buckets, shift_write_bts d ht, ← Store.shift_setBucket]
      simp only [JoinBucket.shift_ats, JoinBucket.shift_bts, JoinBucket.shift_sid, JoinBucket.shift_hval,
        ne_eq, shiftMark_eq_iff ht hd]
      by_cases ha : (s.buckets k).ats = t
      · by_cases hb : (s.buckets k).bts = t ∧ o.matching.card = .oneToOne
        · simp only [ha, hb, not_true_eq_false, if_false, if_true]; rfl
        simp only [ha, hb, not_true_eq_false, if_false]
        rcases o.computeBinaryPairing hops 0 0 h (s.buckets k).hval with _ | ⟨_, h', _, err⟩
        · rfl
        · simp only [← Store.shift_warn, StepVector.appendHistogram_shift]
          exact ih _ _
      · simp only [ha, not_false_eq_true, if_true]; exact ih step s

end Loops

/-! ## A step, a batch, a call, a run -/

section Steps

variable {lhs rhs : StepVector UInt64 H} (s : Store H)

theorem execBinaryAnd_shift (ht : lhs.t ≠ -1) (hd : lhs.t + d ≠ -1) :
    o.execBinaryAnd (lhs.shift d) (rhs.shift d) (s.shift d) =
      Store.shiftResult (StepVector.shift d) d (o.execBinaryAnd lhs rhs s) :=
  Store.andThen_shift d
    (markSamples_shift d _ _ _ (fun _ b => by simp [JoinBucket.shift, shiftMark_of_ne ht]) _ _)
    fun _ s => emitSamples_pair_shift d _ _ _ (fun _ b => by simp [shiftMark_eq_iff ht hd]) _ (.empty lhs.t) s

theorem execBinaryOr_shift (ht : lhs.t ≠ -1) (hd : lhs.t + d ≠ -1) :
    o.execBinaryOr (lhs.shift d) (rhs.shift d) (s.shift d) =
      Store.shiftResult (StepVector.shift d) d (o.execBinaryOr lhs rhs s) :=
  Store.andThen_shift d (markOr_shift o d ht lhs.samples (.empty lhs.t) s)
    fun step s => emitSamples_pair_shift d _ _ _ (fun _ b => by simp [shiftMark_eq_iff ht hd]) _ step s

theorem execBinaryUnless_shift (ht : lhs.t ≠ -1) (hd : lhs.t + d ≠ -1) :
    o.execBinaryUnless (lhs.shift d) (rhs.shift d) (s.shift d) =
      Store.shiftResult (StepVector.shift d) d (o.execBinaryUnless lhs rhs s) :=
  Store.andThen_shift d (markSamples_shift d _ _ _ (fun _ b => shift_write_ats d ht b) _ _)
    fun _ s => emitSamples_pair_shift d _ _ _ (fun _ b => by simp [shiftMark_eq_iff ht hd]) _ (.empty lhs.t) s

theorem highLowCard_shift (lhs rhs : StepVector UInt64 H) :
    o.highLowCard (lhs.shift d) (rhs.shift d) =
      (o.highLowCard lhs rhs).map fun p => (p.1.shift d, p.2.shift d) := by
  unfold highLowCard; split <;> rfl

theorem execBinaryArithmetic_shift (ht : lhs.t ≠ -1) (hd : lhs.t + d ≠ -1) :
    o.execBinaryArithmetic hops (lhs.shift d) (rhs.shift d) (s.shift d) =
      Store.shiftResult (StepVector.shift d) d (o.execBinaryArithmetic hops lhs rhs s) := by
  unfold execBinaryArithmetic
  rw [highLowCard_shift]
  rcases o.highLowCard lhs rhs with _ | ⟨hcs, lcs⟩
  · rfl
  simp only [Option.map, StepVector.shift_samples, StepVector.shift_histograms, StepVector.shift_t]
  split_ifs
  · rfl
  exact Store.andThen_shift d
    (claimLowCard_shift o d ht hd _ _ (fun _ _ b => by simp [JoinBucket.shift, shiftMark_of_ne ht]) _ _)
    fun _ s => Store.andThen_shift d
      (claimLowCard_shift o d ht hd _ _ (fun _ _ b => by simp [JoinBucket.shift, shiftMark_of_ne ht]) _ _)
      fun _ s => Store.andThen_shift d (joinHighCardSamples_shift hops o d ht hd _ (.empty lhs.t) s)
        fun step s => joinHighCardHistograms_shift hops o d ht hd _ step s

/-- **A step commutes with the move**, away from `-1`. -/
theorem execBinaryOperation_shift (ht : lhs.t ≠ -1) (hd : lhs.t + d ≠ -1) :
    o.execBinaryOperation hops (lhs.shift d) (rhs.shift d) (s.shift d) =
      Store.shiftResult (StepVector.shift d) d (o.execBinaryOperation hops lhs rhs s) := by
  unfold execBinaryOperation
  split
  · exact execBinaryAnd_shift o d s ht hd
  · exact execBinaryOr_shift o d s ht hd
  · exact execBinaryUnless_shift o d s ht hd
  · exact execBinaryArithmetic_shift hops o d s ht hd

end Steps

theorem execBatch_shift :
    ∀ (ls rs : Batch H) (s : Store H), (∀ l ∈ ls, l.t ≠ -1 ∧ l.t + d ≠ -1) →
      o.execBatch hops (ls.map (StepVector.shift d)) (rs.map (StepVector.shift d)) (s.shift d) =
        Store.shiftResult (List.map (StepVector.shift d)) d (o.execBatch hops ls rs s)
  | l :: ls, r :: rs, s, hne => by
    have ⟨ht, hd⟩ := hne l (List.mem_cons_self _ _)
    exact Store.andThen_shift d (execBinaryOperation_shift hops o d s ht hd) fun step s =>
      Store.andThen_shift d (execBatch_shift ls rs s fun l' h => hne l' (List.mem_cons_of_mem _ h))
        fun _ _ => rfl
  | [], _, _, _ => rfl
  | _ :: _, [], _, _ => rfl

variable (hash : Labels → UInt64) (lS rS : Except Err (List Labels))

theorem initOnce_shift (s : Store H) :
    o.initOnce hash lS rS (s.shift d) =
      ((o.initOnce hash lS rS s).1, (o.initOnce hash lS rS s).2.1, (o.initOnce hash lS rS s).2.2.shift d) := by
  unfold initOnce init
  split
  · rfl
  · rcases rS with _ | _ <;> rcases lS with _ | _ <;> simp only [Store.shift_fresh]

/-- **A call commutes with the move**, when no lhs step of it is at `-1`,
before or after. -/
theorem next_shift (p : Pull H) (s : Store H) (hne : ∀ t ∈ p.times, t ≠ -1 ∧ t + d ≠ -1) :
    o.next hops hash .background lS rS (p.shift d) (s.shift d) =
      ((o.next hops hash .background lS rS p s).1.map (List.map (StepVector.shift d)),
        (o.next hops hash .background lS rS p s).2.1, (o.next hops hash .background lS rS p s).2.2.shift d) := by
  simp only [next, Context.background, initOnce_shift]
  obtain ⟨_ | _, o', s'⟩ := o.initOnce hash lS rS s
  · rfl
  obtain ⟨_ | lb, _ | rb⟩ := p <;> try rfl
  have hempty : ∀ b : Batch H, (b.map (StepVector.shift d)).isEmpty = b.isEmpty := fun b => by
    cases b <;> rfl
  simp only [Pull.shift, Except.map, hempty]
  split_ifs
  · rfl
  · rw [execBatch_shift hops o' d lb rb s' fun l hl => hne l.t (List.mem_map_of_mem _ hl)]; rfl

/-- **A run moved by `d` is the run with its output moved by `d`**, from a
store whose marks are moved with it, when no lhs timestamp of the run is `-1`,
before or after the move.  For a freshly built operator from `Store.empty`,
which does not move, this is the law for the run alone. -/
theorem run_shift :
    ∀ (pulls : List (Pull H)) (o : VectorOperator) (s : Store H),
      (∀ t ∈ pulls.flatMap Pull.times, t ≠ -1 ∧ t + d ≠ -1) →
      o.run hops hash lS rS (pulls.map (Pull.shift d)) (s.shift d) =
        (o.run hops hash lS rS pulls s).map (Except.map (List.map (StepVector.shift d)))
  | [], _, _, _ => rfl
  | p :: ps, o, s, hne => by
    rw [List.flatMap_cons] at hne
    simp only [List.map_cons, run]
    rw [next_shift hops o d hash lS rS p s fun t h => hne t (List.mem_append_left _ h),
      run_shift ps _ _ fun t h => hne t (List.mem_append_right _ h)]

/-- **Onto `-1` the law fails.**  Under `and`, an lhs sample at a step where
the rhs has no sample is dropped at `0`.  Moved to `-1`, it meets the `-1` of
its fresh bucket, reads as matched, and is kept. -/
theorem run_shift_fails_at_minus_one {o : VectorOperator} (hfresh : o.once = false)
    (hop : o.opType = .land) (hcard : o.matching.card ≠ .oneToMany) (l : Labels)
    (lser rser : List Labels) (v : Float) (s : Store H) :
    let pulls : List (Pull H) := [⟨.ok [⟨0, [(0, v)], []⟩], .ok [⟨0, [], []⟩]⟩]
    o.run hops hash (.ok (l :: lser)) (.ok rser) pulls s = [.ok [⟨0, [], []⟩]] ∧
      o.run hops hash (.ok (l :: lser)) (.ok rser) (pulls.map (Pull.shift (-1))) s =
        [.ok [⟨-1, [((o.ready hash (l :: lser) rser).outputSeriesID 1 1, v)], []⟩]] ∧
      o.run hops hash (.ok (l :: lser)) (.ok rser) (pulls.map (Pull.shift (-1))) s ≠
        (o.run hops hash (.ok (l :: lser)) (.ok rser) pulls s).map
          (Except.map (List.map (StepVector.shift (-1)))) := by
  intro pulls
  have hhc : (o.ready hash (l :: lser) rser).hcJoinBuckets = (l :: lser).map o.sigFunc := by
    simp [ready_hcJoinBuckets, sides, hcard]
  have hrun : ∀ t : Int, o.run hops hash (.ok (l :: lser)) (.ok rser)
      [⟨.ok [⟨t, [(0, v)], []⟩], .ok [⟨t, [], []⟩]⟩] s =
        [.ok [if t = -1 then ⟨t, [((o.ready hash (l :: lser) rser).outputSeriesID 1 1, v)], []⟩
          else ⟨t, [], []⟩]] := fun t => by
    simp only [run, next_first hash o (l :: lser) rser hops hfresh]
    simp [next, initOnce_ready, execBatch, execBinaryOperation, hop, execBinaryAnd, markSamples,
      emitSamples, hhc, index, Context.background, JoinBucket.new, StepVector.empty,
      StepVector.appendSample, eq_comm]
    split_ifs <;> rfl
  have h₀ := hrun 0
  have h₁ := hrun (-1)
  simp only [if_neg (by decide : (0 : Int) ≠ -1), if_pos rfl] at h₀ h₁
  refine ⟨h₀, h₁, ?_⟩
  rw [show pulls.map (Pull.shift (-1)) = [⟨.ok [⟨-1, [(0, v)], []⟩], .ok [⟨-1, [], []⟩]⟩] from rfl, h₁, h₀]
  simp [Except.map, StepVector.shift]

/-- `a and b` over one series on each side, moved from `0` to `-1`. -/
theorem run_shift_onto_minus_one :
    let o : VectorOperator := newVectorOperator lengthHash ⟨.manyToMany, [], false, []⟩ .land false
    let l : Labels := [⟨"__name__", "a"⟩, ⟨"job", "x"⟩]
    let rser : List Labels := [[⟨"__name__", "b"⟩, ⟨"job", "yy"⟩]]
    let pulls : List (Pull Unit) := [⟨.ok [⟨0, [(0, 1.5)], []⟩], .ok [⟨0, [], []⟩]⟩]
    o.run HistogramOps.unit lengthHash (.ok [l]) (.ok rser) pulls Store.empty = [.ok [⟨0, [], []⟩]] ∧
      o.run HistogramOps.unit lengthHash (.ok [l]) (.ok rser) (pulls.map (Pull.shift (-1))) Store.empty =
        [.ok [⟨-1, [((o.ready lengthHash [l] rser).outputSeriesID 1 1, 1.5)], []⟩]] ∧
      o.run HistogramOps.unit lengthHash (.ok [l]) (.ok rser) (pulls.map (Pull.shift (-1))) Store.empty ≠
        (o.run HistogramOps.unit lengthHash (.ok [l]) (.ok rser) pulls Store.empty).map
          (Except.map (List.map (StepVector.shift (-1)))) :=
  run_shift_fails_at_minus_one HistogramOps.unit lengthHash rfl rfl (by decide) _ [] _ _ _

end VectorOperator

end PromqlEngine
