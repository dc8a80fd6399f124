import PromqlEngine.Binary.Reference

/-!
# `PromqlEngine.Binary.Loops` — what each loop of a step computes

One equation per loop of `Binary/Vector.lean`, for steps whose IDs are in
range (so no index panics): the marking loops as a fold of the marks each
bucket receives, the emitting loops as a `filterMap` over the samples, the
arithmetic loops against the stateless functions they are compared with in
`Binary/Reference.lean`.  Later proofs cite these equations and never unfold
a loop.

`bucketOf buckets id` is the bucket a series ID points at.
-/

namespace PromqlEngine

namespace VectorOperator

variable {H : Type}

/-- The bucket series `id` points at (`0` past the end, where `index` panics). -/
def bucketOf (buckets : List UInt64) (id : UInt64) : UInt64 := buckets.getD id.toNat 0

theorem index_eq_bucketOf {buckets : List UInt64} {id : UInt64}
    (h : id.toNat < buckets.length) : index buckets id = .ok (bucketOf buckets id) := by
  simp [index, bucketOf, List.getElem?_eq_getElem h, List.getD_eq_getElem?_getD]

/-- The marks a loop gives bucket `k`: the IDs of the samples pointing at it,
in order. -/
def marksOf (buckets : List UInt64) (xs : List (UInt64 × Float)) (k : UInt64) : List UInt64 :=
  (xs.filter fun x => bucketOf buckets x.1 = k).map Prod.fst

@[simp] theorem marksOf_nil (buckets : List UInt64) (k : UInt64) :
    marksOf buckets [] k = [] := rfl

theorem marksOf_cons (buckets : List UInt64) (x : UInt64 × Float) (xs : List (UInt64 × Float))
    (k : UInt64) : marksOf buckets (x :: xs) k =
      if bucketOf buckets x.1 = k then x.1 :: marksOf buckets xs k else marksOf buckets xs k := by
  unfold marksOf; split_ifs with h <;> simp [List.filter_cons, h]

theorem marksOf_eq_nil {buckets : List UInt64} {xs : List (UInt64 × Float)} {k : UInt64} :
    marksOf buckets xs k = [] ↔ ∀ x ∈ xs, bucketOf buckets x.1 ≠ k := by
  simp [marksOf, List.filter_eq_nil_iff]

/-- **The marking loop** folds, into each bucket, the marks of the samples
pointing at it. -/
theorem markSamples_eq (buckets : List UInt64) (mark : UInt64 → JoinBucket H → JoinBucket H) :
    ∀ (xs : List (UInt64 × Float)) (s : Store H), (∀ x ∈ xs, x.1.toNat < buckets.length) →
      markSamples buckets mark xs s =
        (.ok (), { s with buckets := fun k =>
          (marksOf buckets xs k).foldl (fun jp id => mark id jp) (s.buckets k) })
  | [], s, _ => rfl
  | (id, v) :: xs, s, hr => by
    rw [markSamples, index_eq_bucketOf (hr _ (List.mem_cons_self _ _))]
    dsimp only
    rw [markSamples_eq buckets mark xs _ (fun y hy => hr y (List.mem_cons_of_mem _ hy))]
    congr 2
    funext k
    rw [marksOf_cons]
    by_cases hk : bucketOf buckets id = k
    · subst hk; simp
    · simp [hk, Function.update_noteq (Ne.symm hk)]

/-- **The emitting loop** appends, in order, each sample `out` gives an ID. -/
theorem emitSamples_eq (buckets : List UInt64) (out : UInt64 → JoinBucket H → Option UInt64) :
    ∀ (xs : List (UInt64 × Float)) (step : StepVector UInt64 H) (s : Store H),
      (∀ x ∈ xs, x.1.toNat < buckets.length) →
      emitSamples buckets out xs step s =
        .ok { step with samples := (step.samples ++
          xs.filterMap (fun x => (out x.1 (s.buckets (bucketOf buckets x.1))).map (·, x.2))) }
  | [], step, s, _ => by simp [emitSamples]
  | (id, v) :: xs, step, s, hr => by
    rw [emitSamples, index_eq_bucketOf (hr _ (List.mem_cons_self _ _))]
    dsimp only
    rw [emitSamples_eq buckets out xs _ s (fun y hy => hr y (List.mem_cons_of_mem _ hy))]
    cases h : out id (s.buckets (bucketOf buckets id)) <;>
      simp [StepVector.appendSample, List.filterMap_cons, h]

theorem markOr_eq (o : VectorOperator) (ts : Int) :
    ∀ (xs : List (UInt64 × Float)) (step : StepVector UInt64 H) (s : Store H),
      (∀ x ∈ xs, x.1.toNat < o.hcJoinBuckets.length) →
      o.markOr ts xs step s =
        (.ok { step with samples := (step.samples ++
            xs.map (fun x => (o.outputSeriesID (x.1 + 1) 0, x.2))) },
          { s with buckets := fun k =>
            if marksOf o.hcJoinBuckets xs k = [] then s.buckets k
            else { s.buckets k with ats := ts } })
  | [], step, s, _ => by simp [markOr]
  | (id, v) :: xs, step, s, hr => by
    rw [markOr, index_eq_bucketOf (hr _ (List.mem_cons_self _ _))]
    dsimp only
    rw [markOr_eq o ts xs _ _ (fun y hy => hr y (List.mem_cons_of_mem _ hy))]
    simp only [StepVector.appendSample, List.append_assoc, List.map_cons, List.singleton_append]
    congr 2
    funext k
    rw [marksOf_cons]
    by_cases hk : bucketOf o.hcJoinBuckets id = k
    · subst hk; split_ifs <;> simp_all
    · simp [hk, Function.update_noteq (Ne.symm hk)]

/-! ## The arithmetic loops -/

section Arithmetic

variable (hops : HistogramOps H) (o : VectorOperator) (hcSide lcSide : List Labels) (ts : Int)

theorem bucketOf_eq_sigOf {buckets : List UInt64} {side : List Labels}
    (h : buckets = side.map o.sigFunc) (id : UInt64) : bucketOf buckets id = o.sigOf side id := by
  subst h; rfl

/-- How the sample loop of `execBinaryArithmetic` claims a bucket. -/
def claimSample (sampleID : UInt64) (v : Float) (jp : JoinBucket H) : JoinBucket H :=
  { jp with sid := sampleID, val := v, ats := ts }

/-- The buckets the low-card sample loop leaves when nothing clashes: each
signature's bucket claimed by the one sample that has it. -/
def claimedBuckets (xs : List (UInt64 × Float)) (b : UInt64 → JoinBucket H) (k : UInt64) :
    JoinBucket H :=
  match xs.find? (fun y => o.sigOf lcSide y.1 = k) with
  | some y => claimSample ts y.1 y.2 (b k)
  | none => b k

theorem lowCardConflict_none :
    ∀ {xs seen : List (UInt64 × Float)}, o.lowCardConflict lcSide xs seen = none →
      ∀ y ∈ seen, ∀ x ∈ xs, o.sigOf lcSide y.1 ≠ o.sigOf lcSide x.1
  | [], _, _, _, _, _, hx => absurd hx (List.not_mem_nil _)
  | x :: xs, seen, h, y, hy, x', hx' => by
    simp only [lowCardConflict] at h
    split at h
    case h_1 => cases h
    case h_2 hfind =>
      rcases List.mem_cons.mp hx' with rfl | hx'
      · simpa using List.find?_eq_none.mp hfind y hy
      · exact lowCardConflict_none h y (List.mem_append_left _ hy) x' hx'

theorem claimed_ats {seen : List (UInt64 × Float)} {s : Store H} {id : UInt64} {v : Float}
    (hats : ∀ k, (s.buckets k).ats = ts ↔ ∃ y ∈ seen, o.sigOf lcSide y.1 = k) (k : UInt64) :
    ((s.setBucket (o.sigOf lcSide id) (claimSample ts id v (s.buckets (o.sigOf lcSide id)))).buckets
        k).ats = ts ↔ ∃ y ∈ seen ++ [(id, v)], o.sigOf lcSide y.1 = k := by
  by_cases hk : o.sigOf lcSide id = k
  · subst hk
    simp only [Store.setBucket_buckets, Function.update_same, claimSample, true_iff]
    exact ⟨(id, v), by simp, rfl⟩
  · simp only [Store.setBucket_buckets, Function.update_noteq (Ne.symm hk), hats,
      List.mem_append, List.mem_singleton]
    constructor
    · rintro ⟨y, hy, rfl⟩; exact ⟨y, .inl hy, rfl⟩
    · rintro ⟨y, hy | rfl, rfl⟩
      · exact ⟨y, hy, rfl⟩
      · exact absurd rfl hk

theorem claimLowCard_conflict (hlc : o.lcJoinBuckets = lcSide.map o.sigFunc) :
    ∀ (xs seen : List (UInt64 × Float)) (s : Store H) (orig dup : UInt64),
      (∀ x ∈ xs, x.1.toNat < lcSide.length) →
      (∀ k, (s.buckets k).ats = ts ↔ ∃ y ∈ seen, o.sigOf lcSide y.1 = k) →
      (∀ y ∈ seen, (s.buckets (o.sigOf lcSide y.1)).sid = y.1) →
      o.lowCardConflict lcSide xs seen = some (orig, dup) →
      (o.claimLowCard ts (claimSample ts) xs s).1 =
        .error (o.newManyToManyMatchErrorOnLowCardSide orig dup)
  | [], _, _, _, _, _, _, _, h => by simp [lowCardConflict] at h
  | (id, v) :: xs, seen, s, orig, dup, hr, hats, hsid, h => by
    have hlen : id.toNat < o.lcJoinBuckets.length := by
      simpa [hlc] using hr _ (List.mem_cons_self _ _)
    rw [claimLowCard, index_eq_bucketOf hlen, bucketOf_eq_sigOf o hlc]
    dsimp only
    simp only [lowCardConflict] at h
    split at h
    case h_1 y hy =>
      obtain ⟨rfl, rfl⟩ : y.1 = orig ∧ id = dup := by simpa using h
      have hy' := List.find?_some hy
      have hmem := List.mem_of_find?_eq_some hy
      simp only [decide_eq_true_eq] at hy'
      have : (s.buckets (o.sigOf lcSide id)).ats = ts := (hats _).mpr ⟨y, hmem, hy'⟩
      rw [if_pos this]
      simp only [← hy', hsid y hmem]
    case h_2 hy =>
      have hfresh : (s.buckets (o.sigOf lcSide id)).ats ≠ ts := fun h' => by
        obtain ⟨y, hmem, hsig⟩ := (hats _).mp h'
        simpa [hsig] using List.find?_eq_none.mp hy y hmem
      simp only [hfresh, if_false]
      refine claimLowCard_conflict hlc xs (seen ++ [(id, v)]) _ orig dup
        (fun x hx => hr x (List.mem_cons_of_mem _ hx)) (fun k => ?_) (fun y hy' => ?_) h
      · exact claimed_ats o lcSide ts hats k
      · rcases List.mem_append.mp hy' with hy' | hy'
        · have hne : o.sigOf lcSide y.1 ≠ o.sigOf lcSide id := fun h' => by
            simpa [h'] using List.find?_eq_none.mp hy y hy'
          simp [Function.update_noteq hne, hsid y hy']
        · obtain rfl := List.mem_singleton.mp hy'
          simp [claimSample]

theorem claimLowCard_ok (hlc : o.lcJoinBuckets = lcSide.map o.sigFunc) :
    ∀ (xs seen : List (UInt64 × Float)) (s : Store H),
      (∀ x ∈ xs, x.1.toNat < lcSide.length) →
      (∀ k, (s.buckets k).ats = ts ↔ ∃ y ∈ seen, o.sigOf lcSide y.1 = k) →
      o.lowCardConflict lcSide xs seen = none →
      o.claimLowCard ts (claimSample ts) xs s =
        (.ok (), { s with buckets := o.claimedBuckets lcSide ts xs s.buckets })
  | [], _, s, _, _, _ => rfl
  | (id, v) :: xs, seen, s, hr, hats, h => by
    have hlen : id.toNat < o.lcJoinBuckets.length := by
      simpa [hlc] using hr _ (List.mem_cons_self _ _)
    rw [claimLowCard, index_eq_bucketOf hlen, bucketOf_eq_sigOf o hlc]
    dsimp only
    simp only [lowCardConflict] at h
    split at h
    case h_1 => cases h
    case h_2 hy =>
      have hfresh : (s.buckets (o.sigOf lcSide id)).ats ≠ ts := fun h' => by
        obtain ⟨y, hmem, hsig⟩ := (hats _).mp h'
        simpa [hsig] using List.find?_eq_none.mp hy y hmem
      simp only [hfresh, if_false]
      rw [claimLowCard_ok hlc xs _ _ (fun x hx => hr x (List.mem_cons_of_mem _ hx))
        (claimed_ats o lcSide ts hats) h]
      congr 2
      funext k
      by_cases hk : o.sigOf lcSide id = k
      · subst hk
        have hnone : xs.find? (fun y => o.sigOf lcSide y.1 = o.sigOf lcSide id) = none :=
          List.find?_eq_none.mpr fun x hx => by
            simpa [eq_comm] using lowCardConflict_none o lcSide h (id, v) (by simp) x hx
        simp [claimedBuckets, hnone]
      · simp [claimedBuckets, List.find?_cons, hk, Function.update_noteq (Ne.symm hk)]

/-- A key of a reference sample, sent through `outputSeriesID`. -/
def outKey (p : UInt64 × UInt64) : UInt64 := o.outputSeriesID p.1 p.2

/-- The walk's invariant: every bucket holds the low-card sample of its
signature (marked at `ts`) or is not marked at `ts`, and `bts` marks the
signatures matched so far. -/
structure WalkInv (lcs : List (UInt64 × Float)) (matched : List UInt64) (s : Store H) : Prop where
  ats : ∀ k, (s.buckets k).ats = ts ↔ (lcs.find? (fun y => o.sigOf lcSide y.1 = k)).isSome
  sid_val : ∀ k y, lcs.find? (fun y => o.sigOf lcSide y.1 = k) = some y →
    (s.buckets k).sid = y.1 ∧ (s.buckets k).val = y.2
  bts : ∀ k, (s.buckets k).bts = ts ↔ k ∈ matched

theorem WalkInv.match_bucket {o : VectorOperator} {lcSide : List Labels} {ts : Int} {lcs : List (UInt64 × Float)} {matched : List UInt64} {s : Store H}
    (hw : WalkInv o lcSide ts lcs matched s) {k : UInt64} {b : JoinBucket H}
    (h₁ : b.ats = (s.buckets k).ats) (h₂ : b.sid = (s.buckets k).sid)
    (h₃ : b.val = (s.buckets k).val) (h₄ : b.bts = ts) (w : Option Warning) :
    WalkInv o lcSide ts lcs (k :: matched) ((s.setBucket k b).warn w) := by
  refine ⟨fun k' => ?_, fun k' y hy => ?_, fun k' => ?_⟩ <;> by_cases hk : k' = k
  all_goals simp only [Store.warn_buckets, Store.setBucket_buckets, List.mem_cons]
  · subst hk; rw [Function.update_same, h₁, hw.ats]
  · rw [Function.update_noteq hk, hw.ats]
  · subst hk; rw [Function.update_same, h₂, h₃]; exact hw.sid_val _ _ hy
  · rw [Function.update_noteq hk]; exact hw.sid_val _ _ hy
  · subst hk; simp [h₄]
  · rw [Function.update_noteq hk, hw.bts]; simp [hk]

theorem computeBinaryPairing_eq_refPair (v w : Float) :
    o.computeBinaryPairing hops v w none none = o.refPair hops v w := rfl

/-- **The high-card walk is `refJoin`** under the walk's invariant. -/
theorem joinHighCardSamples_eq (hhc : o.hcJoinBuckets = hcSide.map o.sigFunc)
    (lcs : List (UInt64 × Float)) :
    ∀ (xs : List (UInt64 × Float)) (matched : List UInt64) (step : StepVector UInt64 H)
      (s : Store H),
      (∀ x ∈ xs, x.1.toNat < hcSide.length) → WalkInv o lcSide ts lcs matched s →
      (o.joinHighCardSamples hops ts xs step s).1 =
        (o.refJoin hops hcSide lcSide lcs xs matched).map fun out =>
          { step with samples := step.samples ++ out.map (Prod.map o.outKey id) }
  | [], _, step, _, _, _ => by simp [joinHighCardSamples, refJoin, Except.map]
  | (sampleID, v) :: xs, matched, step, s, hr, hw => by
    have hlen : sampleID.toNat < o.hcJoinBuckets.length := by
      simpa [hhc] using hr _ (List.mem_cons_self _ _)
    have hr' := fun x hx => hr x (List.mem_cons_of_mem _ hx)
    rw [joinHighCardSamples, index_eq_bucketOf hlen, bucketOf_eq_sigOf o hhc, refJoin]
    dsimp only
    cases hf : lcs.find? (fun y => o.sigOf lcSide y.1 = o.sigOf hcSide sampleID) with
    | none =>
      have : (s.buckets (o.sigOf hcSide sampleID)).ats ≠ ts := by simp [hw.ats, hf]
      simp only [this, ne_eq, not_false_eq_true, if_true]
      exact joinHighCardSamples_eq hhc lcs xs matched step s hr' hw
    | some y =>
      have hat : (s.buckets (o.sigOf hcSide sampleID)).ats = ts := by simp [hw.ats, hf]
      obtain ⟨hsid, hval⟩ := hw.sid_val _ _ hf
      simp only [hat, ne_eq, not_true_eq_false, if_false, hw.bts, hval, hsid]
      by_cases hb : o.sigOf hcSide sampleID ∈ matched ∧ o.matching.card = .oneToOne
      · simp only [hb, and_self, if_true]; rfl
      · simp only [hb, if_false]
        rw [computeBinaryPairing_eq_refPair]
        cases hp : o.refPair hops v y.2 with
        | none => rfl
        | some r =>
          obtain ⟨f, _, keep, err⟩ := r
          dsimp only
          have ih := fun step' (b : JoinBucket H) (h₁ : b.ats = ts) (h₂ : b.sid = y.1) (h₃ : b.val = y.2)
              (h₄ : b.bts = ts) => joinHighCardSamples_eq hhc lcs xs _ step' _ hr'
            (hw.match_bucket (h₁.trans hat.symm) (h₂.trans hsid.symm) (h₃.trans hval.symm) h₄ err)
          cases o.returnBool <;> cases keep <;>
            simp only [Bool.false_eq_true, if_false, if_true] <;>
            rw [ih _ _ rfl rfl rfl rfl] <;>
            cases o.refJoin hops hcSide lcSide lcs xs (o.sigOf hcSide sampleID :: matched) <;>
            simp [Except.map, StepVector.appendSample, outKey, hsid]

end Arithmetic

end VectorOperator

end PromqlEngine
