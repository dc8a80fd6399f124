import PromqlEngine.Binary.Loops

/-!
# `PromqlEngine.Binary.Simulation` — a step of `vectorOperator` is its reference

A join bucket is trusted at a step only through the comparisons `ats == ts`
and `bts == ts`.  The buckets are never cleared: a bucket written at an
earlier step keeps that step's marks, and a fresh bucket carries `-1`.  So a
step computes what `Binary/Reference.lean` says exactly when no bucket
carries the step's timestamp, and that holds at every step of a run whose
timestamps increase and are never `-1`.

**Proved here.**

    every loop writes the marks `ts` or leaves them           (`MarksBefore`, the `_marks` lemmas)
    a step with no bucket marked `ts` is its reference      (`execBinaryOperation_eq`)

`Binary/Run.lean` chains the two over the batches of a run.
-/

namespace PromqlEngine

/-! ## Marks below a timestamp -/

/-- What the simulation asks of a step of one side: float samples only, each
sample ID a series of that side. -/
def StepVector.Fits {H : Type} (series : List Labels) (st : StepVector UInt64 H) : Prop :=
  st.histograms = [] ∧ ∀ x ∈ st.samples, x.1.toNat < series.length

instance {H : Type} [DecidableEq H] (series : List Labels) : DecidablePred (StepVector.Fits (H := H) series) :=
  fun st => @instDecidableAnd _ _ (instDecidableEqList st.histograms []) (List.decidableBAll _ st.samples)

namespace JoinBucket

variable {H : Type}

/-- Both marks of the bucket are `-1` (never marked) or below `t`. -/
def Before (t : Int) (jp : JoinBucket H) : Prop :=
  (jp.ats = -1 ∨ jp.ats < t) ∧ (jp.bts = -1 ∨ jp.bts < t)

theorem Before.of_marks {t ts : Int} {jp b : JoinBucket H} (h : jp.Before t) (hts : ts < t)
    (ha : b.ats = jp.ats ∨ b.ats = ts) (hb : b.bts = jp.bts ∨ b.bts = ts) : b.Before t := by
  obtain ⟨h₁, h₂⟩ := h
  constructor <;> omega

theorem Before.ne {t : Int} {jp : JoinBucket H} (h : jp.Before t) (ht : t ≠ -1) :
    jp.ats ≠ t ∧ jp.bts ≠ t := by
  obtain ⟨h₁, h₂⟩ := h
  constructor <;> omega

end JoinBucket

namespace Store

variable {H : Type}

/-- No bucket of the store carries a mark of a step at or after `t`. -/
def MarksBefore (t : Int) (s : Store H) : Prop := ∀ k, (s.buckets k).Before t

variable {t : Int} {s : Store H}

theorem MarksBefore.setBucket (hs : s.MarksBefore t) {k : UInt64} {b : JoinBucket H}
    (hb : b.Before t) : (s.setBucket k b).MarksBefore t := by
  intro k'
  by_cases hk : k' = k
  · subst hk; simpa using hb
  · simpa [Function.update_noteq hk] using hs k'

theorem MarksBefore.warn (hs : s.MarksBefore t) (w : Option Warning) :
    (s.warn w).MarksBefore t := fun k => by simpa using hs k

theorem MarksBefore.andThen {α β : Type} {p : Except Err α × Store H}
    {f : α → Store H → Except Err β × Store H} (hp : p.2.MarksBefore t)
    (hf : ∀ a s, s.MarksBefore t → (f a s).2.MarksBefore t) :
    (Store.andThen p f).2.MarksBefore t := by
  obtain ⟨_ | a, s⟩ := p
  · exact hp
  · exact hf a s hp

theorem marksBefore_new (w : List Warning) :
    (⟨fun _ => JoinBucket.new, w⟩ : Store H).MarksBefore t :=
  fun _ => ⟨.inl rfl, .inl rfl⟩

end Store

/-! ## Every loop marks with `ts` only -/

namespace VectorOperator

variable {H : Type} (hops : HistogramOps H) {t ts : Int}

theorem markSamples_marks {buckets : List UInt64} {mark : UInt64 → JoinBucket H → JoinBucket H}
    (hmark : ∀ id jp, jp.Before t → (mark id jp).Before t) :
    ∀ (xs : List (UInt64 × Float)) (s : Store H), s.MarksBefore t →
      (markSamples buckets mark xs s).2.MarksBefore t
  | [], _, hs => hs
  | (id, _) :: xs, s, hs => by
    unfold markSamples; split
    · exact hs
    · exact markSamples_marks hmark xs _ (hs.setBucket (hmark _ _ (hs _)))

theorem markOr_marks (o : VectorOperator) (hts : ts < t) :
    ∀ (xs : List (UInt64 × Float)) (step : StepVector UInt64 H) (s : Store H),
      s.MarksBefore t → (o.markOr ts xs step s).2.MarksBefore t
  | [], _, _, hs => hs
  | (id, _) :: xs, step, s, hs => by
    unfold markOr; split
    · exact hs
    · exact markOr_marks o hts xs _ _ (hs.setBucket ((hs _).of_marks hts (.inr rfl) (.inl rfl)))

theorem claimLowCard_marks {X : Type} (o : VectorOperator)
    {claim : UInt64 → X → JoinBucket H → JoinBucket H}
    (hclaim : ∀ id x jp, jp.Before t → (claim id x jp).Before t) :
    ∀ (xs : List (UInt64 × X)) (s : Store H), s.MarksBefore t →
      (o.claimLowCard ts claim xs s).2.MarksBefore t
  | [], _, hs => hs
  | (id, x) :: xs, s, hs => by
    unfold claimLowCard; split
    · exact hs
    · split
      · exact hs
      · exact claimLowCard_marks o hclaim xs _ (hs.setBucket (hclaim _ _ _ (hs _)))

theorem joinHighCardSamples_marks (o : VectorOperator) (hts : ts < t) :
    ∀ (xs : List (UInt64 × Float)) (step : StepVector UInt64 H) (s : Store H),
      s.MarksBefore t → (o.joinHighCardSamples hops ts xs step s).2.MarksBefore t
  | [], _, _, hs => hs
  | (id, _) :: xs, step, s, hs => by
    have hs' : ∀ k, (s.setBucket k { s.buckets k with bts := ts }).MarksBefore t :=
      fun k => hs.setBucket ((hs k).of_marks hts (.inl rfl) (.inr rfl))
    unfold joinHighCardSamples; split
    · exact hs
    rename_i k _
    dsimp only
    by_cases hats : (s.buckets k).ats ≠ ts
    · rw [if_pos hats]
      exact joinHighCardSamples_marks o hts xs _ _ hs
    rw [if_neg hats]
    by_cases hbts : (s.buckets k).bts = ts ∧ o.matching.card = .oneToOne
    · rw [if_pos hbts]
      exact hs
    rw [if_neg hbts]
    rcases o.computeBinaryPairing hops _ (s.buckets k).val none none with _ | ⟨_, _, _, _⟩
    · exact hs' _
    · dsimp only
      split_ifs <;> exact joinHighCardSamples_marks o hts xs _ _ ((hs' _).warn _)

theorem joinHighCardHistograms_marks (o : VectorOperator) (hts : ts < t) :
    ∀ (xs : List (UInt64 × Option H)) (step : StepVector UInt64 H) (s : Store H),
      s.MarksBefore t → (o.joinHighCardHistograms hops ts xs step s).2.MarksBefore t
  | [], _, _, hs => hs
  | (id, _) :: xs, step, s, hs => by
    have hs' : ∀ k, (s.setBucket k { s.buckets k with bts := ts }).MarksBefore t :=
      fun k => hs.setBucket ((hs k).of_marks hts (.inl rfl) (.inr rfl))
    unfold joinHighCardHistograms; split
    · exact hs
    rename_i k _
    dsimp only
    by_cases hats : (s.buckets k).ats ≠ ts
    · rw [if_pos hats]
      exact joinHighCardHistograms_marks o hts xs _ _ hs
    rw [if_neg hats]
    by_cases hbts : (s.buckets k).bts = ts ∧ o.matching.card = .oneToOne
    · rw [if_pos hbts]
      exact hs
    rw [if_neg hbts]
    rcases o.computeBinaryPairing hops 0 0 _ (s.buckets k).hval with _ | ⟨_, _, _, _⟩
    · exact hs' _
    · exact joinHighCardHistograms_marks o hts xs _ _ ((hs' _).warn _)

variable {o : VectorOperator} {lhs rhs : StepVector UInt64 H} {s : Store H}

theorem execBinaryAnd_marks (hs : s.MarksBefore t) (hts : lhs.t < t) :
    (o.execBinaryAnd lhs rhs s).2.MarksBefore t := by
  refine (markSamples_marks ?_ _ _ hs).andThen fun _ _ h => h
  exact fun _ _ h => h.of_marks hts (.inr rfl) (.inl rfl)

theorem execBinaryOr_marks (hs : s.MarksBefore t) (hts : lhs.t < t) :
    (o.execBinaryOr lhs rhs s).2.MarksBefore t :=
  (markOr_marks o hts _ _ _ hs).andThen fun _ _ h => h

theorem execBinaryUnless_marks (hs : s.MarksBefore t) (hts : lhs.t < t) :
    (o.execBinaryUnless lhs rhs s).2.MarksBefore t := by
  refine (markSamples_marks ?_ _ _ hs).andThen fun _ _ h => h
  exact fun _ _ h => h.of_marks hts (.inr rfl) (.inl rfl)

theorem execBinaryArithmetic_marks (hs : s.MarksBefore t) (hts : lhs.t < t) :
    (o.execBinaryArithmetic hops lhs rhs s).2.MarksBefore t := by
  unfold execBinaryArithmetic
  split
  · exact hs
  · split
    · exact hs
    · refine (claimLowCard_marks o ?_ _ _ hs).andThen fun _ _ h =>
        (claimLowCard_marks o ?_ _ _ h).andThen fun _ _ h =>
        (joinHighCardSamples_marks hops o hts _ _ _ h).andThen fun _ _ h =>
        joinHighCardHistograms_marks hops o hts _ _ _ h
      all_goals exact fun _ _ _ h => h.of_marks hts (.inr rfl) (.inl rfl)

theorem execBinaryOperation_marks (hs : s.MarksBefore t) (hts : lhs.t < t) :
    (o.execBinaryOperation hops lhs rhs s).2.MarksBefore t := by
  unfold execBinaryOperation
  split
  · exact execBinaryAnd_marks hs hts
  · exact execBinaryOr_marks hs hts
  · exact execBinaryUnless_marks hs hts
  · exact execBinaryArithmetic_marks hops hs hts

theorem execBatch_marks :
    ∀ (ls rs : Batch H) (s : Store H), s.MarksBefore t → (∀ l ∈ ls, l.t < t) →
      (o.execBatch hops ls rs s).2.MarksBefore t
  | l :: ls, r :: rs, s, hs, hts => by
    rw [execBatch]
    exact (execBinaryOperation_marks hops hs (hts l (List.mem_cons_self _ _))).andThen
      fun _ _ h => (execBatch_marks ls rs _ h fun l' hl' => hts l' (List.mem_cons_of_mem _ hl')).andThen
        fun _ _ h => h
  | [], _, _, hs, _ => hs
  | _ :: _, [], _, hs, _ => hs

/-! ## A fresh step is its reference -/

theorem foldl_overwrite {α β : Type} (f : α → β → β) (hf : ∀ a a' b, f a (f a' b) = f a b) :
    ∀ (l : List α) (b : β), l.foldl (fun b a => f a b) b = l.getLast?.elim b (fun a => f a b)
  | [], _ => rfl
  | a :: l, b => by
    rw [List.foldl_cons, foldl_overwrite f hf l, List.getLast?_cons]
    cases l.getLast? <;> simp [hf]

theorem marksOf_eq_filter {o : VectorOperator} {buckets : List UInt64} {side : List Labels}
    (h : buckets = side.map o.sigFunc) (xs : List (UInt64 × Float)) (k : UInt64) :
    marksOf buckets xs k = (xs.filter fun x => o.sigOf side x.1 = k).map Prod.fst := by
  subst h; rfl

theorem getLast?_marksOf {o : VectorOperator} {buckets : List UInt64} {side : List Labels}
    (h : buckets = side.map o.sigFunc) (xs : List (UInt64 × Float)) (k : UInt64) :
    (marksOf buckets xs k).getLast? = o.lastWithSig side xs k := by
  rw [marksOf_eq_filter h]; rfl

theorem marksOf_eq_nil_iff {o : VectorOperator} {buckets : List UInt64} {side : List Labels}
    (h : buckets = side.map o.sigFunc) (xs : List (UInt64 × Float)) (k : UInt64) :
    marksOf buckets xs k = [] ↔ o.hasSig side xs k = false := by
  simp [marksOf_eq_filter h, hasSig, List.filter_eq_nil_iff]

theorem isSome_lastWithSig (o : VectorOperator) (side : List Labels)
    (xs : List (UInt64 × Float)) (k : UInt64) :
    (o.lastWithSig side xs k).isSome = o.hasSig side xs k := by
  rw [Bool.eq_iff_iff, lastWithSig, List.getLast?_isSome, hasSig]
  simp [List.filter_eq_nil_iff]

theorem map_filter_eq_filterMap {α β : Type} (p : α → Bool) (f : α → β) (l : List α) :
    (l.filter p).map f = l.filterMap fun x => if p x then some (f x) else none := by
  rw [← List.filterMap_eq_filter, List.map_filterMap]
  exact List.filterMap_congr fun x _ => by by_cases h : p x <;> simp [Option.guard, h]

section Step

variable (o : VectorOperator) {hcSide lcSide : List Labels}
  (hhc : o.hcJoinBuckets = hcSide.map o.sigFunc) (hlc : o.lcJoinBuckets = lcSide.map o.sigFunc)
  {lhs rhs : StepVector UInt64 H} {s : Store H}

include hhc hlc

theorem execBinaryAnd_eq (hfresh : ∀ k, (s.buckets k).ats ≠ lhs.t)
    (hl : ∀ x ∈ lhs.samples, x.1.toNat < hcSide.length)
    (hr : ∀ x ∈ rhs.samples, x.1.toNat < lcSide.length) :
    (o.execBinaryAnd lhs rhs s).1 = .ok ((o.refAnd hcSide lcSide lhs rhs).mapIds o.outKey) := by
  rw [execBinaryAnd, markSamples_eq _ _ _ _ (by simpa [hlc] using hr), Store.andThen_ok]
  dsimp only
  rw [emitSamples_eq _ _ _ _ _ (by simpa [hhc] using hl)]
  simp only [refAnd, StepVector.mapIds, StepVector.empty, List.nil_append, List.map_filterMap]
  congr 2
  refine List.filterMap_congr fun x _ => ?_
  rw [bucketOf_eq_sigOf o hhc,
    foldl_overwrite (fun id (jp : JoinBucket H) => { jp with sid := id, ats := lhs.t })
      (fun _ _ _ => rfl), getLast?_marksOf hlc]
  cases o.lastWithSig lcSide rhs.samples (o.sigOf hcSide x.1) <;> simp [hfresh, outKey]

theorem execBinaryUnless_eq (hfresh : ∀ k, (s.buckets k).ats ≠ lhs.t)
    (hl : ∀ x ∈ lhs.samples, x.1.toNat < hcSide.length)
    (hr : ∀ x ∈ rhs.samples, x.1.toNat < lcSide.length) :
    (o.execBinaryUnless lhs rhs s).1 = .ok ((o.refUnless hcSide lcSide lhs rhs).mapIds o.outKey) := by
  rw [execBinaryUnless, markSamples_eq _ _ _ _ (by simpa [hlc] using hr), Store.andThen_ok]
  dsimp only
  rw [emitSamples_eq _ _ _ _ _ (by simpa [hhc] using hl)]
  simp only [refUnless, StepVector.mapIds, StepVector.empty, List.nil_append,
    map_filter_eq_filterMap, List.map_filterMap]
  congr 2
  refine List.filterMap_congr fun x _ => ?_
  simp only [bucketOf_eq_sigOf o hhc, getLast?_marksOf hlc, ← isSome_lastWithSig,
    foldl_overwrite (fun _ (jp : JoinBucket H) => { jp with ats := lhs.t }) (fun _ _ _ => rfl)]
  cases o.lastWithSig lcSide rhs.samples (o.sigOf hcSide x.1) <;> simp [hfresh, outKey]

theorem execBinaryOr_eq (hfresh : ∀ k, (s.buckets k).ats ≠ lhs.t)
    (hl : ∀ x ∈ lhs.samples, x.1.toNat < hcSide.length)
    (hr : ∀ x ∈ rhs.samples, x.1.toNat < lcSide.length) :
    (o.execBinaryOr lhs rhs s).1 = .ok ((o.refOr hcSide lcSide lhs rhs).mapIds o.outKey) := by
  rw [execBinaryOr, markOr_eq _ _ _ _ _ (by simpa [hhc] using hl), Store.andThen_ok]
  dsimp only
  rw [emitSamples_eq _ _ _ _ _ (by simpa [hlc] using hr)]
  simp only [refOr, StepVector.mapIds, StepVector.empty, List.nil_append, List.map_map,
    List.map_append, map_filter_eq_filterMap, List.map_filterMap]
  congr 2
  congr 1
  refine List.filterMap_congr fun x _ => ?_
  rw [bucketOf_eq_sigOf o hlc]
  by_cases h : o.hasSig hcSide lhs.samples (o.sigOf lcSide x.1) = true
  · have : marksOf o.hcJoinBuckets lhs.samples (o.sigOf lcSide x.1) ≠ [] := by
      simpa [marksOf_eq_nil_iff hhc] using h
    simp [this, h]
  · have : marksOf o.hcJoinBuckets lhs.samples (o.sigOf lcSide x.1) = [] := by
      simpa [marksOf_eq_nil_iff hhc] using h
    simp [this, h, hfresh, outKey]

omit hhc hlc in
theorem walkInv_claimed {ts : Int} (hfresh : ∀ k, (s.buckets k).ats ≠ ts ∧ (s.buckets k).bts ≠ ts)
    (lcs : List (UInt64 × Float)) :
    WalkInv o lcSide ts lcs [] { s with buckets := o.claimedBuckets lcSide ts lcs s.buckets } := by
  refine ⟨fun k => ?_, fun k y hy => ?_, fun k => ?_⟩ <;> dsimp only [claimedBuckets]
  · cases lcs.find? (fun y => o.sigOf lcSide y.1 = k) <;> simp [claimSample, (hfresh k).1]
  · rw [hy]; exact ⟨rfl, rfl⟩
  · cases lcs.find? (fun y => o.sigOf lcSide y.1 = k) <;> simp [claimSample, (hfresh k).2]

omit hhc hlc in
theorem highLowCard_eq_refSides :
    o.highLowCard lhs rhs = if o.matching.card = .manyToMany then none else some (o.refSides lhs rhs) := by
  unfold highLowCard refSides
  cases o.matching.card <;> rfl

omit hhc hlc in
theorem sides_eq_refSides (lser rser : List Labels) : o.sides lser rser = o.refSides lser rser := rfl

/-- **Arithmetic and comparison at a fresh step**, when neither side carries
a histogram. -/
theorem execBinaryArithmetic_eq (hops : HistogramOps H)
    (hfresh : ∀ k, (s.buckets k).ats ≠ lhs.t ∧ (s.buckets k).bts ≠ lhs.t)
    (hsteps : (o.refSides lhs rhs).1.Fits hcSide ∧ (o.refSides lhs rhs).2.Fits lcSide) :
    (o.execBinaryArithmetic hops lhs rhs s).1 =
      (o.refArithmetic hops hcSide lcSide lhs rhs).map (·.mapIds o.outKey) := by
  unfold execBinaryArithmetic refArithmetic
  rw [highLowCard_eq_refSides]
  by_cases hm : o.matching.card = .manyToMany
  · rw [if_pos hm, if_pos hm]; rfl
  rw [if_neg hm, if_neg hm]
  generalize o.refSides lhs rhs = p at hsteps ⊢
  obtain ⟨hcs, lcs⟩ := p
  obtain ⟨⟨hh, hr⟩, lh, lr⟩ := hsteps
  dsimp only at hh hr lh lr ⊢
  split_ifs
  · rfl
  rw [show (fun sampleID v (jp : JoinBucket H) => { jp with sid := sampleID, val := v, ats := lhs.t })
    = claimSample lhs.t from rfl]
  cases hconf : o.lowCardConflict lcSide lcs.samples [] with
  | some p =>
    obtain ⟨orig, dup⟩ := p
    have := claimLowCard_conflict o lcSide lhs.t hlc lcs.samples [] s orig dup lr
      (by simp [hfresh]) (by simp) hconf
    revert this
    obtain ⟨r, s'⟩ := o.claimLowCard lhs.t (claimSample lhs.t) lcs.samples s
    rintro rfl
    rfl
  | none =>
    rw [claimLowCard_ok o lcSide lhs.t hlc lcs.samples [] s lr (by simp [hfresh]) hconf,
      Store.andThen_ok, lh]
    have hj := joinHighCardSamples_eq hops o hcSide lcSide lhs.t hhc lcs.samples hcs.samples []
      (.empty lhs.t) _ hr (walkInv_claimed o hfresh lcs.samples)
    simp only [claimLowCard, Store.andThen_ok]
    revert hj
    obtain ⟨_ | step, s''⟩ := o.joinHighCardSamples hops lhs.t hcs.samples (.empty lhs.t)
      { s with buckets := o.claimedBuckets lcSide lhs.t lcs.samples s.buckets }
    all_goals
      intro hj
      cases hjoin : o.refJoin hops hcSide lcSide lcs.samples hcs.samples [] <;>
        simp only [hjoin, Except.map, reduceCtorEq, Except.error.injEq, Except.ok.injEq] at hj
      simp [hj, hh, Store.andThen, Except.map, StepVector.mapIds, StepVector.empty, joinHighCardHistograms]

omit hhc hlc in
theorem refSides_fits {lser rser : List Labels} (hsides : o.sides lser rser = (hcSide, lcSide))
    (hl : lhs.Fits lser) (hr : rhs.Fits rser) :
    (o.refSides lhs rhs).1.Fits hcSide ∧ (o.refSides lhs rhs).2.Fits lcSide := by
  unfold sides at hsides
  unfold refSides
  split_ifs at hsides ⊢ <;> obtain ⟨rfl, rfl⟩ := Prod.mk.inj hsides
  exacts [⟨hr, hl⟩, ⟨hl, hr⟩]

/-- **A step at a fresh timestamp is its reference.**  Set operators come
with many-to-many matching (the parser gives them no other), so their sides
are the children's. -/
theorem execBinaryOperation_eq (hops : HistogramOps H) {lser rser : List Labels}
    (hsides : o.sides lser rser = (hcSide, lcSide))
    (hset : o.opType.isSetOperator = true → o.matching.card ≠ .oneToMany)
    (hl : lhs.Fits lser) (hr : rhs.Fits rser)
    (hfresh : ∀ k, (s.buckets k).ats ≠ lhs.t ∧ (s.buckets k).bts ≠ lhs.t) :
    (o.execBinaryOperation hops lhs rhs s).1 =
      (o.refStep hops lser rser lhs rhs).map (·.mapIds o.outKey) := by
  have hset' : o.opType.isSetOperator = true → hcSide = lser ∧ lcSide = rser := fun h => by
    simpa [sides, hset h] using hsides.symm
  have ha : ∀ k, (s.buckets k).ats ≠ lhs.t := fun k => (hfresh k).1
  unfold execBinaryOperation refStep
  rw [← sides_eq_refSides, hsides]
  dsimp only
  cases hop : o.opType <;> dsimp only
  case land =>
    obtain ⟨rfl, rfl⟩ := hset' (by simp [hop, ItemType.isSetOperator])
    exact execBinaryAnd_eq o hhc hlc ha hl.2 hr.2
  case lor =>
    obtain ⟨rfl, rfl⟩ := hset' (by simp [hop, ItemType.isSetOperator])
    exact execBinaryOr_eq o hhc hlc ha hl.2 hr.2
  case lunless =>
    obtain ⟨rfl, rfl⟩ := hset' (by simp [hop, ItemType.isSetOperator])
    exact execBinaryUnless_eq o hhc hlc ha hl.2 hr.2
  all_goals
    exact execBinaryArithmetic_eq o hhc hlc hops hfresh (refSides_fits o hsides hl hr)

end Step

end VectorOperator

end PromqlEngine
