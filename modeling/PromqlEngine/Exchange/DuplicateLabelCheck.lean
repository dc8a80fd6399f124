import PromqlEngine.Model

/-!
# `PromqlEngine.Exchange.DuplicateLabelCheck` — the runtime check for equal label sets

`duplicateLabelCheckOperator` sits above an operator whose output series may
coincide.  Its `init` reads the child's `Series()` once and records, for every
series whose `Hash()` an earlier series has, the pair (that series, the first
series with the hash).  Each `Next` clears the mask entries of the recorded
pairs, sets `2 << i` in the entry of every sample ID of the `i`-th step, and
fails when the two entries of a recorded pair share a bit.

The mask is a slice of `uint64`, so `2 << i` is bit `i + 1` up to `i = 62`
and `0` from `i = 63` on; `stepBit` computes it so.  Writing `c[a] = 0` past
the end of the mask would panic; `List.set` there does nothing, and `Ready`
shows that the pairs of a reachable state are always within the mask.

**Proved here.**

    the recorded pairs are two series of one hash                 (`pairsOf_sound`)
    the check fails iff a recorded pair is in one of the first
    63 steps of the batch, whatever earlier calls left           (`checkPairs_markBatch`)
    every call of a run returns the child's result, or the
    duplicate error on a batch with two series of one hash in
    one step                                                     (`run_duplicate_only_if`)
    two later series of one hash in a step, or a duplicate at
    batch position 63, pass the check                            (`next_misses_duplicates`)
-/

namespace PromqlEngine

/-- `pair{a, b}`: series `a` has the `Hash()` of the earlier series `b`. -/
structure Pair where
  a : Nat
  b : Nat
deriving DecidableEq, Repr

/-- `duplicateLabelCheckOperator` without its child and telemetry; `once` says
whether `init` has run. -/
structure DuplicateLabelCheck where
  once : Bool
  p : List Pair
  c : List UInt64

namespace DuplicateLabelCheck

/-- `NewDuplicateLabelCheck`. -/
def new : DuplicateLabelCheck := ⟨false, [], []⟩

section Model

variable (hash : Labels → UInt64)

/-- The loop of `init` from series `i` on: `m` maps a hash to the first series
that has it. -/
def collisionPairs : (UInt64 → Option Nat) → Nat → List Labels → List Pair
  | _, _, [] => []
  | m, i, l :: rest =>
    match m (hash l) with
    | some j => ⟨i, j⟩ :: collisionPairs m (i + 1) rest
    | none => collisionPairs (Function.update m (hash l) (some i)) (i + 1) rest

/-- The pairs `init` records. -/
def pairsOf (series : List Labels) : List Pair := collisionPairs hash (fun _ => none) 0 series

/-- `duplicateLabelCheckOperator.init`: it runs on the first call only, and
its error is returned to that call only. -/
def init (d : DuplicateLabelCheck) (series : Except Err (List Labels)) :
    Except Err Unit × DuplicateLabelCheck :=
  if d.once then (.ok (), d)
  else
    match series with
    | .error e => (.error e, { d with once := true })
    | .ok series => (.ok (), ⟨true, pairsOf hash series, List.replicate series.length 0⟩)

/-- The first loop of `Next`: `d.c[a] = 0` and `d.c[b] = 0` for every pair. -/
def resetPairs (p : List Pair) (c : List UInt64) : List UInt64 :=
  p.foldl (fun c q => (c.set q.a 0).set q.b 0) c

/-- `2 << i` in `uint64`. -/
def stepBit (i : Nat) : UInt64 := UInt64.ofNat (2 <<< i)

/-- `for _, sid := range sv.SampleIDs { d.c[sid] |= bit }`; an ID past the
end of the mask panics. -/
def markIDs (bit : UInt64) : List UInt64 → List UInt64 → Except Err Unit × List UInt64
  | [], c => (.ok (), c)
  | sid :: rest, c =>
    if sid.toNat < c.length then markIDs bit rest (c.set sid.toNat (c.getD sid.toNat 0 ||| bit))
    else (.error indexOutOfRange, c)

/-- The second loop of `Next`, from step `i` of the batch on. -/
def markBatch {H : Type} : Nat → Batch H → List UInt64 → Except Err Unit × List UInt64
  | _, [], c => (.ok (), c)
  | i, sv :: rest, c =>
    match markIDs (stepBit i) sv.sampleIDs c with
    | (.error e, c) => (.error e, c)
    | (.ok (), c) => markBatch (i + 1) rest c

/-- The third loop of `Next`: the entries of some pair share a bit. -/
def checkPairs (p : List Pair) (c : List UInt64) : Bool :=
  p.any fun q => (c.getD q.a 0 &&& c.getD q.b 0) != 0

/-- `duplicateLabelCheckOperator.Next`; the child's batch is `none` when it
returns a nil slice. -/
def next {H : Type} (d : DuplicateLabelCheck) (ctx : Context) (series : Except Err (List Labels))
    (input : Except Err (Option (Batch H))) : Except Err (Option (Batch H)) × DuplicateLabelCheck :=
  match ctx.err with
  | some e => (.error e, d)
  | none =>
    match d.init hash series with
    | (.error e, d) => (.error e, d)
    | (.ok (), d) =>
      match input with
      | .error e => (.error e, d)
      | .ok none => (.ok none, d)
      | .ok (some batch) =>
        if d.p.isEmpty then (.ok (some batch), d)
        else
          match markBatch 0 batch (resetPairs d.p d.c) with
          | (.error e, c) => (.error e, { d with c := c })
          | (.ok (), c) =>
            if checkPairs d.p c then (.error .duplicateLabelSet, { d with c := c })
            else (.ok (some batch), { d with c := c })

/-- `duplicateLabelCheckOperator.Series`: `init`, then the child's `Series()`. -/
def callSeries (d : DuplicateLabelCheck) (series : Except Err (List Labels)) :
    Except Err (List Labels) × DuplicateLabelCheck :=
  match d.init hash series with
  | (.error e, d) => (.error e, d)
  | (.ok (), d) => (series, d)

/-- A run of `Next` calls under a live context, the child's `Series()` fixed:
the result of each call. -/
def run {H : Type} (d : DuplicateLabelCheck) (series : Except Err (List Labels)) :
    List (Except Err (Option (Batch H))) → List (Except Err (Option (Batch H)))
  | [] => []
  | input :: rest =>
    let r := d.next hash .background series input
    r.1 :: run r.2 series rest

end Model

/-! ## The mask -/

theorem uint64_toNat_or (a b : UInt64) : (a ||| b).toNat = a.toNat ||| b.toNat := BitVec.toNat_or ..

theorem testBit_stepBit (i k : Nat) :
    (stepBit i).toNat.testBit k = decide (k = i + 1 ∧ k < 64) := by
  show (BitVec.ofNat 64 (2 <<< i)).toNat.testBit k = _
  rw [BitVec.toNat_ofNat, Nat.shiftLeft_eq, ← Nat.pow_succ', Nat.testBit_mod_two_pow,
    Nat.testBit_two_pow]
  by_cases h : k < 64 <;> by_cases h' : k = i + 1 <;> simp [h, h', eq_comm]

theorem getD_set {c : List UInt64} {i : Nat} (hi : i < c.length) (v : UInt64) (x : Nat) :
    (c.set i v).getD x 0 = if i = x then v else c.getD x 0 := by
  simp only [List.getD_eq_getElem?_getD, List.getElem?_set]
  split_ifs <;> simp_all

theorem markIDs_spec (bit : UInt64) : ∀ (ids c : List UInt64), (∀ id ∈ ids, id.toNat < c.length) →
    ∃ c', markIDs bit ids c = (.ok (), c') ∧ c'.length = c.length ∧
      ∀ x k, (c'.getD x 0).toNat.testBit k =
        ((c.getD x 0).toNat.testBit k || (ids.any (·.toNat = x) && bit.toNat.testBit k))
  | [], c, _ => ⟨c, rfl, rfl, by simp⟩
  | sid :: rest, c, h => by
    have hs : sid.toNat < c.length := h sid (List.mem_cons_self _ _)
    obtain ⟨c', hc', hlen, hbits⟩ := markIDs_spec bit rest (c.set sid.toNat (c.getD sid.toNat 0 ||| bit))
      (fun id hid => by rw [List.length_set]; exact h id (List.mem_cons_of_mem _ hid))
    refine ⟨c', by rw [markIDs, if_pos hs, hc'], by rw [hlen, List.length_set], fun x k => ?_⟩
    rw [hbits, getD_set hs]
    by_cases hx : sid.toNat = x
    · subst hx
      simp only [if_true, uint64_toNat_or, Nat.testBit_or, List.any_cons, decide_True, Bool.true_or,
        Bool.true_and]
      cases bit.toNat.testBit k <;> simp
    · simp [hx]


theorem markBatch_spec {H : Type} : ∀ (b : Batch H) (i : Nat) (c : List UInt64),
    (∀ st ∈ b, ∀ id ∈ st.sampleIDs, id.toNat < c.length) →
    ∃ c', markBatch i b c = (.ok (), c') ∧ c'.length = c.length ∧
      ∀ x k, (c'.getD x 0).toNat.testBit k = true ↔ (c.getD x 0).toNat.testBit k = true ∨
        ∃ j st, b[j]? = some st ∧ x ∈ st.sampleIDs.map UInt64.toNat ∧ k = i + j + 1 ∧ k < 64
  | [], i, c, _ => ⟨c, rfl, rfl, by simp⟩
  | sv :: rest, i, c, h => by
    obtain ⟨c₁, h₁, hlen₁, hbits₁⟩ :=
      markIDs_spec (stepBit i) sv.sampleIDs c (h sv (List.mem_cons_self _ _))
    obtain ⟨c₂, h₂, hlen₂, hbits₂⟩ := markBatch_spec rest (i + 1) c₁
      (fun st hst id hid => hlen₁ ▸ h st (List.mem_cons_of_mem _ hst) id hid)
    refine ⟨c₂, by rw [markBatch, h₁]; exact h₂, hlen₂.trans hlen₁, fun x k => ?_⟩
    rw [hbits₂, hbits₁, testBit_stepBit]
    simp only [Bool.or_eq_true, Bool.and_eq_true, List.any_eq_true, decide_eq_true_eq, List.mem_map]
    constructor
    · rintro ((hc | ⟨hx, hk, hk'⟩) | ⟨j, st, hj, hx, hk, hk'⟩)
      · exact Or.inl hc
      · exact Or.inr ⟨0, sv, List.getElem?_cons_zero, hx, by omega, hk'⟩
      · exact Or.inr ⟨j + 1, st, by rw [List.getElem?_cons_succ]; exact hj, hx, by omega, hk'⟩
    · rintro (hc | ⟨_ | j, st, hj, hx, hk, hk'⟩)
      · exact Or.inl (Or.inl hc)
      · obtain rfl : sv = st := Option.some.inj (List.getElem?_cons_zero ▸ hj)
        exact Or.inl (Or.inr ⟨hx, by omega, hk'⟩)
      · exact Or.inr ⟨j, st, List.getElem?_cons_succ ▸ hj, hx, by omega, hk'⟩


theorem uint64_and_ne_zero (a b : UInt64) :
    a &&& b ≠ 0 ↔ ∃ k, a.toNat.testBit k = true ∧ b.toNat.testBit k = true := by
  have hz : a &&& b ≠ 0 ↔ (a &&& b).toNat ≠ 0 :=
    ⟨fun h h' => h (UInt64.toNat.inj h'), fun h h' => h (by rw [h']; rfl)⟩
  rw [hz, UInt64.and_toNat]
  constructor
  · intro h
    obtain ⟨k, hk⟩ := Nat.ne_zero_implies_bit_true h
    exact ⟨k, by simpa [Nat.testBit_and] using hk⟩
  · rintro ⟨k, ha, hb⟩ h
    have := Nat.testBit_and a.toNat b.toNat k
    rw [h, Nat.zero_testBit, ha, hb] at this
    cases this

theorem resetPairs_cons (q : Pair) (p : List Pair) (c : List UInt64) :
    resetPairs (q :: p) c = resetPairs p ((c.set q.a 0).set q.b 0) := rfl

theorem length_resetPairs : ∀ (p : List Pair) (c : List UInt64), (resetPairs p c).length = c.length
  | [], _ => rfl
  | q :: p, c => by rw [resetPairs_cons, length_resetPairs p, List.length_set, List.length_set]

theorem getD_set_zero {c : List UInt64} {x : Nat} (h : c.getD x 0 = 0) (i : Nat) :
    (c.set i 0).getD x 0 = 0 := by
  simp only [List.getD_eq_getElem?_getD, List.getElem?_set] at h ⊢
  split_ifs <;> simp_all

theorem getD_set_self (c : List UInt64) (i : Nat) : (c.set i 0).getD i 0 = 0 := by
  simp only [List.getD_eq_getElem?_getD, List.getElem?_set]
  split_ifs <;> rfl

theorem getD_resetPairs_of_zero : ∀ (p : List Pair) {c : List UInt64} {x : Nat}, c.getD x 0 = 0 →
    (resetPairs p c).getD x 0 = 0
  | [], _, _, h => h
  | q :: p, _, _, h => by
    rw [resetPairs_cons]
    exact getD_resetPairs_of_zero p (getD_set_zero (getD_set_zero h _) _)

theorem getD_resetPairs : ∀ (p : List Pair) (c : List UInt64), ∀ q ∈ p,
    (resetPairs p c).getD q.a 0 = 0 ∧ (resetPairs p c).getD q.b 0 = 0
  | q' :: p, c, q, hq => by
    rw [resetPairs_cons]
    rcases List.mem_cons.mp hq with rfl | hq
    · exact ⟨getD_resetPairs_of_zero p (getD_set_zero (getD_set_self _ _) _),
        getD_resetPairs_of_zero p (getD_set_self _ _)⟩
    · exact getD_resetPairs p _ q hq

/-- **The check reads this call's bits only**: it fails exactly when both
series of some recorded pair have a sample in one step among the first 63 of
the batch. -/
theorem checkPairs_markBatch {H : Type} (p : List Pair) (c : List UInt64) (b : Batch H)
    (hb : ∀ st ∈ b, ∀ id ∈ st.sampleIDs, id.toNat < c.length) :
    ∃ c', markBatch 0 b (resetPairs p c) = (.ok (), c') ∧ c'.length = c.length ∧
      (checkPairs p c' = true ↔ ∃ q ∈ p, ∃ j st, b[j]? = some st ∧ j < 63 ∧
        q.a ∈ st.sampleIDs.map UInt64.toNat ∧ q.b ∈ st.sampleIDs.map UInt64.toNat) := by
  obtain ⟨c', h, hlen, hbits⟩ := markBatch_spec b 0 (resetPairs p c) (by rwa [length_resetPairs])
  refine ⟨c', h, hlen.trans (length_resetPairs p c), ?_⟩
  have hbit : ∀ x, (resetPairs p c).getD x 0 = 0 → ∀ k, (c'.getD x 0).toNat.testBit k = true ↔
      ∃ j st, b[j]? = some st ∧ x ∈ st.sampleIDs.map UInt64.toNat ∧ k = j + 1 ∧ k < 64 := by
    intro x hx k
    rw [hbits, hx]
    simp
  simp only [checkPairs, List.any_eq_true, bne_iff_ne, ne_eq, uint64_and_ne_zero]
  constructor
  · rintro ⟨q, hq, k, ha, hb⟩
    obtain ⟨j, st, hj, hx, rfl, hk⟩ := (hbit q.a (getD_resetPairs p c q hq).1 k).mp ha
    obtain ⟨j', st', hj', hx', hk', -⟩ := (hbit q.b (getD_resetPairs p c q hq).2 _).mp hb
    obtain rfl : j = j' := by omega
    obtain rfl : st = st' := Option.some.inj (hj.symm.trans hj')
    exact ⟨q, hq, j, st, hj, by omega, hx, hx'⟩
  · rintro ⟨q, hq, j, st, hj, hj63, ha, hb⟩
    exact ⟨q, hq, j + 1, (hbit q.a (getD_resetPairs p c q hq).1 _).mpr ⟨j, st, hj, ha, rfl, by omega⟩,
      (hbit q.b (getD_resetPairs p c q hq).2 _).mpr ⟨j, st, hj, hb, rfl, by omega⟩⟩

/-! ## The recorded pairs -/

section Run

variable (hash : Labels → UInt64) (series : List Labels)

theorem collisionPairs_sound :
    ∀ (m : UInt64 → Option Nat) (i : Nat) (rest : List Labels), series.drop i = rest →
      (∀ h j, m h = some j → j < i ∧ hash (series.getD j []) = h) →
      ∀ q ∈ collisionPairs hash m i rest,
        q.b < q.a ∧ q.a < series.length ∧ hash (series.getD q.a []) = hash (series.getD q.b [])
  | _, _, [], _, _, q, hq => by cases hq
  | m, i, l :: rest, hdrop, hm, q, hq => by
    have hl : series[i]? = some l := by rw [← Nat.add_zero i, ← List.getElem?_drop, hdrop, List.getElem?_cons_zero]
    have hi : i < series.length := (List.getElem?_eq_some_iff.mp hl).1
    have hgl : series.getD i [] = l := by rw [List.getD_eq_getElem?_getD, hl]; rfl
    have hrest : series.drop (i + 1) = rest := by rw [← List.tail_drop, hdrop]; rfl
    unfold collisionPairs at hq
    split at hq
    · rename_i j hj
      rcases List.mem_cons.mp hq with rfl | hq
      · obtain ⟨hji, hh⟩ := hm _ j hj
        exact ⟨hji, hi, by rw [hgl, hh]⟩
      · exact collisionPairs_sound m (i + 1) rest hrest
          (fun h j hj => let ⟨h₁, h₂⟩ := hm h j hj; ⟨by omega, h₂⟩) q hq
    · refine collisionPairs_sound _ (i + 1) rest hrest (fun h j hj => ?_) q hq
      by_cases hh : h = hash l
      · subst hh
        rw [Function.update_same] at hj
        cases hj
        exact ⟨by omega, by rw [hgl]⟩
      · rw [Function.update_noteq hh] at hj
        obtain ⟨h₁, h₂⟩ := hm h j hj
        exact ⟨by omega, h₂⟩

/-- **The recorded pairs are two series of one hash**, the later one first. -/
theorem pairsOf_sound : ∀ q ∈ pairsOf hash series,
    q.b < q.a ∧ q.a < series.length ∧ hash (series.getD q.a []) = hash (series.getD q.b []) :=
  collisionPairs_sound hash series _ 0 series rfl (fun _ _ h => by cases h)

/-! ## A run -/

/-- The operator after a successful `init` on `series`. -/
def ready : DuplicateLabelCheck := ⟨true, pairsOf hash series, List.replicate series.length 0⟩

/-- What a successful `init` leaves true: it will not run again, the pairs are
those of the series, and the mask has one entry per series. -/
structure Ready (d : DuplicateLabelCheck) : Prop where
  once : d.once = true
  pairs : d.p = pairsOf hash series
  length : d.c.length = series.length

theorem ready_ready : Ready hash series (ready hash series) := ⟨rfl, rfl, List.length_replicate _ _⟩

variable {H : Type}

/-- Some step of the batch holds the sample IDs of two distinct series with
one `Hash()`. -/
def HasDuplicate (b : Batch H) : Prop :=
  ∃ st ∈ b, ∃ x ∈ st.sampleIDs, ∃ y ∈ st.sampleIDs, x ≠ y ∧
    hash (series.getD x.toNat []) = hash (series.getD y.toNat [])

/-- Every sample ID the child returns names one of its series. -/
def InRange (input : Except Err (Option (Batch H))) : Prop :=
  ∀ b, input = .ok (some b) → ∀ st ∈ b, ∀ id ∈ st.sampleIDs, id.toNat < series.length

/-- What a call may return for what the child returned: that, unchanged, or
the duplicate error on a batch with a duplicate. -/
def Outcome (input result : Except Err (Option (Batch H))) : Prop :=
  result = input ∨
    (result = .error .duplicateLabelSet ∧ ∃ b, input = .ok (some b) ∧ HasDuplicate hash series b)

/-- **A call on a ready operator** returns the child's result or the
duplicate error on a duplicate, and leaves the operator ready. -/
theorem next_of_ready {d : DuplicateLabelCheck} (hd : Ready hash series d)
    {input : Except Err (Option (Batch H))} (hin : InRange series input) :
    Outcome hash series input (d.next hash .background (.ok series) input).1 ∧
      Ready hash series (d.next hash .background (.ok series) input).2 := by
  have hinit : d.init hash (.ok series) = (.ok (), d) := by simp [init, hd.once]
  simp only [next, Context.background, hinit]
  rcases input with e | _ | b
  · exact ⟨Or.inl rfl, hd⟩
  · exact ⟨Or.inl rfl, hd⟩
  · dsimp only
    split_ifs
    · exact ⟨Or.inl rfl, hd⟩
    · obtain ⟨c', hmark, hlen, hcheck⟩ :=
        checkPairs_markBatch d.p d.c b (by rw [hd.length]; exact hin b rfl)
      have hready : Ready hash series { d with c := c' } := ⟨hd.once, hd.pairs, hlen.trans hd.length⟩
      rw [hmark]
      dsimp only
      split_ifs with hc
      · refine ⟨Or.inr ⟨rfl, b, rfl, ?_⟩, hready⟩
        obtain ⟨q, hq, j, st, hj, -, ha, hb⟩ := hcheck.mp hc
        obtain ⟨hba, -, hh⟩ := pairsOf_sound hash series q (hd.pairs ▸ hq)
        obtain ⟨x, hx, hxa⟩ := List.mem_map.mp ha
        obtain ⟨y, hy, hyb⟩ := List.mem_map.mp hb
        exact ⟨st, List.getElem?_mem hj, x, hx, y, hy, fun h => by subst h; omega,
          by rw [hxa, hyb]; exact hh⟩
      · exact ⟨Or.inl rfl, hready⟩

theorem run_of_ready : ∀ (d : DuplicateLabelCheck) (inputs : List (Except Err (Option (Batch H)))),
    Ready hash series d → (∀ input ∈ inputs, InRange series input) →
      List.Forall₂ (Outcome hash series) inputs (d.run hash (.ok series) inputs)
  | _, [], _, _ => List.Forall₂.nil
  | d, input :: rest, hd, hin => by
    obtain ⟨h₁, h₂⟩ := next_of_ready hash series hd (hin input (List.mem_cons_self _ _))
    exact List.Forall₂.cons h₁ (run_of_ready _ rest h₂ fun i hi => hin i (List.mem_cons_of_mem _ hi))

theorem run_new (inputs : List (Except Err (Option (Batch H)))) :
    new.run hash (.ok series) inputs = (ready hash series).run hash (.ok series) inputs := by
  cases inputs <;> rfl

/-- **Every call of a run returns the child's result, or the duplicate error
on a batch with two series of one hash in one step**: bits left by earlier
calls or other steps never fail a call. -/
theorem run_duplicate_only_if (inputs : List (Except Err (Option (Batch H))))
    (hin : ∀ input ∈ inputs, InRange series input) :
    List.Forall₂ (Outcome hash series) inputs (new.run hash (.ok series) inputs) := by
  rw [run_new]
  exact run_of_ready hash series _ inputs (ready_ready hash series) hin

end Run

/-- Two jobs of one hash, each in a step of its own call. -/
theorem run_duplicate_only_if_two_jobs :
    let series : List Labels := [[⟨"job", "x"⟩], [⟨"job", "y"⟩]]
    let inputs : List (Except Err (Option (Batch Unit))) :=
      [.ok (some [⟨0, [(0, 1)], []⟩]), .ok (some [⟨0, [(1, 2)], []⟩])]
    lengthHash [⟨"job", "x"⟩] = lengthHash [⟨"job", "y"⟩] ∧
      List.Forall₂ (Outcome lengthHash series) inputs (new.run lengthHash (.ok series) inputs) := by
  intro series inputs
  exact ⟨rfl, run_duplicate_only_if lengthHash series inputs
    (by simp [inputs, InRange, series, StepVector.sampleIDs, or_imp, forall_and])⟩

/-- Only pairs with the first series of a hash are recorded, and `2 << 63`
is `0`: for every `Hash()`, three equal series with samples of the second and
third in one step pass, and so do two equal series in step 63 of a batch. -/
theorem next_misses_duplicates (hash : Labels → UInt64) (l : Labels) :
    (new.next hash .background (.ok [l, l, l])
        (.ok (some [⟨0, [(1, 0), (2, 0)], []⟩] : Option (Batch Unit)))).1 =
      .ok (some [⟨0, [(1, 0), (2, 0)], []⟩]) ∧
    (new.next hash .background (.ok [l, l])
        (.ok (some (List.replicate 63 ⟨0, [], []⟩ ++ [⟨0, [(0, 0), (1, 0)], []⟩]) : Option (Batch Unit)))).1 =
      .ok (some (List.replicate 63 ⟨0, [], []⟩ ++ [⟨0, [(0, 0), (1, 0)], []⟩])) := by
  constructor <;>
  simp [next, init, new, pairsOf, collisionPairs, Context.background, markBatch, markIDs, resetPairs,
    checkPairs, StepVector.sampleIDs, stepBit] <;> rfl

end DuplicateLabelCheck

end PromqlEngine
