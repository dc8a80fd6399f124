import PromqlEngine.Binary.Run

/-!
# `PromqlEngine.Binary.Resolve` — the series a reference key names

The reference of `Binary/Reference.lean` keys a sample by the pair
`(hc+1, lc+1)`, `(hc+1, 0)` or `(0, lc+1)` that the source hands to
`outputSeriesID`.  `keyLabels` says which label set that pair stands for; this
module proves that `outputSeriesID` sends every pair the reference can emit to
an index of `series` holding exactly that label set, when the two sides have
fewer than `2^32` series together and no two output label sets collide on
`Hash()`.

**Proved here.**

    every stored entry is a pair under its pairing, with its labels  (`mem_outputEntries`)
    stored pairs resolve through outputMap and series                 (`series_outputSeriesID`)
    every key the reference emits is stored                           (`refStep_stored`)
-/

namespace PromqlEngine

namespace VectorOperator

/-- The label set of the output series a pair names: the low-card series for
`(0, lc+1)`, the high-card series for `(hc+1, 0)` and for the set operators,
and `resultMetric` of the two for the other operators. -/
def keyLabels (o : VectorOperator) (hcSide lcSide : List Labels) (key : UInt64 × UInt64) :
    Labels :=
  let hc := hcSide.getD (key.1.toNat - 1) []
  let lc := lcSide.getD (key.2.toNat - 1) []
  if key.1 = 0 then lc
  else if key.2 = 0 then hc
  else if o.opType.isSetOperator then hc
  else o.resultMetric hc lc

/-- `initJoinTables` stores the pair, under its pairing, with the label set
it names. -/
def Stored (o : VectorOperator) (hcSide lcSide : List Labels) (key : UInt64 × UInt64) : Prop :=
  (cantorPairing key.1 key.2, o.keyLabels hcSide lcSide key) ∈ outputEntries o hcSide lcSide

theorem uint64_toNat_succ {a : UInt64} (h : a.toNat + 1 < 2 ^ 64) : (a + 1).toNat = a.toNat + 1 := by
  rw [uint64_toNat_add]
  exact Nat.mod_eq_of_lt h

theorem uint64_ofNat_toNat (a : UInt64) : UInt64.ofNat a.toNat = a :=
  UInt64.toNat.inj (UInt64.toNat_ofNat_of_lt a.toNat_lt_size)

theorem uint64_ne_zero {a : UInt64} {n : Nat} (h : a.toNat = n + 1) : a ≠ 0 :=
  fun h' => by simp [h'] at h

theorem length_flatMap_le {α β : Type} {f : α → List β} {n : Nat} :
    ∀ {l : List α}, (∀ a ∈ l, (f a).length ≤ n) → (l.flatMap f).length ≤ l.length * n
  | [], _ => by simp
  | a :: l, h => by
    rw [List.flatMap_cons, List.length_append, List.length_cons, Nat.succ_mul]
    have := length_flatMap_le (l := l) fun b hb => h b (List.mem_cons_of_mem _ hb)
    have := h a (List.mem_cons_self _ _)
    omega

/-- The bound every lemma here shares: fewer than `2^32` series in all. -/
def Small (hcSide lcSide : List Labels) : Prop := hcSide.length + lcSide.length < 2 ^ 32

theorem lastWithSig_some {o : VectorOperator} {side : List Labels} {xs : List (UInt64 × Float)}
    {k lid : UInt64} (h : o.lastWithSig side xs k = some lid) :
    ∃ y ∈ xs, y.1 = lid ∧ o.sigOf side y.1 = k := by
  obtain ⟨y, hy, rfl⟩ := List.mem_map.mp (List.mem_of_getLast?_eq_some h)
  obtain ⟨hy, hk⟩ := List.mem_filter.mp hy
  exact ⟨y, hy, rfl, of_decide_eq_true hk⟩

theorem sigOf_eq (o : VectorOperator) {side : List Labels} {id : UInt64}
    (h : id.toNat < side.length) : o.sigOf side id = o.sigFunc (side.getD id.toNat []) := by
  simp [sigOf, List.getD_eq_getElem?_getD, h]

section Entries

variable {H : Type} (o : VectorOperator) {hcSide lcSide : List Labels}

theorem mem_matched (out : Labels → Labels → Labels) {i : Nat} {j : UInt64}
    (hi : i < hcSide.length) (hj : j.toNat < lcSide.length)
    (hsig : o.sigFunc (hcSide.getD i []) = o.sigFunc (lcSide.getD j.toNat [])) :
    (cantorPairing (UInt64.ofNat (i + 1)) (j + 1), out (hcSide.getD i []) (lcSide.getD j.toNat []))
      ∈ hcSide.enum.flatMap fun p =>
        (hashToSeriesIDs o.sigFunc lcSide (o.sigFunc p.2)).map fun lc =>
          (cantorPairing (UInt64.ofNat (p.1 + 1)) (lc + 1), out p.2 (lcSide.getD lc.toNat [])) := by
  have hgi : hcSide[i]? = some (hcSide.getD i []) := by simp [List.getD_eq_getElem?_getD, hi]
  have hgj : lcSide[j.toNat]? = some (lcSide.getD j.toNat []) := by
    simp [List.getD_eq_getElem?_getD, hj]
  refine List.mem_flatMap.mpr ⟨(i, hcSide.getD i []), List.mk_mem_enum_iff_getElem?.mpr hgi, ?_⟩
  refine List.mem_map.mpr ⟨j, ?_, rfl⟩
  refine List.mem_map.mpr ⟨(j.toNat, lcSide.getD j.toNat []), ?_, uint64_ofNat_toNat j⟩
  exact List.mem_filter.mpr ⟨List.mk_mem_enum_iff_getElem?.mpr hgj, decide_eq_true hsig.symm⟩

theorem mem_matched_iff (out : Labels → Labels → Labels) {e : UInt64 × Labels}
    (he : e ∈ hcSide.enum.flatMap fun p =>
        (hashToSeriesIDs o.sigFunc lcSide (o.sigFunc p.2)).map fun lc =>
          (cantorPairing (UInt64.ofNat (p.1 + 1)) (lc + 1), out p.2 (lcSide.getD lc.toNat []))) :
    ∃ i j, i < hcSide.length ∧ j < lcSide.length ∧
      e = (cantorPairing (UInt64.ofNat (i + 1)) (UInt64.ofNat j + 1),
        out (hcSide.getD i []) (lcSide.getD (UInt64.ofNat j).toNat [])) := by
  obtain ⟨⟨i, hc⟩, hp, he⟩ := List.mem_flatMap.mp he
  obtain ⟨_, hlc, rfl⟩ := List.mem_map.mp he
  obtain ⟨⟨j, lc⟩, hq, rfl⟩ := List.mem_map.mp hlc
  have hi := List.mk_mem_enum_iff_getElem?.mp hp
  have hj := List.mk_mem_enum_iff_getElem?.mp (List.mem_filter.mp hq).1
  refine ⟨i, j, (List.getElem?_eq_some_iff.mp hi).1, (List.getElem?_eq_some_iff.mp hj).1, ?_⟩
  simp [List.getD_eq_getElem?_getD, hi]

theorem enum_row {side : List Labels} {i : Nat} {l : Labels} (h : (i, l) ∈ side.enum) :
    i < side.length ∧ l = side.getD i [] := by
  have hi := List.mk_mem_enum_iff_getElem?.mp h
  exact ⟨(List.getElem?_eq_some_iff.mp hi).1, by simp [List.getD_eq_getElem?_getD, hi]⟩

variable (hsize : Small hcSide lcSide)

include hsize

omit o in
theorem toNat_ofNat_of_le {i : Nat} (hi : i ≤ hcSide.length + lcSide.length) :
    (UInt64.ofNat i).toNat = i :=
  UInt64.toNat_ofNat_of_lt (by unfold Small at hsize; unfold UInt64.size; omega)

omit o in
theorem toNat_ofNat_add_one {i : Nat} (hi : i < hcSide.length + lcSide.length) :
    (UInt64.ofNat i + 1).toNat = i + 1 := by
  have h₀ := toNat_ofNat_of_le hsize hi.le
  rw [uint64_toNat_succ (by rw [h₀]; unfold Small at hsize; omega), h₀]

theorem keyLabels_pair {i : Nat} {j : UInt64} (hi : i < hcSide.length) (hj : j.toNat < lcSide.length) :
    o.keyLabels hcSide lcSide (UInt64.ofNat (i + 1), j + 1) =
      if o.opType.isSetOperator then hcSide.getD i []
      else o.resultMetric (hcSide.getD i []) (lcSide.getD j.toNat []) := by
  have h₁ := toNat_ofNat_of_le hsize (i := i + 1) (by omega)
  have h₂ : (j + 1).toNat = j.toNat + 1 := by
    have := toNat_ofNat_add_one hsize (i := j.toNat) (by omega)
    rwa [uint64_ofNat_toNat] at this
  simp [keyLabels, h₁, h₂, uint64_ne_zero h₁, uint64_ne_zero h₂]

theorem keyLabels_hcRow {i : Nat} (hi : i < hcSide.length) :
    o.keyLabels hcSide lcSide (UInt64.ofNat (i + 1), 0) = hcSide.getD i [] := by
  have h₁ := toNat_ofNat_of_le hsize (i := i + 1) (by omega)
  simp [keyLabels, h₁, uint64_ne_zero h₁]

theorem keyLabels_lcRow {j : Nat} (hj : j < lcSide.length) :
    o.keyLabels hcSide lcSide (0, UInt64.ofNat (j + 1)) = lcSide.getD j [] := by
  have h₁ := toNat_ofNat_of_le hsize (i := j + 1) (by omega)
  simp [keyLabels, h₁]

theorem matched_key (out : Labels → Labels → Labels) {i j : Nat} (hi : i < hcSide.length)
    (hj : j < lcSide.length) (hout : out (hcSide.getD i []) (lcSide.getD j []) =
      if o.opType.isSetOperator then hcSide.getD i []
      else o.resultMetric (hcSide.getD i []) (lcSide.getD j [])) :
    ∃ key : UInt64 × UInt64, key.1.toNat ≤ hcSide.length ∧ key.2.toNat ≤ lcSide.length ∧
      (cantorPairing (UInt64.ofNat (i + 1)) (UInt64.ofNat j + 1),
        out (hcSide.getD i []) (lcSide.getD (UInt64.ofNat j).toNat [])) =
        (cantorPairing key.1 key.2, o.keyLabels hcSide lcSide key) := by
  have hj' := toNat_ofNat_of_le hsize (i := j) (by omega)
  refine ⟨(UInt64.ofNat (i + 1), UInt64.ofNat j + 1), ?_, ?_, ?_⟩
  · rw [toNat_ofNat_of_le hsize (by omega)]; omega
  · rw [toNat_ofNat_add_one hsize (by omega)]; omega
  · rw [keyLabels_pair o hsize hi (by rwa [hj']), hj', hout]

/-- **Every stored entry is a pair under its pairing, with the label set the
pair names.** -/
theorem mem_outputEntries {e : UInt64 × Labels} (he : e ∈ outputEntries o hcSide lcSide) :
    ∃ key : UInt64 × UInt64, key.1.toNat ≤ hcSide.length ∧ key.2.toNat ≤ lcSide.length ∧
      e = (cantorPairing key.1 key.2, o.keyLabels hcSide lcSide key) := by
  have hcRow : ∀ {i : Nat} {l : Labels}, (i, l) ∈ hcSide.enum → ∃ key : UInt64 × UInt64,
      key.1.toNat ≤ hcSide.length ∧ key.2.toNat ≤ lcSide.length ∧
        (cantorPairing (UInt64.ofNat (i + 1)) 0, l) = (cantorPairing key.1 key.2, o.keyLabels hcSide lcSide key) :=
    fun {i _} hp => by
      obtain ⟨hi, rfl⟩ := enum_row hp
      refine ⟨(UInt64.ofNat (i + 1), 0), ?_, by simp, by rw [keyLabels_hcRow o hsize hi]⟩
      rw [toNat_ofNat_of_le hsize (by omega)]; omega
  unfold outputEntries at he
  split at he <;> dsimp only at he
  case h_1 hop =>
    obtain ⟨i, j, hi, hj, rfl⟩ := mem_matched_iff o (fun hc _ => hc) he
    refine matched_key o hsize (fun hc _ => hc) hi hj ?_
    simp [hop, ItemType.isSetOperator]
  case h_2 =>
    rcases List.mem_append.mp he with he | he <;> obtain ⟨⟨i, l⟩, hp, rfl⟩ := List.mem_map.mp he
    · exact hcRow hp
    · obtain ⟨hi, rfl⟩ := enum_row hp
      refine ⟨(0, UInt64.ofNat (i + 1)), by simp, ?_, by rw [keyLabels_lcRow o hsize hi]⟩
      rw [toNat_ofNat_of_le hsize (by omega)]; omega
  case h_3 =>
    obtain ⟨⟨i, l⟩, hp, rfl⟩ := List.mem_map.mp he
    exact hcRow hp
  case h_4 hland hor hunless =>
    obtain ⟨i, j, hi, hj, rfl⟩ := mem_matched_iff o o.resultMetric he
    refine matched_key o hsize o.resultMetric hi hj ?_
    rw [ItemType.isSetOperator_eq_false hland hor hunless, if_neg Bool.false_ne_true]

theorem outputEntries_key_labels {e₁ e₂ : UInt64 × Labels} (h₁ : e₁ ∈ outputEntries o hcSide lcSide)
    (h₂ : e₂ ∈ outputEntries o hcSide lcSide) (hk : e₁.1 = e₂.1) : e₁.2 = e₂.2 := by
  obtain ⟨k₁, a₁, b₁, rfl⟩ := mem_outputEntries o hsize h₁
  obtain ⟨k₂, a₂, b₂, rfl⟩ := mem_outputEntries o hsize h₂
  unfold Small at hsize
  obtain ⟨ha, hb⟩ := cantorPairing_inj (by omega) (by omega) hk
  rw [Prod.ext ha hb]

theorem length_outputEntries_lt : (outputEntries o hcSide lcSide).length < 2 ^ 64 := by
  have hm : ∀ (f : Nat × Labels → UInt64 → UInt64 × Labels),
      (hcSide.enum.flatMap fun p => (hashToSeriesIDs o.sigFunc lcSide (o.sigFunc p.2)).map (f p)).length
        ≤ hcSide.length * lcSide.length := fun f => by
    refine (length_flatMap_le fun p _ => ?_).trans (by rw [List.enum_length])
    simpa [hashToSeriesIDs] using List.length_filter_le _ lcSide.enum
  have hprod : hcSide.length * lcSide.length < 2 ^ 64 :=
    calc _ < 2 ^ 32 * 2 ^ 32 := by
          unfold Small at hsize
          exact Nat.mul_lt_mul_of_lt_of_le (by omega) (by omega) (by norm_num)
      _ = 2 ^ 64 := by norm_num
  unfold Small at hsize
  unfold outputEntries
  split <;> dsimp only
  · exact (hm _).trans_lt hprod
  · simp; omega
  · simp; omega
  · exact (hm _).trans_lt hprod

/-- **Stored pairs resolve**: `outputSeriesID` of a stored pair is an index
of `series` that holds the label set the pair names, when no two stored label
sets collide on `hash`. -/
theorem series_outputSeriesID (hash : Labels → UInt64)
    (hhash : ∀ e₁ ∈ outputEntries o hcSide lcSide, ∀ e₂ ∈ outputEntries o hcSide lcSide,
      hash e₁.2 = hash e₂.2 → e₁.2 = e₂.2)
    {key : UInt64 × UInt64} (hkey : o.Stored hcSide lcSide key) :
    (o.initJoinTables hash hcSide lcSide).series[
        ((o.initJoinTables hash hcSide lcSide).outputSeriesID key.1 key.2).toNat]? =
      some (o.keyLabels hcSide lcSide key) :=
  storeEntries_resolves hash _ _ _ (JoinHelper.valid_empty hash)
    (fun _ h => absurd h (List.not_mem_nil _)) hhash
    (fun _ h₁ _ h₂ => outputEntries_key_labels o hsize h₁ h₂)
    (by simpa [JoinHelper.empty] using length_outputEntries_lt o hsize)
    (cantorPairing key.1 key.2, o.keyLabels hcSide lcSide key) hkey


/-! ## The keys of the reference are stored -/

theorem ofNat_toNat_add_one {x : UInt64} (hx : x.toNat < hcSide.length + lcSide.length) :
    x + 1 = UInt64.ofNat (x.toNat + 1) := by
  apply UInt64.toNat.inj
  rw [toNat_ofNat_of_le hsize (by omega), ← toNat_ofNat_add_one hsize hx, uint64_ofNat_toNat]

omit hsize in
theorem outputEntries_of_not_set (hop : o.opType.isSetOperator = false) :
    outputEntries o hcSide lcSide = hcSide.enum.flatMap fun p =>
      (hashToSeriesIDs o.sigFunc lcSide (o.sigFunc p.2)).map fun lc =>
        (cantorPairing (UInt64.ofNat (p.1 + 1)) (lc + 1), o.resultMetric p.2 (lcSide.getD lc.toNat [])) := by
  unfold outputEntries
  split <;> simp_all [ItemType.isSetOperator]

omit hsize in
theorem getD_mem {side : List Labels} {i : Nat} (h : i < side.length) : side.getD i [] ∈ side := by
  simp [List.getD_eq_getElem?_getD, h]

omit hsize in
theorem outputEntries_mem_sides (hop : o.opType.isSetOperator = true) {e : UInt64 × Labels}
    (he : e ∈ outputEntries o hcSide lcSide) : e.2 ∈ hcSide ∨ e.2 ∈ lcSide := by
  unfold outputEntries at he
  split at he <;> dsimp only at he
  · obtain ⟨i, j, hi, _, rfl⟩ := mem_matched_iff o (fun hc _ => hc) he
    exact .inl (getD_mem hi)
  · rcases List.mem_append.mp he with he | he <;> obtain ⟨p, hp, rfl⟩ := List.mem_map.mp he
    · exact .inl (List.snd_mem_of_mem_enum hp)
    · exact .inr (List.snd_mem_of_mem_enum hp)
  · obtain ⟨p, hp, rfl⟩ := List.mem_map.mp he
    exact .inl (List.snd_mem_of_mem_enum hp)
  · simp_all [ItemType.isSetOperator]

theorem stored_pair (hop : o.opType = .land ∨ o.opType.isSetOperator = false) {x y : UInt64}
    (hx : x.toNat < hcSide.length) (hy : y.toNat < lcSide.length)
    (hsig : o.sigOf hcSide x = o.sigOf lcSide y) : o.Stored hcSide lcSide (x + 1, y + 1) := by
  rw [sigOf_eq o hx, sigOf_eq o hy] at hsig
  rw [Stored, ofNat_toNat_add_one hsize (by omega), keyLabels_pair o hsize hx hy]
  rcases hop with hop | hop
  · simp only [outputEntries, hop, ItemType.isSetOperator, if_true]
    exact mem_matched o (fun hc _ => hc) hx hy hsig
  · rw [outputEntries_of_not_set o hop, hop, if_neg Bool.false_ne_true]
    exact mem_matched o o.resultMetric hx hy hsig


theorem stored_hcRow (hop : o.opType = .lor ∨ o.opType = .lunless) {x : UInt64}
    (hx : x.toNat < hcSide.length) : o.Stored hcSide lcSide (x + 1, 0) := by
  rw [Stored, ofNat_toNat_add_one hsize (by omega), keyLabels_hcRow o hsize hx]
  have hmem : (cantorPairing (UInt64.ofNat (x.toNat + 1)) 0, hcSide.getD x.toNat []) ∈
      hcSide.enum.map fun p => (cantorPairing (UInt64.ofNat (p.1 + 1)) 0, p.2) :=
    List.mem_map.mpr ⟨(x.toNat, hcSide.getD x.toNat []),
      List.mk_mem_enum_iff_getElem?.mpr (by simp [List.getD_eq_getElem?_getD, hx]), rfl⟩
  rcases hop with hop | hop <;> simp only [outputEntries, hop]
  · exact List.mem_append_left _ hmem
  · exact hmem

theorem stored_lcRow (hop : o.opType = .lor) {y : UInt64} (hy : y.toNat < lcSide.length) :
    o.Stored hcSide lcSide (0, y + 1) := by
  rw [Stored, ofNat_toNat_add_one hsize (by omega), keyLabels_lcRow o hsize hy]
  have hmem : (cantorPairing 0 (UInt64.ofNat (y.toNat + 1)), lcSide.getD y.toNat []) ∈
      lcSide.enum.map fun p => (cantorPairing 0 (UInt64.ofNat (p.1 + 1)), p.2) :=
    List.mem_map.mpr ⟨(y.toNat, lcSide.getD y.toNat []),
      List.mk_mem_enum_iff_getElem?.mpr (by simp [List.getD_eq_getElem?_getD, hy]), rfl⟩
  simp only [outputEntries, hop]
  exact List.mem_append_right _ hmem

theorem refJoin_stored (hops : HistogramOps H) (hop : o.opType.isSetOperator = false)
    {lcs : List (UInt64 × Float)} (hlcs : ∀ y ∈ lcs, y.1.toNat < lcSide.length) :
    ∀ (xs : List (UInt64 × Float)) (matched : List UInt64) (out : List ((UInt64 × UInt64) × Float)),
      (∀ x ∈ xs, x.1.toNat < hcSide.length) → o.refJoin hops hcSide lcSide lcs xs matched = .ok out →
      ∀ e ∈ out, o.Stored hcSide lcSide e.1
  | [], _, out, _, h, e, he => by cases h; cases he
  | x :: xs, matched, out, hx, h, e, he => by
    have hx' := fun x' h' => hx x' (List.mem_cons_of_mem _ h')
    simp only [refJoin] at h
    split at h
    case h_1 => exact refJoin_stored hops hop hlcs xs matched out hx' h e he
    case h_2 y hy =>
      by_cases hm : o.sigOf hcSide x.1 ∈ matched ∧ o.matching.card = .oneToOne
      · rw [if_pos hm] at h; cases h
      rw [if_neg hm] at h
      split at h
      · cases h
      next f _ keep _ _ =>
        cases hrest : o.refJoin hops hcSide lcSide lcs xs (o.sigOf hcSide x.1 :: matched) with
        | error _ => simp [hrest, Except.map] at h
        | ok rest =>
          have ih := refJoin_stored hops hop hlcs xs _ rest hx' hrest
          have hpair := stored_pair o hsize (.inr hop) (hx x (List.mem_cons_self _ _))
            (hlcs y (List.mem_of_find?_eq_some hy)) (by simpa [eq_comm] using List.find?_some hy)
          simp only [hrest, Except.map, Except.ok.injEq] at h
          subst h
          split_ifs at he <;> first
            | exact ih e he
            | rcases List.mem_cons.mp he with rfl | he
              exacts [hpair, ih e he]

omit hsize in
theorem sides_of_ne {lser rser : List Labels} (hsides : o.sides lser rser = (hcSide, lcSide))
    (h : o.matching.card ≠ .oneToMany) : hcSide = lser ∧ lcSide = rser := by
  simpa [sides, h] using hsides.symm

theorem refArithmetic_stored (hops : HistogramOps H) {lser rser : List Labels}
    (hsides : o.sides lser rser = (hcSide, lcSide)) (hop : o.opType.isSetOperator = false)
    {l r : StepVector UInt64 H} (hl : l.Fits lser) (hr : r.Fits rser)
    {st : StepVector (UInt64 × UInt64) H} (h : o.refArithmetic hops hcSide lcSide l r = .ok st) :
    (∀ x ∈ st.samples, o.Stored hcSide lcSide x.1) ∧ st.histograms = [] := by
  unfold refArithmetic at h
  dsimp only at h
  split_ifs at h
  · cases h; exact ⟨by simp [StepVector.empty], rfl⟩
  obtain ⟨hfh, hfl⟩ := refSides_fits o hsides hl hr
  split at h
  · cases h
  cases hj : o.refJoin hops hcSide lcSide (o.refSides l r).2.samples (o.refSides l r).1.samples [] <;>
    simp only [hj, Except.map, reduceCtorEq, Except.ok.injEq] at h
  subst h
  exact ⟨refJoin_stored o hsize hops hop hfl.2 _ _ _ hfh.2 hj, rfl⟩

/-- **Every key a reference step emits is stored**, and a reference step
has no histogram. -/
theorem refStep_stored (hops : HistogramOps H) {lser rser : List Labels}
    (hsides : o.sides lser rser = (hcSide, lcSide))
    (hset : o.opType.isSetOperator = true → o.matching.card ≠ .oneToMany)
    {l r : StepVector UInt64 H} (hl : l.Fits lser) (hr : r.Fits rser)
    {st : StepVector (UInt64 × UInt64) H} (h : o.refStep hops lser rser l r = .ok st) :
    (∀ x ∈ st.samples, o.Stored hcSide lcSide x.1) ∧ st.histograms = [] := by
  unfold refStep at h
  rw [← sides_eq_refSides, hsides] at h
  dsimp only at h
  split at h
  case h_1 hop =>
    obtain ⟨rfl, rfl⟩ := sides_of_ne o hsides (hset (by simp [hop, ItemType.isSetOperator]))
    cases h
    refine ⟨fun x hx => ?_, rfl⟩
    obtain ⟨x₀, hx₀, hx⟩ := List.mem_filterMap.mp hx
    obtain ⟨lid, hlid, rfl⟩ := Option.map_eq_some'.mp hx
    obtain ⟨y, hy, rfl, hsig⟩ := lastWithSig_some hlid
    exact stored_pair o hsize (.inl hop) (hl.2 x₀ hx₀) (hr.2 y hy) hsig.symm
  case h_2 hop =>
    obtain ⟨rfl, rfl⟩ := sides_of_ne o hsides (hset (by simp [hop, ItemType.isSetOperator]))
    cases h
    refine ⟨fun x hx => ?_, rfl⟩
    rcases List.mem_append.mp hx with hx | hx
    · obtain ⟨x₀, hx₀, rfl⟩ := List.mem_map.mp hx
      exact stored_hcRow o hsize (.inl hop) (hl.2 x₀ hx₀)
    · obtain ⟨y, hy, rfl⟩ := List.mem_map.mp hx
      exact stored_lcRow o hsize hop (hr.2 y (List.mem_filter.mp hy).1)
  case h_3 hop =>
    obtain ⟨rfl, rfl⟩ := sides_of_ne o hsides (hset (by simp [hop, ItemType.isSetOperator]))
    cases h
    refine ⟨fun x hx => ?_, rfl⟩
    obtain ⟨x₀, hx₀, rfl⟩ := List.mem_map.mp hx
    exact stored_hcRow o hsize (.inr hop) (hl.2 x₀ (List.mem_filter.mp hx₀).1)
  case h_4 hland hor hunless =>
    exact refArithmetic_stored o hsize hops hsides (ItemType.isSetOperator_eq_false hland hor hunless)
      hl hr h

end Entries


/-! ## Runs, read back through `Series()` -/

section Runs

variable {H : Type} (hash : Labels → UInt64) (hops : HistogramOps H) (o : VectorOperator)
  {lser rser : List Labels}

theorem refBatch_mem :
    ∀ (ls rs : Batch H) (steps : List (StepVector (UInt64 × UInt64) H)),
      o.refBatch hops lser rser ls rs = .ok steps →
      ∀ st ∈ steps, ∃ l ∈ ls, ∃ r ∈ rs, o.refStep hops lser rser l r = .ok st
  | l :: ls, r :: rs, steps, h, st, hst => by
    simp only [refBatch] at h
    cases h₁ : o.refStep hops lser rser l r <;> cases h₂ : refBatch hops o lser rser ls rs <;>
      simp only [h₁, h₂, bind, Except.bind, pure, Except.pure, reduceCtorEq, Except.ok.injEq] at h
    subst h
    rcases List.mem_cons.mp hst with rfl | hst
    · exact ⟨l, List.mem_cons_self _ _, r, List.mem_cons_self _ _, h₁⟩
    · obtain ⟨l', hl', r', hr', h'⟩ := refBatch_mem ls rs _ h₂ st hst
      exact ⟨l', List.mem_cons_of_mem _ hl', r', List.mem_cons_of_mem _ hr', h'⟩
  | [], _, _, h, _, hst => by cases h; cases hst
  | _ :: _, [], _, h, _, hst => by cases h; cases hst

theorem refNext_mem {p : Pull H} {steps : List (StepVector (UInt64 × UInt64) H)}
    (h : o.refNext hops lser rser p = .ok steps) {st : StepVector (UInt64 × UInt64) H}
    (hst : st ∈ steps) : ∃ lb rb, p.lhs = .ok lb ∧ p.rhs = .ok rb ∧
      ∃ l ∈ lb, ∃ r ∈ rb, o.refStep hops lser rser l r = .ok st := by
  obtain ⟨lhs, rhs⟩ := p
  unfold refNext at h
  cases rhs <;> cases lhs <;> simp only [reduceCtorEq] at h
  next rb lb =>
    split_ifs at h
    · cases h; cases hst
    · exact ⟨lb, rb, rfl, rfl, refBatch_mem hops o lb rb steps h st hst⟩

theorem ready_eq {hcSide lcSide : List Labels} (hsides : o.sides lser rser = (hcSide, lcSide)) :
    o.ready hash lser rser =
      initJoinTables hash { o with once := true, lhsSampleIDs := lser, rhsSampleIDs := rser }
        hcSide lcSide := by
  unfold ready
  dsimp only
  rw [show ({ o with once := true, lhsSampleIDs := lser, rhsSampleIDs := rser } : VectorOperator).sides
    lser rser = (hcSide, lcSide) from hsides]

/-- **A run of a freshly built operator, read back through `Series()`, is the
reference read back through `keyLabels`**: call by call, the same errors, and
steps with the same timestamps and values in the same order, each sample at an
index of `Series()` holding the label set its key names. -/
theorem run_resolves {hcSide lcSide : List Labels} (h : o.once = false)
    (hset : o.opType.isSetOperator = true → o.matching.card ≠ .oneToMany)
    (hsides : o.sides lser rser = (hcSide, lcSide)) (hsize : Small hcSide lcSide)
    (hhash : ∀ e₁ ∈ outputEntries o hcSide lcSide, ∀ e₂ ∈ outputEntries o hcSide lcSide,
      hash e₁.2 = hash e₂.2 → e₁.2 = e₂.2)
    (pulls : List (Pull H)) (s : Store H) (hf : ∀ p ∈ pulls, p.Fits lser rser)
    (ht : GoodTimes (pulls.flatMap Pull.times)) :
    (o.run hops hash (.ok lser) (.ok rser) pulls s).map
        (Except.map (List.map (StepVector.mapIds fun id => (o.ready hash lser rser).series[id.toNat]?))) =
      pulls.map fun p => ((o.ready hash lser rser).refNext hops lser rser p).map
        (List.map (StepVector.mapIds fun key => some (o.keyLabels hcSide lcSide key))) := by
  rw [run_eq_refNext hash o lser rser hops h hset pulls s hf ht, List.map_map]
  refine List.map_congr_left fun p hp => ?_
  rw [Function.comp_apply]
  cases hn : (o.ready hash lser rser).refNext hops lser rser p with
  | error e => rfl
  | ok steps =>
    simp only [Except.map, List.map_map, Except.ok.injEq]
    refine List.map_congr_left fun st hst => ?_
    obtain ⟨lb, rb, hlb, hrb, l, hl, r, hr, hstep⟩ := refNext_mem hops _ hn hst
    obtain ⟨hkeys, hhist⟩ := refStep_stored (o.ready hash lser rser) hsize hops
      (by rw [sides_ready, hsides]) hset ((hf p hp).1 lb hlb l hl) ((hf p hp).2 rb hrb r hr) hstep
    rw [Function.comp, StepVector.mapIds_mapIds]
    refine StepVector.mapIds_congr (fun x hx => ?_) (by simp [hhist])
    rw [Function.comp, ready_eq hash o hsides]
    exact series_outputSeriesID _ hsize hash hhash (hkeys x hx)

end Runs

end VectorOperator

end PromqlEngine
