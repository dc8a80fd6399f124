import PromqlEngine.Binary.Resolve

/-!
# `PromqlEngine.Binary.Keys` — `outputMap`, keyed by the pair

`initJoinTables` stores each output series index under the `uint64` key
`cantorPairing(hc, lc)` of its pair `(hc+1, lc+1)`, `(hc+1, 0)` or
`(0, lc+1)`, and `outputSeriesID(hc, lc)` loads the key of the pair it is
asked for.  The pairing is computed in wrapping `uint64` arithmetic, so it
is a faithful stand-in for the pair only where it neither wraps nor collides.

This module says what the key stands for.  `outputPairs` lists the pairs
`initJoinTables` stores, in its order, and `storePairs` is the store loop
keyed by the pair itself: the table `outputMap` is meant to be.  When the two
sides have at most `2^32 - 1` series together, every stored pair and every
pair `outputSeriesID` can be asked for lies in the range where the pairing is
injective.  There `outputSeriesID` returns what the pair-keyed table holds for
exactly the requested pair.

**Proved here.**

    the entries of `initJoinTables` are its pairs under the pairing   (`outputEntries_eq_map`)
    every stored pair lies in the range of the sides                 (`outputPairs_range`)
    on a range where the pairing is injective, the store loop keyed
    by the pairing is the loop keyed by the pair                     (`storeEntries_pairs`)
    the pairing is injective below `2^32`, stored pairs get distinct
    keys, and `outputSeriesID` reads the pair-keyed table            (`outputSeriesID_pair`)
-/

namespace PromqlEngine

/-- The pairs the `switch o.opType` of `initJoinTables` stores, each with its
label set, in its order: `outputEntries` before the pairing. -/
def outputPairs (o : VectorOperator) (highCardSide lowCardSide : List Labels) :
    List ((UInt64 × UInt64) × Labels) :=
  let matched (out : Labels → Labels → Labels) :=
    highCardSide.enum.flatMap fun p =>
      (hashToSeriesIDs o.sigFunc lowCardSide (o.sigFunc p.2)).map fun lc =>
        ((UInt64.ofNat (p.1 + 1), lc + 1), out p.2 (lowCardSide.getD lc.toNat []))
  let hcRows := highCardSide.enum.map fun p => ((UInt64.ofNat (p.1 + 1), (0 : UInt64)), p.2)
  let lcRows := lowCardSide.enum.map fun p => (((0 : UInt64), UInt64.ofNat (p.1 + 1)), p.2)
  match o.opType with
  | .land => matched fun hc _ => hc
  | .lor => hcRows ++ lcRows
  | .lunless => hcRows
  | _ => matched o.resultMetric

/-- The store loop with the pair itself as the key. -/
def storePairs (hash : Labels → UInt64) :
    List ((UInt64 × UInt64) × Labels) → JoinHelper → (UInt64 × UInt64 → Option UInt64) →
      JoinHelper × (UInt64 × UInt64 → Option UInt64)
  | [], h, m => (h, m)
  | (p, ls) :: rest, h, m =>
    storePairs hash rest (h.append hash ls).2
      (Function.update m p (some (UInt64.ofNat (h.append hash ls).1)))

/-- The key a pair is stored under. -/
def pairKey (e : (UInt64 × UInt64) × Labels) : UInt64 × Labels :=
  (cantorPairing e.1.1 e.1.2, e.2)

theorem outputEntries_eq_map (o : VectorOperator) (hcSide lcSide : List Labels) :
    outputEntries o hcSide lcSide = (outputPairs o hcSide lcSide).map pairKey := by
  unfold outputEntries outputPairs
  cases o.opType <;> simp only [List.map_flatMap, List.map_map, List.map_append, pairKey, Function.comp_def]

theorem mem_hashToSeriesIDs {f : Labels → UInt64} {side : List Labels} {sig lc : UInt64}
    (h : lc ∈ hashToSeriesIDs f side sig) : ∃ j < side.length, lc = UInt64.ofNat j := by
  obtain ⟨⟨j, l⟩, hj, rfl⟩ := List.mem_map.mp h
  exact ⟨j, (VectorOperator.enum_row (List.mem_filter.mp hj).1).1, rfl⟩

/-! ## The stored pairs are in range -/

namespace VectorOperator

section Range

variable (o : VectorOperator) {hcSide lcSide : List Labels} (hsize : Small hcSide lcSide)

include hsize

/-- A pair whose components are at most the sides' lengths. -/
def InRange (hcSide lcSide : List Labels) (p : UInt64 × UInt64) : Prop :=
  p.1.toNat ≤ hcSide.length ∧ p.2.toNat ≤ lcSide.length

omit o in
theorem inRange_row {side : List Labels} {i : Nat} {l : Labels} (hside : side.length ≤ hcSide.length + lcSide.length)
    (h : (i, l) ∈ side.enum) : (UInt64.ofNat (i + 1)).toNat ≤ side.length := by
  have hi := (enum_row h).1
  rw [toNat_ofNat_of_le hsize (by omega)]
  omega

theorem outputPairs_range {e : (UInt64 × UInt64) × Labels} (he : e ∈ outputPairs o hcSide lcSide) :
    InRange hcSide lcSide e.1 := by
  have hmatched : ∀ (out : Labels → Labels → Labels), e ∈ hcSide.enum.flatMap (fun p =>
      (hashToSeriesIDs o.sigFunc lcSide (o.sigFunc p.2)).map fun lc =>
        ((UInt64.ofNat (p.1 + 1), lc + 1), out p.2 (lcSide.getD lc.toNat []))) →
      InRange hcSide lcSide e.1 := fun out he => by
    obtain ⟨⟨i, l⟩, hp, he⟩ := List.mem_flatMap.mp he
    obtain ⟨lc, hlc, rfl⟩ := List.mem_map.mp he
    obtain ⟨j, hj, rfl⟩ := mem_hashToSeriesIDs hlc
    refine ⟨inRange_row hsize (by omega) hp, ?_⟩
    rw [toNat_ofNat_add_one hsize (by omega)]
    omega
  have hcRow : e ∈ hcSide.enum.map (fun p => ((UInt64.ofNat (p.1 + 1), (0 : UInt64)), p.2)) →
      InRange hcSide lcSide e.1 := fun he => by
    obtain ⟨⟨i, l⟩, hp, rfl⟩ := List.mem_map.mp he
    exact ⟨inRange_row hsize (by omega) hp, by simp⟩
  unfold outputPairs at he
  split at he <;> dsimp only at he
  case h_1 => exact hmatched (fun hc _ => hc) he
  case h_2 =>
    rcases List.mem_append.mp he with he | he
    · exact hcRow he
    · obtain ⟨⟨i, l⟩, hp, rfl⟩ := List.mem_map.mp he
      exact ⟨by simp, inRange_row hsize (by omega) hp⟩
  case h_3 => exact hcRow he
  case h_4 => exact hmatched o.resultMetric he

omit o in
theorem pair_eq_of_cantorPairing_eq {p q : UInt64 × UInt64} (hp : InRange hcSide lcSide p)
    (hq : InRange hcSide lcSide q) (h : cantorPairing p.1 p.2 = cantorPairing q.1 q.2) : p = q := by
  unfold Small at hsize
  obtain ⟨h₁, h₂⟩ := cantorPairing_inj (by unfold InRange at hp; omega) (by unfold InRange at hq; omega) h
  exact Prod.ext h₁ h₂

/-- The bound is on the sum of the pair, not on its wrapped `uint64` sum:
`(2^64 - 1) + 1` wraps to `0`, and the pair shares its key with `(1, 0)`. -/
example : cantorPairing 18446744073709551615 1 = cantorPairing 1 0 := by decide

end Range

/-! ## The store loop, keyed by the pair -/

section Store

variable (hash : Labels → UInt64) {R : UInt64 × UInt64 → Prop}

/-- **Keyed by the pairing, the store loop holds under the key of each pair
what the loop keyed by the pair holds for it**, on any set of pairs where
the pairing is injective and that holds every stored pair. -/
theorem storeEntries_pairs
    (hinj : ∀ p q, R p → R q → cantorPairing p.1 p.2 = cantorPairing q.1 q.2 → p = q) :
    ∀ (ps : List ((UInt64 × UInt64) × Labels)) (h : JoinHelper) (m : UInt64 → Option UInt64)
      (m' : UInt64 × UInt64 → Option UInt64),
      (∀ e ∈ ps, R e.1) → (∀ p, R p → m (cantorPairing p.1 p.2) = m' p) →
      ∀ p, R p → (storeEntries hash (ps.map pairKey) h m).2 (cantorPairing p.1 p.2) =
        (storePairs hash ps h m').2 p
  | [], _, _, _, _, hm => hm
  | (q, ls) :: ps, h, m, m', hR, hm => by
    refine storeEntries_pairs hinj ps _ _ _ (fun e he => hR e (List.mem_cons_of_mem _ he))
      fun p hp => ?_
    have hq := hR (q, ls) (List.mem_cons_self _ _)
    by_cases hpq : p = q
    · subst hpq
      simp only [Function.update_same]
    · rw [Function.update_noteq hpq, Function.update_noteq fun h => hpq (hinj p q hp hq h), hm p hp]

end Store

/-- **The keys of `outputMap`.**  Below `2^32` the wrapping `uint64` pairing
is injective.  So when the sides have at most `2^32 - 1` series together,
`initJoinTables` stores the pairs of `outputPairs` under their pairings, and
distinct pairs get distinct keys.  `outputSeriesID` of any pair in range is
what the table keyed by the pair holds for exactly that pair: the index
stored for it, or `0` if none was. -/
theorem outputSeriesID_pair :
    (∀ a b c d : UInt64, a.toNat + b.toNat ≤ 2 ^ 32 - 1 → c.toNat + d.toNat ≤ 2 ^ 32 - 1 →
      cantorPairing a b = cantorPairing c d → (a, b) = (c, d)) ∧
    ∀ (hash : Labels → UInt64) (o : VectorOperator) (hcSide lcSide : List Labels),
      hcSide.length + lcSide.length ≤ 2 ^ 32 - 1 →
      outputEntries o hcSide lcSide = (outputPairs o hcSide lcSide).map pairKey ∧
      (∀ e₁ ∈ outputPairs o hcSide lcSide, ∀ e₂ ∈ outputPairs o hcSide lcSide,
        e₁.1 ≠ e₂.1 → cantorPairing e₁.1.1 e₁.1.2 ≠ cantorPairing e₂.1.1 e₂.1.2) ∧
      ∀ hc lc : UInt64, hc.toNat ≤ hcSide.length → lc.toNat ≤ lcSide.length →
        (o.initJoinTables hash hcSide lcSide).outputSeriesID hc lc =
          ((storePairs hash (outputPairs o hcSide lcSide) JoinHelper.empty fun _ => none).2
            (hc, lc)).getD 0 := by
  refine ⟨fun a b c d h₁ h₂ h => ?_, fun hash o hcSide lcSide hlen => ?_⟩
  · obtain ⟨hac, hbd⟩ := cantorPairing_inj (by omega) (by omega) h
    rw [hac, hbd]
  have hsize : Small hcSide lcSide := by unfold Small; omega
  refine ⟨outputEntries_eq_map o hcSide lcSide, fun e₁ h₁ e₂ h₂ hne h => ?_, fun hc lc hhc hlc => ?_⟩
  · exact hne (pair_eq_of_cantorPairing_eq hsize (outputPairs_range o hsize h₁)
      (outputPairs_range o hsize h₂) h)
  · unfold initJoinTables outputSeriesID
    rw [outputEntries_eq_map]
    exact congrArg (Option.getD · 0) (storeEntries_pairs hash
      (fun p q hp hq => pair_eq_of_cantorPairing_eq hsize hp hq) _ _ _ _
      (fun e he => outputPairs_range o hsize he) (fun _ _ => rfl) (hc, lc) ⟨hhc, hlc⟩)

/-- `a or b` with one series on each side: `outputSeriesID(0, 1)`, the rhs
series, is what the pair-keyed table holds for `(0, 1)`. -/
theorem outputSeriesID_pair_or :
    let o : VectorOperator := newVectorOperator lengthHash ⟨.manyToMany, [], false, []⟩ .lor false
    let hcSide : List Labels := [[⟨"job", "x"⟩]]
    let lcSide : List Labels := [[⟨"job", "yy"⟩]]
    (o.initJoinTables lengthHash hcSide lcSide).outputSeriesID 0 1 =
      ((storePairs lengthHash (outputPairs o hcSide lcSide) JoinHelper.empty fun _ => none).2
        (0, 1)).getD 0 :=
  (outputSeriesID_pair.2 lengthHash _ _ _ (by decide)).2.2 0 1 (by decide) (by decide)

end VectorOperator

end PromqlEngine
