import Mathlib.Tactic.Ring
import PromqlEngine.Binary.ElemBinop

/-!
# `PromqlEngine.Binary.JoinTables` — what `initJoinTables` builds

`vectorOperator.init` reads both children's series once, swaps them for
one-to-many matching, and calls `initJoinTables(highCardSide, lowCardSide)`,
which builds

* the join buckets: one `joinBucket` per signature, shared by every series of
  either side with that signature.  A bucket is therefore named here by its
  signature, and `lcJoinBuckets` / `hcJoinBuckets` hold each series'
  signature where the source holds a pointer;
* the output series `series`, through `joinHelper.append`, which gives one
  index per label hash;
* `outputMap`, from `cantorPairing(hc+1, lc+1)` (or `(hc+1, 0)`, `(0, lc+1)`
  for `or` and `unless`) to the index of the output series.

`outputEntries` lists the `(key, label set)` pairs `initJoinTables` stores,
in its order; `storeEntries` is the store loop.  The main lemma,
`storeEntries_resolves`, says that when keys name their label sets and label
hashes do not collide, every stored key leads through `outputMap` to an index
whose series is that label set.  Whatever the hashes, that index is an index
of the series (`storeEntries_lt`).  `cantorPairing_inj` gives the keys: below
`2^32` the wrapping `uint64` pairing neither wraps nor collides.

`hcHashToSeriesIDs` is filled by the source but never read, so it is left out.
-/

namespace PromqlEngine

/-! ## The pairing -/

/-- `cantorPairing`, in the source's wrapping `uint64` arithmetic. -/
def cantorPairing (hc lc : UInt64) : UInt64 :=
  (hc + lc) * (hc + lc + 1) / 2 + lc

/-- The `n`-th triangular number, the first term of Cantor's pairing. -/
def tri (n : Nat) : Nat := n * (n + 1) / 2

theorem tri_succ (n : Nat) : tri (n + 1) = tri n + n + 1 := by
  have h : (n + 1) * (n + 1 + 1) = n * (n + 1) + 2 * (n + 1) := by ring
  rw [tri, tri, h, Nat.add_mul_div_left _ _ (by norm_num)]
  omega

theorem tri_add_lt {s t : Nat} (h : s < t) : tri s + s < tri t := by
  induction t with
  | zero => omega
  | succ t ih =>
    rw [tri_succ]
    rcases Nat.lt_succ_iff_lt_or_eq.mp h with h | rfl
    · have := ih h; omega
    · omega

theorem tri_add_inj {a b c d : Nat} (h : tri (a + b) + b = tri (c + d) + d) :
    a = c ∧ b = d := by
  have hs : a + b = c + d := by
    rcases Nat.lt_trichotomy (a + b) (c + d) with hl | he | hl
    · have := tri_add_lt hl; omega
    · exact he
    · have := tri_add_lt hl; omega
  rw [hs] at h
  omega

theorem uint64_toNat_add (a b : UInt64) : (a + b).toNat = (a.toNat + b.toNat) % 2 ^ 64 := rfl

theorem uint64_toNat_mul (a b : UInt64) : (a * b).toNat = (a.toNat * b.toNat) % 2 ^ 64 := rfl

theorem cantorPairing_toNat {a b : UInt64} (h : a.toNat + b.toNat < 2 ^ 32) :
    (cantorPairing a b).toNat = tri (a.toNat + b.toNat) + b.toNat := by
  have hprod : (a.toNat + b.toNat) * (a.toNat + b.toNat + 1) < 2 ^ 64 :=
    calc _ < 2 ^ 32 * 2 ^ 32 := Nat.mul_lt_mul_of_lt_of_le h (by omega) (by norm_num)
      _ = 2 ^ 64 := by norm_num
  have htri : tri (a.toNat + b.toNat) + b.toNat < 2 ^ 64 := by
    have : tri (a.toNat + b.toNat) ≤ 2 ^ 63 := by unfold tri; omega
    omega
  have h1 : (1 : UInt64).toNat = 1 := rfl
  have h2 : (2 : UInt64).toNat = 2 := rfl
  simp only [cantorPairing, uint64_toNat_add, uint64_toNat_mul, UInt64.toNat_div, h1, h2]
  rw [Nat.mod_eq_of_lt (a := a.toNat + b.toNat) (by omega),
    Nat.mod_eq_of_lt (a := a.toNat + b.toNat + 1) (by omega), Nat.mod_eq_of_lt hprod]
  exact Nat.mod_eq_of_lt htri

/-- Below `2^32` different pairs get different keys. -/
theorem cantorPairing_inj {a b c d : UInt64} (h₁ : a.toNat + b.toNat < 2 ^ 32)
    (h₂ : c.toNat + d.toNat < 2 ^ 32) (h : cantorPairing a b = cantorPairing c d) :
    a = c ∧ b = d := by
  have := congrArg UInt64.toNat h
  rw [cantorPairing_toNat h₁, cantorPairing_toNat h₂] at this
  obtain ⟨hac, hbd⟩ := tri_add_inj this
  exact ⟨UInt64.toNat.inj hac, UInt64.toNat.inj hbd⟩

/-! ## The operator -/

/-- `joinBucket`: the state of one signature during a step.  `ats` is the
timestamp of the last step that marked the bucket, `bts` that of the last
step a high-card row matched it; `sid`, `val`, `hid`, `hval` are the
low-card sample or histogram that marked it. -/
structure JoinBucket (H : Type) where
  ats : Int
  bts : Int
  sid : UInt64
  hid : UInt64
  val : Float
  hval : Option H

/-- `joinBucket{ats: -1, bts: -1}`. -/
def JoinBucket.new {H : Type} : JoinBucket H := ⟨-1, -1, 0, 0, 0, none⟩

/-- `vectorOperator`, without its children, pool and telemetry: the children's
results are inputs of each call, and the pool changes no value.  `once` says
whether `initOnce` has run. -/
structure VectorOperator where
  matching : VectorMatching
  opType : ItemType
  returnBool : Bool
  sigFunc : Labels → UInt64
  once : Bool
  lhsSampleIDs : List Labels
  rhsSampleIDs : List Labels
  series : List Labels
  lcJoinBuckets : List UInt64
  hcJoinBuckets : List UInt64
  outputMap : UInt64 → Option UInt64

/-- `signatureFunc(on, names...)`.  `sum64` is `xxhash.Sum64` of the bytes of a
label set; `BytesWithLabels(names)` and `BytesWithoutLabels(names)` are the
bytes of the labels kept, or left, by `names`. -/
def signatureFunc (sum64 : Labels → UInt64) (isOn : Bool) (names : List String) :
    Labels → UInt64 :=
  if isOn then fun lset => sum64 (lset.filter (·.name ∈ names))
  else fun lset => sum64 (lset.filter (·.name ∉ metricName :: names))

/-- `NewVectorOperator`. -/
def newVectorOperator (sum64 : Labels → UInt64) (matching : VectorMatching)
    (opType : ItemType) (returnBool : Bool) : VectorOperator where
  matching := matching
  opType := opType
  returnBool := returnBool
  sigFunc := signatureFunc sum64 matching.isOn matching.matchingLabels
  once := false
  lhsSampleIDs := []
  rhsSampleIDs := []
  series := []
  lcJoinBuckets := []
  hcJoinBuckets := []
  outputMap := fun _ => none

/-- `vectorOperator.resultMetric`: the output label set of a matched pair. -/
def VectorOperator.resultMetric (o : VectorOperator) (highCard lowCard : Labels) : Labels :=
  let b := Builder.new highCard
  let b := if shouldDropMetricName o.opType o.returnBool then b.del [metricName] else b
  let b :=
    if o.matching.card = .oneToOne then
      if o.matching.isOn then b.keep o.matching.matchingLabels
      else b.del o.matching.matchingLabels
    else b
  let b := o.matching.includeLabels.foldl
    (fun b ln => if lowCard.get ln ≠ "" then b.set ln (lowCard.get ln) else b.del [ln]) b
  let b := if o.returnBool then b.del [metricName] else b
  b.labels

/-! ## The output series -/

/-- `joinHelper`. -/
structure JoinHelper where
  seen : UInt64 → Option Nat
  ls : List Labels
  n : Nat

/-- `&joinHelper{seen: make(map[uint64]int)}`. -/
def JoinHelper.empty : JoinHelper := ⟨fun _ => none, [], 0⟩

/-- `joinHelper.append`: the index of the first label set with this hash,
appending it if there is none. -/
def JoinHelper.append (hash : Labels → UInt64) (h : JoinHelper) (ls : Labels) :
    Nat × JoinHelper :=
  match h.seen (hash ls) with
  | some n => (n, h)
  | none => (h.n, ⟨Function.update h.seen (hash ls) (some h.n), h.ls ++ [ls], h.n + 1⟩)

/-- `lcHashToSeriesIDs[sig]`: the low-card series with signature `sig`. -/
def hashToSeriesIDs (sigFunc : Labels → UInt64) (side : List Labels) (sig : UInt64) :
    List UInt64 :=
  (side.enum.filter fun p => sigFunc p.2 = sig).map fun p => UInt64.ofNat p.1

/-- The `(key, label set)` pairs the `switch o.opType` of `initJoinTables`
stores, in its order. -/
def outputEntries (o : VectorOperator) (highCardSide lowCardSide : List Labels) :
    List (UInt64 × Labels) :=
  let matched (out : Labels → Labels → Labels) :=
    highCardSide.enum.flatMap fun p =>
      (hashToSeriesIDs o.sigFunc lowCardSide (o.sigFunc p.2)).map fun lc =>
        (cantorPairing (UInt64.ofNat (p.1 + 1)) (lc + 1), out p.2 (lowCardSide.getD lc.toNat []))
  let hcRows := highCardSide.enum.map fun p => (cantorPairing (UInt64.ofNat (p.1 + 1)) 0, p.2)
  let lcRows := lowCardSide.enum.map fun p => (cantorPairing 0 (UInt64.ofNat (p.1 + 1)), p.2)
  match o.opType with
  | .land => matched fun hc _ => hc
  | .lor => hcRows ++ lcRows
  | .lunless => hcRows
  | _ => matched o.resultMetric

/-- The store loop: `outputMap.Store(key, uint64(h.append(labels)))`. -/
def storeEntries (hash : Labels → UInt64) :
    List (UInt64 × Labels) → JoinHelper → (UInt64 → Option UInt64) →
      JoinHelper × (UInt64 → Option UInt64)
  | [], h, m => (h, m)
  | (k, ls) :: rest, h, m =>
    storeEntries hash rest (h.append hash ls).2
      (Function.update m k (some (UInt64.ofNat (h.append hash ls).1)))

/-- `vectorOperator.initJoinTables`.  The fresh buckets it allocates are set up
by `init` in `Binary/Vector.lean`. -/
def VectorOperator.initJoinTables (hash : Labels → UInt64) (o : VectorOperator)
    (highCardSide lowCardSide : List Labels) : VectorOperator :=
  let tables := storeEntries hash (outputEntries o highCardSide lowCardSide)
    JoinHelper.empty (fun _ => none)
  { o with
    series := tables.1.ls
    outputMap := tables.2
    lcJoinBuckets := lowCardSide.map o.sigFunc
    hcJoinBuckets := highCardSide.map o.sigFunc }

/-- `vectorOperator.outputSeriesID`: a missing key loads as `0`. -/
def VectorOperator.outputSeriesID (o : VectorOperator) (hc lc : UInt64) : UInt64 :=
  (o.outputMap (cantorPairing hc lc)).getD 0

/-! ## Reading the tables back -/

/-- What `joinHelper` keeps true: `n` counts the label sets, and a seen hash
points at a label set with that hash. -/
structure JoinHelper.Valid (hash : Labels → UInt64) (h : JoinHelper) : Prop where
  n_eq : h.n = h.ls.length
  seen_some : ∀ k n, h.seen k = some n → ∃ l, h.ls[n]? = some l ∧ hash l = k

theorem JoinHelper.valid_empty (hash : Labels → UInt64) : JoinHelper.empty.Valid hash :=
  ⟨rfl, by simp [JoinHelper.empty]⟩

theorem JoinHelper.append_ls (hash : Labels → UInt64) (h : JoinHelper) (l : Labels) :
    (h.append hash l).2.ls = h.ls ∨ (h.append hash l).2.ls = h.ls ++ [l] := by
  unfold JoinHelper.append; split <;> simp

theorem JoinHelper.append_valid (hash : Labels → UInt64) {h : JoinHelper} (hv : h.Valid hash)
    (l : Labels) : (h.append hash l).2.Valid hash := by
  unfold JoinHelper.append
  split
  · exact hv
  · refine ⟨by simp [hv.n_eq], fun k n hk => ?_⟩
    dsimp only at hk ⊢
    by_cases hkl : k = hash l
    · subst hkl
      simp only [Function.update_same, Option.some.injEq] at hk
      subst hk
      exact ⟨l, by simp [hv.n_eq], rfl⟩
    · rw [Function.update_noteq hkl] at hk
      obtain ⟨l', hl', hhash⟩ := hv.seen_some _ _ hk
      exact ⟨l', List.getElem?_append_left (List.getElem?_eq_some_iff.mp hl').1 ▸ hl', hhash⟩

theorem JoinHelper.append_lt (hash : Labels → UInt64) {h : JoinHelper} (hv : h.Valid hash)
    (l : Labels) : (h.append hash l).1 < (h.append hash l).2.ls.length := by
  unfold JoinHelper.append
  split
  case h_1 n hn =>
    obtain ⟨l', hl', -⟩ := hv.seen_some _ _ hn
    exact (List.getElem?_eq_some_iff.mp hl').1
  case h_2 => simp [hv.n_eq]

theorem JoinHelper.append_spec (hash : Labels → UInt64) {h : JoinHelper} (hv : h.Valid hash)
    {l : Labels} (hinj : ∀ l' ∈ h.ls, hash l' = hash l → l' = l) :
    (h.append hash l).2.Valid hash ∧ (h.append hash l).2.ls[(h.append hash l).1]? = some l := by
  refine ⟨JoinHelper.append_valid hash hv l, ?_⟩
  unfold JoinHelper.append
  split
  case h_1 n hn =>
    obtain ⟨l', hl', hhash⟩ := hv.seen_some _ _ hn
    rw [hl', hinj l' (List.getElem?_mem hl') hhash]
  case h_2 => simp [hv.n_eq]

theorem storeEntries_frame (hash : Labels → UInt64) :
    ∀ (es : List (UInt64 × Labels)) (h : JoinHelper) (m : UInt64 → Option UInt64),
      (∃ t, (storeEntries hash es h m).1.ls = h.ls ++ t) ∧
        ∀ k ∉ es.map Prod.fst, (storeEntries hash es h m).2 k = m k
  | [], h, m => ⟨⟨[], by simp [storeEntries]⟩, fun _ _ => rfl⟩
  | (k, l) :: es, h, m => by
    obtain ⟨⟨t, ht⟩, hm⟩ := storeEntries_frame hash es (h.append hash l).2
      (Function.update m k (some (UInt64.ofNat (h.append hash l).1)))
    refine ⟨?_, fun k' hk' => ?_⟩
    · rcases JoinHelper.append_ls hash h l with h' | h' <;> rw [h'] at ht
      · exact ⟨t, ht⟩
      · exact ⟨[l] ++ t, by simpa using ht⟩
    · simp only [List.map_cons, List.mem_cons, not_or] at hk'
      rw [storeEntries, hm k' hk'.2, Function.update_noteq hk'.1]

/-- **The tables resolve.**  If keys name their label sets and no two label
sets collide on `hash`, every stored key leads through the final map to an
index whose series is its label set. -/
theorem storeEntries_resolves (hash : Labels → UInt64) :
    ∀ (es : List (UInt64 × Labels)) (h : JoinHelper) (m : UInt64 → Option UInt64),
      h.Valid hash →
      (∀ l ∈ h.ls, ∀ e ∈ es, hash l = hash e.2 → l = e.2) →
      (∀ e₁ ∈ es, ∀ e₂ ∈ es, hash e₁.2 = hash e₂.2 → e₁.2 = e₂.2) →
      (∀ e₁ ∈ es, ∀ e₂ ∈ es, e₁.1 = e₂.1 → e₁.2 = e₂.2) →
      h.ls.length + es.length < 2 ^ 64 →
      ∀ e ∈ es, (storeEntries hash es h m).1.ls[
        (((storeEntries hash es h m).2 e.1).getD 0).toNat]? = some e.2
  | [], _, _, _, _, _, _, _ => by simp
  | (k, l) :: es, h, m, hv, hls, hes, hkey, hlen => by
    have hinj : ∀ l' ∈ h.ls, hash l' = hash l → l' = l :=
      fun l' hl' hh => hls l' hl' (k, l) (List.mem_cons_self _ _) hh
    obtain ⟨hv', hidx⟩ := JoinHelper.append_spec hash hv hinj
    have hlen' : (h.append hash l).2.ls.length ≤ h.ls.length + 1 := by
      rcases JoinHelper.append_ls hash h l with h' | h' <;> simp [h']
    have ih := storeEntries_resolves hash es _
      (Function.update m k (some (UInt64.ofNat (h.append hash l).1))) hv'
      (fun l' hl' e he hh => by
        rcases JoinHelper.append_ls hash h l with h' | h' <;> rw [h'] at hl'
        · exact hls l' hl' e (List.mem_cons_of_mem _ he) hh
        · rcases List.mem_append.mp hl' with hl' | hl'
          · exact hls l' hl' e (List.mem_cons_of_mem _ he) hh
          · obtain rfl := List.mem_singleton.mp hl'
            exact hes _ (List.mem_cons_self _ _) e (List.mem_cons_of_mem _ he) hh)
      (fun e₁ h₁ e₂ h₂ => hes e₁ (List.mem_cons_of_mem _ h₁) e₂ (List.mem_cons_of_mem _ h₂))
      (fun e₁ h₁ e₂ h₂ => hkey e₁ (List.mem_cons_of_mem _ h₁) e₂ (List.mem_cons_of_mem _ h₂))
      (by simp at hlen; omega)
    intro e he
    rcases List.mem_cons.mp he with rfl | he
    · by_cases hk : k ∈ es.map Prod.fst
      · obtain ⟨e', he', rfl⟩ := List.mem_map.mp hk
        have := ih e' he'
        rwa [hkey (e'.1, l) (List.mem_cons_self _ _) e' (List.mem_cons_of_mem _ he') rfl]
      · obtain ⟨⟨t, ht⟩, hm⟩ := storeEntries_frame hash es (h.append hash l).2
          (Function.update m k (some (UInt64.ofNat (h.append hash l).1)))
        have hn : (h.append hash l).1 < (h.append hash l).2.ls.length :=
          (List.getElem?_eq_some_iff.mp hidx).1
        have hn64 : (h.append hash l).1 < 2 ^ 64 := by simp at hlen; omega
        simp only [storeEntries, hm k hk, Function.update_same, Option.getD_some, ht,
          UInt64.toNat_ofNat_of_lt hn64, List.getElem?_append_left hn, hidx]
    · exact ih e he

theorem uint64_toNat_ofNat_le (n : Nat) : (UInt64.ofNat n).toNat ≤ n := Nat.mod_le n (2 ^ 64)

/-- **Whatever the hashes, a stored key leads to a series**: every key the
store loop stores leads through `outputMap` to an index of the series it
builds.  Two label sets of one hash share an index, so the series there may
be the other one; the index is still in range, and a `uint64` that wraps only
gets smaller. -/
theorem storeEntries_lt (hash : Labels → UInt64) :
    ∀ (es : List (UInt64 × Labels)) (h : JoinHelper) (m : UInt64 → Option UInt64), h.Valid hash →
      ∀ e ∈ es, (((storeEntries hash es h m).2 e.1).getD 0).toNat < (storeEntries hash es h m).1.ls.length
  | [], _, _, _ => by simp
  | (k, l) :: es, h, m, hv => by
    have ih := storeEntries_lt hash es _ (Function.update m k (some (UInt64.ofNat (h.append hash l).1)))
      (JoinHelper.append_valid hash hv l)
    intro e he
    rcases List.mem_cons.mp he with rfl | he
    · by_cases hk : k ∈ es.map Prod.fst
      · obtain ⟨e', he', hk'⟩ := List.mem_map.mp hk
        exact hk' ▸ ih e' he'
      · obtain ⟨⟨t, ht⟩, hm⟩ := storeEntries_frame hash es (h.append hash l).2
          (Function.update m k (some (UInt64.ofNat (h.append hash l).1)))
        have hn := JoinHelper.append_lt hash hv l
        have hwrap := uint64_toNat_ofNat_le (h.append hash l).1
        simp only [storeEntries, hm k hk, Function.update_same, Option.getD_some, ht, List.length_append]
        omega
    · exact ih e he

end PromqlEngine
