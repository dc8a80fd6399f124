import Mathlib.Data.List.Sort

/-!
# `PromqlEngine.Labels` — label sets and Prometheus's label builder

The operators of `src/` read label sets only through Prometheus's `labels`
package: `Get`, `Hash`, and the `Builder` with `Reset`, `Set`, `Del`, `Keep`
and `Labels`.  That package is not part of the repository, so this module
states what those calls compute, as the package computes them:

* a builder is a base label set, a list of deleted names and a list of added
  labels; nothing is applied until `Labels()` is called;
* `Labels()` keeps the base labels that are neither deleted nor re-added,
  appends the additions and sorts by name (only when something was added);
* `Keep` records deletions for base labels only, never for additions.

`Hash` is the one call left abstract: every operator that uses it takes it as
a parameter `hash : Labels → UInt64`, and every result that needs it to be
collision-free says so in a hypothesis.

The builder's fields are `dels` and `adds` (the source's `del` and `add`),
because `del` is the name of the method.
-/

namespace PromqlEngine

/-- One label, `name="value"`. -/
structure Label where
  name : String
  value : String
deriving DecidableEq, Repr

/-- `labels.Labels`: the labels of one series. -/
abbrev Labels := List Label

/-- `labels.MetricName`. -/
def metricName : String := "__name__"

/-- `Labels.Get`: the value of the label called `n`, or `""`. -/
def Labels.get (ls : Labels) (n : String) : String :=
  match ls.find? (·.name = n) with
  | some l => l.value
  | none => ""

/-- A stand-in for `Hash`, to run the model on concrete label sets: it reads
the lengths of names and values only. -/
def lengthHash (ls : Labels) : UInt64 :=
  UInt64.ofNat (ls.foldl (fun h l => h * 31 + l.name.length * 7 + l.value.length) 7)

/-- `labels.Builder`. -/
structure Builder where
  base : Labels
  dels : List String
  adds : List Label

namespace Builder

/-- `labels.NewBuilder(base)`, which is `Reset(base)` on a fresh builder: the
base labels with an empty value are deleted. -/
def new (base : Labels) : Builder :=
  ⟨base, (base.filter (·.value = "")).map (·.name), []⟩

/-- `Builder.Del`: each name is dropped from the additions and recorded as
deleted. -/
def del (b : Builder) (ns : List String) : Builder :=
  ns.foldl (fun b n => ⟨b.base, b.dels ++ [n], b.adds.filter (·.name ≠ n)⟩) b

/-- `Builder.Set`: an empty value deletes; otherwise the addition for `n` is
overwritten, or appended if there is none.  The additions never hold a name
twice, so overwriting every match is overwriting the first. -/
def set (b : Builder) (n v : String) : Builder :=
  if v = "" then b.del [n]
  else if b.adds.any (·.name = n) then
    { b with adds := b.adds.map fun a => if a.name = n then ⟨n, v⟩ else a }
  else { b with adds := b.adds ++ [⟨n, v⟩] }

/-- `Builder.Keep`: every base label not named in `ns` is deleted. -/
def keep (b : Builder) (ns : List String) : Builder :=
  { b with dels := b.dels ++ ((b.base.filter (·.name ∉ ns)).map (·.name)) }

/-- `slices.SortFunc(res, strings.Compare on names)`.  The order is core's
`String` order, code point by code point, which is the byte order of UTF-8;
it is named in full, since Mathlib declares a second `≤` on `String`. -/
def sortByName (ls : Labels) : Labels :=
  @List.insertionSort Label (fun a b => @LE.le String String.instLE a.name b.name)
    (fun a b => String.decLE a.name b.name) ls

/-- `Builder.Labels`. -/
def labels (b : Builder) : Labels :=
  if b.dels = [] ∧ b.adds = [] then b.base
  else
    let res := b.base.filter fun l => l.name ∉ b.dels ∧ ¬ b.adds.any (·.name = l.name)
    if b.adds = [] then res else sortByName (res ++ b.adds)

/-! ## What the builder holds -/

@[simp] theorem new_adds (base : Labels) : (new base).adds = [] := rfl

@[simp] theorem new_base (base : Labels) : (new base).base = base := rfl

@[simp] theorem del_base (b : Builder) (ns : List String) : (b.del ns).base = b.base := by
  induction ns generalizing b with
  | nil => rfl
  | cons n ns ih => exact ih _

theorem mem_del_adds {b : Builder} {ns : List String} {l : Label} :
    l ∈ (b.del ns).adds ↔ l ∈ b.adds ∧ l.name ∉ ns := by
  induction ns generalizing b with
  | nil => simp [del]
  | cons n ns ih =>
    simp only [del, List.foldl_cons] at ih ⊢
    rw [ih]
    simp only [List.mem_filter, decide_eq_true_eq, List.mem_cons, not_or]
    tauto

@[simp] theorem set_base (b : Builder) (n v : String) : (b.set n v).base = b.base := by
  unfold set; split_ifs <;> simp

theorem mem_set_adds {b : Builder} {n v : String} {l : Label} :
    l ∈ (b.set n v).adds ↔ (l ∈ b.adds ∧ l.name ≠ n) ∨ (v ≠ "" ∧ l = ⟨n, v⟩) := by
  unfold set
  split_ifs with hv hn
  · simp [mem_del_adds, hv]
  · obtain ⟨a, ha, han⟩ := List.any_eq_true.mp hn
    simp only [List.mem_map]
    constructor
    · rintro ⟨a', ha', rfl⟩
      split_ifs with h
      · exact .inr ⟨hv, rfl⟩
      · exact .inl ⟨ha', h⟩
    · rintro (⟨hl, hln⟩ | ⟨-, rfl⟩)
      · exact ⟨l, hl, if_neg hln⟩
      · exact ⟨a, ha, if_pos (of_decide_eq_true han)⟩
  · simp only [List.mem_append, List.mem_singleton, hv, ne_eq, not_false_eq_true, true_and]
    have : l ∈ b.adds → l.name ≠ n := fun hl h =>
      hn (List.any_eq_true.mpr ⟨l, hl, decide_eq_true h⟩)
    tauto

theorem mem_labels {b : Builder} {l : Label} :
    l ∈ b.labels ↔
      (l ∈ b.base ∧ l.name ∉ b.dels ∧ l.name ∉ b.adds.map (·.name)) ∨ l ∈ b.adds := by
  unfold labels
  have hany : (b.adds.any (·.name = l.name)) = true ↔ l.name ∈ b.adds.map (·.name) := by
    simp [List.any_eq_true]
  split_ifs with h₀ h₁
  · simp [h₀.1, h₀.2]
  · simp [h₁, List.mem_filter]
  · rw [sortByName, List.mem_insertionSort, List.mem_append, List.mem_filter, ← hany]
    simp only [decide_eq_true_eq, and_assoc]

end Builder

end PromqlEngine
