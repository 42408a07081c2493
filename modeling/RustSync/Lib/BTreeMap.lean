/-
Ordered maps

Rust's `BTreeMap`, over a lawful order: maps with the same lookups are equal,
and a walk of the map meets every key once, in order. The lookup rules are
stated with equality of keys, as the proofs above them use it. `BTreeSet` is
the set of keys.

Key definitions: `BTreeMap`, `BTreeSet`, `BTreeMap.countValues`.
-/
import Std.Data.ExtTreeMap
import Std.Data.ExtTreeSet
import Mathlib.Algebra.Group.Nat.Defs
import Mathlib.Data.List.Nodup

namespace RustSync

/-- A map in the order of its keys. -/
abbrev BTreeMap (κ ν : Type) [Ord κ] := Std.ExtTreeMap κ ν compare

/-- A set in order. -/
abbrev BTreeSet (κ : Type) [Ord κ] := Std.ExtTreeSet κ compare

namespace BTreeMap

variable {κ ν μ : Type} [Ord κ] [Std.TransOrd κ] {m : BTreeMap κ ν} {k k' : κ} {v : ν}

/-! ### Lookups -/

section Lookup

variable [Std.LawfulEqOrd κ]

theorem ext_lookup {m m' : BTreeMap κ ν} (h : ∀ k : κ, m[k]? = m'[k]?) : m = m' :=
  Std.ExtTreeMap.ext_getElem? h

theorem isEmpty_iff_lookup : m.isEmpty = true ↔ ∀ k : κ, m[k]? = none := by
  rw [Std.ExtTreeMap.isEmpty_iff]
  constructor
  · rintro rfl k
    exact Std.ExtTreeMap.getElem?_empty
  · intro h
    exact ext_lookup fun k => by rw [h k, Std.ExtTreeMap.getElem?_empty]

variable [DecidableEq κ]

@[simp] theorem lookup_insert :
    (m.insert k v)[k']? = if k = k' then some v else m[k']? := by
  simp [Std.ExtTreeMap.getElem?_insert]

@[simp] theorem lookup_modify {f : ν → ν} :
    (m.modify k f)[k']? = if k = k' then m[k]?.map f else m[k']? := by
  simp [Std.ExtTreeMap.getElem?_modify]

@[simp] theorem lookup_alter {f : Option ν → Option ν} :
    (m.alter k f)[k']? = if k = k' then f m[k]? else m[k']? := by
  simp [Std.ExtTreeMap.getElem?_alter]

end Lookup

/-! ### Walks -/

section Walk

variable [Std.LawfulEqOrd κ]

@[simp] theorem mem_toList : (k, v) ∈ m.toList ↔ m[k]? = some v :=
  Std.ExtTreeMap.mem_toList_iff_getElem?_eq_some

omit [Std.LawfulEqOrd κ] in
theorem mem_iff_lookup : k ∈ m ↔ m[k]? ≠ none := by
  rw [Std.ExtTreeMap.mem_iff_isSome_getElem?, Option.isSome_iff_ne_none]

theorem lookup_erase [DecidableEq κ] : (m.erase k)[k']? = if k = k' then none else m[k']? := by
  simp [Std.ExtTreeMap.getElem?_erase]

end Walk

/-! ### Ranges -/

section Range

/-- The first key from `k` on, `range(k..).next()`. -/
def firstFrom (m : BTreeMap κ ν) (k : κ) : Option κ := m.keys.find? fun k' => compare k k' ≠ .gt

variable [Std.LawfulEqOrd κ]

theorem firstFrom_mem (h : m.firstFrom k = some k') : k' ∈ m ∧ compare k k' ≠ .gt := by
  unfold firstFrom at h
  have hfrom := List.find?_some h
  exact ⟨Std.ExtTreeMap.mem_keys.mp (List.mem_of_find?_eq_some h), of_decide_eq_true hfrom⟩

/-- There is one where some key comes from `k` on, and it comes no later. -/
theorem exists_firstFrom {q : κ} (hq : q ∈ m) (hfrom : compare k q ≠ .gt) :
    ∃ k', m.firstFrom k = some k' ∧ compare k' q ≠ .gt := by
  have hkeys : q ∈ m.keys := Std.ExtTreeMap.mem_keys.mpr hq
  have hsome : (m.firstFrom k).isSome = true := by
    unfold firstFrom
    rw [List.find?_isSome]
    exact ⟨q, hkeys, decide_eq_true hfrom⟩
  obtain ⟨k', hk'⟩ := Option.isSome_iff_exists.mp hsome
  refine ⟨k', hk', ?_⟩
  obtain ⟨_, before, after, hsplit, hbefore⟩ := List.find?_eq_some_iff_append.mp hk'
  have hsorted := Std.ExtTreeMap.ordered_keys (t := m)
  rw [hsplit] at hkeys hsorted
  rcases List.mem_append.mp hkeys with hq' | hq'
  · -- the keys before it come before `k`
    have hskipped := hbefore q hq'
    simp only [ne_eq, decide_not, Bool.not_not, decide_eq_true_eq] at hskipped
    exact absurd hskipped hfrom
  · rcases List.mem_cons.mp hq' with rfl | hafter
    · rw [Std.ReflOrd.compare_self]
      simp
    · have hlt := List.rel_of_pairwise_cons (List.pairwise_append.mp hsorted).2.1 hafter
      rw [hlt]
      simp

end Range

/-! ### Counting values -/

theorem nodup_toList : m.toList.Nodup := by
  refine Std.ExtTreeMap.distinct_keys_toList.imp fun {a b} h hab => ?_
  subst hab
  simp at h

/-- The values a test accepts. -/
def countValues (m : BTreeMap κ ν) (p : ν → Bool) : ℕ :=
  ((m.toList.map Prod.snd).filter p).length

theorem countValues_eq {p : ν → Bool} :
    m.countValues p = (m.toList.filter fun e => p e.2).length := by
  simp [countValues, List.filter_map, Function.comp_def]

section Count

variable [Std.LawfulEqOrd κ]

theorem countValues_ne_zero {p : ν → Bool} :
    m.countValues p ≠ 0 ↔ ∃ (k : κ) (v : ν), m[k]? = some v ∧ p v = true := by
  rw [countValues_eq, Ne, List.length_eq_zero_iff, List.filter_eq_nil_iff]
  simp

omit [Ord κ] [Std.TransOrd κ] [Std.LawfulEqOrd κ] in
/-- A list without duplicates and with more than one item has another one. -/
theorem exists_ne_of_nodup {l : List μ} (hn : l.Nodup) {a : μ} (ha : a ∈ l) (hlen : l.length ≠ 1) :
    ∃ b ∈ l, b ≠ a := by
  by_contra h
  push Not at h
  rw [List.eq_replicate_of_mem h, List.nodup_replicate] at hn
  have := List.length_pos_of_mem ha
  omega

/-- Where the test accepts the value of `k` and not exactly one value, it
accepts the value of another key. -/
theorem exists_ne_of_countValues {p : ν → Bool} (hlen : m.countValues p ≠ 1) (hk : m[k]? = some v)
    (hv : p v = true) : ∃ (k' : κ) (v' : ν), k' ≠ k ∧ m[k']? = some v' ∧ p v' = true := by
  rw [countValues_eq] at hlen
  obtain ⟨⟨k', v'⟩, hmem, hne⟩ := exists_ne_of_nodup (nodup_toList.filter _)
    (List.mem_filter.mpr ⟨Std.ExtTreeMap.mem_toList_iff_getElem?_eq_some.mpr hk, hv⟩) hlen
  obtain ⟨hmem, hv'⟩ := List.mem_filter.mp hmem
  rw [Std.ExtTreeMap.mem_toList_iff_getElem?_eq_some] at hmem
  refine ⟨k', v', ?_, hmem, hv'⟩
  rintro rfl
  rw [hk] at hmem
  cases hmem
  exact hne rfl

end Count

end BTreeMap

namespace BTreeSet

variable {κ : Type} [Ord κ] [Std.TransOrd κ] [Std.LawfulEqOrd κ] {s : BTreeSet κ} {k k' : κ}

/-- The set of the items of a list. -/
def ofList (l : List κ) : BTreeSet κ := l.foldl (fun s k => s.insert k) ∅

@[simp] theorem mem_insert : k' ∈ s.insert k ↔ k' = k ∨ k' ∈ s := by
  rw [Std.ExtTreeSet.mem_insert, Std.LawfulEqOrd.compare_eq_iff_eq, eq_comm]

theorem mem_foldl {l : List κ} : k ∈ l.foldl (fun s k => s.insert k) s ↔ k ∈ l ∨ k ∈ s := by
  induction l generalizing s with
  | nil => simp
  | cons a l ih =>
    rw [List.foldl_cons, ih, mem_insert, List.mem_cons]
    tauto

@[simp] theorem mem_ofList {l : List κ} : k ∈ ofList l ↔ k ∈ l := by
  unfold ofList
  rw [mem_foldl]
  simp

end BTreeSet
end RustSync
