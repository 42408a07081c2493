/-
Relative paths

A path below a root is the text of its components, with `/` between them.
`Beneath` is the order of a tree on such texts: the ancestors of a path are
its prefixes that end before a `/`, and two paths above one path are
themselves one above the other (`Beneath.linear`).

Key definitions: `RelPath`, `Beneath`, `ancestors`, `components`.
-/
import Mathlib.Data.List.Basic
import Mathlib.Data.List.Infix
import Mathlib.Data.Nat.Notation

namespace RustSync

abbrev RelPath := List Char

/-- `path` starts with `root/`. -/
def Beneath (root path : RelPath) : Prop := root ++ ['/'] <+: path

instance (root path : RelPath) : Decidable (Beneath root path) :=
  inferInstanceAs (Decidable (root ++ ['/'] <+: path))

/-- `path` is `root`, or beneath it. -/
def Within (root path : RelPath) : Prop := path = root ∨ Beneath root path

instance (root path : RelPath) : Decidable (Within root path) :=
  inferInstanceAs (Decidable (path = root ∨ Beneath root path))

variable {a b c p q : RelPath}

theorem beneath_iff : Beneath a b ↔ ∃ rest, b = a ++ '/' :: rest := by
  unfold Beneath
  constructor
  · rintro ⟨rest, rfl⟩
    exact ⟨rest, by simp⟩
  · rintro ⟨rest, rfl⟩
    exact ⟨rest, by simp⟩

theorem beneath_append (a rest : RelPath) : Beneath a (a ++ '/' :: rest) := beneath_iff.mpr ⟨rest, rfl⟩

theorem Beneath.length_lt (h : Beneath a b) : a.length < b.length := by
  obtain ⟨rest, rfl⟩ := beneath_iff.mp h
  simp

theorem Beneath.ne (h : Beneath a b) : b ≠ a := by
  rintro rfl
  exact Nat.lt_irrefl _ h.length_lt

theorem not_beneath_self (a : RelPath) : ¬ Beneath a a := fun h => h.ne rfl

theorem Beneath.trans (hab : Beneath a b) (hbc : Beneath b c) : Beneath a c := by
  obtain ⟨rest, rfl⟩ := beneath_iff.mp hab
  obtain ⟨rest', rfl⟩ := beneath_iff.mp hbc
  exact beneath_iff.mpr ⟨rest ++ '/' :: rest', by simp⟩

theorem Beneath.asymm (h : Beneath a b) : ¬ Beneath b a := fun h' => not_beneath_self a (h.trans h')

/-- Two paths above one path are one above the other. -/
theorem Beneath.linear (ha : Beneath a c) (hb : Beneath b c) : a = b ∨ Beneath a b ∨ Beneath b a := by
  have hcases {x y : RelPath} (hx : x ++ ['/'] <+: c) (hy : y ++ ['/'] <+: c) (hle : x.length ≤ y.length) :
      x = y ∨ Beneath x y := by
    obtain ⟨rest, hrest⟩ := List.prefix_of_prefix_length_le hx hy (by simpa using hle)
    rcases List.eq_nil_or_concat rest with rfl | ⟨init, last, rfl⟩
    · rw [List.append_nil] at hrest
      exact .inl (List.append_cancel_right hrest)
    · -- the last character is the `/` of `y`
      have hsplit : (x ++ ['/'] ++ init) ++ [last] = y ++ ['/'] := by simpa using hrest
      obtain ⟨rfl, _⟩ := List.append_inj' hsplit rfl
      exact .inr ⟨init, rfl⟩
  rcases Nat.le_total a.length b.length with hle | hle
  · rcases hcases ha hb hle with heq | hbeneath
    · exact .inl heq
    · exact .inr (.inl hbeneath)
  · rcases hcases hb ha hle with heq | hbeneath
    · exact .inl heq.symm
    · exact .inr (.inr hbeneath)

theorem within_self (a : RelPath) : Within a a := .inl rfl

theorem Beneath.within (h : Beneath a b) : Within a b := .inr h

theorem Within.trans (hab : Within a b) (hbc : Within b c) : Within a c := by
  rcases hab with rfl | hab
  · exact hbc
  · rcases hbc with rfl | hbc
    · exact hab.within
    · exact (hab.trans hbc).within

theorem Within.trans_beneath (hab : Within a b) (hbc : Beneath b c) : Beneath a c := by
  rcases hab with rfl | hab
  · exact hbc
  · exact hab.trans hbc

theorem Beneath.trans_within (hab : Beneath a b) (hbc : Within b c) : Beneath a c := by
  rcases hbc with rfl | hbc
  · exact hab
  · exact hab.trans hbc

/-- Two paths that have a path within both are one within the other. -/
theorem Within.linear (ha : Within a c) (hb : Within b c) : Within a b ∨ Within b a := by
  rcases ha with rfl | ha
  · exact .inr hb
  · rcases hb with rfl | hb
    · exact .inl ha.within
    · rcases ha.linear hb with rfl | hab | hba
      · exact .inl (within_self _)
      · exact .inl hab.within
      · exact .inr hba.within

/-- What is within a path follows it in the text. -/
theorem within_iff : Within a b ↔ ∃ rest, b = a ++ rest ∧ (rest = [] ∨ ∃ tail, rest = '/' :: tail) := by
  constructor
  · rintro (rfl | h)
    · exact ⟨[], (List.append_nil _).symm, .inl rfl⟩
    · obtain ⟨tail, rfl⟩ := beneath_iff.mp h
      exact ⟨'/' :: tail, rfl, .inr ⟨tail, rfl⟩⟩
  · rintro ⟨rest, rfl, rfl | ⟨tail, rfl⟩⟩
    · exact .inl (List.append_nil _)
    · exact .inr (beneath_append a tail)

/-- A path within `a` seen from another root. -/
def reroot (a b path : RelPath) : RelPath := b ++ path.drop a.length

theorem within_reroot (h : Within a p) : Within b (reroot a b p) := by
  obtain ⟨rest, rfl, hrest⟩ := within_iff.mp h
  rw [reroot, List.drop_left]
  exact within_iff.mpr ⟨rest, rfl, hrest⟩

theorem reroot_self (a b : RelPath) : reroot a b a = b := by simp [reroot]

theorem reroot_inj (hp : Within a p) (hq : Within a q) (h : reroot a b p = reroot a b q) : p = q := by
  obtain ⟨rest, rfl, _⟩ := within_iff.mp hp
  obtain ⟨rest', rfl, _⟩ := within_iff.mp hq
  rw [reroot, reroot, List.drop_left, List.drop_left] at h
  rw [List.append_cancel_left h]

theorem reroot_reroot (h : Within a p) : reroot b a (reroot a b p) = p := by
  obtain ⟨rest, rfl, _⟩ := within_iff.mp h
  simp [reroot]

theorem beneath_reroot (hp : Within a p) (h : Beneath p q) : Beneath (reroot a b p) (reroot a b q) := by
  obtain ⟨rest, rfl, _⟩ := within_iff.mp hp
  obtain ⟨tail, rfl⟩ := beneath_iff.mp h
  refine beneath_iff.mpr ⟨tail, ?_⟩
  simp [reroot]

/-! ### Ancestors -/

/-- The paths above a path, the longest last. -/
def ancestors (path : RelPath) : List RelPath := path.inits.filter fun q => Beneath q path

@[simp] theorem mem_ancestors : q ∈ ancestors p ↔ Beneath q p := by
  unfold ancestors
  rw [List.mem_filter, List.mem_inits, decide_eq_true_iff]
  constructor
  · exact fun h => h.2
  · intro h
    exact ⟨(List.prefix_append _ _).trans h, h⟩

theorem inits_sorted : ∀ l : List Char, l.inits.Pairwise fun a b => a.length < b.length
  | [] => by simp
  | ch :: l => by
    rw [List.inits_cons, List.pairwise_cons]
    refine ⟨by simp, ?_⟩
    rw [List.pairwise_map]
    exact (inits_sorted l).imp fun h => by simpa using h

/-- Each is above those after it. -/
theorem ancestors_sorted (p : RelPath) : (ancestors p).Pairwise Beneath := by
  unfold ancestors
  rw [List.pairwise_filter]
  refine (inits_sorted p).imp fun hlt ha hb => ?_
  rcases (of_decide_eq_true ha).linear (of_decide_eq_true hb) with rfl | hab | hba
  · omega
  · exact hab
  · have hlt' := hba.length_lt
    omega

/-! ### Components -/

/-- `str::split('/')`. -/
def components : RelPath → List (List Char)
  | [] => [[]]
  | ch :: rest =>
    if ch = '/' then [] :: components rest
    else
      match components rest with
      | first :: others => (ch :: first) :: others
      | [] => [[ch]]

theorem components_ne_nil : ∀ p : RelPath, components p ≠ []
  | [] => by simp [components]
  | ch :: rest => by
    unfold components
    split
    · simp
    · split <;> simp

theorem components_of_noSlash : ∀ {name : List Char}, '/' ∉ name → components name = [name]
  | [], _ => rfl
  | ch :: rest, h => by
    rw [List.mem_cons, not_or] at h
    unfold components
    rw [if_neg (Ne.symm h.1), components_of_noSlash h.2]

theorem components_append_slash : ∀ a b : RelPath, components (a ++ '/' :: b) = components a ++ components b
  | [], b => by simp [components]
  | ch :: a, b => by
    rw [List.cons_append, components, components, components_append_slash a b]
    by_cases hslash : ch = '/'
    · simp [hslash]
    · rw [if_neg hslash, if_neg hslash]
      cases hcomponents : components a with
      | nil => exact absurd hcomponents (components_ne_nil a)
      | cons first others => rfl

/-- The characters of the components are those of the path. -/
theorem mem_of_mem_components {ch : Char} {name : List Char} :
    ∀ {p : RelPath}, name ∈ components p → ch ∈ name → ch ∈ p
  | [], hname, hch => by
    rw [components, List.mem_singleton] at hname
    rw [hname] at hch
    exact hch
  | first :: rest, hname, hch => by
    rw [List.mem_cons]
    unfold components at hname
    split at hname
    · rcases List.mem_cons.mp hname with rfl | hname
      · cases hch
      · exact .inr (mem_of_mem_components hname hch)
    · split at hname
      · rename_i others hrest
        rcases List.mem_cons.mp hname with rfl | hname
        · rcases List.mem_cons.mp hch with heq | hch
          · exact .inl heq
          · exact .inr (mem_of_mem_components (by rw [hrest]; exact List.mem_cons_self) hch)
        · exact .inr (mem_of_mem_components (by rw [hrest]; exact List.mem_cons_of_mem _ hname) hch)
      · rename_i hrest
        exact absurd hrest (components_ne_nil rest)

/-- Every character but the `/` is one of a component. -/
theorem mem_components_of_mem {ch : Char} (hslash : ch ≠ '/') :
    ∀ {p : RelPath}, ch ∈ p → ∃ name ∈ components p, ch ∈ name
  | first :: rest, hch => by
    unfold components
    rcases List.mem_cons.mp hch with rfl | hch
    · rw [if_neg hslash]
      cases hrest : components rest with
      | nil => exact absurd hrest (components_ne_nil rest)
      | cons head others => exact ⟨ch :: head, List.mem_cons_self, List.mem_cons_self⟩
    · obtain ⟨name, hname, hin⟩ := mem_components_of_mem hslash hch
      split
      · exact ⟨name, List.mem_cons_of_mem _ hname, hin⟩
      · cases hrest : components rest with
        | nil => exact absurd hrest (components_ne_nil rest)
        | cons head others =>
          rw [hrest] at hname
          rcases List.mem_cons.mp hname with rfl | hname
          · exact ⟨first :: name, List.mem_cons_self, List.mem_cons_of_mem _ hin⟩
          · exact ⟨name, List.mem_cons_of_mem _ hname, hin⟩

/-- A path is its components with `/` between them. -/
theorem intercalate_components : ∀ p : RelPath, ['/'].intercalate (components p) = p
  | [] => rfl
  | ch :: rest => by
    unfold components
    have ih := intercalate_components rest
    cases hrest : components rest with
    | nil => exact absurd hrest (components_ne_nil rest)
    | cons first others =>
      rw [hrest] at ih
      by_cases hslash : ch = '/'
      · rw [if_pos hslash, List.intercalate_cons_cons, ih, hslash]
        rfl
      · rw [if_neg hslash]
        cases others with
        | nil =>
          rw [List.intercalate_singleton] at ih ⊢
          rw [ih]
        | cons next others =>
          rw [List.intercalate_cons_cons] at ih ⊢
          rw [← ih]
          rfl

theorem slash_not_mem_component : ∀ {p : RelPath} {name : List Char}, name ∈ components p → '/' ∉ name
  | [], name, h => by
    rw [components, List.mem_singleton] at h
    simp [h]
  | ch :: rest, name, h => by
    unfold components at h
    by_cases hslash : ch = '/'
    · rw [if_pos hslash] at h
      rcases List.mem_cons.mp h with rfl | h
      · simp
      · exact slash_not_mem_component h
    · rw [if_neg hslash] at h
      cases hrest : components rest with
      | nil => exact absurd hrest (components_ne_nil rest)
      | cons first others =>
        rw [hrest] at h
        have hfirst : '/' ∉ first := slash_not_mem_component (by rw [hrest]; exact List.mem_cons_self)
        rcases List.mem_cons.mp h with rfl | h
        · simp [Ne.symm hslash, hfirst]
        · exact slash_not_mem_component (by rw [hrest]; exact List.mem_cons_of_mem _ h)

/-- `str::split_once('/')`. -/
def splitOnce : List Char → Option (List Char × List Char)
  | [] => none
  | ch :: rest => if ch = '/' then some ([], rest) else (splitOnce rest).map fun (front, back) => (ch :: front, back)

theorem splitOnce_append {front : List Char} (h : '/' ∉ front) (back : List Char) :
    splitOnce (front ++ '/' :: back) = some (front, back) := by
  induction front with
  | nil => simp [splitOnce]
  | cons ch front ih =>
    rw [List.mem_cons, not_or] at h
    rw [List.cons_append, splitOnce, if_neg (Ne.symm h.1), ih h.2]
    rfl

theorem splitOnce_some : ∀ {p front back : List Char}, splitOnce p = some (front, back) →
    '/' ∉ front ∧ p = front ++ '/' :: back
  | [], _, _, h => by simp [splitOnce] at h
  | ch :: rest, front, back, h => by
    unfold splitOnce at h
    by_cases hslash : ch = '/'
    · rw [if_pos hslash] at h
      cases h
      exact ⟨by simp, by rw [hslash]; rfl⟩
    · rw [if_neg hslash] at h
      obtain ⟨⟨front', back'⟩, hrest, heq⟩ := Option.map_eq_some_iff.mp h
      cases heq
      obtain ⟨hfront, rfl⟩ := splitOnce_some hrest
      exact ⟨by simp [Ne.symm hslash, hfront], rfl⟩

/-- The components of a path are among those of what is beneath it. -/
theorem Beneath.components (h : Beneath a b) : ∃ others, RustSync.components b = RustSync.components a ++ others := by
  obtain ⟨rest, rfl⟩ := beneath_iff.mp h
  exact ⟨_, components_append_slash a rest⟩

theorem Within.components (h : Within a b) : ∃ others, RustSync.components b = RustSync.components a ++ others := by
  rcases h with rfl | h
  · exact ⟨[], (List.append_nil _).symm⟩
  · exact h.components

/-- A name put behind a path adds no path above it. -/
theorem beneath_append_of_noSlash {name : List Char} (hname : '/' ∉ name) (h : Beneath a (p ++ name)) :
    Beneath a p := by
  obtain ⟨rest, hrest⟩ := h
  rw [List.append_assoc] at hrest
  rcases List.append_eq_append_iff.mp hrest.symm with ⟨mid, hmid, hname'⟩ | ⟨mid, hmid, hname'⟩
  · -- the `/` would be in the name
    have hslash : '/' ∈ name := by
      rw [hname']
      simp
    exact absurd hslash hname
  · cases mid with
    | nil =>
      have hslash : '/' ∈ name := by
        rw [← List.nil_append name, ← hname']
        simp
      exact absurd hslash hname
    | cons ch mid =>
      rw [List.cons_append] at hname'
      injection hname' with hch _
      rw [hmid, ← hch]
      exact beneath_append a mid

/-! ### The order of texts -/

/-- A text comes no later than those that start with it. -/
theorem compare_ne_gt : ∀ {start x : List Char}, start <+: x → compare start x ≠ .gt
  | [], x, _ => by cases x <;> simp
  | ch :: start, [], h => by simp at h
  | ch :: start, ch' :: x, h => by
    obtain ⟨rfl, hrest⟩ := List.cons_prefix_cons.mp h
    have hle := compare_ne_gt hrest
    rw [List.compare_eq_compareLex] at hle ⊢
    rw [List.compareLex_cons_cons, Std.ReflOrd.compare_self]
    exact hle

/-- The texts that start with `start` stand together in the order of texts. -/
theorem prefix_of_between : ∀ {start x y : List Char}, start <+: y → compare start x ≠ .gt →
    compare x y ≠ .gt → start <+: x
  | [], x, _, _, _, _ => List.nil_prefix
  | ch :: start, [], _, _, hle, _ => absurd rfl hle
  | ch :: start, ch' :: x, y, hy, hle, hle' => by
    obtain ⟨rest, rfl⟩ := hy
    rw [List.compare_eq_compareLex] at hle hle'
    rw [List.cons_append, List.compareLex_cons_cons, Std.OrientedOrd.eq_swap] at hle'
    rw [List.compareLex_cons_cons] at hle
    cases hch : compare ch ch' with
    | lt =>
      rw [hch] at hle'
      exact absurd rfl hle'
    | gt =>
      rw [hch] at hle
      exact absurd rfl hle
    | eq =>
      rw [hch] at hle hle'
      obtain rfl := Std.LawfulEqOrd.eq_of_compare hch
      exact List.cons_prefix_cons.mpr ⟨rfl, prefix_of_between (List.prefix_append _ _) hle hle'⟩

end RustSync
