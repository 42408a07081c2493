/-
File trees

The files and directories below a root, by their paths. A tree is closed:
everything above a node is a directory, so a file has nothing beneath it.
There are two ways to change a tree, one node at a time: to put a node where
its parents are directories and nothing is beneath, and to remove a node that
has nothing beneath. Both keep the tree closed.

Key definitions: `Node`, `FileTree`, `FileTree.put`, `FileTree.remove`.
-/
import RustSync.Lib.BTreeMap
import RustSync.Lib.Path

namespace RustSync

/-- A file with its content, a directory, or anything else. -/
inductive Node (φ : Type) where
  | file (content : φ)
  | directory
  | other
deriving DecidableEq

def Node.map {φ ψ : Type} (f : φ → ψ) : Node φ → Node ψ
  | .file content => .file (f content)
  | .directory => .directory
  | .other => .other

def Node.isDir {φ : Type} : Node φ → Bool
  | .directory => true
  | _ => false

/-- A component that may be a name. -/
def isName (component : List Char) : Bool :=
  component ≠ [] ∧ component ≠ ['.'] ∧ component ≠ ['.', '.'] ∧ '\x00' ∉ component

/-- The path is one of names. -/
def Proper (p : RelPath) : Prop := (components p).all isName = true

instance (p : RelPath) : Decidable (Proper p) := inferInstanceAs (Decidable (_ = true))

theorem Proper.above {p q : RelPath} (hq : Proper q) (hpq : Within p q) : Proper p := by
  obtain ⟨others, hothers⟩ := hpq.components
  unfold Proper at hq ⊢
  rw [hothers, List.all_append, Bool.and_eq_true] at hq
  exact hq.1

theorem proper_ne_nil {p : RelPath} (h : Proper p) : p ≠ [] := by
  rintro rfl
  revert h
  decide

structure FileTree (φ : Type) where
  nodes : BTreeMap RelPath (Node φ)
  closed : ∀ (p : RelPath) (n : Node φ), nodes[p]? = some n → ∀ q : RelPath, Beneath q p →
    nodes[q]? = some .directory
  proper : ∀ (p : RelPath) (n : Node φ), nodes[p]? = some n → Proper p

namespace FileTree

variable {φ : Type}

def get (t : FileTree φ) (p : RelPath) : Option (Node φ) := t.nodes[p]?

def isDirectory (t : FileTree φ) (p : RelPath) : Bool := (t.get p).any Node.isDir

/-- The tree of a root with nothing in it. -/
def empty : FileTree φ := ⟨∅, by simp, by simp⟩

/-- There is something beneath the path. -/
def occupied (t : FileTree φ) (p : RelPath) : Bool := t.nodes.keys.any fun q => Beneath p q

variable {t t' : FileTree φ} {p q : RelPath} {n : Node φ}

@[simp] theorem isDirectory_iff : t.isDirectory p = true ↔ t.get p = some .directory := by
  unfold isDirectory
  rcases t.get p with _ | _ | _ | _ <;> simp [Node.isDir]

theorem ext_get (h : ∀ p, t.get p = t'.get p) : t = t' := by
  cases t
  cases t'
  simp only [mk.injEq]
  exact BTreeMap.ext_lookup h

theorem mem_keys : p ∈ t.nodes.keys ↔ t.get p ≠ none := Std.ExtTreeMap.mem_keys.trans BTreeMap.mem_iff_lookup

theorem get_above (hp : t.get p = some n) (hq : Beneath q p) : t.get q = some .directory := t.closed p n hp q hq

theorem get_beneath (hp : t.get p ≠ some .directory) (hq : Beneath p q) : t.get q = none := by
  by_contra hsome
  obtain ⟨n, hn⟩ := Option.ne_none_iff_exists'.mp hsome
  exact hp (t.get_above hn hq)

theorem occupied_iff : t.occupied p = true ↔ ∃ q, Beneath p q ∧ t.get q ≠ none := by
  unfold occupied
  rw [List.any_eq_true]
  constructor
  · rintro ⟨q, hq, hbeneath⟩
    exact ⟨q, of_decide_eq_true hbeneath, mem_keys.mp hq⟩
  · rintro ⟨q, hbeneath, hq⟩
    exact ⟨q, mem_keys.mpr hq, decide_eq_true hbeneath⟩

theorem not_occupied_iff : t.occupied p = false ↔ ∀ q, Beneath p q → t.get q = none := by
  rw [← Bool.not_eq_true, occupied_iff]
  push Not
  rfl

/-- Put a node where it may stand. -/
def put (t : FileTree φ) (p : RelPath) (n : Node φ) : Option (FileTree φ) :=
  if h : Proper p ∧ (∀ q ∈ ancestors p, t.isDirectory q = true) ∧ t.occupied p = false then
    some {
      nodes := t.nodes.insert p n
      closed := by
        obtain ⟨_, habove, hfree⟩ := h
        intro r m hr q hq
        rw [BTreeMap.lookup_insert] at hr ⊢
        by_cases hpq : p = q
        · -- nothing is beneath the new node
          subst hpq
          have hne : p ≠ r := fun heq => hq.ne heq.symm
          rw [if_neg hne] at hr
          have hnone : t.nodes[r]? = none := not_occupied_iff.mp hfree r hq
          rw [hnone] at hr
          cases hr
        · rw [if_neg hpq]
          by_cases hpr : p = r
          · subst hpr
            exact isDirectory_iff.mp (habove q (mem_ancestors.mpr hq))
          · rw [if_neg hpr] at hr
            exact t.closed r m hr q hq
      proper := by
        intro r m hr
        rw [BTreeMap.lookup_insert] at hr
        by_cases hpr : p = r
        · rw [← hpr]
          exact h.1
        · rw [if_neg hpr] at hr
          exact t.proper r m hr }
  else none

/-- Remove a node that has nothing beneath it. -/
def remove (t : FileTree φ) (p : RelPath) : Option (FileTree φ) :=
  if h : t.occupied p = false then
    some {
      nodes := t.nodes.erase p
      closed := by
        intro r m hr q hq
        rw [BTreeMap.lookup_erase] at hr ⊢
        have hpr : p ≠ r := by
          rintro rfl
          simp at hr
        rw [if_neg hpr] at hr
        have hpq : p ≠ q := by
          rintro rfl
          have hnone : t.nodes[r]? = none := not_occupied_iff.mp h r hq
          rw [hnone] at hr
          cases hr
        rw [if_neg hpq]
        exact t.closed r m hr q hq
      proper := by
        intro r m hr
        rw [BTreeMap.lookup_erase] at hr
        by_cases hpr : p = r
        · rw [if_pos hpr] at hr
          cases hr
        · rw [if_neg hpr] at hr
          exact t.proper r m hr }
  else none

theorem get_put (h : t.put p n = some t') : t'.get q = if p = q then some n else t.get q := by
  unfold put at h
  split at h
  · cases h
    exact BTreeMap.lookup_insert
  · cases h

theorem put_isSome (hp : Proper p) (habove : ∀ q, Beneath q p → t.get q = some .directory)
    (hfree : ∀ q, Beneath p q → t.get q = none) : ∃ t', t.put p n = some t' := by
  unfold put
  rw [dif_pos ⟨hp, fun q hq => isDirectory_iff.mpr (habove q (mem_ancestors.mp hq)), not_occupied_iff.mpr hfree⟩]
  exact ⟨_, rfl⟩

theorem get_remove (h : t.remove p = some t') : t'.get q = if p = q then none else t.get q := by
  unfold remove at h
  split at h
  · cases h
    exact BTreeMap.lookup_erase
  · cases h

theorem remove_isSome (hfree : ∀ q, Beneath p q → t.get q = none) : ∃ t', t.remove p = some t' := by
  unfold remove
  rw [dif_pos (not_occupied_iff.mpr hfree)]
  exact ⟨_, rfl⟩

theorem remove_spec (h : t.remove p = some t') : ∀ q, Beneath p q → t.get q = none := by
  unfold remove at h
  split at h
  · rename_i hfree
    exact not_occupied_iff.mp hfree
  · cases h

end FileTree

end RustSync
