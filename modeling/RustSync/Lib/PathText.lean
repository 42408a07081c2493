/-
Paths as text

`PathBuf::join` puts a path behind another, or in its place when it is
absolute. Read component by component, `.` stays where it is and `..` goes one
up (`resolvePath`); a name goes one down. A relative path stands for the one
behind the working directory, and nothing is above the topmost directory.

Key definitions: `pathJoin`, `resolvePath`, `PlainName`.
-/
import RustSync.Lib.Path

namespace RustSync

/-- `Path::join`. -/
def pathJoin (path other : List Char) : List Char :=
  if other.head? = some '/' then other
  else if path = [] ∨ path.getLast? = some '/' then path ++ other
  else path ++ '/' :: other

/-- Where a component leads from a directory. -/
def resolveStep (dir : List (List Char)) (component : List Char) : List (List Char) :=
  if component = [] ∨ component = ['.'] then dir
  else if component = ['.', '.'] then dir.dropLast
  else dir ++ [component]

/-- The names from the topmost directory to where a path leads. -/
def resolvePath (path : List Char) : List (List Char) := (components path).foldl resolveStep []

/-- A single component that leads down. -/
structure PlainName (name : List Char) : Prop where
  noSlash : '/' ∉ name
  ne_nil : name ≠ []
  ne_dot : name ≠ ['.']
  ne_dots : name ≠ ['.', '.']

theorem plainName_iff {name : List Char} :
    PlainName name ↔ '/' ∉ name ∧ name ≠ [] ∧ name ≠ ['.'] ∧ name ≠ ['.', '.'] :=
  ⟨fun h => ⟨h.noSlash, h.ne_nil, h.ne_dot, h.ne_dots⟩, fun h => ⟨h.1, h.2.1, h.2.2.1, h.2.2.2⟩⟩

instance (name : List Char) : Decidable (PlainName name) := decidable_of_iff _ plainName_iff.symm

section Resolve

variable {path name : List Char}

/-- Names without dots lead down, and so do long ones. -/
theorem PlainName.of_noDot (hne : name ≠ []) (hslash : '/' ∉ name) (hdot : '.' ∉ name) : PlainName name where
  noSlash := hslash
  ne_nil := hne
  ne_dot := by
    rintro rfl
    exact hdot (by simp)
  ne_dots := by
    rintro rfl
    exact hdot (by simp)

theorem PlainName.of_length (hlen : 3 ≤ name.length) (hslash : '/' ∉ name) : PlainName name where
  noSlash := hslash
  ne_nil := by
    rintro rfl
    simp at hlen
  ne_dot := by
    rintro rfl
    simp at hlen
  ne_dots := by
    rintro rfl
    simp at hlen

/-- A relative path is read from where it is put. -/
theorem resolve_join_relative {other : List Char} (hrelative : other.head? ≠ some '/') :
    resolvePath (pathJoin path other) = (components other).foldl resolveStep (resolvePath path) := by
  unfold pathJoin resolvePath
  rw [if_neg hrelative]
  by_cases hend : path = [] ∨ path.getLast? = some '/'
  · rw [if_pos hend]
    rcases hend with rfl | hslash
    · rw [List.nil_append]
      rfl
    · obtain ⟨front, rfl⟩ := List.getLast?_eq_some_iff.mp hslash
      -- nothing stands behind the last `/`
      have hrest : components (front ++ ['/']) = components front ++ [[]] := components_append_slash front []
      rw [List.append_assoc, List.singleton_append, components_append_slash, hrest, List.foldl_append,
        List.foldl_append]
      rfl
  · rw [if_neg hend, components_append_slash, List.foldl_append]

/-- A name behind a path is read after it. -/
theorem resolve_join (hname : '/' ∉ name) : resolvePath (pathJoin path name) = resolveStep (resolvePath path) name := by
  have hrelative : name.head? ≠ some '/' := fun h => hname (List.mem_of_mem_head? h)
  rw [resolve_join_relative hrelative, components_of_noSlash hname]
  rfl

theorem resolveStep_plain (dir : List (List Char)) (h : PlainName name) : resolveStep dir name = dir ++ [name] := by
  unfold resolveStep
  rw [if_neg (by simp [h.ne_nil, h.ne_dot]), if_neg h.ne_dots]

theorem foldl_resolveStep_plain : ∀ {names dir : List (List Char)}, (∀ name ∈ names, PlainName name) →
    names.foldl resolveStep dir = dir ++ names
  | [], dir, _ => by rw [List.foldl_nil, List.append_nil]
  | name :: names, dir, h => by
    rw [List.foldl_cons, resolveStep_plain dir (h name List.mem_cons_self),
      foldl_resolveStep_plain fun other hother => h other (List.mem_cons_of_mem _ hother), List.append_assoc,
      List.singleton_append]

theorem resolve_join_plain (h : PlainName name) : resolvePath (pathJoin path name) = resolvePath path ++ [name] := by
  rw [resolve_join h.noSlash, resolveStep_plain _ h]

theorem resolve_join_dot : resolvePath (pathJoin path ['.']) = resolvePath path := resolve_join (by simp)

theorem resolve_join_dots : resolvePath (pathJoin path ['.', '.']) = (resolvePath path).dropLast :=
    resolve_join (by simp)

end Resolve

end RustSync
