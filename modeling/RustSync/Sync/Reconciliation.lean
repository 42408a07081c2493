/-
Reconciliation

The planner compares a base, a local and a remote manifest path by path. Where
one side has a directory and the other has not, whole subtrees are compared,
and a conflict there hides what is beneath it. The planner walks the paths in
order and keeps the conflicts it met: it plans the paths that are not beneath
a conflict (`planReconciliation_eq`).

Key definitions: `reconcileEntry`, `subtreesEqual`, `planReconciliation`,
`mergeTextThreeWay`, `StructuralConflict`.
-/
import Mathlib.Order.WellFounded
import RustSync.Sync.Manifest

namespace RustSync

inductive ReconciliationAction where
  | unchanged
  | upload
  | download
  | merge
  | conflict
deriving DecidableEq

structure ReconciliationPath where
  path : RelPath
  action : ReconciliationAction
deriving DecidableEq

structure ReconciliationPlan where
  paths : List ReconciliationPath

def ReconciliationPlan.hasChanges (plan : ReconciliationPlan) : Bool :=
  plan.paths.any fun item => item.action ≠ .unchanged

def reconcileEntry (base loc remote : Option ManifestEntry) : ReconciliationAction :=
  if entriesEqual loc remote then .unchanged
  else if entriesEqual base loc then .download
  else if entriesEqual base remote then .upload
  else
    match loc, remote with
    | some (.file _), some (.file _) => .merge
    | _, _ => .conflict

/-- The paths of the manifests, in order. -/
def unionPaths (ms : List Manifest) : List RelPath :=
  (BTreeSet.ofList (ms.flatMap fun m => m.entries.keys)).toList

def subtreesEqual (left right : Manifest) (root : RelPath) : Bool :=
  ((left.entries.keys ++ right.entries.keys).filter fun path => Within root path).all fun path =>
    entriesEqual (left.get path) (right.get path)

/-- What the loop of the planner carries. -/
structure Planning where
  planned : List ReconciliationPath
  conflictRoots : List RelPath

def Planning.push (s : Planning) (path : RelPath) (action : ReconciliationAction) : Planning :=
  { s with planned := s.planned ++ [⟨path, action⟩] }

section Planner

variable (base loc remote : Manifest)

/-- One path of the loop. -/
def planPath (s : Planning) (path : RelPath) : Planning :=
  if s.conflictRoots.any fun root => Beneath root path then s
  else
    let localEntry := loc.get path
    let remoteEntry := remote.get path
    if isDirectory localEntry ≠ isDirectory remoteEntry then
      if subtreesEqual base loc path then s.push path .download
      else if subtreesEqual base remote path then s.push path .upload
      else { s with conflictRoots := s.conflictRoots ++ [path] }.push path .conflict
    else s.push path (reconcileEntry (base.get path) localEntry remoteEntry)

def planReconciliation : Except ManifestError ReconciliationPlan :=
  if base.workspaceId ≠ loc.workspaceId ∨ base.workspaceId ≠ remote.workspaceId then
    .error (.workspaceIdMismatch loc.workspaceId base.workspaceId)
  else
    .ok ⟨((unionPaths [base, loc, remote]).foldl (planPath base loc remote) ⟨[], []⟩).planned⟩

end Planner

/-! ### Merging text -/

/-- `str::split_inclusive('\n')`. -/
def splitLines : List Char → List (List Char)
  | [] => []
  | ch :: rest =>
    if ch = '\n' then [ch] :: splitLines rest
    else
      match splitLines rest with
      | line :: lines => (ch :: line) :: lines
      | [] => [[ch]]

/-- The changed side of a line, if the sides do not contradict each other. -/
def mergeLine (base loc remote : List Char) : Option (List Char) :=
  match decide (loc ≠ base), decide (remote ≠ base) with
  | false, false => some base
  | true, false => some loc
  | false, true => some remote
  | true, true => if loc = remote then some loc else none

def mergeLines : List (List Char) → List (List Char) → List (List Char) → Option (List (List Char))
  | base :: bases, loc :: locs, remote :: remotes => do
    let line ← mergeLine base loc remote
    let lines ← mergeLines bases locs remotes
    return line :: lines
  | _, _, _ => some []

/-- `std::str::from_utf8`. -/
def fromUtf8 (bytes : Bytes) : Option (List Char) :=
  (String.fromUTF8? ⟨bytes.toArray⟩).map String.toList

def mergeTextThreeWay (base loc remote : Bytes) : Option Bytes := do
  let baseLines := splitLines (← fromUtf8 base)
  let localLines := splitLines (← fromUtf8 loc)
  let remoteLines := splitLines (← fromUtf8 remote)
  if baseLines.length ≠ localLines.length ∨ baseLines.length ≠ remoteLines.length then none
  else
    let merged ← mergeLines baseLines localLines remoteLines
    return utf8 (String.ofList merged.flatten)

/-! ### What the planner looks at -/

/-- A path comes before what is beneath it. -/
theorem Beneath.lt {p q : RelPath} (h : Beneath p q) : compare p q = .lt := by
  obtain ⟨rest, rfl⟩ := beneath_iff.mp h
  clear h
  rw [List.compare_eq_compareLex]
  induction p with
  | nil => exact List.compareLex_nil_cons
  | cons ch p ih =>
    rw [List.cons_append, List.compareLex_cons_cons, Std.LawfulEqOrd.compare_eq_iff_eq.mpr rfl]
    exact ih

theorem mem_unionPaths {ms : List Manifest} {p : RelPath} :
    p ∈ unionPaths ms ↔ ∃ m ∈ ms, m.get p ≠ none := by
  unfold unionPaths
  rw [Std.ExtTreeSet.mem_toList, BTreeSet.mem_ofList, List.mem_flatMap]
  simp only [Std.ExtTreeMap.mem_keys, BTreeMap.mem_iff_lookup, Manifest.get]

theorem unionPaths_sorted (ms : List Manifest) :
    (unionPaths ms).Pairwise fun p q => compare p q = .lt := Std.ExtTreeSet.ordered_toList

theorem subtreesEqual_iff {left right : Manifest} {root : RelPath} :
    subtreesEqual left right root = true ↔
      ∀ p, Within root p → entriesEqual (left.get p) (right.get p) = true := by
  unfold subtreesEqual
  simp only [List.all_eq_true, List.mem_filter, List.mem_append, decide_eq_true_iff]
  constructor
  · intro h p hp
    by_cases hkeys : p ∈ left.entries.keys ∨ p ∈ right.entries.keys
    · exact h p ⟨hkeys, hp⟩
    · rw [Std.ExtTreeMap.mem_keys, Std.ExtTreeMap.mem_keys, not_or] at hkeys
      rw [Manifest.get, Manifest.get, Std.ExtTreeMap.getElem?_eq_none hkeys.1,
        Std.ExtTreeMap.getElem?_eq_none hkeys.2]
      rfl
  · exact fun h p hp => h p hp.2

section Plan

variable (base loc remote : Manifest)

/-- Exactly one side has a directory at the path. -/
def Structural (p : RelPath) : Prop := isDirectory (loc.get p) ≠ isDirectory (remote.get p)

/-- Exactly one side has a directory, and both sides changed the subtree. -/
def StructuralConflict (p : RelPath) : Prop :=
  Structural loc remote p ∧ subtreesEqual base loc p = false ∧ subtreesEqual base remote p = false

instance (p : RelPath) : Decidable (StructuralConflict base loc remote p) :=
  inferInstanceAs (Decidable (isDirectory (loc.get p) ≠ isDirectory (remote.get p) ∧ _ ∧ _))

/-- Beneath a structural conflict. -/
def Hidden (p : RelPath) : Prop := ∃ q ∈ ancestors p, StructuralConflict base loc remote q

instance (p : RelPath) : Decidable (Hidden base loc remote p) :=
  inferInstanceAs (Decidable (∃ q ∈ ancestors p, _))

/-- The action of a path, wherever it is. -/
def actionOf (p : RelPath) : ReconciliationAction :=
  if isDirectory (loc.get p) ≠ isDirectory (remote.get p) then
    if subtreesEqual base loc p then .download
    else if subtreesEqual base remote p then .upload
    else .conflict
  else reconcileEntry (base.get p) (loc.get p) (remote.get p)

variable {base loc remote} {p q : RelPath}

theorem hidden_iff : Hidden base loc remote p ↔ ∃ q, Beneath q p ∧ StructuralConflict base loc remote q := by
  simp [Hidden]

theorem Hidden.beneath (h : Hidden base loc remote p) (hpq : Within p q) : Hidden base loc remote q := by
  obtain ⟨r, hr, hconflict⟩ := hidden_iff.mp h
  exact hidden_iff.mpr ⟨r, hr.trans_within hpq, hconflict⟩

/-- Some structural conflict above a hidden path is not hidden itself. -/
theorem Hidden.root (h : Hidden base loc remote p) :
    ∃ q, Beneath q p ∧ StructuralConflict base loc remote q ∧ ¬ Hidden base loc remote q := by
  obtain ⟨q, hq, hmin⟩ := WellFounded.has_min (measure (List.length (α := Char))).wf
    {q | Beneath q p ∧ StructuralConflict base loc remote q} (hidden_iff.mp h)
  refine ⟨q, hq.1, hq.2, fun hhidden => ?_⟩
  obtain ⟨r, hr, hconflict⟩ := hidden_iff.mp hhidden
  exact hmin r ⟨hr.trans hq.1, hconflict⟩ hr.length_lt

/-- A conflict of subtrees is at a path of the manifests. -/
theorem StructuralConflict.mem (h : StructuralConflict base loc remote p) :
    p ∈ unionPaths [base, loc, remote] := by
  rw [mem_unionPaths]
  by_contra hnone
  have hloc : loc.get p = none := by
    by_contra hsome
    exact hnone ⟨loc, by simp, hsome⟩
  have hremote : remote.get p = none := by
    by_contra hsome
    exact hnone ⟨remote, by simp, hsome⟩
  have hdir := h.1
  rw [Structural, hloc, hremote] at hdir
  exact hdir rfl

/-- What the loop carries after the paths before `p`. -/
theorem planPath_foldl {before : List RelPath} : ∀ {after : List RelPath},
    unionPaths [base, loc, remote] = before ++ after →
    before.foldl (planPath base loc remote) ⟨[], []⟩ =
      ⟨(before.filter fun p => ¬ Hidden base loc remote p).map fun p => ⟨p, actionOf base loc remote p⟩,
        before.filter fun p => ¬ Hidden base loc remote p ∧ StructuralConflict base loc remote p⟩ := by
  induction before using List.reverseRecOn with
  | nil => exact fun _ => rfl
  | append_singleton before p ih =>
    intro after hpaths
    rw [List.append_assoc] at hpaths
    rw [List.foldl_append, ih hpaths, List.foldl_cons, List.foldl_nil, List.filter_append,
      List.filter_append, List.map_append]
    have hsorted := unionPaths_sorted [base, loc, remote]
    rw [hpaths] at hsorted
    -- the roots met so far are those above the path
    have hroots : (before.filter fun p => ¬ Hidden base loc remote p ∧
        StructuralConflict base loc remote p).any (fun root => Beneath root p) =
          decide (Hidden base loc remote p) := by
      rw [Bool.eq_iff_iff, List.any_eq_true, decide_eq_true_iff]
      constructor
      · rintro ⟨q, hq, hqp⟩
        obtain ⟨_, hq⟩ := List.mem_filter.mp hq
        have hq := of_decide_eq_true hq
        exact hidden_iff.mpr ⟨q, of_decide_eq_true hqp, hq.2⟩
      · intro hhidden
        obtain ⟨q, hqp, hconflict, hnot⟩ := hhidden.root
        have hmem := hconflict.mem
        rw [hpaths, List.mem_append] at hmem
        have hbefore : q ∈ before := by
          rcases hmem with hmem | hmem
          · exact hmem
          · have hlt := hqp.lt
            rw [List.singleton_append, List.mem_cons] at hmem
            rcases hmem with rfl | hafter
            · exact absurd hqp (not_beneath_self _)
            · have hrest := (List.pairwise_append.mp hsorted).2.1
              rw [List.singleton_append] at hrest
              have hgt := List.rel_of_pairwise_cons hrest hafter
              rw [Std.OrientedOrd.eq_swap, hgt] at hlt
              cases hlt
        exact ⟨q, List.mem_filter.mpr ⟨hbefore, decide_eq_true ⟨hnot, hconflict⟩⟩, decide_eq_true hqp⟩
    unfold planPath
    simp only [hroots, decide_eq_true_eq]
    by_cases hhidden : Hidden base loc remote p
    · simp [hhidden]
    · rw [if_neg hhidden]
      by_cases hstructural : isDirectory (loc.get p) ≠ isDirectory (remote.get p)
      · by_cases hdown : subtreesEqual base loc p = true
        · simp [hhidden, hstructural, hdown, Planning.push, actionOf, StructuralConflict]
        · by_cases hup : subtreesEqual base remote p = true
          · simp [hhidden, hstructural, hdown, hup, Planning.push, actionOf, StructuralConflict]
          · simp [hhidden, hstructural, hdown, hup, Planning.push, actionOf, StructuralConflict, Structural]
      · simp [hhidden, hstructural, Planning.push, actionOf, StructuralConflict, Structural]

/-- The planner plans the paths that are not beneath a structural conflict,
in order. -/
theorem planReconciliation_eq {plan : ReconciliationPlan} (h : planReconciliation base loc remote = .ok plan) :
    plan.paths = ((unionPaths [base, loc, remote]).filter fun p => ¬ Hidden base loc remote p).map
      fun p => ⟨p, actionOf base loc remote p⟩ := by
  unfold planReconciliation at h
  split at h
  · cases h
  · cases h
    rw [planPath_foldl (List.append_nil _).symm]

theorem mem_plan {plan : ReconciliationPlan} (h : planReconciliation base loc remote = .ok plan)
    {item : ReconciliationPath} : item ∈ plan.paths ↔ item.path ∈ unionPaths [base, loc, remote] ∧
      ¬ Hidden base loc remote item.path ∧ item.action = actionOf base loc remote item.path := by
  rw [planReconciliation_eq h, List.mem_map]
  constructor
  · rintro ⟨p, hp, rfl⟩
    obtain ⟨hmem, hhidden⟩ := List.mem_filter.mp hp
    exact ⟨hmem, of_decide_eq_true hhidden, rfl⟩
  · rintro ⟨hmem, hhidden, haction⟩
    refine ⟨item.path, List.mem_filter.mpr ⟨hmem, decide_eq_true hhidden⟩, ?_⟩
    rw [← haction]

end Plan

end RustSync
