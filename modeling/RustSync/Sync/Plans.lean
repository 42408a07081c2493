/-
What a plan says

Every path of the three manifests is planned once, in order, unless it is
beneath a structural conflict of the plan, where nothing is planned; and a plan
without a change is one of two sides without a difference. The planner favours
no side: with the sides exchanged it plans the same paths, with uploads for
downloads (`plan_mirrored`).

Key definitions: `Planned`, `StructuralRoot`, `ReconciliationPath.mirrored`.
-/
import RustSync.Sync.Reconciliation

namespace RustSync

/-! ### What is planned -/

/-- The paths of the plan, in the order of the plan. -/
def ReconciliationPlan.order (plan : ReconciliationPlan) : List RelPath := plan.paths.map (·.path)

/-- The plan has a conflict at a path where exactly one side has a directory. -/
def StructuralRoot (loc remote : Manifest) (plan : ReconciliationPlan) (p : RelPath) : Prop :=
  ⟨p, .conflict⟩ ∈ plan.paths ∧ Structural loc remote p

section Planned

variable {base loc remote : Manifest} {plan : ReconciliationPlan} {p q : RelPath}

theorem mem_unionPaths_three : p ∈ unionPaths [base, loc, remote] ↔
    base.get p ≠ none ∨ loc.get p ≠ none ∨ remote.get p ≠ none := by
  rw [mem_unionPaths]
  simp

theorem planReconciliation_ok (hloc : base.workspaceId = loc.workspaceId)
    (hremote : base.workspaceId = remote.workspaceId) :
    ∃ plan, planReconciliation base loc remote = .ok plan := by
  unfold planReconciliation
  rw [if_neg (by simp [← hloc, ← hremote])]
  exact ⟨_, rfl⟩

theorem order_eq (h : planReconciliation base loc remote = .ok plan) :
    plan.order = (unionPaths [base, loc, remote]).filter fun p => ¬ Hidden base loc remote p := by
  unfold ReconciliationPlan.order
  rw [planReconciliation_eq h, List.map_map]
  exact List.map_id _

theorem mem_order (h : planReconciliation base loc remote = .ok plan) :
    p ∈ plan.order ↔ p ∈ unionPaths [base, loc, remote] ∧ ¬ Hidden base loc remote p := by
  rw [order_eq h, List.mem_filter, decide_eq_true_iff]

theorem order_sorted (h : planReconciliation base loc remote = .ok plan) :
    plan.order.Pairwise fun p q => compare p q = .lt := by
  rw [order_eq h]
  exact (unionPaths_sorted _).filter _

theorem order_nodup (h : planReconciliation base loc remote = .ok plan) : plan.order.Nodup := by
  refine (order_sorted h).imp fun {p q} hlt heq => ?_
  rw [heq, Std.LawfulEqOrd.compare_eq_iff_eq.mpr rfl] at hlt
  cases hlt

/-- Where exactly one side has a directory, the subtrees decide. -/
theorem actionOf_structural (h : Structural loc remote p) : actionOf base loc remote p =
    if subtreesEqual base loc p then .download
    else if subtreesEqual base remote p then .upload
    else .conflict := if_pos h

theorem actionOf_level (h : ¬ Structural loc remote p) : actionOf base loc remote p =
    reconcileEntry (base.get p) (loc.get p) (remote.get p) := if_neg h

theorem actionOf_conflict (h : Structural loc remote p) : actionOf base loc remote p = .conflict ↔
    StructuralConflict base loc remote p := by
  rw [actionOf_structural h, StructuralConflict]
  by_cases hdown : subtreesEqual base loc p = true
  · simp [hdown]
  · by_cases hup : subtreesEqual base remote p = true
    · simp [hdown, hup]
    · simp [hdown, hup, h]

/-- The conflicts of the plan where one side has a directory are the structural
conflicts that are not beneath another. -/
theorem structuralRoot_iff (h : planReconciliation base loc remote = .ok plan) :
    StructuralRoot loc remote plan p ↔
      StructuralConflict base loc remote p ∧ ¬ Hidden base loc remote p := by
  unfold StructuralRoot
  rw [mem_plan h]
  constructor
  · rintro ⟨⟨_, hhidden, haction⟩, hstructural⟩
    exact ⟨(actionOf_conflict hstructural).mp haction.symm, hhidden⟩
  · rintro ⟨hconflict, hhidden⟩
    have haction := (actionOf_conflict hconflict.1).mpr hconflict
    exact ⟨⟨hconflict.mem, hhidden, haction.symm⟩, hconflict.1⟩

/-- A path is hidden when it is beneath a structural conflict of the plan. -/
theorem hidden_iff_root (h : planReconciliation base loc remote = .ok plan) :
    Hidden base loc remote p ↔ ∃ q, Beneath q p ∧ StructuralRoot loc remote plan q := by
  constructor
  · intro hhidden
    obtain ⟨q, hqp, hconflict, hnot⟩ := hhidden.root
    exact ⟨q, hqp, (structuralRoot_iff h).mpr ⟨hconflict, hnot⟩⟩
  · rintro ⟨q, hqp, hroot⟩
    exact hidden_iff.mpr ⟨q, hqp, ((structuralRoot_iff h).mp hroot).1⟩

/-! ### Plans without a change -/

theorem reconcileEntry_unchanged {x y z : Option ManifestEntry} :
    reconcileEntry x y z = .unchanged ↔ entriesEqual y z = true := by
  unfold reconcileEntry
  by_cases hequal : entriesEqual y z = true
  · simp [hequal]
  · rw [if_neg hequal]
    by_cases hdown : entriesEqual x y = true
    · simp [hdown, hequal]
    · by_cases hup : entriesEqual x z = true
      · simp [hdown, hup, hequal]
      · rw [if_neg hdown, if_neg hup]
        split <;> simp [hequal]

/-- Where nothing is to be done, the sides have the same entry. -/
theorem actionOf_unchanged : actionOf base loc remote p = .unchanged ↔
    entriesEqual (loc.get p) (remote.get p) = true := by
  by_cases hstructural : Structural loc remote p
  · have hdiffer : entriesEqual (loc.get p) (remote.get p) ≠ true :=
      fun hequal => hstructural (isDirectory_congr hequal)
    rw [actionOf_structural hstructural]
    by_cases hdown : subtreesEqual base loc p = true
    · simp [hdown, hdiffer]
    · by_cases hup : subtreesEqual base remote p = true
      · simp [hdown, hup, hdiffer]
      · simp [hdown, hup, hdiffer]
  · rw [actionOf_level hstructural, reconcileEntry_unchanged]

theorem hasChanges_false {plan : ReconciliationPlan} :
    plan.hasChanges = false ↔ ∀ item ∈ plan.paths, item.action = .unchanged := by
  unfold ReconciliationPlan.hasChanges
  simp

/-- The plan has no change exactly when the sides have the same entries. -/
theorem hasChanges_iff_agree (h : planReconciliation base loc remote = .ok plan) :
    plan.hasChanges = false ↔ loc.Agree remote := by
  rw [hasChanges_false]
  constructor
  · intro hsame p
    have hshown : ¬ Hidden base loc remote p := by
      intro hhidden
      obtain ⟨q, _, hroot⟩ := (hidden_iff_root h).mp hhidden
      have hconflict := hsame _ hroot.1
      cases hconflict
    by_cases hmem : p ∈ unionPaths [base, loc, remote]
    · have hitem : ⟨p, actionOf base loc remote p⟩ ∈ plan.paths := (mem_plan h).mpr ⟨hmem, hshown, rfl⟩
      exact actionOf_unchanged.mp (hsame _ hitem)
    · rw [mem_unionPaths_three] at hmem
      push Not at hmem
      rw [hmem.2.1, hmem.2.2]
      rfl
  · intro hagree item hitem
    obtain ⟨_, _, haction⟩ := (mem_plan h).mp hitem
    rw [haction]
    exact actionOf_unchanged.mpr (hagree item.path)

/-- Every path is planned once, in order, or is beneath a structural conflict
of the plan; and the plan has a change when the sides have a difference. -/
theorem plan_covers (hloc : base.workspaceId = loc.workspaceId)
    (hremote : base.workspaceId = remote.workspaceId) :
    ∃ plan, planReconciliation base loc remote = .ok plan ∧
      plan.order.Pairwise (fun p q => compare p q = .lt) ∧
      (∀ p ∈ plan.order, base.get p ≠ none ∨ loc.get p ≠ none ∨ remote.get p ≠ none) ∧
      (∀ p, base.get p ≠ none ∨ loc.get p ≠ none ∨ remote.get p ≠ none →
        plan.order.count p = 1 ∨ ∃ q, Beneath q p ∧ StructuralRoot loc remote plan q) ∧
      (∀ p ∈ plan.order, ¬ ∃ q, Beneath q p ∧ StructuralRoot loc remote plan q) ∧
      (plan.hasChanges = false ↔ diffManifests loc remote = []) := by
  obtain ⟨plan, h⟩ := planReconciliation_ok hloc hremote
  refine ⟨plan, h, order_sorted h, fun p hp => ?_, fun p hp => ?_, fun p hp hroot => ?_, ?_⟩
  · exact mem_unionPaths_three.mp ((mem_order h).mp hp).1
  · by_cases hhidden : Hidden base loc remote p
    · exact .inr ((hidden_iff_root h).mp hhidden)
    · have hmem := (mem_order h).mpr ⟨mem_unionPaths_three.mpr hp, hhidden⟩
      exact .inl (List.count_eq_one_of_mem (order_nodup h) hmem)
  · exact ((mem_order h).mp hp).2 ((hidden_iff_root h).mpr hroot)
  · rw [hasChanges_iff_agree h, diffManifests_eq_nil]

end Planned

/-! ### A file that became a directory

The other side changed the file, and has another file beside it. -/

section Sample

def swappedBase : Manifest := manifestOf [("a", .ofFile 1 "11" ⟨0⟩)]

def swappedLocal : Manifest := manifestOf [("a", .directory), ("a/b", .ofFile 2 "22" ⟨0⟩)]

def swappedRemote : Manifest := manifestOf [("a", .ofFile 3 "33" ⟨0⟩), ("a.b", .ofFile 1 "11" ⟨0⟩)]

-- `a/b` is beneath the conflict at `a`, and `a.b` between them is not
example : (planReconciliation swappedBase swappedLocal swappedRemote).toOption.map ReconciliationPlan.paths =
    some [⟨['a'], .conflict⟩, ⟨['a', '.', 'b'], .download⟩] := by
  decide +kernel

theorem swapped_covers : ∃ plan, planReconciliation swappedBase swappedLocal swappedRemote = .ok plan ∧
    plan.order.Pairwise (fun p q => compare p q = .lt) ∧
    (plan.hasChanges = false ↔ diffManifests swappedLocal swappedRemote = []) := by
  obtain ⟨plan, h, hsorted, _, _, _, hchanges⟩ := @plan_covers swappedBase swappedLocal swappedRemote rfl rfl
  exact ⟨plan, h, hsorted, hchanges⟩

end Sample

/-! ### The sides exchanged -/

/-- What the other side does. -/
def ReconciliationAction.mirrored : ReconciliationAction → ReconciliationAction
  | .upload => .download
  | .download => .upload
  | action => action

def ReconciliationPath.mirrored (item : ReconciliationPath) : ReconciliationPath :=
  ⟨item.path, item.action.mirrored⟩

section Mirrored

variable {base loc remote : Manifest} {plan : ReconciliationPlan} {p q : RelPath}

theorem unionPaths_mirrored : unionPaths [base, remote, loc] = unionPaths [base, loc, remote] := by
  have hset : BTreeSet.ofList ([base, remote, loc].flatMap fun m => m.entries.keys) =
      BTreeSet.ofList ([base, loc, remote].flatMap fun m => m.entries.keys) := by
    apply Std.ExtTreeSet.ext_mem
    intro p
    rw [BTreeSet.mem_ofList, BTreeSet.mem_ofList]
    simp only [List.mem_flatMap, List.mem_cons, List.not_mem_nil, or_false, exists_eq_or_imp, exists_eq_left]
    tauto
  rw [unionPaths, hset, unionPaths]

theorem structural_mirrored : Structural remote loc p ↔ Structural loc remote p := ne_comm

theorem structuralConflict_mirrored :
    StructuralConflict base remote loc p ↔ StructuralConflict base loc remote p := by
  unfold StructuralConflict
  rw [structural_mirrored]
  tauto

theorem hidden_mirrored : Hidden base remote loc p ↔ Hidden base loc remote p := by
  unfold Hidden
  simp only [structuralConflict_mirrored]

/-- The sides are not both unchanged where exactly one has a directory. -/
theorem Structural.changed (h : Structural loc remote p) (hdown : subtreesEqual base loc p = true)
    (hup : subtreesEqual base remote p = true) : False := by
  have hloc := subtreesEqual_iff.mp hdown p (within_self p)
  have hremote := subtreesEqual_iff.mp hup p (within_self p)
  apply h
  rw [← isDirectory_congr hloc, isDirectory_congr hremote]

theorem reconcileEntry_mirrored (x y z : Option ManifestEntry) :
    reconcileEntry x z y = (reconcileEntry x y z).mirrored := by
  unfold reconcileEntry
  rw [entriesEqual_comm z y]
  by_cases hequal : entriesEqual y z = true
  · rw [if_pos hequal, if_pos hequal]
    rfl
  · rw [if_neg hequal, if_neg hequal]
    by_cases hdown : entriesEqual x y = true
    · -- the base is not like both sides
      have hup : ¬ entriesEqual x z = true := by
        rw [entriesEqual_congr hdown]
        exact hequal
      rw [if_neg hup, if_pos hdown, if_pos hdown]
      rfl
    · rw [if_neg hdown, if_neg hdown]
      by_cases hup : entriesEqual x z = true
      · rw [if_pos hup, if_pos hup]
        rfl
      · rw [if_neg hup, if_neg hup]
        rcases y with _ | _ | _ <;> rcases z with _ | _ | _ <;> rfl

theorem actionOf_mirrored : actionOf base remote loc p = (actionOf base loc remote p).mirrored := by
  by_cases hstructural : Structural loc remote p
  · rw [actionOf_structural hstructural, actionOf_structural (structural_mirrored.mpr hstructural)]
    by_cases hdown : subtreesEqual base loc p = true
    · have hup : ¬ subtreesEqual base remote p = true := hstructural.changed hdown
      rw [if_pos hdown, if_neg hup, if_pos hdown]
      rfl
    · rw [if_neg hdown, if_neg hdown]
      by_cases hup : subtreesEqual base remote p = true
      · rw [if_pos hup, if_pos hup]
        rfl
      · rw [if_neg hup, if_neg hup]
        rfl
  · rw [actionOf_level hstructural, actionOf_level fun h => hstructural (structural_mirrored.mp h)]
    exact reconcileEntry_mirrored _ _ _

/-- With the sides exchanged, the plan has the same paths in the same order,
with uploads for downloads. -/
theorem plan_mirrored (hloc : base.workspaceId = loc.workspaceId)
    (hremote : base.workspaceId = remote.workspaceId) :
    ∃ plan, planReconciliation base loc remote = .ok plan ∧
      planReconciliation base remote loc = .ok ⟨plan.paths.map ReconciliationPath.mirrored⟩ := by
  obtain ⟨plan, h⟩ := planReconciliation_ok hloc hremote
  obtain ⟨⟨paths⟩, h'⟩ := planReconciliation_ok hremote hloc
  refine ⟨plan, h, ?_⟩
  have hshown : ((unionPaths [base, remote, loc]).filter fun p => ¬ Hidden base remote loc p) =
      (unionPaths [base, loc, remote]).filter fun p => ¬ Hidden base loc remote p := by
    rw [unionPaths_mirrored]
    apply List.filter_congr
    intro p _
    rw [decide_eq_decide, hidden_mirrored]
  have hpaths : paths = plan.paths.map ReconciliationPath.mirrored := by
    rw [planReconciliation_eq h, List.map_map, ← hshown]
    refine (planReconciliation_eq h').trans (List.map_congr_left ?_)
    intro p _
    rw [actionOf_mirrored]
    rfl
  rw [h', hpaths]

theorem swapped_mirrored : ∃ plan, planReconciliation swappedBase swappedLocal swappedRemote = .ok plan ∧
    planReconciliation swappedBase swappedRemote swappedLocal =
      .ok ⟨plan.paths.map ReconciliationPath.mirrored⟩ :=
  @plan_mirrored swappedBase swappedLocal swappedRemote rfl rfl

end Mirrored
end RustSync
