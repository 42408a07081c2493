/-
Changing the tree

What the engine's helpers that create and remove things come to, at every
point of a run: `create_dir_all` makes directories where nothing was
(`Made`), `remove_dir_all` clears what is within a path (`Cleared`), and a
temporary file differs from what was in its own place only. Each rule keeps
the world but for the tree.

Key definitions: `Made`, `Cleared`. Key theorems: `runs_createDirAll`,
`runs_removeDirAll`.
-/
import RustSync.Sync.Calls
import RustSync.Sync.Engine

namespace RustSync

section Trees

variable {tree tree' tree'' : WorkingTree} {path temp p q : RelPath}

/-- Directories were made at the path and above, where nothing was. -/
def Made (path : RelPath) (tree tree' : WorkingTree) : Prop :=
  ∀ p, tree'.get p = tree.get p ∨ (tree.get p = none ∧ Within p path ∧ tree'.get p = some .directory)

/-- Some of what is within the path was removed. -/
def Cleared (path : RelPath) (tree tree' : WorkingTree) : Prop :=
  ∀ p, tree'.get p = tree.get p ∨ (Within path p ∧ tree'.get p = none)

theorem Made.refl (path : RelPath) (tree : WorkingTree) : Made path tree tree := fun _ => .inl rfl

theorem Cleared.refl (path : RelPath) (tree : WorkingTree) : Cleared path tree tree := fun _ => .inl rfl

theorem Made.trans (h : Made path tree tree') (h' : Made path tree' tree'') : Made path tree tree'' := by
  intro p
  rcases h' p with heq | ⟨hnone, hwithin, hdir⟩
  · rw [heq]
    exact h p
  · rcases h p with heq | ⟨_, _, hdir'⟩
    · exact .inr ⟨by rw [← heq]; exact hnone, hwithin, hdir⟩
    · rw [hnone] at hdir'
      cases hdir'

theorem Cleared.trans (h : Cleared path tree tree') (h' : Cleared path tree' tree'') : Cleared path tree tree'' := by
  intro p
  rcases h' p with heq | hgone
  · rw [heq]
    exact h p
  · exact .inr hgone

/-- What was there stays. -/
theorem Made.keeps (h : Made path tree tree') (hp : tree.get p ≠ none) : tree'.get p = tree.get p := by
  rcases h p with heq | ⟨hnone, _⟩
  · exact heq
  · exact absurd hnone hp

theorem made_createDirIn (hq : Within q path) (h : createDirIn tree q = some tree') :
    Made path tree tree' ∧ tree'.get q = some .directory := by
  unfold createDirIn at h
  split at h
  · rename_i hnone
    refine ⟨fun p => ?_, by rw [FileTree.get_put h, if_pos rfl]⟩
    rw [FileTree.get_put h]
    by_cases heq : q = p
    · subst heq
      exact .inr ⟨hnone, hq, if_pos rfl⟩
    · exact .inl (if_neg heq)
  · cases h

theorem cleared_remove (hq : Within path q) (h : tree.remove q = some tree') :
    Cleared path tree tree' ∧ tree'.get q = none := by
  refine ⟨fun p => ?_, by rw [FileTree.get_remove h, if_pos rfl]⟩
  rw [FileTree.get_remove h]
  by_cases heq : q = p
  · subst heq
    exact .inr ⟨hq, if_pos rfl⟩
  · exact .inl (if_neg heq)

/-- What a rename leaves. -/
theorem get_renameIn (h : renameIn tree temp path = some tree') : ∃ content, tree.get temp = some (.file content) ∧
    tree.get path ≠ some .directory ∧
    tree'.get p = if path = p then some (.file content) else if temp = p then none else tree.get p := by
  unfold renameIn at h
  split at h
  · rename_i content hcontent
    split at h
    · cases h
    · rename_i hdir
      obtain ⟨mid, hremove, hput⟩ := Option.bind_eq_some_iff.mp h
      refine ⟨content, hcontent, hdir, ?_⟩
      rw [FileTree.get_put hput, FileTree.get_remove hremove]
  · cases h

end Trees

section Programs

variable {env : Setting} {I : World → Prop} {w : World} {path : RelPath}

theorem setTree_tree (w : World) (tree : WorkingTree) : (w.setTree tree).device.tree = tree := rfl

theorem stat_ok {tree : WorkingTree} {node : Option (Node FileContent)} (h : stat tree path = .ok node) :
    node = tree.get path := by
  unfold stat at h
  split at h
  · cases h
  · cases h
    rfl

/-- Looking at a path. -/
theorem runs_stat {α : Type} {f : Option (Node FileContent) → Sync α} {R : α → World → Prop} (hI : I w)
    (hf : Fallible.Runs (sem env) I (f (w.device.tree.get path)) w R) :
    Fallible.Runs (sem env) I (perform (.metadata path) >>= f) w R := by
  refine Fallible.Runs.bind (runs_metadata hI) fun node t _ h => ?_
  obtain ⟨rfl, hstat⟩ := h
  have hnode : node = t.device.tree.get path := stat_ok hstat
  subst hnode
  exact hf

theorem runs_createDirAll (hI : ∀ tree, Made path w.device.tree tree → I (w.setTree tree)) :
    Fallible.Runs (sem env) I (createDirAll path) w fun _ t => ∃ tree, Made path w.device.tree tree ∧
      t = w.setTree tree ∧ ∀ q, q ≠ [] → Within q path → tree.get q = some .directory := by
  have hself : I w := hI _ (.refl _ _)
  unfold createDirAll
  by_cases hroot : path = []
  · rw [if_pos hroot]
    refine Fallible.Runs.pure hself ⟨_, .refl _ _, rfl, fun q hne hq => ?_⟩
    rcases hq with rfl | hq
    · exact absurd hroot hne
    · rw [hroot] at hq
      exact absurd hq.length_lt (by simp)
  · rw [if_neg hroot]
    let J (done : List RelPath) (t : World) : Prop := ∃ tree, Made path w.device.tree tree ∧ t = w.setTree tree ∧
      ∀ q ∈ done, tree.get q = some .directory
    have hmem {q : RelPath} (hq : q ∈ ancestors path ++ [path]) : Within q path := by
      rcases List.mem_append.mp hq with hq | hq
      · exact (mem_ancestors.mp hq).within
      · rw [List.mem_singleton] at hq
        exact .inl hq.symm
    refine (Fallible.Runs.forM J (fun done rest t _ ht => ?_) ⟨_, .refl _ _, rfl, by simp⟩
      fun done q rest t hl ht => ?_).weaken (fun _ h => h) fun _ t _ ht => ?_
    · obtain ⟨tree, hmade, rfl, _⟩ := ht
      exact hI _ hmade
    · obtain ⟨tree, hmade, rfl, hdone⟩ := ht
      have hIt : I (w.setTree tree) := hI _ hmade
      have hall {t' : WorkingTree} (hkeep : ∀ r, tree.get r ≠ none → t'.get r = tree.get r)
          (hq : t'.get q = some .directory) : ∀ r ∈ done ++ [q], t'.get r = some .directory := by
        intro r hr
        rcases List.mem_append.mp hr with hr | hr
        · rw [hkeep r (by rw [hdone r hr]; simp)]
          exact hdone r hr
        · rw [List.mem_singleton] at hr
          rw [hr]
          exact hq
      refine runs_stat hIt ?_
      rw [setTree_tree]
      cases hnode : tree.get q with
      | none =>
        have hmade' {t' : WorkingTree} (h : createDirIn tree q = some t') :
            Made path w.device.tree t' ∧ Made path tree t' ∧ t'.get q = some .directory := by
          obtain ⟨hstep, hq⟩ := made_createDirIn (hmem (by rw [hl]; simp)) h
          exact ⟨hmade.trans hstep, hstep, hq⟩
        refine (runs_createDir hIt fun t' ht' => hI t' (hmade' ht').1).weaken (fun _ h => h) fun _ t _ ht => ?_
        obtain ⟨t', ht', rfl⟩ := ht
        obtain ⟨hm, hstep, hq⟩ := hmade' ht'
        exact ⟨t', hm, rfl, hall (fun r hr => hstep.keeps hr) hq⟩
      | some node =>
        cases node with
        | directory => exact Fallible.Runs.pure hIt ⟨tree, hmade, rfl, hall (fun _ _ => rfl) hnode⟩
        | _ => exact Fallible.Runs.throw hIt
    · obtain ⟨tree, hmade, rfl, hdone⟩ := ht
      refine ⟨tree, hmade, rfl, fun q _ hq => hdone q ?_⟩
      rcases hq with rfl | hq
      · simp
      · exact List.mem_append_left _ (mem_ancestors.mpr hq)

theorem runs_removeNode (hI : I w) (hI' : ∀ tree, w.device.tree.remove path = some tree → I (w.setTree tree)) :
    Fallible.Runs (sem env) I (removeNode path) w
      fun _ t => ∃ tree, w.device.tree.remove path = some tree ∧ t = w.setTree tree := by
  refine Fallible.Runs.bind (runs_remove hI hI') fun a t hIt h => ?_
  rcases h.2 with ⟨rfl, tree, htree, rfl⟩ | ⟨rfl, _⟩
  · exact Fallible.Runs.pure hIt ⟨tree, htree, rfl⟩
  · exact Fallible.Runs.throw hIt

theorem runs_removeDirAll (hI : ∀ tree, Cleared path w.device.tree tree → I (w.setTree tree)) :
    Fallible.Runs (sem env) I (removeDirAll path) w fun _ t => ∃ tree, Cleared path w.device.tree tree ∧
      t = w.setTree tree ∧ ∀ q, Within path q → tree.get q = none := by
  have hself : I w := hI _ (.refl _ _)
  refine Fallible.Runs.bind (runs_list hself) fun (listing : List RelPath) t _ h => ?_
  obtain ⟨rfl, hlisting⟩ := h
  let J (done : List RelPath) (u : World) : Prop := ∃ tree, Cleared path t.device.tree tree ∧ u = t.setTree tree ∧
    ∀ q ∈ done, tree.get q = none
  refine Fallible.Runs.bind (Fallible.Runs.forM J (fun done rest u _ hu => ?_) ⟨_, .refl _ _, rfl, by simp⟩
    fun done q rest u hl hu => ?_) fun _ u _ hu => ?_
  · obtain ⟨tree, hcleared, rfl, _⟩ := hu
    exact hI _ hcleared
  · obtain ⟨tree, hcleared, rfl, hdone⟩ := hu
    have hq : Within path q := by
      have hin : q ∈ (listing : List RelPath) := by
        rw [hl]
        simp
      exact ((hlisting.mem q).mp hin).1.within
    have hstep {t' : WorkingTree} (h : tree.remove q = some t') : Cleared path t.device.tree t' :=
      hcleared.trans (cleared_remove hq h).1
    refine (runs_removeNode (hI _ hcleared) fun t' ht' => hI t' (hstep ht')).weaken (fun _ h => h) fun _ u _ hu => ?_
    obtain ⟨t', ht', rfl⟩ := hu
    refine ⟨t', hstep ht', rfl, fun r hr => ?_⟩
    rw [setTree_tree] at ht'
    rw [FileTree.get_remove ht']
    rcases List.mem_append.mp hr with hr | hr
    · rw [hdone r hr, ite_self]
    · rw [List.mem_singleton] at hr
      rw [if_pos hr.symm]
  · obtain ⟨tree, hcleared, rfl, hdone⟩ := hu
    have hstep {t' : WorkingTree} (h : tree.remove path = some t') : Cleared path t.device.tree t' :=
      hcleared.trans (cleared_remove (within_self _) h).1
    refine (runs_removeNode (hI _ hcleared) fun t' ht' => hI t' (hstep ht')).weaken (fun _ h => h) fun _ u _ hu => ?_
    obtain ⟨t', ht', rfl⟩ := hu
    refine ⟨t', hstep ht', rfl, fun q hq => ?_⟩
    rcases hq with rfl | hq
    · rw [FileTree.get_remove ht', if_pos rfl]
    · have hfree := FileTree.remove_spec ht' q hq
      rw [FileTree.get_remove ht', hfree, ite_self]

end Programs

end RustSync
