/-
Applying a manifest

What `apply_pulled_manifest` makes of the tree, at every point of a run. A
path is as the tree had it, or it is gone, or it is as the manifest says
(`Reached`); a path that agrees with the manifest is left alone, and what is
removed without an entry was visible, or was in a directory whose place a file
takes (`Removable`). Between two entries there is no temporary file, and at
the end the manifest's entries are in place (`Applied`).

Key definitions: `Agrees`, `Removable`, `Reached`, `Applied`. Key theorem:
`runs_applyPulledManifest`.
-/
import RustSync.Sync.Staging
import RustSync.Sync.TreeChanges

namespace RustSync

/-! ### Names of temporary files -/

section Names

variable {dir name p q : RelPath}

theorem isInternal_within (h : Within p q) (hp : isInternal p = true) : isInternal q = true := by
  obtain ⟨others, hothers⟩ := h.components
  unfold isInternal at hp ⊢
  rw [hothers, List.any_append, hp, Bool.true_or]

theorem isInternal_joinPath (hslash : '/' ∉ name) (hname : isInternalName name = true) :
    isInternal (joinPath dir name) = true := by
  unfold joinPath isInternal
  by_cases hroot : dir = []
  · rw [if_pos hroot, components_of_noSlash hslash]
    simp [hname]
  · rw [if_neg hroot, components_append_slash, components_of_noSlash hslash]
    simp [hname]

/-- What is above a name in a directory is the directory, or above it. -/
theorem within_of_beneath_joinPath (hslash : '/' ∉ name) (h : Beneath q (joinPath dir name)) :
    dir ≠ [] ∧ Within q dir := by
  unfold joinPath at h
  by_cases hroot : dir = []
  · rw [if_pos hroot] at h
    obtain ⟨rest, rfl⟩ := beneath_iff.mp h
    simp at hslash
  · rw [if_neg hroot] at h
    have hself : Beneath dir (dir ++ '/' :: name) := beneath_append dir name
    refine ⟨hroot, ?_⟩
    rcases h.linear hself with rfl | hqd | hdq
    · exact within_self _
    · exact hqd.within
    · -- the directory is the longest
      obtain ⟨rest, rfl⟩ := beneath_iff.mp hdq
      obtain ⟨rest', hrest'⟩ := beneath_iff.mp h
      rw [List.append_assoc] at hrest'
      have htail := List.append_cancel_left hrest'
      simp only [List.cons_append, List.cons.injEq, true_and] at htail
      rw [htail] at hslash
      simp at hslash

theorem noSlash_tempName {suffix : List Char} (h : suffix.all Char.isAlphanum = true) :
    '/' ∉ tempName suffix := by
  unfold tempName
  rw [List.mem_append, not_or]
  refine ⟨by decide, fun hmem => ?_⟩
  have hslash := List.all_eq_true.mp h '/' hmem
  revert hslash
  decide

theorem parentOf_beneath (h : parentOf p ≠ []) : Beneath (parentOf p) p := by
  unfold parentOf at h ⊢
  cases hlast : (ancestors p).getLast? with
  | none => simp [hlast] at h
  | some q => exact mem_ancestors.mp (List.mem_of_getLast? hlast)

/-- A temporary file is internal, and not within the path it is for. -/
theorem FreshTemp.apart {w : World} {bytes : Bytes} {temp : RelPath} {tree : WorkingTree}
    (h : FreshTemp w (parentOf p) bytes temp tree) : isInternal temp = true ∧ ¬ Beneath p temp := by
  obtain ⟨suffix, hsuffix, rfl⟩ := h.named
  have hslash := noSlash_tempName hsuffix
  refine ⟨isInternal_joinPath hslash ?_, fun hbeneath => ?_⟩
  · unfold isInternalName tempName
    simp
  · obtain ⟨hroot, hwithin⟩ := within_of_beneath_joinPath hslash hbeneath
    have habove := parentOf_beneath hroot
    exact not_beneath_self p (hwithin.trans_beneath habove)

end Names

/-! ### Where a path may be -/

section Paths

variable (env : Setting) (c : Crypto) (rules : IgnoreRules) (m : Manifest) (tree : WorkingTree)

/-- The node is what the entry says. -/
def Matches (n : Option (Node FileContent)) (e : ManifestEntry) : Prop :=
  entriesEqual (n.bind (entryOf c)) (some e) = true

/-- The tree has the manifest's entry at the path. -/
def Agrees (p : RelPath) : Prop := ∃ e, m.get p = some e ∧ Matches c (tree.get p) e

/-- The path is that of a node that the walk meets, as the walk writes it. -/
def Met (p : RelPath) : Prop :=
  ∃ path, slashed path = p ∧ tree.get path ≠ none ∧
    ∀ q, Within q path → rules.excludes (slashed q) (tree.isDirectory q) = false

/-- No name has a backslash. -/
def NoBackslash : Prop := ∀ p, tree.get p ≠ none → '\\' ∉ p

/-- What may go although the manifest does not list it: what the walk meets,
what is in a directory that becomes a file, and what is in a directory that
was met and could not be looked at. -/
inductive Removable (p : RelPath) : Prop
  | met (h : Met rules tree p)
  | replaced (q : RelPath) (file : FileEntry) (hq : Beneath q p) (hm : m.get q = some (.file file))
      (hdir : tree.get q = some .directory)
  | failed (hfails : env.diskFails) (q : RelPath) (hq : Beneath q p) (h : Met rules tree q)
      (hm : m.get q = none)

/-- A path that is not as it was. -/
structure Changed (p : RelPath) (n : Option (Node FileContent)) : Prop where
  differs : ¬ Agrees c m tree p
  reason : tree.get p = none ∨ m.get p ≠ none ∨ Removable env rules m tree p
  now : n = none ∨ ∃ e, m.get p = some e ∧ Matches c n e

/-- A path as it was, or changed. -/
def Reached (p : RelPath) (n : Option (Node FileContent)) : Prop :=
  n = tree.get p ∨ Changed env c rules m tree p n

variable {env c rules m tree} {p q : RelPath} {n n' : Option (Node FileContent)} {e : ManifestEntry}

theorem slashed_of_plain (h : '\\' ∉ p) : slashed p = p := by
  unfold slashed
  conv_rhs => rw [← List.map_id p]
  refine List.map_congr_left fun a ha => ?_
  have hne : a ≠ '\\' := by
    rintro rfl
    exact h ha
  rw [if_neg hne]
  rfl

theorem not_mem_above (h : '\\' ∉ p) (hq : Within q p) : '\\' ∉ q := by
  rcases hq with rfl | hq
  · exact h
  · obtain ⟨rest, rfl⟩ := beneath_iff.mp hq
    exact fun hmem => h (List.mem_append_left _ hmem)

/-- A path without a backslash stands for itself. -/
theorem Visible.met (h : Visible rules tree p) (hp : '\\' ∉ p) : Met rules tree p := by
  refine ⟨p, slashed_of_plain hp, h.1, fun q hq => ?_⟩
  rw [slashed_of_plain (not_mem_above hp hq)]
  exact h.2 q hq

theorem Met.visible (h : Met rules tree p) (hplain : NoBackslash tree) : Visible rules tree p := by
  obtain ⟨path, rfl, hsome, hfine⟩ := h
  have hpath := hplain path hsome
  rw [slashed_of_plain hpath]
  refine ⟨hsome, fun q hq => ?_⟩
  have hq' := hfine q hq
  rw [slashed_of_plain (not_mem_above hpath hq)] at hq'
  exact hq'

theorem Met.not_internal (h : Met rules tree p) : isInternal p = false := by
  obtain ⟨path, rfl, _, hfine⟩ := h
  have hself := hfine path (within_self path)
  unfold IgnoreRules.excludes at hself
  exact (Bool.or_eq_false_iff.mp hself).1

theorem not_matches_none : ¬ Matches c none e := by
  unfold Matches
  cases e <;> simp [entriesEqual]

theorem matches_directory : Matches c n .directory ↔ n = some .directory := by
  unfold Matches
  rcases n with _ | _ | _ | _ <;> simp [entryOf, entriesEqual, ManifestEntry.ofFile]

theorem matches_file {file : FileEntry} : Matches c n (.file file) ↔
    ∃ content, n = some (.file content) ∧ content.bytes.length = file.size ∧
      sha256Hex c content.bytes = file.contentHash := by
  unfold Matches
  rcases n with _ | _ | _ | _ <;> simp [entryOf, entriesEqual, ManifestEntry.ofFile]

theorem agrees_iff (hp : m.get p = some e) : Agrees c m tree p ↔ Matches c (tree.get p) e := by
  unfold Agrees
  rw [hp]
  simp

theorem not_agrees_of_none (hp : m.get p = none) : ¬ Agrees c m tree p := by
  rintro ⟨e, he, _⟩
  rw [hp] at he
  cases he

/-- A path that agrees is as it was. -/
theorem Reached.of_agrees (h : Reached env c rules m tree p n) (hp : Agrees c m tree p) : n = tree.get p := by
  rcases h with heq | hchanged
  · exact heq
  · exact absurd hp hchanged.differs

/-- Where there is nothing, it may have been put or removed. -/
theorem Reached.differs (h : Reached env c rules m tree p n) (hp : m.get p = some e) (hn : ¬ Matches c n e) :
    ¬ Agrees c m tree p := by
  intro hagrees
  rw [h.of_agrees hagrees] at hn
  exact hn ((agrees_iff hp).mp hagrees)

/-- A path that the manifest does not list is as it was, or gone. -/
theorem Reached.unlisted (h : Reached env c rules m tree p n) (hp : m.get p = none) :
    n = tree.get p ∨ (n = none ∧ Removable env rules m tree p) := by
  rcases h with heq | hchanged
  · exact .inl heq
  · have hnow : n = none := by
      rcases hchanged.now with hnone | ⟨e, he, _⟩
      · exact hnone
      · rw [hp] at he
        cases he
    rcases hchanged.reason with hnone | hlisted | hremovable
    · exact .inl (hnow.trans hnone.symm)
    · exact absurd hp hlisted
    · exact .inr ⟨hnow, hremovable⟩

/-- A listed path that did not agree may be gone, or as the manifest says. -/
theorem Reached.listed (hp : m.get p = some e) (hdiffers : ¬ Agrees c m tree p)
    (hn : n = none ∨ Matches c n e) : Reached env c rules m tree p n := by
  refine .inr ⟨hdiffers, .inr (.inl (by rw [hp]; simp)), ?_⟩
  rcases hn with hn | hn
  · exact .inl hn
  · exact .inr ⟨e, hp, hn⟩

theorem Reached.removed (hp : m.get p = none) (hremovable : Removable env rules m tree p) :
    Reached env c rules m tree p none :=
  .inr ⟨not_agrees_of_none hp, .inr (.inr hremovable), .inl rfl⟩

/-! ### One entry -/

/-- What putting the entry of `p` in place does to the path `q`. -/
inductive EntryStep (c : Crypto) (p : RelPath) (e : ManifestEntry) (t t' : WorkingTree) (q : RelPath) : Prop
  | same (h : t'.get q = t.get q)
  | made (habove : Beneath q p) (hnone : t.get q = none) (h : t'.get q = some .directory)
  | placed (heq : q = p) (h : t'.get q = none ∨ Matches c (t'.get q) e)
  | cleared (file : FileEntry) (he : e = .file file) (hbeneath : Beneath p q) (hdir : t.get p = some .directory)
      (h : t'.get q = none)

/-- An entry that was not in place keeps every path where it may be. -/
theorem EntryStep.reached {t t' : WorkingTree} (hm : m.TreeShaped) (hp : m.get p = some e)
    (hdiffers : ¬ Agrees c m tree p) (ht : ∀ q, Reached env c rules m tree q (t.get q))
    (h : EntryStep c p e t t' q) : Reached env c rules m tree q (t'.get q) := by
  rcases h with heq | ⟨habove, hnone, hdir⟩ | ⟨rfl, hnow⟩ | ⟨file, rfl, hbeneath, hdir, hnone⟩
  · rw [heq]
    exact ht q
  · have hlisted : m.get q = some .directory := hm p e hp q habove
    have hq := ht q
    rw [hnone] at hq
    rw [hdir]
    exact .listed hlisted (hq.differs hlisted not_matches_none) (.inr (matches_directory.mpr rfl))
  · exact .listed hp hdiffers hnow
  · have hlisted : m.get q = none := hm.none_beneath (by rw [hp]; simp) hbeneath
    rw [hnone]
    refine .removed hlisted (.replaced p file hbeneath hp ?_)
    -- the directory was not put there
    rcases ht p with heq | hchanged
    · rw [← heq]
      exact hdir
    · rcases hchanged.now with hgone | ⟨e, he, hmatches⟩
      · rw [hdir] at hgone
        cases hgone
      · rw [hp] at he
        cases he
        rw [hdir, matches_file] at hmatches
        obtain ⟨content, hcontent, _⟩ := hmatches
        cases hcontent

end Paths

/-! ### What a change of the tree leaves alone -/

section Phases

variable {env : Setting} {ws : Workspace}

/-- Only the tree differs, and the cache has more contents. -/
structure Apart (ws : Workspace) (w t : World) : Prop where
  remote : t.remote = w.remote
  staged : t.device.staged = w.device.staged
  syncState : t.device.syncState = w.device.syncState
  cache : CacheStep ws.digest w.device.cache t.device.cache

variable {w t u : World} {tree : WorkingTree}

theorem Apart.refl (w : World) : Apart ws w w := ⟨rfl, rfl, rfl, .refl _⟩

theorem Apart.setTree (h : Apart ws w t) (tree : WorkingTree) : Apart ws w (t.setTree tree) :=
  ⟨h.remote, h.staged, h.syncState, h.cache⟩

theorem Apart.trans (h : Apart ws w t) (h' : Apart ws t u) : Apart ws w u :=
  ⟨h'.remote.trans h.remote, h'.staged.trans h.staged, h'.syncState.trans h.syncState, h.cache.trans h'.cache⟩

variable {rules : IgnoreRules} {m : Manifest} {start : WorkingTree}

/-! ### Removing what the manifest does not list -/

variable (env ws rules m start w) in
/-- While entries are removed: a path is as it was, or it could go and is
gone. -/
structure Removing (t : World) : Prop where
  apart : Apart ws w t
  paths : ∀ p, t.device.tree.get p = start.get p ∨
    (t.device.tree.get p = none ∧ m.get p = none ∧ Removable env rules m start p)

theorem Removing.reached {p : RelPath} (h : Removing env ws w rules m start t) :
    Reached env ws.digest rules m start p (t.device.tree.get p) := by
  rcases h.paths p with heq | ⟨hnone, hm, hremovable⟩
  · exact .inl heq
  · rw [hnone]
    exact .removed hm hremovable

/-- Clearing what may go. -/
theorem Removing.clear {p : RelPath} (h : Removing env ws w rules m start t)
    (hclear : Cleared p t.device.tree tree)
    (hgo : ∀ q, Within p q → tree.get q ≠ t.device.tree.get q → m.get q = none ∧ Removable env rules m start q) :
    Removing env ws w rules m start (t.setTree tree) := by
  refine ⟨h.apart.setTree tree, fun q => ?_⟩
  rw [setTree_tree]
  by_cases heq : tree.get q = t.device.tree.get q
  · rw [heq]
    exact h.paths q
  · rcases hclear q with hsame | ⟨hwithin, hnone⟩
    · exact absurd hsame heq
    · exact .inr ⟨hnone, hgo q hwithin heq⟩

/-- What the removal of an entry leaves: nothing has changed, or the path is
gone with what was within it. -/
structure EntryRemoved (p : RelPath) (t t' : WorkingTree) : Prop where
  cleared : Cleared p t t'
  outcome : t' = t ∨ t'.get p = none
  gone : t'.get p = none ∨ ∃ q, Beneath p q ∧ t'.get q ≠ none

theorem stat_of_dirs {p : RelPath} (h : ∀ q, Beneath q p → tree.get q = some .directory ∨ tree.get q = none) :
    stat tree p = .ok (tree.get p) := by
  unfold stat
  rw [if_neg]
  rw [List.any_eq_true]
  rintro ⟨q, hq, hnode⟩
  rcases h q (mem_ancestors.mp hq) with hdir | hnone
  · simp [hdir, Node.isDir] at hnode
  · simp [hnone] at hnode

theorem runs_removeEntry {p : RelPath} (hm : m.TreeShaped) (hmet : Met rules start p)
    (ht : Removing env ws w rules m start t) :
    Fallible.Runs (sem env) (Removing env ws w rules m start) (removeEntry m p) t fun _ t' =>
      Removing env ws w rules m start t' ∧ (m.get p = none → EntryRemoved p t.device.tree t'.device.tree) ∧
        (m.get p ≠ none → t' = t) := by
  unfold removeEntry
  by_cases hlisted : m.containsPath p = true
  · rw [if_pos hlisted]
    have hp : m.get p ≠ none := Option.isSome_iff_ne_none.mp hlisted
    exact Fallible.Runs.pure ht ⟨ht, fun hnone => absurd hnone hp, fun _ => rfl⟩
  · rw [if_neg hlisted]
    have hp : m.get p = none := by
      unfold Manifest.containsPath at hlisted
      simpa using hlisted
    have hself {q : RelPath} (hq : Within p q) (hwhy : q = p ∨ env.diskFails) :
        m.get q = none ∧ Removable env rules m start q := by
      rcases hq with rfl | hq
      · exact ⟨hp, .met hmet⟩
      · refine ⟨hm.none_beneath (by rw [hp]; simp) hq, ?_⟩
        rcases hwhy with rfl | hfails
        · exact absurd hq (not_beneath_self _)
        · exact .failed hfails p hq hmet hp
    -- one node goes
    have hremove {tree : WorkingTree} (h : t.device.tree.remove p = some tree) :
        Removing env ws w rules m start (t.setTree tree) := by
      refine ht.clear (cleared_remove (within_self p) h).1 fun q hq hne => hself hq (.inl ?_)
      by_contra hqp
      rw [FileTree.get_remove h, if_neg (Ne.symm hqp)] at hne
      exact hne rfl
    have hdone {tree : WorkingTree} (h : t.device.tree.remove p = some tree) :
        EntryRemoved p t.device.tree tree := by
      obtain ⟨hcleared, hnone⟩ := cleared_remove (within_self p) h
      exact ⟨hcleared, .inr hnone, .inl hnone⟩
    have hfinish {R : World → Prop} (h : ∀ t', Removing env ws w rules m start t' →
        EntryRemoved p t.device.tree t'.device.tree → R t')
        (hfails : t.device.tree.get p = some .directory → env.diskFails) :
        Fallible.Runs (sem env) (Removing env ws w rules m start) (removePathIfExists p) t fun _ => R := by
      unfold removePathIfExists
      refine runs_stat ht ?_
      have hfile (hdir : t.device.tree.get p ≠ some .directory) : Fallible.Runs (sem env)
          (Removing env ws w rules m start) (removeNode p) t fun _ => R := by
        refine (runs_removeNode ht fun tree htree => hremove htree).weaken (fun _ h => h) fun _ t' _ ht' => ?_
        obtain ⟨tree, htree, rfl⟩ := ht'
        exact h _ (hremove htree) (hdone htree)
      cases hnode : t.device.tree.get p with
      | none => exact Fallible.Runs.pure ht (h t ht ⟨.refl _ _, .inl rfl, .inl hnode⟩)
      | some node =>
        cases node with
        | directory =>
          have hclear {tree : WorkingTree} (hcleared : Cleared p t.device.tree tree) :
              Removing env ws w rules m start (t.setTree tree) :=
            ht.clear hcleared fun q hq _ => hself hq (.inr (hfails hnode))
          refine (runs_removeDirAll fun tree => hclear).weaken (fun _ h => h) fun _ t' _ ht' => ?_
          obtain ⟨tree, hcleared, rfl, hgone⟩ := ht'
          have hnone : tree.get p = none := hgone p (within_self p)
          exact h _ (hclear hcleared) ⟨hcleared, .inr hnone, .inl hnone⟩
        | _ =>
          refine hfile ?_
          rw [hnode]
          simp
    refine Fallible.Runs.check_bind ht fun _ _ => ?_
    refine Fallible.Runs.bind (Fallible.Runs.attempt_op (Q := fun r t' => t' = t ∧
      ((t.device.tree.get p = some .directory → r = .ok (some .directory)) ∨ env.diskFails) ∧
      (r = .ok (some .directory) → t.device.tree.get p = some .directory)) ht fun r t' hcall => ?_)
      fun r t' _ hr => ?_
    · -- only a failure of the disk hides a directory
      rcases hcall with ⟨hr, rfl⟩ | ⟨hfails, ⟨text, hr⟩, rfl⟩
      · refine ⟨ht, rfl, .inl fun hdir => ?_, fun hr' => ?_⟩
        · rw [hr, stat_of_dirs fun q hq => .inl (t'.device.tree.get_above hdir hq), hdir]
          rfl
        · rw [hr'] at hr
          exact (stat_ok (Except.mapError_ok.mp hr.symm)).symm
      · refine ⟨ht, rfl, .inr hfails, fun hr' => ?_⟩
        rw [hr] at hr'
        cases hr'
    · obtain ⟨rfl, hdir, hyes⟩ := hr
      split
      · -- what is still in it stays
        refine Fallible.Runs.bind (runs_remove ht fun tree htree => hremove htree) fun a u hu hout => ?_
        refine Fallible.Runs.pure hu ?_
        rcases hout.2 with ⟨rfl, tree, htree, rfl⟩ | ⟨rfl, hnone, rfl⟩
        · exact ⟨hu, fun _ => hdone htree, fun h => absurd hp h⟩
        · refine ⟨hu, fun _ => ⟨.refl _ _, .inl rfl, .inr ?_⟩, fun h => absurd hp h⟩
          by_contra hempty
          push Not at hempty
          obtain ⟨tree, htree⟩ := FileTree.remove_isSome hempty
          rw [hnone] at htree
          cases htree
      · rename_i hnot
        refine hfinish (fun u hu hentry => ⟨hu, fun _ => hentry, fun h => absurd hp h⟩) fun hnode => ?_
        rcases hdir with hdir | hfails
        · exact absurd (hdir hnode) hnot
        · exact hfails

/-- Deepest first, a removal does not empty a directory that was left. -/
theorem EntryRemoved.keeps {p q : RelPath} {t t' : WorkingTree} (h : EntryRemoved p t t') (hdepth : DeeperFirst q p)
    (hq : t.get q = none ∨ ∃ r, Beneath q r ∧ t.get r ≠ none) :
    t'.get q = none ∨ ∃ r, Beneath q r ∧ t'.get r ≠ none := by
  rcases h.outcome with rfl | hgone
  · exact hq
  · have hbeneath {r : RelPath} (hr : Within p r) : t'.get r = none := by
      rcases hr with rfl | hr
      · exact hgone
      · exact FileTree.get_beneath (by rw [hgone]; simp) hr
    rcases hq with hnone | ⟨r, hr, hsome⟩
    · left
      rcases h.cleared q with heq | ⟨_, hnone'⟩
      · exact heq.trans hnone
      · exact hnone'
    · rcases h.cleared r with heq | ⟨hwithin, _⟩
      · exact .inr ⟨r, hr, by rw [heq]; exact hsome⟩
      · -- what went was within the entry, and so is the directory
        left
        rcases Within.linear hwithin hr.within with hpq | hqp
        · exact hbeneath hpq
        · rcases hqp with rfl | hqp
          · exact hgone
          · have hlt := depth_lt hqp
            unfold DeeperFirst at hdepth
            omega

theorem runs_removeEntriesMissingFromRemote {paths : List RelPath} (hm : m.TreeShaped)
    (hmet : ∀ p ∈ paths, Met rules start p) (ht : Removing env ws w rules m start t) :
    Fallible.Runs (sem env) (Removing env ws w rules m start) (removeEntriesMissingFromRemote m paths) t fun _ t' =>
      Removing env ws w rules m start t' ∧ ∀ p ∈ paths, m.get p = none →
        t'.device.tree.get p = none ∨ ∃ q, Beneath p q ∧ t'.device.tree.get q ≠ none := by
  have hsorted : (paths.insertionSort DeeperFirst).Pairwise DeeperFirst := List.pairwise_insertionSort _ _
  let J (done : List RelPath) (t : World) : Prop := Removing env ws w rules m start t ∧ ∀ p ∈ done, m.get p = none →
    t.device.tree.get p = none ∨ ∃ q, Beneath p q ∧ t.device.tree.get q ≠ none
  refine (Fallible.Runs.forM J (fun _ _ _ _ h => h.1) ⟨ht, by simp⟩ fun done p rest t hl hJ => ?_).weaken
    (fun _ h => h) fun _ t' _ h => ?_
  · have hp : p ∈ paths := by
      rw [← List.mem_insertionSort DeeperFirst, hl]
      simp
    refine (runs_removeEntry hm (hmet p hp) hJ.1).weaken (fun _ h => h) fun _ t' _ h => ?_
    obtain ⟨hremoving, hentry, hsame⟩ := h
    refine ⟨hremoving, fun q hq hnone => ?_⟩
    rcases List.mem_append.mp hq with hq | hq
    · by_cases hlisted : m.get p = none
      · have hdepth : DeeperFirst q p := by
          rw [hl] at hsorted
          exact (List.pairwise_append.mp hsorted).2.2 q hq p List.mem_cons_self
        exact (hentry hlisted).keeps hdepth (hJ.2 q hq hnone)
      · rw [hsame hlisted]
        exact hJ.2 q hq hnone
    · rw [List.mem_singleton] at hq
      subst hq
      exact (hentry hnone).gone
  · exact ⟨h.1, fun p hp => h.2 p ((List.mem_insertionSort DeeperFirst).mpr hp)⟩

/-! ### Putting entries in place -/

variable (env ws w rules m start) in
/-- While entries are put in place, but for temporary files. -/
structure Placing (t : World) : Prop where
  apart : Apart ws w t
  paths : ∀ p, isInternal p = true ∨ Reached env ws.digest rules m start p (t.device.tree.get p)

variable (env ws w rules m start) in
/-- Between two entries. -/
structure Placed (t : World) : Prop where
  apart : Apart ws w t
  paths : ∀ p, Reached env ws.digest rules m start p (t.device.tree.get p)

theorem Placed.placing (h : Placed env ws w rules m start t) : Placing env ws w rules m start t :=
  ⟨h.apart, fun p => .inr (h.paths p)⟩

theorem Removing.placed (h : Removing env ws w rules m start t) : Placed env ws w rules m start t :=
  ⟨h.apart, fun _ => h.reached⟩

/-- The entry is not in place, so what putting it there does is allowed. -/
theorem Placed.step {p : RelPath} {e : ManifestEntry} (h : Placed env ws w rules m start t) (hm : m.TreeShaped)
    (hp : m.get p = some e) (hdiffers : ¬ Agrees ws.digest m start p)
    (hstep : ∀ q, EntryStep ws.digest p e t.device.tree tree q) : Placed env ws w rules m start (t.setTree tree) :=
  ⟨h.apart.setTree tree, fun q => (hstep q).reached hm hp hdiffers h.paths⟩

theorem EntryStep.of_made {p r q : RelPath} {e : ManifestEntry} {t t' : WorkingTree} (h : Made r t t')
    (hr : Within r p) (hself : r = p → e = .directory) : EntryStep ws.digest p e t t' q := by
  rcases h q with heq | ⟨hnone, hwithin, hdir⟩
  · exact .same heq
  · rcases hwithin.trans hr with rfl | hqp
    · rcases hr with rfl | hr
      · rw [hself rfl]
        exact .placed rfl (.inr (matches_directory.mpr hdir))
      · exact absurd (hwithin.trans_beneath hr) (not_beneath_self _)
    · exact .made hqp hnone hdir

variable (env ws w rules m start) in
/-- What putting an entry in place leaves. -/
structure EntryPlaced (p : RelPath) (e : ManifestEntry) (t t' : World) : Prop where
  placed : Placed env ws w rules m start t'
  apart : Apart ws t t'
  here : Matches ws.digest (t'.device.tree.get p) e
  steps : ∀ q, EntryStep ws.digest p e t.device.tree t'.device.tree q

/-- A directory takes the place of what was removed. -/
theorem EntryStep.of_removed_made {p q : RelPath} {t mid t' : WorkingTree} (hremove : t.remove p = some mid)
    (h : Made p mid t') : EntryStep ws.digest p .directory t t' q := by
  have hmade : EntryStep ws.digest p .directory mid t' q := EntryStep.of_made h (within_self p) fun _ => rfl
  rcases hmade with
    hsame | ⟨habove, hnone, hdir⟩ | ⟨heq, hnow⟩ | ⟨_, he, _⟩
  · rw [FileTree.get_remove hremove] at hsame
    by_cases heq : p = q
    · rw [if_pos heq] at hsame
      exact .placed heq.symm (.inl hsame)
    · rw [if_neg heq] at hsame
      exact .same hsame
  · rw [FileTree.get_remove hremove, if_neg habove.ne] at hnone
    exact .made habove hnone hdir
  · exact .placed heq hnow
  · cases he

/-- What preparing a directory does to the tree. -/
theorem runs_prepareDirectoryPath {I : World → Prop} {p : RelPath} (hroot : p ≠ []) (hself : I t)
    (hI : ∀ tree, t.device.tree.get p ≠ some .directory →
      (∀ q, EntryStep ws.digest p .directory t.device.tree tree q) → I (t.setTree tree)) :
    Fallible.Runs (sem env) I (prepareDirectoryPath p) t fun _ t' => ∃ tree, t' = t.setTree tree ∧
      tree.get p = some .directory ∧ ∀ q, EntryStep ws.digest p .directory t.device.tree tree q := by
  unfold prepareDirectoryPath
  refine runs_stat hself ?_
  cases hnode : t.device.tree.get p with
  | none =>
    have hmade {tree : WorkingTree} (h : Made p t.device.tree tree) (q : RelPath) :
        EntryStep ws.digest p .directory t.device.tree tree q :=
      .of_made h (within_self p) fun _ => rfl
    have hnot : t.device.tree.get p ≠ some .directory := by simp [hnode]
    refine (runs_createDirAll fun tree h => hI tree hnot (hmade h)).weaken (fun _ h => h) fun _ t' _ h => ?_
    obtain ⟨tree, h, rfl, hdirs⟩ := h
    exact ⟨tree, rfl, hdirs p hroot (within_self p), hmade h⟩
  | some node =>
    have hreplace (hnot : t.device.tree.get p ≠ some .directory) :
        Fallible.Runs (sem env) I (removeNode p >>= fun _ => createDirAll p) t fun _ t' => ∃ tree,
          t' = t.setTree tree ∧ tree.get p = some .directory ∧
            ∀ q, EntryStep ws.digest p .directory t.device.tree tree q := by
      have hgone {mid : WorkingTree} (h : t.device.tree.remove p = some mid) : I (t.setTree mid) :=
        hI mid hnot fun q => .of_removed_made h (.refl _ _)
      refine Fallible.Runs.bind (runs_removeNode hself fun mid h => hgone h) fun _ t' _ h => ?_
      obtain ⟨mid, hremove, rfl⟩ := h
      have hmade {tree : WorkingTree} (h : Made p mid tree) (q : RelPath) :
          EntryStep ws.digest p .directory t.device.tree tree q := .of_removed_made hremove h
      refine (runs_createDirAll (w := t.setTree mid) fun tree h => hI tree hnot (hmade h)).weaken
        (fun _ h => h) fun _ t' _ h => ?_
      obtain ⟨tree, h, rfl, hdirs⟩ := h
      exact ⟨tree, rfl, hdirs p hroot (within_self p), hmade h⟩
    cases node with
    | directory => exact Fallible.Runs.pure hself ⟨t.device.tree, rfl, hnode, fun q => .same rfl⟩
    | _ =>
      apply hreplace
      rw [hnode]
      simp

theorem EntryStep.congr {p q : RelPath} {e : ManifestEntry} {t t' t'' : WorkingTree}
    (h : EntryStep ws.digest p e t t' q) (heq : t''.get q = t'.get q) : EntryStep ws.digest p e t t'' q := by
  rcases h with h | ⟨habove, hnone, h⟩ | ⟨hq, h⟩ | ⟨file, he, hbeneath, hdir, h⟩
  · exact .same (heq.trans h)
  · exact .made habove hnone (heq.trans h)
  · rw [← heq] at h
    exact .placed hq h
  · exact .cleared file he hbeneath hdir (heq.trans h)

variable (ws) in
/-- The directories of the parent. -/
theorem EntryStep.of_made_parent {p q : RelPath} {e : ManifestEntry} {t t' : WorkingTree}
    (h : Made (parentOf p) t t') : t'.get q = t.get q ∨ EntryStep ws.digest p e t t' q ∧ t'.get q ≠ none := by
  rcases h q with heq | ⟨hnone, hwithin, hdir⟩
  · exact .inl heq
  · by_cases hroot : parentOf p = []
    · -- the root itself is not in the tree
      rw [hroot] at hwithin
      have hq : q = [] := by
        rcases hwithin with heq | hbeneath
        · exact heq.symm
        · have hlt := hbeneath.length_lt
          simp at hlt
      have hproper : Proper q := t'.proper q _ hdir
      exact absurd hq (proper_ne_nil hproper)
    · exact .inr ⟨.made (hwithin.trans_beneath (parentOf_beneath hroot)) hnone hdir, by rw [hdir]; simp⟩

/-- While the content of `p` is in a temporary file. -/
structure Shadowed (c : Crypto) (p : RelPath) (e : ManifestEntry) (t : WorkingTree) (temp : RelPath) (bytes : Bytes)
    (tree : WorkingTree) : Prop where
  steps : ∀ q, q = temp ∨ EntryStep c p e t tree q
  held : ∃ modifiedAt, tree.get temp = some (.file ⟨bytes, modifiedAt⟩)
  fresh : t.get temp = none

theorem Shadowed.placing {p temp : RelPath} {e : ManifestEntry} {bytes : Bytes} (hm : m.TreeShaped)
    (hp : m.get p = some e) (hdiffers : ¬ Agrees ws.digest m start p) (ht : Placed env ws w rules m start t)
    (htemp : isInternal temp = true) (h : Shadowed ws.digest p e t.device.tree temp bytes tree) :
    Placing env ws w rules m start (t.setTree tree) := by
  refine ⟨ht.apart.setTree tree, fun q => ?_⟩
  rcases h.steps q with rfl | hstep
  · exact .inl htemp
  · exact .inr (hstep.reached hm hp hdiffers ht.paths)

theorem Placing.discard {temp : RelPath} (h : Placing env ws w rules m start t) (htemp : isInternal temp = true) :
    Fallible.Runs (sem env) (Placing env ws w rules m start) (perform (.discardTemp temp)) t
      fun _ => Placing env ws w rules m start := by
  refine runs_discardTemp h fun tree htree => ⟨h.apart.setTree tree, fun q => ?_⟩
  by_cases heq : temp = q
  · rw [← heq]
    exact .inl htemp
  · rw [setTree_tree, FileTree.get_remove htree, if_neg heq]
    exact h.paths q

/-- What replacing a file does to the tree. -/
theorem runs_replaceFile {I : World → Prop} {p : RelPath} {file : FileEntry} {bytes : Bytes}
    (hlength : bytes.length = file.size) (hhash : sha256Hex ws.digest bytes = file.contentHash) (hself : I t)
    (hI : ∀ tree, (∀ q, EntryStep ws.digest p (.file file) t.device.tree tree q) → I (t.setTree tree))
    (hcut : ∀ temp tree, isInternal temp = true →
      Shadowed ws.digest p (.file file) t.device.tree temp bytes tree → I (t.setTree tree))
    (hclean : ∀ temp u, isInternal temp = true → I u →
      Fallible.Runs (sem env) I (perform (.discardTemp temp)) u fun _ => I) :
    Fallible.Runs (sem env) I (replaceFile p bytes) t fun _ t' => ∃ tree, t' = t.setTree tree ∧
      Matches ws.digest (tree.get p) (.file file) ∧
        ∀ q, EntryStep ws.digest p (.file file) t.device.tree tree q := by
  unfold replaceFile
  refine runs_stat hself ?_
  have hmade {tree : WorkingTree} (h : Made (parentOf p) t.device.tree tree) (q : RelPath) :
      EntryStep ws.digest p (.file file) t.device.tree tree q := by
    rcases EntryStep.of_made_parent ws h with heq | ⟨hstep, _⟩
    · exact .same heq
    · exact hstep
  refine Fallible.Runs.bind (runs_createDirAll fun tree h => hI tree (hmade h)) fun _ t₁ _ h₁ => ?_
  obtain ⟨tree₁, htree₁, rfl, _⟩ := h₁
  have hshadow {temp : RelPath} {tree : WorkingTree} (h : FreshTemp (t.setTree tree₁) (parentOf p) bytes temp tree) :
      Shadowed ws.digest p (.file file) t.device.tree temp bytes tree := by
    obtain ⟨modifiedAt, hput⟩ := h.written
    refine ⟨fun q => ?_, ⟨modifiedAt, by rw [FileTree.get_put hput, if_pos rfl]⟩, ?_⟩
    · by_cases heq : temp = q
      · exact .inl heq.symm
      · refine .inr ((hmade htree₁ q).congr ?_)
        rw [FileTree.get_put hput, if_neg heq]
        rfl
    · have hnone : tree₁.get temp = none := h.fresh
      rcases EntryStep.of_made_parent ws (e := .file file) htree₁ with heq | ⟨_, hsome⟩
      · rw [← heq]
        exact hnone
      · exact absurd hnone hsome
  refine Fallible.Runs.bind (runs_writeTemp (hI tree₁ (hmade htree₁)) fun temp tree h =>
    hcut temp tree h.apart.1 (hshadow h)) fun (temp : RelPath) t₂ _ h₂ => ?_
  obtain ⟨tree₂, htemp, rfl⟩ := h₂
  obtain ⟨hinternal, hapart⟩ := htemp.apart
  have hshadow₂ := hshadow htemp
  refine Fallible.Runs.onError ?_ fun u hu => hclean temp u hinternal hu
  -- the rename, from any tree in which the content is at hand
  have hrename {tree : WorkingTree} (h : Shadowed ws.digest p (.file file) t.device.tree temp bytes tree) :
      Fallible.Runs (sem env) I (perform (.rename temp p)) (t.setTree tree) fun _ t' => ∃ tree', t' = t.setTree tree' ∧
        Matches ws.digest (tree'.get p) (.file file) ∧
          ∀ q, EntryStep ws.digest p (.file file) t.device.tree tree' q := by
    have hfile {tree' : WorkingTree} (hrenamed : renameIn tree temp p = some tree') :
        Matches ws.digest (tree'.get p) (.file file) ∧
          ∀ q, EntryStep ws.digest p (.file file) t.device.tree tree' q := by
      obtain ⟨modifiedAt, hheld⟩ := h.held
      have hget (q : RelPath) : tree'.get q = if p = q then some (.file ⟨bytes, modifiedAt⟩)
          else if temp = q then none else tree.get q := by
        obtain ⟨content, hcontent, _, hget⟩ := get_renameIn (p := q) hrenamed
        rw [hheld] at hcontent
        cases hcontent
        exact hget
      have hmatches : Matches ws.digest (tree'.get p) (.file file) := by
        rw [hget, if_pos rfl, matches_file]
        exact ⟨_, rfl, hlength, hhash⟩
      refine ⟨hmatches, fun q => ?_⟩
      by_cases hpq : p = q
      · subst hpq
        exact .placed rfl (.inr hmatches)
      · by_cases htq : temp = q
        · refine .same ?_
          rw [hget, if_neg hpq, if_pos htq, ← htq, h.fresh]
        · rcases h.steps q with heq | hstep
          · exact absurd heq.symm htq
          · refine hstep.congr ?_
            rw [hget, if_neg hpq, if_neg htq]
    refine (runs_rename (hcut temp tree hinternal h) fun tree' htree' => hI tree' (hfile htree').2).weaken
      (fun _ h => h) fun _ t' _ ht' => ?_
    obtain ⟨tree', htree', rfl⟩ := ht'
    exact ⟨tree', rfl, hfile htree'⟩
  suffices hboth : Fallible.Runs (sem env) I
      (if (t.device.tree.get p).any Node.isDir = true then removeDirAll p >>= fun _ => perform (.rename temp p)
        else perform (.rename temp p)) (t.setTree tree₂) fun _ t' => ∃ tree', t' = t.setTree tree' ∧
          Matches ws.digest (tree'.get p) (.file file) ∧
            ∀ q, EntryStep ws.digest p (.file file) t.device.tree tree' q from hboth
  by_cases hdir : t.device.tree.get p = some .directory
  · rw [if_pos (by simp [hdir, Node.isDir])]
    -- the directory and all in it go first
    have hne : temp ≠ p := by
      rintro rfl
      rw [hshadow₂.fresh] at hdir
      cases hdir
    have hclear {tree : WorkingTree} (h : Cleared p tree₂ tree) :
        Shadowed ws.digest p (.file file) t.device.tree temp bytes tree := by
      refine ⟨fun q => ?_, ?_, hshadow₂.fresh⟩
      · rcases h q with heq | ⟨hwithin, hnone⟩
        · rcases hshadow₂.steps q with hq | hstep
          · exact .inl hq
          · exact .inr (hstep.congr heq)
        · right
          rcases hwithin with rfl | hbeneath
          · exact .placed rfl (.inl hnone)
          · exact .cleared file rfl hbeneath hdir hnone
      · rcases h temp with heq | ⟨hwithin, _⟩
        · rw [heq]
          exact hshadow₂.held
        · rcases hwithin with heq | hbeneath
          · exact absurd heq hne
          · exact absurd hbeneath hapart
    refine Fallible.Runs.bind
      (runs_removeDirAll (w := t.setTree tree₂) fun tree h => hcut temp tree hinternal (hclear h))
      fun _ t₃ _ h₃ => ?_
    obtain ⟨tree₃, hcleared, rfl, _⟩ := h₃
    exact hrename (hclear hcleared)
  · have hno : ¬ (t.device.tree.get p).any Node.isDir = true := by
      rcases hnode : t.device.tree.get p with _ | _ | _ | _
      · simp
      · simp [Node.isDir]
      · exact absurd hnode hdir
      · simp [Node.isDir]
    rw [if_neg hno]
    exact hrename hshadow₂

/-! ### The entries -/

theorem Placed.setCache {cache : BTreeMap String Bytes} (h : Placed env ws w rules m start t)
    (hcache : CacheStep ws.digest t.device.cache cache) : Placed env ws w rules m start (t.setCache cache) :=
  ⟨h.apart.trans ⟨rfl, rfl, rfl, hcache⟩, h.paths⟩

theorem runs_cacheBlob {I : World → Prop} {contentHash : String} {bytes : Bytes}
    (hhash : sha256Hex ws.digest bytes = contentHash)
    (hI : ∀ cache, CacheStep ws.digest t.device.cache cache → I (t.setCache cache)) :
    Fallible.Runs (sem env) I (cacheBlob ws contentHash bytes) t fun _ t' =>
      ∃ cache, CacheStep ws.digest t.device.cache cache ∧ t' = t.setCache cache ∧
        HoldsHash ws.digest cache contentHash := by
  have hself : I t := hI _ (.refl _)
  refine Fallible.Runs.bind (runs_isCached hself) fun cached t' _ h => ?_
  obtain ⟨rfl, hcached⟩ := h
  by_cases hyes : cached = true
  · rw [if_pos hyes]
    exact Fallible.Runs.pure hself ⟨_, .refl _, rfl, hcached.mp hyes⟩
  · rw [if_neg hyes]
    obtain ⟨hstep, hholds⟩ := cacheStep_insert (fun b hb hhash' => hyes (hcached.mpr ⟨b, hb, hhash'⟩)) hhash
    refine (runs_writeBlob hself (hI _ hstep)).weaken (fun _ h => h) fun _ u _ hu => ?_
    exact ⟨_, hstep, hu, hholds⟩

theorem matchingLocalFile_isSome {p : RelPath} {file : FileEntry} :
    (matchingLocalFile ws start p file).isSome = true ↔ Matches ws.digest (start.get p) (.file file) := by
  unfold matchingLocalFile
  rw [matches_file]
  rcases start.get p with _ | content | _ | _
  · simp
  · by_cases hsame : content.bytes.length = file.size ∧ sha256Hex ws.digest content.bytes = file.contentHash
    · simp [hsame]
    · simp [hsame]
  · simp
  · simp

/-- The contents a manifest is applied with. -/
def AtHand (c : Crypto) (m : Manifest) (fetched : BTreeMap String Bytes) : Prop :=
  ∀ p file, m.get p = some (.file file) → ∃ bytes : Bytes, fetched[file.contentHash]? = some bytes ∧
    bytes.length = file.size ∧ sha256Hex c bytes = file.contentHash

theorem runs_applyEntry {p : RelPath} {e : ManifestEntry} {fetched : BTreeMap String Bytes} (hm : m.TreeShaped)
    (hfetched : AtHand ws.digest m fetched) (hp : m.get p = some e) (hroot : p ≠ [])
    (ht : Placed env ws w rules m start t) :
    Fallible.Runs (sem env) (Placing env ws w rules m start)
      (applyEntry ws (isUnchanged ws start) fetched (p, e)) t fun _ t' =>
      EntryPlaced env ws w rules m start p e t t' ∧
        ∀ file, e = .file file → HoldsHash ws.digest t'.device.cache file.contentHash := by
  cases e with
  | directory =>
    have hstep {tree : WorkingTree} (hnot : t.device.tree.get p ≠ some .directory)
        (h : ∀ q, EntryStep ws.digest p .directory t.device.tree tree q) :
        Placed env ws w rules m start (t.setTree tree) :=
      ht.step hm hp ((ht.paths p).differs hp fun h => hnot (matches_directory.mp h)) h
    refine (runs_prepareDirectoryPath hroot ht fun tree hnot h => hstep hnot h).weaken (fun _ h => h.placing)
      fun _ t' ht' h => ⟨?_, nofun⟩
    obtain ⟨tree, rfl, hdir, hsteps⟩ := h
    exact ⟨ht', (Apart.refl t).setTree tree, matches_directory.mpr hdir, hsteps⟩
  | file file =>
    obtain ⟨bytes, hbytes, hlength, hhash⟩ := hfetched p file hp
    unfold applyEntry isUnchanged
    simp only [hbytes]
    refine Fallible.Runs.bind (runs_cacheBlob hhash fun cache hcache => (ht.setCache hcache).placing)
      fun _ t' _ h => ?_
    obtain ⟨cache, hcache, rfl, hholds⟩ := h
    have ht' := ht.setCache hcache
    have hapart : Apart ws t (t.setCache cache) := ⟨rfl, rfl, rfl, hcache⟩
    have hfile (u : World) (hu : EntryPlaced env ws w rules m start p (.file file) (t.setCache cache) u) :
        EntryPlaced env ws w rules m start p (.file file) t u ∧
          ∀ file', ManifestEntry.file file = .file file' → HoldsHash ws.digest u.device.cache file'.contentHash := by
      refine ⟨⟨hu.placed, hapart.trans hu.apart, hu.here, hu.steps⟩, fun file' heq => ?_⟩
      cases heq
      exact hholds.step hu.apart.cache
    by_cases hlocal : (matchingLocalFile ws start p file).isSome = true
    · rw [if_pos hlocal]
      have hagrees : Agrees ws.digest m start p := (agrees_iff hp).mpr (matchingLocalFile_isSome.mp hlocal)
      refine Fallible.Runs.pure ht'.placing (hfile _ ⟨ht', .refl _, ?_, fun q => .same rfl⟩)
      rw [(ht'.paths p).of_agrees hagrees]
      exact matchingLocalFile_isSome.mp hlocal
    · rw [if_neg hlocal]
      have hdiffers : ¬ Agrees ws.digest m start p := fun h =>
        hlocal (matchingLocalFile_isSome.mpr ((agrees_iff hp).mp h))
      have hplaced {tree : WorkingTree}
          (h : ∀ q, EntryStep ws.digest p (.file file) (t.setCache cache).device.tree tree q) :
          Placed env ws w rules m start ((t.setCache cache).setTree tree) := ht'.step hm hp hdiffers h
      refine (runs_replaceFile hlength hhash ht'.placing (fun tree h => (hplaced h).placing)
        (fun temp tree htemp h => h.placing hm hp hdiffers ht' htemp)
        fun temp u htemp hu => hu.discard htemp).weaken (fun _ h => h) fun _ u _ hu => ?_
      obtain ⟨tree, rfl, hhere, hsteps⟩ := hu
      exact hfile _ ⟨hplaced hsteps, (Apart.refl _).setTree tree, hhere, hsteps⟩

variable (env ws w rules m start) in
/-- What the entries `done` leave of the tree `removed`. -/
structure EntriesPlaced (removed : WorkingTree) (done : List (RelPath × ManifestEntry)) (t : World) : Prop where
  placed : Placed env ws w rules m start t
  here : ∀ item ∈ done, Matches ws.digest (t.device.tree.get item.1) item.2
  unlisted : ∀ p, m.get p = none → t.device.tree.get p = removed.get p ∨
    (t.device.tree.get p = none ∧ ∃ q file, Beneath q p ∧ m.get q = some (.file file))
  cached : ∀ item ∈ done, ∀ file, item.2 = .file file → HoldsHash ws.digest t.device.cache file.contentHash

/-- An entry in place stays when another is put in place. -/
theorem EntryStep.keeps {p q : RelPath} {e e' : ManifestEntry} {t t' : WorkingTree} (hm : m.TreeShaped)
    (hp : m.get p = some e) (hq : m.get q = some e') (hne : q ≠ p) (hhere : Matches ws.digest (t.get q) e')
    (h : EntryStep ws.digest p e t t' q) : Matches ws.digest (t'.get q) e' := by
  rcases h with heq | ⟨_, hnone, _⟩ | ⟨heq, _⟩ | ⟨file, rfl, hbeneath, _, _⟩
  · rw [heq]
    exact hhere
  · rw [hnone] at hhere
    exact absurd hhere not_matches_none
  · exact absurd heq hne
  · have hnone := hm.none_beneath (by rw [hp]; simp) hbeneath
    rw [hq] at hnone
    cases hnone

theorem EntriesPlaced.push {removed : WorkingTree} {done : List (RelPath × ManifestEntry)} {p : RelPath}
    {e : ManifestEntry} {t' : World} (hm : m.TreeShaped) (hdone : ∀ item ∈ done, m.get item.1 = some item.2)
    (hp : m.get p = some e) (h : EntriesPlaced env ws w rules m start removed done t)
    (hentry : EntryPlaced env ws w rules m start p e t t')
    (hcached : ∀ file, e = .file file → HoldsHash ws.digest t'.device.cache file.contentHash) :
    EntriesPlaced env ws w rules m start removed (done ++ [(p, e)]) t' := by
  refine ⟨hentry.placed, fun item hitem => ?_, fun q hq => ?_, fun item hitem file hfile => ?_⟩
  · rcases List.mem_append.mp hitem with hitem | hitem
    · by_cases hsame : item.1 = p
      · have heq := hdone item hitem
        rw [hsame, hp] at heq
        cases heq
        rw [hsame]
        exact hentry.here
      · exact (hentry.steps item.1).keeps hm hp (hdone item hitem) hsame (h.here item hitem)
    · rw [List.mem_singleton] at hitem
      subst hitem
      exact hentry.here
  · rcases hentry.steps q with heq | ⟨habove, _, _⟩ | ⟨heq, _⟩ | ⟨file, rfl, hbeneath, _, hnone⟩
    · rw [heq]
      exact h.unlisted q hq
    · have hlisted := hm p e hp q habove
      rw [hq] at hlisted
      cases hlisted
    · rw [heq, hp] at hq
      cases hq
    · exact .inr ⟨hnone, p, file, hbeneath, hp⟩
  · rcases List.mem_append.mp hitem with hitem | hitem
    · exact (h.cached item hitem file hfile).step hentry.apart.cache
    · rw [List.mem_singleton] at hitem
      subst hitem
      exact hcached file hfile

theorem runs_applyEntries {fetched : BTreeMap String Bytes} (hm : m.TreeShaped) (hfetched : AtHand ws.digest m fetched)
    (hroot : m.get [] = none) (ht : Placed env ws w rules m start t) :
    Fallible.Runs (sem env) (Placing env ws w rules m start)
      (m.entries.toList.forM (applyEntry ws (isUnchanged ws start) fetched)) t
      fun _ => EntriesPlaced env ws w rules m start t.device.tree m.entries.toList := by
  refine Fallible.Runs.forM (EntriesPlaced env ws w rules m start t.device.tree) (fun _ _ _ _ h => h.placed.placing)
    ⟨ht, by simp, fun _ _ => .inl rfl, by simp⟩ fun done item rest u hl hu => ?_
  obtain ⟨p, e⟩ := item
  have hlisted : (p, e) ∈ m.entries.toList := by
    rw [hl]
    simp
  have hp : m.get p = some e := BTreeMap.mem_toList.mp hlisted
  have hne : p ≠ [] := by
    rintro rfl
    rw [hroot] at hp
    cases hp
  refine (runs_applyEntry hm hfetched hp hne hu.placed).weaken (fun _ h => h) fun _ u' _ h => ?_
  exact hu.push hm (fun item hitem => BTreeMap.mem_toList.mp
    (by rw [hl]; exact List.mem_append_left _ hitem)) hp h.1 h.2

/-! ### The checks before -/

theorem fetchBlobs_ok {tree : WorkingTree} {m : Manifest} {blobSource : String → Except String Bytes}
    {fetched : BTreeMap String Bytes} (h : fetchBlobs ws tree m blobSource = .ok fetched) :
    AtHand ws.digest m fetched := by
  unfold fetchBlobs fetchMissing at h
  obtain ⟨blobs, hblobs, h⟩ := Except.bind_ok.mp h
  obtain ⟨hsizes, h⟩ := Except.bind_unit_ok.mp h
  cases h
  have hlocal : ∀ (l : List (RelPath × ManifestEntry)) (blobs : BTreeMap String Bytes),
      (∀ (h : String) (b : Bytes), blobs[h]? = some b → sha256Hex ws.digest b = h) →
      ∀ (h : String) (b : Bytes), (l.foldl (addLocal ws tree) blobs)[h]? = some b → sha256Hex ws.digest b = h := by
    intro l
    induction l with
    | nil => exact fun _ h => h
    | cons item l ih =>
      intro blobs hblobs
      refine ih _ fun h b hb => ?_
      obtain ⟨path, entry⟩ := item
      cases entry with
      | directory => exact hblobs h b hb
      | file file =>
        unfold addLocal at hb
        cases hmatch : matchingLocalFile ws tree path file with
        | none =>
          simp only [hmatch] at hb
          exact hblobs h b hb
        | some bytes =>
          simp only [hmatch, BTreeMap.lookup_insert] at hb
          by_cases heq : file.contentHash = h
          · rw [if_pos heq] at hb
            cases hb
            unfold matchingLocalFile at hmatch
            split at hmatch
            · split at hmatch
              · rename_i hsame
                cases hmatch
                exact hsame.2.trans heq
              · cases hmatch
            · cases hmatch
          · rw [if_neg heq] at hb
            exact hblobs h b hb
  have hsound : ∀ (h : String) (b : Bytes), fetched[h]? = some b → sha256Hex ws.digest b = h := by
    refine foldlM_inv (fun _ blobs => ∀ (h : String) (b : Bytes), blobs[h]? = some b → sha256Hex ws.digest b = h)
      (hlocal _ ∅ (by simp)) ?_ hblobs
    rintro done ⟨path, entry⟩ rest blobs blobs' hl hall hfetch
    cases entry with
    | directory =>
      cases hfetch
      exact hall
    | file file =>
      by_cases hhas : blobs.contains file.contentHash = true
      · simp only [fetchEntry, if_pos hhas] at hfetch
        cases hfetch
        exact hall
      · simp only [fetchEntry, if_neg hhas] at hfetch
        obtain ⟨bytes, _, hfetch⟩ := Except.bind_ok.mp hfetch
        obtain ⟨hhash, hfetch⟩ := Except.bind_unit_ok.mp hfetch
        cases hfetch
        intro h b hb
        rw [BTreeMap.lookup_insert] at hb
        by_cases heq : file.contentHash = h
        · rw [if_pos heq] at hb
          cases hb
          exact (require_ok.mp hhash).trans heq
        · rw [if_neg heq] at hb
          exact hall h b hb
  intro p file hp
  have hsize := require_ok.mp (forM_ok.mp hsizes (p, .file file) (BTreeMap.mem_toList.mpr hp))
  obtain ⟨bytes, hbytes, hlength⟩ := Option.map_eq_some_iff.mp hsize
  exact ⟨bytes, hbytes, hlength, hsound _ _ hbytes⟩

variable (env ws w rules m start) in
/-- What an application starts from. -/
structure Start : Prop where
  edited : start = w.device.tree ∨ env.edits
  valid : validatePulledManifest ws m = .ok ()
  loaded : IgnoreRules.load ws.ignore start w.device.staged = .ok rules
  /-- Nothing is listed where something excluded would be overwritten. -/
  spared : ∀ p, start.get p ≠ none → '\\' ∉ p → isInternal p = false → ¬ Visible rules start p →
    m.get p = none ∧ ∀ q file, Beneath q p → m.get q ≠ some (.file file)

/-- The highest path that is excluded. -/
theorem excluded_root {p : RelPath} (hp : start.get p ≠ none) (hslash : '\\' ∉ p) (hnot : ¬ Visible rules start p) :
    ∃ r, Within r p ∧ rules.excludes r (start.isDirectory r) = true ∧ walkReaches rules r = true := by
  have hsome : ∃ r, Within r p ∧ rules.excludes r (start.isDirectory r) = true := by
    by_contra hnone
    push Not at hnone
    exact hnot ⟨hp, fun q hq => by simpa using hnone q hq⟩
  obtain ⟨r, ⟨hr, hexcluded⟩, hmin⟩ := WellFounded.has_min (measure (List.length (α := Char))).wf
    {r | Within r p ∧ rules.excludes r (start.isDirectory r) = true} hsome
  refine ⟨r, hr, hexcluded, ?_⟩
  unfold walkReaches
  rw [List.all_eq_true]
  intro q hq
  have hbeneath := mem_ancestors.mp hq
  have hdir : start.isDirectory q = true := by
    obtain ⟨n, hn⟩ := Option.ne_none_iff_exists'.mp hp
    exact FileTree.isDirectory_iff.mpr (start.get_above hn (hbeneath.trans_within hr))
  rw [slashed_of_plain (not_mem_above hslash (hbeneath.within.trans hr))]
  by_contra hq'
  refine hmin q ⟨hbeneath.within.trans hr, ?_⟩ hbeneath.length_lt
  rw [hdir]
  simpa using hq'

/-- A path that is excluded is within one that is protected. -/
theorem protected_of_checked {listing : List RelPath} (hlisting : listing.Perm start.nodes.keys)
    (hcheck : checkProtected m (collectWorkspacePaths rules start listing).2 = .ok ()) {p : RelPath}
    (hp : start.get p ≠ none) (hslash : '\\' ∉ p) (hinternal : isInternal p = false)
    (hnot : ¬ Visible rules start p) : ∃ r, Within r p ∧ ∀ q e, m.get q = some e → overwrites r (q, e) = false := by
  obtain ⟨r, hr, hexcluded, hreached⟩ := excluded_root hp hslash hnot
  have hrsome : start.get r ≠ none := by
    rcases hr with rfl | hr
    · exact hp
    · obtain ⟨n, hn⟩ := Option.ne_none_iff_exists'.mp hp
      rw [start.get_above hn hr]
      simp
  have hrinternal : isInternal r = false := by
    by_contra hyes
    rw [isInternal_within hr (by simpa using hyes)] at hinternal
    cases hinternal
  have hmem : r ∈ (collectWorkspacePaths rules start listing).2 := by
    have hself : slashed r = r := slashed_of_plain (not_mem_above hslash hr)
    unfold collectWorkspacePaths
    simp only [List.mem_map, List.mem_filter, Bool.and_eq_true, Bool.not_eq_true']
    refine ⟨r, ⟨⟨hlisting.mem_iff.mpr (FileTree.mem_keys.mpr hrsome), hreached, ?_⟩, ?_⟩, hself⟩
    · rw [hself]
      exact hrinternal
    · rw [hself]
      exact hexcluded
  have hfree := require_ok.mp (forM_ok.mp hcheck r hmem)
  rw [List.any_eq_false] at hfree
  exact ⟨r, hr, fun q e hq => by simpa using hfree (q, e) (BTreeMap.mem_toList.mpr hq)⟩

/-- Nothing is listed at or beneath a path that is excluded. -/
theorem unlisted_of_checked {listing : List RelPath} (hlisting : listing.Perm start.nodes.keys)
    (hcheck : checkProtected m (collectWorkspacePaths rules start listing).2 = .ok ()) (p : RelPath)
    (hp : start.get p ≠ none) (hslash : '\\' ∉ p) (hinternal : isInternal p = false)
    (hnot : ¬ Visible rules start p) (q : RelPath) (hq : Within p q) : m.get q = none := by
  obtain ⟨r, hr, hfree⟩ := protected_of_checked hlisting hcheck hp hslash hinternal hnot
  by_contra hlisted
  obtain ⟨e, he⟩ := Option.ne_none_iff_exists'.mp hlisted
  have hclash := hfree q e he
  cases e <;> simp [overwrites, hr.trans hq] at hclash

theorem spared_of_checked {listing : List RelPath} (hlisting : listing.Perm start.nodes.keys)
    (hcheck : checkProtected m (collectWorkspacePaths rules start listing).2 = .ok ()) (p : RelPath)
    (hp : start.get p ≠ none) (hslash : '\\' ∉ p) (hinternal : isInternal p = false)
    (hnot : ¬ Visible rules start p) : m.get p = none ∧ ∀ q file, Beneath q p → m.get q ≠ some (.file file) := by
  refine ⟨unlisted_of_checked hlisting hcheck p hp hslash hinternal hnot p (within_self p), fun q file hq hfile => ?_⟩
  obtain ⟨r, hr, hfree⟩ := protected_of_checked hlisting hcheck hp hslash hinternal hnot
  have hclash := hfree q (.file file) hfile
  unfold overwrites at hclash
  rw [decide_eq_false_iff_not] at hclash
  apply hclash
  rcases Within.linear hq.within hr with hqr | hrq
  · rcases hqr with rfl | hqr
    · exact .inl (within_self _)
    · exact .inr hqr
  · exact .inl hrq

/-- What the walk meets passes the filters of `collectWorkspacePaths`. -/
theorem met_iff_passes {path : RelPath} (hsome : start.get path ≠ none) :
    (∀ q, Within q path → rules.excludes (slashed q) (start.isDirectory q) = false) ↔
      (walkReaches rules path && !isInternal (slashed path)) = true ∧
        (!rules.excludes (slashed path) (start.isDirectory path)) = true := by
  have hdir {q : RelPath} (hq : Beneath q path) : start.isDirectory q = true := by
    obtain ⟨n, hn⟩ := Option.ne_none_iff_exists'.mp hsome
    exact FileTree.isDirectory_iff.mpr (start.get_above hn hq)
  unfold walkReaches
  simp only [Bool.and_eq_true, Bool.not_eq_true', List.all_eq_true]
  constructor
  · intro hfine
    have hself := hfine path (within_self path)
    refine ⟨⟨fun q hq => ?_, ?_⟩, hself⟩
    · have hbeneath := mem_ancestors.mp hq
      rw [← hdir hbeneath]
      exact hfine q hbeneath.within
    · unfold IgnoreRules.excludes at hself
      exact (Bool.or_eq_false_iff.mp hself).1
  · rintro ⟨⟨habove, _⟩, hself⟩ q hq
    rcases hq with rfl | hq
    · exact hself
    · rw [hdir hq]
      exact habove q (mem_ancestors.mpr hq)

theorem mem_localPaths {listing : List RelPath} (hlisting : listing.Perm start.nodes.keys) {p : RelPath} :
    p ∈ (collectWorkspacePaths rules start listing).1 ↔ Met rules start p := by
  have hmem (path : RelPath) : path ∈ listing ↔ start.get path ≠ none := by
    rw [hlisting.mem_iff]
    exact FileTree.mem_keys
  unfold collectWorkspacePaths
  simp only [List.mem_map, List.mem_filter, hmem]
  constructor
  · rintro ⟨path, ⟨⟨hsome, hmet⟩, hself⟩, rfl⟩
    exact ⟨path, rfl, hsome, (met_iff_passes hsome).mpr ⟨hmet, hself⟩⟩
  · rintro ⟨path, rfl, hsome, hfine⟩
    obtain ⟨hmet, hself⟩ := (met_iff_passes hsome).mp hfine
    exact ⟨path, ⟨⟨hsome, hmet⟩, hself⟩, rfl⟩

/-! ### The whole application -/

variable (env ws w rules m start) in
/-- What is left when a manifest has been applied. -/
structure Applied (t : World) : Prop where
  begun : Start env ws w rules m start
  remote : t.remote = w.remote
  syncState : t.device.syncState = w.device.syncState
  staged : t.device.staged = some m
  cache : CacheStep ws.digest w.device.cache t.device.cache
  cached : Cached ws.digest t.device.cache m
  paths : ∀ p, Reached env ws.digest rules m start p (t.device.tree.get p)
  listed : ∀ p e, m.get p = some e → Matches ws.digest (t.device.tree.get p) e
  /-- What was met and is still there without an entry has something in it. -/
  unlisted : ∀ p, Met rules start p → m.get p = none →
    t.device.tree.get p = none ∨ ∃ q, Beneath p q ∧ t.device.tree.get q ≠ none

variable (env ws w m) in
/-- Where an application may be cut short. -/
inductive Applying (t : World) : Prop
  | looked (h : Edited env w t)
  | placing (rules : IgnoreRules) (start : WorkingTree) (hstart : Start env ws w rules m start)
      (h : Placing env ws w rules m start t)
  | applied (rules : IgnoreRules) (start : WorkingTree) (h : Applied env ws w rules m start t)

/-- **What applying a manifest makes of the tree.** -/
theorem runs_applyPulledManifest {I : World → Prop} {blobSource : String → Except String Bytes} (hm : m.TreeShaped)
    (hI : ∀ t, Applying env ws w m t → I t) :
    Fallible.Runs (sem env) I (applyPulledManifest ws m blobSource) w
      fun _ t => ∃ rules start, Applied env ws w rules m start t := by
  refine Fallible.Runs.check_bind (hI w (.looked (.refl w))) fun _ hvalid => ?_
  refine runs_look (fun t ht => hI t (.looked ht)) fun t listing ht hlisting => ?_
  have hlooked : I t := hI t (.looked ht)
  refine Fallible.Runs.check_bind hlooked fun rules hrules => ?_
  refine Fallible.Runs.check_bind hlooked fun _ hcheck => ?_
  refine Fallible.Runs.check_bind hlooked fun fetched hfetch => ?_
  obtain ⟨start, hedit, rfl⟩ := ht
  have hvalid : validatePulledManifest ws m = .ok () := engine_ok.mp hvalid
  have hstart : Start env ws w rules m start :=
    ⟨hedit, hvalid, engine_ok.mp hrules, spared_of_checked hlisting (engine_ok.mp hcheck)⟩
  have hplacing (u : World) (h : Placing env ws w rules m start u) : I u := hI u (.placing rules start hstart h)
  have hmet : ∀ p ∈ (collectWorkspacePaths rules start listing).1, Met rules start p :=
    fun p hp => (mem_localPaths hlisting).mp hp
  have hbegin : Removing env ws w rules m start (w.setTree start) := ⟨(Apart.refl w).setTree start, fun _ => .inl rfl⟩
  refine Fallible.Runs.bind ((runs_removeEntriesMissingFromRemote hm hmet hbegin).weaken
    (fun u hu => hplacing u hu.placed.placing) fun _ _ _ h => h) fun _ t₁ _ h₁ => ?_
  obtain ⟨hremoving, hgone⟩ := h₁
  have hroot : m.get [] = none := by
    by_contra hsome
    obtain ⟨e, he⟩ := Option.ne_none_iff_exists'.mp hsome
    obtain ⟨_, hpaths⟩ := Except.bind_unit_ok.mp hvalid
    obtain ⟨hpath, _⟩ := Except.bind_unit_ok.mp (forM_ok.mp hpaths ([], e) (BTreeMap.mem_toList.mpr he))
    revert hpath
    decide
  refine Fallible.Runs.bind ((runs_applyEntries hm (fetchBlobs_ok (engine_ok.mp hfetch)) hroot hremoving.placed).weaken
    hplacing fun _ _ _ h => h) fun _ t₂ hI₂ h₂ => ?_
  have hentry {p : RelPath} {e : ManifestEntry} (hp : m.get p = some e) : (p, e) ∈ m.entries.toList :=
    BTreeMap.mem_toList.mpr hp
  have happlied : Applied env ws w rules m start (t₂.setStaged m) := by
    have hhere (p : RelPath) (e : ManifestEntry) (hp : m.get p = some e) :
        Matches ws.digest (t₂.device.tree.get p) e := h₂.here (p, e) (hentry hp)
    refine ⟨hstart, h₂.placed.apart.remote, h₂.placed.apart.syncState, rfl, h₂.placed.apart.cache,
      fun p file hp => h₂.cached _ (hentry hp) file rfl, h₂.placed.paths, hhere, fun p hp hnone => ?_⟩
    change t₂.device.tree.get p = none ∨ ∃ q, Beneath p q ∧ t₂.device.tree.get q ≠ none
    rcases h₂.unlisted p hnone with heq | ⟨hgone', _⟩
    · rcases hgone p ((mem_localPaths hlisting).mpr hp) hnone with hnone' | ⟨q, hq, hsome⟩
      · exact .inl (heq.trans hnone')
      · -- nothing beneath the path is listed
        have hqnone : m.get q = none := hm.none_beneath (by rw [hnone]; simp) hq
        rcases h₂.unlisted q hqnone with heq' | ⟨_, r, file, hr, hfile⟩
        · exact .inr ⟨q, hq, by rw [heq']; exact hsome⟩
        · left
          rcases hr.linear hq with rfl | hrp | hpr
          · rw [hnone] at hfile
            cases hfile
          · obtain ⟨content, hcontent, _⟩ := matches_file.mp (hhere r (.file file) hfile)
            exact FileTree.get_beneath (by rw [hcontent]; simp) hrp
          · rw [hm.none_beneath (by rw [hnone]; simp) hpr] at hfile
            cases hfile
    · exact .inl hgone'
  refine (runs_saveManifest hI₂ (hI _ (.applied rules start happlied))).weaken (fun _ h => h) fun _ t₃ _ h₃ => ?_
  rw [h₃]
  exact ⟨rules, start, happlied⟩

end Phases

end RustSync
