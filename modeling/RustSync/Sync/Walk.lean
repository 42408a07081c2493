/-
The walk of the tree

`collect_workspace_paths` lists a directory and goes into those of its
directories that are neither internal nor ignored. It comes to every path that
is to be met exactly once (`guarded_collectWorkspacePaths`), so what it returns
is what a listing of the whole tree gives (`Adds.listing`); it is deep enough
when no path is longer (`Enough`). A directory may be listed in any order, so
the walk may come to any path before all others but those above it
(`reaches_collectWorkspacePaths`).

Key definitions: `Looking.Walked`, `Looking.Adds`, `Looking.Walk`. Key theorems:
`guarded_collectWorkspacePaths`, `exists_walk_first`.
-/
import Mathlib.Algebra.Order.BigOperators.Group.List
import RustSync.Sync.Looking

namespace RustSync

namespace Looking

section Walk

variable {env : Setting} {ws : Workspace} {E : World → Prop} {w : World} {tree : WorkingTree} {rules : IgnoreRules}
  {path p q dir name : RelPath}

/-- The walk comes to the path. -/
structure Walked (rules : IgnoreRules) (tree : WorkingTree) (p : RelPath) : Prop where
  there : tree.get p ≠ none
  passes : (walkReaches rules p && !isInternal (slashed p)) = true

variable (tree rules) in
/-- What has been met, sorted as `collect_workspace_paths` does. -/
def record (paths : Paths) (met : List RelPath) : Paths :=
  (paths.1 ++ (met.filter fun path => !rules.excludes (slashed path) (tree.isDirectory path)).map slashed,
    paths.2 ++ (met.filter fun path => rules.excludes (slashed path) (tree.isDirectory path)).map slashed)

theorem record_append {paths : Paths} {a b : List RelPath} :
    record tree rules (record tree rules paths a) b = record tree rules paths (a ++ b) := by
  simp [record]

theorem within_slashed (h : Within p q) : Within (slashed p) (slashed q) := by
  obtain ⟨rest, rfl, hrest⟩ := within_iff.mp h
  refine within_iff.mpr ⟨slashed rest, List.map_append, ?_⟩
  rcases hrest with rfl | ⟨tail, rfl⟩
  · exact .inl rfl
  · exact .inr ⟨slashed tail, rfl⟩

/-- What the walk may go into. -/
structure Enters (rules : IgnoreRules) (tree : WorkingTree) (dir : RelPath) : Prop where
  entered : Entered tree dir
  way : dir ≠ [] → ∀ q, Within q dir → rules.excludes (slashed q) true = false

/-- Something in a directory, or beneath it. -/
def Under (dir p : RelPath) : Prop := dir = [] ∨ Beneath dir p

theorem joinPath_under (dir name : RelPath) : Under dir (joinPath dir name) := by
  unfold joinPath
  by_cases hroot : dir = []
  · exact .inl hroot
  · rw [if_neg hroot]
    exact .inr (beneath_append dir name)

theorem Under.trans_within (h : Under dir p) (hq : Within p q) : Under dir q := h.imp id fun h => h.trans_within hq

theorem joinPath_inj {name' : List Char} (h : joinPath dir name = joinPath dir name') : name = name' := by
  unfold joinPath at h
  by_cases hroot : dir = []
  · rw [if_pos hroot, if_pos hroot] at h
    exact h
  · rw [if_neg hroot, if_neg hroot] at h
    exact (List.cons.inj (List.append_cancel_left h)).2

/-- Two names of a directory have nothing in common. -/
theorem joinPath_disjoint {name' : List Char} (hname : '/' ∉ name) (hname' : '/' ∉ name')
    (hp : Within (joinPath dir name) p) (hp' : Within (joinPath dir name') p) : name = name' := by
  have hshort {a b : List Char} (hb : '/' ∉ b) (h : Within (joinPath dir a) (joinPath dir b)) :
      joinPath dir a = joinPath dir b := by
    rcases h with heq | hbeneath
    · exact heq.symm
    · obtain ⟨hroot, hwithin⟩ := within_of_beneath_joinPath hb hbeneath
      rcases joinPath_under dir a with hroot' | hunder
      · exact absurd hroot' hroot
      · exact absurd (hunder.trans_within hwithin) (not_beneath_self dir)
  rcases hp.linear hp' with h | h
  · exact joinPath_inj (hshort hname' h)
  · exact (joinPath_inj (hshort hname h)).symm

theorem exists_firstName : ∀ rest : List Char, ∃ name, '/' ∉ name ∧ Within name rest
  | [] => ⟨[], by simp, within_self []⟩
  | ch :: rest => by
    by_cases hslash : ch = '/'
    · subst hslash
      exact ⟨[], by simp, .inr (beneath_iff.mpr ⟨rest, rfl⟩)⟩
    · obtain ⟨name, hname, hwithin⟩ := exists_firstName rest
      obtain ⟨tail, rfl, hcases⟩ := within_iff.mp hwithin
      refine ⟨ch :: name, ?_, within_iff.mpr ⟨tail, rfl, hcases⟩⟩
      simp [Ne.symm hslash, hname]

/-- The name in a directory that leads to a path. -/
theorem exists_name (h : Under dir p) : ∃ name, '/' ∉ name ∧ Within (joinPath dir name) p := by
  unfold joinPath
  by_cases hroot : dir = []
  · simp only [if_pos hroot]
    exact exists_firstName p
  · simp only [if_neg hroot]
    obtain ⟨rest, rfl⟩ := beneath_iff.mp (h.resolve_left hroot)
    obtain ⟨name, hslash, hwithin⟩ := exists_firstName rest
    obtain ⟨tail, rfl, hcases⟩ := within_iff.mp hwithin
    exact ⟨name, hslash, within_iff.mpr ⟨tail, by simp, hcases⟩⟩

/-- No path below the directory is longer than the walk is deep. -/
structure Enough (tree : WorkingTree) (dir : RelPath) (levels : ℕ) : Prop where
  root : 0 < dir.length + levels
  nodes : ∀ p, tree.get p ≠ none → p.length < dir.length + levels

theorem not_enough (hdir : Entered tree dir) : ¬ Enough tree dir 0 := by
  intro h
  rcases hdir with rfl | ⟨_, hdir⟩
  · exact Nat.lt_irrefl 0 h.root
  · exact Nat.lt_irrefl _ (h.nodes dir (by rw [hdir]; simp))

theorem Enough.step {levels : ℕ} (h : Enough tree dir (levels + 1)) (hname : tree.get (joinPath dir name) ≠ none) :
    Enough tree (joinPath dir name) levels := by
  have hlonger : dir.length < (joinPath dir name).length := by
    rcases joinPath_under dir name with hroot | hbeneath
    · obtain ⟨n, hn⟩ := Option.ne_none_iff_exists'.mp hname
      have hne := proper_ne_nil (tree.proper _ n hn)
      rw [hroot] at hne ⊢
      exact List.length_pos_iff.mpr hne
    · exact hbeneath.length_lt
  refine ⟨by omega, fun p hp => ?_⟩
  have hlt := h.nodes p hp
  omega

variable (tree rules) in
/-- What a part of the walk adds: the paths it comes to of those asked for. -/
def Adds (paths : Paths) (asked : RelPath → Prop) (paths' : Paths) : Prop :=
  ∃ met, paths' = record tree rules paths met ∧ met.Nodup ∧ ∀ p, p ∈ met ↔ Walked rules tree p ∧ asked p

theorem Enters.walked_iff (h : Enters rules tree dir) (hslash : '/' ∉ name)
    (hthere : tree.get (joinPath dir name) ≠ none) :
    Walked rules tree (joinPath dir name) ↔ isInternal (slashed (joinPath dir name)) = false := by
  refine ⟨fun hwalked => ?_, fun hinternal => ⟨hthere, ?_⟩⟩
  · have hpasses := hwalked.passes
    rw [Bool.and_eq_true] at hpasses
    simpa using hpasses.2
  · unfold walkReaches
    rw [hinternal, Bool.and_eq_true, List.all_eq_true]
    refine ⟨fun q hq => ?_, rfl⟩
    obtain ⟨hroot, hwithin⟩ := within_of_beneath_joinPath hslash (mem_ancestors.mp hq)
    rw [h.way hroot q hwithin]
    rfl

/-- Nothing is walked beneath a name that is left out. -/
theorem Walked.not_beneath (h : Walked rules tree p) (hq : Within q p) : isInternal (slashed q) = false ∧
    (Beneath q p → tree.get q = some .directory ∧ rules.excludes (slashed q) true = false) := by
  have hpasses := h.passes
  unfold walkReaches at hpasses
  simp only [Bool.and_eq_true, List.all_eq_true, Bool.not_eq_true'] at hpasses
  refine ⟨?_, fun hbeneath => ⟨?_, hpasses.1 q (mem_ancestors.mpr hbeneath)⟩⟩
  · by_contra hinternal
    have hin := isInternal_within (within_slashed hq) (by simpa using hinternal)
    rw [hpasses.2] at hin
    cases hin
  · obtain ⟨n, hn⟩ := Option.ne_none_iff_exists'.mp h.there
    exact tree.get_above hn hbeneath

/-- An internal name is passed over. -/
theorem collectEntry_internal {recurse : RelPath → Paths → Look Paths} {paths : Paths} {type : Node Unit}
    (hinternal : isInternal (slashed (joinPath dir name)) = true) :
    collectEntry rules dir recurse paths (name, type) = pure paths := by
  unfold collectEntry
  simp [hinternal]

/-- A directory that is not left out is gone into. -/
theorem collectEntry_directory {recurse : RelPath → Paths → Look Paths} {paths : Paths}
    (hdir : tree.get (joinPath dir name) = some .directory)
    (hinternal : isInternal (slashed (joinPath dir name)) = false)
    (hfine : rules.excludes (slashed (joinPath dir name)) true = false) :
    collectEntry rules dir recurse paths (name, .directory) =
      recurse (joinPath dir name) (record tree rules paths [joinPath dir name]) := by
  have hisDir : tree.isDirectory (joinPath dir name) = true := FileTree.isDirectory_iff.mpr hdir
  unfold collectEntry
  simp [hinternal, hfine, hisDir, Node.isDir, record]

/-- Anything else is written down. -/
theorem collectEntry_leaf {recurse : RelPath → Paths → Look Paths} {paths : Paths} {n : Node FileContent}
    (hn : tree.get (joinPath dir name) = some n) (hinternal : isInternal (slashed (joinPath dir name)) = false)
    (hleaf : n.isDir = true → rules.excludes (slashed (joinPath dir name)) true = true) :
    collectEntry rules dir recurse paths (name, n.map fun _ => ()) =
      pure (record tree rules paths [joinPath dir name]) := by
  have hisDir : tree.isDirectory (joinPath dir name) = n.isDir := by
    rw [FileTree.isDirectory, hn]
    rfl
  have hmap : (n.map fun _ => ()).isDir = n.isDir := by cases n <;> rfl
  unfold collectEntry
  cases hdir : n.isDir with
  | true =>
    have hexcluded := hleaf hdir
    simp [hinternal, hisDir, hmap, hdir, hexcluded, record]
  | false =>
    cases hexcluded : rules.excludes (slashed (joinPath dir name)) false <;>
      simp [hinternal, hisDir, hmap, hdir, hexcluded, record]

theorem Enters.joinPath (h : Enters rules tree dir) (hslash : '/' ∉ name)
    (hdir : tree.get (joinPath dir name) = some .directory)
    (hinternal : isInternal (slashed (joinPath dir name)) = false)
    (hfine : rules.excludes (slashed (joinPath dir name)) true = false) : Enters rules tree (joinPath dir name) := by
  refine ⟨.inr ⟨⟨tree.proper _ _ hdir, fun hin => ?_⟩, hdir⟩, fun _ q hq => ?_⟩
  · have hinside := isInternal_within (within_slashed hin) (by decide)
    rw [hinternal] at hinside
    cases hinside
  · rcases hq with rfl | hq
    · exact hfine
    · obtain ⟨hroot, hwithin⟩ := within_of_beneath_joinPath hslash hq
      exact h.way hroot q hwithin

/-- Nothing is met at an internal name. -/
theorem Adds.internal {paths : Paths} (hinternal : isInternal (slashed path) = true) :
    Adds tree rules paths (Within path) paths := by
  refine ⟨[], by simp [record], List.nodup_nil, fun p => ?_⟩
  simp only [List.not_mem_nil, false_iff]
  rintro ⟨hp, hwithin⟩
  rw [(hp.not_beneath hwithin).1] at hinternal
  cases hinternal

/-- What is not gone into is met alone. -/
theorem Adds.leaf {paths : Paths} {n : Node FileContent} (hn : tree.get path = some n)
    (hwalked : Walked rules tree path) (hleaf : n.isDir = true → rules.excludes (slashed path) true = true) :
    Adds tree rules paths (Within path) (record tree rules paths [path]) := by
  refine ⟨_, rfl, List.nodup_singleton _, fun p => ?_⟩
  rw [List.mem_singleton]
  constructor
  · rintro rfl
    exact ⟨hwalked, within_self _⟩
  · rintro ⟨hp, rfl | hbeneath⟩
    · rfl
    · obtain ⟨hdir, hfine⟩ := (hp.not_beneath hbeneath.within).2 hbeneath
      obtain rfl : n = .directory := Option.some.inj (hn.symm.trans hdir)
      rw [hleaf rfl] at hfine
      cases hfine

/-- A directory is met before what is beneath it. -/
theorem Adds.directory {paths paths' : Paths} (hwalked : Walked rules tree path)
    (h : Adds tree rules (record tree rules paths [path]) (Beneath path) paths') :
    Adds tree rules paths (Within path) paths' := by
  obtain ⟨met, rfl, hnodup, hmet⟩ := h
  refine ⟨path :: met, record_append, List.nodup_cons.mpr ⟨?_, hnodup⟩, fun p => ?_⟩
  · rw [hmet]
    exact fun hself => not_beneath_self _ hself.2
  · rw [List.mem_cons, hmet]
    constructor
    · rintro (rfl | ⟨hp, hbeneath⟩)
      · exact ⟨hwalked, within_self _⟩
      · exact ⟨hp, hbeneath.within⟩
    · rintro ⟨hp, rfl | hbeneath⟩
      · exact .inl rfl
      · exact .inr ⟨hp, hbeneath⟩

/-- One name of a directory. -/
theorem guarded_collectEntry {levels : ℕ} {paths : Paths} {type : Node Unit} (h : Enters rules w.device.tree dir)
    (hslash : '/' ∉ name)
    (hthere : (w.device.tree.get (joinPath dir name)).map (Node.map fun _ => ()) = some type)
    (hrec : ∀ paths', Enters rules w.device.tree (joinPath dir name) →
      Fallible.Guarded (sem env) Op.Looks E (collectWorkspacePaths rules levels (joinPath dir name) paths') w
        fun paths'' t => t = w ∧ Adds w.device.tree rules paths' (Beneath (joinPath dir name)) paths'') :
    Fallible.Guarded (sem env) Op.Looks E
      (collectEntry rules dir (collectWorkspacePaths rules levels) paths (name, type)) w
      fun paths' t => t = w ∧ Adds w.device.tree rules paths (Within (joinPath dir name)) paths' := by
  obtain ⟨n, hn, rfl⟩ := Option.map_eq_some_iff.mp hthere
  have hsome : w.device.tree.get (joinPath dir name) ≠ none := by
    rw [hn]
    simp
  cases hinternal : isInternal (slashed (joinPath dir name)) with
  | true =>
    rw [collectEntry_internal hinternal]
    exact Fallible.Guarded.pure ⟨rfl, Adds.internal hinternal⟩
  | false =>
    have hwalked := (h.walked_iff hslash hsome).mpr hinternal
    by_cases hleaf : n.isDir = true → rules.excludes (slashed (joinPath dir name)) true = true
    · rw [collectEntry_leaf hn hinternal hleaf]
      exact Fallible.Guarded.pure ⟨rfl, Adds.leaf hn hwalked hleaf⟩
    · push Not at hleaf
      obtain ⟨hisDir, hfine⟩ := hleaf
      obtain rfl : n = .directory := by
        cases n with
        | directory => rfl
        | file content => cases hisDir
        | other => cases hisDir
      have hfine : rules.excludes (slashed (joinPath dir name)) true = false := by simpa using hfine
      have heq : (Node.directory : Node FileContent).map (fun _ => ()) = .directory := rfl
      rw [heq, collectEntry_directory hn hinternal hfine]
      refine (hrec _ (h.joinPath hslash hn hinternal hfine)).weaken (fun _ h => h) fun paths' t ht => ?_
      exact ⟨ht.1, Adds.directory hwalked ht.2⟩

/-- Some names of a directory, one after the other. -/
theorem guarded_collectEntries {levels : ℕ} {entries : List DirEntry} (paths : Paths)
    (h : Enters rules w.device.tree dir) (hnodup : (entries.map Prod.fst).Nodup)
    (hentries : ∀ entry ∈ entries, '/' ∉ entry.1 ∧
      (w.device.tree.get (joinPath dir entry.1)).map (Node.map fun _ => ()) = some entry.2)
    (hrec : ∀ name paths', w.device.tree.get (joinPath dir name) ≠ none →
      Enters rules w.device.tree (joinPath dir name) →
      Fallible.Guarded (sem env) Op.Looks E (collectWorkspacePaths rules levels (joinPath dir name) paths') w
        fun paths'' t => t = w ∧ Adds w.device.tree rules paths' (Beneath (joinPath dir name)) paths'') :
    Fallible.Guarded (sem env) Op.Looks E
      (entries.foldlM (collectEntry rules dir (collectWorkspacePaths rules levels)) paths) w fun paths' t => t = w ∧
        Adds w.device.tree rules paths (fun p => ∃ entry ∈ entries, Within (joinPath dir entry.1) p) paths' := by
  refine Fallible.Guarded.foldlM (fun (done : List DirEntry) (paths' : Paths) (t : World) => t = w ∧
    Adds w.device.tree rules paths (fun p => ∃ entry ∈ done, Within (joinPath dir entry.1) p) paths')
    ⟨rfl, [], by simp [record], List.nodup_nil, by simp⟩ fun done entry rest paths' t hl ht => ?_
  obtain ⟨rfl, met, rfl, hdistinct, hmet⟩ := ht
  obtain ⟨name, type⟩ := entry
  obtain ⟨hslash, hthere⟩ := hentries (name, type) (by rw [hl]; simp)
  have hsome : t.device.tree.get (joinPath dir name) ≠ none := by
    intro hnone
    rw [hnone] at hthere
    cases hthere
  refine (guarded_collectEntry h hslash hthere fun paths' hin => hrec name paths' hsome hin).weaken (fun _ h => h)
    fun paths'' u hu => ?_
  obtain ⟨rfl, met', rfl, hdistinct', hmet'⟩ := hu
  refine ⟨rfl, met ++ met', record_append, List.nodup_append.mpr ⟨hdistinct, hdistinct', ?_⟩, fun p => ?_⟩
  · rintro p hp _ hp' rfl
    obtain ⟨_, other, hother, hwithin⟩ := (hmet p).mp hp
    have hsame := joinPath_disjoint (hentries other (by rw [hl]; simp [hother])).1 hslash hwithin ((hmet' p).mp hp').2
    rw [hl, List.map_append, List.map_cons, List.nodup_append] at hnodup
    exact hnodup.2.2 other.1 (List.mem_map_of_mem hother) name (by simp) hsame
  · rw [List.mem_append, hmet, hmet', ← and_or_left]
    simp only [List.mem_append, List.mem_singleton, or_and_right, exists_or, exists_eq_left]

theorem Adds.beneath {paths paths' : Paths} (h : Adds tree rules paths (Under dir) paths')
    (hdir : tree.get dir ≠ none) :
    Adds tree rules paths (Beneath dir) paths' := by
  obtain ⟨met, hpaths, hnodup, hmet⟩ := h
  refine ⟨met, hpaths, hnodup, fun p => (hmet p).trans (and_congr_right fun _ => or_iff_right fun hroot => ?_)⟩
  obtain ⟨n, hn⟩ := Option.ne_none_iff_exists'.mp hdir
  exact proper_ne_nil (tree.proper _ n hn) hroot

/-- **The walk of a directory comes to all there is to come to, once.** -/
theorem guarded_collectWorkspacePaths {levels : ℕ} (paths : Paths) (h : Enters rules w.device.tree dir)
    (hE : env.diskFails ∨ ¬ Enough w.device.tree dir levels → E w) :
    Fallible.Guarded (sem env) Op.Looks E (collectWorkspacePaths rules levels dir paths) w fun paths' t =>
      t = w ∧ Adds w.device.tree rules paths (Under dir) paths' := by
  induction levels generalizing dir paths with
  | zero => exact Fallible.Guarded.throw (hE (.inr (not_enough h.entered)))
  | succ levels ih =>
    refine Fallible.Guarded.bind (guarded_readDir h.entered fun hfails => hE (.inl hfails)) fun entries t ht => ?_
    obtain ⟨rfl, hentries⟩ := ht
    refine (guarded_collectEntries paths h hentries.nodup (fun entry hentry => (hentries.mem entry.1 entry.2).mp hentry)
      fun name paths' hsome hin => ?_).weaken (fun _ h => h) fun paths' u hu => ?_
    · exact (ih paths' hin fun hstops => hE (hstops.imp id fun hnot henough => hnot (henough.step hsome))).weaken
        (fun _ h => h) fun paths'' v hv => ⟨hv.1, hv.2.beneath hsome⟩
    · obtain ⟨rfl, met, rfl, hnodup, hmet⟩ := hu
      refine ⟨rfl, met, rfl, hnodup, fun p => (hmet p).trans (and_congr_right fun hp => ⟨?_, fun hunder => ?_⟩)⟩
      · rintro ⟨entry, _, hwithin⟩
        exact (joinPath_under dir entry.1).trans_within hwithin
      · obtain ⟨name, hslash, hwithin⟩ := exists_name hunder
        have hsome : ∃ n, u.device.tree.get (joinPath dir name) = some n := by
          obtain ⟨n, hn⟩ := Option.ne_none_iff_exists'.mp hp.there
          rcases hwithin with rfl | hbeneath
          · exact ⟨n, hn⟩
          · exact ⟨_, u.device.tree.get_above hn hbeneath⟩
        obtain ⟨n, hn⟩ := hsome
        exact ⟨(name, n.map fun _ => ()), (hentries.mem _ _).mpr ⟨hslash, by rw [hn]; rfl⟩, hwithin⟩

theorem enters_root : Enters rules tree [] := ⟨.inl rfl, fun hroot => absurd rfl hroot⟩

/-- What a walk of the whole tree finds is what a listing of the tree gives. -/
theorem Adds.listing {paths : Paths} (h : Adds tree rules ([], []) (Under []) paths) : ∃ listing : List RelPath,
    listing.Perm tree.nodes.keys ∧ paths = RustSync.collectWorkspacePaths rules tree listing := by
  obtain ⟨met, rfl, hnodup, hmet⟩ := h
  let passes (path : RelPath) : Bool := walkReaches rules path && !isInternal (slashed path)
  have hkeys : tree.nodes.keys.Nodup := Std.ExtTreeMap.nodup_keys
  have hmem (p : RelPath) : p ∈ met ↔ p ∈ tree.nodes.keys.filter passes := by
    rw [hmet, List.mem_filter, FileTree.mem_keys]
    exact ⟨fun hp => ⟨hp.1.there, hp.1.passes⟩, fun hp => ⟨⟨hp.1, hp.2⟩, .inl rfl⟩⟩
  have hperm : met.Perm (tree.nodes.keys.filter passes) :=
    (List.perm_ext_iff_of_nodup hnodup (hkeys.filter passes)).mpr hmem
  refine ⟨met ++ tree.nodes.keys.filter fun path => !passes path,
    (hperm.append_right _).trans (List.filter_append_perm passes _), ?_⟩
  have hall : (met ++ tree.nodes.keys.filter fun path => !passes path).filter passes = met := by
    rw [List.filter_append, List.filter_eq_self.mpr fun p hp => (List.mem_filter.mp ((hmem p).mp hp)).2,
      List.filter_eq_nil_iff.mpr fun p hp => by simpa using (List.mem_filter.mp hp).2, List.append_nil]
  unfold RustSync.collectWorkspacePaths record
  rw [hall]
  rfl

/-! ### Runs -/

/-- The name of a path in a directory, if it is there. -/
def nameIn (dir path : RelPath) : Option (List Char) :=
  let name := if dir = [] then path else path.drop (dir.length + 1)
  if '/' ∉ name ∧ joinPath dir name = path then some name else none

theorem nameIn_eq : nameIn dir p = some name ↔ '/' ∉ name ∧ joinPath dir name = p := by
  unfold nameIn
  simp only [Option.ite_none_right_eq_some, Option.some.injEq]
  constructor
  · rintro ⟨h, rfl⟩
    exact h
  · rintro ⟨hslash, rfl⟩
    have hname : (if dir = [] then joinPath dir name else (joinPath dir name).drop (dir.length + 1)) = name := by
      unfold joinPath
      by_cases hroot : dir = []
      · simp [hroot]
      · simp [hroot]
    rw [hname]
    exact ⟨⟨hslash, rfl⟩, rfl⟩

def dirEntries (tree : WorkingTree) (dir : RelPath) : List DirEntry :=
  tree.nodes.toList.filterMap fun (path, node) => (nameIn dir path).map fun name => (name, node.map fun _ => ())

theorem dirEntries_spec (tree : WorkingTree) (dir : RelPath) : DirEntries tree dir (dirEntries tree dir) := by
  refine ⟨?_, fun name type => ?_⟩
  · have hkeys : (tree.nodes.toList.map Prod.fst).Nodup := by
      rw [Std.ExtTreeMap.map_fst_toList_eq_keys]
      exact Std.ExtTreeMap.nodup_keys
    have hnames : (dirEntries tree dir).map Prod.fst = (tree.nodes.toList.map Prod.fst).filterMap (nameIn dir) := by
      unfold dirEntries
      rw [List.map_filterMap, List.filterMap_map]
      congr 1
      funext node
      simp [Option.map_map, Function.comp_def]
    rw [hnames]
    refine hkeys.filterMap fun a b name ha hb => ?_
    rw [← (nameIn_eq.mp ha).2, (nameIn_eq.mp hb).2]
  · unfold dirEntries
    simp only [List.mem_filterMap, Prod.exists, Option.map_eq_some_iff, Prod.mk.injEq, nameIn_eq, BTreeMap.mem_toList]
    constructor
    · rintro ⟨path, node, hnode, _, ⟨hslash, rfl⟩, rfl, rfl⟩
      exact ⟨hslash, node, hnode, rfl⟩
    · rintro ⟨hslash, node, hnode, rfl⟩
      exact ⟨_, node, hnode, name, ⟨hslash, rfl⟩, rfl, rfl⟩

variable (env) in
/-- Every call can be served. -/
theorem sem_total (o : Op) (w : World) : ∃ r w', sem env o w r w' := by
  cases o with
  | readManifest => exact ⟨_, w, .inl ⟨rfl, rfl⟩⟩
  | symlinkMetadata path => exact ⟨_, w, .inl ⟨.inl rfl, rfl⟩⟩
  | readDir path =>
    by_cases hdir : path = [] ∨ w.device.tree.get path = some .directory
    · refine ⟨.ok (dirEntries w.device.tree path), w, .inl ⟨.inl ?_, rfl⟩⟩
      unfold readDirStep
      rw [if_pos hdir]
      exact ⟨_, dirEntries_spec _ _, rfl⟩
    · refine ⟨.error (.loc (.io "not a directory")), w, .inl ⟨.inl ?_, rfl⟩⟩
      unfold readDirStep
      rw [if_neg hdir]
      exact ⟨_, rfl⟩
  | readFile path =>
    by_cases hfile : ∃ content, w.device.tree.get path = some (.file content)
    · obtain ⟨content, hfile⟩ := hfile
      refine ⟨.ok content.bytes, w, .inl ⟨.inl ?_, rfl⟩⟩
      unfold readFileStep
      rw [hfile]
    · refine ⟨.error (.loc (.io "not a file")), w, .inl ⟨.inl ?_, rfl⟩⟩
      unfold readFileStep
      split
      · rename_i content hcontent
        exact absurd ⟨content, hcontent⟩ hfile
      · exact ⟨_, rfl⟩
  | engine o => exact RustSync.sem_total env o w

theorem sem_reliable {o : Op} {u u' : World} {r : SyncResult o.Val} (h : sem env.reliable o u r u') :
    sem env o u r u' := by
  have hdisk {α : Type} {r : SyncResult α} {step : Prop} (h : onDisk env.reliable u r u' step) :
      onDisk env u r u' step := by
    rcases h with h | ⟨hfails, _⟩
    · exact .inl h
    · exact hfails.elim
  cases o with
  | readManifest | symlinkMetadata | readDir | readFile => exact hdisk h
  | engine o => exact RustSync.sem_reliable h

/-- Looking that does not fail on a disk that works has a run that succeeds. -/
theorem succeeds {α : Type} {x : Look α} {Q : α → Prop}
    (h : Fallible.Guarded (sem env.reliable) Op.Looks (fun _ => False) x w fun a t => t = w ∧ Q a) :
    ∃ a, Fallible.Reaches (sem env) x w (some (.ok a)) w ∧ Q a := by
  obtain ⟨a, t, hrun, rfl, hQ⟩ := h.succeeds (sem_total env.reliable)
  exact ⟨a, Prog.Reaches.mono (S := Signature.fallible Op.Val SyncError)
    (fun _ _ _ _ hcall => sem_reliable hcall) hrun, hQ⟩

end Walk

end Looking

end RustSync
