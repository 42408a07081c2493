/-
Guarded changes of the tree

Where the engine's helpers may go, and that they do not fail. A call stays in
the workspace if its path is one of the workspace and nothing above it is a
link (`Site`, `Op.Inside`); what is read of the folder `.rustsync` are the
manifest and contents by their verified hashes. Each helper stays inside, and
fails only where the disk does, if everything above its path is a directory or
missing (`Open`).

Key definitions: `Site`, `Op.Inside`, `Open`. Key theorems:
`guarded_createDirAll`, `guarded_removeDirAll`, `guarded_removeEntry`,
`guarded_prepareDirectoryPath`, `guarded_replaceFile`.
-/
import RustSync.Lib.Guarded
import RustSync.Sync.Apply

namespace RustSync

/-! ### Where a call may go -/

section Sites

variable {tree tree' : WorkingTree} {p q dir name : RelPath}

/-- A path of the workspace that is not reached through a link. -/
structure Site (tree : WorkingTree) (p : RelPath) : Prop where
  inside : InWorkspace p
  unlinked : ∀ q, Beneath q p → tree.get q ≠ some .other

/-- The call stays in the workspace, and in the folder `.rustsync` with the
staged manifest and contents under their hashes. -/
def Op.Inside (c : Crypto) : Op → World → Prop
  | .saveManifest _, _ => True
  | .metadata path, w | .createDir path, w | .remove path, w | .discardTemp path, w => Site w.device.tree path
  | .list path, w => Site w.device.tree path ∧ w.device.tree.get path ≠ some .other
  | .writeTemp parent _, w => parent = [] ∨ (Site w.device.tree parent ∧ w.device.tree.get parent ≠ some .other)
  | .rename temp path, w => Site w.device.tree temp ∧ Site w.device.tree path
  | .cachedBlob contentHash, _ => ∃ bytes, sha256Hex c bytes = contentHash
  | .writeBlob contentHash bytes, _ => sha256Hex c bytes = contentHash
  | _, _ => False

/-- Everything above the path is a directory, or missing. -/
def Open (tree : WorkingTree) (p : RelPath) : Prop :=
  ∀ q, Beneath q p → tree.get q = some .directory ∨ tree.get q = none

theorem InWorkspace.above (h : InWorkspace p) (hq : Within q p) : InWorkspace q :=
  ⟨h.proper.above hq, fun hin => h.outside (hin.trans hq)⟩

/-- Nothing is above the folder `.rustsync`. -/
theorem InWorkspace.beneath (h : InWorkspace p) (hq : Within p q) (hproper : Proper q) : InWorkspace q := by
  refine ⟨hproper, fun hin => ?_⟩
  rcases hin.linear hq with hp | hp
  · exact h.outside hp
  · rcases hp with heq | hbeneath
    · exact h.outside (.inl heq.symm)
    · obtain ⟨rest, hrest⟩ := beneath_iff.mp hbeneath
      have hslash : '/' ∈ ".rustsync".toList := by
        rw [hrest]
        simp
      revert hslash
      decide

theorem Open.unlinked (h : Open tree p) (hq : Beneath q p) : tree.get q ≠ some .other := by
  rcases h q hq with hdir | hnone
  · rw [hdir]
    simp
  · rw [hnone]
    simp

theorem Open.site (h : Open tree p) (hp : InWorkspace p) : Site tree p := ⟨hp, fun _ hq => h.unlinked hq⟩

theorem Open.above (h : Open tree p) (hq : Within q p) : Open tree q := fun _ hr => h _ (hr.trans_within hq)

theorem Open.stat (h : Open tree p) : stat tree p = .ok (tree.get p) := stat_of_dirs h

theorem open_of_some (h : tree.get p ≠ none) : Open tree p := by
  obtain ⟨n, hn⟩ := Option.ne_none_iff_exists'.mp h
  exact fun q hq => .inl (tree.get_above hn hq)

/-- A file above the path is all there is on the way. -/
theorem site_of_file {content : FileContent} (hp : InWorkspace p) (hq : Beneath q p)
    (hfile : tree.get q = some (.file content)) : Site tree p := by
  refine ⟨hp, fun r hr => ?_⟩
  rcases hr.linear hq with rfl | hrq | hqr
  · rw [hfile]
    simp
  · rw [tree.get_above hfile hrq]
    simp
  · rw [FileTree.get_beneath (by rw [hfile]; simp) hqr]
    simp

theorem stat_of_file {content : FileContent} (hq : Beneath q p) (hfile : tree.get q = some (.file content)) :
    stat tree p = .error (.io "not a directory") := by
  unfold RustSync.stat
  rw [if_pos]
  rw [List.any_eq_true]
  refine ⟨q, mem_ancestors.mpr hq, ?_⟩
  rw [hfile]
  rfl

theorem Open.cleared {path : RelPath} (h : Open tree p) (hcleared : Cleared path tree tree') : Open tree' p := by
  intro q hq
  rcases hcleared q with heq | ⟨_, hnone⟩
  · rw [heq]
    exact h q hq
  · exact .inr hnone

/-- What is above a path is its parent, or above it. -/
theorem within_parentOf (hq : Beneath q p) : Within q (parentOf p) := by
  have hmem : q ∈ ancestors p := mem_ancestors.mpr hq
  obtain ⟨init, last, hlast⟩ := (List.eq_nil_or_concat' (ancestors p)).resolve_left (List.ne_nil_of_mem hmem)
  have hparent : parentOf p = last := by
    unfold parentOf
    rw [hlast, List.getLast?_append]
    rfl
  rw [hparent]
  have hsorted := ancestors_sorted p
  rw [hlast] at hmem hsorted
  rcases List.mem_append.mp hmem with hinit | hself
  · exact ((List.pairwise_append.mp hsorted).2.2 q hinit last (List.mem_singleton_self _)).within
  · rw [List.mem_singleton.mp hself]
    exact within_self _

theorem isName_tempName {suffix : List Char} (hsuffix : suffix.all Char.isAlphanum = true) :
    isName (tempName suffix) = true := by
  have hnul : '\x00' ∉ suffix := by
    intro hmem
    have halnum := List.all_eq_true.mp hsuffix _ hmem
    revert halnum
    decide
  unfold isName tempName
  simp [hnul]

theorem proper_joinPath (hdir : dir = [] ∨ Proper dir) (hslash : '/' ∉ name) (hname : isName name = true) :
    Proper (joinPath dir name) := by
  unfold joinPath
  by_cases hroot : dir = []
  · rw [if_pos hroot]
    unfold Proper
    rw [components_of_noSlash hslash]
    simp [hname]
  · rw [if_neg hroot]
    have hproper := hdir.resolve_left hroot
    unfold Proper at hproper ⊢
    rw [components_append_slash, components_of_noSlash hslash, List.all_append, hproper]
    simp [hname]

theorem InWorkspace.joinPath (hdir : dir = [] ∨ InWorkspace dir) {suffix : List Char}
    (hsuffix : suffix.all Char.isAlphanum = true) : InWorkspace (joinPath dir (tempName suffix)) := by
  have hproper := proper_joinPath (hdir.imp id InWorkspace.proper) (noSlash_tempName hsuffix) (isName_tempName hsuffix)
  by_cases hroot : dir = []
  · refine ⟨hproper, ?_⟩
    unfold RustSync.joinPath tempName
    rw [if_pos hroot]
    rintro (heq | hbeneath)
    · simp at heq
    · obtain ⟨tail, htail⟩ := beneath_iff.mp hbeneath
      simp at htail
  · refine (hdir.resolve_left hroot).beneath ?_ hproper
    unfold RustSync.joinPath
    rw [if_neg hroot]
    exact (beneath_append dir _).within

end Sites

/-! ### Calls -/

section Calls

variable {env : Setting} {c : Crypto} {E : World → Prop} {w : World} {path : RelPath}

theorem guarded_onDisk {o : Op} {step : SyncResult o.Val → World → Prop} {Q : o.Val → World → Prop}
    (hmay : Op.Inside c o w) (hsem : ∀ r t, sem env o w r t → onDisk env w r t (step r t))
    (hE : env.diskFails → E w) (hstep : ∀ r t, step r t → (∃ a, r = .ok a ∧ Q a t) ∨ ((∃ e, r = .error e) ∧ E t)) :
    Fallible.Guarded (sem env) (Op.Inside c) E (perform o) w Q := by
  refine Fallible.Guarded.op hmay fun r t hcall => ?_
  rcases hsem r t hcall with h | ⟨hfails, ⟨text, hr⟩, rfl⟩
  · rcases hstep r t h with ⟨a, rfl, hQ⟩ | ⟨⟨e, rfl⟩, hE'⟩
    · exact hQ
    · exact hE'
  · rw [hr]
    exact hE hfails

theorem guarded_read (hE : env.diskFails → E w) :
    Fallible.Guarded (sem env) (fun _ _ => True) E (perform .read) w fun a t => ∃ tree,
      (tree = w.device.tree ∨ env.edits) ∧ a.2.Perm tree.nodes.keys ∧ t = w.setTree tree ∧ a.1 = t.device := by
  refine Fallible.Guarded.op trivial fun r t hcall => ?_
  rcases hcall with ⟨tree, listing, hedit, hperm, rfl, rfl⟩ | ⟨hfails, ⟨text, hr⟩, rfl⟩
  · exact ⟨tree, hedit, hperm, rfl, rfl⟩
  · rw [hr]
    exact hE hfails

/-- Looking fails where something above is not a directory. -/
theorem guarded_metadata (hsite : Site w.device.tree path)
    (hE : env.diskFails ∨ (∃ e, stat w.device.tree path = .error e) → E w) :
    Fallible.Guarded (sem env) (Op.Inside c) E (perform (.metadata path)) w fun a t =>
      t = w ∧ stat w.device.tree path = .ok a := by
  refine guarded_onDisk hsite (fun _ _ h => h) (fun hfails => hE (.inl hfails)) fun r t h => ?_
  obtain ⟨rfl, rfl⟩ := h
  cases hstat : stat t.device.tree path with
  | ok a => exact .inl ⟨a, rfl, rfl, rfl⟩
  | error e => exact .inr ⟨⟨_, rfl⟩, hE (.inr ⟨e, hstat⟩)⟩

/-- Looking past a file fails. -/
theorem guarded_stat_file {α : Type} {f : Option (Node FileContent) → Sync α} {R : α → World → Prop} {q : RelPath}
    {content : FileContent} (hinside : InWorkspace path) (hq : Beneath q path)
    (hfile : w.device.tree.get q = some (.file content)) (hE : E w) :
    Fallible.Guarded (sem env) (Op.Inside c) E (perform (.metadata path) >>= f) w R := by
  refine Fallible.Guarded.bind (guarded_metadata (site_of_file hinside hq hfile) fun _ => hE) fun a t h => ?_
  obtain ⟨rfl, hstat⟩ := h
  rw [stat_of_file hq hfile] at hstat
  cases hstat

/-- Looking along an open path. -/
theorem guarded_stat {α : Type} {f : Option (Node FileContent) → Sync α} {R : α → World → Prop}
    (hinside : InWorkspace path) (hopen : Open w.device.tree path) (hE : env.diskFails → E w)
    (hf : Fallible.Guarded (sem env) (Op.Inside c) E (f (w.device.tree.get path)) w R) :
    Fallible.Guarded (sem env) (Op.Inside c) E (perform (.metadata path) >>= f) w R := by
  refine Fallible.Guarded.bind (guarded_metadata (hopen.site hinside) ?_) fun a t h => ?_
  · rintro (hfails | ⟨e, he⟩)
    · exact hE hfails
    · rw [hopen.stat] at he
      cases he
  · obtain ⟨rfl, hstat⟩ := h
    rw [stat_ok hstat]
    exact hf

theorem guarded_list (hinside : InWorkspace path) (hdir : w.device.tree.get path = some .directory)
    (hE : env.diskFails → E w) :
    Fallible.Guarded (sem env) (Op.Inside c) E (perform (.list path)) w fun a t => t = w ∧ Listing w path a := by
  have hopen : Open w.device.tree path := open_of_some (by rw [hdir]; simp)
  refine guarded_onDisk ⟨hopen.site hinside, by rw [hdir]; simp⟩ (fun _ _ h => h) hE fun r t h => ?_
  obtain ⟨listing, hlisting, rfl, rfl⟩ := h
  exact .inl ⟨listing, rfl, rfl, hlisting⟩

theorem guarded_createDir (hsite : Site w.device.tree path) (hcreate : createDirIn w.device.tree path ≠ none)
    (hE : env.diskFails → E w) :
    Fallible.Guarded (sem env) (Op.Inside c) E (perform (.createDir path)) w fun _ t =>
      ∃ tree, createDirIn w.device.tree path = some tree ∧ t = w.setTree tree := by
  refine guarded_onDisk hsite (fun _ _ h => h.elim .inl .inr) hE fun r t h => ?_
  split at h
  · rename_i tree htree
    obtain ⟨rfl, rfl⟩ := h
    exact .inl ⟨(), rfl, tree, htree, rfl⟩
  · rename_i hnone
    exact absurd hnone hcreate

theorem guarded_remove (hinside : InWorkspace path) (hsome : w.device.tree.get path ≠ none)
    (hE : env.diskFails → E w) :
    Fallible.Guarded (sem env) (Op.Inside c) E (perform (.remove path)) w fun a t =>
      (a = .done ∧ ∃ tree, w.device.tree.remove path = some tree ∧ t = w.setTree tree) ∨
        (a = .notEmpty ∧ w.device.tree.remove path = none ∧ t = w) := by
  refine guarded_onDisk ((open_of_some hsome).site hinside) (fun _ _ h => h) hE fun r t h => ?_
  unfold removeStep at h
  split at h
  · rename_i hnone
    exact absurd hnone hsome
  · rename_i htree
    obtain ⟨rfl, rfl⟩ := h
    exact .inl ⟨_, rfl, .inl ⟨rfl, _, htree, rfl⟩⟩
  · rename_i hnone
    obtain ⟨rfl, rfl⟩ := h
    exact .inl ⟨_, rfl, .inr ⟨rfl, hnone, rfl⟩⟩

theorem guarded_writeTemp {bytes : Bytes} (hinside : path = [] ∨ InWorkspace path)
    (hdir : path = [] ∨ w.device.tree.get path = some .directory) (hE : env.diskFails → E w) :
    Fallible.Guarded (sem env) (Op.Inside c) E (perform (.writeTemp path bytes)) w fun temp t =>
      ∃ tree, FreshTemp w path bytes temp tree ∧ t = w.setTree tree := by
  have hmay : Op.Inside c (.writeTemp path bytes) w := by
    rcases hdir with hroot | hdir
    · exact .inl hroot
    · rcases hinside with hroot | hinside
      · exact .inl hroot
      · have hopen : Open w.device.tree path := open_of_some (by rw [hdir]; simp)
        exact .inr ⟨hopen.site hinside, by rw [hdir]; simp⟩
  refine guarded_onDisk hmay (fun _ _ h => h) hE fun r t h => ?_
  unfold writeTempStep at h
  rw [if_neg] at h
  · obtain ⟨temp, tree, htemp, rfl, rfl⟩ := h
    exact .inl ⟨temp, rfl, tree, htemp, rfl⟩
  · rintro ⟨hroot, hnot⟩
    rcases hdir with heq | hdir
    · exact hroot heq
    · exact hnot hdir

theorem guarded_rename {temp : RelPath} (hmay : Op.Inside c (.rename temp path) w)
    (hrename : renameIn w.device.tree temp path ≠ none) (hE : env.diskFails → E w) :
    Fallible.Guarded (sem env) (Op.Inside c) E (perform (.rename temp path)) w fun _ t =>
      ∃ tree, renameIn w.device.tree temp path = some tree ∧ t = w.setTree tree := by
  refine guarded_onDisk hmay (fun _ _ h => h.elim .inl .inr) hE fun r t h => ?_
  split at h
  · rename_i tree htree
    obtain ⟨rfl, rfl⟩ := h
    exact .inl ⟨(), rfl, tree, htree, rfl⟩
  · rename_i hnone
    exact absurd hnone hrename

theorem guarded_discardTemp {temp : RelPath} {E' : World → Prop} (hsite : Site w.device.tree temp) (hE : E' w)
    (hE' : ∀ tree, w.device.tree.remove temp = some tree → E' (w.setTree tree)) :
    Fallible.Guarded (sem env) (Op.Inside c) E (perform (.discardTemp temp)) w fun _ => E' := by
  refine Fallible.Guarded.op hsite fun r t h => ?_
  obtain ⟨rfl, rfl | ⟨tree, htree, rfl⟩⟩ := h
  · exact hE
  · exact hE' tree htree

theorem guarded_cachedBlob {contentHash : String} {bytes : Bytes} (hhash : sha256Hex c bytes = contentHash)
    (hE : env.diskFails → E w) :
    Fallible.Guarded (sem env) (Op.Inside c) E (perform (.cachedBlob contentHash)) w fun _ t => t = w := by
  refine guarded_onDisk ⟨bytes, hhash⟩ (fun _ _ h => h) hE fun r t h => ?_
  obtain ⟨rfl, rfl⟩ := h
  exact .inl ⟨_, rfl, rfl⟩

theorem guarded_writeBlob {contentHash : String} {bytes : Bytes} (hhash : sha256Hex c bytes = contentHash)
    (hE : env.diskFails → E w) :
    Fallible.Guarded (sem env) (Op.Inside c) E (perform (.writeBlob contentHash bytes)) w
      fun _ t => t = w.addBlob contentHash bytes := by
  refine guarded_onDisk hhash (fun _ _ h => h) hE fun r t h => ?_
  obtain ⟨rfl, rfl⟩ := h
  exact .inl ⟨(), rfl, rfl⟩

theorem guarded_saveManifest {m : Manifest} (hE : env.diskFails → E w) :
    Fallible.Guarded (sem env) (Op.Inside c) E (perform (.saveManifest m)) w fun _ t => t = w.setStaged m := by
  refine guarded_onDisk trivial (fun _ _ h => h) hE fun r t h => ?_
  obtain ⟨rfl, rfl⟩ := h
  exact .inl ⟨(), rfl, rfl⟩

end Calls

/-! ### Helpers -/

section Helpers

variable {env : Setting} {c : Crypto} {E : World → Prop} {w : World} {path : RelPath}

theorem guarded_createDirAll (hinside : path = [] ∨ InWorkspace path) (hopen : Open w.device.tree path)
    (hself : path = [] ∨ w.device.tree.get path = some .directory ∨ w.device.tree.get path = none)
    (hE : env.diskFails → ∀ tree, E (w.setTree tree)) :
    Fallible.Guarded (sem env) (Op.Inside c) E (createDirAll path) w fun _ t => ∃ tree,
      Made path w.device.tree tree ∧ t = w.setTree tree ∧
        ∀ q, q ≠ [] → Within q path → tree.get q = some .directory := by
  unfold createDirAll
  by_cases hroot : path = []
  · rw [if_pos hroot]
    refine Fallible.Guarded.pure ⟨_, .refl _ _, rfl, fun q hne hq => ?_⟩
    rcases hq with rfl | hq
    · exact absurd hroot hne
    · rw [hroot] at hq
      exact absurd hq.length_lt (by simp)
  · rw [if_neg hroot]
    have hin : InWorkspace path := hinside.resolve_left hroot
    have hsorted : (ancestors path ++ [path]).Pairwise Beneath := by
      rw [List.pairwise_append]
      refine ⟨ancestors_sorted path, List.pairwise_singleton _ _, fun q hq r hr => ?_⟩
      rw [List.mem_singleton.mp hr]
      exact mem_ancestors.mp hq
    have hmem {q : RelPath} : q ∈ ancestors path ++ [path] ↔ Within q path := by
      rw [List.mem_append, mem_ancestors, List.mem_singleton]
      constructor
      · rintro (hq | rfl)
        · exact hq.within
        · exact within_self _
      · rintro (rfl | hq)
        · exact .inr rfl
        · exact .inl hq
    let J (done : List RelPath) (t : World) : Prop := ∃ tree, Made path w.device.tree tree ∧ t = w.setTree tree ∧
      ∀ q ∈ done, tree.get q = some .directory
    refine (Fallible.Guarded.forM J ⟨_, .refl _ _, rfl, by simp⟩ fun done q rest t hl ht => ?_).weaken
      (fun _ h => h) fun _ t ht => ?_
    · obtain ⟨tree, hmade, rfl, hdone⟩ := ht
      have hq : Within q path := hmem.mp (by rw [hl]; simp)
      -- everything above was made before
      have habove (r : RelPath) (hr : Beneath r q) : tree.get r = some .directory := by
        have hrl : r ∈ done ++ q :: rest := by
          rw [← hl]
          exact hmem.mpr (hr.trans_within hq).within
        rcases List.mem_append.mp hrl with hrdone | hrrest
        · exact hdone r hrdone
        · rw [hl, List.pairwise_append, List.pairwise_cons] at hsorted
          rcases List.mem_cons.mp hrrest with rfl | hrrest
          · exact absurd hr (not_beneath_self _)
          · exact absurd (hsorted.2.1.1 r hrrest) hr.asymm
      have hnode : tree.get q = some .directory ∨ tree.get q = none := by
        have hstart : w.device.tree.get q = some .directory ∨ w.device.tree.get q = none := by
          rcases hq with rfl | hq
          · exact hself.resolve_left hroot
          · exact hopen q hq
        rcases hmade q with heq | ⟨_, _, hdir⟩
        · rw [heq]
          exact hstart
        · exact .inl hdir
      have hsite : InWorkspace q := hin.above hq
      have hopenq : Open tree q := fun r hr => .inl (habove r hr)
      refine guarded_stat (w := w.setTree tree) hsite hopenq (fun hfails => hE hfails tree) ?_
      rw [setTree_tree]
      rcases hnode with hdir | hnone
      · rw [hdir]
        refine Fallible.Guarded.pure ⟨tree, hmade, rfl, fun r hr => ?_⟩
        rcases List.mem_append.mp hr with hr | hr
        · exact hdone r hr
        · rw [List.mem_singleton.mp hr]
          exact hdir
      · rw [hnone]
        have hcreate : createDirIn tree q ≠ none := by
          obtain ⟨tree', htree'⟩ := FileTree.put_isSome (n := .directory) hsite.proper habove fun r hr =>
            FileTree.get_beneath (by rw [hnone]; simp) hr
          unfold createDirIn
          rw [if_pos hnone, htree']
          simp
        refine (guarded_createDir (w := w.setTree tree) (hopenq.site hsite) hcreate fun hfails =>
          hE hfails tree).weaken (fun _ h => h) fun _ t ht => ?_
        obtain ⟨tree', htree', rfl⟩ := ht
        obtain ⟨hstep, hdir⟩ := made_createDirIn hq htree'
        refine ⟨tree', hmade.trans hstep, rfl, fun r hr => ?_⟩
        rcases List.mem_append.mp hr with hr | hr
        · rw [hstep.keeps (by rw [setTree_tree, hdone r hr]; simp)]
          exact hdone r hr
        · rw [List.mem_singleton.mp hr]
          exact hdir
    · obtain ⟨tree, hmade, rfl, hdone⟩ := ht
      exact ⟨tree, hmade, rfl, fun q _ hq => hdone q (hmem.mpr hq)⟩

theorem guarded_removeNode (hinside : InWorkspace path) (hsome : w.device.tree.get path ≠ none)
    (hfree : ∀ q, Beneath path q → w.device.tree.get q = none) (hE : env.diskFails → E w) :
    Fallible.Guarded (sem env) (Op.Inside c) E (removeNode path) w
      fun _ t => ∃ tree, w.device.tree.remove path = some tree ∧ t = w.setTree tree := by
  unfold removeNode
  refine Fallible.Guarded.bind (guarded_remove hinside hsome hE) fun a t h => ?_
  rcases h with ⟨rfl, tree, htree, rfl⟩ | ⟨rfl, hnone, _⟩
  · exact Fallible.Guarded.pure ⟨tree, htree, rfl⟩
  · obtain ⟨tree, htree⟩ := FileTree.remove_isSome hfree
    rw [hnone] at htree
    cases htree

theorem guarded_removeDirAll (hinside : InWorkspace path) (hdir : w.device.tree.get path = some .directory)
    (hE : env.diskFails → ∀ tree, Cleared path w.device.tree tree → E (w.setTree tree)) :
    Fallible.Guarded (sem env) (Op.Inside c) E (removeDirAll path) w fun _ t => ∃ tree,
      Cleared path w.device.tree tree ∧ t = w.setTree tree ∧ ∀ q, Within path q → tree.get q = none := by
  unfold removeDirAll
  refine Fallible.Guarded.bind (guarded_list hinside hdir fun hfails => hE hfails _ (.refl _ _))
    fun (listing : List RelPath) t h => ?_
  obtain ⟨rfl, hlisting⟩ := h
  let J (done : List RelPath) (u : World) : Prop := ∃ tree, u = t.setTree tree ∧
    ∀ q, tree.get q = if q ∈ done then none else t.device.tree.get q
  have hcleared {done rest : List RelPath} {tree : WorkingTree} (hl : listing = done ++ rest)
      (h : ∀ q, tree.get q = if q ∈ done then none else t.device.tree.get q) : Cleared path t.device.tree tree := by
    intro q
    by_cases hq : q ∈ done
    · have hin : q ∈ (listing : List RelPath) := by
        rw [hl]
        exact List.mem_append_left _ hq
      exact .inr ⟨((hlisting.mem q).mp hin).1.within, by rw [h q, if_pos hq]⟩
    · exact .inl (by rw [h q, if_neg hq])
  refine Fallible.Guarded.bind (Fallible.Guarded.forM J ⟨t.device.tree, rfl, by simp⟩
    fun done q rest u hl hu => ?_) fun _ u hu => ?_
  · obtain ⟨tree, rfl, hget⟩ := hu
    have hin : q ∈ (listing : List RelPath) := by
      rw [hl]
      simp
    obtain ⟨hbeneath, hsome⟩ := (hlisting.mem q).mp hin
    have horder := hlisting.order
    rw [hl, List.pairwise_append, List.pairwise_cons] at horder
    have hnotdone : q ∉ done := fun hq =>
      horder.2.2 q hq q List.mem_cons_self (within_self q)
    have hqsome : tree.get q ≠ none := by
      rw [hget q, if_neg hnotdone]
      exact hsome
    have hproper : Proper q := by
      obtain ⟨n, hn⟩ := Option.ne_none_iff_exists'.mp hsome
      exact t.device.tree.proper q n hn
    -- what is beneath it went before
    have hfree (r : RelPath) (hr : Beneath q r) : tree.get r = none := by
      rw [hget r]
      by_cases hrdone : r ∈ done
      · rw [if_pos hrdone]
      · rw [if_neg hrdone]
        by_contra hrsome
        have hrl : r ∈ (listing : List RelPath) := (hlisting.mem r).mpr ⟨hbeneath.trans hr, hrsome⟩
        rw [hl, List.mem_append, List.mem_cons] at hrl
        rcases hrl with hrl | rfl | hrl
        · exact hrdone hrl
        · exact not_beneath_self _ hr
        · exact horder.2.1.1 r hrl hr.within
    refine (guarded_removeNode (w := t.setTree tree) (hinside.beneath hbeneath.within hproper) hqsome hfree
      fun hfails => hE hfails tree (hcleared hl hget)).weaken (fun _ h => h) fun _ u hu => ?_
    obtain ⟨tree', htree', rfl⟩ := hu
    refine ⟨tree', rfl, fun r => ?_⟩
    rw [FileTree.get_remove htree', setTree_tree, hget r]
    by_cases hqr : q = r
    · simp [hqr]
    · simp [hqr, Ne.symm hqr]
  · obtain ⟨tree, rfl, hget⟩ := hu
    have hnone (q : RelPath) (hq : Beneath path q) : tree.get q = none := by
      rw [hget q]
      by_cases hin : q ∈ (listing : List RelPath)
      · rw [if_pos hin]
      · rw [if_neg hin]
        by_contra hsome
        exact hin ((hlisting.mem q).mpr ⟨hq, hsome⟩)
    have hself : tree.get path ≠ none := by
      rw [hget path, if_neg fun hin => not_beneath_self _ ((hlisting.mem path).mp hin).1, hdir]
      simp
    have hclear : Cleared path t.device.tree tree := hcleared (List.append_nil _).symm hget
    refine (guarded_removeNode (w := t.setTree tree) hinside hself hnone fun hfails => hE hfails tree hclear).weaken
      (fun _ h => h) fun _ u hu => ?_
    obtain ⟨tree', htree', rfl⟩ := hu
    refine ⟨tree', hclear.trans (cleared_remove (within_self _) htree').1, rfl, fun q hq => ?_⟩
    rw [FileTree.get_remove htree', setTree_tree]
    rcases hq with rfl | hq
    · rw [if_pos rfl]
    · rw [hnone q hq, ite_self]

end Helpers

/-! ### Entries -/

section Entries

variable {env : Setting} {ws : Workspace} {E : World → Prop} {t : World} {p : RelPath} {m : Manifest}

variable (env m p) in
/-- What the removal of an entry may have done. -/
structure Removal (tree tree' : WorkingTree) : Prop where
  cleared : Cleared p tree tree'
  gone : m.get p = none → tree.get p ≠ some .directory → tree'.get p = none
  kept : m.get p ≠ none → tree' = tree
  lost : ∀ q, q ≠ p → tree'.get q = tree.get q ∨ (env.diskFails ∧ Beneath p q ∧ ∀ r, Within p r → tree'.get r = none)

theorem guarded_removePathIfExists {c : Crypto} (hinside : InWorkspace p) (hopen : Open t.device.tree p)
    (hp : m.get p = none) (hdisk : t.device.tree.get p = some .directory → env.diskFails)
    (hE : env.diskFails → ∀ tree, E (t.setTree tree)) :
    Fallible.Guarded (sem env) (Op.Inside c) E (removePathIfExists p) t fun _ t' => ∃ tree, t' = t.setTree tree ∧
      Removal env p m t.device.tree tree := by
  have hself (hfails : env.diskFails) : E t := hE hfails t.device.tree
  unfold removePathIfExists
  refine guarded_stat hinside hopen hself ?_
  have hfile (hsome : t.device.tree.get p ≠ none) (hdir : t.device.tree.get p ≠ some .directory) :
      Fallible.Guarded (sem env) (Op.Inside c) E (removeNode p) t fun _ t' => ∃ tree, t' = t.setTree tree ∧
        Removal env p m t.device.tree tree := by
    refine (guarded_removeNode hinside hsome (fun q hq => FileTree.get_beneath hdir hq) hself).weaken (fun _ h => h)
      fun _ t' h => ?_
    obtain ⟨tree, htree, rfl⟩ := h
    obtain ⟨hcleared, hnone⟩ := cleared_remove (within_self p) htree
    refine ⟨tree, rfl, hcleared, fun _ _ => hnone, fun hlisted => absurd hp hlisted, fun q hq => .inl ?_⟩
    rw [FileTree.get_remove htree, if_neg (Ne.symm hq)]
  cases hnode : t.device.tree.get p with
  | none => exact Fallible.Guarded.pure ⟨t.device.tree, rfl, .refl _ _, fun _ _ => hnode, fun _ => rfl,
      fun _ _ => .inl rfl⟩
  | some node =>
    cases node with
    | directory =>
      refine (guarded_removeDirAll hinside hnode fun hfails tree _ => hE hfails tree).weaken (fun _ h => h)
        fun _ t' h => ?_
      obtain ⟨tree, hcleared, rfl, hgone⟩ := h
      refine ⟨tree, rfl, hcleared, fun _ _ => hgone p (within_self p), fun hlisted => absurd hp hlisted, fun q hq => ?_⟩
      rcases hcleared q with heq | ⟨hwithin, _⟩
      · exact .inl heq
      · exact .inr ⟨hdisk hnode, hwithin.resolve_left hq, hgone⟩
    | _ =>
      apply hfile
      · rw [hnode]
        simp
      · rw [hnode]
        simp

theorem guarded_removeEntry {c : Crypto} (hinside : InWorkspace p) (hopen : Open t.device.tree p)
    (hrefused : validateLocalPath p ≠ .ok () → E t) (hE : env.diskFails → ∀ tree, E (t.setTree tree)) :
    Fallible.Guarded (sem env) (Op.Inside c) E (removeEntry m p) t fun _ t' => ∃ tree, t' = t.setTree tree ∧
      Removal env p m t.device.tree tree := by
  have hself (hfails : env.diskFails) : E t := hE hfails t.device.tree
  unfold removeEntry
  by_cases hlisted : m.containsPath p = true
  · rw [if_pos hlisted]
    have hp : m.get p ≠ none := Option.isSome_iff_ne_none.mp hlisted
    exact Fallible.Guarded.pure ⟨t.device.tree, rfl, .refl _ _, fun hnone => absurd hnone hp, fun _ => rfl,
      fun _ _ => .inl rfl⟩
  · rw [if_neg hlisted]
    have hp : m.get p = none := by
      unfold Manifest.containsPath at hlisted
      simpa using hlisted
    refine Fallible.Guarded.check_bind (fun e he => hrefused fun hok => ?_) fun _ _ => ?_
    · rw [hok] at he
      cases he
    refine Fallible.Guarded.bind (Fallible.Guarded.attempt_op (Q := fun r t' => t' = t ∧
      (r = .ok (t.device.tree.get p) ∨ (env.diskFails ∧ ∃ e, r = .error e))) (hopen.site hinside)
      fun r t' hcall => ?_) fun r t' hr => ?_
    · rcases hcall with ⟨hr, rfl⟩ | ⟨hfails, ⟨text, hr⟩, rfl⟩
      · rw [hopen.stat] at hr
        exact ⟨rfl, .inl hr⟩
      · exact ⟨rfl, .inr ⟨hfails, _, hr⟩⟩
    · obtain ⟨rfl, hr⟩ := hr
      split
      · have hdir : t'.device.tree.get p = some .directory := by
          rcases hr with heq | ⟨_, e, he⟩
          · exact (Except.ok.inj heq).symm
          · cases he
        -- what is still in it stays
        refine Fallible.Guarded.bind (guarded_remove hinside (by rw [hdir]; simp) hself) fun a u hout => ?_
        refine Fallible.Guarded.pure ?_
        rcases hout with ⟨rfl, tree, htree, rfl⟩ | ⟨rfl, _, rfl⟩
        · refine ⟨tree, rfl, (cleared_remove (within_self p) htree).1, fun _ hnot => absurd hdir hnot,
            fun h => absurd hp h, fun q hq => .inl ?_⟩
          rw [FileTree.get_remove htree, if_neg (Ne.symm hq)]
        · exact ⟨_, rfl, .refl _ _, fun _ hnot => absurd hdir hnot, fun h => absurd hp h, fun _ _ => .inl rfl⟩
      · rename_i hnot
        refine guarded_removePathIfExists hinside hopen hp (fun hdir => ?_) hE
        rcases hr with heq | ⟨hfails, _⟩
        · rw [hdir] at heq
          exact absurd heq hnot
        · exact hfails

theorem guarded_prepareDirectoryPath (hinside : InWorkspace p) (hopen : Open t.device.tree p)
    (hE : env.diskFails → ∀ tree, E (t.setTree tree)) :
    Fallible.Guarded (sem env) (Op.Inside ws.digest) E (prepareDirectoryPath p) t fun _ t' => ∃ tree,
      t' = t.setTree tree ∧ tree.get p = some .directory ∧
        ∀ q, EntryStep ws.digest p .directory t.device.tree tree q := by
  suffices hfine : Fallible.Guarded (sem env) (Op.Inside ws.digest) E (prepareDirectoryPath p) t fun _ _ => True from
    (hfine.and_runs (runs_prepareDirectoryPath (I := fun _ => True) hinside.ne_nil trivial
      fun _ _ _ => trivial)).weaken (fun _ h => h) fun _ _ h => h.2
  have hself (hfails : env.diskFails) : E t := hE hfails t.device.tree
  unfold prepareDirectoryPath
  refine guarded_stat hinside hopen hself ?_
  cases hnode : t.device.tree.get p with
  | none =>
    exact (guarded_createDirAll (.inr hinside) hopen (.inr (.inr hnode)) hE).weaken (fun _ h => h)
      fun _ _ _ => trivial
  | some node =>
    have hreplace (hnot : t.device.tree.get p ≠ some .directory) :
        Fallible.Guarded (sem env) (Op.Inside ws.digest) E (removeNode p >>= fun _ => createDirAll p) t
          fun _ _ => True := by
      refine Fallible.Guarded.bind (guarded_removeNode hinside (by rw [hnode]; simp)
        (fun q hq => FileTree.get_beneath hnot hq) hself) fun _ t' h => ?_
      obtain ⟨mid, hremove, rfl⟩ := h
      obtain ⟨hcleared, hnone⟩ := cleared_remove (within_self p) hremove
      exact (guarded_createDirAll (w := t.setTree mid) (.inr hinside) (hopen.cleared hcleared) (.inr (.inr hnone))
        hE).weaken (fun _ h => h) fun _ _ _ => trivial
    cases node with
    | directory => exact Fallible.Guarded.pure trivial
    | _ =>
      apply hreplace
      rw [hnode]
      simp

theorem guarded_replaceFile {file : FileEntry} {bytes : Bytes} (hlength : bytes.length = file.size)
    (hhash : sha256Hex ws.digest bytes = file.contentHash) (hinside : InWorkspace p) (hopen : Open t.device.tree p)
    (hE : env.diskFails → ∀ tree, E (t.setTree tree)) :
    Fallible.Guarded (sem env) (Op.Inside ws.digest) E (replaceFile p bytes) t fun _ t' => ∃ tree,
      t' = t.setTree tree ∧ Matches ws.digest (tree.get p) (.file file) ∧
        ∀ q, EntryStep ws.digest p (.file file) t.device.tree tree q := by
  suffices hfine : Fallible.Guarded (sem env) (Op.Inside ws.digest) E (replaceFile p bytes) t fun _ _ => True from
    (hfine.and_runs (runs_replaceFile (I := fun _ => True) hlength hhash trivial (fun _ _ => trivial)
      (fun _ _ _ _ => trivial) fun _ _ _ _ => Fallible.Runs.any)).weaken (fun _ h => h) fun _ _ h => h.2
  unfold replaceFile
  refine guarded_stat hinside hopen (fun hfails => hE hfails t.device.tree) ?_
  -- the parent is there, or can be made
  have hparent : parentOf p = [] ∨ Beneath (parentOf p) p := by
    by_cases hroot : parentOf p = []
    · exact .inl hroot
    · exact .inr (parentOf_beneath hroot)
  have hparentInside : parentOf p = [] ∨ InWorkspace (parentOf p) :=
    hparent.imp id fun h => hinside.above h.within
  have hparentOpen : Open t.device.tree (parentOf p) := by
    rcases hparent with hroot | hbeneath
    · intro q hq
      rw [hroot] at hq
      exact absurd hq.length_lt (by simp)
    · exact hopen.above hbeneath.within
  refine Fallible.Guarded.bind (guarded_createDirAll hparentInside hparentOpen
    (hparent.imp id fun h => hopen _ h) hE) fun _ t₁ h₁ => ?_
  obtain ⟨tree₁, hmade, rfl, hdirs⟩ := h₁
  have habove {q : RelPath} (hq : Beneath q p) : tree₁.get q = some .directory :=
    hdirs q (hinside.above hq.within).ne_nil (within_parentOf hq)
  have hparentDir : parentOf p = [] ∨ tree₁.get (parentOf p) = some .directory := hparent.imp id habove
  refine Fallible.Guarded.bind (guarded_writeTemp (w := t.setTree tree₁) hparentInside hparentDir fun hfails =>
    hE hfails tree₁) fun (temp : RelPath) t₂ h₂ => ?_
  obtain ⟨tree₂, htemp, rfl⟩ := h₂
  obtain ⟨hinternal, hapart⟩ := htemp.apart
  obtain ⟨suffix, hsuffix, rfl⟩ := htemp.named
  obtain ⟨modifiedAt, hput⟩ := htemp.written
  have htempInside : InWorkspace (joinPath (parentOf p) (tempName suffix)) := .joinPath hparentInside hsuffix
  have hget (q : RelPath) : tree₂.get q = if joinPath (parentOf p) (tempName suffix) = q then
      some (.file ⟨bytes, modifiedAt⟩) else tree₁.get q := FileTree.get_put hput
  have hfresh : tree₁.get (joinPath (parentOf p) (tempName suffix)) = none := htemp.fresh
  have hnotTemp {q : RelPath} (hq : tree₁.get q ≠ none) : joinPath (parentOf p) (tempName suffix) ≠ q := by
    rintro rfl
    exact hq hfresh
  have habove₂ {q : RelPath} (hq : Beneath q p) : tree₂.get q = some .directory := by
    rw [hget, if_neg (hnotTemp (by rw [habove hq]; simp))]
    exact habove hq
  have htempFile : tree₂.get (joinPath (parentOf p) (tempName suffix)) = some (.file ⟨bytes, modifiedAt⟩) := by
    rw [hget, if_pos rfl]
  have htempOpen : Open tree₂ (joinPath (parentOf p) (tempName suffix)) := open_of_some (by rw [htempFile]; simp)
  refine Fallible.Guarded.onError (F := fun u => env.diskFails ∧ ∃ tree, u = t.setTree tree ∧
    Open tree (joinPath (parentOf p) (tempName suffix))) ?_ ?_
  · -- the rename, from any tree in which the way is free
    have hrename {tree : WorkingTree} (hcleared : Cleared p tree₂ tree) (hnot : tree.get p ≠ some .directory)
        (hkept : tree.get (joinPath (parentOf p) (tempName suffix)) = some (.file ⟨bytes, modifiedAt⟩)) :
        Fallible.Guarded (sem env) (Op.Inside ws.digest) (fun u => env.diskFails ∧ ∃ tree, u = t.setTree tree ∧
          Open tree (joinPath (parentOf p) (tempName suffix)))
          (perform (.rename (joinPath (parentOf p) (tempName suffix)) p)) (t.setTree tree) fun _ _ => True := by
      have hsame {q : RelPath} (hq : Beneath q p) : tree.get q = some .directory := by
        rcases hcleared q with heq | ⟨hwithin, _⟩
        · rw [heq]
          exact habove₂ hq
        · exact absurd (hwithin.trans_beneath hq) (not_beneath_self p)
      have hopen₃ : Open tree p := fun q hq => .inl (hsame hq)
      have htempOpen₃ := htempOpen.cleared hcleared
      refine (guarded_rename (w := t.setTree tree) ⟨htempOpen₃.site htempInside, hopen₃.site hinside⟩ ?_
        fun hfails => ⟨hfails, tree, rfl, htempOpen₃⟩).weaken (fun _ h => h) fun _ _ _ => trivial
      obtain ⟨mid, hmid⟩ := FileTree.remove_isSome (t := tree) (p := joinPath (parentOf p) (tempName suffix))
        fun q hq => FileTree.get_beneath (by rw [hkept]; simp) hq
      have hmidGet (q : RelPath) : mid.get q = if joinPath (parentOf p) (tempName suffix) = q then none
          else tree.get q := FileTree.get_remove hmid
      obtain ⟨last, hlast⟩ := FileTree.put_isSome (t := mid) (n := .file ⟨bytes, modifiedAt⟩) hinside.proper
        (fun q hq => by
          rw [hmidGet, if_neg (hnotTemp (by rw [habove hq]; simp))]
          exact hsame hq)
        fun q hq => by
          rw [hmidGet, FileTree.get_beneath hnot hq, ite_self]
      unfold renameIn
      rw [setTree_tree, hkept]
      simp only [if_neg hnot, hmid, Option.bind_some, hlast]
      simp
    suffices hboth : Fallible.Guarded (sem env) (Op.Inside ws.digest) (fun u => env.diskFails ∧ ∃ tree,
        u = t.setTree tree ∧ Open tree (joinPath (parentOf p) (tempName suffix)))
        (if (t.device.tree.get p).any Node.isDir = true then removeDirAll p >>= fun _ =>
            perform (.rename (joinPath (parentOf p) (tempName suffix)) p)
          else perform (.rename (joinPath (parentOf p) (tempName suffix)) p)) (t.setTree tree₂)
        fun _ _ => True from hboth
    by_cases hdir : t.device.tree.get p = some .directory
    · rw [if_pos (by simp [hdir, Node.isDir])]
      have hdir₁ : tree₁.get p = some .directory := by
        rw [hmade.keeps (by rw [hdir]; simp)]
        exact hdir
      have hne := hnotTemp (q := p) (by rw [hdir₁]; simp)
      have hdir₂ : tree₂.get p = some .directory := by
        rw [hget, if_neg hne]
        exact hdir₁
      refine Fallible.Guarded.bind (guarded_removeDirAll (w := t.setTree tree₂) hinside hdir₂
        fun hfails tree hcleared => ⟨hfails, tree, rfl, htempOpen.cleared hcleared⟩) fun _ t₃ h₃ => ?_
      obtain ⟨tree₃, hcleared, rfl, hgone⟩ := h₃
      refine hrename hcleared (by rw [hgone p (within_self p)]; simp) ?_
      rcases hcleared (joinPath (parentOf p) (tempName suffix)) with heq | ⟨hwithin, _⟩
      · rw [heq]
        exact htempFile
      · rcases hwithin with heq | hbeneath
        · exact absurd heq hne
        · exact absurd hbeneath hapart
    · have hno : ¬ (t.device.tree.get p).any Node.isDir = true := by
        rcases hnode : t.device.tree.get p with _ | _ | _ | _
        · simp
        · simp [Node.isDir]
        · exact absurd hnode hdir
        · simp [Node.isDir]
      rw [if_neg hno]
      refine hrename (.refl _ _) ?_ htempFile
      rw [hget]
      by_cases heq : joinPath (parentOf p) (tempName suffix) = p
      · rw [if_pos heq]
        simp
      · rw [if_neg heq]
        rcases hmade p with hsame | ⟨_, hwithin, _⟩
        · rw [hsame]
          exact hdir
        · -- the parent is not within the path
          rcases hparent with hroot | hbeneath
          · rw [hroot] at hwithin
            rcases hwithin with hself | hbeneath
            · exact absurd hself.symm hinside.ne_nil
            · exact absurd hbeneath.length_lt (by simp)
          · exact absurd (hwithin.trans_beneath hbeneath) (not_beneath_self p)
  · rintro u ⟨hfails, tree, rfl, htempOpen'⟩
    exact guarded_discardTemp (htempOpen'.site htempInside) (hE hfails tree) fun tree' _ => hE hfails tree'

theorem guarded_cacheBlob {contentHash : String} {bytes : Bytes} (hhash : sha256Hex ws.digest bytes = contentHash)
    (hE : env.diskFails → E t) :
    Fallible.Guarded (sem env) (Op.Inside ws.digest) E (cacheBlob ws contentHash bytes) t fun _ t' =>
      ∃ cache, CacheStep ws.digest t.device.cache cache ∧ t' = t.setCache cache ∧
        HoldsHash ws.digest cache contentHash := by
  suffices hfine : Fallible.Guarded (sem env) (Op.Inside ws.digest) E (cacheBlob ws contentHash bytes) t
      fun _ _ => True from
    (hfine.and_runs (runs_cacheBlob (I := fun _ => True) hhash fun _ _ => trivial)).weaken (fun _ h => h)
      fun _ _ h => h.2
  have hlook : Fallible.Guarded (sem env) (Op.Inside ws.digest) E (isCached ws contentHash) t fun _ t' => t' = t := by
    unfold isCached
    exact Fallible.Guarded.bind (guarded_cachedBlob hhash hE) fun _ _ h => Fallible.Guarded.pure h
  unfold cacheBlob
  refine Fallible.Guarded.bind hlook fun cached t' ht' => ?_
  subst ht'
  suffices hrest : Fallible.Guarded (sem env) (Op.Inside ws.digest) E
      (if cached = true then pure () else perform (.writeBlob contentHash bytes)) t' fun _ _ => True from hrest
  by_cases hyes : cached = true
  · rw [if_pos hyes]
    exact Fallible.Guarded.pure trivial
  · rw [if_neg hyes]
    exact (guarded_writeBlob hhash hE).weaken (fun _ h => h) fun _ _ _ => trivial

end Entries

end RustSync
