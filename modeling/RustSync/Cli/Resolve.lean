/-
Resolving a conflict

`resolve` settles one recorded conflict by what the record says: it keeps the
local subtree or puts the remote copy in its place, and drops the record. All
checks come before the first change: the paths of a record are those the state
was saved with, and it may have been tampered with.

Key definitions: `resolve`, `Sound`, `Hostile`, `Resolvable`, `Resolved`. Key
theorem: `resolve_exact`.
-/
import RustSync.Lib.PathText
import RustSync.Lib.Subtree
import RustSync.Sync.Alone
import RustSync.Sync.TreeChanges

namespace RustSync.Cli

/-! ### Calls -/

inductive ResolveError where
  | message (text : String)
  | protocol (error : ProtocolError)
  | loc (error : LocalError)
deriving DecidableEq

inductive ResolveOp where
  | loadSyncState
  | workingTreeStatus
  | metadata (path : RelPath)
  | removeDirAll (path : RelPath)
  | removeFile (path : RelPath)
  | rename (source target : RelPath)
  | saveSyncState (state : SyncState)

@[reducible] def ResolveOp.Val : ResolveOp → Type
  | .loadSyncState => SyncState
  | .metadata _ => Option (Node FileContent)
  | .workingTreeStatus | .removeDirAll _ | .removeFile _ | .rename .. | .saveSyncState _ => Unit

abbrev Resolving := Fallible ResolveOp.Val ResolveError

def perform (o : ResolveOp) : Resolving o.Val := Fallible.op o

section Resolve

variable (ws : Workspace)

/-- `working_tree_status`, which has to succeed. -/
def treeStatus (device : Device) : LocalResult Unit := do
  let _ ← scanDevice ws device
  let _ ← loadManifestOptional ws device

/-- A call where no file operation fails of itself. A rename is to where
nothing is. -/
def ResolveOp.run : (o : ResolveOp) → Device → Option (Except ResolveError o.Val × Device)
  | .loadSyncState, d => some (.ok d.syncState, d)
  | .workingTreeStatus, d => some ((treeStatus ws d).mapError .loc, d)
  | .metadata path, d => some ((stat d.tree path).mapError .loc, d)
  | .removeDirAll path, d => some (.ok (), { d with tree := d.tree.clear path })
  | .removeFile path, d => some (.ok (), { d with tree := d.tree.clear path })
  | .rename source target, d =>
    match d.tree.move source target with
    | some tree => some (.ok (), { d with tree })
    | none => some (.error (.loc (.io "no such file or directory")), d)
  | .saveSyncState state, d => some (.ok (), { d with syncState := state })

/-! ### The command -/

def removeConflictPath (path : RelPath) : Resolving Unit := do
  match ← perform (.metadata path) with
  | some .directory => perform (.removeDirAll path)
  | some _ => perform (.removeFile path)
  | none => return ()

/-- What is checked of the paths of a record. -/
def checkConflict (path : RelPath) (conflict : ConflictRecord) : Except ResolveError Unit := do
  require (¬ (conflict.localCopyPath ≠ path ∨ conflict.remoteCopyPath = path ∨
      Beneath path conflict.remoteCopyPath ∨ Beneath conflict.remoteCopyPath path))
    (.message "invalid conflict paths in workspace state")
  let paths ← ((Manifest.new ws.workspaceId).insert conflict.localCopyPath .directory).mapError .protocol
  let paths ← (paths.insert conflict.remoteCopyPath .directory).mapError .protocol
  (validatePulledManifest ws paths).mapError .loc

/-- `fs::symlink_metadata(path)?`. -/
def requirePath (path : RelPath) : Resolving Unit := do
  match ← perform (.metadata path) with
  | some _ => return ()
  | none => throw (.loc (.io "no such file or directory"))

/-- The changes to the tree. -/
def applyResolution (conflict : ConflictRecord) (keepRemote : Bool) : Resolving Unit := do
  if keepRemote then
    if conflict.remoteDeleted then removeConflictPath conflict.localCopyPath
    else
      requirePath conflict.remoteCopyPath
      removeConflictPath conflict.localCopyPath
      perform (.rename conflict.remoteCopyPath conflict.localCopyPath)
  else if ¬ conflict.remoteDeleted then removeConflictPath conflict.remoteCopyPath

def resolve (path : RelPath) (keepLocal keepRemote : Bool) : Resolving Unit := do
  if keepLocal = keepRemote then
    throw (.message "choose exactly one of `--keep-local` or `--keep-remote`")
  let state : SyncState ← perform .loadSyncState
  let text := path.text
  let conflict ← Fallible.check (okOr state.conflicts[path]?
    (.message s!"no unresolved conflict for `{text}`; run `rustsync conflicts`"))
  Fallible.check (checkConflict ws path conflict)
  perform .workingTreeStatus
  applyResolution conflict keepRemote
  perform (.saveSyncState { state with conflicts := state.conflicts.erase path })

end Resolve

/-! ### Records -/

/-- A record whose paths may be resolved: two paths of the tree, apart. -/
structure Sound (path : RelPath) (conflict : ConflictRecord) : Prop where
  loc : conflict.localCopyPath = path
  apart : ¬ Within path conflict.remoteCopyPath
  apart' : ¬ Within conflict.remoteCopyPath path
  safe : validateLocalPath path = .ok ()
  safe' : validateLocalPath conflict.remoteCopyPath = .ok ()

/-- From the root of the workspace, a path of the record leads out of it or
into its `.rustsync`, or one is the other or within it. -/
def Hostile (root : List Char) (conflict : ConflictRecord) : Prop :=
  (∃ p ∈ [conflict.localCopyPath, conflict.remoteCopyPath],
    ¬ resolvePath root <+: resolvePath (pathJoin root p) ∨
      resolvePath root ++ [".rustsync".toList] <+: resolvePath (pathJoin root p)) ∨
    Within conflict.localCopyPath conflict.remoteCopyPath ∨ Within conflict.remoteCopyPath conflict.localCopyPath

section Records

variable {ws : Workspace} {path p root : RelPath} {conflict : ConflictRecord}

/-- The paths of directories are checked one by one. -/
theorem validateManifestPaths_directories {m : Manifest} (hm : ∀ p e, m.get p = some e → e = .directory) :
    validateManifestPaths m = .ok () ↔ ∀ p, m.get p ≠ none → validateLocalPath p = .ok () := by
  have hmem {p : RelPath} {e : ManifestEntry} : (p, e) ∈ m.entries.toList ↔ m.get p = some e := BTreeMap.mem_toList
  have hfile (q : RelPath) : isFileEntry (m.get q) = false := by
    cases he : m.get q with
    | none => rfl
    | some e =>
      rw [hm q e he]
      rfl
  unfold validateManifestPaths
  constructor
  · intro h p hp
    obtain ⟨e, he⟩ := Option.ne_none_iff_exists'.mp hp
    exact (Except.bind_unit_ok.mp (forM_ok.mp h (p, e) (hmem.mpr he))).1
  · intro h
    apply forM_ok.mpr
    rintro ⟨p, e⟩ he
    refine Except.bind_unit_ok.mpr ⟨h p (by rw [hmem.mp he]; simp), require_ok.mpr ?_⟩
    simp [hfile]

/-- **What the checks accept.** -/
theorem checkConflict_ok : checkConflict ws path conflict = .ok () ↔ Sound path conflict := by
  have hget {m m' : Manifest} (h : (Manifest.new ws.workspaceId).insert conflict.localCopyPath .directory = .ok m)
      (h' : m.insert conflict.remoteCopyPath .directory = .ok m') (p : RelPath) :
      m'.get p = if conflict.remoteCopyPath = p ∨ conflict.localCopyPath = p then some .directory else none := by
    rw [Manifest.get_insert h', Manifest.get_insert h, Manifest.get_new]
    by_cases hremote : conflict.remoteCopyPath = p
    · simp [hremote]
    · simp [hremote]
  have hvalid {m m' : Manifest} (h : (Manifest.new ws.workspaceId).insert conflict.localCopyPath .directory = .ok m)
      (h' : m.insert conflict.remoteCopyPath .directory = .ok m') : validatePulledManifest ws m' = .ok () ↔
        validateLocalPath conflict.localCopyPath = .ok () ∧ validateLocalPath conflict.remoteCopyPath = .ok () := by
    have hworkspace : m'.workspaceId = ws.workspaceId := by
      rw [Manifest.workspaceId_insert h', Manifest.workspaceId_insert h]
      rfl
    have hdirectories : ∀ p e, m'.get p = some e → e = .directory := by
      intro p e he
      rw [hget h h'] at he
      split at he
      · exact (Option.some.inj he).symm
      · cases he
    unfold validatePulledManifest validateManifestWorkspace
    rw [Except.bind_unit_ok, require_ok, validateManifestPaths_directories hdirectories]
    simp only [hworkspace, true_and, hget h h']
    constructor
    · exact fun hall => ⟨hall _ (by simp), hall _ (by simp)⟩
    · rintro ⟨hlocal, hremote⟩ p hp
      split at hp
      · rename_i heq
        rcases heq with rfl | rfl
        · exact hremote
        · exact hlocal
      · exact absurd rfl hp
  unfold checkConflict
  constructor
  · intro h
    obtain ⟨hrequire, h⟩ := Except.bind_unit_ok.mp h
    obtain ⟨m, hm, h⟩ := Except.bind_ok.mp h
    obtain ⟨m', hm', h⟩ := Except.bind_ok.mp h
    rw [Except.mapError_ok] at hm hm' h
    rw [require_ok] at hrequire
    push Not at hrequire
    obtain ⟨hloc, hne, hbeneath, habove⟩ := hrequire
    obtain ⟨hlocal, hremote⟩ := (hvalid hm hm').mp h
    refine ⟨hloc, ?_, ?_, by rw [← hloc]; exact hlocal, hremote⟩
    · rintro (heq | hin)
      · exact hne heq
      · exact hbeneath hin
    · rintro (heq | hin)
      · exact hne heq.symm
      · exact habove hin
  · intro h
    have hrequire : ¬ (conflict.localCopyPath ≠ path ∨ conflict.remoteCopyPath = path ∨
        Beneath path conflict.remoteCopyPath ∨ Beneath conflict.remoteCopyPath path) := by
      push Not
      exact ⟨h.loc, fun heq => h.apart (.inl heq), fun hin => h.apart (.inr hin), fun hin => h.apart' (.inr hin)⟩
    have hlocal : validateLocalPath conflict.localCopyPath = .ok () := by
      rw [h.loc]
      exact h.safe
    have hinsert {m : Manifest} {p : RelPath} (hp : validateLocalPath p = .ok ()) :
        ∃ m', m.insert p .directory = .ok m' :=
      ⟨_, Except.bind_unit_ok.mpr ⟨validateManifestPath_of_local hp, rfl⟩⟩
    obtain ⟨m, hm⟩ := hinsert (m := .new ws.workspaceId) hlocal
    obtain ⟨m', hm'⟩ := hinsert (m := m) h.safe'
    refine Except.bind_unit_ok.mpr ⟨require_ok.mpr hrequire, ?_⟩
    refine Except.bind_ok.mpr ⟨m, Except.mapError_ok.mpr hm, Except.bind_ok.mpr ⟨m', Except.mapError_ok.mpr hm', ?_⟩⟩
    exact Except.mapError_ok.mpr ((hvalid hm hm').mpr ⟨hlocal, h.safe'⟩)

/-- A valid path is read as its components. -/
theorem resolve_of_valid (h : validateLocalPath p = .ok ()) :
    resolvePath (pathJoin root p) = resolvePath root ++ components p := by
  obtain ⟨_, _, _, _, _, hcomponents⟩ := validateLocalPath_ok.mp h
  rw [List.any_eq_false] at hcomponents
  have hplain : ∀ name ∈ components p, PlainName name := by
    intro name hname
    have hgood := hcomponents name hname
    simp only [badComponent, decide_eq_true_eq, not_or] at hgood
    exact ⟨slash_not_mem_component hname, hgood.1, hgood.2.1, hgood.2.2⟩
  have hrelative : p.head? ≠ some '/' := by
    intro habsolute
    obtain ⟨rest, rfl⟩ := List.head?_eq_some_iff.mp habsolute
    rw [components, if_pos rfl] at hplain
    exact (hplain [] List.mem_cons_self).ne_nil rfl
  rw [resolve_join_relative hrelative, foldl_resolveStep_plain hplain]

/-- **A record that passes the checks is not hostile.** -/
theorem Sound.not_hostile (h : Sound path conflict) : ¬ Hostile root conflict := by
  have hinside {p : RelPath} (hp : validateLocalPath p = .ok ()) :
    ¬ (¬ resolvePath root <+: resolvePath (pathJoin root p) ∨
      resolvePath root ++ [".rustsync".toList] <+: resolvePath (pathJoin root p)) := by
    rw [resolve_of_valid hp, List.prefix_append_right_inj]
    rintro (hout | hfolder)
    · exact hout (List.prefix_append _ _)
    · obtain ⟨others, hothers⟩ := hfolder
      apply (InWorkspace.of_valid hp).outside
      have htext := intercalate_components p
      rw [← hothers, List.singleton_append] at htext
      cases others with
      | nil =>
        rw [List.intercalate_singleton] at htext
        exact .inl htext.symm
      | cons next others =>
        rw [List.intercalate_cons_cons] at htext
        rw [← htext, List.append_assoc]
        exact (beneath_append _ _).within
  rintro (⟨p, hmem, hp⟩ | hwithin)
  · rcases List.mem_cons.mp hmem with rfl | hmem
    · rw [h.loc] at hp
      exact hinside h.safe hp
    · obtain rfl := List.mem_singleton.mp hmem
      exact hinside h.safe' hp
  · rw [h.loc] at hwithin
    rcases hwithin with hin | hin
    · exact h.apart hin
    · exact h.apart' hin

end Records

/-! ### Runs -/

section Runs

variable {ws : Workspace} {α : Type} {path p : RelPath} {conflict : ConflictRecord} {keepLocal keepRemote : Bool}
  {d d' : Device} {R : Except ResolveError α → Device → Prop}

/-- The tree after a conflict is settled. -/
def Settled (conflict : ConflictRecord) (keepRemote : Bool) (tree tree' : WorkingTree) : Prop :=
  ∀ q, tree'.get q =
    if conflict.remoteDeleted then
      if keepRemote ∧ Within conflict.localCopyPath q then none else tree.get q
    else if Within conflict.remoteCopyPath q then none
    else if keepRemote ∧ Within conflict.localCopyPath q then
      tree.get (reroot conflict.localCopyPath conflict.remoteCopyPath q)
    else tree.get q

/-- A path can be looked at: nothing above it is there and no directory. -/
def Lookable (tree : WorkingTree) (p : RelPath) : Prop := ∀ e, stat tree p ≠ .error e

/-- What the changes need: to look at what is cleared away, and where the copy
is kept, the copy and the directory it goes to. -/
structure Ready (path : RelPath) (conflict : ConflictRecord) (keepRemote : Bool) (tree : WorkingTree) : Prop where
  copy : conflict.remoteDeleted = false → keepRemote = true →
    tree.get conflict.remoteCopyPath ≠ none ∧ ∀ q ∈ ancestors path, tree.isDirectory q = true
  deletion : conflict.remoteDeleted = true → keepRemote = true → Lookable tree path
  cleared : conflict.remoteDeleted = false → keepRemote = false → Lookable tree conflict.remoteCopyPath

/-- Below directories a path can be looked at. -/
theorem lookable_of_directories {tree : WorkingTree} (h : ∀ q ∈ ancestors p, tree.isDirectory q = true) :
    Lookable tree p := by
  have hnone : ((ancestors p).any fun q => (tree.get q).any fun node => !node.isDir) = false := by
    rw [List.any_eq_false]
    intro q hq
    rw [FileTree.isDirectory_iff.mp (h q hq)]
    simp [Node.isDir]
  intro e herr
  unfold stat at herr
  rw [hnone] at herr
  cases herr

/-- What is there can be looked at. -/
theorem lookable_of_present {tree : WorkingTree} (h : tree.get p ≠ none) : Lookable tree p := by
  obtain ⟨node, hnode⟩ := Option.ne_none_iff_exists'.mp h
  exact lookable_of_directories fun q hq => FileTree.isDirectory_iff.mpr (tree.get_above hnode (mem_ancestors.mp hq))

theorem meets_metadata {f : Option (Node FileContent) → Resolving α}
    (herr : ∀ e, ¬ Lookable d.tree p → R (.error e) d)
    (hf : Lookable d.tree p → Fallible.Meets (ResolveOp.run ws) (f (d.tree.get p)) d R) :
    Fallible.Meets (ResolveOp.run ws) (perform (.metadata p) >>= f) d R := by
  cases hstat : stat d.tree p with
  | ok node =>
    have hnode : node = d.tree.get p := stat_ok hstat
    have hrun : ResolveOp.run ws (.metadata p) d = some (.ok (d.tree.get p), d) := by
      rw [ResolveOp.run, hstat, hnode]
      rfl
    exact Fallible.Meets.op_bind hrun (hf fun e herr => by rw [hstat] at herr; cases herr)
  | error e =>
    have hrun : ResolveOp.run ws (.metadata p) d = some (.error (.loc e), d) := by
      rw [ResolveOp.run, hstat]
      rfl
    refine Fallible.Meets.bind (P := fun r t => r = .error (.loc e) ∧ t = d) (Fallible.Meets.op hrun ⟨rfl, rfl⟩) ?_ ?_
    · rintro e' t ⟨_, rfl⟩
      exact herr e' fun h => h e hstat
    · rintro node t ⟨h, _⟩
      cases h

theorem clear_of_absent {tree : WorkingTree} (hp : tree.get p = none) : tree.clear p = tree := by
  apply FileTree.ext_get
  intro q
  rw [FileTree.get_clear]
  split
  · rename_i hq
    rcases hq with rfl | hq
    · exact hp.symm
    · exact (tree.get_beneath (by rw [hp]; simp) hq).symm
  · rfl

/-- A path is cleared, unless it cannot be looked at. -/
theorem meets_removeConflictPath : Fallible.Meets (ResolveOp.run ws) (removeConflictPath p) d fun r d' =>
    (r = .ok () ∧ Lookable d.tree p ∧ d' = { d with tree := d.tree.clear p }) ∨
      ((∃ e, r = .error e) ∧ d' = d ∧ ¬ Lookable d.tree p) := by
  unfold removeConflictPath
  refine meets_metadata (fun e hlook => .inr ⟨⟨e, rfl⟩, rfl, hlook⟩) fun hlook => ?_
  cases hnode : d.tree.get p with
  | none =>
    have hsame : ({ d with tree := d.tree.clear p } : Device) = d := by rw [clear_of_absent hnode]
    exact Fallible.Meets.pure (.inl ⟨rfl, hlook, hsame.symm⟩)
  | some node =>
    cases node with
    | directory => exact Fallible.Meets.op rfl (.inl ⟨rfl, hlook, rfl⟩)
    | file content => exact Fallible.Meets.op rfl (.inl ⟨rfl, hlook, rfl⟩)
    | other => exact Fallible.Meets.op rfl (.inl ⟨rfl, hlook, rfl⟩)

theorem meets_requirePath : Fallible.Meets (ResolveOp.run ws) (requirePath p) d fun r d' =>
    d' = d ∧ (r = .ok () ↔ d.tree.get p ≠ none) := by
  unfold requirePath
  refine meets_metadata (fun e hlook => ⟨rfl, ?_⟩) fun _ => ?_
  · simp only [reduceCtorEq, false_iff]
    exact fun hpresent => hlook (lookable_of_present hpresent)
  · cases hnode : d.tree.get p with
    | none => exact Fallible.Meets.throw ⟨rfl, by simp⟩
    | some node => exact Fallible.Meets.pure ⟨rfl, by simp⟩

theorem not_within_of_apart {q : RelPath} (h : Sound path conflict) (hq : Within conflict.remoteCopyPath q) :
    ¬ Within path q := by
  intro hpath
  rcases hpath.linear hq with hin | hin
  · exact h.apart hin
  · exact h.apart' hin

/-- Where the directory of the conflict is, what is in the way of the copy is
gone and the copy takes its place. -/
theorem move_settled (h : Sound path conflict) (hcopy : d.tree.get conflict.remoteCopyPath ≠ none)
    (habove : ∀ q ∈ ancestors path, d.tree.isDirectory q = true) :
    ∃ tree', (d.tree.clear path).move conflict.remoteCopyPath path = some tree' := by
  have hleft : ∀ q ∈ ancestors path, (d.tree.clear path).isDirectory q = true := by
    intro q hq
    have hnot : ¬ Within path q := fun hin => not_beneath_self _ (hin.trans_beneath (mem_ancestors.mp hq))
    rw [FileTree.isDirectory_iff, FileTree.get_clear, if_neg hnot]
    exact FileTree.isDirectory_iff.mp (habove q hq)
  have hfree : (d.tree.clear path).get path = none := by rw [FileTree.get_clear, if_pos (within_self _)]
  have hsource : (d.tree.clear path).get conflict.remoteCopyPath ≠ none := by
    rw [FileTree.get_clear, if_neg h.apart]
    exact hcopy
  exact FileTree.move_isSome ⟨(InWorkspace.of_valid h.safe).proper, hleft, hfree, h.apart'⟩ hsource

theorem settled_of_move {tree' : WorkingTree} (h : Sound path conflict) (hdeleted : conflict.remoteDeleted = false)
    (hmove : (d.tree.clear path).move conflict.remoteCopyPath path = some tree') :
    Settled conflict true d.tree tree' := by
  intro q
  rw [FileTree.get_move hmove, h.loc, hdeleted]
  by_cases hq : Within path q
  · have hfrom : ¬ Within path (reroot path conflict.remoteCopyPath q) :=
      not_within_of_apart h (within_reroot hq)
    have hremote : ¬ Within conflict.remoteCopyPath q := fun hin => not_within_of_apart h hin hq
    simp [hq, hremote, FileTree.get_clear, hfrom]
  · simp [hq, FileTree.get_clear]

/-- A copy is moved only to where the directories are. -/
theorem above_of_move {tree' : WorkingTree}
    (hmove : (d.tree.clear path).move conflict.remoteCopyPath path = some tree') :
    ∀ q ∈ ancestors path, d.tree.isDirectory q = true := by
  intro q hq
  have hdirectory := FileTree.isDirectory_iff.mp ((FileTree.movable_of_move hmove).2.1 q hq)
  rw [FileTree.get_clear] at hdirectory
  split at hdirectory
  · cases hdirectory
  · exact FileTree.isDirectory_iff.mpr hdirectory

/-- The changes settle the tree, or nothing is changed as something they need
is not there. -/
theorem meets_applyResolution (h : Sound path conflict) :
    Fallible.Meets (ResolveOp.run ws) (applyResolution conflict keepRemote) d fun r d' =>
      (r = .ok () ∧ Ready path conflict keepRemote d.tree ∧
        ∃ tree', d' = { d with tree := tree' } ∧ Settled conflict keepRemote d.tree tree') ∨
        ((∃ e, r = .error e) ∧ d' = d ∧ ¬ Ready path conflict keepRemote d.tree) := by
  unfold applyResolution
  cases keepRemote with
  | true =>
    rw [if_pos rfl]
    by_cases hdeleted : conflict.remoteDeleted = true
    · rw [if_pos hdeleted, h.loc]
      refine meets_removeConflictPath.weaken ?_
      rintro r t (⟨rfl, hlook, rfl⟩ | ⟨herr, rfl, hlook⟩)
      · refine .inl ⟨rfl, ⟨by simp [hdeleted], fun _ _ => hlook, by simp⟩, _, rfl, fun q => ?_⟩
        rw [FileTree.get_clear, if_pos hdeleted, h.loc]
        simp
      · exact .inr ⟨herr, rfl, fun hready => hlook (hready.deletion hdeleted rfl)⟩
    · rw [if_neg hdeleted]
      rw [Bool.not_eq_true] at hdeleted
      refine Fallible.Meets.bind meets_requirePath ?_ ?_
      · rintro e t ⟨rfl, hcopy⟩
        refine .inr ⟨⟨e, rfl⟩, rfl, fun hready => ?_⟩
        cases hcopy.mpr (hready.copy hdeleted rfl).1
      · rintro ⟨⟩ t ⟨rfl, hcopy⟩
        have hpresent := hcopy.mp rfl
        refine Fallible.Meets.bind meets_removeConflictPath ?_ ?_
        · rintro e t' (⟨herr, _⟩ | ⟨_, rfl, hlook⟩)
          · cases herr
          · refine .inr ⟨⟨e, rfl⟩, rfl, fun hready => hlook ?_⟩
            rw [h.loc]
            exact lookable_of_directories (hready.copy hdeleted rfl).2
        · rintro ⟨⟩ t' (⟨_, _, rfl⟩ | ⟨⟨_, herr⟩, _⟩)
          · rw [h.loc]
            cases hmove : (t.tree.clear path).move conflict.remoteCopyPath path with
            | some tree' =>
              refine Fallible.Meets.op (t := { t with tree := tree' }) (a := .ok ()) ?_
                (.inl ⟨rfl, ⟨fun _ _ => ⟨hpresent, above_of_move hmove⟩, by simp [hdeleted], by simp⟩, tree', rfl,
                  settled_of_move h hdeleted hmove⟩)
              simp only [ResolveOp.run, hmove]
            | none =>
              have hgone : ¬ ∀ q ∈ ancestors path, t.tree.isDirectory q = true := by
                intro habove
                obtain ⟨tree', htree'⟩ := move_settled h hpresent habove
                rw [hmove] at htree'
                cases htree'
              -- without its directory there was nothing at the path
              have habsent : t.tree.get path = none := by
                by_contra hpath
                obtain ⟨node, hnode⟩ := Option.ne_none_iff_exists'.mp hpath
                exact hgone fun q hq => FileTree.isDirectory_iff.mpr (t.tree.get_above hnode (mem_ancestors.mp hq))
              refine Fallible.Meets.op (t := t) (a := .error (.loc (.io "no such file or directory"))) ?_
                (.inr ⟨⟨_, rfl⟩, rfl, fun hready => hgone (hready.copy hdeleted rfl).2⟩)
              simp only [ResolveOp.run, hmove]
              rw [clear_of_absent habsent]
          · cases herr
  | false =>
    rw [if_neg (by decide)]
    by_cases hdeleted : conflict.remoteDeleted = true
    · rw [if_neg (by simp [hdeleted])]
      refine Fallible.Meets.pure (.inl ⟨rfl, ⟨by simp, by simp, by simp [hdeleted]⟩, d.tree, rfl, fun q => ?_⟩)
      simp [hdeleted]
    · rw [if_pos (by simp [hdeleted])]
      refine meets_removeConflictPath.weaken ?_
      rintro r t (⟨rfl, hlook, rfl⟩ | ⟨herr, rfl, hlook⟩)
      · refine .inl ⟨rfl, ⟨by simp, by simp, fun _ _ => hlook⟩, _, rfl, fun q => ?_⟩
        rw [FileTree.get_clear, if_neg hdeleted]
        simp
      · exact .inr ⟨herr, rfl, fun hready => hlook (hready.cleared (by simpa using hdeleted) rfl)⟩

/-- A request that can be met. -/
structure Resolvable (ws : Workspace) (path : RelPath) (keepLocal keepRemote : Bool) (conflict : ConflictRecord)
    (d : Device) : Prop where
  flags : keepLocal ≠ keepRemote
  recorded : d.syncState.conflicts[path]? = some conflict
  sound : Sound path conflict
  status : treeStatus ws d = .ok ()
  ready : Ready path conflict keepRemote d.tree

/-- A run settles the conflict and drops its record, or changes nothing. -/
theorem meets_resolve : Fallible.Meets (ResolveOp.run ws) (resolve ws path keepLocal keepRemote) d fun r d' =>
    (r = .ok () ∧ ∃ conflict tree', Resolvable ws path keepLocal keepRemote conflict d ∧
      Settled conflict keepRemote d.tree tree' ∧
      d' = { d with
        tree := tree'
        syncState := { d.syncState with conflicts := d.syncState.conflicts.erase path } }) ∨
      ((∃ e, r = .error e) ∧ d' = d ∧ ∀ conflict, ¬ Resolvable ws path keepLocal keepRemote conflict d) := by
  unfold resolve
  by_cases hflags : keepLocal = keepRemote
  · rw [if_pos hflags]
    exact Fallible.Meets.throw (.inr ⟨⟨_, rfl⟩, rfl, fun _ h => h.flags hflags⟩)
  · rw [if_neg hflags]
    refine Fallible.Meets.op_bind (t := d) (a := d.syncState) rfl ?_
    refine Fallible.Meets.check_bind ?_ fun conflict hconflict => ?_
    · intro e hnone
      refine .inr ⟨⟨e, rfl⟩, rfl, fun conflict h => ?_⟩
      rw [h.recorded] at hnone
      cases hnone
    rw [okOr_ok] at hconflict
    have hsame {conflict' : ConflictRecord} (h : Resolvable ws path keepLocal keepRemote conflict' d) :
        conflict' = conflict := Option.some.inj (h.recorded.symm.trans hconflict)
    refine Fallible.Meets.check_bind ?_ fun _ hcheck => ?_
    · intro e hfail
      refine .inr ⟨⟨e, rfl⟩, rfl, fun conflict' h => ?_⟩
      obtain rfl := hsame h
      rw [checkConflict_ok.mpr h.sound] at hfail
      cases hfail
    have hsound : Sound path conflict := checkConflict_ok.mp hcheck
    refine Fallible.Meets.bind (P := fun r t => r = (treeStatus ws d).mapError .loc ∧ t = d)
      (Fallible.Meets.op rfl ⟨rfl, rfl⟩) ?_ ?_
    · rintro e t ⟨hfail, rfl⟩
      refine .inr ⟨⟨e, rfl⟩, rfl, fun conflict' h => ?_⟩
      rw [h.status] at hfail
      cases hfail
    · rintro ⟨⟩ t ⟨hstatus, rfl⟩
      have hstatus := Except.mapError_ok.mp hstatus.symm
      refine Fallible.Meets.bind (meets_applyResolution hsound) ?_ ?_
      · rintro e t' (⟨herr, _⟩ | ⟨_, rfl, hready⟩)
        · cases herr
        · refine .inr ⟨⟨e, rfl⟩, rfl, fun conflict' h => ?_⟩
          obtain rfl := hsame h
          exact hready h.ready
      · rintro ⟨⟩ t' (⟨_, hready, tree', rfl, hsettled⟩ | ⟨⟨_, herr⟩, _⟩)
        · have hmet : Resolvable ws path keepLocal keepRemote conflict t :=
            ⟨hflags, hconflict, hsound, hstatus, hready⟩
          exact Fallible.Meets.op rfl (.inl ⟨rfl, conflict, tree', hmet, hsettled, rfl⟩)
        · cases herr

/-- Every call returns. -/
theorem run_total (o : ResolveOp) (d : Device) : ∃ out, ResolveOp.run ws o d = some out := by
  cases o with
  | rename source target =>
    cases hmove : d.tree.move source target with
    | some tree => exact ⟨(.ok (), { d with tree }), by simp only [ResolveOp.run, hmove]⟩
    | none => exact ⟨(.error (.loc (.io "no such file or directory")), d), by simp only [ResolveOp.run, hmove]⟩
  | _ => exact ⟨_, rfl⟩

end Runs

/-! ### What is resolved -/

/-- A conflict is resolved: what is kept is where the conflict was and nothing
is at the copy, no other path changes, and the record is the one dropped. -/
structure Resolved (path : RelPath) (conflict : ConflictRecord) (keepRemote : Bool) (d d' : Device) : Prop where
  remoteKept : conflict.remoteDeleted = false → keepRemote = true →
    (∀ q, Within path q → d'.tree.get q = d.tree.get (reroot path conflict.remoteCopyPath q)) ∧
      ∀ q, Within conflict.remoteCopyPath q → d'.tree.get q = none
  localKept : conflict.remoteDeleted = false → keepRemote = false →
    (∀ q, Within path q → d'.tree.get q = d.tree.get q) ∧ ∀ q, Within conflict.remoteCopyPath q → d'.tree.get q = none
  deletionKept : conflict.remoteDeleted = true → keepRemote = true → ∀ q, Within path q → d'.tree.get q = none
  deletionLeft : conflict.remoteDeleted = true → keepRemote = false → d'.tree = d.tree
  others : ∀ q, ¬ Within path q → conflict.remoteDeleted = true ∨ ¬ Within conflict.remoteCopyPath q →
    d'.tree.get q = d.tree.get q
  registry : d'.syncState = { d.syncState with conflicts := d.syncState.conflicts.erase path }
  staged : d'.staged = d.staged
  cache : d'.cache = d.cache

section Resolved

variable {path : RelPath} {conflict : ConflictRecord} {keepRemote : Bool} {d : Device} {tree' : WorkingTree}

theorem resolved_of_settled (h : Sound path conflict) (hsettled : Settled conflict keepRemote d.tree tree') :
    Resolved path conflict keepRemote d { d with
      tree := tree'
      syncState := { d.syncState with conflicts := d.syncState.conflicts.erase path } } := by
  have hpath {q : RelPath} (hq : Within path q) : ¬ Within conflict.remoteCopyPath q := fun hin =>
    not_within_of_apart h hin hq
  unfold Settled at hsettled
  rw [h.loc] at hsettled
  refine ⟨?_, ?_, ?_, ?_, ?_, rfl, rfl, rfl⟩
  · intro hdeleted hkeep
    refine ⟨fun q hq => ?_, fun q hq => ?_⟩
    · simp [hsettled q, hdeleted, hkeep, hq, hpath hq]
    · simp [hsettled q, hdeleted, hq]
  · intro hdeleted hkeep
    refine ⟨fun q hq => ?_, fun q hq => ?_⟩
    · simp [hsettled q, hdeleted, hkeep, hpath hq]
    · simp [hsettled q, hdeleted, hq]
  · intro hdeleted hkeep q hq
    simp [hsettled q, hdeleted, hkeep, hq]
  · intro hdeleted hkeep
    apply FileTree.ext_get
    intro q
    simp [hsettled q, hdeleted, hkeep]
  · intro q hq hremote
    rcases hremote with hdeleted | hremote
    · simp [hsettled q, hdeleted, hq]
    · simp [hsettled q, hremote, hq]

/-- **Resolving does what it says.** Every run returns. It succeeds exactly when
the request can be met, by resolving the recorded conflict; with an error it
leaves the device as it was, and so it does with a hostile record. -/
theorem resolve_exact (ws : Workspace) (d : Device) (path : RelPath) (keepLocal keepRemote : Bool) :
    ∃ r d', Fallible.exec (ResolveOp.run ws) (resolve ws path keepLocal keepRemote) d = some (r, d') ∧
      (r = .ok () ↔ ∃ conflict, Resolvable ws path keepLocal keepRemote conflict d) ∧
      (r = .ok () → keepLocal ≠ keepRemote ∧ ∃ conflict, d.syncState.conflicts[path]? = some conflict ∧
        Resolved path conflict keepRemote d d') ∧
      (∀ e, r = .error e → d' = d) ∧
      ∀ conflict, d.syncState.conflicts[path]? = some conflict → ∀ root, Hostile root conflict →
        (∃ e, r = .error e) ∧ d' = d := by
  obtain ⟨r, d', hexec⟩ := Fallible.exec_total (@run_total ws) (resolve ws path keepLocal keepRemote) d
  refine ⟨r, d', hexec, ?_⟩
  rcases meets_resolve r d' hexec with ⟨rfl, conflict, tree', hmet, hsettled, rfl⟩ | ⟨⟨e, rfl⟩, rfl, hnone⟩
  · refine ⟨⟨fun _ => ⟨conflict, hmet⟩, fun _ => rfl⟩, fun _ => ⟨hmet.flags, conflict, hmet.recorded,
      resolved_of_settled hmet.sound hsettled⟩, ?_, ?_⟩
    · intro e he
      cases he
    · intro conflict' hconflict' root hhostile
      rw [hmet.recorded] at hconflict'
      cases hconflict'
      exact absurd hhostile hmet.sound.not_hostile
  · refine ⟨⟨?_, fun ⟨conflict, hmet⟩ => absurd hmet (hnone conflict)⟩, ?_, fun _ _ => rfl, ?_⟩
    · intro h
      cases h
    · intro h
      cases h
    · intro _ _ _ _
      exact ⟨⟨e, rfl⟩, rfl⟩

end Resolved

/-! ### A conflict -/

/-- The file `a` became a directory elsewhere, which was put beside it. -/
def disputed : Device where
  tree := treeOf [("a", sampleFile (utf8 "a")), ("a.remote", .directory), ("a.remote/b", sampleFile (utf8 "b"))]
  staged := none
  cache := ∅
  syncState := { SyncState.initial with
    conflicts := (∅ : BTreeMap RelPath ConflictRecord).insert "a".toList ⟨"a".toList, "a.remote".toList, false⟩ }

theorem disputed_resolvable : Resolvable sampleSpace "a".toList false true ⟨"a".toList, "a.remote".toList, false⟩
    disputed where
  flags := by decide
  recorded := by decide +kernel
  sound := ⟨rfl, by decide +kernel, by decide +kernel, by decide +kernel, by decide +kernel⟩
  status := by decide +kernel
  ready := by
    have hcopy : disputed.tree.get "a.remote".toList ≠ none := by decide +kernel
    have habove : ∀ q ∈ ancestors "a".toList, disputed.tree.isDirectory q = true := by decide +kernel
    exact ⟨fun _ _ => ⟨hcopy, habove⟩, by simp, by simp⟩

/-- The directory takes the place of the file. -/
theorem disputed_resolved : ∃ d', Fallible.exec (ResolveOp.run sampleSpace)
    (resolve sampleSpace "a".toList false true) disputed = some (.ok (), d') ∧
      d'.tree.get "a/b".toList = some (sampleFile (utf8 "b")) ∧ d'.tree.get "a.remote".toList = none ∧
        d'.syncState.conflicts["a".toList]? = none := by
  obtain ⟨r, d', hexec, hsucceeds, hresolves, _⟩ := resolve_exact sampleSpace disputed "a".toList false true
  obtain rfl : r = .ok () := hsucceeds.mpr ⟨_, disputed_resolvable⟩
  obtain ⟨_, conflict, hconflict, hresolved⟩ := hresolves rfl
  obtain rfl : _ = conflict := Option.some.inj (disputed_resolvable.recorded.symm.trans hconflict)
  obtain ⟨hkept, hgone⟩ := hresolved.remoteKept rfl rfl
  refine ⟨d', hexec, ?_, hgone _ (within_self _), ?_⟩
  · rw [hkept "a/b".toList (by decide +kernel)]
    decide +kernel
  · rw [hresolved.registry]
    decide +kernel

end RustSync.Cli
