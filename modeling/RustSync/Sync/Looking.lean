/-
How an application looks about

Before it changes anything, `apply_pulled_manifest` loads the ignore rules,
walks the tree and looks for the contents it needs. Here every `lstat`, every
directory that is listed and every file that is read is a call of its own, and
each goes where the source sends it: a call that follows a link, or a path
through one, may come back with anything. What is found of a file is what a
lookup in the tree gives, and no call goes behind a link
(`guarded_matchingLocalFile`): the components of the path are looked at one
after the other, and the first link ends it.

Key definitions: `Looking.Op`, `Looking.applyPulledManifest`, `Looking.sem`,
`Looking.Op.Looks`, `Looking.Op.Inside`. Key theorems:
`guarded_loadIgnoreRules`, `guarded_addLocal`.
-/
import RustSync.Sync.Application

namespace RustSync

namespace Looking

/-- What `symlink_metadata` comes to; a file is known by its length. -/
inductive Found where
  | node (metadata : Node ℕ)
  | notFound
  | notADirectory

/-- A name in a directory, with its type. -/
abbrev DirEntry := List Char × Node Unit

inductive Op where
  | readManifest
  | symlinkMetadata (path : RelPath)
  | readDir (path : RelPath)
  | readFile (path : RelPath)
  | engine (o : RustSync.Op)

@[reducible] def Op.Val : Op → Type
  | .readManifest => Option Manifest
  | .symlinkMetadata _ => Found
  | .readDir _ => List DirEntry
  | .readFile _ => Bytes
  | .engine o => o.Val

abbrev Look := Fallible Op.Val SyncError

def call (o : Op) : Look o.Val := Fallible.op o

/-- A result of the engine: `x?`. -/
def checked {α : Type} (x : LocalResult α) : Look α := Fallible.check (x.mapError .loc)

section Program

variable (ws : Workspace)

def loadMatcher : Look (RelPath → Bool → Bool) := do
  match ← call (.symlinkMetadata ignoreFile) with
  | .node (.file _) =>
    let bytes ← call (.readFile ignoreFile)
    checked ((ws.ignore.parse bytes).mapError .io)
  | .node _ => throw (.loc (.io ".rustsyncignore must be a regular file"))
  | .notFound => return fun _ _ => false
  | .notADirectory => throw (.loc (.io "not a directory"))

/-- `IgnoreRules::load`. -/
def loadIgnoreRules : Look IgnoreRules := do
  let matcher ← loadMatcher ws
  let staged ← call .readManifest
  return ⟨matcher, trackedOf staged⟩

/-- The paths to sync, and those to leave alone. -/
abbrev Paths := List RelPath × List RelPath

def collectEntry (rules : IgnoreRules) (current : RelPath) (recurse : RelPath → Paths → Look Paths) (paths : Paths)
    (entry : DirEntry) : Look Paths :=
  let path := joinPath current entry.1
  let relative := slashed path
  if isInternal relative then return paths
  else if rules.excludes relative entry.2.isDir then return (paths.1, paths.2 ++ [relative])
  else if entry.2.isDir then recurse path (paths.1 ++ [relative], paths.2)
  else return (paths.1 ++ [relative], paths.2)

/-- `collect_workspace_paths`, down to a number of levels. -/
def collectWorkspacePaths (rules : IgnoreRules) : ℕ → RelPath → Paths → Look Paths
  | 0, _, _ => throw (.loc (.io "the tree is deeper than the walk"))
  | levels + 1, current, paths => do
    let entries : List DirEntry ← call (.readDir current)
    entries.foldlM (collectEntry rules current (collectWorkspacePaths rules levels)) paths

/-- There is something at each of the paths, and no link. -/
def meetsNoLink : List RelPath → Look Bool
  | [] => return true
  | target :: rest => do
    match ← call (.symlinkMetadata target) with
    | .node .other | .notFound | .notADirectory => return false
    | .node (.file _) | .node .directory => meetsNoLink rest

def matchingLocalFile (path : RelPath) (file : FileEntry) : Look (Option Bytes) := do
  if ← meetsNoLink (ancestors path ++ [path]) then
    match ← call (.symlinkMetadata path) with
    | .node (.file length) =>
      if length = file.size then do
        let bytes : Bytes ← call (.readFile path)
        return if bytes.length = file.size ∧ sha256Hex ws.digest bytes = file.contentHash then some bytes else none
      else return none
    | .node _ => return none
    | .notFound | .notADirectory => throw (.loc (.io "not found"))
  else return none

/-- The contents at hand, and the paths of the files that are as listed. -/
abbrev Matching := BTreeMap String Bytes × BTreeSet RelPath

def addLocal (found : Matching) : RelPath × ManifestEntry → Look Matching
  | (path, .file file) => do
    match ← matchingLocalFile ws path file with
    | some bytes => return (found.1.insert file.contentHash bytes, found.2.insert path)
    | none => return found
  | (_, .directory) => return found

/-- What is known when everything has been checked: the paths below the root,
those of the files that are as listed, and all contents. -/
def examine (levels : ℕ) (m : Manifest) (blobSource : String → Except String Bytes) :
    Look (List RelPath × BTreeSet RelPath × BTreeMap String Bytes) := do
  checked (validatePulledManifest ws m)
  let rules ← loadIgnoreRules ws
  let (localPaths, protectedPaths) ← collectWorkspacePaths rules levels [] ([], [])
  checked (checkProtected m protectedPaths)
  let found ← m.entries.toList.foldlM (addLocal ws) (∅, ∅)
  let fetched ← checked (fetchMissing ws m blobSource found.1)
  return (localPaths, found.2, fetched)

/-- The calls of the engine among those of an application. -/
def engineCalls : (Signature.fallible RustSync.Op.Val SyncError).Embedding (Signature.fallible Op.Val SyncError) where
  op := .engine
  resp _ r := r

def applyPulledManifest (levels : ℕ) (m : Manifest) (blobSource : String → Except String Bytes) : Look Unit := do
  let (localPaths, unchangedPaths, fetched) ← examine ws levels m blobSource
  Fallible.lift engineCalls (applyChanges ws m (fun item => decide (item.1 ∈ unchangedPaths)) fetched localPaths)

end Program

/-! ### What calls do -/

def find (tree : WorkingTree) (path : RelPath) : Found :=
  match stat tree path with
  | .ok (some node) => .node (Node.map (fun content => content.bytes.length) node)
  | .ok none => .notFound
  | .error _ => .notADirectory

/-- The names in a directory, in any order. -/
structure DirEntries (tree : WorkingTree) (path : RelPath) (entries : List DirEntry) : Prop where
  nodup : (entries.map Prod.fst).Nodup
  mem : ∀ name type, (name, type) ∈ entries ↔
    '/' ∉ name ∧ (tree.get (joinPath path name)).map (Node.map fun _ => ()) = some type

/-- The path leads through one of the links. -/
def Through (tree : WorkingTree) (path : RelPath) : Prop := ∃ q, Beneath q path ∧ tree.get q = some .other

def readDirStep (tree : WorkingTree) (path : RelPath) (r : SyncResult (List DirEntry)) : Prop :=
  if path = [] ∨ tree.get path = some .directory then ∃ entries, DirEntries tree path entries ∧ r = .ok entries
  else ∃ text, r = .error (.loc (.io text))

def readFileStep (tree : WorkingTree) (path : RelPath) (r : SyncResult Bytes) : Prop :=
  match tree.get path with
  | some (.file content) => r = .ok content.bytes
  | _ => ∃ text, r = .error (.loc (.io text))

/-- What a call does while nobody edits the tree. Behind a link there may be
anything. -/
def sem (env : Setting) : (o : Op) → World → SyncResult o.Val → World → Prop
  | .readManifest, w, r, w' => onDisk env w r w' (r = .ok w.device.staged ∧ w' = w)
  | .symlinkMetadata path, w, r, w' => onDisk env w r w'
      ((r = .ok (find w.device.tree path) ∨ Through w.device.tree path) ∧ w' = w)
  | .readDir path, w, r, w' => onDisk env w r w'
      ((readDirStep w.device.tree path r ∨ Through w.device.tree path ∨ w.device.tree.get path = some .other) ∧ w' = w)
  | .readFile path, w, r, w' => onDisk env w r w'
      ((readFileStep w.device.tree path r ∨ Through w.device.tree path ∨ w.device.tree.get path = some .other) ∧ w' = w)
  | .engine o, w, r, w' => RustSync.sem env o w r w'

/-- The call looks at the tree below the root and not through a link, or at the
staged manifest. -/
def Op.Looks : Op → World → Prop
  | .readManifest, _ => True
  | .symlinkMetadata path, w => Site w.device.tree path
  | .readDir path, w => path = [] ∨ (Site w.device.tree path ∧ w.device.tree.get path ≠ some .other)
  | .readFile path, w => Site w.device.tree path ∧ w.device.tree.get path ≠ some .other
  | .engine _, _ => False

/-- The call stays in the workspace, and in the folder `.rustsync` with the
staged manifest and contents under their hashes. -/
def Op.Inside (c : Crypto) : Op → World → Prop
  | .engine o, w => o.Inside c w
  | o, w => o.Looks w

/-! ### Looking along a path -/

section Looks

variable {env : Setting} {ws : Workspace} {E : World → Prop} {w : World} {tree : WorkingTree} {rules : IgnoreRules}
  {path p q dir name : RelPath}

theorem Op.Looks.keeps {o : Op} {u u' t : World} {r : SyncResult o.Val} (ho : o.Looks u) (hcall : sem env o u r u')
    (hu : u = t) : u' = t := by
  have hdisk {α : Type} {r : SyncResult α} {step : Prop} (h : onDisk env u r u' (step ∧ u' = u)) : u' = t := by
    rcases h with ⟨_, rfl⟩ | ⟨_, _, rfl⟩
    · exact hu
    · exact hu
  cases o with
  | readManifest | symlinkMetadata | readDir | readFile => exact hdisk hcall
  | engine => exact ho.elim

theorem guarded_call {o : Op} {step : SyncResult o.Val → Prop} {Q : o.Val → World → Prop} (hlooks : o.Looks w)
    (hsem : ∀ r t, sem env o w r t → onDisk env w r t (step r ∧ t = w)) (hE : env.diskFails → E w)
    (hstep : ∀ r, step r → (∃ a, r = .ok a ∧ Q a w) ∨ ((∃ e, r = .error e) ∧ E w)) :
    Fallible.Guarded (sem env) Op.Looks E (call o) w Q := by
  refine Fallible.Guarded.op hlooks fun r t hcall => ?_
  rcases hsem r t hcall with ⟨h, rfl⟩ | ⟨hfails, ⟨text, hr⟩, rfl⟩
  · rcases hstep r h with ⟨a, rfl, hQ⟩ | ⟨⟨e, rfl⟩, hE'⟩
    · exact hQ
    · exact hE'
  · rw [hr]
    exact hE hfails

theorem Site.not_through (h : Site tree path) : ¬ Through tree path := by
  rintro ⟨q, hq, hlink⟩
  exact h.unlinked q hq hlink

theorem guarded_symlinkMetadata (hsite : Site w.device.tree path) (hE : env.diskFails → E w) :
    Fallible.Guarded (sem env) Op.Looks E (call (.symlinkMetadata path)) w fun a t =>
      t = w ∧ a = find w.device.tree path := by
  refine guarded_call hsite (fun _ _ h => h) hE fun r h => ?_
  exact .inl ⟨_, h.resolve_right (Site.not_through hsite), rfl, rfl⟩

theorem guarded_readFile {content : FileContent} (hinside : InWorkspace path)
    (hfile : w.device.tree.get path = some (.file content)) (hE : env.diskFails → E w) :
    Fallible.Guarded (sem env) Op.Looks E (call (.readFile path)) w fun a t => t = w ∧ a = content.bytes := by
  have hsite : Site w.device.tree path := (open_of_some (by rw [hfile]; simp)).site hinside
  refine guarded_call ⟨hsite, by rw [hfile]; simp⟩ (fun _ _ h => h) hE fun r h => ?_
  rcases h with h | hthrough | hlink
  · unfold readFileStep at h
    rw [hfile] at h
    exact .inl ⟨_, h, rfl, rfl⟩
  · exact absurd hthrough (Site.not_through hsite)
  · rw [hfile] at hlink
    cases hlink

/-- The root, or a directory that the walk may go into. -/
def Entered (tree : WorkingTree) (dir : RelPath) : Prop := dir = [] ∨ (InWorkspace dir ∧ tree.get dir = some .directory)

theorem guarded_readDir (hdir : Entered w.device.tree dir) (hE : env.diskFails → E w) :
    Fallible.Guarded (sem env) Op.Looks E (call (.readDir dir)) w fun a t =>
      t = w ∧ DirEntries w.device.tree dir a := by
  have hlooks : Op.Looks (.readDir dir) w := by
    rcases hdir with hroot | ⟨hinside, hdir⟩
    · exact .inl hroot
    · exact .inr ⟨(open_of_some (by rw [hdir]; simp)).site hinside, by rw [hdir]; simp⟩
  refine guarded_call hlooks (fun _ _ h => h) hE fun r h => ?_
  have hstep : readDirStep w.device.tree dir r := by
    rcases h with h | ⟨q, hq, hlink⟩ | hlink
    · exact h
    · rcases hdir with rfl | ⟨_, hdir⟩
      · obtain ⟨rest, hrest⟩ := beneath_iff.mp hq
        simp at hrest
      · rw [w.device.tree.get_above hdir hq] at hlink
        cases hlink
    · rcases hdir with rfl | ⟨_, hdir⟩
      · exact absurd rfl (proper_ne_nil (w.device.tree.proper [] _ hlink))
      · rw [hdir] at hlink
        cases hlink
  unfold readDirStep at hstep
  rw [if_pos (hdir.imp id fun h => h.2)] at hstep
  obtain ⟨entries, hentries, rfl⟩ := hstep
  exact .inl ⟨_, rfl, rfl, hentries⟩

theorem guarded_readManifest (hE : env.diskFails → E w) :
    Fallible.Guarded (sem env) Op.Looks E (call .readManifest) w fun a t => t = w ∧ a = w.device.staged := by
  refine guarded_call trivial (fun _ _ h => h) hE fun r h => ?_
  exact .inl ⟨_, h, rfl, rfl⟩

theorem find_of_get {n : Node FileContent} (h : tree.get path = some n) :
    find tree path = .node (Node.map (fun content => content.bytes.length) n) := by
  have hopen : Open tree path := open_of_some (by rw [h]; simp)
  unfold find
  rw [hopen.stat, h]

theorem get_of_find {metadata : Node ℕ} (h : find tree path = .node metadata) :
    ∃ n, tree.get path = some n ∧ Node.map (fun content => content.bytes.length) n = metadata := by
  unfold find at h
  cases hstat : stat tree path with
  | error e =>
    rw [hstat] at h
    cases h
  | ok node =>
    rw [hstat] at h
    cases node with
    | none => cases h
    | some n => exact ⟨n, (stat_ok hstat).symm, by injection h⟩

/-! ### The ignore rules -/

theorem not_beneath_ignoreFile : ¬ Beneath q ignoreFile := by
  intro hq
  obtain ⟨rest, hrest⟩ := beneath_iff.mp hq
  have hslash : '/' ∈ ignoreFile := by
    rw [hrest]
    simp
  revert hslash
  decide

theorem ignoreFile_inside : InWorkspace ignoreFile := by
  refine ⟨by decide, ?_⟩
  rintro (heq | hbeneath)
  · revert heq
    decide
  · exact not_beneath_ignoreFile hbeneath

theorem guarded_loadMatcher
    (hE : env.diskFails ∨ (∀ matcher, RustSync.loadMatcher ws.ignore w.device.tree ≠ .ok matcher) → E w) :
    Fallible.Guarded (sem env) Op.Looks E (loadMatcher ws) w fun matcher t =>
      t = w ∧ RustSync.loadMatcher ws.ignore w.device.tree = .ok matcher := by
  have hsite : Site w.device.tree ignoreFile := ⟨ignoreFile_inside, fun q hq => absurd hq not_beneath_ignoreFile⟩
  refine Fallible.Guarded.bind (guarded_symlinkMetadata hsite fun hfails => hE (.inl hfails)) fun found t h => ?_
  obtain ⟨rfl, rfl⟩ := h
  have hopen : Open t.device.tree ignoreFile := fun q hq => absurd hq not_beneath_ignoreFile
  unfold RustSync.loadMatcher at hE ⊢
  cases hnode : t.device.tree.get ignoreFile with
  | none =>
    have hfind : find t.device.tree ignoreFile = .notFound := by
      unfold find
      rw [hopen.stat, hnode]
    rw [hfind]
    exact Fallible.Guarded.pure ⟨rfl, rfl⟩
  | some n =>
    rw [hnode] at hE
    rw [find_of_get hnode]
    cases n with
    | file content =>
      refine Fallible.Guarded.bind (guarded_readFile ignoreFile_inside hnode fun hfails => hE (.inl hfails))
        fun bytes u h => ?_
      obtain ⟨rfl, rfl⟩ := h
      refine Fallible.Guarded.check (fun e he => hE (.inr fun matcher hmatcher => ?_)) fun matcher hmatcher =>
        ⟨rfl, Except.mapError_ok.mp hmatcher⟩
      rw [Except.mapError_ok.mpr hmatcher] at he
      cases he
    | directory => exact Fallible.Guarded.throw (hE (.inr fun matcher hmatcher => nomatch hmatcher))
    | other => exact Fallible.Guarded.throw (hE (.inr fun matcher hmatcher => nomatch hmatcher))

theorem guarded_loadIgnoreRules
    (hE : env.diskFails ∨ (∀ rules, IgnoreRules.load ws.ignore w.device.tree w.device.staged ≠ .ok rules) → E w) :
    Fallible.Guarded (sem env) Op.Looks E (loadIgnoreRules ws) w fun rules t =>
      t = w ∧ IgnoreRules.load ws.ignore w.device.tree w.device.staged = .ok rules := by
  refine Fallible.Guarded.bind (guarded_loadMatcher fun hfails => hE (hfails.imp id fun hnone rules hrules => ?_))
    fun matcher t h => ?_
  · obtain ⟨matcher, hmatcher, _⟩ := Except.bind_ok.mp hrules
    exact hnone matcher hmatcher
  · obtain ⟨rfl, hmatcher⟩ := h
    refine Fallible.Guarded.bind (guarded_readManifest fun hfails => hE (.inl hfails)) fun staged u h => ?_
    obtain ⟨rfl, rfl⟩ := h
    exact Fallible.Guarded.pure ⟨rfl, Except.bind_ok.mpr ⟨matcher, hmatcher, rfl⟩⟩

/-! ### Contents at hand -/

/-- There is a file or a directory at the path. -/
def Plain (tree : WorkingTree) (p : RelPath) : Prop := ∃ n, tree.get p = some n ∧ n ≠ .other

/-- A path is looked at when those above it have been. -/
theorem guarded_meetsNoLink {targets : List RelPath} (hE : env.diskFails → E w) (hsorted : targets.Pairwise Beneath)
    (hinside : ∀ p ∈ targets, InWorkspace p)
    (hseen : ∀ p ∈ targets, ∀ q, Beneath q p → q ∈ targets ∨ w.device.tree.get q ≠ some .other) :
    Fallible.Guarded (sem env) Op.Looks E (meetsNoLink targets) w fun met t =>
      t = w ∧ (met = true ↔ ∀ p ∈ targets, Plain w.device.tree p) := by
  induction targets generalizing w with
  | nil => exact Fallible.Guarded.pure ⟨rfl, by simp⟩
  | cons target rest ih =>
    obtain ⟨hfirst, hsorted⟩ := List.pairwise_cons.mp hsorted
    have hsite : Site w.device.tree target := by
      refine ⟨hinside target List.mem_cons_self, fun q hq => ?_⟩
      rcases hseen target List.mem_cons_self q hq with hmem | hnot
      · rcases List.mem_cons.mp hmem with rfl | hmem
        · exact absurd hq (not_beneath_self _)
        · exact absurd (hfirst q hmem) hq.asymm
      · exact hnot
    refine Fallible.Guarded.bind (guarded_symlinkMetadata hsite hE) fun found t h => ?_
    obtain ⟨rfl, rfl⟩ := h
    have hstop (hnot : ¬ Plain t.device.tree target) :
        false = true ↔ ∀ p ∈ target :: rest, Plain t.device.tree p := by
      simp only [Bool.false_eq_true, false_iff]
      exact fun hall => hnot (hall target List.mem_cons_self)
    have hgo (hplain : Plain t.device.tree target) : Fallible.Guarded (sem env) Op.Looks E (meetsNoLink rest) t
        fun met u => u = t ∧ (met = true ↔ ∀ p ∈ target :: rest, Plain t.device.tree p) := by
      refine (ih hE hsorted (fun p hp => hinside p (List.mem_cons_of_mem _ hp)) fun p hp q hq =>
        ?_).weaken (fun _ h => h) fun met u h => ⟨h.1, ?_⟩
      · rcases hseen p (List.mem_cons_of_mem _ hp) q hq with hmem | hnot
        · rcases List.mem_cons.mp hmem with rfl | hmem
          · obtain ⟨n, hn, hother⟩ := hplain
            right
            rw [hn]
            exact fun heq => hother (Option.some.inj heq)
          · exact .inl hmem
        · exact .inr hnot
      · rw [h.2, List.forall_mem_cons]
        exact ⟨fun hall => ⟨hplain, hall⟩, fun hall => hall.2⟩
    cases hfind : find t.device.tree target with
    | notFound | notADirectory =>
      refine Fallible.Guarded.pure ⟨rfl, hstop ?_⟩
      rintro ⟨n, hn, _⟩
      rw [find_of_get hn] at hfind
      cases hfind
    | node metadata =>
      obtain ⟨n, hn, rfl⟩ := get_of_find hfind
      cases n with
      | file content => exact hgo ⟨_, hn, by simp⟩
      | directory => exact hgo ⟨_, hn, by simp⟩
      | other =>
        refine Fallible.Guarded.pure ⟨rfl, hstop ?_⟩
        rintro ⟨n, hn', hother⟩
        rw [hn] at hn'
        exact hother (Option.some.inj hn').symm

theorem plain_along : (∀ q ∈ ancestors p ++ [p], Plain tree q) ↔ Plain tree p := by
  constructor
  · intro hall
    exact hall p (by simp)
  · rintro ⟨n, hn, hother⟩ q hq
    rcases List.mem_append.mp hq with hq | hq
    · exact ⟨.directory, tree.get_above hn (mem_ancestors.mp hq), by simp⟩
    · rw [List.mem_singleton.mp hq]
      exact ⟨n, hn, hother⟩

/-- The content of a file is read when nothing on the way is a link. -/
theorem guarded_matchingLocalFile {file : FileEntry} (hinside : InWorkspace p) (hE : env.diskFails → E w) :
    Fallible.Guarded (sem env) Op.Looks E (matchingLocalFile ws p file) w fun found t =>
      t = w ∧ found = RustSync.matchingLocalFile ws w.device.tree p file := by
  have hsorted : (ancestors p ++ [p]).Pairwise Beneath := by
    refine List.pairwise_append.mpr ⟨ancestors_sorted p, List.pairwise_singleton _ _, fun q hq r hr => ?_⟩
    rw [List.mem_singleton.mp hr]
    exact mem_ancestors.mp hq
  have hwithin : ∀ q ∈ ancestors p ++ [p], Within q p := by
    intro q hq
    rcases List.mem_append.mp hq with hq | hq
    · exact (mem_ancestors.mp hq).within
    · rw [List.mem_singleton.mp hq]
      exact within_self p
  refine Fallible.Guarded.bind (guarded_meetsNoLink hE hsorted (fun q hq => hinside.above (hwithin q hq))
    fun q hq r hr => .inl (List.mem_append_left _ (mem_ancestors.mpr (hr.trans_within (hwithin q hq)))))
    fun met t h => ?_
  obtain ⟨rfl, hmet⟩ := h
  rw [plain_along] at hmet
  unfold RustSync.matchingLocalFile
  by_cases hplain : met = true
  · rw [if_pos hplain]
    obtain ⟨n, hn, hother⟩ := hmet.mp hplain
    have hopen : Open t.device.tree p := open_of_some (by rw [hn]; simp)
    refine Fallible.Guarded.bind (guarded_symlinkMetadata (hopen.site hinside) hE) fun found u h => ?_
    obtain ⟨rfl, rfl⟩ := h
    rw [find_of_get hn, hn]
    cases n with
    | directory => exact Fallible.Guarded.pure ⟨rfl, rfl⟩
    | other => exact absurd rfl hother
    | file content =>
      by_cases hlength : content.bytes.length = file.size
      · simp only [Node.map, hlength, if_true]
        refine Fallible.Guarded.bind (guarded_readFile hinside hn hE) fun bytes v h => ?_
        obtain ⟨rfl, rfl⟩ := h
        exact Fallible.Guarded.pure ⟨rfl, by simp only [hlength]⟩
      · simp only [Node.map, hlength, if_false, false_and]
        exact Fallible.Guarded.pure ⟨rfl, rfl⟩
  · rw [if_neg hplain]
    refine Fallible.Guarded.pure ⟨rfl, ?_⟩
    cases hn : t.device.tree.get p with
    | none => rfl
    | some n =>
      cases n with
      | file content => exact absurd (hmet.mpr ⟨_, hn, by simp⟩) hplain
      | directory => rfl
      | other => rfl

theorem guarded_addLocal {l : List (RelPath × ManifestEntry)} (hinside : ∀ item ∈ l, InWorkspace item.1)
    (hE : env.diskFails → E w) :
    Fallible.Guarded (sem env) Op.Looks E (l.foldlM (addLocal ws) (∅, ∅)) w fun found t =>
      t = w ∧ found.1 = l.foldl (RustSync.addLocal ws w.device.tree) ∅ ∧
        ∀ p, p ∈ found.2 ↔ ∃ item ∈ l, item.1 = p ∧ isUnchanged ws w.device.tree item = true := by
  refine Fallible.Guarded.foldlM (fun done (found : Matching) (t : World) => t = w ∧
    found.1 = done.foldl (RustSync.addLocal ws w.device.tree) ∅ ∧
      ∀ p, p ∈ found.2 ↔ ∃ item ∈ done, item.1 = p ∧ isUnchanged ws w.device.tree item = true)
    ⟨rfl, rfl, by simp⟩ fun done item rest found t hl h => ?_
  obtain ⟨rfl, hfound, hpaths⟩ := h
  obtain ⟨path, entry⟩ := item
  rw [List.foldl_append, List.foldl_cons, List.foldl_nil, ← hfound]
  have hmore {p : RelPath} {found' : BTreeSet RelPath} (h : p ∈ found' ↔ p ∈ found.2 ∨
      (path = p ∧ isUnchanged ws t.device.tree (path, entry) = true)) :
      p ∈ found' ↔ ∃ item ∈ done ++ [(path, entry)], item.1 = p ∧ isUnchanged ws t.device.tree item = true := by
    rw [h, hpaths]
    simp only [List.mem_append, List.mem_singleton, or_and_right, exists_or, exists_eq_left]
  cases entry with
  | directory => exact Fallible.Guarded.pure ⟨rfl, rfl, fun p => hmore (by simp [isUnchanged])⟩
  | file file =>
    have hpath : InWorkspace path := hinside (path, .file file) (by rw [hl]; simp)
    refine Fallible.Guarded.bind (guarded_matchingLocalFile hpath hE) fun matching u h => ?_
    obtain ⟨rfl, rfl⟩ := h
    cases hmatching : RustSync.matchingLocalFile ws u.device.tree path file with
    | none =>
      refine Fallible.Guarded.pure ⟨rfl, ?_, fun p => hmore ?_⟩
      · simp [RustSync.addLocal, hmatching]
      · simp [isUnchanged, hmatching]
    | some bytes =>
      refine Fallible.Guarded.pure ⟨rfl, ?_, fun p => hmore ?_⟩
      · simp [RustSync.addLocal, hmatching]
      · rw [BTreeSet.mem_insert, or_comm, eq_comm (a := p)]
        simp [isUnchanged, hmatching]

end Looks

end Looking

end RustSync
