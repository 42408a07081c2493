/-
Scanning the working tree

`build_manifest` walks the tree, leaves out what is excluded, and then drops
the directories that have something in them but nothing visible. What it
returns has a closed form: a path is listed when a visible file or a visible
empty directory is at it or beneath it (`Scanned`, `scan_get`). The staged
manifest overrides the ignore rules for the paths it lists; a scan that is
staged overrides them for what it saw, so the next scan sees the same
(`scanned_tracking`).

Key definitions: `IgnoreRules`, `buildManifest`, `Visible`, `Scanned`. Key
theorems: `scan_get`, `scan_shape`, `scan_staged`.
-/
import Mathlib.Data.List.Sort
import RustSync.Lib.FileTree
import RustSync.Sync.Combine

namespace RustSync

structure FileContent where
  bytes : Bytes
  modifiedAt : UnixTimestamp
deriving DecidableEq

/-- The files of a workspace, but for the folder `.rustsync` at its root. -/
abbrev WorkingTree := FileTree FileContent

/-- The tree of some nodes, those above a node before it. -/
def treeOf (nodes : List (String × Node FileContent)) : WorkingTree :=
  nodes.foldl (fun tree node => (tree.put node.1.toList node.2).getD tree) .empty

def sampleFile (bytes : Bytes) : Node FileContent := .file ⟨bytes, ⟨0⟩⟩

/-- `LocalWorkspaceError`. -/
inductive LocalError where
  | manifest (error : ManifestError)
  | io (text : String)
  | missingStagedManifest
  | missingStagedBlob (contentHash : String)
  | unsafeManifestPath (path : RelPath)
  | blobHashMismatch (contentHash : String)
  | blobSource (contentHash : String) (text : String)
deriving DecidableEq

abbrev LocalResult (α : Type) := Except LocalError α

def liftProtocol {α : Type} (x : ProtocolResult α) : LocalResult α :=
  x.mapError fun e => .manifest (.protocol e)

/-! ### Ignore rules -/

/-- The third-party matcher: from the text of an ignore file, which paths it
ignores, of directories and of other entries. -/
structure IgnoreSyntax where
  parse : Bytes → Except String (RelPath → Bool → Bool)

structure IgnoreRules where
  matcher : RelPath → Bool → Bool
  tracked : BTreeSet RelPath

/-- `.rustsync`, or the name of a temporary file. -/
def isInternalName (name : List Char) : Bool :=
  name = ".rustsync".toList ∨ ".rustsync-tmp-".toList <+: name

def isInternal (relative : RelPath) : Bool := (components relative).any isInternalName

def ignoreFile : RelPath := ".rustsyncignore".toList

/-- The paths of a manifest and those above them. -/
def trackedOf (staged : Option Manifest) : BTreeSet RelPath :=
  match staged with
  | some manifest => BTreeSet.ofList (manifest.entries.keys.flatMap fun path => path :: ancestors path)
  | none => ∅

def loadMatcher (ignore : IgnoreSyntax) (tree : WorkingTree) : LocalResult (RelPath → Bool → Bool) :=
  match tree.get ignoreFile with
  | some (.file content) => (ignore.parse content.bytes).mapError .io
  | some _ => .error (.io ".rustsyncignore must be a regular file")
  | none => .ok fun _ _ => false

def IgnoreRules.load (ignore : IgnoreSyntax) (tree : WorkingTree) (staged : Option Manifest) :
    LocalResult IgnoreRules := do
  let matcher ← loadMatcher ignore tree
  return ⟨matcher, trackedOf staged⟩

def IgnoreRules.excludes (rules : IgnoreRules) (relative : RelPath) (isDir : Bool) : Bool :=
  isInternal relative || (decide (relative ∉ rules.tracked) && rules.matcher relative isDir)

/-! ### The scan -/

/-- The entries of the walk: not excluded, in directories that are not. -/
def walk (rules : IgnoreRules) (tree : WorkingTree) : List (RelPath × Node FileContent) :=
  tree.nodes.toList.filter fun (path, node) =>
    !rules.excludes path node.isDir && (ancestors path).all fun q => !rules.excludes q true

def addEntry (c : Crypto) (manifest : Manifest) : RelPath × Node FileContent → LocalResult Manifest
  | (path, .directory) => liftProtocol (manifest.insert path .directory)
  | (path, .file content) => liftProtocol (manifest.insert path
      (.ofFile content.bytes.length (sha256Hex c content.bytes) content.modifiedAt))
  | (path, .other) =>
    let name := path.text
    .error (.manifest (.io
      s!"unsupported workspace entry `{name}`: only regular files and directories can be synced"))

def depth (path : RelPath) : ℕ := path.count '/'

/-- Deeper paths first. -/
def DeeperFirst (p q : RelPath) : Prop := depth q ≤ depth p

instance (p q : RelPath) : Decidable (DeeperFirst p q) := inferInstanceAs (Decidable (_ ≤ _))
instance : Std.Total DeeperFirst := ⟨fun p q => Nat.le_total (depth q) (depth p)⟩
instance : IsTrans RelPath DeeperFirst := ⟨fun _ _ _ hpq hqr => Nat.le_trans hqr hpq⟩

/-- The first listed path from `path/` on starts with it. -/
def hasVisibleChild (manifest : Manifest) (path : RelPath) : Bool :=
  (manifest.entries.firstFrom (path ++ ['/'])).any fun child => path ++ ['/'] <+: child

/-- A directory that has something in it, nothing of which is listed. -/
def prunePath (tree : WorkingTree) (manifest : Manifest) (path : RelPath) : Manifest :=
  if !hasVisibleChild manifest path && tree.occupied path then
    { manifest with entries := manifest.entries.erase path }
  else manifest

def prune (tree : WorkingTree) (manifest : Manifest) : Manifest :=
  let directories := manifest.entries.toList.filterMap fun (path, entry) =>
    if entry = .directory then some path else none
  (directories.insertionSort DeeperFirst).foldl (prunePath tree) manifest

def buildManifest (c : Crypto) (ignore : IgnoreSyntax) (workspaceId : WorkspaceId) (tree : WorkingTree)
    (staged : Option Manifest) : LocalResult Manifest := do
  let rules ← IgnoreRules.load ignore tree staged
  let manifest ← (walk rules tree).foldlM (addEntry c) (.new workspaceId)
  return prune tree manifest

/-! ### What the scan lists -/

section Closed

variable {c : Crypto} {ignore : IgnoreSyntax} {workspaceId : WorkspaceId} {rules : IgnoreRules}
  {tree : WorkingTree} {staged : Option Manifest} {manifest : Manifest} {p q : RelPath}

/-- The entry of a node. -/
def entryOf (c : Crypto) : Node FileContent → Option ManifestEntry
  | .directory => some .directory
  | .file content => some (.ofFile content.bytes.length (sha256Hex c content.bytes) content.modifiedAt)
  | .other => none

/-- There, and neither excluded nor in a directory that is. -/
def Visible (rules : IgnoreRules) (tree : WorkingTree) (p : RelPath) : Prop :=
  tree.get p ≠ none ∧ ∀ q, Within q p → rules.excludes q (tree.isDirectory q) = false

/-- A file or an empty directory. -/
def Anchor (tree : WorkingTree) (p : RelPath) : Prop :=
  tree.get p ≠ none ∧ (tree.isDirectory p = true → tree.occupied p = false)

/-- A visible file or empty directory is there or beneath. -/
def Scanned (rules : IgnoreRules) (tree : WorkingTree) (p : RelPath) : Prop :=
  ∃ q, Within p q ∧ Visible rules tree q ∧ Anchor tree q

theorem Visible.above (h : Visible rules tree q) (hpq : Within p q) : Visible rules tree p := by
  refine ⟨?_, fun r hr => h.2 r (hr.trans hpq)⟩
  rcases hpq with rfl | hpq
  · exact h.1
  · obtain ⟨n, hn⟩ := Option.ne_none_iff_exists'.mp h.1
    rw [tree.get_above hn hpq]
    simp

theorem Scanned.visible (h : Scanned rules tree p) : Visible rules tree p := by
  obtain ⟨q, hpq, hvisible, _⟩ := h
  exact hvisible.above hpq

theorem Scanned.above (h : Scanned rules tree q) (hpq : Within p q) : Scanned rules tree p := by
  obtain ⟨r, hqr, hr⟩ := h
  exact ⟨r, hpq.trans hqr, hr⟩

/-- A visible file is listed. -/
theorem Visible.scanned (h : Visible rules tree p) (hp : tree.get p ≠ some .directory) : Scanned rules tree p :=
  ⟨p, within_self p, h, h.1, fun hdir => absurd (FileTree.isDirectory_iff.mp hdir) hp⟩

theorem mem_walk {n : Node FileContent} :
    (p, n) ∈ walk rules tree ↔ tree.get p = some n ∧ Visible rules tree p := by
  unfold walk
  rw [List.mem_filter, BTreeMap.mem_toList]
  have hdir {m : Node FileContent} (hm : tree.get p = some m) : tree.isDirectory p = m.isDir := by
    rw [FileTree.isDirectory, hm]
    rfl
  constructor
  · rintro ⟨hn, hexcluded⟩
    rw [Bool.and_eq_true, List.all_eq_true] at hexcluded
    have hn' : tree.get p = some n := hn
    refine ⟨hn', by rw [hn']; simp, fun q hq => ?_⟩
    rcases hq with rfl | hq
    · rw [hdir hn']
      simpa using hexcluded.1
    · have habove : tree.isDirectory q = true := FileTree.isDirectory_iff.mpr (tree.get_above hn' hq)
      rw [habove]
      simpa using hexcluded.2 q (mem_ancestors.mpr hq)
  · rintro ⟨hn, hvisible⟩
    refine ⟨hn, ?_⟩
    rw [Bool.and_eq_true, List.all_eq_true]
    constructor
    · have hself := hvisible.2 p (within_self p)
      rw [hdir hn] at hself
      simpa using hself
    · intro q hq
      have hbeneath := mem_ancestors.mp hq
      have habove : tree.isDirectory q = true := FileTree.isDirectory_iff.mpr (tree.get_above hn hbeneath)
      have hvisible := hvisible.2 q hbeneath.within
      rw [habove] at hvisible
      simpa using hvisible

theorem liftProtocol_ok {α : Type} {x : ProtocolResult α} {a : α} : liftProtocol x = .ok a ↔ x = .ok a := by
  unfold liftProtocol
  exact Except.mapError_ok

theorem addEntry_ok {m m' : Manifest} {n : Node FileContent} (h : addEntry c m (p, n) = .ok m') :
    ∃ e, entryOf c n = some e ∧ m.insert p e = .ok m' := by
  cases n with
  | directory => exact ⟨_, rfl, liftProtocol_ok.mp h⟩
  | file content => exact ⟨_, rfl, liftProtocol_ok.mp h⟩
  | other => cases h

/-- The manifest of a walk. -/
theorem walk_get (h : (walk rules tree).foldlM (addEntry c) (.new workspaceId) = .ok manifest) :
    manifest.workspaceId = workspaceId ∧
      (∀ p n, (p, n) ∈ walk rules tree → entryOf c n ≠ none ∧ validateManifestPath p = .ok ()) ∧
      ∀ p, manifest.get p =
        (tree.get p).bind fun n => if (p, n) ∈ walk rules tree then entryOf c n else none := by
  classical
  have hinv := foldlM_inv (fun done m => m.workspaceId = workspaceId ∧
      (∀ p n, (p, n) ∈ done → entryOf c n ≠ none ∧ validateManifestPath p = .ok ()) ∧
      ∀ p, m.get p = (tree.get p).bind fun n => if (p, n) ∈ done then entryOf c n else none)
    (l := walk rules tree) ⟨rfl, by simp, fun p => ?_⟩ ?_ h
  · exact hinv
  · rw [Manifest.get_new]
    cases tree.get p <;> simp
  · rintro done ⟨r, n⟩ rest m m' hl ⟨hworkspace, hfine, hm⟩ hadd
    obtain ⟨e, he, hinsert⟩ := addEntry_ok hadd
    have hr : tree.get r = some n := by
      have hmem : (r, n) ∈ walk rules tree := by simp [hl]
      exact (mem_walk.mp hmem).1
    refine ⟨(Manifest.workspaceId_insert hinsert).trans hworkspace, fun p n' hp => ?_, fun p => ?_⟩
    · rcases List.mem_append.mp hp with hp | hp
      · exact hfine p n' hp
      · rw [List.mem_singleton, Prod.mk.injEq] at hp
        obtain ⟨rfl, rfl⟩ := hp
        rw [he]
        exact ⟨by simp, (Manifest.insert_ok hinsert).2⟩
    · rw [Manifest.get_insert hinsert]
      by_cases heq : r = p
      · subst heq
        rw [if_pos rfl, hr, Option.bind_some, if_pos (by simp), he]
      · rw [if_neg heq, hm]
        cases hget : tree.get p with
        | none => rfl
        | some n' =>
          simp [Ne.symm heq]

theorem depth_lt (h : Beneath p q) : depth p < depth q := by
  obtain ⟨rest, rfl⟩ := beneath_iff.mp h
  unfold depth
  rw [List.count_append, List.count_cons_self]
  omega

/-- What is listed beneath a path stands together, so the first path in the
range tells whether there is anything. -/
theorem hasVisibleChild_iff {m : Manifest} :
    hasVisibleChild m p = true ↔ ∃ q, Beneath p q ∧ m.get q ≠ none := by
  unfold hasVisibleChild
  rw [Option.any_eq_true]
  constructor
  · rintro ⟨child, hfirst, hchild⟩
    obtain ⟨hmem, _⟩ := BTreeMap.firstFrom_mem hfirst
    exact ⟨child, of_decide_eq_true hchild, BTreeMap.mem_iff_lookup.mp hmem⟩
  · rintro ⟨q, hbeneath, hq⟩
    obtain ⟨child, hfirst, hle⟩ := BTreeMap.exists_firstFrom (BTreeMap.mem_iff_lookup.mpr hq)
      (compare_ne_gt hbeneath)
    have hfrom := (BTreeMap.firstFrom_mem hfirst).2
    exact ⟨child, hfirst, decide_eq_true (prefix_of_between hbeneath hfrom hle)⟩

/-- Pruning, deepest first, keeps the directories something is kept in. -/
theorem prune_get (hget : ∀ p, manifest.get p ≠ none ↔ Visible rules tree p)
    (hkind : ∀ p, manifest.get p = some .directory ↔ Visible rules tree p ∧ tree.get p = some .directory) :
    ((prune tree manifest).workspaceId = manifest.workspaceId) ∧
      ∀ p, (Scanned rules tree p → (prune tree manifest).get p = manifest.get p) ∧
        (¬ Scanned rules tree p → (prune tree manifest).get p = none) := by
  classical
  let directories := (manifest.entries.toList.filterMap fun (path, entry) =>
    if entry = ManifestEntry.directory then some path else none).insertionSort DeeperFirst
  have hmem {d : RelPath} : d ∈ directories ↔ manifest.get d = some .directory := by
    simp only [directories, List.mem_insertionSort, List.mem_filterMap, Prod.exists]
    constructor
    · rintro ⟨path, entry, hentry, hsome⟩
      rw [Option.ite_none_right_eq_some] at hsome
      obtain ⟨rfl, hpath⟩ := hsome
      cases hpath
      exact BTreeMap.mem_toList.mp hentry
    · exact fun hd => ⟨d, .directory, BTreeMap.mem_toList.mpr hd, by simp⟩
  have hsorted : directories.Pairwise DeeperFirst := List.pairwise_insertionSort _ _
  -- after the directories `done`, exactly those of them in which nothing is kept are gone
  have hfold : ∀ done rest : List RelPath, directories = done ++ rest →
      (done.foldl (prunePath tree) manifest).workspaceId = manifest.workspaceId ∧
      ∀ p, (done.foldl (prunePath tree) manifest).get p =
        if p ∈ done ∧ ¬ Scanned rules tree p then none else manifest.get p := by
    intro done
    induction done using List.reverseRecOn with
    | nil => exact fun _ _ => ⟨rfl, fun p => by simp⟩
    | append_singleton done d ih =>
      intro rest hsplit
      rw [List.append_assoc] at hsplit
      obtain ⟨hworkspace, hdone⟩ := ih _ hsplit
      rw [List.foldl_append, List.foldl_cons, List.foldl_nil]
      generalize done.foldl (prunePath tree) manifest = m at hworkspace hdone
      have hd : Visible rules tree d ∧ tree.get d = some .directory :=
        (hkind d).mp (hmem.mp (by rw [hsplit]; simp))
      have hdeeper {q : RelPath} (hq : Beneath d q) (hdir : manifest.get q = some .directory) : q ∈ done := by
        have hin := hmem.mpr hdir
        rw [hsplit, List.mem_append, List.singleton_append, List.mem_cons] at hin
        rcases hin with hin | heq | hin
        · exact hin
        · exact absurd heq hq.ne
        · rw [hsplit, List.singleton_append] at hsorted
          have hle := List.rel_of_pairwise_cons (List.pairwise_append.mp hsorted).2.1 hin
          have hlt := depth_lt hq
          unfold DeeperFirst at hle
          omega
      have hchild : hasVisibleChild m d = true ↔ ∃ q, Beneath d q ∧ Scanned rules tree q := by
        rw [hasVisibleChild_iff]
        constructor
        · rintro ⟨q, hbeneath, hsome⟩
          rw [hdone] at hsome
          refine ⟨q, hbeneath, ?_⟩
          by_contra hscanned
          by_cases hdir : manifest.get q = some .directory
          · exact hsome (if_pos ⟨hdeeper hbeneath hdir, hscanned⟩)
          · have hvisible : Visible rules tree q := by
              rw [← hget]
              intro hnone
              rw [hnone, ite_self] at hsome
              exact hsome rfl
            exact hscanned (hvisible.scanned fun h => hdir ((hkind q).mpr ⟨hvisible, h⟩))
        · rintro ⟨q, hbeneath, hscanned⟩
          refine ⟨q, hbeneath, ?_⟩
          rw [hdone, if_neg fun h => h.2 hscanned]
          exact (hget q).mpr hscanned.visible
      have hprune : prunePath tree m d =
          if Scanned rules tree d then m else { m with entries := m.entries.erase d } := by
        unfold prunePath
        by_cases hscanned : Scanned rules tree d
        · rw [if_pos hscanned, if_neg]
          rw [Bool.and_eq_true, Bool.not_eq_true', ← Bool.not_eq_true, hchild]
          rintro ⟨hnone, hoccupied⟩
          obtain ⟨q, hq, hvisible, hanchor⟩ := hscanned
          rcases hq with rfl | hq
          · rw [hanchor.2 (FileTree.isDirectory_iff.mpr hd.2)] at hoccupied
            cases hoccupied
          · exact hnone ⟨q, hq, q, within_self q, hvisible, hanchor⟩
        · rw [if_neg hscanned, if_pos]
          rw [Bool.and_eq_true, Bool.not_eq_true', ← Bool.not_eq_true, hchild]
          constructor
          · rintro ⟨q, hq, hscanned'⟩
            exact hscanned (hscanned'.above hq.within)
          · by_contra hfree
            exact hscanned ⟨d, within_self d, hd.1, hd.1.1, fun _ => by simpa using hfree⟩
      rw [hprune]
      by_cases hscanned : Scanned rules tree d
      · rw [if_pos hscanned]
        refine ⟨hworkspace, fun p => ?_⟩
        rw [hdone]
        by_cases heq : p = d
        · subst heq
          simp [hscanned]
        · simp [heq]
      · rw [if_neg hscanned]
        refine ⟨hworkspace, fun p => ?_⟩
        have herase : Manifest.get { m with entries := m.entries.erase d } p =
            if d = p then none else m.get p := BTreeMap.lookup_erase
        rw [herase, hdone]
        by_cases heq : d = p
        · subst heq
          simp [hscanned]
        · simp [heq, Ne.symm heq]
  obtain ⟨hworkspace, hall⟩ := hfold directories [] (List.append_nil _).symm
  refine ⟨hworkspace, fun p => ⟨fun hscanned => ?_, fun hscanned => ?_⟩⟩
  · exact (hall p).trans (if_neg fun h => h.2 hscanned)
  · refine (hall p).trans ?_
    by_cases hdir : p ∈ directories
    · rw [if_pos ⟨hdir, hscanned⟩]
    · rw [if_neg fun h => hdir h.1]
      by_contra hsome
      have hvisible := (hget p).mp hsome
      refine hscanned (hvisible.scanned fun h => hdir (hmem.mpr ((hkind p).mpr ⟨hvisible, h⟩)))

/-- **What the scan lists.** -/
theorem scan_get (h : buildManifest c ignore workspaceId tree staged = .ok manifest) :
    ∃ rules, IgnoreRules.load ignore tree staged = .ok rules ∧ manifest.workspaceId = workspaceId ∧
      (∀ p, Visible rules tree p → validateManifestPath p = .ok () ∧ tree.get p ≠ some .other) ∧
      ∀ p, (Scanned rules tree p → manifest.get p = (tree.get p).bind (entryOf c)) ∧
        (¬ Scanned rules tree p → manifest.get p = none) := by
  classical
  unfold buildManifest at h
  obtain ⟨rules, hrules, h⟩ := Except.bind_ok.mp h
  obtain ⟨walked, hwalked, h⟩ := Except.bind_ok.mp h
  cases h
  obtain ⟨hworkspace, hfine, hget⟩ := walk_get hwalked
  have hvisible (p : RelPath) (hp : Visible rules tree p) :
      walked.get p = (tree.get p).bind (entryOf c) ∧ validateManifestPath p = .ok () ∧
        ∃ e, walked.get p = some e ∧ tree.get p ≠ some .other ∧ (e = .directory ↔ tree.get p = some .directory) := by
    obtain ⟨n, hn⟩ := Option.ne_none_iff_exists'.mp hp.1
    have hmem : (p, n) ∈ walk rules tree := mem_walk.mpr ⟨hn, hp⟩
    obtain ⟨hentry, hvalid⟩ := hfine p n hmem
    have hp' : walked.get p = entryOf c n := by rw [hget, hn, Option.bind_some, if_pos hmem]
    refine ⟨by rw [hp', hn]; rfl, hvalid, ?_⟩
    rw [hp', hn]
    cases n with
    | file content => exact ⟨_, rfl, by simp, by simp [ManifestEntry.ofFile]⟩
    | directory => exact ⟨_, rfl, by simp, by simp⟩
    | other => exact absurd rfl hentry
  have hsome (p : RelPath) : walked.get p ≠ none ↔ Visible rules tree p := by
    constructor
    · intro hne
      rw [hget] at hne
      cases hn : tree.get p with
      | none => simp [hn] at hne
      | some n =>
        rw [hn, Option.bind_some] at hne
        by_contra hnot
        exact hne (if_neg fun hmem => hnot (mem_walk.mp hmem).2)
    · intro hp
      obtain ⟨_, _, e, he, _⟩ := hvisible p hp
      rw [he]
      simp
  have hkind (p : RelPath) : walked.get p = some .directory ↔
      Visible rules tree p ∧ tree.get p = some .directory := by
    constructor
    · intro hdir
      have hp : Visible rules tree p := (hsome p).mp (by rw [hdir]; simp)
      obtain ⟨_, _, e, he, _, hiff⟩ := hvisible p hp
      rw [he] at hdir
      exact ⟨hp, hiff.mp (Option.some.inj hdir)⟩
    · rintro ⟨hp, hdir⟩
      obtain ⟨_, _, e, he, _, hiff⟩ := hvisible p hp
      rw [he, hiff.mpr hdir]
  obtain ⟨hworkspace', hpruned⟩ := prune_get hsome hkind
  refine ⟨rules, hrules, hworkspace'.trans hworkspace, fun p hp => ?_, fun p => ⟨fun hscanned => ?_, (hpruned p).2⟩⟩
  · obtain ⟨_, hvalid, _, _, hother, _⟩ := hvisible p hp
    exact ⟨hvalid, hother⟩
  · rw [(hpruned p).1 hscanned, (hvisible p hscanned.visible).1]

variable (c workspaceId) in
/-- A scan that nothing visible stands against succeeds. -/
theorem scan_succeeds (hrules : IgnoreRules.load ignore tree staged = .ok rules)
    (hfine : ∀ p, Visible rules tree p → validateManifestPath p = .ok () ∧ tree.get p ≠ some .other) :
    ∃ manifest, buildManifest c ignore workspaceId tree staged = .ok manifest := by
  have hwalk : ∀ (l : List (RelPath × Node FileContent)) (m : Manifest), (∀ x ∈ l, x ∈ walk rules tree) →
      ∃ m', l.foldlM (addEntry c) m = .ok m' := by
    intro l
    induction l with
    | nil => exact fun m _ => ⟨m, rfl⟩
    | cons x l ih =>
      rintro m hl
      obtain ⟨p, n⟩ := x
      obtain ⟨hn, hvisible⟩ := mem_walk.mp (hl (p, n) List.mem_cons_self)
      obtain ⟨hvalid, hother⟩ := hfine p hvisible
      have hinsert (e : ManifestEntry) : liftProtocol (m.insert p e) =
          .ok { m with entries := m.entries.insert p e } := by
        rw [liftProtocol_ok, Manifest.insert, hvalid]
        rfl
      have hadd : ∃ m', addEntry c m (p, n) = .ok m' := by
        cases n with
        | directory => exact ⟨_, hinsert _⟩
        | file content => exact ⟨_, hinsert _⟩
        | other => exact absurd hn hother
      obtain ⟨m', hm'⟩ := hadd
      obtain ⟨m'', hm''⟩ := ih m' fun x hx => hl x (List.mem_cons_of_mem _ hx)
      refine ⟨m'', ?_⟩
      rw [List.foldlM_cons, hm']
      exact hm''
  obtain ⟨walked, hwalked⟩ := hwalk (walk rules tree) (.new workspaceId) fun _ hx => hx
  refine ⟨prune tree walked, ?_⟩
  unfold buildManifest
  rw [hrules]
  simp only [bind, Except.bind]
  rw [hwalked]
  rfl

theorem entryOf_bind_ne_none (hp : tree.get p ≠ none) (hother : tree.get p ≠ some .other) :
    (tree.get p).bind (entryOf c) ≠ none := by
  obtain ⟨n, hn⟩ := Option.ne_none_iff_exists'.mp hp
  rw [hn] at hother ⊢
  cases n with
  | other => exact absurd rfl hother
  | _ => simp [entryOf]

/-- What the scan lists is what is kept. -/
theorem scan_lists (h : buildManifest c ignore workspaceId tree staged = .ok manifest)
    (hrules : IgnoreRules.load ignore tree staged = .ok rules) : manifest.get p ≠ none ↔ Scanned rules tree p := by
  obtain ⟨rules', hrules', _, hfine, hget⟩ := scan_get h
  rw [hrules] at hrules'
  cases hrules'
  constructor
  · intro hsome
    by_contra hscanned
    exact hsome ((hget p).2 hscanned)
  · intro hscanned
    rw [(hget p).1 hscanned]
    exact entryOf_bind_ne_none hscanned.visible.1 (hfine p hscanned.visible).2

/-- What a scan lists is a tree. -/
theorem scan_treeShaped (h : buildManifest c ignore workspaceId tree staged = .ok manifest) :
    manifest.TreeShaped := by
  obtain ⟨rules, hrules, _, _, hget⟩ := scan_get h
  intro p e he q hq
  have hscanned : Scanned rules tree p := (scan_lists h hrules).mp (by rw [he]; simp)
  obtain ⟨n, hn⟩ := Option.ne_none_iff_exists'.mp hscanned.visible.1
  rw [(hget q).1 (hscanned.above hq.within), tree.get_above hn hq]
  rfl

/-- Nothing at the path or above it is excluded. -/
def Clear (rules : IgnoreRules) (tree : WorkingTree) (p : RelPath) : Prop :=
  ∀ q, Within q p → rules.excludes q (tree.isDirectory q) = false

/-- A directory is kept when it is empty or something beneath it is. -/
theorem scanned_directory (hp : tree.get p = some .directory) : Scanned rules tree p ↔
    Clear rules tree p ∧ (tree.occupied p = false ∨ ∃ q, Beneath p q ∧ Scanned rules tree q) := by
  constructor
  · intro hscanned
    refine ⟨hscanned.visible.2, ?_⟩
    obtain ⟨q, hpq, hvisible, hanchor⟩ := hscanned
    rcases hpq with rfl | hpq
    · exact .inl (hanchor.2 (FileTree.isDirectory_iff.mpr hp))
    · exact .inr ⟨q, hpq, q, within_self q, hvisible, hanchor⟩
  · rintro ⟨hclear, hfree | ⟨q, hpq, hscanned⟩⟩
    · have hsome : tree.get p ≠ none := by simp [hp]
      exact ⟨p, within_self p, ⟨hsome, hclear⟩, hsome, fun _ => hfree⟩
    · exact hscanned.above hpq.within

/-- A file is kept when it is not excluded. -/
theorem scanned_file {content : FileContent} (hp : tree.get p = some (.file content)) :
    Scanned rules tree p ↔ Clear rules tree p := by
  constructor
  · exact fun hscanned => hscanned.visible.2
  · intro hclear
    have hvisible : Visible rules tree p := ⟨by simp [hp], hclear⟩
    exact hvisible.scanned (by simp [hp])

/-- A manifest in which pruning finds nothing to drop stays. -/
theorem prune_eq_self (h : ∀ d, manifest.get d = some .directory →
    hasVisibleChild manifest d = true ∨ tree.occupied d = false) : prune tree manifest = manifest := by
  have hfold : ∀ directories : List RelPath, (∀ d ∈ directories, manifest.get d = some .directory) →
      directories.foldl (prunePath tree) manifest = manifest := by
    intro directories
    induction directories with
    | nil => exact fun _ => rfl
    | cons d rest ih =>
      intro hall
      have hstay : prunePath tree manifest d = manifest := by
        unfold prunePath
        apply if_neg
        rw [Bool.and_eq_true, Bool.not_eq_true']
        rintro ⟨hnone, hoccupied⟩
        rcases h d (hall d List.mem_cons_self) with hchild | hfree
        · rw [hnone] at hchild
          cases hchild
        · rw [hfree] at hoccupied
          cases hoccupied
      rw [List.foldl_cons, hstay]
      exact ih fun d hd => hall d (List.mem_cons_of_mem _ hd)
  apply hfold
  intro d hd
  rw [List.mem_insertionSort, List.mem_filterMap] at hd
  obtain ⟨⟨path, entry⟩, hentry, hsome⟩ := hd
  rw [Option.ite_none_right_eq_some] at hsome
  obtain ⟨rfl, hpath⟩ := hsome
  cases hpath
  exact BTreeMap.mem_toList.mp hentry

/-- **The shape of a scan.** -/
theorem scan_shape (h : buildManifest c ignore workspaceId tree staged = .ok manifest) :
    ∃ rules, IgnoreRules.load ignore tree staged = .ok rules ∧
      manifest.TreeShaped ∧
      (∀ p file, manifest.get p = some (.file file) ↔ ∃ content, tree.get p = some (.file content) ∧
        entryOf c (.file content) = some (.file file) ∧ Clear rules tree p) ∧
      (∀ p, manifest.get p = some .directory ↔ tree.get p = some .directory ∧ Clear rules tree p ∧
        (tree.occupied p = false ∨ ∃ q, Beneath p q ∧ manifest.get q ≠ none)) ∧
      (∀ p, isInternal p = true → manifest.get p = none) ∧
      prune tree manifest = manifest := by
  obtain ⟨rules, hrules, _, _, hget⟩ := scan_get h
  have hlists {p : RelPath} : manifest.get p ≠ none ↔ Scanned rules tree p := scan_lists h hrules
  have hscanned {p : RelPath} {e : ManifestEntry} (he : manifest.get p = some e) :
      Scanned rules tree p ∧ (tree.get p).bind (entryOf c) = some e := by
    have hp : Scanned rules tree p := hlists.mp (by rw [he]; simp)
    rw [(hget p).1 hp] at he
    exact ⟨hp, he⟩
  have hdirectory (p : RelPath) : manifest.get p = some .directory ↔ tree.get p = some .directory ∧
      Clear rules tree p ∧ (tree.occupied p = false ∨ ∃ q, Beneath p q ∧ manifest.get q ≠ none) := by
    simp only [hlists]
    constructor
    · intro he
      obtain ⟨hp, hentry⟩ := hscanned he
      obtain ⟨n, hn, hentry⟩ := Option.bind_eq_some_iff.mp hentry
      cases n with
      | directory => exact ⟨hn, (scanned_directory hn).mp hp⟩
      | file content => simp [entryOf, ManifestEntry.ofFile] at hentry
      | other => simp [entryOf] at hentry
    · rintro ⟨hn, hkept⟩
      rw [(hget p).1 ((scanned_directory hn).mpr hkept), hn]
      rfl
  refine ⟨rules, hrules, scan_treeShaped h, fun p file => ?_, hdirectory, fun p hinternal => ?_, ?_⟩
  · constructor
    · intro he
      obtain ⟨hp, hentry⟩ := hscanned he
      obtain ⟨n, hn, hentry⟩ := Option.bind_eq_some_iff.mp hentry
      cases n with
      | file content => exact ⟨content, hn, hentry, (scanned_file hn).mp hp⟩
      | directory => simp [entryOf] at hentry
      | other => simp [entryOf] at hentry
    · rintro ⟨content, hn, hentry, hclear⟩
      rw [(hget p).1 ((scanned_file hn).mpr hclear), hn]
      exact hentry
  · by_contra hsome
    have hself := (hlists.mp hsome).visible.2 p (within_self p)
    unfold IgnoreRules.excludes at hself
    rw [hinternal] at hself
    cases hself
  · apply prune_eq_self
    intro d hd
    rcases ((hdirectory d).mp hd).2.2 with hfree | hchild
    · exact .inr hfree
    · exact .inl (hasVisibleChild_iff.mpr hchild)

/-! A directory in which only something ignored is, one in another. -/

def outIgnored : IgnoreSyntax := ⟨fun _ => .ok fun path _ => "out".toList <:+ path⟩

def builtTree : WorkingTree :=
  treeOf [(".rustsyncignore", sampleFile [111]), ("a", .directory), ("a/b", .directory), ("a/b/out", sampleFile [1]),
    ("empty", .directory), ("notes", sampleFile [2])]

theorem builtTree_scan : (buildManifest sampleCrypto outIgnored Codec.sampleWorkspace builtTree none).toOption.map
    (fun m => m.entries.keys.map RelPath.text) = some [".rustsyncignore", "empty", "notes"] := by
  decide +kernel

theorem builtTree_shape : ∃ manifest, buildManifest sampleCrypto outIgnored Codec.sampleWorkspace builtTree none =
    .ok manifest ∧ manifest.TreeShaped ∧ prune builtTree manifest = manifest := by
  obtain ⟨manifest, hmanifest, _⟩ := Option.map_eq_some_iff.mp builtTree_scan
  cases hbuild : buildManifest sampleCrypto outIgnored Codec.sampleWorkspace builtTree none with
  | error e =>
    rw [hbuild] at hmanifest
    cases hmanifest
  | ok built =>
    obtain ⟨_, _, hshaped, _, _, _, hpruned⟩ := scan_shape hbuild
    exact ⟨built, rfl, hshaped, hpruned⟩

theorem mem_trackedOf {staged : Manifest} : p ∈ trackedOf (some staged) ↔ ∃ q, staged.get q ≠ none ∧ Within p q := by
  unfold trackedOf
  simp only [BTreeSet.mem_ofList, List.mem_flatMap, List.mem_cons, mem_ancestors]
  constructor
  · rintro ⟨q, hq, hpq⟩
    refine ⟨q, BTreeMap.mem_iff_lookup.mp (Std.ExtTreeMap.mem_keys.mp hq), ?_⟩
    rcases hpq with rfl | hpq
    · exact within_self _
    · exact hpq.within
  · rintro ⟨q, hq, hpq⟩
    refine ⟨q, Std.ExtTreeMap.mem_keys.mpr (BTreeMap.mem_iff_lookup.mpr hq), ?_⟩
    rcases hpq with rfl | hpq
    · exact .inl rfl
    · exact .inr hpq

/-- Rules that track what was kept keep the same. -/
theorem scanned_tracking {rules' : IgnoreRules} (hmatcher : rules'.matcher = rules.matcher)
    (htracked : ∀ p, p ∈ rules'.tracked ↔ Scanned rules tree p) : Scanned rules' tree p ↔ Scanned rules tree p := by
  classical
  have hexcludes {q : RelPath} (d : Bool) : rules'.excludes q d =
      (isInternal q || (decide (¬ Scanned rules tree q) && rules.matcher q d)) := by
    unfold IgnoreRules.excludes
    rw [hmatcher]
    congr 2
    rw [decide_eq_decide, htracked]
  constructor
  · rintro ⟨q, hpq, hvisible, hanchor⟩
    refine ⟨q, hpq, ⟨hvisible.1, fun r hr => ?_⟩, hanchor⟩
    have hr' := hvisible.2 r hr
    rw [hexcludes] at hr'
    by_cases hscanned : Scanned rules tree r
    · exact hscanned.visible.2 r (within_self r)
    · unfold IgnoreRules.excludes
      simp only [hscanned, not_false_eq_true, decide_true, Bool.true_and, Bool.or_eq_false_iff] at hr'
      simp [hr'.1, hr'.2]
  · rintro ⟨q, hpq, hvisible, hanchor⟩
    have hscanned : Scanned rules tree q := ⟨q, within_self q, hvisible, hanchor⟩
    refine ⟨q, hpq, ⟨hvisible.1, fun r hr => ?_⟩, hanchor⟩
    have hr' := hvisible.2 r hr
    unfold IgnoreRules.excludes at hr'
    rw [hexcludes]
    simp only [hscanned.above hr, not_true_eq_false, decide_false, Bool.false_and, Bool.or_false]
    rw [Bool.or_eq_false_iff] at hr'
    exact hr'.1

theorem Manifest.ext_get {m m' : Manifest} (hworkspace : m.workspaceId = m'.workspaceId)
    (h : ∀ p, m.get p = m'.get p) : m = m' := by
  cases m
  cases m'
  simp only [Manifest.mk.injEq]
  exact ⟨hworkspace, BTreeMap.ext_lookup h⟩

/-- **A scan that is staged is what the next scan finds.** -/
theorem scan_staged (h : buildManifest c ignore workspaceId tree staged = .ok manifest) :
    buildManifest c ignore workspaceId tree (some manifest) = .ok manifest := by
  obtain ⟨rules, hrules, hworkspace, hfine, hget⟩ := scan_get h
  -- the rules differ in what they track
  obtain ⟨matcher, hmatcher, hload⟩ := Except.bind_ok.mp hrules
  cases hload
  have hrules' : IgnoreRules.load ignore tree (some manifest) = .ok ⟨matcher, trackedOf (some manifest)⟩ :=
    Except.bind_ok.mpr ⟨matcher, hmatcher, rfl⟩
  have htracked (p : RelPath) : p ∈ trackedOf (some manifest) ↔ Scanned ⟨matcher, trackedOf staged⟩ tree p := by
    rw [mem_trackedOf]
    constructor
    · rintro ⟨q, hq, hpq⟩
      exact ((scan_lists h hrules).mp hq).above hpq
    · exact fun hscanned => ⟨p, (scan_lists h hrules).mpr hscanned, within_self p⟩
  have hscanned {p : RelPath} : Scanned ⟨matcher, trackedOf (some manifest)⟩ tree p ↔
      Scanned ⟨matcher, trackedOf staged⟩ tree p := scanned_tracking rfl htracked
  have hvisible {p : RelPath} (hp : Visible ⟨matcher, trackedOf (some manifest)⟩ tree p) :
      Visible ⟨matcher, trackedOf staged⟩ tree p := by
    refine ⟨hp.1, fun q hq => ?_⟩
    have hq' := hp.2 q hq
    by_cases htracked' : q ∈ trackedOf (some manifest)
    · exact ((htracked q).mp htracked').visible.2 q (within_self q)
    · unfold IgnoreRules.excludes at hq' ⊢
      rw [Bool.or_eq_false_iff] at hq' ⊢
      simp only [htracked', not_false_eq_true, decide_true, Bool.true_and] at hq'
      refine ⟨hq'.1, ?_⟩
      simp [hq'.2]
  obtain ⟨again, hagain⟩ := scan_succeeds c workspaceId hrules' fun p hp =>
    hfine p (hvisible hp)
  obtain ⟨rules'', hrules'', hworkspace', _, hget'⟩ := scan_get hagain
  rw [hrules'] at hrules''
  cases hrules''
  have hsame : again = manifest := by
    refine Manifest.ext_get (hworkspace'.trans hworkspace.symm) fun p => ?_
    by_cases hp : Scanned ⟨matcher, trackedOf staged⟩ tree p
    · rw [(hget' p).1 (hscanned.mpr hp), (hget p).1 hp]
    · rw [(hget' p).2 fun h => hp (hscanned.mp h), (hget p).2 hp]
  rw [hagain, hsame]

end Closed

end RustSync
