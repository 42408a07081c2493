/-
The engine of the working tree

`LocalWorkspaceEngine`: staging the tree, reading staged contents back, and
applying a manifest to the tree. A manifest is applied in the order of the
source: everything is checked and every content is at hand before the first
change; then what the manifest does not list is removed, deepest first, and
its entries are put in place one by one.

Key definitions: `Workspace`, `stageAll`, `stagedBlobsForManifest`,
`workingTreeStatus`, `applyPulledManifest`.
-/
import RustSync.Sync.Device

namespace RustSync

/-- What is fixed of a workspace: its id, its keys, and third-party code. -/
structure Workspace where
  workspaceId : WorkspaceId
  digest : Crypto
  sealing : WorkspaceCrypto
  ignore : IgnoreSyntax
  toJson : Manifest → Except String Bytes
  fromJson : Bytes → Except String Manifest
  display : SyncError → String

section Engine

variable (ws : Workspace)

def validateManifestWorkspace (m : Manifest) : LocalResult Unit :=
  require (m.workspaceId = ws.workspaceId) (.manifest (.workspaceIdMismatch m.workspaceId ws.workspaceId))

def loadManifestOptional (device : Device) : LocalResult (Option Manifest) :=
  match device.staged with
  | some m => do
    validateManifestWorkspace ws m
    return some m
  | none => .ok none

def scanDevice (device : Device) : LocalResult Manifest :=
  buildManifest ws.digest ws.ignore ws.workspaceId device.tree device.staged

/-! ### Staging -/

/-- `target.try_exists()? && verify_cached_blob(&target, content_hash)?`. -/
def isCached (contentHash : String) : Sync Bool := do
  let bytes ← perform (.cachedBlob contentHash)
  return (bytes : Option Bytes).any fun bytes => sha256Hex ws.digest bytes = contentHash

def cacheManifestBlob (tree : WorkingTree) : RelPath × ManifestEntry → Sync PUnit
  | (path, .file file) => do
    if ← isCached ws file.contentHash then return ()
    match tree.get path with
    | some (.file content) => perform (.writeBlob file.contentHash content.bytes)
    | _ => throw (.loc (.io "not a file"))
  | (_, .directory) => pure ()

def stageAll : Sync Manifest := do
  let (device, _) ← perform .read
  let _ ← engine (loadManifestOptional ws device)
  let next ← engine (scanDevice ws device)
  next.entries.toList.forM (cacheManifestBlob ws device.tree)
  perform (.saveManifest next)
  return next

def loadStagedManifest : Sync Manifest := do
  let (device, _) ← perform .read
  let staged ← engine (loadManifestOptional ws device)
  engine (okOr staged .missingStagedManifest)

structure StagedBlob where
  contentHash : String
  bytes : Bytes

def stagedBlob (cache : BTreeMap String Bytes) : RelPath × ManifestEntry → LocalResult (Option StagedBlob)
  | (_, .file file) => do
    let bytes ← okOr cache[file.contentHash]? (.missingStagedBlob file.contentHash)
    require (sha256Hex ws.digest bytes = file.contentHash) (.blobHashMismatch file.contentHash)
    return some ⟨file.contentHash, bytes⟩
  | (_, .directory) => .ok none

def stagedBlobs (cache : BTreeMap String Bytes) (m : Manifest) : LocalResult (List StagedBlob) := do
  validateManifestWorkspace ws m
  let blobs ← m.entries.toList.mapM (stagedBlob ws cache)
  return blobs.filterMap id

def stagedBlobsForManifest (m : Manifest) : Sync (List StagedBlob) := do
  let (device, _) ← perform .read
  engine (stagedBlobs ws device.cache m)

/-- What the tree holds now. -/
def workingTreeStatus : Sync (Manifest × Manifest) := do
  let (device, _) ← perform .read
  let current ← engine (scanDevice ws device)
  let baseline ← engine (loadManifestOptional ws device)
  return (current, baseline.getD (.new ws.workspaceId))

def loadSyncState : Sync SyncState := do
  let (device, _) ← perform .read
  return device.syncState

/-! ### Checks before a manifest is applied -/

/-- `validate_manifest_path` of the engine. -/
def validateLocalPath (path : RelPath) : LocalResult Unit :=
  require (¬ (path = [] ∨ path = ".rustsync".toList ∨ ".rustsync/".toList <+: path ∨ '\\' ∈ path ∨ '\x00' ∈ path ∨
    (components path).any badComponent = true)) (.unsafeManifestPath path)

theorem validateLocalPath_ok {p : RelPath} : validateLocalPath p = .ok () ↔ p ≠ [] ∧ p ≠ ".rustsync".toList ∧
    ¬ ".rustsync/".toList <+: p ∧ '\\' ∉ p ∧ '\x00' ∉ p ∧ (components p).any badComponent = false := by
  unfold validateLocalPath
  rw [require_ok]
  push Not
  simp only [Bool.not_eq_true]

theorem validateManifestPath_of_local (h : validateLocalPath p = .ok ()) : validateManifestPath p = .ok () := by
  obtain ⟨hne, _, _, hbackslash, _, hcomponents⟩ := validateLocalPath_ok.mp h
  simp only [validateManifestPath, Except.bind_unit_ok, require_ok]
  refine ⟨hne, ?_, hbackslash, hcomponents⟩
  intro habsolute
  obtain ⟨rest, rfl⟩ := List.head?_eq_some_iff.mp habsolute
  rw [components, if_pos rfl] at hcomponents
  simp [badComponent] at hcomponents

/-- A path below the root of the workspace, outside its folder `.rustsync`. -/
structure InWorkspace (p : RelPath) : Prop where
  proper : Proper p
  outside : ¬ Within ".rustsync".toList p

theorem InWorkspace.ne_nil {p : RelPath} (h : InWorkspace p) : p ≠ [] := proper_ne_nil h.proper

theorem InWorkspace.of_valid {p : RelPath} (h : validateLocalPath p = .ok ()) : InWorkspace p := by
  obtain ⟨hne, hfolder, hbeneath, _, hnul, hcomponents⟩ := validateLocalPath_ok.mp h
  refine ⟨?_, ?_⟩
  · unfold Proper
    rw [List.all_eq_true]
    intro name hname
    have hbad : badComponent name = false := by
      rw [List.any_eq_false] at hcomponents
      simpa using hcomponents name hname
    have hin : '\x00' ∉ name := fun hmem => hnul (mem_of_mem_components hname hmem)
    unfold badComponent at hbad
    unfold isName
    simp only [decide_eq_false_iff_not, not_or] at hbad
    simp [hbad, hin]
  · rintro (heq | hwithin)
    · exact hfolder heq
    · exact hbeneath hwithin

theorem validateLocalPath_of_inside {p : RelPath} (h : InWorkspace p) (hp : '\\' ∉ p) :
    validateLocalPath p = .ok () := by
  have hproper := h.proper
  unfold Proper at hproper
  rw [List.all_eq_true] at hproper
  refine validateLocalPath_ok.mpr ⟨h.ne_nil, fun heq => h.outside (.inl heq), fun hwithin => h.outside (.inr hwithin),
    hp, fun hnul => ?_, ?_⟩
  · obtain ⟨name, hname, hin⟩ := mem_components_of_mem (by decide) hnul
    have hfine := hproper name hname
    simp [isName, hin] at hfine
  · rw [List.any_eq_false]
    intro name hname
    have hfine := hproper name hname
    simp only [isName, decide_eq_true_eq] at hfine
    simp [badComponent, hfine.1, hfine.2.1, hfine.2.2.1]

/-- Whether there is a file entry. -/
def isFileEntry : Option ManifestEntry → Bool
  | some (.file _) => true
  | _ => false

def validateManifestPaths (m : Manifest) : LocalResult Unit :=
  m.entries.toList.forM fun (path, _) => do
    validateLocalPath path
    require ((ancestors path).any (fun q => isFileEntry (m.get q)) = false) (.unsafeManifestPath path)

def validatePulledManifest (m : Manifest) : LocalResult Unit := do
  validateManifestWorkspace ws m
  validateManifestPaths m

/-- `.replace('\\', "/")`. -/
def slashed (path : RelPath) : RelPath := path.map fun c => if c = '\\' then '/' else c

/-- The walk of `collect_workspace_paths` goes into everything above the path. -/
def walkReaches (rules : IgnoreRules) (path : RelPath) : Bool :=
  (ancestors path).all fun q => !rules.excludes (slashed q) true

/-- `collect_workspace_paths`: the paths to sync, and those to leave alone. -/
def collectWorkspacePaths (rules : IgnoreRules) (tree : WorkingTree) (listing : List RelPath) :
    List RelPath × List RelPath :=
  let met := listing.filter fun path => walkReaches rules path && !isInternal (slashed path)
  ((met.filter fun path => !rules.excludes (slashed path) (tree.isDirectory path)).map slashed,
    (met.filter fun path => rules.excludes (slashed path) (tree.isDirectory path)).map slashed)

/-- The entry is at the protected path, beneath it, or a file in its way. -/
def overwrites (protectedPath : RelPath) : RelPath × ManifestEntry → Bool
  | (path, .file _) => Within protectedPath path ∨ Beneath path protectedPath
  | (path, .directory) => Within protectedPath path

def checkProtected (m : Manifest) (protectedPaths : List RelPath) : LocalResult Unit :=
  protectedPaths.forM fun protectedPath =>
    let name := protectedPath.text
    require (m.entries.toList.any (overwrites protectedPath) = false)
      (.io s!"pull would overwrite ignored local path `{name}`; move it or update .rustsyncignore")

/-- The content of a file that is as its entry says. -/
def matchingLocalFile (tree : WorkingTree) (path : RelPath) (file : FileEntry) : Option Bytes :=
  match tree.get path with
  | some (.file content) =>
    if content.bytes.length = file.size ∧ sha256Hex ws.digest content.bytes = file.contentHash then
      some content.bytes
    else none
  | _ => none

def addLocal (tree : WorkingTree) (fetched : BTreeMap String Bytes) :
    RelPath × ManifestEntry → BTreeMap String Bytes
  | (path, .file file) =>
    match matchingLocalFile ws tree path file with
    | some bytes => fetched.insert file.contentHash bytes
    | none => fetched
  | (_, .directory) => fetched

def fetchEntry (blobSource : String → Except String Bytes) (fetched : BTreeMap String Bytes) :
    RelPath × ManifestEntry → LocalResult (BTreeMap String Bytes)
  | (_, .file file) =>
    if fetched.contains file.contentHash then .ok fetched
    else do
      let bytes ← (blobSource file.contentHash).mapError fun text => .blobSource file.contentHash text
      require (sha256Hex ws.digest bytes = file.contentHash) (.blobHashMismatch file.contentHash)
      return fetched.insert file.contentHash bytes
  | (_, .directory) => .ok fetched

def checkSize (fetched : BTreeMap String Bytes) : RelPath × ManifestEntry → LocalResult PUnit
  | (path, .file file) =>
    let name := path.text
    require (fetched[file.contentHash]?.map List.length = some file.size)
      (.io s!"manifest size does not match downloaded file `{name}`")
  | (_, .directory) => .ok ()

/-- Every content of the manifest: what has been found, the rest from
elsewhere. -/
def fetchMissing (m : Manifest) (blobSource : String → Except String Bytes) (found : BTreeMap String Bytes) :
    LocalResult (BTreeMap String Bytes) := do
  let fetched ← m.entries.toList.foldlM (fetchEntry ws blobSource) found
  m.entries.toList.forM (checkSize fetched)
  return fetched

def fetchBlobs (tree : WorkingTree) (m : Manifest) (blobSource : String → Except String Bytes) :
    LocalResult (BTreeMap String Bytes) :=
  fetchMissing ws m blobSource (m.entries.toList.foldl (addLocal ws tree) ∅)

/-- The file is as its entry says. -/
def isUnchanged (tree : WorkingTree) : RelPath × ManifestEntry → Bool
  | (path, .file file) => (matchingLocalFile ws tree path file).isSome
  | (_, .directory) => false

theorem isUnchanged_of_none {tree : WorkingTree} {path : RelPath} {entry : ManifestEntry} (h : tree.get path = none) :
    isUnchanged ws tree (path, entry) = false := by
  cases entry with
  | directory => rfl
  | file file => simp [isUnchanged, matchingLocalFile, h]

/-! ### Changing the tree -/

/-- `fs::create_dir_all`. -/
def createDirAll (path : RelPath) : Sync PUnit :=
  if path = [] then pure ()
  else (ancestors path ++ [path]).forM fun q => do
    match ← perform (.metadata q) with
    | some .directory => return ()
    | some _ => throw (.loc (.io "file exists"))
    | none => perform (.createDir q)

/-- The removal of a file, or of a directory that has to be empty. -/
def removeNode (path : RelPath) : Sync PUnit := do
  match ← perform (.remove path) with
  | .done => return ()
  | .notEmpty => throw (.loc (.io "directory not empty"))

/-- `fs::remove_dir_all`. -/
def removeDirAll (path : RelPath) : Sync Unit := do
  let listing ← perform (.list path)
  List.forM listing removeNode
  removeNode path

/-- `remove_path_if_exists`. -/
def removePathIfExists (path : RelPath) : Sync Unit := do
  match ← perform (.metadata path) with
  | some .directory => removeDirAll path
  | some _ => removeNode path
  | none => return ()

def removeEntry (m : Manifest) (path : RelPath) : Sync PUnit := do
  if m.containsPath path then return ()
  engine (validateLocalPath path)
  let metadata ← (perform (.metadata path)).attempt
  match metadata with
  | .ok (some .directory) =>
    -- what is still in it stays
    let _ ← perform (.remove path)
  | _ => removePathIfExists path

def removeEntriesMissingFromRemote (m : Manifest) (localPaths : List RelPath) : Sync Unit :=
  (localPaths.insertionSort DeeperFirst).forM (removeEntry m)

def prepareDirectoryPath (path : RelPath) : Sync Unit := do
  match ← perform (.metadata path) with
  | some .directory => return ()
  | some _ =>
    removeNode path
    createDirAll path
  | none => createDirAll path

def replaceFile (path : RelPath) (bytes : Bytes) : Sync Unit := do
  let metadata ← perform (.metadata path)
  createDirAll (parentOf path)
  let temp ← perform (.writeTemp (parentOf path) bytes)
  Fallible.onError (perform (.discardTemp temp)) do
    -- a directory goes only when the new file is complete
    if (metadata : Option (Node FileContent)).any Node.isDir then removeDirAll path
    perform (.rename temp path)

def cacheBlob (contentHash : String) (bytes : Bytes) : Sync Unit := do
  if ← isCached ws contentHash then return ()
  perform (.writeBlob contentHash bytes)

def applyEntry (unchanged : RelPath × ManifestEntry → Bool) (fetched : BTreeMap String Bytes) :
    RelPath × ManifestEntry → Sync PUnit
  | (path, .directory) => prepareDirectoryPath path
  | (path, .file file) =>
    match fetched[file.contentHash]? with
    | none => throw (.io "blob prefetch should include every file entry")
    | some bytes => do
      cacheBlob ws file.contentHash bytes
      if unchanged (path, .file file) then return ()
      replaceFile path bytes

/-- What an application does once everything has been checked. -/
def applyChanges (m : Manifest) (unchanged : RelPath × ManifestEntry → Bool) (fetched : BTreeMap String Bytes)
    (localPaths : List RelPath) : Sync Unit := do
  removeEntriesMissingFromRemote m localPaths
  m.entries.toList.forM (applyEntry ws unchanged fetched)
  perform (.saveManifest m)

def applyPulledManifest (m : Manifest) (blobSource : String → Except String Bytes) : Sync Unit := do
  engine (validatePulledManifest ws m)
  let (device, listing) ← perform .read
  let rules ← engine (IgnoreRules.load ws.ignore device.tree device.staged)
  let (localPaths, protectedPaths) := collectWorkspacePaths rules device.tree listing
  engine (checkProtected m protectedPaths)
  let fetched ← engine (fetchBlobs ws device.tree m blobSource)
  applyChanges ws m (isUnchanged ws device.tree) fetched localPaths

end Engine

end RustSync
