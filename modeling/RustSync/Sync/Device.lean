/-
A device and the server, as a sync sees them

What a sync keeps on the device is the working tree and, in the folder
`.rustsync`, the staged manifest, the cache of contents and the state of the
sync. Every file operation that changes something is a call of its own, and so
is every request to the server; what a call does is a relation, since the user
may edit files, other devices may publish, and calls may fail (`Setting`).

A call of `read` is what an engine operation that only looks sees of the
device. The files of `.rustsync` are modelled by what they hold.

Key definitions: `SyncState`, `Device`, `Remote`, `World`, `Op`, `Setting`,
`sem`.
-/
import RustSync.Lib.Execution
import RustSync.Sync.Scan
import RustSync.Sync.Sealing

namespace RustSync

/-! ### The state of a sync -/

inductive SyncPhase where
  | discovery
  | planning
  | upload
  | download
  | merge
  | publication
deriving DecidableEq

/-- What a sync reads of a `WorkspaceHead`. -/
structure RemoteHead where
  revision : ℕ
  manifestId : Option ManifestId
deriving DecidableEq

structure PublishedSyncState where
  manifestId : ManifestId
  headRevision : ℕ
deriving DecidableEq

structure PendingSyncOperation where
  phase : SyncPhase
  observedRemoteRevision : ℕ
deriving DecidableEq

structure SyncState where
  lastSyncedRevision : Option ℕ
  lastSyncedManifest : Option Manifest
  lastObservedRemote : Option RemoteHead
  lastPublishedLocal : Option PublishedSyncState
  pendingOperation : Option PendingSyncOperation
  conflicts : BTreeMap RelPath ConflictRecord

def SyncState.initial : SyncState := ⟨none, none, none, none, none, ∅⟩

def SyncState.beginPending (s : SyncState) (phase : SyncPhase) (observedRemoteRevision : ℕ) : SyncState :=
  { s with pendingOperation := some ⟨phase, observedRemoteRevision⟩ }

def SyncState.completePending (s : SyncState) : SyncState := { s with pendingOperation := none }

structure Device where
  tree : WorkingTree
  staged : Option Manifest
  cache : BTreeMap String Bytes
  syncState : SyncState

/-- The objects of the server, and the manifests its head has named. -/
structure Remote where
  blobs : BlobId → Option Bytes
  manifests : ManifestId → Option Bytes
  heads : List ManifestId

def Remote.head (r : Remote) : RemoteHead := ⟨r.heads.length, r.heads.getLast?⟩

def Remote.addBlob (r : Remote) (id : BlobId) (bytes : Bytes) : Remote :=
  { r with blobs := Function.update r.blobs id (some bytes) }

def Remote.addManifest (r : Remote) (id : ManifestId) (bytes : Bytes) : Remote :=
  { r with manifests := Function.update r.manifests id (some bytes) }

def Remote.addHead (r : Remote) (id : ManifestId) : Remote := { r with heads := r.heads ++ [id] }

/-- Objects stay, and heads are added. -/
structure Remote.Grows (r r' : Remote) : Prop where
  blobs : ∀ id b, r.blobs id = some b → r'.blobs id = some b
  manifests : ∀ id b, r.manifests id = some b → r'.manifests id = some b
  heads : r.heads <+: r'.heads

theorem Remote.Grows.refl (r : Remote) : r.Grows r := ⟨fun _ _ h => h, fun _ _ h => h, List.prefix_rfl⟩

theorem Remote.Grows.trans {r r' r'' : Remote} (h : r.Grows r') (h' : r'.Grows r'') : r.Grows r'' :=
  ⟨fun id b hb => h'.blobs id b (h.blobs id b hb), fun id b hb => h'.manifests id b (h.manifests id b hb),
    h.heads.trans h'.heads⟩

structure World where
  device : Device
  remote : Remote

namespace World

def setTree (w : World) (tree : WorkingTree) : World := { w with device := { w.device with tree := tree } }

def setRemote (w : World) (remote : Remote) : World := { w with remote := remote }

def setStaged (w : World) (manifest : Manifest) : World :=
  { w with device := { w.device with staged := some manifest } }

def setSyncState (w : World) (state : SyncState) : World := { w with device := { w.device with syncState := state } }

def addBlob (w : World) (contentHash : String) (bytes : Bytes) : World :=
  { w with device := { w.device with cache := w.device.cache.insert contentHash bytes } }

end World

/-! ### Errors -/

/-- `ClientError`, as far as a sync tells errors apart. -/
inductive RemoteError where
  | headRevisionConflict
  | other (text : String)
deriving DecidableEq

inductive SyncError where
  | loc (error : LocalError)
  | manifest (error : ManifestError)
  | protocol (error : ProtocolError)
  | sealing (error : SealError)
  | json (text : String)
  | remote (error : RemoteError)
  | io (text : String)
  | publicationRace (initialRevision currentRevision : ℕ)
  | unstagedChanges
deriving DecidableEq

abbrev SyncResult (α : Type) := Except SyncError α

/-! ### Calls -/

/-- How a removal came out. -/
inductive Removed where
  | done
  | notEmpty
deriving DecidableEq

inductive Upload where
  | created
  | alreadyExists
deriving DecidableEq

inductive Op where
  | read
  | metadata (path : RelPath)
  | cachedBlob (contentHash : String)
  | list (path : RelPath)
  | createDir (path : RelPath)
  | remove (path : RelPath)
  | writeTemp (parent : RelPath) (bytes : Bytes)
  | rename (temp path : RelPath)
  | discardTemp (temp : RelPath)
  | writeBlob (contentHash : String) (bytes : Bytes)
  | saveManifest (manifest : Manifest)
  | saveSyncState (state : SyncState)
  | nonce
  | fetchWorkspaceHead
  | downloadManifest (id : ManifestId)
  | downloadBlob (id : BlobId)
  | uploadBlob (id : BlobId) (bytes : Bytes)
  | uploadManifest (id : ManifestId) (bytes : Bytes)
  | updateWorkspaceHead (expectedRevision : ℕ) (id : ManifestId)

@[reducible] def Op.Val : Op → Type
  | .read => Device × List RelPath
  | .metadata _ => Option (Node FileContent)
  | .cachedBlob _ => Option Bytes
  | .list _ => List RelPath
  | .remove _ => Removed
  | .writeTemp .. => RelPath
  | .nonce | .downloadManifest _ | .downloadBlob _ => Bytes
  | .fetchWorkspaceHead | .updateWorkspaceHead .. => RemoteHead
  | .uploadBlob .. | .uploadManifest .. => Upload
  | .createDir _ | .rename .. | .discardTemp _ | .writeBlob .. | .saveManifest _ | .saveSyncState _ => Unit

abbrev Sync := Fallible Op.Val SyncError

def perform (o : Op) : Sync o.Val := Fallible.op o

/-- A result of the engine: `x?`. -/
def engine {α : Type} (x : LocalResult α) : Sync α := Fallible.check (x.mapError .loc)

/-! ### Paths of a tree -/

/-- The path of a name in a directory; the root is the empty path. -/
def joinPath (dir : RelPath) (name : List Char) : RelPath := if dir = [] then name else dir ++ '/' :: name

/-- `Path::parent`. -/
def parentOf (path : RelPath) : RelPath := (ancestors path).getLast?.getD []

def tempName (suffix : List Char) : List Char := ".rustsync-tmp-".toList ++ suffix

/-- `symlink_metadata`: an error where something above is not a directory. -/
def stat (tree : WorkingTree) (path : RelPath) : LocalResult (Option (Node FileContent)) :=
  if (ancestors path).any fun q => (tree.get q).any fun node => !node.isDir then .error (.io "not a directory")
  else .ok (tree.get path)

def createDirIn (tree : WorkingTree) (path : RelPath) : Option WorkingTree :=
  if tree.get path = none then tree.put path .directory else none

/-- A file takes the place of a file, or of nothing. -/
def renameIn (tree : WorkingTree) (temp path : RelPath) : Option WorkingTree :=
  match tree.get temp with
  | some (.file content) =>
    if tree.get path = some .directory then none
    else (tree.remove temp).bind fun tree => tree.put path (.file content)
  | _ => none

/-! ### What calls do -/

/-- What may happen besides: the user edits files, other devices publish, file
operations fail, requests fail. Other devices keep what `server` says. -/
structure Setting where
  edits : Prop
  others : Prop
  diskFails : Prop
  remoteFails : Prop
  server : Remote → Prop

/-- A call on a file that may also fail, without effect. -/
def onDisk {α : Type} (env : Setting) (w : World) (r : SyncResult α) (w' : World) (step : Prop) : Prop :=
  step ∨ (env.diskFails ∧ (∃ text, r = .error (.loc (.io text))) ∧ w' = w)

/-- A call that changes the tree as `f` says, where it says something. -/
def changesTree (env : Setting) (w : World) (r : SyncResult Unit) (w' : World)
    (f : WorkingTree → Option WorkingTree) : Prop :=
  onDisk env w r w' (match f w.device.tree with
    | some tree => r = .ok () ∧ w' = w.setTree tree
    | none => (∃ text, r = .error (.loc (.io text))) ∧ w' = w)

/-- What the server may have become at a later moment. -/
structure Remote.Later (env : Setting) (r r' : Remote) : Prop where
  grows : r.Grows r'
  heads : env.others ∨ r'.heads = r.heads
  server : env.server r → env.server r'

/-- A request, which the server serves at some moment, if it does. -/
def atServer {α : Type} (env : Setting) (w : World) (r : SyncResult α) (w' : World)
    (serve : Remote → SyncResult α → Remote → Prop) : Prop :=
  ∃ now, Remote.Later env w.remote now ∧ w'.device = w.device ∧
    (serve now r w'.remote ∨
      (env.remoteFails ∧ (∃ error, r = .error (.remote error)) ∧ (w'.remote = now ∨ ∃ r', serve now r' w'.remote)))

def serveUpload (stored : Option Bytes) (added : Remote) (now : Remote) (r : SyncResult Upload)
    (now' : Remote) : Prop :=
  match stored with
  | some _ => r = .ok .alreadyExists ∧ now' = now
  | none => r = .ok .created ∧ now' = added

def serveUpdate (expectedRevision : ℕ) (id : ManifestId) (now : Remote) (r : SyncResult RemoteHead)
    (now' : Remote) : Prop :=
  if now.manifests id = none then (∃ text, r = .error (.remote (.other text))) ∧ now' = now
  else if now.heads.length = expectedRevision then
    r = .ok ⟨now.heads.length + 1, some id⟩ ∧ now' = now.addHead id
  else r = .error (.remote .headRevisionConflict) ∧ now' = now

def serveDownload (stored : Option Bytes) (now : Remote) (r : SyncResult Bytes) (now' : Remote) : Prop :=
  (match stored with
    | some bytes => r = .ok bytes
    | none => ∃ text, r = .error (.remote (.other text))) ∧ now' = now

/-- The user may have edited the tree before it is read, and does not while it is. -/
def readStep (env : Setting) (w : World) (r : SyncResult (Device × List RelPath)) (w' : World) : Prop :=
  ∃ tree listing, (tree = w.device.tree ∨ env.edits) ∧ listing.Perm tree.nodes.keys ∧ w' = w.setTree tree ∧
    r = .ok (w'.device, listing)

/-- What is beneath a path, in an order in which it can be removed. -/
structure Listing (w : World) (path : RelPath) (listing : List RelPath) : Prop where
  mem : ∀ q, q ∈ listing ↔ Beneath path q ∧ w.device.tree.get q ≠ none
  order : listing.Pairwise fun p q => ¬ Within p q

def listStep (w : World) (path : RelPath) (r : SyncResult (List RelPath)) (w' : World) : Prop :=
  ∃ listing, Listing w path listing ∧ r = .ok listing ∧ w' = w

def removeStep (w : World) (path : RelPath) (r : SyncResult Removed) (w' : World) : Prop :=
  match w.device.tree.get path, w.device.tree.remove path with
  | none, _ => (∃ text, r = .error (.loc (.io text))) ∧ w' = w
  | some _, some tree => r = .ok .done ∧ w' = w.setTree tree
  | some _, none => r = .ok .notEmpty ∧ w' = w

/-- A temporary file gets a name that is not taken. -/
structure FreshTemp (w : World) (parent : RelPath) (bytes : Bytes) (temp : RelPath) (tree : WorkingTree) : Prop where
  named : ∃ suffix : List Char, suffix.all Char.isAlphanum = true ∧ temp = joinPath parent (tempName suffix)
  fresh : w.device.tree.get temp = none
  written : ∃ modifiedAt, w.device.tree.put temp (.file ⟨bytes, modifiedAt⟩) = some tree

def writeTempStep (w : World) (parent : RelPath) (bytes : Bytes) (r : SyncResult RelPath) (w' : World) : Prop :=
  if parent ≠ [] ∧ w.device.tree.get parent ≠ some .directory then
    (∃ text, r = .error (.loc (.io text))) ∧ w' = w
  else ∃ temp tree, FreshTemp w parent bytes temp tree ∧ r = .ok temp ∧ w' = w.setTree tree

def discardStep (w : World) (temp : RelPath) (r : SyncResult Unit) (w' : World) : Prop :=
  r = .ok () ∧ (w' = w ∨ ∃ tree, w.device.tree.remove temp = some tree ∧ w' = w.setTree tree)

def sem (env : Setting) : (o : Op) → World → SyncResult o.Val → World → Prop
  | .read, w, r, w' => onDisk env w r w' (readStep env w r w')
  | .metadata path, w, r, w' => onDisk env w r w' (r = (stat w.device.tree path).mapError .loc ∧ w' = w)
  | .cachedBlob contentHash, w, r, w' => onDisk env w r w' (r = .ok w.device.cache[contentHash]? ∧ w' = w)
  | .list path, w, r, w' => onDisk env w r w' (listStep w path r w')
  | .createDir path, w, r, w' => changesTree env w r w' fun tree => createDirIn tree path
  | .remove path, w, r, w' => onDisk env w r w' (removeStep w path r w')
  | .writeTemp parent bytes, w, r, w' => onDisk env w r w' (writeTempStep w parent bytes r w')
  | .rename temp path, w, r, w' => changesTree env w r w' fun tree => renameIn tree temp path
  | .discardTemp temp, w, r, w' => discardStep w temp r w'
  | .writeBlob contentHash bytes, w, r, w' => onDisk env w r w' (r = .ok () ∧ w' = w.addBlob contentHash bytes)
  | .saveManifest manifest, w, r, w' => onDisk env w r w' (r = .ok () ∧ w' = w.setStaged manifest)
  | .saveSyncState state, w, r, w' => onDisk env w r w' (r = .ok () ∧ w' = w.setSyncState state)
  | .nonce, w, r, w' => (∃ bytes : Bytes, bytes.length = nonceSize ∧ r = .ok bytes) ∧ w' = w
  | .fetchWorkspaceHead, w, r, w' => atServer env w r w' fun now r now' => r = .ok now.head ∧ now' = now
  | .downloadManifest id, w, r, w' => atServer env w r w' fun now => serveDownload (now.manifests id) now
  | .downloadBlob id, w, r, w' => atServer env w r w' fun now => serveDownload (now.blobs id) now
  | .uploadBlob id bytes, w, r, w' => atServer env w r w' fun now =>
      serveUpload (now.blobs id) (now.addBlob id bytes) now
  | .uploadManifest id bytes, w, r, w' => atServer env w r w' fun now =>
      serveUpload (now.manifests id) (now.addManifest id bytes) now
  | .updateWorkspaceHead expectedRevision id, w, r, w' => atServer env w r w' (serveUpdate expectedRevision id)

end RustSync
