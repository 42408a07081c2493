/-
Transfers

Pushing the staged manifest and downloading the contents of a remote one. A
content is sealed in as many chunks as its size needs; the manifest that is
pushed names them, and a content the previous remote manifest names already is
not sealed again.

Key definitions: `pushWithExpectedHead`, `downloadManifestBlobs`,
`uniqueFileRemoteBlobIds`, `loadRemoteManifest`.
-/
import RustSync.Sync.Engine

namespace RustSync

/-- `from_content`; the digest of a content is the text of an id. -/
def idOfContent (k : ObjectIdKind) (c : Crypto) (bytes : Bytes) : SyncResult (ObjectId k) :=
  (ObjectId.parse k (ObjectId.textOf k c bytes)).mapError fun e => .io e.text

/-! ### References -/

structure RemoteFile where
  contentHash : String
  size : ℕ
  blobIds : List BlobId

def remoteRefs (file : FileEntry) : SyncResult (List BlobId) :=
  match file.remoteBlobId, file.remoteChunkIds with
  | some id, [] => .ok [id]
  | none, id :: ids => .ok (id :: ids)
  | _, _ =>
    let contentHash := file.contentHash
    .error (.io (s!"remote manifest file entry for content hash {contentHash} has missing remote_blob_id " ++
      "or conflicting chunk references"))

def addRemoteFile (blobs : BTreeMap String (ℕ × List BlobId)) :
    RelPath × ManifestEntry → SyncResult (BTreeMap String (ℕ × List BlobId))
  | (_, .file file) => do
    let ids ← remoteRefs file
    require (blobs[file.contentHash]?.all (fun previous => previous = (file.size, ids)) = true)
      (.io "inconsistent references for duplicate file content hash")
    return blobs.insert file.contentHash (file.size, ids)
  | (_, .directory) => .ok blobs

def uniqueFileRemoteBlobIds (m : Manifest) : SyncResult (List RemoteFile) := do
  let blobs ← m.entries.toList.foldlM addRemoteFile ∅
  return blobs.toList.map fun (contentHash, size, blobIds) => ⟨contentHash, size, blobIds⟩

section Transfer

variable (ws : Workspace)

def sealing {α : Type} (x : Except SealError α) : Sync α := Fallible.check (x.mapError .sealing)

/-! ### Pushing -/

/-- What a frame leaves for a content. -/
def chunkSizeOf (overhead : ℕ) : SyncResult ℕ := do
  require (overhead < maxEncryptedObjectBytes) (.io "encryption framing leaves no room for file content")
  return maxEncryptedObjectBytes - overhead

/-- `slice::chunks`; of no bytes, one chunk. -/
def chunksOf (size : ℕ) (bytes : Bytes) : List Bytes :=
  if bytes = [] then [[]]
  else (List.range ((bytes.length + size - 1) / size)).map fun i => (bytes.drop (i * size)).take size

def uploadChunk (ids : List BlobId) (chunk : Bytes) : Sync (List BlobId) := do
  let nonce ← perform .nonce
  let bytes ← sealing (ws.sealing.sealBytes nonce chunk)
  let id ← Fallible.check (idOfContent blobIdKind ws.digest bytes)
  let _ ← perform (.uploadBlob id bytes)
  return ids ++ [id]

/-- A content with references already, of the previous manifest or of this
push, is not uploaded. -/
def uploadStaged (chunkSize : ℕ) (remoteBlobIds : BTreeMap String (List BlobId)) (blob : StagedBlob) :
    Sync (BTreeMap String (List BlobId)) := do
  if remoteBlobIds.contains blob.contentHash then return remoteBlobIds
  let ids ← (chunksOf chunkSize blob.bytes).foldlM (uploadChunk ws) []
  return remoteBlobIds.insert blob.contentHash ids

def withRemoteRefs (remoteBlobIds : BTreeMap String (List BlobId)) : ManifestEntry → ManifestEntry
  | .file file =>
    match remoteBlobIds[file.contentHash]?.getD [] with
    | [id] => .file { file with remoteBlobId := some id, remoteChunkIds := [] }
    | ids => .file { file with remoteBlobId := none, remoteChunkIds := ids }
  | .directory => .directory

def Manifest.withRemoteRefs (m : Manifest) (remoteBlobIds : BTreeMap String (List BlobId)) : Manifest :=
  { m with entries := m.entries.map fun _ entry => RustSync.withRemoteRefs remoteBlobIds entry }

structure PushReport where
  manifestId : ManifestId
  updatedHeadRevision : ℕ

def pushWithExpectedHead (previousHead : RemoteHead) (previousManifest : Manifest) : Sync PushReport := do
  let manifest ← loadStagedManifest ws
  let previous ← Fallible.check (uniqueFileRemoteBlobIds previousManifest)
  let reusable := previous.foldl (fun ids file => ids.insert file.contentHash file.blobIds) ∅
  let nonce ← perform .nonce
  let frame ← sealing (ws.sealing.sealBytes nonce [])
  let chunkSize ← Fallible.check (chunkSizeOf frame.length)
  let blobs ← stagedBlobsForManifest ws manifest
  let remoteBlobIds ← blobs.foldlM (uploadStaged ws chunkSize) reusable
  let bytes ← Fallible.check ((ws.toJson (manifest.withRemoteRefs remoteBlobIds)).mapError .json)
  let nonce ← perform .nonce
  let sealed ← sealing (ws.sealing.sealBytes nonce bytes)
  let manifestId ← Fallible.check (idOfContent manifestIdKind ws.digest sealed)
  let _ ← perform (.uploadManifest manifestId sealed)
  let updated ← perform (.updateWorkspaceHead previousHead.revision manifestId)
  return ⟨manifestId, (updated : RemoteHead).revision⟩

/-! ### Downloading -/

/-- `verify_blob_id` and `verify_manifest_id`. -/
def verifyId {k : ObjectIdKind} (bytes : Bytes) (id : ObjectId k) : SyncResult Unit := do
  let actual ← idOfContent k ws.digest bytes
  let kind := k.kind
  let expected := id.asStr
  let got := actual.asStr
  require (actual = id) (.io s!"downloaded {kind} content id mismatch: expected {expected}, got {got}")

def downloadChunk (expectedSize : ℕ) (contents : Bytes) (id : BlobId) : Sync Bytes := do
  let bytes ← perform (.downloadBlob id)
  Fallible.check (verifyId ws bytes id)
  let chunk ← sealing (ws.sealing.openBytes bytes)
  Fallible.check (require (chunk.length ≤ expectedSize - contents.length)
    (.io "downloaded chunks exceed manifest file size"))
  return contents ++ chunk

def downloadFile (available : BTreeSet String) (blobs : BTreeMap String Bytes) (file : RemoteFile) :
    Sync (BTreeMap String Bytes) := do
  if file.contentHash ∈ available then return blobs
  let contents ← file.blobIds.foldlM (downloadChunk ws file.size) []
  Fallible.check (require (contents.length = file.size ∧ sha256Hex ws.digest contents = file.contentHash)
    (.io "downloaded file size or content hash mismatch"))
  return blobs.insert file.contentHash contents

def downloadManifestBlobs (m : Manifest) (available : BTreeSet String) : Sync (BTreeMap String Bytes) := do
  let files ← Fallible.check (uniqueFileRemoteBlobIds m)
  files.foldlM (downloadFile ws available) ∅

/-- What a downloaded manifest object holds. -/
def openManifest (id : ManifestId) (bytes : Bytes) : SyncResult Manifest := do
  verifyId ws bytes id
  let plaintext ← (ws.sealing.openBytes bytes).mapError .sealing
  let manifest ← (ws.fromJson plaintext).mapError .json
  (validatePulledManifest ws manifest).mapError .loc
  return manifest

def loadRemoteManifest (head : RemoteHead) : Sync Manifest :=
  match head.manifestId with
  | none => pure (.new ws.workspaceId)
  | some id => do
    let bytes ← perform (.downloadManifest id)
    Fallible.check (openManifest ws id bytes)

end Transfer

end RustSync
