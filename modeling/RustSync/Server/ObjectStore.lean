/-
The object store

`IndexedFsStorage` keeps an object in a canonical file named by the digest of
its bytes, which blobs and manifests share, and a row of a catalog in an
SQLite database. The file operations of `write_new` are steps of their own: a
temporary file is made, written, linked to the canonical name and removed. The
process may die between any two.

A call is one file operation or one query; none fails but as the code
expects. The clock's nanoseconds give every temporary file a new name.

Key definitions: `objectPath`, `writeNew`, `putObject`, `getObject`,
`existsObject`, `objectStore`, `Crashed`.
-/
import Mathlib.Algebra.Group.Int.Defs
import Mathlib.Data.Int.Notation
import RustSync.Lib.Calls
import RustSync.Lib.Crash
import RustSync.Protocol.Head
import RustSync.Server.Storage

namespace RustSync

/-- An object's bytes, as many as a file can hold. -/
structure ObjectBytes where
  bytes : Bytes
  bound : bytes.length < 2 ^ 63

/-! ### The rows of the catalog -/

namespace Indexed

inductive StoredObjectKind where
  | blob
  | manifest
deriving DecidableEq, Repr

def StoredObjectKind.asStr : StoredObjectKind → String
  | .blob => "blob"
  | .manifest => "manifest"

def objectHashAlgorithm : String := "sha256"

structure StoredObjectMetadata where
  objectId : String
  kind : StoredObjectKind
  encryptedSize : ℕ

inductive ObjectInsertResult where
  | inserted
  | exactExisting
deriving DecidableEq, Repr

structure StoredObjectRow where
  kind : StoredObjectKind
  hashAlgorithm : String
  encryptedSize : ℕ
deriving DecidableEq

def toI64 (value : ℕ) (field : String) : ServerResult ℤ :=
  if value < 2 ^ 63 then .ok value else .error (.integerOutOfRange field)

def corrupt (kind : StoredObjectKind) (id what : String) : ServerError :=
  let name := kind.asStr
  .storageCorruption s!"catalog metadata for {name} `{id}` {what}"

def validateObjectRows (metadata : StoredObjectMetadata) (rows : List StoredObjectRow) :
    ServerResult ObjectInsertResult :=
  if rows.length = 1 ∧ ∀ row ∈ rows, row.kind = metadata.kind ∧
      row.encryptedSize = metadata.encryptedSize ∧ row.hashAlgorithm = objectHashAlgorithm then
    .ok .exactExisting
  else .error (corrupt metadata.kind metadata.objectId "does not match its physical object")

/-- The rows of an object, as its metadata. -/
def metadataOfRows (kind : StoredObjectKind) (objectId : String) :
    List StoredObjectRow → ServerResult StoredObjectMetadata
  | [row] =>
    if row.kind = kind ∧ row.hashAlgorithm = objectHashAlgorithm then
      .ok ⟨objectId, row.kind, row.encryptedSize⟩
    else .error (corrupt kind objectId "is invalid")
  | _ => .error (corrupt kind objectId "is invalid")

def matchesId (c : Crypto) (kind : StoredObjectKind) (id : String) (bytes : Bytes) : Bool :=
  match kind with
  | .blob => ObjectId.textOf blobIdKind c bytes = id
  | .manifest => ObjectId.textOf manifestIdKind c bytes = id

end Indexed

namespace Objects

open Fallible
open Indexed (StoredObjectKind StoredObjectRow StoredObjectMetadata ObjectInsertResult matchesId corrupt
  validateObjectRows metadataOfRows toI64 objectHashAlgorithm)

/-! ### Paths -/

/-- A path below the storage root, by its components. -/
abbrev Path := List String

def objectsDir (workspaceId : String) : Path := ["workspaces", workspaceId, "objects"]

/-- `str::strip_prefix`, or the text itself. -/
def stripStart (start value : String) : String :=
  match afterStart start value with
  | some rest => String.ofList rest
  | none => value

/-- `str::get`, of a text in ASCII. -/
def slice (value : String) (first last : ℕ) : Option String :=
  if last ≤ value.length then some (String.ofList ((value.toList.take last).drop first)) else none

def objectPath (baseDir : Path) (objectId : String) : Path :=
  let first := (slice objectId 0 2).getD "_"
  let second := (slice objectId 2 4).getD "_"
  baseDir ++ [first, second, objectId ++ ".enc"]

def blobPath (workspaceId blobId : String) : Path :=
  objectPath (objectsDir workspaceId) (stripStart "blob_" blobId)

def manifestPath (workspaceId manifestId : String) : Path :=
  objectPath (objectsDir workspaceId) (stripStart "manifest_" manifestId)

/-- `IndexedFsStorage::object_path`. -/
def pathOf (w : WorkspaceId) : StoredObjectKind → String → Path
  | .blob, id => blobPath w.asStr id
  | .manifest, id => manifestPath w.asStr id

/-- `temp_path_for`, at a time in nanoseconds. -/
def tempPathFor (path : Path) (processId timestamp : ℕ) : Path :=
  let fileName := path.getLast?.getD "object"
  path.dropLast ++ [s!".{fileName}.{processId}.{timestamp}.tmp"]

/-! ### Calls -/

/-- The files, the catalogs of the workspaces, the lock of puts and the
process. -/
structure State (ι : Type) where
  files : Path → Option Bytes
  objects : WorkspaceId → StoredObjectKind → String → Option StoredObjectRow
  putLock : Option ι
  processId : ℕ

/-- How a hard link came out. -/
inductive Linked where
  | done
  | alreadyExists
  | failed (error : String)

inductive Op where
  | readFile (path : Path)
  | tempPathFor (path : Path)
  | createNew (path : Path)
  | writeAll (path : Path) (bytes : Bytes)
  | hardLink (temp path : Path)
  | removeFile (path : Path)
  | objectRowsById (w : WorkspaceId) (kind : StoredObjectKind) (objectId : String)
  | objectRowsByObjectId (w : WorkspaceId) (objectId : String)
  | insertObject (w : WorkspaceId) (kind : StoredObjectKind) (objectId : String) (size : ℤ)
  | lockPut
  | unlockPut

def Op.Val : Op → Type
  | .readFile _ => Option Bytes
  | .tempPathFor _ => Path
  | .hardLink .. => Linked
  | .objectRowsById .. | .objectRowsByObjectId .. => List StoredObjectRow
  | .insertObject .. => ℕ
  | .createNew _ | .writeAll .. | .removeFile _ | .lockPut | .unlockPut => Unit

abbrev Storage := Fallible Op.Val ServerError

def call (o : Op) : Storage o.Val := Fallible.op o

namespace State

variable {ι : Type}

def setFile (s : State ι) (path : Path) (content : Option Bytes) : State ι :=
  { s with files := Function.update s.files path content }

def insertRow (s : State ι) (w : WorkspaceId) (kind : StoredObjectKind) (objectId : String) (size : ℤ) :
    State ι :=
  { s with
    objects := fun w' k x =>
      if w' = w ∧ k = kind ∧ x = objectId then some ⟨kind, objectHashAlgorithm, size.toNat⟩
      else s.objects w' k x }

/-- A call of `i` at a time in nanoseconds, when it can be made. -/
def run (now : ℕ) (i : ι) : (o : Op) → State ι → Option (ServerResult o.Val × State ι)
  | .readFile path, s => some (.ok (s.files path), s)
  | .tempPathFor path, s =>
    if (s.files (Objects.tempPathFor path s.processId now)).isNone then
      some (.ok (Objects.tempPathFor path s.processId now), s)
    else none
  | .createNew path, s =>
    if (s.files path).isNone then some (.ok (), s.setFile path (some []))
    else some (.error (.storage "file exists"), s)
  | .writeAll path bytes, s => some (.ok (), s.setFile path (some bytes))
  | .hardLink temp path, s =>
    match s.files temp, s.files path with
    | none, _ => some (.ok (Linked.failed "entity not found"), s)
    | some _, some _ => some (.ok Linked.alreadyExists, s)
    | some bytes, none => some (.ok Linked.done, s.setFile path (some bytes))
  | .removeFile path, s => some (.ok (), s.setFile path none)
  | .objectRowsById w kind objectId, s => some (.ok (s.objects w kind objectId).toList, s)
  | .objectRowsByObjectId w objectId, s =>
    some (.ok ((s.objects w .blob objectId).toList ++ (s.objects w .manifest objectId).toList), s)
  | .insertObject w kind objectId size, s =>
    if (s.objects w kind objectId).isNone then some (.ok (1 : ℕ), s.insertRow w kind objectId size)
    else some (.ok (0 : ℕ), s)
  | .lockPut, s => if s.putLock.isNone then some (.ok (), { s with putLock := some i }) else none
  | .unlockPut, s => some (.ok (), { s with putLock := none })

/-- What a call of `i` may do: what it does at some time. -/
def Runs (i : ι) (o : Op) (s : State ι) (r : ServerResult o.Val) (s' : State ι) : Prop :=
  ∃ now, s.run now i o = some (r, s')

end State

/-- What a crash leaves: canonical files, and of the catalog what it had.
Temporary files may be cut short; the lock was in memory. -/
structure Crashed {ι : Type} (s s' : State ι) : Prop where
  files : ∀ (w : WorkspaceId) (name : String),
    s'.files (objectPath (objectsDir w.asStr) name) = s.files (objectPath (objectsDir w.asStr) name)
  objects : ∀ w kind id, s'.objects w kind id = s.objects w kind id ∨ s'.objects w kind id = none
  putLock : s'.putLock = none

/-! ### Files -/

def removeTempFile (path : Path) : Storage Unit := call (.removeFile path)

def writeNew (path : Path) (bytes : Bytes) : Storage Bool := do
  let temp : Path ← call (.tempPathFor path)
  call (.createNew temp)
  call (.writeAll temp bytes)
  let linked : Linked ← call (.hardLink temp path)
  match linked with
  | .done =>
    removeTempFile temp
    return true
  | .alreadyExists =>
    removeTempFile temp
    return false
  | .failed error =>
    removeTempFile temp
    throw (.storage error)

/-! ### The catalog -/

def insertObjectIfAbsent (w : WorkspaceId) (metadata : StoredObjectMetadata) : Storage ObjectInsertResult := do
  let size ← check (toI64 metadata.encryptedSize "encrypted object size")
  let existing : List StoredObjectRow ← call (.objectRowsById w metadata.kind metadata.objectId)
  if existing ≠ [] then
    check (validateObjectRows metadata existing)
  else
    let conflicting : List StoredObjectRow ← call (.objectRowsByObjectId w metadata.objectId)
    if conflicting ≠ [] then
      check (validateObjectRows metadata conflicting)
    else
      let inserted : ℕ ← call (.insertObject w metadata.kind metadata.objectId size)
      let rows : List StoredObjectRow ← call (.objectRowsById w metadata.kind metadata.objectId)
      let outcome ← check (validateObjectRows metadata rows)
      return if inserted = 1 then .inserted else outcome

def getObjectMetadata (w : WorkspaceId) (kind : StoredObjectKind) (objectId : String) :
    Storage (Option StoredObjectMetadata) := do
  let rows : List StoredObjectRow ← call (.objectRowsById w kind objectId)
  if rows = [] then
    let conflicting : List StoredObjectRow ← call (.objectRowsByObjectId w objectId)
    check (require (conflicting = []) (corrupt kind objectId "is stored under the wrong object kind"))
    return none
  else
    let metadata ← check (metadataOfRows kind objectId rows)
    return some metadata

/-! ### Objects -/

section Objects

variable (c : Crypto) (w : WorkspaceId)

def verifyBackfill (kind : StoredObjectKind) (id : String) (bytes : Bytes) : Storage Unit := do
  let name := kind.asStr
  check (require (matchesId c kind id bytes = true)
    (.storageCorruption s!"stored {name} `{id}` does not match its content ID"))
  let _ ← insertObjectIfAbsent w ⟨id, kind, bytes.length⟩
  return ()

def reportMissingCatalogRow (kind : StoredObjectKind) (id : String) : Storage Unit := do
  let metadata ← getObjectMetadata w kind id
  check (require (metadata.isNone = true) (corrupt kind id "exists but its canonical file is missing"))

/-- What `put_object` does with the canonical bytes. -/
def catalogue (kind : StoredObjectKind) (id : String) (bytes canonical : Bytes) : Storage PutResult := do
  let name := kind.asStr
  check (require (canonical = bytes ∧ matchesId c kind id canonical = true) (.storageCorruption
    s!"canonical {name} `{id}` does not exactly match submitted bytes and content ID"))
  let row ← insertObjectIfAbsent w ⟨id, kind, canonical.length⟩
  return if row = .inserted then .created else .alreadyExists

/-- `put_object` below the lock. -/
def putLocked (kind : StoredObjectKind) (id : String) (bytes : Bytes) : Storage PutResult := do
  let path := pathOf w kind id
  let found : Option Bytes ← call (.readFile path)
  match found with
  | some existing => catalogue c w kind id bytes existing
  | none =>
    -- whether this put or another linked the file, the canonical bytes count
    let _ ← writeNew path bytes
    let again : Option Bytes ← call (.readFile path)
    match again with
    | some canonical => catalogue c w kind id bytes canonical
    | none => throw (.storage "entity not found")

def putObject (kind : StoredObjectKind) (id : String) (bytes : Bytes) : Storage PutResult :=
  withLock .lockPut .unlockPut (putLocked c w kind id bytes)

def getObject (kind : StoredObjectKind) (id : String) (missing : ServerError) : Storage Bytes := do
  let found : Option Bytes ← call (.readFile (pathOf w kind id))
  match found with
  | some bytes =>
    verifyBackfill c w kind id bytes
    return bytes
  | none =>
    reportMissingCatalogRow w kind id
    throw missing

def existsObject (kind : StoredObjectKind) (id : String) : Storage Bool := do
  let found : Option Bytes ← call (.readFile (pathOf w kind id))
  match found with
  | some bytes =>
    verifyBackfill c w kind id bytes
    return true
  | none =>
    reportMissingCatalogRow w kind id
    return false

end Objects

/-! ### Requests -/

def idKind : StoredObjectKind → ObjectIdKind
  | .blob => blobIdKind
  | .manifest => manifestIdKind

/-- `ServerError::BlobNotFound` and `ServerError::ManifestNotFound`. -/
def missing : StoredObjectKind → ServerError
  | .blob => .blobNotFound
  | .manifest => .manifestNotFound

inductive Request where
  | put (w : WorkspaceId) (kind : StoredObjectKind) (id : ObjectId (idKind kind)) (object : ObjectBytes)
  | get (w : WorkspaceId) (kind : StoredObjectKind) (id : ObjectId (idKind kind))
  | contains (w : WorkspaceId) (kind : StoredObjectKind) (id : ObjectId (idKind kind))

inductive Response where
  | put (result : PutResult)
  | bytes (bytes : Bytes)
  | found (present : Bool)

/-- `put_blob` and `put_manifest`, `get_blob` and `get_manifest`,
`blob_exists` and `manifest_exists`, by the kind. -/
def Request.handle (c : Crypto) : Request → Storage Response
  | .put w kind id object => do
    check (require (ObjectId.textOf (idKind kind) c object.bytes = id.asStr) .objectHashMismatch)
    .put <$> putObject c w kind id.asStr object.bytes
  | .get w kind id => .bytes <$> getObject c w kind id.asStr (missing kind)
  | .contains w kind id => .found <$> existsObject c w kind id.asStr

/-- The store of a server, serving any number of requests. -/
def objectStore (ι : Type) (c : Crypto) : Machine ι (Signature.fallible Op.Val ServerError) (State ι)
    Request (ServerResult Response) where
  sem i o s r s' := State.Runs i o s r s'
  program q := ExceptT.run (q.handle c)

end Objects

end RustSync
