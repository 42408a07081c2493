/-
The two head stores

`IndexedFsStorage` keeps a workspace's head as a row of its SQLite database,
beside the store of objects: an update looks for the manifest's object and then
runs one transaction, which inserts the first revision or updates the row where
the revision is the expected one. `FsStorage` keeps objects in files alone and
the head in a JSON file, which an update reads, compares and replaces under a
lock. In both stores blobs and manifests of one digest share a file.

A call is one query, transaction or file operation; none fails but as the code
expects.

Key definitions: `IndexedFs.updateHead`, `IndexedFs.getHead`, `Fs.updateHead`,
`Fs.getHead`, `indexedStorage`, `fsStorage`.
-/
import RustSync.Lib.Embedding
import RustSync.Server.ObjectStore

namespace RustSync

inductive HeadUpdateResult where
  | updated
  | conflict
deriving DecidableEq, Repr

/-- The arguments of `update_head`; clients stay below the last revision. -/
structure HeadUpdate where
  expectedRevision : UInt64
  manifestId : ManifestId
  updatedBy : Option DeviceId
  bound : expectedRevision.toNat < 2 ^ 63 - 1

inductive HeadRequest where
  | getHead
  | updateHead (update : HeadUpdate)
  | object (q : Objects.Request)

inductive HeadResponse where
  | head (head : WorkspaceHead)
  | update (result : HeadUpdateResult) (head : WorkspaceHead)
  | object (response : Objects.Response)

open Fallible

/-! ### The row of the head -/

namespace Indexed

/-- The columns of `workspace_head`. -/
structure HeadRow where
  manifestId : Option String
  revision : ℤ
  updatedBy : Option String
  updatedAt : Option ℤ

/-- `INSERT .. ON CONFLICT DO NOTHING`. -/
def insertHead (row : HeadRow) : Option HeadRow → ℕ × Option HeadRow
  | none => (1, some row)
  | some old => (0, some old)

/-- `UPDATE .. WHERE revision = expected`. -/
def updateHeadWhere (expected : ℤ) (row : HeadRow) : Option HeadRow → ℕ × Option HeadRow
  | none => (0, none)
  | some old => if old.revision = expected then (1, some row) else (0, some old)

/-- The statement of the transaction, by the expected revision. -/
def headStatement (expected : ℤ) (row : HeadRow) (old : Option HeadRow) : ℕ × Option HeadRow :=
  if expected = 0 then insertHead row old else updateHeadWhere expected row old

def toU64 (value : ℤ) (field : String) : ServerResult UInt64 :=
  if 0 ≤ value then .ok (UInt64.ofNat value.toNat) else .error (.corruptDatabase s!"negative {field}")

/-- A nullable identifier column. -/
def idColumn {α : Type} (parse : String → Except InvalidIdentifier α) : Option String →
    ServerResult (Option α)
  | none => .ok none
  | some s => ((parse s).mapError fun e => .corruptDatabase e.text).map some

/-- A nullable timestamp column. -/
def timestampColumn : Option ℤ → ServerResult (Option UnixTimestamp)
  | none => .ok none
  | some t => (toU64 t "workspace head timestamp").map fun secs => some ⟨secs⟩

/-- The row as a head. -/
def headOfRow (workspace : WorkspaceId) (row : HeadRow) : ServerResult WorkspaceHead := do
  let manifestId ← idColumn (ObjectId.parse manifestIdKind) row.manifestId
  let revision ← toU64 row.revision "workspace head revision"
  let updatedBy ← idColumn (TextId.parse deviceIdKind) row.updatedBy
  let updatedAt ← timestampColumn row.updatedAt
  return ⟨workspace, manifestId, revision, updatedBy, updatedAt⟩

/-- No row is the empty head. -/
def headOf (workspace : WorkspaceId) (row : Option HeadRow) : ServerResult WorkspaceHead :=
  match row with
  | none => .ok (.empty workspace)
  | some row => headOfRow workspace row

def resultOf (rowsAffected : ℕ) : HeadUpdateResult := if rowsAffected = 1 then .updated else .conflict

end Indexed

/-! ### SQLite and files -/

namespace IndexedFs

open Indexed (HeadRow headStatement headOf resultOf toI64)

/-- The files and catalogs, and the head rows. -/
structure State (ι : Type) where
  objects : Objects.State ι
  heads : WorkspaceId → Option HeadRow

inductive Op where
  | object (o : Objects.Op)
  | selectHead (w : WorkspaceId)
  | updateHead (w : WorkspaceId) (expected next : ℤ) (manifestId : String) (updatedBy : Option String)

def Op.Val : Op → Type
  | .object o => o.Val
  | .selectHead _ => WorkspaceHead
  | .updateHead .. => ℕ × WorkspaceHead

abbrev Calls := Signature.fallible Op.Val ServerError

abbrev Storage := Fallible Op.Val ServerError

namespace State

variable {ι : Type}

/-- A call of `i` at a time in nanoseconds, and in seconds, when it can be
made. The transaction of a head that does not parse is not committed. -/
def run (nanos : ℕ) (now : ℤ) (i : ι) : (o : Op) → State ι → Option (ServerResult o.Val × State ι)
  | .object o, s => (s.objects.run nanos i o).map fun (r, t) => (r, { s with objects := t })
  | .selectHead w, s => some (headOf w (s.heads w), s)
  | .updateHead w expected next manifestId updatedBy, s =>
    let ran := headStatement expected ⟨some manifestId, next, updatedBy, some now⟩ (s.heads w)
    if 0 ≤ now ∧ now < 2 ^ 63 then
      match headOf w ran.2 with
      | .ok head => some (.ok (ran.1, head), { s with heads := Function.update s.heads w ran.2 })
      | .error e => some (.error e, s)
    else none

/-- What a call of `i` may do: what it does at some time. -/
def Runs (i : ι) (o : Op) (s : State ι) (r : ServerResult o.Val) (s' : State ι) : Prop :=
  ∃ nanos now, s.run nanos now i o = some (r, s')

theorem runs_object {i : ι} {o : Objects.Op} {s s' : State ι} {r : ServerResult o.Val}
    (h : State.Runs i (.object o) s r s') : Objects.State.Runs i o s.objects r s'.objects ∧ s'.heads = s.heads := by
  obtain ⟨nanos, now, hrun⟩ := h
  obtain ⟨⟨a, t⟩, hcall, heq⟩ := Option.map_eq_some_iff.mp hrun
  cases heq
  exact ⟨⟨nanos, hcall⟩, rfl⟩

end State

/-- The calls of the store of objects. -/
def calls : (Signature.fallible Objects.Op.Val ServerError).Embedding Calls where
  op := .object
  resp _ r := r

/-- A program of the store of objects. -/
def ofObjects {α : Type} (x : Objects.Storage α) : Storage α := Fallible.lift calls x

/-- `WorkspaceDb::update_head`. -/
def updateHeadRow (w : WorkspaceId) (expectedRevision : UInt64) (manifestId : ManifestId)
    (updatedBy : Option DeviceId) : Storage (HeadUpdateResult × WorkspaceHead) := do
  let expected ← check (toI64 expectedRevision.toNat "workspace head revision")
  check (require (expectedRevision.toNat + 1 < UInt64.size) .headRevisionOverflow)
  let next ← check ((toI64 (expectedRevision.toNat + 1) "workspace head revision").mapError fun _ =>
    .headRevisionOverflow)
  let ran : ℕ × WorkspaceHead ←
    Fallible.op (Op.updateHead w expected next manifestId.asStr (updatedBy.map TextId.asStr))
  return (resultOf ran.1, ran.2)

def updateHead (c : Crypto) (w : WorkspaceId) (expectedRevision : UInt64) (manifestId : ManifestId)
    (updatedBy : Option DeviceId) : Storage (HeadUpdateResult × WorkspaceHead) := do
  let found ← ofObjects (Objects.existsObject c w .manifest manifestId.asStr)
  check (require (found = true) .manifestNotFound)
  updateHeadRow w expectedRevision manifestId updatedBy

def getHead (c : Crypto) (w : WorkspaceId) : Storage WorkspaceHead := do
  let head : WorkspaceHead ← Fallible.op (Op.selectHead w)
  match head.manifestId with
  | some id =>
    let _ ← ofObjects (Objects.getObject c w .manifest id.asStr .manifestNotFound)
    return head
  | none => return head

def handle (c : Crypto) (w : WorkspaceId) : HeadRequest → Storage HeadResponse
  | .getHead => .head <$> getHead c w
  | .updateHead u => (fun (result, head) => .update result head) <$>
    updateHead c w u.expectedRevision u.manifestId u.updatedBy
  | .object q => .object <$> ofObjects (q.handle c)

end IndexedFs

/-- Clients of a workspace on the SQLite-backed store. -/
def indexedStorage (ι : Type) (c : Crypto) (w : WorkspaceId) :
    Machine ι IndexedFs.Calls (IndexedFs.State ι) HeadRequest (ServerResult HeadResponse) where
  sem i o s r s' := IndexedFs.State.Runs i o s r s'
  program q := (IndexedFs.handle c w q).run

/-! ### Files alone -/

namespace Fs

open Objects (Path pathOf idKind)

/-- The files of the objects, a workspace's head file, and the lock of
updates. -/
structure State (ι : Type) where
  files : Path → Option Bytes
  head : Option Serde.Doc
  headLock : Option ι

inductive Op where
  | readFile (path : Path)
  | tryExists (path : Path)
  | writeNew (path : Path) (bytes : Bytes)
  | readHead
  | writeReplace (head : Serde.Doc)
  | now
  | lockHead
  | unlockHead

def Op.Val : Op → Type
  | .readFile _ => Option Bytes
  | .tryExists _ | .writeNew .. => Bool
  | .readHead => Option Serde.Doc
  | .now => UnixTimestamp
  | .writeReplace _ | .lockHead | .unlockHead => Unit

abbrev Calls := Signature.fallible Op.Val ServerError

abbrev Storage := Fallible Op.Val ServerError

def call (o : Op) : Storage o.Val := Fallible.op o

namespace State

variable {ι : Type}

/-- A call of `i` at the time `now`, when it can be made. -/
def run (now : UnixTimestamp) (i : ι) : (o : Op) → State ι → Option (ServerResult o.Val × State ι)
  | .readFile path, s => some (.ok (s.files path), s)
  | .tryExists path, s => some (.ok (s.files path).isSome, s)
  | .writeNew path bytes, s =>
    if (s.files path).isNone then
      some (.ok true, { s with files := Function.update s.files path (some bytes) })
    else some (.ok false, s)
  | .readHead, s => some (.ok s.head, s)
  | .writeReplace head, s => some (.ok (), { s with head := some head })
  | .now, s => some (.ok now, s)
  | .lockHead, s => if s.headLock.isNone then some (.ok (), { s with headLock := some i }) else none
  | .unlockHead, s => some (.ok (), { s with headLock := none })

/-- What a call of `i` may do: what it does at some time. -/
def Runs (i : ι) (o : Op) (s : State ι) (r : ServerResult o.Val) (s' : State ι) : Prop :=
  ∃ now, s.run now i o = some (r, s')

end State

/-- The head file as a head; no file is the empty head. -/
def headOf (workspace : WorkspaceId) (file : Option Serde.Doc) : ServerResult WorkspaceHead :=
  match file with
  | none => .ok (.empty workspace)
  | some json => (Codec.decodeWorkspaceHead json).mapError fun _ =>
    .invalidStoredHead "the JSON is not a workspace head"

def getHead (workspace : WorkspaceId) : Storage WorkspaceHead := do
  let file : Option Serde.Doc ← call .readHead
  check (headOf workspace file)

/-- `update_head` below the lock. -/
def updateLocked (workspace : WorkspaceId) (update : HeadUpdate) :
    Storage (HeadUpdateResult × WorkspaceHead) := do
  let stored : Bool ← call (.tryExists (pathOf workspace .manifest update.manifestId.asStr))
  check (require (stored = true) .manifestNotFound)
  let current ← getHead workspace
  if current.revision ≠ update.expectedRevision then
    return (.conflict, current)
  else
    check (require (current.revision.toNat + 1 < UInt64.size) .headRevisionOverflow)
    let now : UnixTimestamp ← call .now
    let next : WorkspaceHead :=
      ⟨workspace, some update.manifestId, current.revision + 1, update.updatedBy, some now⟩
    let json ← check ((Serde.encode Codec.json (Codec.serWorkspaceHead next)).mapError fun _ =>
      .invalidStoredHead "the head has no JSON form")
    call (.writeReplace json)
    return (.updated, next)

def updateHead (workspace : WorkspaceId) (update : HeadUpdate) :
    Storage (HeadUpdateResult × WorkspaceHead) :=
  withLock .lockHead .unlockHead (updateLocked workspace update)

def putImmutableObject (path : Path) (bytes : Bytes) : Storage PutResult := do
  let found : Bool ← call (.tryExists path)
  if found then
    return .alreadyExists
  else
    let created : Bool ← call (.writeNew path bytes)
    return if created then .created else .alreadyExists

def readObject (path : Path) (missing : ServerError) : Storage Bytes := do
  let found : Option Bytes ← call (.readFile path)
  match found with
  | some bytes => return bytes
  | none => throw missing

/-- `put_blob` and `put_manifest`, `get_blob` and `get_manifest`,
`blob_exists` and `manifest_exists`, by the kind. -/
def handleObject (c : Crypto) : Objects.Request → Storage Objects.Response
  | .put w kind id object => do
    check (require (ObjectId.textOf (idKind kind) c object.bytes = id.asStr) .objectHashMismatch)
    .put <$> putImmutableObject (pathOf w kind id.asStr) object.bytes
  | .get w kind id => .bytes <$> readObject (pathOf w kind id.asStr) (Objects.missing kind)
  | .contains w kind id => .found <$> call (.tryExists (pathOf w kind id.asStr))

def handle (c : Crypto) (workspace : WorkspaceId) : HeadRequest → Storage HeadResponse
  | .getHead => .head <$> getHead workspace
  | .updateHead u => (fun (result, head) => .update result head) <$> updateHead workspace u
  | .object q => .object <$> handleObject c q

end Fs

/-- Clients of a workspace on the plain store. -/
def fsStorage (ι : Type) (c : Crypto) (w : WorkspaceId) :
    Machine ι Fs.Calls (Fs.State ι) HeadRequest (ServerResult HeadResponse) where
  sem i o s r s' := Fs.State.Runs i o s r s'
  program q := (Fs.handle c w q).run

end RustSync
