/-
Syncing

`sync_attempt` observes the tree and the head, plans, brings the contents
together, applies the combined manifest, records the remote manifest as the
base and publishes what the tree has become. A publication that comes too late
starts the attempt over once. Discarding the local side is a forced pull.

The source's one function is cut where its steps end: `planSync`,
`keepUnchanged`, `gather`, `applyCombined`, `reconcile`, `publish`, `finish`.

Key definitions: `syncAttempt`, `sync`, `discardLocal`, `pullWithMode`.
-/
import RustSync.Sync.Transfer

namespace RustSync

inductive PullMode where
  | safe
  | force
deriving DecidableEq

inductive SyncMode where
  | reconcile
  | dryRun
  | discardLocal
deriving DecidableEq

structure SyncReport where
  observedRemoteRevision : ℕ
  syncedRevision : ℕ
  plan : ReconciliationPlan
  mode : SyncMode
  localContentChanged : Bool
  published : Bool
  retryCount : ℕ
  conflicts : List RelPath

def ensureUnchanged (expected current : Manifest) : SyncResult Unit :=
  require (diffManifests expected current = [])
    (.io "workspace changed during synchronization; local edits were preserved, rerun `rustsync sync`")

/-- `str::contains`. -/
def containsText (text part : List Char) : Bool := text.tails.any fun tail => part.isPrefixOf tail

section Workflow

variable (ws : Workspace)

def isHeadRevisionConflict (error : SyncError) : Bool :=
  error = .remote .headRevisionConflict ∨
    containsText (ws.display error).toList "head revision conflict".toList = true

def localBlobBytes (m : Manifest) : Sync (BTreeMap String Bytes) := do
  let blobs ← stagedBlobsForManifest ws m
  return blobs.foldl (fun bytes blob => bytes.insert blob.contentHash blob.bytes) ∅

/-! ### Planning -/

/-- What an attempt plans from. -/
structure Planned where
  loc : Manifest
  state : SyncState
  head : RemoteHead
  remote : Manifest
  base : Manifest
  plan : ReconciliationPlan

namespace Planned

/-- The state with the head as observed. -/
def observed (p : Planned) : SyncState := { p.state with lastObservedRemote := some p.head }

def requiresPublication (p : Planned) : Bool :=
  p.plan.paths.any fun item => item.action = .upload ∨ item.action = .merge ∨ item.action = .conflict

end Planned

def planSync : Sync Planned := do
  let (loc, _) ← workingTreeStatus ws
  let state ← loadSyncState
  let head ← perform .fetchWorkspaceHead
  let remote ← loadRemoteManifest ws head
  let base := state.lastSyncedManifest.getD (.new ws.workspaceId)
  let plan ← Fallible.check ((planReconciliation base loc remote).mapError .manifest)
  return ⟨loc, state, head, remote, base, plan⟩

/-- Nothing to do but to record the tree as synced. -/
def keepUnchanged (p : Planned) : Sync Unit := do
  let staged ← stageAll ws
  Fallible.check (ensureUnchanged p.loc staged)
  perform (.saveSyncState ({ p.observed with
    lastSyncedManifest := some staged
    lastSyncedRevision := some p.head.revision }).completePending)

/-! ### Combining -/

structure Gathered where
  staged : Manifest
  blobs : Blobs

def gather (p : Planned) : Sync Gathered := do
  perform (.saveSyncState (p.observed.beginPending .planning p.head.revision))
  let staged ← stageAll ws
  Fallible.check (ensureUnchanged p.loc staged)
  let localBlobs ← localBlobBytes ws staged
  let baseBlobs ← localBlobBytes ws p.base
  let remoteBlobs ← downloadManifestBlobs ws p.remote (BTreeSet.ofList (localBlobs.keys ++ baseBlobs.keys))
  return ⟨staged, baseBlobs, localBlobs, remoteBlobs⟩

/-- The loop over the plan. -/
def combinePlanned (p : Planned) (g : Gathered) : SyncResult Combining :=
  (combine ws.digest g.blobs p.base g.staged p.remote p.head.revision p.state.conflicts p.plan).mapError .protocol

/-- Where the content of a combined entry comes from. -/
def plannedBlob (g : Gathered) (out : Combining) (contentHash : String) : Except String Bytes :=
  okOr (out.mergedBytes[contentHash]? <|> g.blobs.loc[contentHash]? <|> g.blobs.remote[contentHash]? <|>
    g.blobs.base[contentHash]?) s!"missing planned blob {contentHash}"

/-- The state with the conflicts found. -/
def Planned.withConflicts (p : Planned) (out : Combining) : SyncState := { p.observed with conflicts := out.conflicts }

def applyCombined (p : Planned) (g : Gathered) (out : Combining) : Sync Unit := do
  let (current, _) ← workingTreeStatus ws
  Fallible.check (ensureUnchanged g.staged current)
  perform (.saveSyncState ((p.withConflicts out).beginPending .download p.head.revision))
  applyPulledManifest ws out.combined (plannedBlob g out)

/-- The state with the remote manifest as base. -/
def Planned.withBase (p : Planned) (out : Combining) : SyncState :=
  { p.withConflicts out with
    lastSyncedManifest := some p.remote
    lastSyncedRevision := some p.head.revision }

/-- What an attempt has put in place. -/
structure Reconciliation where
  out : Combining
  published : Manifest

/-- Bring everything together, apply it, and record the remote manifest as the
base: a retry must reconcile against it rather than treating already-applied
changes as new conflicts. -/
def reconcile (p : Planned) : Sync Reconciliation := do
  let g ← gather ws p
  let out ← Fallible.check (combinePlanned ws p g)
  applyCombined ws p g out
  let published ← stageAll ws
  perform (.saveSyncState ((p.withBase out).beginPending .download p.head.revision))
  return ⟨out, published⟩

/-! ### Publishing -/

def announce (p : Planned) (r : Reconciliation) : Sync Unit := do
  perform (.saveSyncState ((p.withBase r.out).beginPending .upload p.head.revision))
  perform (.saveSyncState ((p.withBase r.out).beginPending .publication p.head.revision))

/-- The state at the end of an attempt. -/
def finalState (p : Planned) (r : Reconciliation) (pushed : Option PushReport) : SyncState :=
  ({ p.withBase r.out with
    lastPublishedLocal := match pushed with
      | some report => some ⟨report.manifestId, report.updatedHeadRevision⟩
      | none => p.state.lastPublishedLocal
    lastSyncedManifest := some r.published
    lastSyncedRevision := some ((pushed.map PushReport.updatedHeadRevision).getD p.head.revision) }).completePending

def planReport (p : Planned) (mode : SyncMode) (retryCount : ℕ) : SyncReport where
  observedRemoteRevision := p.head.revision
  syncedRevision := p.head.revision
  plan := p.plan
  mode := mode
  localContentChanged := false
  published := false
  retryCount := retryCount
  conflicts := p.state.conflicts.keys

def finish (p : Planned) (r : Reconciliation) (pushed : Option PushReport) (retryCount : ℕ) : Sync SyncReport := do
  perform (.saveSyncState (finalState p r pushed))
  return { planReport p .reconcile retryCount with
    localContentChanged := true
    published := pushed.isSome
    syncedRevision := (pushed.map PushReport.updatedHeadRevision).getD p.head.revision
    conflicts := r.out.conflicts.keys }

/-! ### Pulling -/

def ensureWorkingTreeClean : Sync Unit := do
  let (current, baseline) ← workingTreeStatus ws
  Fallible.check (require (diffManifests baseline current = []) .unstagedChanges)

structure PullReport where
  remoteHeadRevision : ℕ
  manifestId : Option ManifestId

/-- The remote entry is the local one. -/
def unchangedHash (loc : Manifest) : RelPath × ManifestEntry → Option String
  | (path, .file remote) =>
    match loc.get path with
    | some (.file file) =>
      if remote.contentHash = file.contentHash ∧ remote.size = file.size then some remote.contentHash else none
    | _ => none
  | (_, .directory) => none

def pullWithMode (mode : PullMode) : Sync PullReport := do
  if mode = .safe then ensureWorkingTreeClean ws
  let (loc, _) ← workingTreeStatus ws
  let head ← perform .fetchWorkspaceHead
  match (head : RemoteHead).manifestId with
  | none =>
    applyPulledManifest ws (.new ws.workspaceId) fun _ => .error "empty manifest has no blobs"
    return ⟨(head : RemoteHead).revision, none⟩
  | some id =>
    let manifest ← loadRemoteManifest ws head
    let blobs ← downloadManifestBlobs ws manifest
      (BTreeSet.ofList (manifest.entries.toList.filterMap (unchangedHash loc)))
    let (current, _) ← workingTreeStatus ws
    Fallible.check (ensureUnchanged loc current)
    applyPulledManifest ws manifest fun contentHash =>
      okOr blobs[contentHash]? s!"missing downloaded blob {contentHash}"
    return ⟨(head : RemoteHead).revision, some id⟩

def discardLocal : Sync SyncReport := do
  let pulled ← pullWithMode ws .force
  let state ← loadSyncState
  let staged ← loadStagedManifest ws
  perform (.saveSyncState ({ state with
    lastObservedRemote := some ⟨pulled.remoteHeadRevision, pulled.manifestId⟩
    lastSyncedManifest := some staged
    lastSyncedRevision := some pulled.remoteHeadRevision
    conflicts := ∅ }).completePending)
  return ⟨pulled.remoteHeadRevision, pulled.remoteHeadRevision, ⟨[]⟩, .discardLocal, true, false, 0, []⟩

/-! ### An attempt -/

/-- `sync_attempt`, given how it starts over. -/
def attemptOnce (again : Option (ℕ → Sync SyncReport)) (mode : SyncMode) (initialRevision : Option ℕ)
    (retryCount : ℕ) : Sync SyncReport := do
  if mode = .discardLocal then return ← discardLocal ws
  let p ← planSync ws
  if mode = .dryRun then return planReport p mode retryCount
  if !p.plan.hasChanges then
    keepUnchanged ws p
    return planReport p mode retryCount
  let r ← reconcile ws p
  if p.requiresPublication then
    announce p r
    match ← (pushWithExpectedHead ws p.head p.remote).attempt with
    | .ok pushed => finish p r (some pushed) retryCount
    | .error error =>
      if isHeadRevisionConflict ws error then
        match again with
        | some again => again p.head.revision
        | none =>
          let current ← perform .fetchWorkspaceHead
          throw (.publicationRace (initialRevision.getD p.head.revision) (current : RemoteHead).revision)
      else throw error
  else finish p r none retryCount

/-- `sync_attempt`; `retries` is how often it may still start over. -/
def syncAttempt (mode : SyncMode) (initialRevision : Option ℕ) (retryCount : ℕ) : (retries : ℕ) → Sync SyncReport
  | 0 => attemptOnce ws none mode initialRevision retryCount
  | retries + 1 =>
    attemptOnce ws (some fun revision => syncAttempt .reconcile (some revision) (retryCount + 1) retries) mode
      initialRevision retryCount

def sync (mode : SyncMode) : Sync SyncReport := syncAttempt ws mode none 0 1

end Workflow

end RustSync
