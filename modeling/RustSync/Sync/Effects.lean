/-
What a part of a sync calls

The steps of a sync, by the calls they make: those on the files of the device
leave the state of the sync and the server alone (`FilesOnly`), and those that
only look and ask leave the device alone.

Key definitions: `Op.OnFiles`, `Op.Asks`.
-/
import RustSync.Sync.Staging
import RustSync.Sync.Workflow

namespace RustSync

/-! ### Calls on the files of the device -/

section Files

variable {env : Setting} {ws : Workspace} {w t : World} {m : Manifest} {path : RelPath}

/-- A call on the files of the device, other than the state of the sync. -/
def Op.OnFiles : Op → Prop
  | .saveSyncState _ | .fetchWorkspaceHead | .downloadManifest _ | .downloadBlob _ | .uploadBlob .. | .uploadManifest ..
  | .updateWorkspaceHead .. => False
  | _ => True

/-- The state of the sync and the server are as they were. -/
structure FilesOnly (w t : World) : Prop where
  syncState : t.device.syncState = w.device.syncState
  remote : t.remote = w.remote

theorem FilesOnly.refl (w : World) : FilesOnly w w := ⟨rfl, rfl⟩

theorem FilesOnly.trans {u : World} (h : FilesOnly w t) (h' : FilesOnly t u) : FilesOnly w u :=
  ⟨h'.syncState.trans h.syncState, h'.remote.trans h.remote⟩

theorem filesOnly_onDisk {α : Type} {r : SyncResult α} {step : Prop} (h : onDisk env w r t step)
    (hstep : step → FilesOnly w t) : FilesOnly w t := by
  rcases h with h | ⟨_, _, rfl⟩
  · exact hstep h
  · exact .refl _

theorem filesOnly_changesTree {r : SyncResult Unit} {f : WorkingTree → Option WorkingTree}
    (h : changesTree env w r t f) : FilesOnly w t := by
  refine filesOnly_onDisk h fun h => ?_
  split at h
  · rw [h.2]
    exact ⟨rfl, rfl⟩
  · rw [h.2]
    exact .refl _

theorem filesOnly_call {o : Op} {r : SyncResult o.Val} (ho : o.OnFiles) (h : sem env o w r t) : FilesOnly w t := by
  cases o with
  | read =>
    refine filesOnly_onDisk h fun ⟨_, _, _, _, heq, _⟩ => ?_
    rw [heq]
    exact ⟨rfl, rfl⟩
  | metadata path => exact filesOnly_onDisk h fun ⟨_, heq⟩ => by rw [heq]; exact .refl _
  | cachedBlob contentHash => exact filesOnly_onDisk h fun ⟨_, heq⟩ => by rw [heq]; exact .refl _
  | list path => exact filesOnly_onDisk h fun ⟨_, _, _, heq⟩ => by rw [heq]; exact .refl _
  | createDir path => exact filesOnly_changesTree (f := fun tree => createDirIn tree path) h
  | remove path =>
    refine filesOnly_onDisk h fun h => ?_
    unfold removeStep at h
    split at h
    · rw [h.2]
      exact .refl _
    · rw [h.2]
      exact ⟨rfl, rfl⟩
    · rw [h.2]
      exact .refl _
  | writeTemp parent bytes =>
    refine filesOnly_onDisk h fun h => ?_
    unfold writeTempStep at h
    split at h
    · rw [h.2]
      exact .refl _
    · obtain ⟨_, _, _, _, heq⟩ := h
      rw [heq]
      exact ⟨rfl, rfl⟩
  | rename temp path => exact filesOnly_changesTree (f := fun tree => renameIn tree temp path) h
  | discardTemp temp =>
    obtain ⟨_, rfl | ⟨_, _, rfl⟩⟩ := h
    · exact .refl _
    · exact ⟨rfl, rfl⟩
  | writeBlob contentHash bytes => exact filesOnly_onDisk h fun ⟨_, heq⟩ => by rw [heq]; exact ⟨rfl, rfl⟩
  | saveManifest manifest => exact filesOnly_onDisk h fun ⟨_, heq⟩ => by rw [heq]; exact ⟨rfl, rfl⟩
  | nonce =>
    obtain ⟨_, rfl⟩ := h
    exact .refl _
  | _ => exact ho.elim

/-- A program on the files of the device. -/
abbrev FileCalls {α : Type} (x : Sync α) : Prop := Fallible.Calls Op.OnFiles x

theorem FileCalls.runs {α : Type} {x : Sync α} (hx : FileCalls x) (w : World) :
    Fallible.Runs (sem env) (FilesOnly w) x w fun _ => FilesOnly w :=
  Fallible.Calls.runs (fun _ _ _ _ ho hcall h => h.trans (filesOnly_call ho hcall)) hx (.refl w)

theorem fileCalls_isCached {contentHash : String} : FileCalls (isCached ws contentHash) :=
  Fallible.Calls.op_bind trivial fun _ => Fallible.Calls.pure _

theorem fileCalls_createDirAll : FileCalls (createDirAll path) := by
  unfold createDirAll
  split
  · exact Fallible.Calls.pure _
  · refine Fallible.Calls.forM fun q _ => Fallible.Calls.op_bind trivial fun node => ?_
    rcases node with _ | _ | _ | _
    · exact Fallible.Calls.op trivial
    · exact Fallible.Calls.throw _
    · exact Fallible.Calls.pure _
    · exact Fallible.Calls.throw _

theorem fileCalls_removeNode : FileCalls (removeNode path) := by
  refine Fallible.Calls.op_bind trivial fun removed => ?_
  cases removed with
  | done => exact Fallible.Calls.pure _
  | notEmpty => exact Fallible.Calls.throw _

theorem fileCalls_removeDirAll : FileCalls (removeDirAll path) := by
  refine Fallible.Calls.op_bind trivial fun listing => Fallible.Calls.bind ?_ fun _ => fileCalls_removeNode
  exact Fallible.Calls.forM fun _ _ => fileCalls_removeNode

theorem fileCalls_removePathIfExists : FileCalls (removePathIfExists path) := by
  refine Fallible.Calls.op_bind trivial fun node => ?_
  rcases node with _ | _ | _ | _
  · exact Fallible.Calls.pure _
  · exact fileCalls_removeNode
  · exact fileCalls_removeDirAll
  · exact fileCalls_removeNode

theorem fileCalls_removeEntry : FileCalls (removeEntry m path) := by
  unfold removeEntry
  split
  · exact Fallible.Calls.pure _
  · refine Fallible.Calls.check_bind fun _ => Fallible.Calls.bind ?_ fun metadata => ?_
    · exact Fallible.Calls.attempt (Fallible.Calls.op trivial)
    · split
      · exact Fallible.Calls.op_bind trivial fun _ => Fallible.Calls.pure _
      · exact fileCalls_removePathIfExists

theorem fileCalls_prepareDirectoryPath : FileCalls (prepareDirectoryPath path) := by
  refine Fallible.Calls.op_bind trivial fun node => ?_
  rcases node with _ | _ | _ | _
  · exact fileCalls_createDirAll
  · exact fileCalls_removeNode.bind fun _ => fileCalls_createDirAll
  · exact Fallible.Calls.pure _
  · exact fileCalls_removeNode.bind fun _ => fileCalls_createDirAll

theorem fileCalls_replaceFile {bytes : Bytes} : FileCalls (replaceFile path bytes) := by
  refine Fallible.Calls.op_bind trivial fun metadata => fileCalls_createDirAll.bind fun _ => ?_
  refine Fallible.Calls.op_bind trivial fun temp => Fallible.Calls.onError (Fallible.Calls.op trivial) ?_
  split
  · exact fileCalls_removeDirAll.bind fun _ => Fallible.Calls.op trivial
  · exact Fallible.Calls.op trivial

theorem fileCalls_applyEntry {unchanged : RelPath × ManifestEntry → Bool} {fetched : BTreeMap String Bytes}
    {item : RelPath × ManifestEntry} : FileCalls (applyEntry ws unchanged fetched item) := by
  obtain ⟨path, entry⟩ := item
  cases entry with
  | directory => exact fileCalls_prepareDirectoryPath
  | file file =>
    unfold applyEntry
    dsimp only
    split
    · exact Fallible.Calls.throw _
    · refine Fallible.Calls.bind ?_ fun _ => ?_
      · refine fileCalls_isCached.bind fun cached => ?_
        split
        · exact Fallible.Calls.pure _
        · exact Fallible.Calls.op trivial
      · split
        · exact Fallible.Calls.pure _
        · exact fileCalls_replaceFile

theorem fileCalls_applyPulledManifest {blobSource : String → Except String Bytes} :
    FileCalls (applyPulledManifest ws m blobSource) := by
  refine Fallible.Calls.check_bind fun _ => Fallible.Calls.op_bind trivial fun a => ?_
  refine Fallible.Calls.check_bind fun rules => Fallible.Calls.check_bind fun _ => Fallible.Calls.check_bind
    fun fetched => ?_
  refine Fallible.Calls.bind (Fallible.Calls.forM fun _ _ => fileCalls_removeEntry) fun _ => ?_
  refine Fallible.Calls.bind (Fallible.Calls.forM fun _ _ => fileCalls_applyEntry) fun _ => ?_
  exact Fallible.Calls.op trivial

theorem fileCalls_stageAll : FileCalls (stageAll ws) := by
  refine Fallible.Calls.op_bind trivial fun a => Fallible.Calls.check_bind
    fun _ => Fallible.Calls.check_bind fun next => ?_
  refine Fallible.Calls.bind (Fallible.Calls.forM fun item _ => ?_) fun _ =>
    Fallible.Calls.op_bind trivial fun _ => Fallible.Calls.pure _
  obtain ⟨path, entry⟩ := item
  cases entry with
  | directory => exact Fallible.Calls.pure _
  | file file =>
    refine fileCalls_isCached.bind fun cached => ?_
    split
    · exact Fallible.Calls.pure _
    · split
      · exact Fallible.Calls.op trivial
      · exact Fallible.Calls.throw _

theorem fileCalls_workingTreeStatus : FileCalls (workingTreeStatus ws) :=
  Fallible.Calls.op_bind trivial fun _ => Fallible.Calls.check_bind fun _ => Fallible.Calls.check_bind fun _ =>
    Fallible.Calls.pure _

theorem fileCalls_localBlobBytes : FileCalls (localBlobBytes ws m) :=
  Fallible.Calls.bind (Fallible.Calls.op_bind trivial fun _ => Fallible.Calls.check _) fun _ => Fallible.Calls.pure _

end Files

/-! ### Calls that do not move the head -/

section Publishes

variable {ws : Workspace} {p : Planned} {r : Reconciliation}

/-- A call that moves the head. -/
def Op.Publishes (o : Op) : Prop := ∃ expectedRevision id, o = .updateWorkspaceHead expectedRevision id

/-- A program that does not move the head. -/
abbrev QuietCalls {α : Type} (x : Sync α) : Prop := Fallible.Calls (fun o => ¬ Op.Publishes o) x

/-- A call that changes nothing at the server. -/
def Op.Silent : Op → Prop
  | .uploadBlob .. | .uploadManifest .. | .updateWorkspaceHead .. => False
  | _ => True

/-- A program that changes nothing at the server. -/
abbrev SilentCalls {α : Type} (x : Sync α) : Prop := Fallible.Calls Op.Silent x

theorem FileCalls.silent {α : Type} {x : Sync α} (h : FileCalls x) : SilentCalls x := by
  refine Fallible.Calls.mono (fun o ho => ?_) h
  cases o with
  | uploadBlob | uploadManifest | updateWorkspaceHead => exact ho.elim
  | _ => trivial

theorem SilentCalls.quiet {α : Type} {x : Sync α} (h : SilentCalls x) : QuietCalls x := by
  refine Fallible.Calls.mono ?_ h
  rintro o ho ⟨_, _, rfl⟩
  exact ho

theorem silentCalls_loadRemoteManifest {head : RemoteHead} : SilentCalls (loadRemoteManifest ws head) := by
  unfold loadRemoteManifest
  split
  · exact Fallible.Calls.pure _
  · exact Fallible.Calls.op_bind trivial fun _ => Fallible.Calls.check _

theorem silentCalls_planSync : SilentCalls (planSync ws) := by
  refine fileCalls_workingTreeStatus.silent.bind fun a => Fallible.Calls.bind ?_ fun state => ?_
  · exact Fallible.Calls.op_bind trivial fun _ => Fallible.Calls.pure _
  · refine Fallible.Calls.op_bind trivial fun head => silentCalls_loadRemoteManifest.bind fun remote => ?_
    exact Fallible.Calls.check_bind fun _ => Fallible.Calls.pure _

theorem silentCalls_keepUnchanged : SilentCalls (keepUnchanged ws p) :=
  fileCalls_stageAll.silent.bind fun _ => Fallible.Calls.check_bind fun _ => Fallible.Calls.op trivial

theorem silentCalls_downloadManifestBlobs {m : Manifest} {available : BTreeSet String} :
    SilentCalls (downloadManifestBlobs ws m available) := by
  refine Fallible.Calls.check_bind fun files => Fallible.Calls.foldlM fun blobs file _ => ?_
  unfold downloadFile
  split
  · exact Fallible.Calls.pure _
  · refine Fallible.Calls.bind (Fallible.Calls.foldlM fun contents id _ => ?_) fun contents =>
      Fallible.Calls.check_bind fun _ => Fallible.Calls.pure _
    refine Fallible.Calls.op_bind trivial fun bytes => Fallible.Calls.check_bind fun _ => ?_
    exact Fallible.Calls.check_bind fun _ => Fallible.Calls.check_bind fun _ => Fallible.Calls.pure _

theorem silentCalls_gather : SilentCalls (gather ws p) := by
  refine Fallible.Calls.op_bind trivial fun _ => fileCalls_stageAll.silent.bind fun staged => ?_
  refine Fallible.Calls.check_bind fun _ => fileCalls_localBlobBytes.silent.bind fun locBlobs => ?_
  refine fileCalls_localBlobBytes.silent.bind fun baseBlobs => silentCalls_downloadManifestBlobs.bind fun _ => ?_
  exact Fallible.Calls.pure _

theorem silentCalls_applyCombined {g : Gathered} {out : Combining} : SilentCalls (applyCombined ws p g out) := by
  refine fileCalls_workingTreeStatus.silent.bind fun a => Fallible.Calls.check_bind fun _ => ?_
  exact Fallible.Calls.op_bind trivial fun _ => fileCalls_applyPulledManifest.silent

theorem silentCalls_reconcile : SilentCalls (reconcile ws p) := by
  refine silentCalls_gather.bind fun g => Fallible.Calls.check_bind fun out => ?_
  refine silentCalls_applyCombined.bind fun _ => fileCalls_stageAll.silent.bind fun published => ?_
  exact Fallible.Calls.op_bind trivial fun _ => Fallible.Calls.pure _

theorem silentCalls_announce : SilentCalls (announce p r) :=
  Fallible.Calls.op_bind trivial fun _ => Fallible.Calls.op trivial

theorem silentCalls_finish {pushed : Option PushReport} {retryCount : ℕ} :
    SilentCalls (finish p r pushed retryCount) :=
  Fallible.Calls.op_bind trivial fun _ => Fallible.Calls.pure _

theorem silentCalls_discardLocal : SilentCalls (discardLocal ws) := by
  refine Fallible.Calls.bind ?_ fun pulled => Fallible.Calls.bind ?_ fun state => Fallible.Calls.bind ?_
    fun staged => ?_
  · unfold pullWithMode
    rw [if_neg (by decide)]
    refine fileCalls_workingTreeStatus.silent.bind fun _ => Fallible.Calls.op_bind trivial fun head => ?_
    split
    · exact fileCalls_applyPulledManifest.silent.bind fun _ => Fallible.Calls.pure _
    · refine silentCalls_loadRemoteManifest.bind fun m => silentCalls_downloadManifestBlobs.bind fun blobs => ?_
      refine fileCalls_workingTreeStatus.silent.bind fun _ => Fallible.Calls.check_bind fun _ => ?_
      exact fileCalls_applyPulledManifest.silent.bind fun _ => Fallible.Calls.pure _
  · exact Fallible.Calls.op_bind trivial fun _ => Fallible.Calls.pure _
  · exact Fallible.Calls.op_bind trivial fun _ => Fallible.Calls.check_bind fun _ => Fallible.Calls.check _
  · exact Fallible.Calls.op_bind trivial fun _ => Fallible.Calls.pure _

end Publishes

/-! ### Calls that leave the device alone -/

section Asks

variable {env : Setting} {ws : Workspace} {w t : World} {m : Manifest}

/-- A call that looks at the device, or a request. -/
def Op.Asks : Op → Prop
  | .createDir _ | .remove _ | .writeTemp .. | .rename .. | .discardTemp _ | .writeBlob .. | .saveManifest _
  | .saveSyncState _ => False
  | _ => True

theorem atServer_device {α : Type} {r : SyncResult α} {serve : Remote → SyncResult α → Remote → Prop}
    (h : atServer env w r t serve) : t.device = w.device := by
  obtain ⟨_, _, hdevice, _⟩ := h
  exact hdevice

theorem onDisk_device {α : Type} {r : SyncResult α} {step : Prop} (h : onDisk env w r t step)
    (hstep : step → t.device = w.device) : t.device = w.device := by
  rcases h with h | ⟨_, _, rfl⟩
  · exact hstep h
  · rfl

theorem device_of_asks {o : Op} {r : SyncResult o.Val} (hedits : ¬ env.edits) (ho : o.Asks) (h : sem env o w r t) :
    t.device = w.device := by
  cases o with
  | read =>
    refine onDisk_device h fun ⟨_, _, htree, _, heq, _⟩ => ?_
    rw [heq, htree.resolve_right hedits]
    rfl
  | metadata path => exact onDisk_device h fun ⟨_, heq⟩ => by rw [heq]
  | cachedBlob contentHash => exact onDisk_device h fun ⟨_, heq⟩ => by rw [heq]
  | list path => exact onDisk_device h fun ⟨_, _, _, heq⟩ => by rw [heq]
  | nonce =>
    obtain ⟨_, rfl⟩ := h
    rfl
  | fetchWorkspaceHead =>
    have hserved : atServer env w r t fun now r now' => r = .ok now.head ∧ now' = now := h
    exact atServer_device hserved
  | downloadManifest id => exact atServer_device h
  | downloadBlob id => exact atServer_device h
  | uploadBlob id bytes => exact atServer_device h
  | uploadManifest id bytes => exact atServer_device h
  | updateWorkspaceHead expectedRevision id => exact atServer_device h
  | _ => exact ho.elim

/-- A program that leaves the device alone. -/
abbrev AskCalls {α : Type} (x : Sync α) : Prop := Fallible.Calls Op.Asks x

theorem AskCalls.runs {α : Type} {x : Sync α} (hedits : ¬ env.edits) (hx : AskCalls x) (w : World) :
    Fallible.Runs (sem env) (fun t => t.device = w.device) x w fun _ t => t.device = w.device :=
  Fallible.Calls.runs (I := fun t : World => t.device = w.device)
    (fun _ _ _ _ ho hcall h => (device_of_asks hedits ho hcall).trans h) hx rfl

theorem askCalls_uploadStaged {chunkSize : ℕ} {remoteBlobIds : BTreeMap String (List BlobId)} {blob : StagedBlob} :
    AskCalls (uploadStaged ws chunkSize remoteBlobIds blob) := by
  unfold uploadStaged
  split
  · exact Fallible.Calls.pure _
  · refine Fallible.Calls.bind (Fallible.Calls.foldlM fun ids chunk _ => ?_) fun ids => Fallible.Calls.pure _
    refine Fallible.Calls.op_bind trivial fun nonce => Fallible.Calls.check_bind fun bytes => ?_
    exact Fallible.Calls.check_bind fun id => Fallible.Calls.op_bind trivial fun _ => Fallible.Calls.pure _

theorem askCalls_push {head : RemoteHead} : AskCalls (pushWithExpectedHead ws head m) := by
  refine Fallible.Calls.bind ?_ fun manifest => Fallible.Calls.check_bind fun previous => ?_
  · exact Fallible.Calls.op_bind trivial fun _ => Fallible.Calls.check_bind fun _ => Fallible.Calls.check _
  · refine Fallible.Calls.op_bind trivial fun nonce => Fallible.Calls.check_bind fun frame => ?_
    refine Fallible.Calls.check_bind fun chunkSize => Fallible.Calls.bind ?_ fun blobs => ?_
    · exact Fallible.Calls.op_bind trivial fun _ => Fallible.Calls.check _
    · refine Fallible.Calls.bind (Fallible.Calls.foldlM fun _ _ _ => askCalls_uploadStaged) fun remoteBlobIds => ?_
      refine Fallible.Calls.check_bind fun bytes => Fallible.Calls.op_bind trivial fun nonce => ?_
      refine Fallible.Calls.check_bind fun sealed => Fallible.Calls.check_bind fun manifestId => ?_
      exact Fallible.Calls.op_bind trivial fun _ => Fallible.Calls.op_bind trivial fun _ => Fallible.Calls.pure _

end Asks

end RustSync
