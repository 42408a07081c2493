/-
The steps of an attempt

What `sync_attempt` may rely on after each of its steps, and what has to hold
for an invariant to stand wherever a step is cut short. Between the steps that
change the device it is `Meanwhile`: the user may edit the tree, the server grows.

Key definitions: `Meanwhile`, `Names`, `PlannedFrom`, `Downloaded`.
-/
import RustSync.Sync.Apply
import RustSync.Sync.Combined
import RustSync.Sync.Effects

namespace RustSync

/-! ### Looking and asking -/

section Meanwhile

/-- The device as it was, but for edits, at a later moment of the server. -/
structure Meanwhile (env : Setting) (w t : World) : Prop where
  tree : t.device.tree = w.device.tree ∨ env.edits
  staged : t.device.staged = w.device.staged
  cache : t.device.cache = w.device.cache
  syncState : t.device.syncState = w.device.syncState
  remote : Remote.Later env w.remote t.remote

variable {env : Setting} {w t u : World}

theorem Meanwhile.refl (w : World) : Meanwhile env w w := ⟨.inl rfl, rfl, rfl, rfl, .refl _⟩

theorem Meanwhile.trans (h : Meanwhile env w t) (h' : Meanwhile env t u) : Meanwhile env w u := by
  refine ⟨?_, h'.staged.trans h.staged, h'.cache.trans h.cache, h'.syncState.trans h.syncState,
    h.remote.trans h'.remote⟩
  rcases h'.tree with heq | hedits
  · rw [heq]
    exact h.tree
  · exact .inr hedits

theorem Edited.meanwhile (h : Edited env w t) : Meanwhile env w t := by
  obtain ⟨tree, hedit, rfl⟩ := h
  exact ⟨hedit, rfl, rfl, rfl, .refl _⟩

theorem Meanwhile.setRemote {now : Remote} (h : Meanwhile env w t) (hnow : Remote.Later env t.remote now) :
    Meanwhile env w (t.setRemote now) := ⟨h.tree, h.staged, h.cache, h.syncState, h.remote.trans hnow⟩

/-- Without edits the device is as it was. -/
theorem Meanwhile.device (h : Meanwhile env w t) (hedits : ¬ env.edits) : t.device = w.device := by
  obtain ⟨htree, hstaged, hcache, hstate, _⟩ := h
  have htree := htree.resolve_right hedits
  cases hw : w.device
  cases ht : t.device
  simp_all

end Meanwhile

/-! ### The remote manifest -/

section Remote

variable {env : Setting} {ws : Workspace} {I : World → Prop} {w : World} {head : RemoteHead} {m : Manifest}
  {r r' : Remote}

variable (ws) in
/-- The head names the manifest, or nothing. -/
def Names (r : Remote) (head : RemoteHead) (m : Manifest) : Prop :=
  match head.manifestId with
  | none => m = .new ws.workspaceId
  | some id => ∃ bytes, r.manifests id = some bytes ∧ openManifest ws id bytes = .ok m

theorem Names.grows (h : Names ws r head m) (hgrows : r.Grows r') : Names ws r' head m := by
  unfold Names at h ⊢
  cases hid : head.manifestId with
  | none =>
    rw [hid] at h
    exact h
  | some id =>
    rw [hid] at h
    obtain ⟨bytes, hbytes, hopen⟩ := h
    exact ⟨bytes, hgrows.manifests id bytes hbytes, hopen⟩

theorem runs_loadRemoteManifest (hI : ∀ t, Meanwhile env w t → I t) :
    Fallible.Runs (sem env) I (loadRemoteManifest ws head) w fun m t => Meanwhile env w t ∧
    Names ws t.remote head m := by
  unfold loadRemoteManifest Names
  cases head.manifestId with
  | none => exact Fallible.Runs.pure (hI w (.refl w)) ⟨.refl w, rfl⟩
  | some id =>
    refine Fallible.Runs.bind (runs_downloadManifest fun now hnow => hI _ ((Meanwhile.refl w).setRemote hnow))
      fun bytes t hIt ht => ?_
    obtain ⟨now, hnow, rfl, hbytes⟩ := ht
    refine Fallible.Runs.check hIt fun m hm => ⟨(Meanwhile.refl w).setRemote hnow, bytes, hbytes, hm⟩

/-! ### Contents of the remote manifest -/

theorem remoteRefs_of_add {blobs blobs' : BTreeMap String (ℕ × List BlobId)} {p : RelPath} {file : FileEntry}
    (h : addRemoteFile blobs (p, .file file) = .ok blobs') : ∃ ids, remoteRefs file = .ok ids ∧
      (∀ previous, blobs[file.contentHash]? = some previous → previous = (file.size, ids)) ∧
      blobs' = blobs.insert file.contentHash (file.size, ids) := by
  obtain ⟨ids, hids, h⟩ := Except.bind_ok.mp h
  obtain ⟨hsame, h⟩ := Except.bind_unit_ok.mp h
  cases h
  refine ⟨ids, hids, fun previous hprevious => ?_, rfl⟩
  have hall := require_ok.mp hsame
  rw [hprevious] at hall
  simpa using hall

/-- The files of the manifest, each content once. -/
structure UniqueFiles (m : Manifest) (files : List RemoteFile) : Prop where
  covers : ∀ p file, m.get p = some (.file file) → ∃ f ∈ files, f.contentHash = file.contentHash ∧ f.size = file.size ∧
    remoteRefs file = .ok f.blobIds
  listed : ∀ f ∈ files, ∃ p file, m.get p = some (.file file) ∧ file.contentHash = f.contentHash ∧
    file.size = f.size ∧ remoteRefs file = .ok f.blobIds

theorem uniqueFiles_ok {files : List RemoteFile} (h : uniqueFileRemoteBlobIds m = .ok files) : UniqueFiles m files := by
  obtain ⟨blobs, hblobs, h⟩ := Except.bind_ok.mp h
  cases h
  have hinv := foldlM_inv (fun (done : List (RelPath × ManifestEntry)) (blobs : BTreeMap String (ℕ × List BlobId)) =>
      (∀ p file, (p, .file file) ∈ done → ∃ ids, blobs[file.contentHash]? = some (file.size, ids) ∧
        remoteRefs file = .ok ids) ∧
      ∀ contentHash size ids, blobs[contentHash]? = some (size, ids) → ∃ p file, (p, .file file) ∈ done ∧
        file.contentHash = contentHash ∧ file.size = size ∧ remoteRefs file = .ok ids) ⟨by simp, by simp⟩ ?_ hblobs
  · obtain ⟨hcovers, hlisted⟩ := hinv
    refine ⟨fun p file hp => ?_, fun f hf => ?_⟩
    · obtain ⟨ids, hids, hrefs⟩ := hcovers p file (BTreeMap.mem_toList.mpr hp)
      exact ⟨⟨file.contentHash, file.size, ids⟩,
        List.mem_map.mpr ⟨(file.contentHash, file.size, ids), BTreeMap.mem_toList.mpr hids, rfl⟩, rfl, rfl, hrefs⟩
    · obtain ⟨⟨contentHash, size, ids⟩, hmem, rfl⟩ := List.mem_map.mp hf
      obtain ⟨p, file, hp, hrest⟩ := hlisted contentHash size ids (BTreeMap.mem_toList.mp hmem)
      exact ⟨p, file, BTreeMap.mem_toList.mp hp, hrest⟩
  · rintro done ⟨path, entry⟩ rest blobs blobs' _ ⟨hcovers, hlisted⟩ hadd
    cases entry with
    | directory =>
      cases hadd
      refine ⟨fun p file hp => hcovers p file (by simpa using hp), fun contentHash size ids hids => ?_⟩
      obtain ⟨p, file, hp, hrest⟩ := hlisted contentHash size ids hids
      exact ⟨p, file, by simp [hp], hrest⟩
    | file added =>
      obtain ⟨ids, hrefs, hsame, rfl⟩ := remoteRefs_of_add hadd
      refine ⟨fun p file hp => ?_, fun contentHash size ids' hids => ?_⟩
      · rw [BTreeMap.lookup_insert]
        rcases List.mem_append.mp hp with hp | hp
        · obtain ⟨ids', hids, hrefs'⟩ := hcovers p file hp
          split
          · -- a content met again
            rename_i heq
            rw [← heq] at hids
            obtain ⟨hsize, rfl⟩ := Prod.mk.inj (hsame _ hids)
            exact ⟨ids', by rw [hsize], hrefs'⟩
          · exact ⟨ids', hids, hrefs'⟩
        · have hsame : file = added := ManifestEntry.file.inj (Prod.mk.inj (List.mem_singleton.mp hp)).2
          rw [hsame, if_pos rfl]
          exact ⟨ids, rfl, hrefs⟩
      · rw [BTreeMap.lookup_insert] at hids
        split at hids
        · rename_i heq
          cases hids
          exact ⟨path, added, by simp, heq, rfl, hrefs⟩
        · obtain ⟨p, file, hp, hrest⟩ := hlisted contentHash size ids' hids
          exact ⟨p, file, by simp [hp], hrest⟩

variable (ws) in
/-- The contents downloaded: those of the manifest that were not at hand. -/
structure Downloaded (m : Manifest) (available : BTreeSet String) (blobs : BTreeMap String Bytes) : Prop where
  has : ∀ p file, m.get p = some (.file file) → file.contentHash ∉ available → blobs[file.contentHash]? ≠ none
  sound : ∀ (h : String) (b : Bytes), blobs[h]? = some b → sha256Hex ws.digest b = h ∧
    ∃ p file, m.get p = some (.file file) ∧ file.contentHash = h ∧ b.length = file.size

theorem runs_downloadChunk {expectedSize : ℕ} {contents : Bytes} {id : BlobId} (hI : ∀ t, Meanwhile env w t → I t) :
    Fallible.Runs (sem env) I (downloadChunk ws expectedSize contents id) w fun _ t => Meanwhile env w t := by
  refine Fallible.Runs.bind (runs_downloadBlob fun now hnow => hI _ ((Meanwhile.refl w).setRemote hnow))
    fun bytes t hIt ht => ?_
  obtain ⟨now, hnow, rfl, _⟩ := ht
  refine Fallible.Runs.check_bind hIt fun _ _ => Fallible.Runs.check_bind hIt fun chunk _ => ?_
  exact Fallible.Runs.check_bind hIt fun _ _ => Fallible.Runs.pure hIt ((Meanwhile.refl w).setRemote hnow)

theorem runs_downloadFile {available : BTreeSet String} {blobs : BTreeMap String Bytes} {file : RemoteFile}
    (hI : ∀ t, Meanwhile env w t → I t) :
    Fallible.Runs (sem env) I (downloadFile ws available blobs file) w fun blobs' t => Meanwhile env w t ∧
      ((file.contentHash ∈ available ∧ blobs' = blobs) ∨ (file.contentHash ∉ available ∧
        ∃ contents : Bytes, contents.length = file.size ∧ sha256Hex ws.digest contents = file.contentHash ∧
          blobs' = blobs.insert file.contentHash contents)) := by
  unfold downloadFile
  by_cases havailable : file.contentHash ∈ available
  · rw [if_pos havailable]
    exact Fallible.Runs.pure (hI w (.refl w)) ⟨.refl w, .inl ⟨havailable, rfl⟩⟩
  · rw [if_neg havailable]
    refine Fallible.Runs.bind
      (Fallible.Runs.foldlM (fun _ _ t => Meanwhile env w t) (fun _ _ _ t _ ht => hI t ht) (.refl w)
      fun _ id _ contents t _ ht => ?_) fun contents t hIt ht => ?_
    · exact (runs_downloadChunk fun u hu => hI u (ht.trans hu)).weaken (fun _ h => h) fun _ u _ hu => ht.trans hu
    · refine Fallible.Runs.check_bind hIt fun _ hfits => Fallible.Runs.pure hIt ⟨ht, .inr ⟨havailable, contents, ?_⟩⟩
      obtain ⟨hsize, hhash⟩ := require_ok.mp hfits
      exact ⟨hsize, hhash, rfl⟩

theorem runs_downloadManifestBlobs {available : BTreeSet String} (hI : ∀ t, Meanwhile env w t → I t) :
    Fallible.Runs (sem env) I (downloadManifestBlobs ws m available) w fun blobs t =>
      Meanwhile env w t ∧ Downloaded ws m available blobs := by
  refine Fallible.Runs.check_bind (hI w (.refl w)) fun files hfiles => ?_
  obtain ⟨hcovers, hlisted⟩ := uniqueFiles_ok hfiles
  refine (Fallible.Runs.foldlM (fun done blobs t => Meanwhile env w t ∧
      (∀ f ∈ done, f.contentHash ∉ available → blobs[f.contentHash]? ≠ none) ∧
      ∀ (h : String) (b : Bytes), blobs[h]? = some b → sha256Hex ws.digest b = h ∧
        ∃ f ∈ files, f.contentHash = h ∧ b.length = f.size) (fun _ _ _ t _ ht => hI t ht.1) ⟨.refl w, by simp, by simp⟩
    fun done file rest blobs t hl ht => ?_).weaken (fun _ h => h) fun blobs t _ ht => ?_
  · obtain ⟨hlater, hhas, hsound⟩ := ht
    refine (runs_downloadFile fun u hu => hI u (hlater.trans hu)).weaken (fun _ h => h) fun blobs' u _ hu => ?_
    obtain ⟨hlater', ⟨havailable, rfl⟩ | ⟨_, contents, hsize, hhash, rfl⟩⟩ := hu
    · refine ⟨hlater.trans hlater', fun f hf hnot => ?_, hsound⟩
      rcases List.mem_append.mp hf with hf | hf
      · exact hhas f hf hnot
      · rw [List.mem_singleton.mp hf] at hnot
        exact absurd havailable hnot
    · refine ⟨hlater.trans hlater', fun f hf hnot => ?_, fun h b hb => ?_⟩
      · rw [BTreeMap.lookup_insert]
        split
        · simp
        · rename_i hne
          rcases List.mem_append.mp hf with hf | hf
          · exact hhas f hf hnot
          · exact absurd (by rw [List.mem_singleton.mp hf]) hne
      · rw [BTreeMap.lookup_insert] at hb
        split at hb
        · rename_i heq
          cases hb
          exact ⟨hhash.trans heq, file, by simp [hl], heq, hsize⟩
        · exact hsound h b hb
  · obtain ⟨hlater, hhas, hsound⟩ := ht
    refine ⟨hlater, fun p file hp hnot => ?_, fun h b hb => ?_⟩
    · obtain ⟨f, hf, hhash, _⟩ := hcovers p file hp
      rw [← hhash] at hnot ⊢
      exact hhas f hf hnot
    · obtain ⟨hhash, f, hf, hfhash, hsize⟩ := hsound h b hb
      obtain ⟨p, file, hp, hsame, hsize', _⟩ := hlisted f hf
      exact ⟨hhash, p, file, hp, hsame.trans hfhash, hsize.trans hsize'.symm⟩

end Remote

/-! ### Planning -/

section Planning

variable {env : Setting} {ws : Workspace} {I : World → Prop} {w t : World} {m : Manifest} {p : Planned}

variable (env ws) in
/-- What an attempt plans from. -/
structure PlannedFrom (w : World) (p : Planned) (t : World) : Prop where
  meanwhile : Meanwhile env w t
  scanned : ∃ tree, (tree = w.device.tree ∨ env.edits) ∧
    buildManifest ws.digest ws.ignore ws.workspaceId tree w.device.staged = .ok p.loc
  state : p.state = w.device.syncState
  head : ∃ now, Remote.Later env w.remote now ∧ Remote.Later env now t.remote ∧ p.head = now.head
  remote : Names ws t.remote p.head p.remote
  base : p.base = p.state.lastSyncedManifest.getD (.new ws.workspaceId)
  plan : planReconciliation p.base p.loc p.remote = .ok p.plan

/-- Without edits the local side is the scan of the tree. -/
theorem PlannedFrom.loc (h : PlannedFrom env ws w p t) (hedits : ¬ env.edits) : scanDevice ws w.device = .ok p.loc := by
  obtain ⟨tree, htree, hscan⟩ := h.scanned
  rw [htree.resolve_right hedits] at hscan
  exact hscan

theorem runs_planSync (hI : ∀ t, Meanwhile env w t → I t) :
    Fallible.Runs (sem env) I (planSync ws) w fun p t => PlannedFrom env ws w p t := by
  refine Fallible.Runs.bind (runs_workingTreeStatus fun t ht => hI t ht.meanwhile) fun a t₁ _ h => ?_
  obtain ⟨⟨tree, hedit, rfl⟩, hscan⟩ := h
  have hlater₁ : Meanwhile env w (w.setTree tree) := Edited.meanwhile ⟨tree, hedit, rfl⟩
  obtain ⟨loc, baseline⟩ := a
  refine Fallible.Runs.bind (runs_loadSyncState fun u hu => hI u (hlater₁.trans hu.meanwhile)) fun state t₂ _ h => ?_
  obtain ⟨hedited, rfl⟩ := h
  have hlater₂ : Meanwhile env w t₂ := hlater₁.trans hedited.meanwhile
  refine Fallible.Runs.bind (runs_fetchWorkspaceHead fun now hnow => hI _ (hlater₂.setRemote hnow))
    fun head t₃ _ h => ?_
  obtain ⟨now, hnow, rfl, rfl⟩ := h
  have hlater₃ : Meanwhile env w (t₂.setRemote now) := hlater₂.setRemote hnow
  refine Fallible.Runs.bind (runs_loadRemoteManifest fun u hu => hI u (hlater₃.trans hu)) fun remote t₄ hIt h => ?_
  obtain ⟨hlater₄, hnames⟩ := h
  refine Fallible.Runs.check_bind hIt fun plan hplan => Fallible.Runs.pure hIt ?_
  exact ⟨hlater₃.trans hlater₄, ⟨tree, hedit, hscan⟩, rfl,
    ⟨now, hlater₂.remote.trans hnow, hlater₄.remote, rfl⟩, hnames, rfl, Except.mapError_ok.mp hplan⟩

/-- The contents of a manifest, as they are read back from the cache. -/
theorem runs_localBlobBytes (hI : ∀ t, Edited env w t → I t) :
    Fallible.Runs (sem env) I (localBlobBytes ws m) w fun bytes t =>
      Edited env w t ∧ BlobsOf ws.digest w.device.cache m bytes := by
  refine Fallible.Runs.bind (runs_stagedBlobsForManifest hI) fun blobs t hIt h => ?_
  obtain ⟨hedited, hblobs⟩ := h
  refine Fallible.Runs.pure hIt ⟨hedited, ?_⟩
  obtain ⟨hcovers, hlisted⟩ := stagedBlobs_ok hblobs
  -- the contents collected so far
  have hcollect : ∀ (l : List StagedBlob) (bytes : BTreeMap String Bytes), (∀ blob ∈ l, blob ∈ blobs) →
      (∀ (h : String) (b : Bytes), bytes[h]? = some b → w.device.cache[h]? = some b ∧ sha256Hex ws.digest b = h) →
        (∀ blob ∈ l, (l.foldl (fun bytes blob => bytes.insert blob.contentHash blob.bytes) bytes)[blob.contentHash]? ≠
          none) ∧ (∀ h : String, bytes[h]? ≠ none →
            (l.foldl (fun bytes blob => bytes.insert blob.contentHash blob.bytes) bytes)[h]? ≠ none) ∧
          ∀ (h : String) (b : Bytes), (l.foldl (fun bytes blob => bytes.insert blob.contentHash blob.bytes)
            bytes)[h]? = some b → w.device.cache[h]? = some b ∧ sha256Hex ws.digest b = h := by
    intro l
    induction l with
    | nil => exact fun bytes _ hbytes => ⟨by simp, fun _ h => h, hbytes⟩
    | cons blob l ih =>
      intro bytes hl hbytes
      have hblob := (hlisted blob (hl blob List.mem_cons_self)).2
      obtain ⟨hhas, hkeep, hsound⟩ := ih (bytes.insert blob.contentHash blob.bytes)
        (fun x hx => hl x (List.mem_cons_of_mem _ hx)) fun h b hb => by
          rw [BTreeMap.lookup_insert] at hb
          split at hb
          · rename_i heq
            cases hb
            rw [← heq]
            exact hblob
          · exact hbytes h b hb
      refine ⟨fun x hx => ?_, fun h hh => hkeep h ?_, hsound⟩
      · rcases List.mem_cons.mp hx with rfl | hx
        · exact hkeep _ (by simp)
        · exact hhas x hx
      · rw [BTreeMap.lookup_insert]
        split
        · simp
        · exact hh
  obtain ⟨hhas, _, hsound⟩ := hcollect blobs ∅ (fun _ h => h) (by simp)
  refine ⟨fun p file hp => ?_, hsound⟩
  obtain ⟨blob, hblob, hhash⟩ := hcovers p file hp
  rw [← hhash]
  exact hhas blob hblob

end Planning

/-! ### Gathering -/

section Gathering

variable {env : Setting} {ws : Workspace} {I : World → Prop} {w t u : World} {p : Planned} {g : Gathered}

/-- The state with which contents are gathered. -/
def Planned.planningState (p : Planned) : SyncState := p.observed.beginPending .planning p.head.revision

variable (env ws p) in
/-- Where gathering may be cut short. -/
structure Gathering (w t : World) : Prop where
  tree : t.device.tree = w.device.tree ∨ env.edits
  staged : t.device.staged = w.device.staged ∨ ∃ next tree, (tree = w.device.tree ∨ env.edits) ∧
    t.device.staged = some next ∧ buildManifest ws.digest ws.ignore ws.workspaceId tree w.device.staged = .ok next
  cache : CacheStep ws.digest w.device.cache t.device.cache
  syncState : t.device.syncState = w.device.syncState ∨ t.device.syncState = p.planningState
  remote : Remote.Later env w.remote t.remote

theorem Gathering.meanwhile (h : Gathering env ws p w t) (h' : Meanwhile env t u) : Gathering env ws p w u := by
  refine ⟨?_, by rw [h'.staged]; exact h.staged, by rw [h'.cache]; exact h.cache,
    by rw [h'.syncState]; exact h.syncState,
    h.remote.trans h'.remote⟩
  rcases h'.tree with heq | hedits
  · rw [heq]
    exact h.tree
  · exact .inr hedits

variable (env ws p) in
/-- What an attempt has gathered. -/
structure GatheredFrom (w : World) (g : Gathered) (t : World) : Prop where
  tree : t.device.tree = w.device.tree ∨ env.edits
  staged : t.device.staged = some g.staged
  scanned : ∃ tree, (tree = w.device.tree ∨ env.edits) ∧
    buildManifest ws.digest ws.ignore ws.workspaceId tree w.device.staged = .ok g.staged
  same : p.loc.Agree g.staged
  cache : CacheStep ws.digest w.device.cache t.device.cache
  cached : Cached ws.digest t.device.cache g.staged
  syncState : t.device.syncState = p.planningState
  locBlobs : BlobsOf ws.digest t.device.cache g.staged g.blobs.loc
  baseBlobs : BlobsOf ws.digest t.device.cache p.base g.blobs.base
  remoteBlobs : Downloaded ws p.remote (BTreeSet.ofList (g.blobs.loc.keys ++ g.blobs.base.keys)) g.blobs.remote
  remote : Remote.Later env w.remote t.remote

/-- Without edits the device has been staged as it was. -/
theorem GatheredFrom.scan (h : GatheredFrom env ws p w g t) (hedits : ¬ env.edits) :
    t.device.tree = w.device.tree ∧ scanDevice ws w.device = .ok g.staged := by
  obtain ⟨tree, htree, hscan⟩ := h.scanned
  rw [htree.resolve_right hedits] at hscan
  exact ⟨h.tree.resolve_right hedits, hscan⟩

theorem ensureUnchanged_ok {expected current : Manifest} :
    ensureUnchanged expected current = .ok () ↔ expected.Agree current := by
  unfold ensureUnchanged
  rw [require_ok, diffManifests_eq_nil]

/-- A staging of the tree, with what it may change besides. -/
theorem runs_stagedTree (hI : ∀ t, Staging env ws w t → I t) :
    Fallible.Runs (sem env) I (stageAll ws) w fun next t => Staging env ws w t ∧ t.device.staged = some next ∧
      (∃ tree, (tree = w.device.tree ∨ env.edits) ∧
        buildManifest ws.digest ws.ignore ws.workspaceId tree w.device.staged = .ok next) ∧
      Cached ws.digest t.device.cache next := by
  refine (runs_stageAll hI).weaken (fun _ h => h) fun next t _ h => ?_
  obtain ⟨hstaging, hstaged, hscan, hcached⟩ := h
  exact ⟨hstaging, hstaged, ⟨_, hstaging.tree, hscan⟩, hcached⟩

theorem runs_gather (hI : ∀ t, Gathering env ws p w t → I t) :
    Fallible.Runs (sem env) I (gather ws p) w fun g t => GatheredFrom env ws p w g t := by
  have hsaved : Gathering env ws p w (w.setSyncState p.planningState) :=
    ⟨.inl rfl, .inl rfl, .refl _, .inr rfl, .refl _⟩
  refine Fallible.Runs.bind (runs_saveSyncState (hI w ⟨.inl rfl, .inl rfl, .refl _, .inl rfl, .refl _⟩) (hI _ hsaved))
    fun _ t _ h => ?_
  subst h
  have hstep {t : World} (h : Staging env ws (w.setSyncState p.planningState) t) : Gathering env ws p w t := by
    refine ⟨h.tree, ?_, h.cache, .inr h.syncState, by rw [h.remote]; exact .refl _⟩
    rcases h.staged with heq | ⟨next, hnext, hscan, _⟩
    · exact .inl heq
    · exact .inr ⟨next, _, h.tree, hnext, hscan⟩
  refine Fallible.Runs.bind (runs_stagedTree fun t ht => hI t (hstep ht)) fun staged t hIt h => ?_
  obtain ⟨hstaging, hstaged, hscan, hcached⟩ := h
  refine Fallible.Runs.check_bind hIt fun _ hsame => ?_
  rw [ensureUnchanged_ok] at hsame
  have hgathering := hstep hstaging
  have hI' {u : World} (hu : Meanwhile env t u) : I u := hI u (hgathering.meanwhile hu)
  refine Fallible.Runs.bind (runs_localBlobBytes fun u hu => hI' hu.meanwhile) fun locBlobs u _ h => ?_
  obtain ⟨hlooked, hloc⟩ := h
  have hlater : Meanwhile env t u := hlooked.meanwhile
  refine Fallible.Runs.bind (runs_localBlobBytes fun v hv => hI' (hlater.trans hv.meanwhile)) fun baseBlobs v _ h => ?_
  obtain ⟨hlooked', hbase⟩ := h
  have hlater' : Meanwhile env t v := hlater.trans hlooked'.meanwhile
  refine Fallible.Runs.bind (runs_downloadManifestBlobs fun v' hv => hI' (hlater'.trans hv))
    fun remoteBlobs v' hIt' h => ?_
  obtain ⟨hdownloading, hdownloaded⟩ := h
  have hlater'' : Meanwhile env t v' := hlater'.trans hdownloading
  have hlast := hgathering.meanwhile hlater''
  refine Fallible.Runs.pure hIt' ⟨hlast.tree, hlater''.staged.trans hstaged, hscan, hsame, hlast.cache, ?_,
    hlater''.syncState.trans hstaging.syncState, ?_, ?_, hdownloaded, hlast.remote⟩
  · rw [hlater''.cache]
    exact hcached
  · rw [hlater''.cache]
    exact hloc
  · rw [hlater''.cache, ← hlater.cache]
    exact hbase

end Gathering

/-! ### The state of the sync while everything is brought together -/

section Reconciling

variable {env : Setting} {ws : Workspace} {I : World → Prop} {w t : World} {p : Planned} {g : Gathered}
    {out : Combining}

/-- The state with which the tree is changed. -/
def Planned.downloadState (p : Planned) (out : Combining) : SyncState :=
  (p.withConflicts out).beginPending .download p.head.revision

/-- The state when the tree has been changed. -/
def Planned.baseState (p : Planned) (out : Combining) : SyncState :=
  (p.withBase out).beginPending .download p.head.revision

theorem GatheredFrom.gathering (h : GatheredFrom env ws p w g t) : Gathering env ws p w t := by
  obtain ⟨tree, htree, hscan⟩ := h.scanned
  exact ⟨h.tree, .inr ⟨_, tree, htree, h.staged, hscan⟩, h.cache, .inr h.syncState, h.remote⟩

/-- Where the invariant is about the state of the sync, it has to hold of the
states that are saved. -/
theorem runs_reconcile_state (hgather : ∀ t, Gathering env ws p w t → I t)
    (hafter : ∀ g u out t, GatheredFrom env ws p w g u → combinePlanned ws p g = .ok out →
      t.device.syncState = p.downloadState out ∨ t.device.syncState = p.baseState out → I t) :
    Fallible.Runs (sem env) I (reconcile ws p) w fun r t =>
      t.device.syncState = p.baseState r.out ∧ ∃ g u, GatheredFrom env ws p w g u ∧
        combinePlanned ws p g = .ok r.out := by
  refine Fallible.Runs.bind (runs_gather hgather) fun g u hIu hg => ?_
  refine Fallible.Runs.check_bind hIu fun out hout => ?_
  have hstate {t : World} (h : t.device.syncState = p.downloadState out) : I t := hafter g u out t hg hout (.inl h)
  refine Fallible.Runs.bind (P := fun _ t => t.device.syncState = p.downloadState out) ?_ fun _ v hIv hv => ?_
  · have hlook {v : World} (hv : Edited env u v) : I v := hgather v (hg.gathering.meanwhile hv.meanwhile)
    refine Fallible.Runs.bind (runs_workingTreeStatus fun v hv => hlook hv) fun a v _ h => ?_
    obtain ⟨hv, _⟩ := h
    refine Fallible.Runs.check_bind (hlook hv) fun _ _ => ?_
    refine Fallible.Runs.bind (runs_saveSyncState (hlook hv) (hstate rfl)) fun _ x _ hx => ?_
    subst hx
    refine (fileCalls_applyPulledManifest.runs _).weaken (fun y hy => hstate hy.syncState) fun _ y _ hy => ?_
    exact hy.syncState
  · have hstep {x : World} (hx : Staging env ws v x) : I x := hstate (hx.syncState.trans hv)
    refine Fallible.Runs.bind (runs_stageAll fun x hx => hstep hx) fun published x _ hx => ?_
    have hbase : I (x.setSyncState (p.baseState out)) := hafter g u out _ hg hout (.inr rfl)
    refine Fallible.Runs.bind (runs_saveSyncState (hstep hx.1) hbase) fun _ y hIy hy => ?_
    subst hy
    exact Fallible.Runs.pure hIy ⟨rfl, g, u, hg, hout⟩

end Reconciling

end RustSync
