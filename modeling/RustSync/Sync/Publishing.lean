/-
Publishing

A push makes the head name what was staged, with references added, and every
device that opens it finds just that (`Moved`). Relied on are the cipher and
the JSON encoder (`Workspace.Ideal`), and that hashes do not collide: an object
that is found under the id of an upload is the object uploaded (`semIntact`).

Key definitions: `Workspace.Ideal`, `semIntact`, `HeadsAre`, `Publishable`,
`Moved`. Key theorems: `serves_sem`, `runs_push`.
-/
import RustSync.Sync.Applicable
import RustSync.Sync.Removals
import RustSync.Sync.Steps

namespace RustSync

/-! ### What is relied on -/

section Intact

/-- What is relied on of the cipher and of the encoder. -/
structure Workspace.Ideal (ws : Workspace) : Prop where
  cipher : ws.sealing.aead.Ideal
  json : ∀ m bytes, ws.toJson m = .ok bytes → ws.fromJson bytes = .ok m

/-- What is stored under the id of an upload is what was uploaded. -/
def Op.Intact (o : Op) (r : Remote) : Prop :=
  match o with
  | .uploadBlob id bytes => ∀ stored, r.blobs id = some stored → stored = bytes
  | .uploadManifest id bytes => ∀ stored, r.manifests id = some stored → stored = bytes
  | _ => True

/-- What calls do where hashes do not collide. -/
def semIntact (env : Setting) (o : Op) (w : World) (r : SyncResult o.Val) (w' : World) : Prop :=
  sem env o w r w' ∧ o.Intact w'.remote

variable {env : Setting} {α : Type} {I : World → Prop} {x : Sync α} {w t : World} {out : Option (SyncResult α)}
  {Q : α → World → Prop}

theorem reaches_intact (h : Fallible.Reaches (semIntact env) x w out t) : Fallible.Reaches (sem env) x w out t :=
  Prog.Reaches.mono (S := Signature.fallible Op.Val SyncError) (fun _ _ _ _ hcall => hcall.1) h

theorem runs_intact (h : Fallible.Runs (sem env) I x w Q) : Fallible.Runs (semIntact env) I x w Q :=
  fun _ _ hrun => h _ _ (reaches_intact hrun)

theorem runs_intact_op {o : Op} {Q : o.Val → World → Prop} (h : Fallible.Runs (sem env) I (perform o) w Q) :
    Fallible.Runs (semIntact env) I (perform o) w fun a t => Q a t ∧ o.Intact t.remote := by
  have hI : I w := h none w (.cut _ _)
  refine Fallible.Runs.op hI fun r t hcall => ?_
  have hrun : Fallible.Reaches (sem env) (perform o) w (some r) t := .call hcall.1 (.done _ _)
  refine ⟨h.anywhere hrun, fun a ha => ⟨?_, hcall.2⟩⟩
  rw [ha] at hrun
  exact h.ok hrun

end Intact

/-! ### What a call leaves at the server -/

section Serving

variable {env : Setting} {o : Op} {w t : World} {now now' : Remote}

theorem grows_addHead {r : Remote} {id : ManifestId} : r.Grows (r.addHead id) :=
  ⟨fun _ _ h => h, fun _ _ h => h, ⟨[id], rfl⟩⟩

/-- What the server becomes as it serves a call. -/
inductive Op.Serves (o : Op) (now : Remote) : Remote → Prop
  | kept : Serves o now now
  | blob {id : BlobId} {bytes : Bytes} (hnone : now.blobs id = none) : Serves o now (now.addBlob id bytes)
  | manifest {id : ManifestId} {bytes : Bytes} (hnone : now.manifests id = none) :
      Serves o now (now.addManifest id bytes)
  | head {expectedRevision : ℕ} {id : ManifestId} (ho : o = .updateWorkspaceHead expectedRevision id)
      (hrevision : now.heads.length = expectedRevision) : Serves o now (now.addHead id)

theorem Op.Serves.grows (h : o.Serves now now') : now.Grows now' := by
  cases h with
  | kept => exact .refl _
  | blob hnone => exact grows_addBlob hnone
  | manifest hnone => exact grows_addManifest hnone
  | head => exact grows_addHead

theorem Op.Serves.heads (h : o.Serves now now') (ho : ¬ o.Publishes) : now'.heads = now.heads := by
  cases h with
  | head hpublishes => exact absurd ⟨_, _, hpublishes⟩ ho
  | _ => rfl

theorem serves_atServer {α : Type} {r : SyncResult α} {f : Remote → SyncResult α → Remote → Prop}
    (hserve : ∀ now r now', f now r now' → o.Serves now now') (h : atServer env w r t f) :
    ∃ now, Remote.Later env w.remote now ∧ o.Serves now t.remote := by
  obtain ⟨now, hnow, _, hserved | ⟨_, _, heq | ⟨r', hserved⟩⟩⟩ := h
  · exact ⟨now, hnow, hserve _ _ _ hserved⟩
  · rw [heq]
    exact ⟨now, hnow, .kept⟩
  · exact ⟨now, hnow, hserve _ _ _ hserved⟩

theorem serves_download {stored : Option Bytes} {r : SyncResult Bytes} (h : serveDownload stored now r now') :
    o.Serves now now' := by
  rw [h.2]
  exact .kept

theorem serves_upload {stored : Option Bytes} {added : Remote} {r : SyncResult Upload}
    (hadded : stored = none → o.Serves now added) (h : serveUpload stored added now r now') : o.Serves now now' := by
  unfold serveUpload at h
  split at h
  · rw [h.2]
    exact .kept
  · rw [h.2]
    exact hadded rfl

/-- **What a call does at the server.** At some later moment it serves the call,
or nothing happens. -/
theorem serves_sem {r : SyncResult o.Val} (h : sem env o w r t) :
    ∃ now, Remote.Later env w.remote now ∧ o.Serves now t.remote := by
  have hfiles (ho : o.OnFiles) : ∃ now, Remote.Later env w.remote now ∧ o.Serves now t.remote := by
    refine ⟨w.remote, .refl _, ?_⟩
    rw [(filesOnly_call ho h).remote]
    exact .kept
  cases o with
  | fetchWorkspaceHead =>
    refine serves_atServer (f := fun now r now' => r = .ok now.head ∧ now' = now) (fun now r now' hserve => ?_) h
    rw [hserve.2]
    exact .kept
  | downloadManifest id =>
    refine serves_atServer (fun _ _ _ hserve => ?_) h
    exact serves_download hserve
  | downloadBlob id =>
    refine serves_atServer (fun _ _ _ hserve => ?_) h
    exact serves_download hserve
  | uploadBlob id bytes =>
    refine serves_atServer (fun _ _ _ hserve => ?_) h
    exact serves_upload .blob hserve
  | uploadManifest id bytes =>
    refine serves_atServer (fun _ _ _ hserve => ?_) h
    exact serves_upload .manifest hserve
  | updateWorkspaceHead expectedRevision id =>
    refine serves_atServer (fun now r now' hserve => ?_) h
    unfold serveUpdate at hserve
    split at hserve
    · rw [hserve.2]
      exact .kept
    · split at hserve
      · rename_i hrevision
        rw [hserve.2]
        exact .head rfl hrevision
      · rw [hserve.2]
        exact .kept
  | saveSyncState state =>
    refine ⟨w.remote, .refl _, ?_⟩
    rcases h with ⟨_, heq⟩ | ⟨_, _, heq⟩
    · rw [heq]
      exact .kept
    · rw [heq]
      exact .kept
  | _ => exact hfiles trivial

/-- What is at the server stays, whatever call is made. -/
theorem grows_sem {r : SyncResult o.Val} (h : sem env o w r t) : w.remote.Grows t.remote := by
  obtain ⟨now, hnow, hserves⟩ := serves_sem h
  exact hnow.grows.trans hserves.grows

/-- Where nobody else publishes, the head stays unless the call moves it. -/
theorem heads_sem {r : SyncResult o.Val} (hothers : ¬ env.others) (ho : ¬ o.Publishes) (h : sem env o w r t) :
    t.remote.heads = w.remote.heads := by
  obtain ⟨now, hnow, hserves⟩ := serves_sem h
  exact (hserves.heads ho).trans (hnow.heads.resolve_left hothers)

end Serving

/-! ### Manifests that may be published -/

section Publishable

variable {ws : Workspace} {m : Manifest} {ids : BTreeMap String (List BlobId)} {p : RelPath} {r r' : Remote}
  {P : Manifest → Prop}

variable (ws) in
/-- A manifest that every device of the workspace takes. -/
structure Publishable (m : Manifest) : Prop where
  workspace : m.workspaceId = ws.workspaceId
  shaped : m.TreeShaped
  valid : PathsValid m

/-- What a scan lists may be published. -/
theorem scan_publishable {tree : WorkingTree} {staged : Option Manifest}
    (h : buildManifest ws.digest ws.ignore ws.workspaceId tree staged = .ok m) : Publishable ws m := by
  obtain ⟨rules, hrules, hworkspace, hfine, _⟩ := scan_get h
  refine ⟨hworkspace, scan_treeShaped h, fun p hp => ?_⟩
  have hvisible := ((scan_lists h hrules).mp hp).visible
  have hinternal : isInternal p = false := by
    have hself := hvisible.2 p (within_self p)
    unfold IgnoreRules.excludes at hself
    exact (Bool.or_eq_false_iff.mp hself).1
  exact validateLocalPath_of_inside (.of_local hvisible.1 hinternal)
    (validateManifestPath_ok.mp (hfine p hvisible).1).2.2.1

theorem get_withRemoteRefs : (m.withRemoteRefs ids).get p = (m.get p).map (withRemoteRefs ids) := by
  unfold Manifest.withRemoteRefs Manifest.get
  exact Std.ExtTreeMap.getElem?_map

theorem shape_withRemoteRefs (e : ManifestEntry) : (withRemoteRefs ids e).shape = e.shape := by
  cases e with
  | directory => rfl
  | file file =>
    unfold withRemoteRefs
    dsimp only
    split <;> rfl

theorem agree_withRemoteRefs (m : Manifest) (ids : BTreeMap String (List BlobId)) : m.Agree (m.withRemoteRefs ids) := by
  intro p
  rw [get_withRemoteRefs, entriesEqual_iff]
  cases m.get p with
  | none => rfl
  | some e => exact congrArg some (shape_withRemoteRefs e).symm

theorem Publishable.withRemoteRefs (h : Publishable ws m) (ids : BTreeMap String (List BlobId)) :
    Publishable ws (m.withRemoteRefs ids) := by
  refine ⟨h.workspace, fun p e hp q hq => ?_, fun p hp => h.valid p ?_⟩
  · rw [get_withRemoteRefs] at hp ⊢
    obtain ⟨e', he', _⟩ := Option.map_eq_some_iff.mp hp
    rw [h.shaped p e' he' q hq]
    rfl
  · rw [get_withRemoteRefs] at hp
    exact fun hnone => hp (by rw [hnone]; rfl)

/-- What is sealed and stored is opened again. -/
theorem openManifest_sealed (hideal : ws.Ideal) (hm : Publishable ws m) {nonce bytes frame : Bytes} {id : ManifestId}
    (hjson : ws.toJson m = .ok bytes) (hseal : ws.sealing.sealBytes nonce bytes = .ok frame)
    (hid : idOfContent manifestIdKind ws.digest frame = .ok id) : openManifest ws id frame = .ok m := by
  have hverify : verifyId ws frame id = .ok () := by
    unfold verifyId
    exact Except.bind_ok.mpr ⟨id, hid, require_ok.mpr rfl⟩
  have hvalid : validatePulledManifest ws m = .ok () :=
    Except.bind_unit_ok.mpr ⟨require_ok.mpr hm.workspace, (validateManifestPaths_ok hm.shaped).mpr hm.valid⟩
  unfold openManifest
  rw [hverify, ws.sealing.openBytes_sealBytes hideal.cipher hseal]
  simp only [Except.mapError, bind, Except.bind, hideal.json m bytes hjson, hvalid]
  rfl

variable (ws) in
/-- The object with the id is there and opens as the manifest. -/
def Named (r : Remote) (id : ManifestId) (m : Manifest) : Prop :=
  ∃ bytes, r.manifests id = some bytes ∧ openManifest ws id bytes = .ok m

theorem Named.grows {id : ManifestId} (h : Named ws r id m) (hgrows : r.Grows r') : Named ws r' id m := by
  obtain ⟨bytes, hbytes, hopen⟩ := h
  exact ⟨bytes, hgrows.manifests id bytes hbytes, hopen⟩

theorem Named.unique {id : ManifestId} {m' : Manifest} (h : Named ws r id m) (h' : Named ws r id m') : m = m' := by
  obtain ⟨bytes, hbytes, hopen⟩ := h
  obtain ⟨bytes', hbytes', hopen'⟩ := h'
  rw [hbytes] at hbytes'
  cases hbytes'
  exact Except.ok.inj (hopen.symm.trans hopen')

variable (ws P) in
/-- Every manifest that the head has named is there, and is as `P` says. -/
def HeadsAre (r : Remote) : Prop :=
  ∀ id ∈ r.heads, ∃ bytes, r.manifests id = some bytes ∧ ∀ m, openManifest ws id bytes = .ok m → P m

theorem HeadsAre.grows (h : HeadsAre ws P r) (hgrows : r.Grows r') (hheads : r'.heads = r.heads) :
    HeadsAre ws P r' := by
  intro id hid
  rw [hheads] at hid
  obtain ⟨bytes, hbytes, hopen⟩ := h id hid
  exact ⟨bytes, hgrows.manifests id bytes hbytes, hopen⟩

theorem HeadsAre.addHead {id : ManifestId} (h : HeadsAre ws P r) (hm : Named ws r id m) (hP : P m) :
    HeadsAre ws P (r.addHead id) := by
  intro id' hid
  rcases List.mem_append.mp hid with hid | hid
  · exact h id' hid
  · rw [List.mem_singleton.mp hid]
    obtain ⟨bytes, hbytes, hopen⟩ := hm
    refine ⟨bytes, hbytes, fun m' hopen' => ?_⟩
    rw [hopen] at hopen'
    cases hopen'
    exact hP

theorem HeadsAre.named {id : ManifestId} (h : HeadsAre ws P r) (hid : id ∈ r.heads) (hm : Named ws r id m) : P m := by
  obtain ⟨bytes, hbytes, hall⟩ := h id hid
  obtain ⟨bytes', hbytes', hopen⟩ := hm
  rw [hbytes] at hbytes'
  cases hbytes'
  exact hall m hopen

/-- What the head names is as `P` says, or nothing is published. -/
theorem HeadsAre.names {now : Remote} (h : HeadsAre ws P r) (hgrows : now.Grows r) (hm : Names ws r now.head m) :
    P m ∨ m = .new ws.workspaceId := by
  unfold Names at hm
  cases hid : now.head.manifestId with
  | none =>
    rw [hid] at hm
    exact .inr hm
  | some id =>
    rw [hid] at hm
    exact .inl (h.named (hgrows.heads.subset (List.mem_of_getLast? hid)) hm)

end Publishable

/-! ### The push -/

section Push

variable {env : Setting} {ws : Workspace} {I : World → Prop} {w t : World} {head : RemoteHead} {m previous : Manifest}
  {P : Manifest → Prop}

/-- What others keep of the server allows uploads. -/
structure Setting.Admits (env : Setting) : Prop where
  blob : ∀ r id bytes, r.blobs id = none → env.server r → env.server (r.addBlob id bytes)
  manifest : ∀ r id bytes, r.manifests id = none → env.server r → env.server (r.addManifest id bytes)

theorem admits_of_grows (h : ∀ r r', r.Grows r' → r'.heads = r.heads → env.server r → env.server r') : env.Admits :=
  ⟨fun _ _ _ hnone => h _ _ (grows_addBlob hnone) rfl, fun _ _ _ hnone => h _ _ (grows_addManifest hnone) rfl⟩

theorem HeadsAre.admits (h : env.server = HeadsAre ws P) : env.Admits := by
  refine admits_of_grows fun r r' hgrows hheads hr => ?_
  rw [h] at hr ⊢
  exact hr.grows hgrows hheads

variable (env ws) in
/-- The head has been moved from the revision that was expected to the manifest
that was staged, with references. -/
structure Moved (w : World) (head : RemoteHead) (m : Manifest) (id : ManifestId)
    (ids : BTreeMap String (List BlobId)) (u t : World) : Prop where
  meanwhile : Meanwhile env w u
  named : Named ws u.remote id (m.withRemoteRefs ids)
  revision : u.remote.heads.length = head.revision
  moved : t = u.setRemote (u.remote.addHead id)

variable (env ws) in
/-- Where a push may be cut short. -/
inductive Pushing (w : World) (head : RemoteHead) (m : Manifest) (t : World) : Prop
  | waiting (h : Meanwhile env w t)
  | moved {id : ManifestId} {ids : BTreeMap String (List BlobId)} {u : World} (h : Moved env ws w head m id ids u t)

theorem Moved.device {id : ManifestId} {ids : BTreeMap String (List BlobId)} {u : World}
    (h : Moved env ws w head m id ids u t) : t.device = u.device := by
  rw [h.moved]
  rfl

theorem runs_uploadStaged (henv : env.Admits) {chunkSize : ℕ} {ids : BTreeMap String (List BlobId)}
    {blob : StagedBlob} (hI : ∀ t, Meanwhile env w t → I t) :
    Fallible.Runs (sem env) I (uploadStaged ws chunkSize ids blob) w fun _ t => Meanwhile env w t := by
  unfold uploadStaged
  by_cases hknown : ids.contains blob.contentHash = true
  · rw [if_pos hknown]
    exact Fallible.Runs.pure (hI w (.refl w)) (.refl w)
  · rw [if_neg hknown]
    refine Fallible.Runs.bind (Fallible.Runs.foldlM (fun _ _ t => Meanwhile env w t) (fun _ _ _ t _ ht => hI t ht)
      (.refl w) fun _ chunk _ ids t _ ht => ?_) fun ids t hIt ht => Fallible.Runs.pure hIt ht
    refine Fallible.Runs.bind (runs_nonce (hI t ht)) fun nonce u hIu hu => ?_
    obtain ⟨rfl, _⟩ := hu
    refine Fallible.Runs.check_bind hIu fun bytes _ => Fallible.Runs.check_bind hIu fun id _ => ?_
    refine Fallible.Runs.bind (runs_uploadBlob (fun now hnow => hI _ (ht.setRemote hnow))
      fun now hnone => henv.blob now id bytes hnone) fun _ v hIv hv => ?_
    obtain ⟨now, stored, hnow, rfl, _⟩ := hv
    exact Fallible.Runs.pure hIv (ht.setRemote hnow)

/-- **What a push comes to.** -/
theorem runs_push (hideal : ws.Ideal) (henv : env.Admits) (hstaged : w.device.staged = some m)
    (hm : Publishable ws m) (hI : ∀ t, Pushing env ws w head m t → I t) :
    Fallible.Runs (semIntact env) I (pushWithExpectedHead ws head previous) w fun report t => ∃ id ids u,
      Moved env ws w head m id ids u t ∧ report = ⟨id, head.revision + 1⟩ := by
  have hwait {t : World} (h : Meanwhile env w t) : I t := hI t (.waiting h)
  refine Fallible.Runs.bind (runs_intact (runs_loadStagedManifest fun t ht => hwait ht.meanwhile))
    fun manifest t hIt h => ?_
  obtain ⟨hlooked, hsame, _⟩ := h
  obtain rfl : m = manifest := Option.some.inj (hstaged.symm.trans hsame)
  have ht : Meanwhile env w t := hlooked.meanwhile
  refine Fallible.Runs.check_bind hIt fun files _ => ?_
  refine Fallible.Runs.bind (runs_intact (runs_nonce hIt)) fun nonce t' hIt' h => ?_
  obtain ⟨rfl, _⟩ := h
  refine Fallible.Runs.check_bind hIt fun frame _ => Fallible.Runs.check_bind hIt fun chunkSize _ => ?_
  refine Fallible.Runs.bind (runs_intact (runs_stagedBlobsForManifest fun u hu => hwait (ht.trans hu.meanwhile)))
    fun blobs u _ h => ?_
  have hu : Meanwhile env w u := ht.trans h.1.meanwhile
  refine Fallible.Runs.bind (runs_intact (Fallible.Runs.foldlM (fun _ _ v => Meanwhile env w v)
    (fun _ _ _ v _ hv => hwait hv) hu fun _ blob _ ids v _ hv => ?_)) fun ids v hIv hv => ?_
  · exact (runs_uploadStaged henv fun x hx => hwait (hv.trans hx)).weaken (fun _ h => h) fun _ x _ hx => hv.trans hx
  · refine Fallible.Runs.check_bind hIv fun bytes hjson => ?_
    refine Fallible.Runs.bind (runs_intact (runs_nonce hIv)) fun nonce v' hIv' h => ?_
    obtain ⟨rfl, _⟩ := h
    refine Fallible.Runs.check_bind hIv fun frame hseal => Fallible.Runs.check_bind hIv fun id hid => ?_
    refine Fallible.Runs.bind (runs_intact_op (runs_uploadManifest (fun now hnow => hwait (hv.setRemote hnow))
      fun now hnone => henv.manifest now id frame hnone)) fun _ x _ h => ?_
    obtain ⟨⟨now, stored, hnow, rfl, hstored⟩, hintact⟩ := h
    obtain rfl : stored = frame := hintact stored hstored
    have hx : Meanwhile env w (v'.setRemote now) := hv.setRemote hnow
    have hnamed : Named ws now id (m.withRemoteRefs ids) :=
      ⟨stored, hstored, openManifest_sealed hideal (hm.withRemoteRefs ids) (Except.mapError_ok.mp hjson)
        (Except.mapError_ok.mp hseal) hid⟩
    have hmoved {last : Remote} (hlast : Remote.Later env now last) (hrevision : last.heads.length = head.revision) :
        Moved env ws w head m id ids ((v'.setRemote now).setRemote last)
          ((v'.setRemote now).setRemote (last.addHead id)) :=
      ⟨hx.setRemote hlast, hnamed.grows hlast.grows, hrevision, rfl⟩
    refine Fallible.Runs.bind (runs_intact (runs_updateWorkspaceHead (fun last hlast => hwait (hx.setRemote hlast))
      fun last hlast _ hrevision => hI _ (.moved (hmoved hlast hrevision)))) fun updated y hIy h => ?_
    obtain ⟨last, hlast, _, hrevision, rfl, rfl⟩ := h
    exact Fallible.Runs.pure hIy ⟨id, ids, _, hmoved hlast hrevision, rfl⟩

end Push

end RustSync
