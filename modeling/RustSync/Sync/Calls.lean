/-
Rules of the calls

For each call, what a run may rely on after it, and what has to hold for the
invariant to stand wherever the call leads. What happens at the server besides
is only that it grows (`Remote.Later`).
-/
import RustSync.Sync.Device

namespace RustSync

section Calls

variable {env : Setting} {I : World → Prop} {w : World}

theorem Remote.Later.refl (r : Remote) : Remote.Later env r r := ⟨.refl r, .inr rfl, id⟩

theorem Remote.Later.trans {r r' r'' : Remote} (h : Remote.Later env r r') (h' : Remote.Later env r' r'') :
    Remote.Later env r r'' := by
  refine ⟨h.grows.trans h'.grows, ?_, fun hr => h'.server (h.server hr)⟩
  rcases h.heads with hothers | hheads
  · exact .inl hothers
  · rcases h'.heads with hothers | hheads'
    · exact .inl hothers
    · exact .inr (hheads'.trans hheads)

/-! ### On the device -/

theorem runs_onDisk {o : Op} {step : SyncResult o.Val → World → Prop} {Q : o.Val → World → Prop} (hI : I w)
    (hsem : ∀ r t, sem env o w r t → onDisk env w r t (step r t))
    (hstep : ∀ r t, step r t → I t ∧ ∀ a, r = .ok a → Q a t) : Fallible.Runs (sem env) I (perform o) w Q := by
  refine Fallible.Runs.op hI fun r t hcall => ?_
  rcases hsem r t hcall with h | ⟨_, ⟨text, hr⟩, rfl⟩
  · exact hstep r t h
  · exact ⟨hI, fun a ha => by rw [hr] at ha; cases ha⟩

/-- An operation that looks at the device sees what the user has made of the
tree. -/
theorem runs_read (hI : ∀ tree, tree = w.device.tree ∨ env.edits → I (w.setTree tree)) :
    Fallible.Runs (sem env) I (perform .read) w fun a t => ∃ tree, (tree = w.device.tree ∨ env.edits) ∧
      a.2.Perm tree.nodes.keys ∧ t = w.setTree tree ∧ a.1 = t.device := by
  have hself : I w := hI w.device.tree (.inl rfl)
  refine runs_onDisk hself (fun _ _ h => h) fun r t h => ?_
  obtain ⟨tree, listing, hedit, hperm, rfl, rfl⟩ := h
  refine ⟨hI tree hedit, fun a ha => ?_⟩
  cases ha
  exact ⟨tree, hedit, hperm, rfl, rfl⟩

theorem runs_metadata {path : RelPath} (hI : I w) : Fallible.Runs (sem env) I (perform (.metadata path)) w
    fun a t => t = w ∧ stat w.device.tree path = .ok a := by
  refine runs_onDisk hI (fun _ _ h => h) fun r t h => ?_
  obtain ⟨rfl, rfl⟩ := h
  exact ⟨hI, fun a ha => ⟨rfl, Except.mapError_ok.mp ha⟩⟩

theorem runs_cachedBlob {contentHash : String} (hI : I w) :
    Fallible.Runs (sem env) I (perform (.cachedBlob contentHash)) w
      fun a t => t = w ∧ a = w.device.cache[contentHash]? := by
  refine runs_onDisk hI (fun _ _ h => h) fun r t h => ?_
  obtain ⟨rfl, rfl⟩ := h
  refine ⟨hI, fun a ha => ?_⟩
  cases ha
  exact ⟨rfl, rfl⟩

theorem runs_list {path : RelPath} (hI : I w) :
    Fallible.Runs (sem env) I (perform (.list path)) w fun a t => t = w ∧ Listing w path a := by
  refine runs_onDisk hI (fun _ _ h => h) fun r t h => ?_
  obtain ⟨listing, hlisting, rfl, rfl⟩ := h
  refine ⟨hI, fun a ha => ?_⟩
  cases ha
  exact ⟨rfl, hlisting⟩

theorem runs_createDir {path : RelPath} (hI : I w)
    (hI' : ∀ tree, createDirIn w.device.tree path = some tree → I (w.setTree tree)) :
    Fallible.Runs (sem env) I (perform (.createDir path)) w
      fun _ t => ∃ tree, createDirIn w.device.tree path = some tree ∧ t = w.setTree tree := by
  refine runs_onDisk hI (fun _ _ h => h.elim .inl .inr) fun r t h => ?_
  split at h
  · rename_i tree htree
    obtain ⟨rfl, rfl⟩ := h
    exact ⟨hI' tree htree, fun _ _ => ⟨tree, htree, rfl⟩⟩
  · obtain ⟨⟨text, rfl⟩, rfl⟩ := h
    exact ⟨hI, fun a ha => by cases ha⟩

theorem runs_rename {temp path : RelPath} (hI : I w)
    (hI' : ∀ tree, renameIn w.device.tree temp path = some tree → I (w.setTree tree)) :
    Fallible.Runs (sem env) I (perform (.rename temp path)) w
      fun _ t => ∃ tree, renameIn w.device.tree temp path = some tree ∧ t = w.setTree tree := by
  refine runs_onDisk hI (fun _ _ h => h.elim .inl .inr) fun r t h => ?_
  split at h
  · rename_i tree htree
    obtain ⟨rfl, rfl⟩ := h
    exact ⟨hI' tree htree, fun _ _ => ⟨tree, htree, rfl⟩⟩
  · obtain ⟨⟨text, rfl⟩, rfl⟩ := h
    exact ⟨hI, fun a ha => by cases ha⟩

/-- Something was there, and is gone or has something beneath it. -/
theorem runs_remove {path : RelPath} (hI : I w)
    (hI' : ∀ tree, w.device.tree.remove path = some tree → I (w.setTree tree)) :
    Fallible.Runs (sem env) I (perform (.remove path)) w fun a t => w.device.tree.get path ≠ none ∧
      ((a = .done ∧ ∃ tree, w.device.tree.remove path = some tree ∧ t = w.setTree tree) ∨
        (a = .notEmpty ∧ w.device.tree.remove path = none ∧ t = w)) := by
  refine runs_onDisk hI (fun _ _ h => h) fun r t h => ?_
  unfold removeStep at h
  split at h
  · obtain ⟨⟨text, rfl⟩, rfl⟩ := h
    exact ⟨hI, fun a ha => by cases ha⟩
  · rename_i hnode htree
    obtain ⟨rfl, rfl⟩ := h
    refine ⟨hI' _ htree, fun a ha => ⟨by rw [hnode]; simp, ?_⟩⟩
    cases ha
    exact .inl ⟨rfl, _, htree, rfl⟩
  · rename_i hnode hnone
    obtain ⟨rfl, rfl⟩ := h
    refine ⟨hI, fun a ha => ⟨by rw [hnode]; simp, ?_⟩⟩
    cases ha
    exact .inr ⟨rfl, hnone, rfl⟩

theorem runs_writeTemp {parent : RelPath} {bytes : Bytes} (hI : I w)
    (hI' : ∀ temp tree, FreshTemp w parent bytes temp tree → I (w.setTree tree)) :
    Fallible.Runs (sem env) I (perform (.writeTemp parent bytes)) w
      fun temp t => ∃ tree, FreshTemp w parent bytes temp tree ∧ t = w.setTree tree := by
  refine runs_onDisk hI (fun _ _ h => h) fun r t h => ?_
  unfold writeTempStep at h
  split at h
  · obtain ⟨⟨text, rfl⟩, rfl⟩ := h
    exact ⟨hI, fun a ha => by cases ha⟩
  · obtain ⟨temp, tree, htemp, rfl, rfl⟩ := h
    refine ⟨hI' temp tree htemp, fun a ha => ?_⟩
    cases ha
    exact ⟨tree, htemp, rfl⟩

theorem runs_discardTemp {temp : RelPath} (hI : I w)
    (hI' : ∀ tree, w.device.tree.remove temp = some tree → I (w.setTree tree)) :
    Fallible.Runs (sem env) I (perform (.discardTemp temp)) w fun _ => I := by
  refine Fallible.Runs.op hI fun r t h => ?_
  obtain ⟨rfl, rfl | ⟨tree, htree, rfl⟩⟩ := h
  · exact ⟨hI, fun _ _ => hI⟩
  · exact ⟨hI' tree htree, fun _ _ => hI' tree htree⟩

theorem runs_writeBlob {contentHash : String} {bytes : Bytes} (hI : I w) (hI' : I (w.addBlob contentHash bytes)) :
    Fallible.Runs (sem env) I (perform (.writeBlob contentHash bytes)) w
      fun _ t => t = w.addBlob contentHash bytes := by
  refine runs_onDisk hI (fun _ _ h => h) fun r t h => ?_
  obtain ⟨rfl, rfl⟩ := h
  exact ⟨hI', fun _ _ => rfl⟩

theorem runs_saveManifest {m : Manifest} (hI : I w) (hI' : I (w.setStaged m)) :
    Fallible.Runs (sem env) I (perform (.saveManifest m)) w fun _ t => t = w.setStaged m := by
  refine runs_onDisk hI (fun _ _ h => h) fun r t h => ?_
  obtain ⟨rfl, rfl⟩ := h
  exact ⟨hI', fun _ _ => rfl⟩

theorem runs_saveSyncState {state : SyncState} (hI : I w) (hI' : I (w.setSyncState state)) :
    Fallible.Runs (sem env) I (perform (.saveSyncState state)) w fun _ t => t = w.setSyncState state := by
  refine runs_onDisk hI (fun _ _ h => h) fun r t h => ?_
  obtain ⟨rfl, rfl⟩ := h
  exact ⟨hI', fun _ _ => rfl⟩

theorem runs_nonce (hI : I w) :
    Fallible.Runs (sem env) I (perform .nonce) w fun bytes t => t = w ∧ List.length bytes = nonceSize := by
  refine Fallible.Runs.op hI fun r t h => ?_
  obtain ⟨⟨bytes, hlength, rfl⟩, rfl⟩ := h
  refine ⟨hI, fun a ha => ?_⟩
  cases ha
  exact ⟨rfl, hlength⟩

/-! ### At the server -/

/-- A request that leaves the server as it serves it from a later moment. -/
theorem runs_atServer {o : Op} {serve : Remote → SyncResult o.Val → Remote → Prop} {Q : o.Val → World → Prop}
    (hsem : ∀ r t, sem env o w r t → atServer env w r t serve)
    (hI : ∀ now, Remote.Later env w.remote now → I (w.setRemote now))
    (hserve : ∀ now, Remote.Later env w.remote now → ∀ r now', serve now r now' → I (w.setRemote now') ∧
      ∀ a, r = .ok a → Q a (w.setRemote now')) : Fallible.Runs (sem env) I (perform o) w Q := by
  refine Fallible.Runs.op (hI _ (.refl _)) fun r t hcall => ?_
  obtain ⟨now, hnow, hdevice, hserved⟩ := hsem r t hcall
  have ht : t = w.setRemote t.remote := by
    cases t
    cases hdevice
    rfl
  rcases hserved with hserved | ⟨_, ⟨error, rfl⟩, hfailed⟩
  · rw [ht]
    exact hserve now hnow r t.remote hserved
  · rcases hfailed with hnothing | ⟨r', hserved⟩
    · rw [ht, hnothing]
      exact ⟨hI now hnow, fun a ha => by cases ha⟩
    · rw [ht]
      exact ⟨(hserve now hnow r' t.remote hserved).1, fun a ha => by cases ha⟩

theorem runs_fetchWorkspaceHead (hI : ∀ now, Remote.Later env w.remote now → I (w.setRemote now)) :
    Fallible.Runs (sem env) I (perform .fetchWorkspaceHead) w
      fun head t => ∃ now, Remote.Later env w.remote now ∧ t = w.setRemote now ∧ head = now.head := by
  have hsem (r : SyncResult RemoteHead) (t : World) (h : sem env .fetchWorkspaceHead w r t) :
      atServer env w r t fun now r now' => r = .ok now.head ∧ now' = now := h
  refine runs_atServer hsem hI fun now hnow r now' h => ?_
  obtain ⟨rfl, rfl⟩ := h
  refine ⟨hI _ hnow, fun a ha => ?_⟩
  cases ha
  exact ⟨now', hnow, rfl, rfl⟩

theorem serveDownload_ok {stored : Option Bytes} {now now' : Remote} {r : SyncResult Bytes}
    (h : serveDownload stored now r now') : now' = now ∧ ∀ bytes, r = .ok bytes → stored = some bytes := by
  obtain ⟨hr, rfl⟩ := h
  refine ⟨rfl, fun bytes hok => ?_⟩
  split at hr
  · rw [hok] at hr
    cases hr
    rfl
  · obtain ⟨text, htext⟩ := hr
    rw [htext] at hok
    cases hok

theorem runs_downloadManifest {id : ManifestId} (hI : ∀ now, Remote.Later env w.remote now → I (w.setRemote now)) :
    Fallible.Runs (sem env) I (perform (.downloadManifest id)) w fun bytes t => ∃ now, Remote.Later env w.remote now ∧
      t = w.setRemote now ∧ now.manifests id = some bytes := by
  refine runs_atServer (fun _ _ h => h) hI fun now hnow r now' h => ?_
  obtain ⟨rfl, hbytes⟩ := serveDownload_ok h
  exact ⟨hI _ hnow, fun a ha => ⟨_, hnow, rfl, hbytes a ha⟩⟩

theorem runs_downloadBlob {id : BlobId} (hI : ∀ now, Remote.Later env w.remote now → I (w.setRemote now)) :
    Fallible.Runs (sem env) I (perform (.downloadBlob id)) w fun bytes t => ∃ now, Remote.Later env w.remote now ∧
      t = w.setRemote now ∧ now.blobs id = some bytes := by
  refine runs_atServer (fun _ _ h => h) hI fun now hnow r now' h => ?_
  obtain ⟨rfl, hbytes⟩ := serveDownload_ok h
  exact ⟨hI _ hnow, fun a ha => ⟨_, hnow, rfl, hbytes a ha⟩⟩

theorem grows_addBlob {now : Remote} {id : BlobId} {bytes : Bytes} (h : now.blobs id = none) :
    now.Grows (now.addBlob id bytes) := by
  refine ⟨fun id' b hb => ?_, fun _ _ h => h, List.prefix_rfl⟩
  have hne : id' ≠ id := by
    rintro rfl
    rw [h] at hb
    cases hb
  exact (Function.update_of_ne hne _ _).trans hb

theorem grows_addManifest {now : Remote} {id : ManifestId} {bytes : Bytes} (h : now.manifests id = none) :
    now.Grows (now.addManifest id bytes) := by
  refine ⟨fun _ _ h => h, fun id' b hb => ?_, List.prefix_rfl⟩
  have hne : id' ≠ id := by
    rintro rfl
    rw [h] at hb
    cases hb
  exact (Function.update_of_ne hne _ _).trans hb

/-- After an upload the object is there. -/
theorem runs_uploadBlob {id : BlobId} {bytes : Bytes} (hI : ∀ now, Remote.Later env w.remote now → I (w.setRemote now))
    (hserver : ∀ now, now.blobs id = none → env.server now → env.server (now.addBlob id bytes)) :
    Fallible.Runs (sem env) I (perform (.uploadBlob id bytes)) w fun _ t => ∃ now stored,
      Remote.Later env w.remote now ∧
      t = w.setRemote now ∧ now.blobs id = some stored := by
  refine runs_atServer (fun _ _ h => h) hI fun now hnow r now' h => ?_
  unfold serveUpload at h
  split at h
  · rename_i stored hstored
    rw [h.2]
    exact ⟨hI now hnow, fun _ _ => ⟨now, stored, hnow, rfl, hstored⟩⟩
  · rename_i hnone
    have hlater : Remote.Later env w.remote (now.addBlob id bytes) :=
      hnow.trans ⟨grows_addBlob hnone, .inr rfl, hserver now hnone⟩
    rw [h.2]
    exact ⟨hI _ hlater, fun _ _ => ⟨_, bytes, hlater, rfl, Function.update_self _ _ _⟩⟩

theorem runs_uploadManifest {id : ManifestId} {bytes : Bytes}
    (hI : ∀ now, Remote.Later env w.remote now → I (w.setRemote now))
    (hserver : ∀ now, now.manifests id = none → env.server now → env.server (now.addManifest id bytes)) :
    Fallible.Runs (sem env) I (perform (.uploadManifest id bytes)) w fun _ t => ∃ now stored,
      Remote.Later env w.remote now ∧ t = w.setRemote now ∧ now.manifests id = some stored := by
  refine runs_atServer (fun _ _ h => h) hI fun now hnow r now' h => ?_
  unfold serveUpload at h
  split at h
  · rename_i stored hstored
    rw [h.2]
    exact ⟨hI now hnow, fun _ _ => ⟨now, stored, hnow, rfl, hstored⟩⟩
  · rename_i hnone
    have hlater : Remote.Later env w.remote (now.addManifest id bytes) :=
      hnow.trans ⟨grows_addManifest hnone, .inr rfl, hserver now hnone⟩
    rw [h.2]
    exact ⟨hI _ hlater, fun _ _ => ⟨_, bytes, hlater, rfl, Function.update_self _ _ _⟩⟩

/-- The head moved, from the revision that was expected. -/
theorem runs_updateWorkspaceHead {expectedRevision : ℕ} {id : ManifestId}
    (hI : ∀ now, Remote.Later env w.remote now → I (w.setRemote now))
    (hmoved : ∀ now, Remote.Later env w.remote now → now.manifests id ≠ none → now.heads.length = expectedRevision →
      I (w.setRemote (now.addHead id))) :
    Fallible.Runs (sem env) I (perform (.updateWorkspaceHead expectedRevision id)) w fun head t =>
      ∃ now, Remote.Later env w.remote now ∧ now.manifests id ≠ none ∧ now.heads.length = expectedRevision ∧
        head = ⟨expectedRevision + 1, some id⟩ ∧ t = w.setRemote (now.addHead id) := by
  refine runs_atServer (fun _ _ h => h) hI fun now hnow r now' h => ?_
  unfold serveUpdate at h
  split at h
  · obtain ⟨⟨text, rfl⟩, rfl⟩ := h
    exact ⟨hI _ hnow, fun a ha => by cases ha⟩
  · rename_i hstored
    split at h
    · rename_i hrevision
      obtain ⟨rfl, rfl⟩ := h
      refine ⟨hmoved now hnow hstored hrevision, fun a ha => ?_⟩
      cases ha
      exact ⟨now, hnow, hstored, hrevision, by rw [hrevision], rfl⟩
    · obtain ⟨rfl, rfl⟩ := h
      exact ⟨hI _ hnow, fun a ha => by cases ha⟩

end Calls

end RustSync
