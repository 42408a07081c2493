/-
Staging

What the engine's operations on the folder `.rustsync` come to. The cache only
gets contents under their own hashes and keeps those it has (`CacheStep`), so
what is staged once can be read back. A staging leaves the tree as it found
it, and the staged manifest is what the scan of the tree lists.

Key definitions: `CacheStep`, `Cached`, `Staging`. Key theorems:
`runs_stageAll`, `stagedBlobs_ok`.
-/
import RustSync.Sync.Calls
import RustSync.Sync.Engine

namespace RustSync

section Cache

variable (c : Crypto)

/-- Contents under their hashes stay, and what is new is under its hash. -/
structure CacheStep (cache cache' : BTreeMap String Bytes) : Prop where
  keeps : ∀ (h : String) (b : Bytes), cache[h]? = some b → sha256Hex c b = h → cache'[h]? = some b
  sound : ∀ (h : String) (b : Bytes), cache'[h]? = some b → cache[h]? = some b ∨ sha256Hex c b = h

/-- A content with the hash is at hand. -/
def HoldsHash (cache : BTreeMap String Bytes) (contentHash : String) : Prop :=
  ∃ b : Bytes, cache[contentHash]? = some b ∧ sha256Hex c b = contentHash

/-- The content of every file of the manifest is at hand. -/
def Cached (cache : BTreeMap String Bytes) (m : Manifest) : Prop :=
  ∀ p file, m.get p = some (.file file) → HoldsHash c cache file.contentHash

variable {c} {cache cache' cache'' : BTreeMap String Bytes} {h : String} {b : Bytes}

theorem CacheStep.refl (cache : BTreeMap String Bytes) : CacheStep c cache cache :=
  ⟨fun _ _ hb _ => hb, fun _ _ hb => .inl hb⟩

theorem CacheStep.trans (h : CacheStep c cache cache') (h' : CacheStep c cache' cache'') :
    CacheStep c cache cache'' := by
  refine ⟨fun k b hb hhash => h'.keeps k b (h.keeps k b hb hhash) hhash, fun k b hb => ?_⟩
  rcases h'.sound k b hb with hb' | hhash
  · exact h.sound k b hb'
  · exact .inr hhash

theorem HoldsHash.step (hstep : CacheStep c cache cache') (hh : HoldsHash c cache h) : HoldsHash c cache' h := by
  obtain ⟨b, hb, hhash⟩ := hh
  exact ⟨b, hstep.keeps h b hb hhash, hhash⟩

/-- A content the cache does not hold gets there under its hash. -/
theorem cacheStep_insert (hnot : ∀ b' : Bytes, cache[h]? = some b' → sha256Hex c b' ≠ h) (hb : sha256Hex c b = h) :
    CacheStep c cache (cache.insert h b) ∧ HoldsHash c (cache.insert h b) h := by
  refine ⟨⟨fun k b' hb' hhash => ?_, fun k b' hb' => ?_⟩, ⟨b, by simp, hb⟩⟩
  · have hne : h ≠ k := by
      rintro rfl
      exact hnot b' hb' hhash
    rw [BTreeMap.lookup_insert, if_neg hne]
    exact hb'
  · rw [BTreeMap.lookup_insert] at hb'
    by_cases heq : h = k
    · rw [if_pos heq] at hb'
      cases hb'
      exact .inr (hb.trans heq)
    · rw [if_neg heq] at hb'
      exact .inl hb'

end Cache

/-! ### Staging -/

section Staging

variable {env : Setting} {ws : Workspace} {I : World → Prop} {w : World}

theorem engine_ok {α : Type} {x : LocalResult α} {a : α} : x.mapError SyncError.loc = .ok a ↔ x = .ok a :=
  Except.mapError_ok

theorem runs_isCached {contentHash : String} (hI : I w) :
    Fallible.Runs (sem env) I (isCached ws contentHash) w fun cached t => t = w ∧
      (cached = true ↔ HoldsHash ws.digest w.device.cache contentHash) := by
  refine Fallible.Runs.bind (runs_cachedBlob hI) fun bytes t _ h => ?_
  obtain ⟨rfl, rfl⟩ := h
  refine Fallible.Runs.pure hI ⟨rfl, ?_⟩
  rw [Option.any_eq_true]
  simp only [decide_eq_true_eq]
  rfl

/-- `w` with other contents in the cache. -/
def World.setCache (w : World) (cache : BTreeMap String Bytes) : World :=
  { w with device := { w.device with cache := cache } }

theorem runs_cacheManifestBlob {tree : WorkingTree} {item : RelPath × ManifestEntry}
    (hI : ∀ cache, CacheStep ws.digest w.device.cache cache → I (w.setCache cache))
    (hitem : ∀ file, item.2 = .file file → ∀ content, tree.get item.1 = some (.file content) →
      sha256Hex ws.digest content.bytes = file.contentHash) :
    Fallible.Runs (sem env) I (cacheManifestBlob ws tree item) w fun _ t =>
      ∃ cache, CacheStep ws.digest w.device.cache cache ∧ t = w.setCache cache ∧
        ∀ file, item.2 = .file file → HoldsHash ws.digest cache file.contentHash := by
  have hself : I w := hI _ (.refl _)
  obtain ⟨path, entry⟩ := item
  cases entry with
  | directory => exact Fallible.Runs.pure hself ⟨_, .refl _, rfl, nofun⟩
  | file file =>
    refine Fallible.Runs.bind (runs_isCached hself) fun cached t _ h => ?_
    obtain ⟨rfl, hcached⟩ := h
    by_cases hyes : cached = true
    · rw [if_pos hyes]
      refine Fallible.Runs.pure hself ⟨_, .refl _, rfl, fun file' heq => ?_⟩
      cases heq
      exact hcached.mp hyes
    · rw [if_neg hyes]
      have hnot (b : Bytes) (hb : t.device.cache[file.contentHash]? = some b) :
          sha256Hex ws.digest b ≠ file.contentHash := fun hhash => hyes (hcached.mpr ⟨b, hb, hhash⟩)
      cases hnode : tree.get path with
      | none => exact Fallible.Runs.throw hself
      | some node =>
        cases node with
        | file content =>
          obtain ⟨hstep, hholds⟩ := cacheStep_insert hnot (hitem file rfl content hnode)
          refine (runs_writeBlob hself (hI _ hstep)).weaken (fun _ h => h) fun _ t' _ ht' => ?_
          refine ⟨_, hstep, ht', fun file' heq => ?_⟩
          cases heq
          exact hholds
        | _ => exact Fallible.Runs.throw hself

/-- What a staging of the tree leaves. -/
structure Staging (env : Setting) (ws : Workspace) (w t : World) : Prop where
  tree : t.device.tree = w.device.tree ∨ env.edits
  remote : t.remote = w.remote
  syncState : t.device.syncState = w.device.syncState
  cache : CacheStep ws.digest w.device.cache t.device.cache
  staged : t.device.staged = w.device.staged ∨ ∃ next, t.device.staged = some next ∧
    buildManifest ws.digest ws.ignore ws.workspaceId t.device.tree w.device.staged = .ok next ∧
    Cached ws.digest t.device.cache next

/-- The scan takes the hash of a file from its content. -/
theorem scan_hash {tree : WorkingTree} {staged : Option Manifest} {m : Manifest} {p : RelPath} {file : FileEntry}
    (h : buildManifest ws.digest ws.ignore ws.workspaceId tree staged = .ok m) (hp : m.get p = some (.file file)) :
    ∃ content, tree.get p = some (.file content) ∧ sha256Hex ws.digest content.bytes = file.contentHash ∧
      content.bytes.length = file.size := by
  obtain ⟨rules, hrules, _, _, hget⟩ := scan_get h
  have hscanned : Scanned rules tree p := (scan_lists h hrules).mp (by rw [hp]; simp)
  rw [(hget p).1 hscanned] at hp
  cases hnode : tree.get p with
  | none => simp [hnode] at hp
  | some node =>
    rw [hnode, Option.bind_some] at hp
    cases node with
    | file content =>
      simp only [entryOf, ManifestEntry.ofFile, Option.some.injEq, ManifestEntry.file.injEq] at hp
      subst hp
      exact ⟨content, rfl, rfl, rfl⟩
    | directory => simp [entryOf] at hp
    | other => simp [entryOf] at hp

theorem runs_stageAll (hI : ∀ t, Staging env ws w t → I t) :
    Fallible.Runs (sem env) I (stageAll ws) w fun next t => Staging env ws w t ∧ t.device.staged = some next ∧
      buildManifest ws.digest ws.ignore ws.workspaceId t.device.tree w.device.staged = .ok next ∧
      Cached ws.digest t.device.cache next := by
  -- what is reached before the manifest is saved
  have hreached {tree : WorkingTree} {cache : BTreeMap String Bytes} (hedit : tree = w.device.tree ∨ env.edits)
      (hcache : CacheStep ws.digest w.device.cache cache) : Staging env ws w ((w.setTree tree).setCache cache) :=
    ⟨hedit, rfl, rfl, hcache, .inl rfl⟩
  refine Fallible.Runs.bind (runs_read fun tree hedit => hI _ (hreached hedit (.refl _))) fun a t hIt h => ?_
  obtain ⟨tree, hedit, _, rfl, hdevice⟩ := h
  obtain ⟨device, listing⟩ := a
  cases hdevice
  refine Fallible.Runs.check_bind hIt fun _ _ => Fallible.Runs.check_bind hIt fun next hscan => ?_
  have hscan : buildManifest ws.digest ws.ignore ws.workspaceId tree w.device.staged = .ok next :=
    engine_ok.mp hscan
  let J (done : List (RelPath × ManifestEntry)) (t : World) : Prop :=
    ∃ cache, CacheStep ws.digest w.device.cache cache ∧ t = (w.setTree tree).setCache cache ∧
      ∀ item ∈ done, ∀ file, item.2 = .file file → HoldsHash ws.digest cache file.contentHash
  have hJ (done : List (RelPath × ManifestEntry)) (t : World) (hJ : J done t) : I t := by
    obtain ⟨cache, hcache, rfl, _⟩ := hJ
    exact hI _ (hreached hedit hcache)
  refine Fallible.Runs.bind (Fallible.Runs.forM J (fun done _ t _ => hJ done t) ⟨_, .refl _, rfl, by simp⟩
    fun done item rest t hl ht => ?_) fun _ t hIt ht => ?_
  · obtain ⟨cache, hcache, rfl, hdone⟩ := ht
    refine (runs_cacheManifestBlob (w := (w.setTree tree).setCache cache)
      (fun cache' hstep => hI _ (hreached hedit (hcache.trans hstep)))
      fun file hfile content hcontent => ?_).weaken (fun _ h => h) fun _ t' _ ht' => ?_
    · have hentry : next.get item.1 = some (.file file) := by
        rw [← hfile]
        exact BTreeMap.mem_toList.mp (by rw [hl]; simp)
      obtain ⟨content', hcontent', hhash, _⟩ := scan_hash hscan hentry
      have hsame : some (Node.file content) = some (.file content') := hcontent.symm.trans hcontent'
      cases hsame
      exact hhash
    · obtain ⟨cache', hstep, rfl, hitem⟩ := ht'
      refine ⟨cache', hcache.trans hstep, rfl, fun item' hitem' file hfile => ?_⟩
      rcases List.mem_append.mp hitem' with hin | hin
      · exact (hdone item' hin file hfile).step hstep
      · rw [List.mem_singleton] at hin
        subst hin
        exact hitem file hfile
  · obtain ⟨cache, hcache, rfl, hall⟩ := ht
    have hcached : Cached ws.digest cache next := fun p file hp =>
      hall (p, .file file) (BTreeMap.mem_toList.mpr hp) file rfl
    have hlast : Staging env ws w (((w.setTree tree).setCache cache).setStaged next) :=
      ⟨hedit, rfl, rfl, hcache, .inr ⟨next, rfl, hscan, hcached⟩⟩
    refine Fallible.Runs.bind (runs_saveManifest hIt (hI _ hlast)) fun _ t hIt' ht => ?_
    subst ht
    exact Fallible.Runs.pure hIt' ⟨hlast, rfl, hscan, hcached⟩

/-! ### Looking at the device -/

/-- `w`, with the tree as the user has made it. -/
def Edited (env : Setting) (w t : World) : Prop :=
  ∃ tree, (tree = w.device.tree ∨ env.edits) ∧ t = w.setTree tree

theorem Edited.refl (w : World) : Edited env w w := ⟨_, .inl rfl, rfl⟩

/-- Without edits nothing changes. -/
theorem Edited.eq {t : World} (hedits : ¬ env.edits) (h : Edited env w t) : t = w := by
  obtain ⟨tree, rfl | hedit, rfl⟩ := h
  · rfl
  · exact absurd hedit hedits

theorem runs_look {α : Type} {f : Device × List RelPath → Sync α} {R : α → World → Prop}
    (hI : ∀ t, Edited env w t → I t)
    (hf : ∀ t listing, Edited env w t → listing.Perm t.device.tree.nodes.keys →
      Fallible.Runs (sem env) I (f (t.device, listing)) t R) :
    Fallible.Runs (sem env) I (perform .read >>= f) w R := by
  refine Fallible.Runs.bind (runs_read fun tree hedit => hI _ ⟨tree, hedit, rfl⟩) fun a t _ h => ?_
  obtain ⟨tree, hedit, hperm, rfl, hdevice⟩ := h
  obtain ⟨device, listing⟩ := a
  cases hdevice
  exact hf _ _ ⟨tree, hedit, rfl⟩ hperm

theorem runs_workingTreeStatus (hI : ∀ t, Edited env w t → I t) :
    Fallible.Runs (sem env) I (workingTreeStatus ws) w fun a t => Edited env w t ∧
    scanDevice ws t.device = .ok a.1 := by
  refine runs_look hI fun t listing ht _ => ?_
  refine Fallible.Runs.check_bind (hI t ht) fun current hscan => ?_
  refine Fallible.Runs.check_bind (hI t ht) fun baseline _ => ?_
  exact Fallible.Runs.pure (hI t ht) ⟨ht, engine_ok.mp hscan⟩

theorem runs_loadSyncState (hI : ∀ t, Edited env w t → I t) :
    Fallible.Runs (sem env) I loadSyncState w fun state t => Edited env w t ∧ state = w.device.syncState := by
  refine runs_look hI fun t listing ht _ => Fallible.Runs.pure (hI t ht) ⟨ht, ?_⟩
  obtain ⟨tree, _, rfl⟩ := ht
  rfl

theorem runs_loadStagedManifest (hI : ∀ t, Edited env w t → I t) :
    Fallible.Runs (sem env) I (loadStagedManifest ws) w fun m t =>
      Edited env w t ∧ w.device.staged = some m ∧ m.workspaceId = ws.workspaceId := by
  refine runs_look hI fun t listing ht _ => ?_
  refine Fallible.Runs.check_bind (hI t ht) fun staged hstaged => ?_
  refine Fallible.Runs.check (hI t ht) fun m hm => ?_
  rw [engine_ok, okOr_ok] at hm
  subst hm
  have hload : loadManifestOptional ws t.device = .ok (some m) := engine_ok.mp hstaged
  unfold loadManifestOptional at hload
  obtain ⟨tree, hedit, rfl⟩ := ht
  cases hdevice : w.device.staged with
  | none => simp [World.setTree, hdevice] at hload
  | some staged =>
    simp only [World.setTree, hdevice, Except.bind_unit_ok] at hload
    obtain ⟨hvalid, hsame⟩ := hload
    cases hsame
    exact ⟨⟨tree, hedit, rfl⟩, rfl, require_ok.mp hvalid⟩

/-- The contents of the files of a manifest, by their hashes. -/
structure BlobsOf (c : Crypto) (cache : BTreeMap String Bytes) (m : Manifest) (bytes : BTreeMap String Bytes) :
    Prop where
  has : ∀ p file, m.get p = some (.file file) → bytes[file.contentHash]? ≠ none
  sound : ∀ (h : String) (b : Bytes), bytes[h]? = some b → cache[h]? = some b ∧ sha256Hex c b = h

theorem mapM_ok {α β ε : Type} {f : α → Except ε β} : ∀ {l : List α} {out : List β}, l.mapM f = .ok out →
    (∀ a ∈ l, ∃ b ∈ out, f a = .ok b) ∧ ∀ b ∈ out, ∃ a ∈ l, f a = .ok b
  | [], out, h => by
    cases h
    simp
  | a :: l, out, h => by
    rw [List.mapM_cons] at h
    obtain ⟨b, hb, h⟩ := Except.bind_ok.mp h
    obtain ⟨rest, hrest, h⟩ := Except.bind_ok.mp h
    cases h
    obtain ⟨hto, hfrom⟩ := mapM_ok hrest
    refine ⟨fun x hx => ?_, fun y hy => ?_⟩
    · rcases List.mem_cons.mp hx with rfl | hx
      · exact ⟨b, List.mem_cons_self, hb⟩
      · obtain ⟨y, hy, hxy⟩ := hto x hx
        exact ⟨y, List.mem_cons_of_mem _ hy, hxy⟩
    · rcases List.mem_cons.mp hy with rfl | hy
      · exact ⟨a, List.mem_cons_self, hb⟩
      · obtain ⟨x, hx, hxy⟩ := hfrom y hy
        exact ⟨x, List.mem_cons_of_mem _ hx, hxy⟩

/-- What staged contents are read back. -/
theorem stagedBlobs_ok {cache : BTreeMap String Bytes} {m : Manifest} {blobs : List StagedBlob}
    (h : stagedBlobs ws cache m = .ok blobs) :
    (∀ p file, m.get p = some (.file file) → ∃ blob ∈ blobs, blob.contentHash = file.contentHash) ∧
      ∀ blob ∈ blobs, (∃ p file, m.get p = some (.file file) ∧ file.contentHash = blob.contentHash) ∧
        cache[blob.contentHash]? = some blob.bytes ∧ sha256Hex ws.digest blob.bytes = blob.contentHash := by
  obtain ⟨_, h⟩ := Except.bind_unit_ok.mp h
  obtain ⟨found, hfound, h⟩ := Except.bind_ok.mp h
  cases h
  obtain ⟨hto, hfrom⟩ := mapM_ok hfound
  have hblob {p : RelPath} {file : FileEntry} {blob : Option StagedBlob}
      (h : stagedBlob ws cache (p, .file file) = .ok blob) : ∃ bytes, blob = some ⟨file.contentHash, bytes⟩ ∧
        cache[file.contentHash]? = some bytes ∧ sha256Hex ws.digest bytes = file.contentHash := by
    obtain ⟨bytes, hbytes, h⟩ := Except.bind_ok.mp h
    obtain ⟨hhash, h⟩ := Except.bind_unit_ok.mp h
    cases h
    exact ⟨bytes, rfl, okOr_ok.mp hbytes, require_ok.mp hhash⟩
  refine ⟨fun p file hp => ?_, fun blob hmem => ?_⟩
  · obtain ⟨blob, hmem, hok⟩ := hto (p, .file file) (BTreeMap.mem_toList.mpr hp)
    obtain ⟨bytes, rfl, _⟩ := hblob hok
    exact ⟨⟨file.contentHash, bytes⟩, List.mem_filterMap.mpr ⟨_, hmem, rfl⟩, rfl⟩
  · obtain ⟨found', hmem', heq⟩ := List.mem_filterMap.mp hmem
    obtain ⟨⟨p, entry⟩, hitem, hok⟩ := hfrom found' hmem'
    cases entry with
    | directory =>
      cases hok
      cases heq
    | file file =>
      obtain ⟨bytes, rfl, hcache, hhash⟩ := hblob hok
      cases heq
      exact ⟨⟨p, file, BTreeMap.mem_toList.mp hitem, rfl⟩, hcache, hhash⟩

theorem runs_stagedBlobsForManifest {m : Manifest} (hI : ∀ t, Edited env w t → I t) :
    Fallible.Runs (sem env) I (stagedBlobsForManifest ws m) w fun blobs t =>
      Edited env w t ∧ stagedBlobs ws w.device.cache m = .ok blobs := by
  refine runs_look hI fun t listing ht _ => ?_
  refine Fallible.Runs.check (hI t ht) fun blobs hblobs => ⟨ht, ?_⟩
  obtain ⟨tree, _, rfl⟩ := ht
  exact engine_ok.mp hblobs

end Staging

end RustSync
