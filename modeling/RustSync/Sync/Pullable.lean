/-
What is published can be pulled

A content is pulled from the objects that a manifest refers to, in their order
(`Restores`). A manifest can be pulled when each of its files names objects that
are there, whose contents have the size and the hash listed (`Pullable`): then a
download fails only where a request does (`guarded_downloadManifestBlobs`). A
push of what was scanned keeps all that the head has named that way, whether it
seals a content or refers to objects the previous manifest named
(`guarded_push`). Relied on is that contents with one hash are of one size
(`World.Distinct`).

Key definitions: `Restores`, `Pullable`, `HeadsPullable`, `World.Distinct`.
-/
import RustSync.Sync.Publishing
import RustSync.Sync.Quiet

namespace RustSync

/-! ### Contents that are there -/

section Restores

variable {env : Setting} {ws : Workspace} {w t : World} {r r' : Remote} {id : BlobId} {ids : List BlobId}
  {chunk contents : Bytes}

variable (ws) in
/-- The object is there, and opens to the chunk. -/
def OpensTo (r : Remote) (id : BlobId) (chunk : Bytes) : Prop :=
  ∃ bytes, r.blobs id = some bytes ∧ verifyId ws bytes id = .ok () ∧ ws.sealing.openBytes bytes = .ok chunk

variable (ws) in
/-- The objects are there, and open to the content. -/
inductive Restores (r : Remote) : List BlobId → Bytes → Prop
  | nil : Restores r [] []
  | cons {id : BlobId} {ids : List BlobId} {chunk rest : Bytes} (hid : OpensTo ws r id chunk)
      (hrest : Restores r ids rest) :
      Restores r (id :: ids) (chunk ++ rest)

theorem OpensTo.grows (h : OpensTo ws r id chunk) (hgrows : r.Grows r') : OpensTo ws r' id chunk := by
  obtain ⟨bytes, hbytes, hopens⟩ := h
  exact ⟨bytes, hgrows.blobs id bytes hbytes, hopens⟩

theorem Restores.grows (h : Restores ws r ids contents) (hgrows : r.Grows r') : Restores ws r' ids contents := by
  induction h with
  | nil => exact .nil
  | cons hid _ ih => exact .cons (hid.grows hgrows) ih

/-- One more object restores one more chunk. -/
theorem Restores.snoc (h : Restores ws r ids contents) (hid : OpensTo ws r id chunk) :
    Restores ws r (ids ++ [id]) (contents ++ chunk) := by
  induction h with
  | nil =>
    have hone : Restores ws r [id] (chunk ++ []) := .cons hid .nil
    simpa using hone
  | cons hfirst _ ih =>
    rw [List.append_assoc]
    exact .cons hfirst ih

/-- No object that is opened is longer than objects may be. -/
theorem OpensTo.length (h : OpensTo ws r id chunk) : ∃ bytes, r.blobs id = some bytes ∧
    bytes.length ≤ maxEncryptedObjectBytes := by
  obtain ⟨bytes, hbytes, _, hopen⟩ := h
  obtain ⟨object, hframe, _⟩ := Except.bind_ok.mp hopen
  refine ⟨bytes, hbytes, ?_⟩
  exact (fromBinaryBytes_ok.mp (fromRemoteBytes_eq.mp (Except.mapError_ok.mp hframe))).size

theorem Restores.stored (h : Restores ws r ids contents) (hid : id ∈ ids) : ∃ bytes, r.blobs id = some bytes ∧
    bytes.length ≤ maxEncryptedObjectBytes := by
  induction h with
  | nil => cases hid
  | cons hfirst _ ih =>
    rcases List.mem_cons.mp hid with rfl | hrest
    · exact hfirst.length
    · exact ih hrest

variable (ws) in
/-- The file can be pulled. -/
structure Fetchable (r : Remote) (file : RemoteFile) : Prop where
  ids : file.blobIds ≠ []
  contents : ∃ contents, Restores ws r file.blobIds contents ∧ contents.length = file.size ∧
    sha256Hex ws.digest contents = file.contentHash

theorem Fetchable.grows {file : RemoteFile} (h : Fetchable ws r file) (hgrows : r.Grows r') : Fetchable ws r' file := by
  obtain ⟨hids, contents, hrestores, hcontents⟩ := h
  exact ⟨hids, contents, hrestores.grows hgrows, hcontents⟩

variable (ws) in
/-- Every file of the manifest can be pulled. -/
def Pullable (r : Remote) (m : Manifest) : Prop :=
  ∃ files, uniqueFileRemoteBlobIds m = .ok files ∧ ∀ file ∈ files, Fetchable ws r file

theorem Pullable.grows {m : Manifest} (h : Pullable ws r m) (hgrows : r.Grows r') : Pullable ws r' m := by
  obtain ⟨files, hfiles, hkept⟩ := h
  exact ⟨files, hfiles, fun file hfile => (hkept file hfile).grows hgrows⟩

variable (ws) in
/-- All that the head has named can be pulled. -/
def HeadsPullable (r : Remote) : Prop := ∀ id ∈ r.heads, ∃ m, Named ws r id m ∧ Pullable ws r m

theorem HeadsPullable.grows (h : HeadsPullable ws r) (hgrows : r.Grows r') (hheads : r'.heads = r.heads) :
    HeadsPullable ws r' := by
  intro id hid
  rw [hheads] at hid
  obtain ⟨m, hm, hpull⟩ := h id hid
  exact ⟨m, hm.grows hgrows, hpull.grows hgrows⟩

end Restores

/-! ### Downloading -/

section Download

variable {env : Setting} {ws : Workspace} {w t : World} {m : Manifest} {id : BlobId} {ids : List BlobId}
  {chunk contents start : Bytes} {size : ℕ}

/-- A request for what is there fails only where requests do. -/
theorem guarded_served {o : Op} {serve : Remote → SyncResult o.Val → Remote → Prop} {a : o.Val}
    (hsem : ∀ r t, sem env o w r t → atServer env w r t serve)
    (hserve : ∀ now, Remote.Later env w.remote now → ∀ r now', serve now r now' → now' = now ∧ r = .ok a) :
    Fallible.Guarded (sem env) (fun _ _ => True) (fun _ => env.remoteFails) (perform o) w
      fun b t => b = a ∧ Meanwhile env w t := by
  refine Fallible.Guarded.op trivial fun r t hcall => ?_
  obtain ⟨now, hnow, hdevice, hserved | ⟨hfails, ⟨error, rfl⟩, _⟩⟩ := hsem r t hcall
  · obtain ⟨hremote, rfl⟩ := hserve now hnow r t.remote hserved
    have ht : t = w.setRemote now := by
      rw [← hremote]
      cases t
      cases hdevice
      rfl
    rw [ht]
    exact ⟨rfl, (Meanwhile.refl w).setRemote hnow⟩
  · exact hfails

theorem guarded_downloadBlob {bytes : Bytes} (h : w.remote.blobs id = some bytes) :
    Fallible.Guarded (sem env) (fun _ _ => True) (fun _ => env.remoteFails) (perform (.downloadBlob id)) w
      fun a t => a = bytes ∧ Meanwhile env w t := by
  refine guarded_served (fun r t h => h) fun now hnow r now' hserved => ?_
  obtain ⟨hr, rfl⟩ := hserved
  rw [hnow.grows.blobs id bytes h] at hr
  exact ⟨rfl, hr⟩

theorem guarded_downloadManifest {id : ManifestId} {bytes : Bytes} (h : w.remote.manifests id = some bytes) :
    Fallible.Guarded (sem env) (fun _ _ => True) (fun _ => env.remoteFails) (perform (.downloadManifest id)) w
      fun a t => a = bytes ∧ Meanwhile env w t := by
  refine guarded_served (fun r t h => h) fun now hnow r now' hserved => ?_
  obtain ⟨hr, rfl⟩ := hserved
  rw [hnow.grows.manifests id bytes h] at hr
  exact ⟨rfl, hr⟩

theorem guarded_downloadChunk (hid : OpensTo ws w.remote id chunk) (hsize : start.length + chunk.length ≤ size) :
    Fallible.Guarded (sem env) (fun _ _ => True) (fun _ => env.remoteFails) (downloadChunk ws size start id) w
      fun a t => a = start ++ chunk ∧ Meanwhile env w t := by
  obtain ⟨bytes, hbytes, hverify, hopen⟩ := hid
  refine Fallible.Guarded.bind (guarded_downloadBlob hbytes) fun a t h => ?_
  obtain ⟨rfl, ht⟩ := h
  rw [hverify]
  refine Fallible.Guarded.check_bind (fun e he => by cases he) fun _ _ => ?_
  unfold sealing
  rw [hopen]
  refine Fallible.Guarded.check_bind (fun e he => by cases he) fun b hb => ?_
  obtain rfl : chunk = b := Except.ok.inj hb
  have hfits : require (chunk.length ≤ size - start.length)
      (SyncError.io "downloaded chunks exceed manifest file size") = .ok () := require_ok.mpr (by omega)
  rw [hfits]
  exact Fallible.Guarded.check_bind (fun e he => by cases he) fun _ _ => Fallible.Guarded.pure ⟨rfl, ht⟩

theorem guarded_downloadChunks (h : Restores ws w.remote ids contents) (hsize : start.length + contents.length ≤ size) :
    Fallible.Guarded (sem env) (fun _ _ => True) (fun _ => env.remoteFails) (ids.foldlM (downloadChunk ws size) start) w
      fun a t => a = start ++ contents ∧ Meanwhile env w t := by
  induction ids generalizing w start contents with
  | nil =>
    cases h
    exact Fallible.Guarded.pure ⟨(List.append_nil start).symm, .refl w⟩
  | cons id ids ih =>
    cases h with
    | @cons _ _ chunk rest hid hrest =>
      rw [List.length_append] at hsize
      rw [List.foldlM_cons]
      refine Fallible.Guarded.bind (guarded_downloadChunk hid (by omega)) fun a t h => ?_
      obtain ⟨rfl, ht⟩ := h
      have hlength : (start ++ chunk).length + rest.length ≤ size := by
        rw [List.length_append]
        omega
      refine (ih (hrest.grows ht.remote.grows) hlength).weaken (fun _ h => h) fun b u h => ?_
      exact ⟨by rw [h.1, List.append_assoc], ht.trans h.2⟩

theorem guarded_downloadFile {file : RemoteFile} {available : BTreeSet String} {blobs : BTreeMap String Bytes}
    (h : Fetchable ws w.remote file) :
    Fallible.Guarded (sem env) (fun _ _ => True) (fun _ => env.remoteFails) (downloadFile ws available blobs file) w
      fun _ t => Meanwhile env w t := by
  unfold downloadFile
  by_cases havailable : file.contentHash ∈ available
  · rw [if_pos havailable]
    exact Fallible.Guarded.pure (.refl w)
  · rw [if_neg havailable]
    obtain ⟨contents, hrestores, hsize, hhash⟩ := h.contents
    have hlength : ([] : Bytes).length + contents.length ≤ file.size := by
      rw [hsize]
      simp
    refine Fallible.Guarded.bind (guarded_downloadChunks hrestores hlength) fun a t h => ?_
    have hsame : a = contents := h.1
    have hright : require (contents.length = file.size ∧ sha256Hex ws.digest contents = file.contentHash)
        (SyncError.io "downloaded file size or content hash mismatch") = .ok () := require_ok.mpr ⟨hsize, hhash⟩
    rw [hsame, hright]
    exact Fallible.Guarded.check_bind (fun e he => by cases he) fun _ _ => Fallible.Guarded.pure h.2

/-- Each hash is listed once. -/
theorem uniqueFiles_unique {files : List RemoteFile} (h : uniqueFileRemoteBlobIds m = .ok files) {f f' : RemoteFile}
    (hf : f ∈ files) (hf' : f' ∈ files) (hhash : f.contentHash = f'.contentHash) : f = f' := by
  obtain ⟨blobs, _, hfiles⟩ := Except.bind_ok.mp h
  cases hfiles
  obtain ⟨⟨contentHash, size, ids⟩, hmem, rfl⟩ := List.mem_map.mp hf
  obtain ⟨⟨contentHash', size', ids'⟩, hmem', rfl⟩ := List.mem_map.mp hf'
  obtain rfl : contentHash = contentHash' := hhash
  have hsame := (BTreeMap.mem_toList.mp hmem).symm.trans (BTreeMap.mem_toList.mp hmem')
  cases hsame
  rfl

/-- What is downloaded of a file has its size. -/
theorem Downloaded.brings {available : BTreeSet String} {blobs : BTreeMap String Bytes}
    (h : Downloaded ws m available blobs) (hpull : Pullable ws w.remote m) {p : RelPath} {file : FileEntry}
    (hp : m.get p = some (.file file)) (hnot : file.contentHash ∉ available) :
    ∃ b : Bytes, blobs[file.contentHash]? = some b ∧ b.length = file.size ∧
    sha256Hex ws.digest b = file.contentHash := by
  obtain ⟨files, hfiles, _⟩ := hpull
  obtain ⟨b, hb⟩ := Option.ne_none_iff_exists'.mp (h.has p file hp hnot)
  obtain ⟨hhash, p', file', hp', hhash', hsize⟩ := h.sound _ b hb
  obtain ⟨f, hf, hname, hfsize, _⟩ := (uniqueFiles_ok hfiles).covers p file hp
  obtain ⟨f', hf', hname', hfsize', _⟩ := (uniqueFiles_ok hfiles).covers p' file' hp'
  have hsame : f = f' := uniqueFiles_unique hfiles hf hf' (hname.trans (hhash'.symm.trans hname'.symm))
  refine ⟨b, hb, ?_, hhash⟩
  calc b.length = file'.size := hsize
    _ = f'.size := hfsize'.symm
    _ = f.size := by rw [hsame]
    _ = file.size := hfsize

/-- **A manifest that can be pulled is downloaded**, unless a request fails. -/
theorem guarded_downloadManifestBlobs {available : BTreeSet String} (h : Pullable ws w.remote m) :
    Fallible.Guarded (sem env) (fun _ _ => True) (fun _ => env.remoteFails) (downloadManifestBlobs ws m available) w
      fun _ t => Meanwhile env w t := by
  obtain ⟨files, hfiles, hkept⟩ := h
  unfold downloadManifestBlobs
  rw [hfiles]
  refine Fallible.Guarded.check_bind (fun e he => by cases he) fun files' heq => ?_
  obtain rfl : files = files' := Except.ok.inj heq
  refine Fallible.Guarded.foldlM (fun _ _ t => Meanwhile env w t) (.refl w) fun done file rest blobs t hl ht => ?_
  refine (guarded_downloadFile ((hkept file (by rw [hl]; simp)).grows ht.remote.grows)).weaken (fun _ h => h) ?_
  exact fun _ u hu => ht.trans hu

theorem guarded_loadRemoteManifest {head : RemoteHead} (h : Names ws w.remote head m) :
    Fallible.Guarded (sem env) (fun _ _ => True) (fun _ => env.remoteFails) (loadRemoteManifest ws head) w
      fun a t => a = m ∧ Meanwhile env w t := by
  unfold Names at h
  unfold loadRemoteManifest
  cases hid : head.manifestId with
  | none =>
    rw [hid] at h
    exact Fallible.Guarded.pure ⟨h.symm, .refl w⟩
  | some id =>
    rw [hid] at h
    obtain ⟨bytes, hbytes, hopen⟩ := h
    refine Fallible.Guarded.bind (guarded_downloadManifest hbytes) fun a t h => ?_
    obtain ⟨rfl, ht⟩ := h
    rw [hopen]
    exact Fallible.Guarded.check (fun e he => by cases he) fun b hb => ⟨(Except.ok.inj hb).symm, ht⟩

end Download

/-! ### Contents of one hash -/

section Distinct

variable {ws : Workspace} {w t : World} {m : Manifest} {contentHash : String} {size : ℕ}
    {file : FileEntry} {p : RelPath}

/-- The contents that the manifest lists. -/
def listedContents (m : Manifest) : List (String × ℕ) :=
  m.entries.toList.filterMap fun (_, entry) =>
    match entry with
    | .file file => some (file.contentHash, file.size)
    | .directory => none

variable (ws) in
/-- The contents in the cache, under their hashes. -/
def cachedContents (cache : BTreeMap String Bytes) : List (String × ℕ) :=
  cache.toList.filterMap fun (contentHash, bytes) =>
    if sha256Hex ws.digest bytes = contentHash then some (contentHash, bytes.length) else none

variable (ws) in
/-- What the object with the id lists. -/
def namedContents (r : Remote) (id : ManifestId) : List (String × ℕ) :=
  match (r.manifests id).map (openManifest ws id) with
  | some (.ok m) => listedContents m
  | _ => []

variable (ws) in
/-- The contents that the device has staged or cached, and those published. -/
def World.contents (w : World) : List (String × ℕ) :=
  (w.device.staged.map listedContents).getD [] ++ cachedContents ws w.device.cache ++
    w.remote.heads.flatMap (namedContents ws w.remote)

variable (ws) in
/-- Contents with one hash are of one size. -/
def World.Distinct (w : World) : Prop :=
  ∀ a ∈ w.contents ws, ∀ b ∈ w.contents ws, a.1 = b.1 → a.2 = b.2

theorem mem_listedContents (h : m.get p = some (.file file)) : (file.contentHash, file.size) ∈ listedContents m :=
  List.mem_filterMap.mpr ⟨(p, .file file), BTreeMap.mem_toList.mpr h, rfl⟩

theorem mem_cachedContents {cache : BTreeMap String Bytes} {bytes : Bytes} (h : cache[contentHash]? = some bytes)
    (hhash : sha256Hex ws.digest bytes = contentHash) : (contentHash, bytes.length) ∈ cachedContents ws cache :=
  List.mem_filterMap.mpr ⟨(contentHash, bytes), BTreeMap.mem_toList.mpr h, if_pos hhash⟩

theorem namedContents_of_named {r : Remote} {id : ManifestId} (h : Named ws r id m) :
    namedContents ws r id = listedContents m := by
  obtain ⟨bytes, hbytes, hopen⟩ := h
  simp [namedContents, hbytes, hopen]

theorem mem_contents_of_staged (hstaged : w.device.staged = some m) (h : m.get p = some (.file file)) :
    (file.contentHash, file.size) ∈ w.contents ws := by
  simp [World.contents, hstaged, mem_listedContents h]

theorem mem_contents_of_cached {bytes : Bytes} (h : w.device.cache[contentHash]? = some bytes)
    (hhash : sha256Hex ws.digest bytes = contentHash) : (contentHash, bytes.length) ∈ w.contents ws := by
  simp [World.contents, mem_cachedContents h hhash]

theorem mem_contents_of_named {id : ManifestId} (hid : id ∈ w.remote.heads) (hm : Named ws w.remote id m)
    (h : m.get p = some (.file file)) : (file.contentHash, file.size) ∈ w.contents ws := by
  have hmem : (file.contentHash, file.size) ∈ namedContents ws w.remote id := by
    rw [namedContents_of_named hm]
    exact mem_listedContents h
  unfold World.contents
  exact List.mem_append_right _ (List.mem_flatMap.mpr ⟨id, hid, hmem⟩)

/-- The contents of the device stay, those published may become more. -/
theorem mem_contents_later {a : String × ℕ} (hstaged : t.device.staged = w.device.staged)
    (hcache : t.device.cache = w.device.cache) (hgrows : w.remote.Grows t.remote) (h : a ∈ w.contents ws) :
    a ∈ t.contents ws := by
  unfold World.contents at h ⊢
  rw [hstaged, hcache]
  apply List.mem_append.mpr
  rcases List.mem_append.mp h with hdevice | hnamed
  · exact .inl hdevice
  · right
    obtain ⟨id, hid, ha⟩ := List.mem_flatMap.mp hnamed
    refine List.mem_flatMap.mpr ⟨id, hgrows.heads.subset hid, ?_⟩
    cases hbytes : w.remote.manifests id with
    | none =>
      simp [namedContents, hbytes] at ha
    | some bytes =>
      unfold namedContents at ha ⊢
      rw [hgrows.manifests id bytes hbytes]
      rw [hbytes] at ha
      exact ha

/-- What was so of an earlier state of the server was so then. -/
theorem World.Distinct.earlier {d : Device} {r r' : Remote} (h : World.Distinct ws ⟨d, r'⟩) (hgrows : r.Grows r') :
    World.Distinct ws ⟨d, r⟩ := fun a ha b hb =>
  h a (mem_contents_later (w := ⟨d, r⟩) rfl rfl hgrows ha) b (mem_contents_later (w := ⟨d, r⟩) rfl rfl hgrows hb)

end Distinct

/-! ### Uploading -/

section Upload

/-- The chunks of a content make it up. -/
theorem flatten_chunksOf {size : ℕ} (hsize : 0 < size) (bytes : Bytes) : (chunksOf size bytes).flatten = bytes := by
  unfold chunksOf
  by_cases hempty : bytes = []
  · rw [if_pos hempty, hempty]
    rfl
  · rw [if_neg hempty]
    have hfront : ∀ n : ℕ, ((List.range n).map fun i => (bytes.drop (i * size)).take size).flatten =
        bytes.take (n * size) := by
      intro n
      induction n with
      | zero => simp
      | succ n ih =>
        rw [List.range_succ, List.map_append, List.flatten_append, ih, Nat.succ_mul, List.take_add]
        simp
    rw [hfront]
    apply List.take_of_length_le
    have hdiv := Nat.div_add_mod (bytes.length + size - 1) size
    have hmod := Nat.mod_lt (bytes.length + size - 1) hsize
    rw [Nat.mul_comm]
    omega

theorem chunksOf_ne_nil {size : ℕ} (hsize : 0 < size) (bytes : Bytes) : chunksOf size bytes ≠ [] := by
  unfold chunksOf
  by_cases hempty : bytes = []
  · rw [if_pos hempty]
    simp
  · rw [if_neg hempty]
    have hlength : 0 < bytes.length := List.length_pos_of_ne_nil hempty
    have hcount : 0 < (bytes.length + size - 1) / size := Nat.div_pos (by omega) hsize
    intro hnil
    rw [List.map_eq_nil_iff, List.range_eq_nil] at hnil
    omega

variable {env : Setting} {ws : Workspace} {I : World → Prop} {w t : World} {ids : List BlobId} {chunk contents : Bytes}
  {refs : BTreeMap String (List BlobId)}

theorem HeadsPullable.admits (hserver : env.server = HeadsPullable ws) : env.Admits := by
  refine admits_of_grows fun r r' hgrows hheads hr => ?_
  rw [hserver] at hr ⊢
  exact hr.grows hgrows hheads

/-- An object that was sealed from the chunk opens to it. -/
theorem runs_uploadChunk (hideal : ws.Ideal) (henv : env.Admits)
    (h : Restores ws w.remote ids contents) :
    Fallible.Runs (semIntact env) (fun _ => True) (uploadChunk ws ids chunk) w fun ids' t => Meanwhile env w t ∧
      ids' ≠ [] ∧ Restores ws t.remote ids' (contents ++ chunk) := by
  refine Fallible.Runs.bind (runs_intact (runs_nonce trivial)) fun nonce t _ h' => ?_
  obtain ⟨rfl, _⟩ := h'
  refine Fallible.Runs.check_bind trivial fun bytes hseal => Fallible.Runs.check_bind trivial fun id hid => ?_
  refine Fallible.Runs.bind (runs_intact_op (runs_uploadBlob (fun _ _ => trivial)
    fun now => henv.blob now id bytes)) fun _ u _ hu => ?_
  obtain ⟨⟨now, stored, hnow, rfl, hstored⟩, hintact⟩ := hu
  obtain rfl : stored = bytes := hintact stored hstored
  have hopens : OpensTo ws now id chunk := by
    refine ⟨stored, hstored, ?_, ws.sealing.openBytes_sealBytes hideal.cipher (Except.mapError_ok.mp hseal)⟩
    unfold verifyId
    exact Except.bind_ok.mpr ⟨id, hid, require_ok.mpr rfl⟩
  refine Fallible.Runs.pure trivial ⟨(Meanwhile.refl t).setRemote hnow, by simp, ?_⟩
  exact (h.grows hnow.grows).snoc hopens

theorem runs_uploadChunks (hideal : ws.Ideal) (henv : env.Admits) {chunks : List Bytes}
    (hsome : chunks ≠ []) : Fallible.Runs (semIntact env) (fun _ => True) (chunks.foldlM (uploadChunk ws) []) w
      fun ids t => Meanwhile env w t ∧ ids ≠ [] ∧ Restores ws t.remote ids chunks.flatten := by
  refine (Fallible.Runs.foldlM (fun (done : List Bytes) ids t => Meanwhile env w t ∧ (done ≠ [] → ids ≠ []) ∧
    Restores ws t.remote ids done.flatten) (fun _ _ _ _ _ _ => trivial) ⟨.refl w, fun h => absurd rfl h, .nil⟩
    fun done chunk rest ids t _ ht => ?_).weaken (fun _ h => h) fun ids t _ h => ⟨h.1, h.2.1 hsome, h.2.2⟩
  obtain ⟨hlater, _, hrestores⟩ := ht
  refine (runs_uploadChunk hideal henv hrestores).weaken (fun _ h => h) fun ids' u _ h => ?_
  refine ⟨hlater.trans h.1, fun _ => h.2.1, ?_⟩
  simpa using h.2.2

variable (ws) in
/-- What is referred to by a hash is there, and is a content with the hash. -/
def Refs (w : World) (refs : BTreeMap String (List BlobId)) : Prop :=
  ∀ (contentHash : String) (ids : List BlobId), refs[contentHash]? = some ids → ids ≠ [] ∧
    ∃ contents, Restores ws w.remote ids contents ∧ sha256Hex ws.digest contents = contentHash ∧
      (contentHash, contents.length) ∈ w.contents ws

theorem Refs.meanwhile (h : Refs ws w refs) (ht : Meanwhile env w t) : Refs ws t refs := by
  intro contentHash ids hids
  obtain ⟨hne, contents, hrestores, hhash, hmem⟩ := h contentHash ids hids
  exact ⟨hne, contents, hrestores.grows ht.remote.grows, hhash,
    mem_contents_later ht.staged ht.cache ht.remote.grows hmem⟩

theorem runs_uploadStaged_refs (hideal : ws.Ideal) (henv : env.Admits) {chunkSize : ℕ}
    (hsize : 0 < chunkSize) {blob : StagedBlob} (hcached : w.device.cache[blob.contentHash]? = some blob.bytes)
    (hhash : sha256Hex ws.digest blob.bytes = blob.contentHash) :
    Fallible.Runs (semIntact env) (fun _ => True) (uploadStaged ws chunkSize refs blob) w fun refs' t =>
      Meanwhile env w t ∧ (Refs ws w refs → Refs ws t refs') ∧ refs'[blob.contentHash]? ≠ none ∧
        ∀ contentHash : String, refs[contentHash]? ≠ none → refs'[contentHash]? ≠ none := by
  unfold uploadStaged
  by_cases hknown : refs.contains blob.contentHash = true
  · rw [if_pos hknown]
    refine Fallible.Runs.pure trivial ⟨.refl w, fun h => h, ?_, fun _ h => h⟩
    rw [← Option.isSome_iff_ne_none, Std.ExtTreeMap.isSome_getElem?_eq_contains]
    exact hknown
  · rw [if_neg hknown]
    refine Fallible.Runs.bind (runs_uploadChunks hideal henv (chunksOf_ne_nil hsize blob.bytes)) fun ids t _ h => ?_
    obtain ⟨ht, hne, hrestores⟩ := h
    rw [flatten_chunksOf hsize] at hrestores
    refine Fallible.Runs.pure trivial ⟨ht, fun hrefs contentHash ids' hids => ?_, by simp, fun contentHash hsome => ?_⟩
    · rw [BTreeMap.lookup_insert] at hids
      by_cases hsame : blob.contentHash = contentHash
      · rw [if_pos hsame] at hids
        cases hids
        subst hsame
        refine ⟨hne, blob.bytes, hrestores, hhash, ?_⟩
        apply mem_contents_of_cached _ hhash
        rw [ht.cache]
        exact hcached
      · rw [if_neg hsame] at hids
        exact hrefs.meanwhile ht contentHash ids' hids
    · rw [BTreeMap.lookup_insert]
      split
      · simp
      · exact hsome

/-! ### What is published -/

/-- Files of one hash that refer to one list are listed once. -/
theorem uniqueFiles_exists {m : Manifest}
    (hrefs : ∀ p file, m.get p = some (.file file) → ∃ ids, remoteRefs file = .ok ids)
    (hsame : ∀ p p' file file', m.get p = some (.file file) → m.get p' = some (.file file') →
      file.contentHash = file'.contentHash → file.size = file'.size ∧ remoteRefs file = remoteRefs file') :
    ∃ files, uniqueFileRemoteBlobIds m = .ok files := by
  have hfold : ∀ (rest done : List (RelPath × ManifestEntry)) (blobs : BTreeMap String (ℕ × List BlobId)),
      m.entries.toList = done ++ rest →
      (∀ (contentHash : String) (size : ℕ) (ids : List BlobId), blobs[contentHash]? = some (size, ids) → ∃ p file,
        m.get p = some (.file file) ∧ file.contentHash = contentHash ∧ file.size = size ∧ remoteRefs file = .ok ids) →
      ∃ blobs', rest.foldlM addRemoteFile blobs = .ok blobs' := by
    intro rest
    induction rest with
    | nil => exact fun done blobs _ _ => ⟨blobs, rfl⟩
    | cons item rest ih =>
      intro done blobs hl hblobs
      obtain ⟨path, entry⟩ := item
      have hmem : (path, entry) ∈ m.entries.toList := by
        rw [hl]
        simp
      have hget : m.get path = some entry := BTreeMap.mem_toList.mp hmem
      rw [List.foldlM_cons]
      cases entry with
      | directory => exact ih (done ++ [(path, .directory)]) blobs (by simp [hl]) hblobs
      | file file =>
        obtain ⟨ids, hids⟩ := hrefs path file hget
        have hadd : addRemoteFile blobs (path, .file file) = .ok (blobs.insert file.contentHash (file.size, ids)) := by
          unfold addRemoteFile
          refine Except.bind_ok.mpr ⟨ids, hids, Except.bind_unit_ok.mpr ⟨require_ok.mpr ?_, rfl⟩⟩
          cases hprevious : blobs[file.contentHash]? with
          | none => rfl
          | some previous =>
            obtain ⟨size, ids'⟩ := previous
            obtain ⟨p, file', hp, hhash, hsize, hids'⟩ := hblobs _ _ _ hprevious
            obtain ⟨hsizes, hrefs'⟩ := hsame p path file' file hp hget hhash
            have hlists : ids' = ids := Except.ok.inj (hids'.symm.trans (hrefs'.trans hids))
            simp [hlists, ← hsize, hsizes]
        rw [hadd]
        refine ih (done ++ [(path, .file file)]) _ (by simp [hl]) fun contentHash size ids' hids' => ?_
        rw [BTreeMap.lookup_insert] at hids'
        by_cases heq : file.contentHash = contentHash
        · rw [if_pos heq] at hids'
          cases hids'
          exact ⟨path, file, hget, heq, rfl, hids⟩
        · rw [if_neg heq] at hids'
          exact hblobs contentHash size ids' hids'
  obtain ⟨blobs, hblobs⟩ := hfold m.entries.toList [] ∅ rfl (by simp)
  exact ⟨_, Except.bind_ok.mpr ⟨blobs, hblobs, rfl⟩⟩

theorem get_withRemoteRefs_file {m : Manifest} {p : RelPath} {file : FileEntry}
    (h : (m.withRemoteRefs refs).get p = some (.file file)) : ∃ file', m.get p = some (.file file') ∧
      file'.contentHash = file.contentHash ∧ file'.size = file.size ∧
      withRemoteRefs refs (.file file') = .file file := by
  rw [get_withRemoteRefs] at h
  obtain ⟨entry, hentry, hfile⟩ := Option.map_eq_some_iff.mp h
  cases entry with
  | directory => cases hfile
  | file file' =>
    have hshape : (withRemoteRefs refs (.file file')).shape = (ManifestEntry.file file').shape := shape_withRemoteRefs _
    rw [hfile] at hshape
    simp only [ManifestEntry.shape, Option.some.injEq, Prod.mk.injEq] at hshape
    exact ⟨file', hentry, hshape.2.symm, hshape.1.symm, hfile⟩

theorem remoteRefs_withRemoteRefs {file file' : FileEntry} (h : withRemoteRefs refs (.file file') = .file file)
    (hids : refs[file'.contentHash]? = some ids) (hne : ids ≠ []) : remoteRefs file = .ok ids := by
  have hgot : refs[file'.contentHash]?.getD [] = ids := by rw [hids]; rfl
  match ids with
  | [] => exact absurd rfl hne
  | [id] =>
    simp only [withRemoteRefs, hgot, ManifestEntry.file.injEq] at h
    rw [← h]
    rfl
  | id :: id' :: rest =>
    simp only [withRemoteRefs, hgot, ManifestEntry.file.injEq] at h
    rw [← h]
    rfl

/-- What is staged can be pulled once its references are there. -/
theorem pullable_withRemoteRefs {m : Manifest} (hrefs : Refs ws w refs) (hstaged : w.device.staged = some m)
    (hdistinct : w.Distinct ws) (hcovers : ∀ p file, m.get p = some (.file file) → refs[file.contentHash]? ≠ none) :
    Pullable ws w.remote (m.withRemoteRefs refs) := by
  have hfile {p : RelPath} {file : FileEntry} (h : (m.withRemoteRefs refs).get p = some (.file file)) :
      ∃ ids, refs[file.contentHash]? = some ids ∧ remoteRefs file = .ok ids ∧
        (file.contentHash, file.size) ∈ w.contents ws := by
    obtain ⟨file', hget, hhash, hsize, heq⟩ := get_withRemoteRefs_file h
    obtain ⟨ids, hids⟩ := Option.ne_none_iff_exists'.mp (hcovers p file' hget)
    have hmem : (file'.contentHash, file'.size) ∈ w.contents ws := mem_contents_of_staged hstaged hget
    rw [hhash, hsize] at hmem
    refine ⟨ids, ?_, remoteRefs_withRemoteRefs heq hids (hrefs _ _ hids).1, hmem⟩
    rw [← hhash]
    exact hids
  obtain ⟨files, hfiles⟩ := uniqueFiles_exists (m := m.withRemoteRefs refs)
    (fun p file hp => by
      obtain ⟨ids, _, hids, _⟩ := hfile hp
      exact ⟨ids, hids⟩)
    fun p p' file file' hp hp' hhash => by
      obtain ⟨ids, hids, hlist, hmem⟩ := hfile hp
      obtain ⟨ids', hids', hlist', hmem'⟩ := hfile hp'
      refine ⟨hdistinct _ hmem _ hmem' hhash, ?_⟩
      rw [hhash] at hids
      rw [hlist, hlist']
      exact congrArg Except.ok (Option.some.inj (hids.symm.trans hids'))
  refine ⟨files, hfiles, fun f hf => ?_⟩
  obtain ⟨p, file, hp, hhash, hsize, hlist⟩ := (uniqueFiles_ok hfiles).listed f hf
  obtain ⟨ids, hids, hlist', hmem⟩ := hfile hp
  obtain rfl : ids = f.blobIds := Except.ok.inj (hlist'.symm.trans hlist)
  obtain ⟨hne, contents, hrestores, hcontent, hmem'⟩ := hrefs _ _ hids
  refine ⟨hne, contents, hrestores, ?_, ?_⟩
  · rw [← hsize]
    exact hdistinct _ hmem' _ hmem rfl
  · rw [← hhash]
    exact hcontent

/-! ### Pushing -/

section Quiet

variable {sem' : (o : Op) → World → SyncResult o.Val → World → Prop} {may : Op → World → Prop}

/-- What holds of the runs of a program may be relied on where calls do less, and
a program of allowed calls makes no other. -/
theorem guarded_of_calls {α : Type} {x : Sync α} {Q : α → World → Prop} {C : Op → Prop}
    (hsem : ∀ o w r w', sem' o w r w' → semIntact env o w r w') (hx : Fallible.Calls C x)
    (hmay : ∀ o t, C o → may o t) (h : Fallible.Runs (semIntact env) (fun _ => True) x w Q) :
    Fallible.Guarded sem' may (fun _ => True) x w Q := by
  have hruns : Fallible.Runs sem' (fun _ => True) x w Q := fun _ _ hrun =>
    h _ _ (Prog.Reaches.mono (S := Signature.fallible Op.Val SyncError) hsem hrun)
  exact (((Fallible.Calls.guarded hx w).mono_may hmay).and_runs hruns).weaken (fun _ h => h) fun _ _ h => h.2

end Quiet

theorem quietCalls_uploadStaged {chunkSize : ℕ} {blob : StagedBlob} :
    QuietCalls (uploadStaged ws chunkSize refs blob) := by
  unfold uploadStaged
  split
  · exact Fallible.Calls.pure _
  · refine Fallible.Calls.bind (Fallible.Calls.foldlM fun ids chunk _ => ?_) fun ids => Fallible.Calls.pure _
    refine Fallible.Calls.op_bind (by rintro ⟨_, _, ⟨⟩⟩) fun nonce => Fallible.Calls.check_bind fun bytes => ?_
    exact Fallible.Calls.check_bind fun id => Fallible.Calls.op_bind (by rintro ⟨_, _, ⟨⟩⟩)
      fun _ => Fallible.Calls.pure _

/-- What the previous manifest refers to. -/
theorem refs_of_previous {files : List RemoteFile}
    (h : ∀ file ∈ files, Fetchable ws w.remote file ∧ (file.contentHash, file.size) ∈ w.contents ws) :
    Refs ws w (files.foldl (fun refs file => refs.insert file.contentHash file.blobIds) ∅) := by
  have hfold : ∀ (files : List RemoteFile) (refs : BTreeMap String (List BlobId)), Refs ws w refs →
      (∀ file ∈ files, Fetchable ws w.remote file ∧ (file.contentHash, file.size) ∈ w.contents ws) →
      Refs ws w (files.foldl (fun refs file => refs.insert file.contentHash file.blobIds) refs) := by
    intro files
    induction files with
    | nil => exact fun refs hrefs _ => hrefs
    | cons file files ih =>
      intro refs hrefs hfiles
      refine ih _ (fun contentHash ids hids => ?_) fun file' hfile' => hfiles file' (List.mem_cons_of_mem _ hfile')
      rw [BTreeMap.lookup_insert] at hids
      by_cases hsame : file.contentHash = contentHash
      · rw [if_pos hsame] at hids
        cases hids
        obtain ⟨⟨hne, contents, hrestores, hsize, hhash⟩, hmem⟩ := hfiles file List.mem_cons_self
        rw [← hsame]
        rw [← hsize] at hmem
        exact ⟨hne, contents, hrestores, hhash, hmem⟩
      · rw [if_neg hsame] at hids
        exact hrefs contentHash ids hids
  exact hfold files ∅ (fun contentHash ids hids => by simp at hids) h

variable (ws) in
/-- What a manifest refers to is there, and is published. -/
def Referred (w : World) (m : Manifest) : Prop :=
  ∀ files, uniqueFileRemoteBlobIds m = .ok files → ∀ file ∈ files,
    Fetchable ws w.remote file ∧ (file.contentHash, file.size) ∈ w.contents ws

variable (env ws) in
/-- The head is moved to what is staged, with references that are there if those of
the manifest before are. -/
def Op.PushesStaged (D : World → Prop) (w : World) (head : RemoteHead) (m previous : Manifest) (o : Op) (t : World) :
    Prop :=
  ∀ expectedRevision id, o = .updateWorkspaceHead expectedRevision id → expectedRevision = head.revision ∧ D t ∧
    Meanwhile env w t ∧ ∃ refs, Named ws t.remote id (m.withRemoteRefs refs) ∧
      (∀ p file, m.get p = some (.file file) → refs[file.contentHash]? ≠ none) ∧
        (Referred ws w previous → Refs ws t refs)

/-- **What a push moves the head to.** -/
theorem guarded_push {sem' : (o : Op) → World → SyncResult o.Val → World → Prop} {D : World → Prop}
    (hsem : ∀ o w r w', sem' o w r w' → semIntact env o w r w' ∧ D w') (hideal : ws.Ideal) (henv : env.Admits)
    {head : RemoteHead} {m previous : Manifest} (hstaged : w.device.staged = some m) (hm : Publishable ws m) :
    Fallible.Guarded sem' (Op.PushesStaged env ws D w head m previous) (fun _ => True)
      (pushWithExpectedHead ws head previous) w fun _ _ => True := by
  have hquiet {α : Type} {x : Sync α} {t : World} {Q : α → World → Prop} (hx : QuietCalls x)
      (h : Fallible.Runs (semIntact env) (fun _ => True) x t Q) :
      Fallible.Guarded sem' (Op.PushesStaged env ws D w head m previous) (fun _ => True) x t Q :=
    guarded_of_calls (fun o w r w' hcall => (hsem o w r w' hcall).1) hx
      (fun o t hnot expectedRevision id heq => absurd ⟨expectedRevision, id, heq⟩ hnot) h
  refine Fallible.Guarded.bind (hquiet ?_ (runs_intact (runs_loadStagedManifest fun _ _ => trivial)))
    fun manifest t h => ?_
  · exact Fallible.Calls.op_bind (by rintro ⟨_, _, ⟨⟩⟩) fun _ => Fallible.Calls.check_bind
      fun _ => Fallible.Calls.check _
  obtain ⟨hlooked, hsame, _⟩ := h
  obtain rfl : m = manifest := Option.some.inj (hstaged.symm.trans hsame)
  have ht : Meanwhile env w t := hlooked.meanwhile
  refine Fallible.Guarded.check_bind (fun _ _ => trivial) fun files hfiles => ?_
  refine Fallible.Guarded.bind (hquiet (Fallible.Calls.op (by rintro ⟨_, _, ⟨⟩⟩)) (runs_intact (runs_nonce trivial)))
    fun nonce t' h => ?_
  obtain ⟨rfl, _⟩ := h
  refine Fallible.Guarded.check_bind (fun _ _ => trivial) fun frame _ => ?_
  refine Fallible.Guarded.check_bind (fun _ _ => trivial) fun chunkSize hchunk => ?_
  have hpositive : 0 < chunkSize := by
    obtain ⟨hroom, hsize⟩ := Except.bind_unit_ok.mp hchunk
    have hlt := require_ok.mp hroom
    cases hsize
    omega
  refine Fallible.Guarded.bind (hquiet ?_ (runs_intact (runs_stagedBlobsForManifest fun _ _ => trivial)))
    fun blobs u h => ?_
  · exact Fallible.Calls.op_bind (by rintro ⟨_, _, ⟨⟩⟩) fun _ => Fallible.Calls.check _
  obtain ⟨hseen, hblobs⟩ := h
  obtain ⟨hcovers, hcached⟩ := stagedBlobs_ok hblobs
  have hu : Meanwhile env w u := ht.trans hseen.meanwhile
  -- what is uploaded is added to what the previous manifest refers to
  have hstart : Referred ws w previous →
      Refs ws u (files.foldl (fun refs file => refs.insert file.contentHash file.blobIds) ∅) :=
    fun hprevious => (refs_of_previous (hprevious files hfiles)).meanwhile hu
  refine Fallible.Guarded.bind (hquiet (Fallible.Calls.foldlM fun _ _ _ => quietCalls_uploadStaged)
    (Fallible.Runs.foldlM
    (fun done refs v => Meanwhile env u v ∧ (Referred ws w previous → Refs ws v refs) ∧ ∀ blob ∈ done,
      refs[(blob : StagedBlob).contentHash]? ≠ none) (fun _ _ _ _ _ _ => trivial) ⟨.refl u, hstart, by simp⟩
      fun done blob rest refs v hl h => ?_)) fun refs v h => ?_
  · obtain ⟨hv, hrefs, hdone⟩ := h
    obtain ⟨_, hcache, hhash⟩ := hcached blob (by rw [hl]; simp)
    rw [← hseen.meanwhile.cache, ← hv.cache] at hcache
    refine (runs_uploadStaged_refs hideal henv hpositive hcache hhash).weaken (fun _ h => h) fun refs' x _ h => ?_
    obtain ⟨hx, hrefs', hthis, hmore⟩ := h
    refine ⟨hv.trans hx, fun hprevious => hrefs' (hrefs hprevious), fun other hother => ?_⟩
    rcases List.mem_append.mp hother with hin | hin
    · exact hmore _ (hdone other hin)
    · rw [List.mem_singleton.mp hin]
      exact hthis
  obtain ⟨hv, hrefs, hall⟩ := h
  refine Fallible.Guarded.check_bind (fun _ _ => trivial) fun bytes hjson => ?_
  refine Fallible.Guarded.bind (hquiet (Fallible.Calls.op (by rintro ⟨_, _, ⟨⟩⟩)) (runs_intact (runs_nonce trivial)))
    fun nonce v' h => ?_
  obtain ⟨rfl, _⟩ := h
  refine Fallible.Guarded.check_bind (fun _ _ => trivial) fun frame hseal => ?_
  refine Fallible.Guarded.check_bind (fun _ _ => trivial) fun id hid => ?_
  have hupload : Fallible.Runs sem' (fun _ => True) (perform (.uploadManifest id frame)) v'
      fun _ x => (∃ now, Remote.Later env v'.remote now ∧ x = v'.setRemote now ∧
        now.manifests id = some frame) ∧ D x := by
    refine Fallible.Runs.op trivial fun r x hcall => ⟨trivial, fun a ha => ⟨?_, (hsem _ _ _ _ hcall).2⟩⟩
    have hrun : Fallible.Reaches (semIntact env) (perform (.uploadManifest id frame)) v' (some r) x :=
      .call (hsem _ _ _ _ hcall).1 (.done _ _)
    rw [ha] at hrun
    obtain ⟨⟨now, stored, hnow, hx, hstored⟩, hintact⟩ := (runs_intact_op (I := fun _ => True) (runs_uploadManifest
      (fun _ _ => trivial) fun now => henv.manifest now id frame)).ok hrun
    obtain rfl : stored = frame := by
      rw [hx] at hintact
      exact hintact stored hstored
    exact ⟨now, hnow, hx, hstored⟩
  refine Fallible.Guarded.bind (P := fun _ x => (∃ now, Remote.Later env v'.remote now ∧ x = v'.setRemote now ∧
    now.manifests id = some frame) ∧ D x) ?_ fun _ x h => ?_
  · refine (Fallible.Guarded.and_runs (Q := fun _ _ => True) ?_ hupload).weaken (fun _ h => h) fun _ _ h => h.2
    exact Fallible.Guarded.op (by rintro _ _ ⟨⟩) fun r x _ => by cases r <;> trivial
  obtain ⟨⟨now, hnow, rfl, hstored⟩, hholds⟩ := h
  have hnamed : Named ws now id (m.withRemoteRefs refs) :=
    ⟨frame, hstored, openManifest_sealed hideal (hm.withRemoteRefs refs) (Except.mapError_ok.mp hjson)
      (Except.mapError_ok.mp hseal) hid⟩
  refine Fallible.Guarded.bind (P := fun _ _ => True) (Fallible.Guarded.op ?_ fun r x _ => by cases r <;> trivial)
    fun _ _ _ => Fallible.Guarded.pure trivial
  intro expectedRevision id' heq
  cases heq
  refine ⟨rfl, hholds, hu.trans (hv.setRemote hnow), refs, hnamed, fun p file hp => ?_, fun hprevious => ?_⟩
  · obtain ⟨blob, hblob, hhash⟩ := hcovers p file hp
    rw [← hhash]
    exact hall blob hblob
  · exact (hrefs hprevious).meanwhile ((Meanwhile.refl v').setRemote hnow)

/-! ### Publishing what can be pulled -/

variable (env ws) in
/-- What calls do where hashes do not collide, be it of objects or contents. -/
def semDistinct (o : Op) (w : World) (r : SyncResult o.Val) (w' : World) : Prop :=
  semIntact env o w r w' ∧ w'.Distinct ws

variable (ws) in
/-- The head is moved only to what can be pulled. -/
def Op.NamesPullable (o : Op) (w : World) : Prop :=
  ∀ expectedRevision id, o = .updateWorkspaceHead expectedRevision id →
    ∃ m, Named ws w.remote id m ∧ Pullable ws w.remote m

variable (env ws) in
/-- A program that keeps what the head has named pullable. -/
abbrev PublishesPullable {α : Type} (x : Sync α) (w : World) (Q : α → World → Prop) : Prop :=
  Fallible.Guarded (semDistinct env ws) (Op.NamesPullable ws) (fun _ => True) x w Q

theorem QuietCalls.publishesPullable {α : Type} {x : Sync α} {Q : α → World → Prop} (hx : QuietCalls x)
    (h : Fallible.Runs (semIntact env) (fun _ => True) x w Q) : PublishesPullable env ws x w Q :=
  guarded_of_calls (fun _ _ _ _ hcall => hcall.1) hx
    (fun _ _ hnot expectedRevision id heq => absurd ⟨expectedRevision, id, heq⟩ hnot) h

/-- **A push names what can be pulled.** -/
theorem publishesPullable_push (hideal : ws.Ideal) (hserver : env.server = HeadsPullable ws) {head : RemoteHead}
    {m previous : Manifest} (hstaged : w.device.staged = some m) (hm : Publishable ws m)
    (hprevious : Referred ws w previous) :
    PublishesPullable env ws (pushWithExpectedHead ws head previous) w fun _ _ => True := by
  refine (guarded_push (D := World.Distinct ws)
    (fun (o : Op) w r w' (hcall : semDistinct env ws o w r w') => hcall) hideal
    (HeadsPullable.admits hserver) hstaged hm).mono_may fun _ _ h expectedRevision id heq => ?_
  obtain ⟨_, hdistinct, hwaited, refs, hnamed, hcovers, hrefs⟩ := h expectedRevision id heq
  exact ⟨_, hnamed, pullable_withRemoteRefs (hrefs hprevious) (hwaited.staged.trans hstaged) hdistinct hcovers⟩

/-! ### Attempts -/

/-- What a head before has named can be pulled, and is published. -/
theorem HeadsPullable.referred {p : Planned} {u : World} (h : HeadsPullable ws u.remote) {now : Remote}
    (hgrows : now.Grows u.remote) (hhead : p.head = now.head) (hnames : Names ws u.remote p.head p.remote) :
    Referred ws u p.remote := by
  intro files hfiles f hf
  obtain ⟨path, file, hget, hhash, hsize, _⟩ := (uniqueFiles_ok hfiles).listed f hf
  unfold Names at hnames
  rw [hhead] at hnames
  cases hid : now.head.manifestId with
  | none =>
    rw [hid] at hnames
    rw [hnames, Manifest.get_new] at hget
    cases hget
  | some id =>
    rw [hid] at hnames
    have hmem : id ∈ u.remote.heads := hgrows.heads.subset (List.mem_of_getLast? hid)
    obtain ⟨m, hm, files', hfiles', hkept⟩ := h id hmem
    obtain rfl : m = p.remote := hm.unique hnames
    obtain rfl : files = files' := Except.ok.inj (hfiles.symm.trans hfiles')
    refine ⟨hkept f hf, ?_⟩
    rw [← hhash, ← hsize]
    exact mem_contents_of_named hmem hm hget

/-- A call that moves the head only to what can be pulled keeps it so. -/
theorem headsPullable_call {o : Op} {r : SyncResult o.Val} (hserver : env.server = HeadsPullable ws)
    (hmay : o.NamesPullable ws w) (hcall : sem env o w r t) (h : HeadsPullable ws w.remote) :
      HeadsPullable ws t.remote := by
  obtain ⟨now, hnow, hserves⟩ := serves_sem hcall
  have hkept : HeadsPullable ws now := by
    have hlater := hnow.server
    rw [hserver] at hlater
    exact hlater h
  generalize t.remote = after at hserves ⊢
  cases hserves with
  | kept => exact hkept
  | blob hnone => exact hkept.grows (grows_addBlob hnone) rfl
  | manifest hnone => exact hkept.grows (grows_addManifest hnone) rfl
  | @head expectedRevision id ho _ =>
    obtain ⟨m, hm, hpull⟩ := hmay expectedRevision id ho
    intro id' hid'
    rcases List.mem_append.mp hid' with hbefore | hnew
    · obtain ⟨m', hm', hpull'⟩ := hkept id' hbefore
      exact ⟨m', hm'.grows grows_addHead, hpull'.grows grows_addHead⟩
    · rw [List.mem_singleton.mp hnew]
      exact ⟨m, hm.grows (hnow.grows.trans grows_addHead), hpull.grows (hnow.grows.trans grows_addHead)⟩

/-- Wherever such a program is, what the head has named can be pulled. -/
theorem PublishesPullable.kept {α : Type} {x : Sync α} {Q : α → World → Prop} (hserver : env.server = HeadsPullable ws)
    (h : PublishesPullable env ws x w Q) (hw : HeadsPullable ws w.remote) :
    Fallible.Runs (semDistinct env ws) (fun t => HeadsPullable ws t.remote ∧ w.remote.Grows t.remote) x w
      fun _ t => HeadsPullable ws t.remote ∧ w.remote.Grows t.remote := by
  refine h.runs (fun o u r u' hmay hcall hu => ?_) ⟨hw, .refl _⟩
  exact ⟨headsPullable_call hserver hmay hcall.1.1 hu.1, hu.2.trans (grows_sem hcall.1.1)⟩

end Upload

end RustSync
