/-
A device alone

What a call does when nobody else does anything and nothing fails: the user
edits no file, no other device publishes, and the server serves each request
at once. A temporary file gets a name longer than every path there is. This is
one of the things the call may do (`sem_alone`), so every call can be served
(`sem_total`), and a run of a sync can be evaluated.

Key definitions: `World.alone`. Key theorems: `sem_alone`, `sem_total`.
-/
import Mathlib.Algebra.Order.BigOperators.Group.List
import Mathlib.Algebra.Order.Ring.Nat
import RustSync.Sync.Guards
import RustSync.Sync.NoLostUpdate
import RustSync.Sync.Transfer

namespace RustSync

/-- A name that no path of the tree ends in. -/
def freshSuffix (tree : WorkingTree) : List Char := List.replicate ((tree.nodes.keys.map List.length).sum + 1) 'a'

def freshTemp (tree : WorkingTree) (parent : RelPath) : RelPath := joinPath parent (tempName (freshSuffix tree))

namespace World

variable (w : World)

def failed {α : Type} : SyncResult α × World := (.error (.loc (.io "failed")), w)

def change (tree : Option WorkingTree) : SyncResult Unit × World :=
  match tree with
  | some tree => (.ok (), w.setTree tree)
  | none => w.failed

def removed (path : RelPath) : SyncResult Removed × World :=
  match w.device.tree.get path, w.device.tree.remove path with
  | none, _ => w.failed
  | some _, some tree => (.ok .done, w.setTree tree)
  | some _, none => (.ok .notEmpty, w)

def tempWritten (parent : RelPath) (bytes : Bytes) : SyncResult RelPath × World :=
  if parent ≠ [] ∧ w.device.tree.get parent ≠ some .directory then w.failed
  else
    match w.device.tree.put (freshTemp w.device.tree parent) (.file ⟨bytes, ⟨0⟩⟩) with
    | some tree => (.ok (freshTemp w.device.tree parent), w.setTree tree)
    | none => w.failed

def downloaded (stored : Option Bytes) : SyncResult Bytes × World := (okOr stored (.remote (.other "not found")), w)

def uploaded (stored : Option Bytes) (added : Remote) : SyncResult Upload × World :=
  match stored with
  | some _ => (.ok .alreadyExists, w)
  | none => (.ok .created, w.setRemote added)

def headUpdated (expectedRevision : ℕ) (id : ManifestId) : SyncResult RemoteHead × World :=
  if w.remote.manifests id = none then (.error (.remote (.other "not found")), w)
  else if w.remote.heads.length = expectedRevision then
    (.ok ⟨w.remote.heads.length + 1, some id⟩, w.setRemote (w.remote.addHead id))
  else (.error (.remote .headRevisionConflict), w)

/-- What the call does alone. -/
def alone : (o : Op) → World → SyncResult o.Val × World
  | .read, w => (.ok (w.device, w.device.tree.nodes.keys), w)
  | .metadata path, w => ((stat w.device.tree path).mapError .loc, w)
  | .cachedBlob contentHash, w => (.ok w.device.cache[contentHash]?, w)
  | .list path, w => (.ok (w.device.tree.nodes.keys.filter (Beneath path ·)).reverse, w)
  | .createDir path, w => w.change (createDirIn w.device.tree path)
  | .remove path, w => w.removed path
  | .writeTemp parent bytes, w => w.tempWritten parent bytes
  | .rename temp path, w => w.change (renameIn w.device.tree temp path)
  | .discardTemp temp, w => (.ok (), (w.device.tree.remove temp).elim w w.setTree)
  | .writeBlob contentHash bytes, w => (.ok (), w.addBlob contentHash bytes)
  | .saveManifest manifest, w => (.ok (), w.setStaged manifest)
  | .saveSyncState state, w => (.ok (), w.setSyncState state)
  | .nonce, w => (.ok (List.replicate nonceSize 0), w)
  | .fetchWorkspaceHead, w => (.ok w.remote.head, w)
  | .downloadManifest id, w => w.downloaded (w.remote.manifests id)
  | .downloadBlob id, w => w.downloaded (w.remote.blobs id)
  | .uploadBlob id bytes, w => w.uploaded (w.remote.blobs id) (w.remote.addBlob id bytes)
  | .uploadManifest id bytes, w => w.uploaded (w.remote.manifests id) (w.remote.addManifest id bytes)
  | .updateWorkspaceHead expectedRevision id, w => w.headUpdated expectedRevision id

end World

section Served

variable {tree : WorkingTree} {parent : RelPath}

theorem freshTemp_fresh : tree.get (freshTemp tree parent) = none := by
  by_contra hsome
  have hmem : freshTemp tree parent ∈ tree.nodes.keys :=
    FileTree.mem_keys.mpr hsome
  have hle : (freshTemp tree parent).length ≤ (tree.nodes.keys.map List.length).sum :=
    List.single_le_sum (by simp) _ (List.mem_map_of_mem hmem)
  have hlong : (tree.nodes.keys.map List.length).sum < (freshTemp tree parent).length := by
    unfold freshTemp freshSuffix joinPath tempName
    by_cases hroot : parent = []
    · rw [if_pos hroot, List.length_append, List.length_replicate]
      omega
    · rw [if_neg hroot, List.length_append, List.length_cons, List.length_append, List.length_replicate]
      omega
  omega

theorem freshSuffix_alphanum : (freshSuffix tree).all Char.isAlphanum = true := by
  unfold freshSuffix
  rw [List.all_replicate]
  simp

/-- There is room for a temporary file in a directory. -/
theorem freshTemp_put (hparent : parent = [] ∨ tree.get parent = some .directory) (content : FileContent) :
    ∃ tree', tree.put (freshTemp tree parent) (.file content) = some tree' := by
  have hslash := noSlash_tempName (freshSuffix_alphanum : (freshSuffix tree).all Char.isAlphanum = true)
  refine FileTree.put_isSome ?_ (fun q hq => ?_) fun q hq => FileTree.get_beneath (by rw [freshTemp_fresh]; simp) hq
  · refine proper_joinPath (hparent.imp id fun hdir => tree.proper parent _ hdir) hslash ?_
    exact isName_tempName freshSuffix_alphanum
  · obtain ⟨hroot, hwithin⟩ := within_of_beneath_joinPath hslash hq
    have hdir := hparent.resolve_left hroot
    rcases hwithin with rfl | hbeneath
    · exact hdir
    · exact tree.get_above hdir hbeneath

/-! ### Each call -/

variable {env : Setting} {w : World}

theorem change_alone {f : WorkingTree → Option WorkingTree} :
    changesTree env w (w.change (f w.device.tree)).1 (w.change (f w.device.tree)).2 f := by
  unfold changesTree World.change
  refine .inl ?_
  cases f w.device.tree with
  | some tree => exact ⟨rfl, rfl⟩
  | none => exact ⟨⟨_, rfl⟩, rfl⟩

theorem list_alone (path : RelPath) :
    Listing w path (w.device.tree.nodes.keys.filter (Beneath path ·)).reverse := by
  refine ⟨fun q => ?_, ?_⟩
  · rw [List.mem_reverse, List.mem_filter, decide_eq_true_iff, and_comm]
    exact and_congr_right fun _ => FileTree.mem_keys
  · rw [List.pairwise_reverse, List.pairwise_filter]
    have hsorted : w.device.tree.nodes.keys.Pairwise fun a b => compare a b = .lt := Std.ExtTreeMap.ordered_keys
    refine hsorted.imp fun hlt _ _ hwithin => ?_
    rcases hwithin with rfl | hbeneath
    · exact absurd hlt (by simp)
    · rw [Std.OrientedCmp.gt_of_lt hbeneath.lt] at hlt
      cases hlt

theorem removed_alone (path : RelPath) : removeStep w path (w.removed path).1 (w.removed path).2 := by
  unfold removeStep World.removed
  cases w.device.tree.get path with
  | none => exact ⟨⟨_, rfl⟩, rfl⟩
  | some node =>
    cases w.device.tree.remove path with
    | some tree => exact ⟨rfl, rfl⟩
    | none => exact ⟨rfl, rfl⟩

theorem tempWritten_alone (bytes : Bytes) :
    writeTempStep w parent bytes (w.tempWritten parent bytes).1 (w.tempWritten parent bytes).2 := by
  unfold writeTempStep World.tempWritten
  by_cases hno : parent ≠ [] ∧ w.device.tree.get parent ≠ some .directory
  · rw [if_pos hno, if_pos hno]
    exact ⟨⟨_, rfl⟩, rfl⟩
  · rw [if_neg hno, if_neg hno]
    have hparent : parent = [] ∨ w.device.tree.get parent = some .directory := by
      by_contra hneither
      push Not at hneither
      exact hno hneither
    obtain ⟨tree, htree⟩ := freshTemp_put hparent ⟨bytes, ⟨0⟩⟩
    rw [htree]
    exact ⟨_, tree, ⟨⟨_, freshSuffix_alphanum, rfl⟩, freshTemp_fresh, ⟨0⟩, htree⟩, rfl, rfl⟩

/-- The server serves at once. -/
theorem atServer_alone {α : Type} {r : SyncResult α} (serve : Remote → SyncResult α → Remote → Prop)
    (remote : Remote) (h : serve w.remote r remote) : atServer env w r (w.setRemote remote) serve :=
  ⟨w.remote, .refl _, rfl, .inl h⟩

theorem downloaded_alone (stored : Remote → Option Bytes) :
    atServer env w (w.downloaded (stored w.remote)).1 (w.downloaded (stored w.remote)).2
      fun now => serveDownload (stored now) now := by
  refine atServer_alone _ w.remote ⟨?_, rfl⟩
  unfold World.downloaded
  cases stored w.remote with
  | some bytes => exact rfl
  | none => exact ⟨_, rfl⟩

theorem uploaded_alone (stored : Remote → Option Bytes) (added : Remote → Remote) :
    atServer env w (w.uploaded (stored w.remote) (added w.remote)).1 (w.uploaded (stored w.remote) (added w.remote)).2
      fun now => serveUpload (stored now) (added now) now := by
  unfold World.uploaded
  cases hstored : stored w.remote with
  | some bytes =>
    refine atServer_alone _ w.remote ?_
    unfold serveUpload
    rw [hstored]
    exact ⟨rfl, rfl⟩
  | none =>
    refine atServer_alone _ (added w.remote) ?_
    unfold serveUpload
    rw [hstored]
    exact ⟨rfl, rfl⟩

theorem headUpdated_alone (expectedRevision : ℕ) (id : ManifestId) :
    atServer env w (w.headUpdated expectedRevision id).1 (w.headUpdated expectedRevision id).2
      (serveUpdate expectedRevision id) := by
  unfold World.headUpdated
  by_cases hnone : w.remote.manifests id = none
  · rw [if_pos hnone]
    refine atServer_alone _ w.remote ?_
    unfold serveUpdate
    rw [if_pos hnone]
    exact ⟨⟨_, rfl⟩, rfl⟩
  · rw [if_neg hnone]
    by_cases hrevision : w.remote.heads.length = expectedRevision
    · rw [if_pos hrevision]
      refine atServer_alone _ (w.remote.addHead id) ?_
      unfold serveUpdate
      rw [if_neg hnone, if_pos hrevision]
      exact ⟨rfl, rfl⟩
    · rw [if_neg hrevision]
      refine atServer_alone _ w.remote ?_
      unfold serveUpdate
      rw [if_neg hnone, if_neg hrevision]
      exact ⟨rfl, rfl⟩

theorem discarded_alone (temp : RelPath) :
    discardStep w temp (.ok ()) ((w.device.tree.remove temp).elim w w.setTree) := by
  refine ⟨rfl, ?_⟩
  cases w.device.tree.remove temp with
  | none => exact .inl rfl
  | some tree => exact .inr ⟨tree, rfl, rfl⟩

variable (env) in
/-- **What a call does alone is one of the things it may do.** -/
theorem sem_alone (o : Op) (w : World) : sem env o w (World.alone o w).1 (World.alone o w).2 := by
  cases o with
  | read => exact .inl ⟨w.device.tree, _, .inl rfl, List.Perm.refl _, rfl, rfl⟩
  | metadata path => exact .inl ⟨rfl, rfl⟩
  | cachedBlob contentHash => exact .inl ⟨rfl, rfl⟩
  | list path => exact .inl ⟨_, list_alone path, rfl, rfl⟩
  | createDir path => exact change_alone (f := fun tree => createDirIn tree path)
  | remove path => exact .inl (removed_alone path)
  | writeTemp parent bytes => exact .inl (tempWritten_alone bytes)
  | rename temp path => exact change_alone (f := fun tree => renameIn tree temp path)
  | discardTemp temp => exact discarded_alone temp
  | writeBlob contentHash bytes => exact .inl ⟨rfl, rfl⟩
  | saveManifest manifest => exact .inl ⟨rfl, rfl⟩
  | saveSyncState state => exact .inl ⟨rfl, rfl⟩
  | nonce => exact ⟨⟨_, List.length_replicate, rfl⟩, rfl⟩
  | fetchWorkspaceHead =>
    exact atServer_alone (fun now r now' => r = .ok now.head ∧ now' = now) w.remote ⟨rfl, rfl⟩
  | downloadManifest id => exact downloaded_alone fun now => now.manifests id
  | downloadBlob id => exact downloaded_alone fun now => now.blobs id
  | uploadBlob id bytes => exact uploaded_alone (fun now => now.blobs id) fun now => now.addBlob id bytes
  | uploadManifest id bytes => exact uploaded_alone (fun now => now.manifests id) fun now => now.addManifest id bytes
  | updateWorkspaceHead expectedRevision id => exact headUpdated_alone expectedRevision id

variable (env) in
/-- Every call can be served. -/
theorem sem_total (o : Op) (w : World) : ∃ r w', sem env o w r w' := ⟨_, _, sem_alone env o w⟩

/-- What a sync comes to alone is one of its runs. -/
theorem reaches_alone {α : Type} {x : Sync α} {r : SyncResult α} {w' : World}
    (h : Fallible.exec (fun o w => some (World.alone o w)) x w = some (r, w')) :
    Fallible.Reaches (sem env) x w (some r) w' := by
  refine Fallible.Reaches.of_exec id (fun o u r u' hcall => ?_) h
  have heq : World.alone o u = (r, u') := Option.some.inj hcall
  have hsem := sem_alone env o u
  rw [heq] at hsem
  exact hsem

end Served

/-! ### On a disk that works -/

section Reliable

variable {env : Setting}

/-- The disk does not fail. -/
def Setting.reliable (env : Setting) : Setting := { env with diskFails := False }

theorem sem_reliable {o : Op} {u u' : World} {r : SyncResult o.Val} (h : sem env.reliable o u r u') :
    sem env o u r u' := by
  have hdisk {α : Type} {r : SyncResult α} {step : Prop} (h : onDisk env.reliable u r u' step) :
      onDisk env u r u' step := by
    rcases h with h | ⟨hfails, _⟩
    · exact .inl h
    · exact hfails.elim
  have hserver {α : Type} {r : SyncResult α} (serve : Remote → SyncResult α → Remote → Prop)
      (h : atServer env.reliable u r u' serve) : atServer env u r u' serve := by
    obtain ⟨now, hlater, hdevice, hserve⟩ := h
    exact ⟨now, ⟨hlater.grows, hlater.heads, hlater.server⟩, hdevice, hserve⟩
  cases o with
  | read | metadata | cachedBlob | list | createDir | remove | writeTemp | rename | writeBlob | saveManifest
  | saveSyncState => exact hdisk h
  | discardTemp | nonce => exact h
  | fetchWorkspaceHead => exact hserver (fun now r now' => r = .ok now.head ∧ now' = now) h
  | downloadManifest | downloadBlob | uploadBlob | uploadManifest | updateWorkspaceHead => exact hserver _ h

theorem reaches_reliable {α : Type} {x : Sync α} {u u' : World} {out : Option (SyncResult α)}
    (h : Fallible.Reaches (sem env.reliable) x u out u') : Fallible.Reaches (sem env) x u out u' :=
  Prog.Reaches.mono (S := Signature.fallible Op.Val SyncError) (fun _ _ _ _ hcall => sem_reliable hcall) h

/-- A program that does not fail on a disk that works has a run that succeeds. -/
theorem succeeds_reliable {α : Type} {x : Sync α} {u : World} {Q : α → World → Prop} {c : Crypto}
    (h : Fallible.Guarded (sem env.reliable) (Op.Inside c) (fun _ => False) x u Q) :
    ∃ a u', Fallible.Reaches (sem env) x u (some (.ok a)) u' ∧ Q a u' := by
  obtain ⟨a, u', hrun, hQ⟩ := h.succeeds (sem_total env.reliable)
  exact ⟨a, u', reaches_reliable hrun, hQ⟩

end Reliable

/-! ### A sample device -/

section Sample

open Codec

/-- Nobody else does anything, and nothing fails. -/
def Setting.alone : Setting := ⟨False, False, False, False, fun _ => True⟩

/-- A key of the workspace. -/
def sampleWorkspaceKey : Bytes := List.replicate 32 7

/-- The note as it was and as it is changed, and what is written of it. -/
def noteTexts : List (String × Bytes) := [
  ("one\ntwo\n",
    [123, 34, 119, 111, 114, 107, 115, 112, 97, 99, 101, 95, 105, 100, 34, 58, 34, 119, 115, 34, 44, 34, 101, 110,
    116, 114, 105, 101, 115, 34, 58, 123, 34, 110, 111, 116, 101, 115, 34, 58, 123, 34, 70, 105, 108, 101, 34, 58,
    123, 34, 115, 105, 122, 101, 34, 58, 56, 44, 34, 99, 111, 110, 116, 101, 110, 116, 95, 104, 97, 115, 104, 34, 58,
    34, 99, 51, 102, 57, 99, 56, 99, 50, 56, 51, 97, 50, 98, 49, 102, 50, 102, 49, 56, 57, 54, 102, 50, 55, 97, 48,
    49, 99, 98, 101, 51, 99, 100, 100, 99, 48, 99, 57, 100, 57, 51, 102, 55, 53, 50, 101, 52, 54, 51, 57, 48, 51, 53,
    97, 48, 102, 53, 98, 51, 54, 102, 54, 101, 56, 34, 44, 34, 109, 111, 100, 105, 102, 105, 101, 100, 95, 97, 116,
    34, 58, 48, 44, 34, 114, 101, 109, 111, 116, 101, 95, 98, 108, 111, 98, 95, 105, 100, 34, 58, 34, 98, 108, 111,
    98, 95, 54, 99, 55, 53, 52, 57, 97, 55, 57, 57, 48, 51, 50, 56, 98, 54, 56, 56, 99, 54, 49, 49, 49, 101, 49, 99,
    57, 53, 102, 50, 55, 98, 98, 98, 99, 53, 99, 53, 51, 54, 53, 101, 50, 98, 101, 99, 101, 48, 57, 49, 53, 98, 57,
    51, 100, 102, 52, 53, 52, 52, 54, 52, 97, 51, 34, 125, 125, 125, 125]),
  ("ONE\ntwo\n",
    [123, 34, 119, 111, 114, 107, 115, 112, 97, 99, 101, 95, 105, 100, 34, 58, 34, 119, 115, 34, 44, 34, 101, 110,
    116, 114, 105, 101, 115, 34, 58, 123, 34, 110, 111, 116, 101, 115, 34, 58, 123, 34, 70, 105, 108, 101, 34, 58,
    123, 34, 115, 105, 122, 101, 34, 58, 56, 44, 34, 99, 111, 110, 116, 101, 110, 116, 95, 104, 97, 115, 104, 34, 58,
    34, 99, 55, 56, 97, 53, 101, 99, 50, 99, 50, 56, 98, 101, 56, 57, 51, 97, 102, 98, 54, 50, 50, 53, 101, 102, 48,
    53, 99, 53, 53, 54, 101, 102, 50, 56, 57, 98, 98, 52, 98, 54, 98, 55, 54, 101, 55, 102, 99, 51, 53, 56, 99, 50,
    57, 101, 55, 57, 49, 49, 55, 57, 49, 50, 51, 34, 44, 34, 109, 111, 100, 105, 102, 105, 101, 100, 95, 97, 116, 34,
    58, 48, 44, 34, 114, 101, 109, 111, 116, 101, 95, 98, 108, 111, 98, 95, 105, 100, 34, 58, 34, 98, 108, 111, 98,
    95, 53, 100, 101, 53, 56, 57, 52, 99, 99, 53, 97, 101, 56, 52, 101, 101, 98, 50, 53, 55, 101, 48, 51, 50, 98, 49,
    48, 53, 102, 54, 57, 54, 97, 97, 57, 51, 56, 98, 50, 97, 99, 53, 98, 101, 55, 56, 101, 50, 52, 49, 97, 102, 97,
    48, 51, 54, 97, 56, 53, 55, 56, 56, 54, 50, 34, 125, 125, 125, 125]),
  ("ONE\nTWO\n",
    [123, 34, 119, 111, 114, 107, 115, 112, 97, 99, 101, 95, 105, 100, 34, 58, 34, 119, 115, 34, 44, 34, 101, 110,
    116, 114, 105, 101, 115, 34, 58, 123, 34, 110, 111, 116, 101, 115, 34, 58, 123, 34, 70, 105, 108, 101, 34, 58,
    123, 34, 115, 105, 122, 101, 34, 58, 56, 44, 34, 99, 111, 110, 116, 101, 110, 116, 95, 104, 97, 115, 104, 34, 58,
    34, 52, 49, 101, 57, 54, 100, 55, 100, 52, 100, 101, 49, 53, 55, 51, 51, 101, 51, 50, 100, 98, 49, 53, 50, 48, 55,
    51, 97, 99, 55, 98, 57, 48, 54, 99, 50, 56, 100, 56, 53, 97, 54, 100, 49, 53, 97, 102, 55, 100, 101, 55, 57, 56,
    56, 52, 50, 54, 57, 99, 50, 50, 98, 56, 50, 34, 44, 34, 109, 111, 100, 105, 102, 105, 101, 100, 95, 97, 116, 34,
    58, 48, 44, 34, 114, 101, 109, 111, 116, 101, 95, 98, 108, 111, 98, 95, 105, 100, 34, 58, 34, 98, 108, 111, 98,
    95, 99, 50, 50, 53, 56, 101, 101, 51, 57, 52, 101, 54, 98, 52, 53, 56, 99, 57, 100, 97, 53, 101, 97, 99, 54, 54,
    51, 51, 53, 49, 101, 101, 98, 100, 53, 55, 52, 99, 97, 97, 54, 49, 52, 57, 101, 52, 102, 51, 53, 102, 98, 100, 57,
    48, 53, 55, 51, 100, 54, 97, 98, 52, 100, 97, 34, 125, 125, 125, 125])]

/-- What the cipher makes of bytes, under the key and a nonce of zeros. -/
def noteSeals : List (Bytes × Bytes) := ([] :: noteTexts.flatMap fun note => [utf8 note.1, note.2]) |>.zip [
    [87, 95, 19, 147, 210, 234, 118, 54, 69, 101, 105, 209, 126, 57, 217, 72],
    [95, 14, 139, 200, 2, 90, 81, 56, 129, 16, 190, 175, 218, 223, 228, 67, 46, 125, 209, 93, 119, 6, 123, 10],
    [75, 66, 153, 173, 4, 70, 77, 66, 108, 5, 194, 122, 119, 65, 207, 122, 110, 173, 183, 18, 239, 182, 37, 78, 216,
    182, 53, 22, 70, 225, 28, 202, 75, 79, 70, 114, 31, 193, 184, 122, 223, 194, 197, 108, 73, 115, 119, 116, 21, 154,
    72, 149, 123, 166, 83, 122, 113, 19, 197, 18, 59, 6, 18, 19, 46, 136, 73, 15, 24, 25, 24, 13, 187, 159, 127, 193,
    67, 32, 90, 85, 39, 237, 146, 52, 166, 21, 82, 194, 112, 11, 30, 123, 1, 94, 135, 237, 76, 221, 119, 219, 64, 28,
    18, 124, 6, 194, 71, 33, 149, 223, 152, 48, 119, 68, 11, 18, 112, 109, 189, 33, 216, 218, 185, 66, 126, 124, 232,
    54, 85, 169, 145, 83, 161, 41, 22, 129, 36, 78, 170, 45, 66, 70, 45, 103, 254, 214, 66, 242, 205, 221, 51, 238,
    72, 114, 38, 119, 17, 115, 23, 0, 59, 56, 188, 108, 38, 185, 249, 197, 139, 25, 26, 242, 82, 141, 1, 230, 73, 114,
    128, 239, 237, 117, 35, 227, 84, 60, 19, 88, 36, 234, 131, 11, 200, 235, 254, 134, 226, 194, 148, 244, 148, 204,
    242, 196, 45, 148, 182, 36, 28, 91, 126, 125, 90, 160, 207, 153, 243, 249, 76, 45, 160, 253, 219, 207, 228, 84,
    50, 236, 36, 161, 29, 174, 62, 123, 9, 95, 76, 161, 176, 255, 57, 135, 188, 245, 213, 95, 133, 248, 15, 60, 240,
    90, 169, 174, 120, 88, 126, 62, 159, 254, 223, 10, 205, 103],
    [127, 46, 171, 200, 2, 90, 81, 56, 63, 99, 172, 146, 140, 211, 195, 87, 43, 84, 155, 181, 73, 134, 58, 225],
    [75, 66, 153, 173, 4, 70, 77, 66, 108, 5, 194, 122, 119, 65, 207, 122, 110, 173, 183, 18, 239, 182, 37, 78, 216,
    182, 53, 22, 70, 225, 28, 202, 75, 79, 70, 114, 31, 193, 184, 122, 223, 194, 197, 108, 73, 115, 119, 116, 21, 154,
    72, 149, 123, 166, 83, 122, 113, 19, 197, 18, 59, 6, 18, 19, 46, 136, 73, 15, 24, 25, 24, 13, 187, 159, 127, 197,
    29, 120, 12, 8, 39, 237, 201, 53, 255, 69, 85, 203, 47, 10, 25, 44, 91, 81, 131, 185, 75, 143, 112, 219, 68, 28,
    69, 44, 3, 196, 69, 119, 206, 214, 153, 107, 39, 31, 14, 22, 112, 110, 234, 115, 138, 143, 185, 78, 118, 44, 239,
    110, 0, 248, 157, 0, 163, 40, 73, 134, 115, 69, 170, 45, 66, 70, 45, 103, 254, 214, 66, 242, 205, 221, 51, 238,
    72, 114, 38, 119, 17, 115, 23, 0, 59, 56, 188, 108, 38, 185, 249, 197, 139, 25, 26, 242, 82, 141, 1, 230, 73, 114,
    128, 236, 234, 39, 35, 239, 84, 105, 71, 2, 40, 187, 213, 1, 196, 236, 173, 220, 232, 148, 149, 160, 149, 206,
    165, 151, 127, 157, 182, 36, 24, 85, 42, 126, 89, 250, 201, 194, 164, 248, 27, 123, 240, 173, 220, 157, 191, 84,
    48, 225, 36, 245, 25, 246, 61, 44, 89, 10, 65, 160, 179, 241, 53, 208, 189, 245, 213, 95, 133, 248, 17, 72, 10,
    51, 15, 198, 152, 124, 178, 99, 105, 47, 69, 239, 94, 105],
    [127, 46, 171, 200, 34, 122, 113, 56, 8, 195, 27, 31, 78, 38, 178, 58, 221, 71, 122, 201, 70, 93, 4, 57],
    [75, 66, 153, 173, 4, 70, 77, 66, 108, 5, 194, 122, 119, 65, 207, 122, 110, 173, 183, 18, 239, 182, 37, 78, 216,
    182, 53, 22, 70, 225, 28, 202, 75, 79, 70, 114, 31, 193, 184, 122, 223, 194, 197, 108, 73, 115, 119, 116, 21, 154,
    72, 149, 123, 166, 83, 122, 113, 19, 197, 18, 59, 6, 18, 19, 46, 136, 73, 15, 24, 25, 24, 13, 187, 159, 40, 195,
    64, 32, 15, 9, 115, 187, 158, 99, 162, 22, 5, 196, 37, 10, 29, 121, 11, 3, 211, 186, 75, 216, 38, 220, 66, 30, 19,
    46, 87, 152, 19, 115, 149, 221, 195, 109, 43, 72, 89, 66, 35, 105, 186, 37, 138, 219, 238, 30, 121, 118, 229, 111,
    81, 253, 146, 8, 241, 45, 66, 213, 121, 68, 170, 45, 66, 70, 45, 103, 254, 214, 66, 242, 205, 221, 51, 238, 72,
    114, 38, 119, 17, 115, 23, 0, 59, 56, 188, 108, 38, 185, 249, 197, 139, 25, 26, 242, 82, 141, 1, 230, 73, 114,
    128, 186, 188, 112, 35, 239, 8, 56, 23, 88, 41, 191, 134, 91, 196, 188, 240, 221, 227, 197, 195, 240, 192, 156,
    244, 195, 120, 158, 176, 119, 31, 9, 121, 125, 92, 246, 205, 206, 165, 171, 27, 46, 244, 251, 128, 207, 179, 87,
    49, 224, 115, 246, 27, 174, 61, 42, 88, 88, 29, 163, 229, 171, 57, 130, 238, 245, 213, 95, 133, 248, 177, 86, 255,
    217, 252, 16, 242, 217, 153, 157, 116, 60, 182, 251, 91, 57]]

def sampleAead : Aead where
  encrypt key nonce plaintext :=
    if key = sampleWorkspaceKey ∧ nonce = List.replicate nonceSize 0 then noteSeals.lookup plaintext else none
  decrypt key nonce ciphertext :=
    if key = sampleWorkspaceKey ∧ nonce = List.replicate nonceSize 0 then (noteSeals.map Prod.swap).lookup ciphertext
    else none

def sampleSealing : WorkspaceCrypto := ⟨sampleAead, fun _ => .ok sampleWorkspaceKey, ⟨"key_1", by decide⟩⟩

/-- What is stored on the server of some bytes. -/
def sampleFrame (bytes : Bytes) : Bytes :=
  (sampleSealing.sealBytes (List.replicate nonceSize 0) bytes).toOption.getD []

/-- SHA-256, as it is on the texts and on what is stored. -/
def noteCrypto : Crypto := textCrypto.withHashes <| noteSeals.map (fun row => sampleFrame row.1) |>.zip [
    [44, 218, 33, 35, 157, 161, 167, 109, 34, 173, 54, 64, 53, 202, 94, 242, 110, 81, 214, 49, 29, 223, 179, 154, 208,
    247, 20, 70, 197, 65, 100, 87],
    [108, 117, 73, 167, 153, 3, 40, 182, 136, 198, 17, 30, 28, 149, 242, 123, 187, 197, 197, 54, 94, 43, 236, 224,
    145, 91, 147, 223, 69, 68, 100, 163],
    [229, 253, 0, 72, 139, 162, 82, 248, 5, 169, 185, 50, 56, 212, 111, 157, 42, 212, 229, 110, 123, 27, 229, 80, 175,
    57, 39, 139, 219, 169, 77, 222],
    [93, 229, 137, 76, 197, 174, 132, 238, 178, 87, 224, 50, 177, 5, 246, 150, 170, 147, 139, 42, 197, 190, 120, 226,
    65, 175, 160, 54, 168, 87, 136, 98],
    [28, 79, 105, 4, 37, 96, 52, 112, 175, 112, 206, 52, 177, 140, 47, 195, 172, 84, 159, 161, 107, 207, 151, 240, 97,
    86, 1, 210, 113, 225, 16, 76],
    [194, 37, 142, 227, 148, 230, 180, 88, 201, 218, 94, 172, 102, 51, 81, 238, 189, 87, 76, 170, 97, 73, 228, 243,
    95, 189, 144, 87, 61, 106, 180, 218],
    [166, 19, 185, 220, 228, 205, 116, 40, 2, 135, 202, 85, 233, 236, 89, 57, 131, 51, 134, 226, 112, 11, 27, 124,
    152, 102, 150, 58, 217, 80, 171, 116]]

/-- The manifest with the note. -/
def noteManifest (text : String) : Manifest :=
  manifestOf [("notes", .file ⟨(utf8 text).length, sha256Hex noteCrypto (utf8 text), ⟨0⟩,
    (idOfContent blobIdKind noteCrypto (sampleFrame (utf8 text))).toOption, []⟩)]

/-- What the rules `/d/` and `!/d/x` ignore. -/
def sampleMatcher (relative : RelPath) (isDir : Bool) : Bool :=
  (relative = "d".toList ∧ isDir) ∨ ("d/".toList <+: relative ∧ relative ≠ "d/x".toList)

def sampleIgnore : IgnoreSyntax where
  parse bytes := if bytes = utf8 "/d/\n!/d/x\n" then .ok sampleMatcher else .error "not a sample"

def sampleSpace : Workspace where
  workspaceId := sampleWorkspace
  digest := noteCrypto
  sealing := sampleSealing
  ignore := sampleIgnore
  toJson m :=
    match noteTexts.find? fun note => m.workspaceId = sampleWorkspace ∧
        m.entries.toList = (noteManifest note.1).entries.toList with
    | some note => .ok note.2
    | none => .error "not a sample"
  fromJson bytes :=
    match noteTexts.find? fun note => note.2 = bytes with
    | some note => .ok (noteManifest note.1)
    | none => .error "expected value"
  display _ := ""

-- the note as it was is written as JSON
example : noteTexts.head?.map (fun note => note.2) = some (
    utf8 "\x7b\"workspace_id\":\"ws\",\"entries\":\x7b\"notes\":\x7b\"File\":\x7b\"size\":8,\"content_hash\":" ++
    utf8 "\"c3f9c8c283a2b1f2f1896f27a01cbe3cddc0c9d93f752e4639035a0f5b36f6e8\",\"modified_at\":0," ++
    utf8 "\"remote_blob_id\":\"blob_6c7549a7990328b688c6111e1c95f27bbbc5c5365e2bece0915b93df454464a3\"" ++
    utf8 "\x7d\x7d\x7d\x7d") := by
  decide +kernel

/-- A tree with the note. -/
def noteTree (text : String) : WorkingTree := treeOf [("notes", sampleFile (utf8 text))]

/-- A device that has never synced, and a server nobody has published to. -/
def worldOf (tree : WorkingTree) : World := ⟨⟨tree, none, ∅, .initial⟩, ⟨fun _ => none, fun _ => none, []⟩⟩

end Sample

end RustSync
