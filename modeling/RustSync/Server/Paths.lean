/-
Where a workspace is stored

Every file of a workspace is put below a directory named by its id. Whatever
the ids, no path leads out of the workspace's directory (`path_inside`): it is
the directory itself that may lead elsewhere. An identifier is made of letters,
digits, `_`, `-` and `.`, so `.` and `..` are workspace ids, and their
directories are the one of all workspaces and the storage root.

Key definitions: `StoredPath`, `Contained`, `Apart`, `Dotted`. Key theorem:
`storage_apart_iff`.
-/
import RustSync.Lib.PathText
import RustSync.Server.ObjectStore

namespace RustSync.Paths

section Functions

variable (root workspaceId : List Char)

def workspaceDir : List Char := pathJoin (pathJoin root "workspaces".toList) workspaceId

def workspaceStatePath : List Char := pathJoin (workspaceDir root workspaceId) "state.sqlite3".toList

def objectsDir : List Char := pathJoin (workspaceDir root workspaceId) "objects".toList

/-- `str::get`, of a text in ASCII. -/
def slice (value : List Char) (first last : ℕ) : Option (List Char) :=
  if last ≤ value.length then some ((value.take last).drop first) else none

def objectPath (baseDir objectId : List Char) : List Char :=
  let first := (slice objectId 0 2).getD ['_']
  let second := (slice objectId 2 4).getD ['_']
  pathJoin (pathJoin (pathJoin baseDir first) second) (objectId ++ ".enc".toList)

/-- `str::strip_prefix`, or the text itself. -/
def stripped (start value : String) : List Char := (afterStart start value).getD value.toList

def blobPath (blobId : String) : List Char := objectPath (objectsDir root workspaceId) (stripped "blob_" blobId)

def manifestPath (manifestId : String) : List Char :=
  objectPath (objectsDir root workspaceId) (stripped "manifest_" manifestId)

def keyEnvelopePath (keyId recipientDeviceId : List Char) : List Char :=
  pathJoin (pathJoin (pathJoin (pathJoin (workspaceDir root workspaceId) "keys".toList) keyId) "envelopes".toList)
    (recipientDeviceId ++ ".bin".toList)

def headPath : List Char := pathJoin (workspaceDir root workspaceId) "head.json".toList

def accessStatePath : List Char :=
  pathJoin (pathJoin (workspaceDir root workspaceId) "access".toList) "state.json".toList

def joinRequestsDir : List Char :=
  pathJoin (pathJoin (workspaceDir root workspaceId) "devices".toList) "join-requests".toList

def joinRequestPath (joinRequestId : List Char) : List Char :=
  pathJoin (joinRequestsDir root workspaceId) (joinRequestId ++ ".json".toList)

end Functions

/-- What is stored for a workspace, and the directories it is in. -/
inductive StoredPath where
  | workspaceState
  | objectsDir
  | blob (blobId : BlobId)
  | manifest (manifestId : ManifestId)
  | keyEnvelope (keyId : KeyId) (recipientDeviceId : DeviceId)
  | head
  | accessState
  | joinRequestsDir
  | joinRequest (joinRequestId : JoinRequestId)

def StoredPath.path (root : List Char) (w : WorkspaceId) : StoredPath → List Char
  | .workspaceState => workspaceStatePath root w.asStr.toList
  | .objectsDir => Paths.objectsDir root w.asStr.toList
  | .blob blobId => blobPath root w.asStr.toList blobId.asStr
  | .manifest manifestId => manifestPath root w.asStr.toList manifestId.asStr
  | .keyEnvelope keyId recipientDeviceId =>
    keyEnvelopePath root w.asStr.toList keyId.asStr.toList recipientDeviceId.asStr.toList
  | .head => headPath root w.asStr.toList
  | .accessState => accessStatePath root w.asStr.toList
  | .joinRequestsDir => Paths.joinRequestsDir root w.asStr.toList
  | .joinRequest joinRequestId => joinRequestPath root w.asStr.toList joinRequestId.asStr.toList

/-- Strictly inside a directory. -/
def Inside (dir path : List (List Char)) : Prop := ∃ rest, rest ≠ [] ∧ path = dir ++ rest

/-- The directory of a workspace is one of the directory of all workspaces, and
its paths are inside it. -/
def Contained (root : List Char) (w : WorkspaceId) : Prop :=
  (∃ name, resolvePath (workspaceDir root w.asStr.toList) = resolvePath (pathJoin root "workspaces".toList) ++ [name]) ∧
    ∀ p : StoredPath, Inside (resolvePath (workspaceDir root w.asStr.toList)) (resolvePath (p.path root w))

/-- No path of `w` is the directory of `w'`, holds it or is in it. -/
def Apart (root : List Char) (w w' : WorkspaceId) : Prop :=
  ∀ p : StoredPath, ¬ resolvePath (p.path root w) <+: resolvePath (workspaceDir root w'.asStr.toList) ∧
    ¬ resolvePath (workspaceDir root w'.asStr.toList) <+: resolvePath (p.path root w)

/-- An id that is no name of a directory. -/
def Dotted (w : WorkspaceId) : Prop := w.asStr = "." ∨ w.asStr = ".."

/-! ### Names -/

section Names

variable {k : IdKind} {ok : ObjectIdKind} {value file : List Char}

theorem plainName_file (hvalue : '/' ∉ value) (hfile : '/' ∉ file) (hlen : 3 ≤ file.length) :
    PlainName (value ++ file) := by
  apply PlainName.of_length
  · rw [List.length_append]
    omega
  · rw [List.mem_append]
    rintro (hmem | hmem)
    · exact hvalue hmem
    · exact hfile hmem

/-- The digest in the id of an object is written in digits and letters. -/
theorem stripped_chars (i : ObjectId ok) {c : Char} (hc : c ∈ stripped ok.requiredPrefix i.asStr) :
    c ≠ '/' ∧ c ≠ '.' := by
  obtain ⟨hash, htext, hhex⟩ := i.toList_asStr
  unfold stripped at hc
  rw [afterStart_some.mpr htext, Option.getD_some] at hc
  have hdigit := hhex c hc
  constructor
  · rintro rfl
    exact absurd hdigit (by decide)
  · rintro rfl
    exact absurd hdigit (by decide)

theorem plainName_slice {first last : ℕ} (hlt : first < last) (hchars : ∀ c ∈ value, c ≠ '/' ∧ c ≠ '.') :
    PlainName ((slice value first last).getD ['_']) := by
  unfold slice
  by_cases hlen : last ≤ value.length
  · rw [if_pos hlen, Option.getD_some]
    have hmem {c : Char} (hc : c ∈ (value.take last).drop first) : c ∈ value :=
      List.mem_of_mem_take (List.mem_of_mem_drop hc)
    apply PlainName.of_noDot
    · intro hnil
      have hzero := congrArg List.length hnil
      rw [List.length_drop, List.length_take, List.length_nil] at hzero
      omega
    · exact fun hc => (hchars _ (hmem hc)).1 rfl
    · exact fun hc => (hchars _ (hmem hc)).2 rfl
  · rw [if_neg hlen, Option.getD_none]
    exact PlainName.of_noDot (by decide) (by decide) (by decide)

end Names

/-! ### Inside the directory -/

section Inside

variable {root dir path name : List Char} {w w' : WorkspaceId}

theorem Inside.join (h : PlainName name) : Inside (resolvePath dir) (resolvePath (pathJoin dir name)) :=
  ⟨[name], by simp, resolve_join_plain h⟩

theorem Inside.join_again (hpath : Inside (resolvePath dir) (resolvePath path)) (h : PlainName name) :
    Inside (resolvePath dir) (resolvePath (pathJoin path name)) := by
  obtain ⟨rest, hne, heq⟩ := hpath
  refine ⟨rest ++ [name], by simp, ?_⟩
  rw [resolve_join_plain h, heq, List.append_assoc]

theorem inside_objectPath (hchars : ∀ c ∈ name, c ≠ '/' ∧ c ≠ '.')
    (hdir : Inside (resolvePath dir) (resolvePath path)) :
    Inside (resolvePath dir) (resolvePath (objectPath path name)) := by
  have hname : '/' ∉ name := fun hmem => (hchars _ hmem).1 rfl
  have hfirst := hdir.join_again (plainName_slice (show 0 < 2 by decide) hchars)
  have hsecond := hfirst.join_again (plainName_slice (show 2 < 4 by decide) hchars)
  exact hsecond.join_again (plainName_file hname (by decide) (by decide))

/-- A key id of dots leads no further up than to `keys` or beside it. -/
theorem inside_keyEnvelopePath (keyId : KeyId) (recipientDeviceId : DeviceId) :
    Inside (resolvePath (workspaceDir root w.asStr.toList))
      (resolvePath (keyEnvelopePath root w.asStr.toList keyId.asStr.toList recipientDeviceId.asStr.toList)) := by
  have hfile : PlainName (recipientDeviceId.asStr.toList ++ ".bin".toList) :=
    plainName_file (TextId.not_mem _ (by decide)) (by decide) (by decide)
  have henvelopes : PlainName "envelopes".toList := by decide
  have hkeys : PlainName "keys".toList := by decide
  unfold keyEnvelopePath
  rw [resolve_join_plain hfile, resolve_join_plain henvelopes, resolve_join (keyId.not_mem (by decide)),
    resolve_join_plain hkeys]
  unfold resolveStep
  split
  · refine ⟨["keys".toList, "envelopes".toList, recipientDeviceId.asStr.toList ++ ".bin".toList], by simp, ?_⟩
    simp
  · split
    · refine ⟨["envelopes".toList, recipientDeviceId.asStr.toList ++ ".bin".toList], by simp, ?_⟩
      simp
    · refine ⟨["keys".toList, keyId.asStr.toList, "envelopes".toList,
        recipientDeviceId.asStr.toList ++ ".bin".toList], by simp, ?_⟩
      simp

/-- **No path of a workspace leads out of its directory.** -/
theorem path_inside (root : List Char) (w : WorkspaceId) (p : StoredPath) :
    Inside (resolvePath (workspaceDir root w.asStr.toList)) (resolvePath (p.path root w)) := by
  have hobjects : Inside (resolvePath (workspaceDir root w.asStr.toList))
      (resolvePath (objectsDir root w.asStr.toList)) :=
    Inside.join (show PlainName "objects".toList by decide)
  have hrequests : Inside (resolvePath (workspaceDir root w.asStr.toList))
      (resolvePath (joinRequestsDir root w.asStr.toList)) :=
    (Inside.join (show PlainName "devices".toList by decide)).join_again
      (show PlainName "join-requests".toList by decide)
  cases p with
  | workspaceState => exact Inside.join (show PlainName "state.sqlite3".toList by decide)
  | objectsDir => exact hobjects
  | blob blobId => exact inside_objectPath (fun c hc => stripped_chars blobId hc) hobjects
  | manifest manifestId => exact inside_objectPath (fun c hc => stripped_chars manifestId hc) hobjects
  | keyEnvelope keyId recipientDeviceId => exact inside_keyEnvelopePath keyId recipientDeviceId
  | head => exact Inside.join (show PlainName "head.json".toList by decide)
  | accessState =>
    exact (Inside.join (show PlainName "access".toList by decide)).join_again
      (show PlainName "state.json".toList by decide)
  | joinRequestsDir => exact hrequests
  | joinRequest joinRequestId =>
    exact hrequests.join_again (plainName_file (TextId.not_mem _ (by decide)) (by decide) (by decide))

end Inside

/-! ### The directories of workspaces -/

section Apart

variable {root : List Char} {w w' : WorkspaceId}

theorem plainName_id (h : ¬ Dotted w) : PlainName w.asStr.toList where
  noSlash := w.not_mem (by decide)
  ne_nil hnil := w.ne_empty (String.toList_eq_nil_iff.mp hnil)
  ne_dot hdot := h (.inl (String.toList_inj.mp hdot))
  ne_dots hdots := h (.inr (String.toList_inj.mp hdots))

theorem resolve_workspaces :
    resolvePath (pathJoin root "workspaces".toList) = resolvePath root ++ ["workspaces".toList] :=
  resolve_join_plain (by decide)

theorem workspaceDir_plain (h : ¬ Dotted w) :
    resolvePath (workspaceDir root w.asStr.toList) = resolvePath root ++ ["workspaces".toList] ++ [w.asStr.toList] := by
  unfold workspaceDir
  rw [resolve_join_plain (plainName_id h), resolve_workspaces]

theorem workspaceDir_dot (h : w.asStr = ".") :
    resolvePath (workspaceDir root w.asStr.toList) = resolvePath root ++ ["workspaces".toList] := by
  unfold workspaceDir
  rw [h, ← resolve_workspaces]
  exact resolve_join_dot

theorem workspaceDir_dots (h : w.asStr = "..") : resolvePath (workspaceDir root w.asStr.toList) = resolvePath root := by
  have hup : resolvePath (workspaceDir root w.asStr.toList) =
      (resolvePath (pathJoin root "workspaces".toList)).dropLast := by
    unfold workspaceDir
    rw [h]
    exact resolve_join_dots
  rw [hup, resolve_workspaces, List.dropLast_concat]

variable (root) in
/-- The directory of dots is at most the one of all workspaces. -/
theorem workspaceDir_dotted (h : Dotted w) :
    resolvePath (workspaceDir root w.asStr.toList) <+: resolvePath root ++ ["workspaces".toList] := by
  rcases h with hdot | hdots
  · rw [workspaceDir_dot hdot]
  · rw [workspaceDir_dots hdots]
    exact List.prefix_append _ _

theorem contained_iff : Contained root w ↔ ¬ Dotted w := by
  constructor
  · rintro ⟨⟨name, hname⟩, _⟩ hdotted
    have hle := (workspaceDir_dotted root hdotted).length_le
    rw [hname, resolve_workspaces] at hle
    simp only [List.length_append, List.length_singleton] at hle
    omega
  · intro h
    refine ⟨⟨w.asStr.toList, ?_⟩, path_inside root w⟩
    rw [workspaceDir_plain h, resolve_workspaces]

/-- A workspace whose directory is in that of another has its paths there. -/
theorem not_apart_of_within (h : resolvePath (workspaceDir root w.asStr.toList) <+:
    resolvePath (workspaceDir root w'.asStr.toList)) : ¬ Apart root w' w := by
  intro hapart
  obtain ⟨rest, _, hhead⟩ := path_inside root w' .head
  apply (hapart .head).2
  rw [hhead]
  exact h.trans (List.prefix_append _ _)

theorem apart_of_plain (hw : ¬ Dotted w) (hw' : ¬ Dotted w') (hne : w ≠ w') : Apart root w w' := by
  intro p
  obtain ⟨rest, hrest, hp⟩ := path_inside root w p
  rw [hp, workspaceDir_plain hw, workspaceDir_plain hw']
  constructor
  · intro hdotted
    have hle := hdotted.length_le
    have hpos : 0 < rest.length := List.length_pos_iff.mpr hrest
    simp only [List.length_append, List.length_singleton] at hle
    omega
  · intro hdotted
    rw [List.append_assoc (_ ++ _) [w.asStr.toList], List.prefix_append_right_inj, List.singleton_append,
      List.cons_prefix_cons] at hdotted
    exact hne (TextId.asStr_injective (String.toList_inj.mp hdotted.1.symm))

/-! ### The paths of objects

The object store names them by their components below the root. -/

/-- **Which workspaces are stored apart.** Those whose id is not of dots: their
directories are among those of all workspaces, with their paths inside and
away from every other workspace. -/
theorem storage_apart_iff (root : List Char) : (∀ w, Contained root w ↔ ¬ Dotted w) ∧
    ∀ w w', w ≠ w' → ((Apart root w w' ∧ Apart root w' w) ↔ ¬ Dotted w ∧ ¬ Dotted w') := by
  refine ⟨fun w => contained_iff, fun w w' hne => ⟨fun hapart => ?_, fun h => ?_⟩⟩
  · have hdots {v v' : WorkspaceId} (hv : Dotted v) (hv' : ¬ Dotted v') : ¬ Apart root v' v := by
      apply not_apart_of_within
      rw [workspaceDir_plain hv']
      exact (workspaceDir_dotted root hv).trans (List.prefix_append _ _)
    by_cases hw : Dotted w
    · by_cases hw' : Dotted w'
      · -- one of the two directories is in the other
        have hdotted := workspaceDir_dotted root hw
        have hdotted' := workspaceDir_dotted root hw'
        rcases Nat.le_total (resolvePath (workspaceDir root w.asStr.toList)).length
          (resolvePath (workspaceDir root w'.asStr.toList)).length with hle | hle
        · exact absurd hapart.2 (not_apart_of_within (List.prefix_of_prefix_length_le hdotted hdotted' hle))
        · exact absurd hapart.1 (not_apart_of_within (List.prefix_of_prefix_length_le hdotted' hdotted hle))
      · exact absurd hapart.2 (hdots hw hw')
    · by_cases hw' : Dotted w'
      · exact absurd hapart.1 (hdots hw' hw)
      · exact ⟨hw, hw'⟩
  · exact ⟨apart_of_plain h.1 h.2 hne, apart_of_plain h.2 h.1 hne.symm⟩

/-- The workspace `..` is stored in the storage root, where the directories of
all others are. -/
theorem dots_not_apart : ¬ ∀ root : List Char, (∀ w, Contained root w) ∧
    ∀ w w', w ≠ w' → Apart root w w' ∧ Apart root w' w := by
  intro h
  have hdots : Dotted ⟨"..", by decide⟩ := .inr rfl
  exact contained_iff.mp ((h "/storage-root".toList).1 ⟨"..", by decide⟩) hdots

end Apart

end RustSync.Paths
