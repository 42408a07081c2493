/-
Combining the manifests

The loop of a sync that builds the combined manifest from the plan. A conflict
keeps the local subtree and puts the remote one under a fresh name. Names are
fresh, and the manifests are trees, so a copy shares no path with a manifest
or with another copy, and the order of the loop does not matter: every path
has the entry its own resolution gives.

Key definitions: `addConflict`, `combinePath`, `combine`.
-/
import Mathlib.Data.List.Perm.Basic
import RustSync.Sync.Reconciliation
import Std.Data.String.ToNat

namespace RustSync

structure ConflictRecord where
  localCopyPath : RelPath
  remoteCopyPath : RelPath
  remoteDeleted : Bool
deriving DecidableEq

/-- The contents the combining loop looks up, by content hash. -/
structure Blobs where
  base : BTreeMap String Bytes
  loc : BTreeMap String Bytes
  remote : BTreeMap String Bytes

/-- The contents of a remote file, which may have been at hand. -/
def Blobs.ofRemote (blobs : Blobs) (contentHash : String) : Option Bytes :=
  blobs.remote[contentHash]? <|> blobs.loc[contentHash]? <|> blobs.base[contentHash]?

/-- What the combining loop changes. -/
structure Combining where
  combined : Manifest
  conflicts : BTreeMap RelPath ConflictRecord
  reported : List RelPath
  reservedPaths : BTreeSet RelPath
  mergedBytes : BTreeMap String Bytes

/-! ### Conflict copies -/

def conflictCopyPath (path : RelPath) (revision : ℕ) : RelPath :=
  path ++ s!".rustsync-conflict-remote-r{revision}".toList

/-- The names tried for a copy. -/
def copyCandidate (start : RelPath) : ℕ → RelPath
  | 0 => start
  | suffix + 1 => start ++ s!"-{suffix + 1}".toList

/-- The first candidate that is not reserved. One of so many is free. -/
def freeCopyPath (reserved : BTreeSet RelPath) (start : RelPath) : RelPath :=
  (((List.range (reserved.size + 1)).map (copyCandidate start)).find? fun path => path ∉ reserved).getD start

/-- The entries at a path and beneath it. -/
def Manifest.subtree (m : Manifest) (path : RelPath) : List (RelPath × ManifestEntry) :=
  m.entries.toList.filter fun entry => Within path entry.1

def Manifest.insertAll (m : Manifest) (entries : List (RelPath × ManifestEntry)) : ProtocolResult Manifest :=
  entries.foldlM (fun m entry => m.insert entry.1 entry.2) m

def addConflict (path : RelPath) (loc remote : Manifest) (revision : ℕ) (s : Combining) :
    ProtocolResult Combining := do
  let combined ← s.combined.insertAll (loc.subtree path)
  let remoteCopyPath := freeCopyPath s.reservedPaths (conflictCopyPath path revision)
  let copies := (remote.subtree path).map fun entry => (reroot path remoteCopyPath entry.1, entry.2)
  let combined ← combined.insertAll copies
  return { s with
    combined := combined
    reservedPaths := (copies.map Prod.fst).foldl (fun s k => s.insert k) (s.reservedPaths.insert remoteCopyPath)
    conflicts := s.conflicts.insert path ⟨path, remoteCopyPath, !remote.containsPath path⟩
    reported := s.reported ++ [path] }

/-! ### The loop -/

section Loop

variable (c : Crypto) (blobs : Blobs) (base loc remote : Manifest)

/-- The merged text of a file all sides have, as its local entry has the time. -/
def mergedFile (path : RelPath) : Option (FileEntry × Bytes) := do
  let some (.file baseFile) := base.get path | none
  let some (.file localFile) := loc.get path | none
  let some (.file remoteFile) := remote.get path | none
  let baseBytes ← blobs.base[baseFile.contentHash]?
  let localBytes ← blobs.loc[localFile.contentHash]?
  let remoteBytes ← blobs.ofRemote remoteFile.contentHash
  let bytes ← mergeTextThreeWay baseBytes localBytes remoteBytes
  return (⟨bytes.length, sha256Hex c bytes, localFile.modifiedAt, none, []⟩, bytes)

def combineEntry (path : RelPath) (entry : Option ManifestEntry) (s : Combining) : ProtocolResult Combining :=
  match entry with
  | some entry => do
    let combined ← s.combined.insert path entry
    return { s with combined := combined }
  | none => .ok s

def combinePath (revision : ℕ) (s : Combining) (item : ReconciliationPath) : ProtocolResult Combining :=
  match item.action with
  | .unchanged | .upload => combineEntry item.path (loc.get item.path) s
  | .download => combineEntry item.path (remote.get item.path) s
  | .merge =>
    match mergedFile c blobs base loc remote item.path with
    | some (file, bytes) => do
      let combined ← s.combined.insert item.path (.file file)
      return { s with combined := combined, mergedBytes := s.mergedBytes.insert file.contentHash bytes }
    | none => addConflict item.path loc remote revision s
  | .conflict => addConflict item.path loc remote revision s

def Combining.start (conflicts : BTreeMap RelPath ConflictRecord) : Combining where
  combined := .new base.workspaceId
  conflicts := conflicts
  reported := conflicts.keys
  reservedPaths := BTreeSet.ofList (unionPaths [loc, remote, base] ++
    conflicts.toList.map fun record => record.2.remoteCopyPath)
  mergedBytes := ∅

def combine (revision : ℕ) (conflicts : BTreeMap RelPath ConflictRecord) (plan : ReconciliationPlan) :
    ProtocolResult Combining :=
  plan.paths.foldlM (combinePath c blobs base loc remote revision) (.start base loc remote conflicts)

end Loop

/-! ### Names of copies -/

theorem noSlash_decimal (n : ℕ) : '/' ∉ (toString n).toList := by
  intro h
  have hdigits : '/' ∈ Nat.toDigits 10 n := by
    simpa [toString, Nat.repr] using h
  have hdigit := Nat.isDigit_of_mem_toDigits (by decide) (by decide) hdigits
  simp [Char.isDigit] at hdigit

theorem copyCandidate_eq (start : RelPath) (n : ℕ) :
    ∃ tail, copyCandidate start n = start ++ tail ∧ '/' ∉ tail := by
  cases n with
  | zero => exact ⟨[], (List.append_nil _).symm, by simp⟩
  | succ n =>
    refine ⟨_, rfl, ?_⟩
    have hnumber := noSlash_decimal (n + 1)
    have hdash : '/' ∉ (toString "-").toList := by decide
    rw [String.toList_append, List.mem_append, not_or]
    exact ⟨hdash, hnumber⟩

theorem copyCandidate_injective (start : RelPath) : Function.Injective (copyCandidate start) := by
  have hdash (n : ℕ) : copyCandidate start (n + 1) = start ++ '-' :: (toString (n + 1)).toList := by
    have htext : s!"-{n + 1}".toList = '-' :: (toString (n + 1)).toList := by
      have hhead : (toString "-").toList = ['-'] := by decide
      rw [String.toList_append, hhead, List.singleton_append]
    exact congrArg (start ++ ·) htext
  intro m n h
  cases m with
  | zero =>
    cases n with
    | zero => rfl
    | succ n =>
      rw [hdash] at h
      simp [copyCandidate] at h
  | succ m =>
    cases n with
    | zero =>
      rw [hdash] at h
      simp [copyCandidate] at h
    | succ n =>
      rw [hdash, hdash] at h
      have htext := List.append_cancel_left h
      simp only [List.cons.injEq, true_and] at htext
      have hnumbers : toString (m + 1) = toString (n + 1) := String.toList_injective htext
      exact Nat.repr_injective hnumbers

theorem freeCopyPath_found (reserved : BTreeSet RelPath) (start : RelPath) :
    (((List.range (reserved.size + 1)).map (copyCandidate start)).find?
      fun path => decide (path ∉ reserved)).isSome := by
  have hfree : ∃ path ∈ (List.range (reserved.size + 1)).map (copyCandidate start), path ∉ reserved := by
    by_contra hnone
    push Not at hnone
    have hnodup : ((List.range (reserved.size + 1)).map (copyCandidate start)).Nodup :=
      List.Nodup.map (copyCandidate_injective start) List.nodup_range
    have hsubset : (List.range (reserved.size + 1)).map (copyCandidate start) ⊆ reserved.toList :=
      fun path hpath => Std.ExtTreeSet.mem_toList.mpr (hnone path hpath)
    have hle := (List.subperm_of_subset hnodup hsubset).length_le
    rw [List.length_map, List.length_range, Std.ExtTreeSet.length_toList] at hle
    exact Nat.not_succ_le_self _ hle
  rw [List.find?_isSome]
  obtain ⟨path, hpath, hnot⟩ := hfree
  exact ⟨path, hpath, decide_eq_true hnot⟩

theorem freeCopyPath_spec (reserved : BTreeSet RelPath) (start : RelPath) :
    freeCopyPath reserved start ∉ reserved ∧ ∃ n, freeCopyPath reserved start = copyCandidate start n := by
  obtain ⟨path, hpath⟩ := Option.isSome_iff_exists.mp (freeCopyPath_found reserved start)
  have heq : freeCopyPath reserved start = path := by
    unfold freeCopyPath
    rw [hpath]
    rfl
  rw [heq]
  have hfound := List.find?_some hpath
  refine ⟨of_decide_eq_true hfound, ?_⟩
  obtain ⟨n, _, hn⟩ := List.mem_map.mp (List.mem_of_find?_eq_some hpath)
  exact ⟨n, hn.symm⟩

/-- A copy lies next to the path. -/
theorem freeCopyPath_beside (reserved : BTreeSet RelPath) (path : RelPath) (revision : ℕ) :
    ∃ tail, freeCopyPath reserved (conflictCopyPath path revision) = path ++ tail ∧ '/' ∉ tail := by
  obtain ⟨_, n, hn⟩ := freeCopyPath_spec reserved (conflictCopyPath path revision)
  obtain ⟨tail, htail, hslash⟩ := copyCandidate_eq (conflictCopyPath path revision) n
  refine ⟨s!".rustsync-conflict-remote-r{revision}".toList ++ tail, ?_, ?_⟩
  · rw [hn, htail, conflictCopyPath, List.append_assoc]
  · have hnumber := noSlash_decimal revision
    have hword : '/' ∉ (toString ".rustsync-conflict-remote-r").toList := by decide
    rw [String.toList_append, List.mem_append, List.mem_append, not_or, not_or]
    exact ⟨⟨hword, hnumber⟩, hslash⟩

/-! ### Inserting subtrees -/

section Subtrees

variable {m m' src : Manifest} {root copy p : RelPath}

theorem mem_subtree {e : ManifestEntry} : (p, e) ∈ src.subtree root ↔ Within root p ∧ src.get p = some e := by
  unfold Manifest.subtree
  rw [List.mem_filter, BTreeMap.mem_toList, decide_eq_true_iff, and_comm]
  rfl

theorem subtree_nodup (src : Manifest) (root : RelPath) : ((src.subtree root).map Prod.fst).Nodup := by
  have hkeys : (src.entries.toList.map Prod.fst).Nodup := by
    rw [List.Nodup, List.pairwise_map]
    refine Std.ExtTreeMap.distinct_keys_toList.imp fun h heq => h ?_
    exact Std.LawfulEqOrd.compare_eq_iff_eq.mpr heq
  exact hkeys.sublist (List.filter_sublist.map Prod.fst)

theorem get_insertAll_of_mem {l : List (RelPath × ManifestEntry)} {e : ManifestEntry}
    (hnodup : (l.map Prod.fst).Nodup) (h : m.insertAll l = .ok m') (hmem : (p, e) ∈ l) : m'.get p = some e := by
  refine foldlM_inv (fun done m => (p, e) ∈ done → m.get p = some e) (by simp) ?_ h hmem
  intro done a rest m m' hl hm hinsert hin
  rw [Manifest.get_insert hinsert]
  by_cases hsame : a.1 = p
  · -- the item is the path's only one
    have hitem : (p, e) = a := by
      have hin' : (p, e) ∈ done ++ a :: rest := by
        have hmore : (p, e) ∈ (done ++ [a]) ++ rest := List.mem_append_left _ hin
        simpa using hmore
      rw [hl] at hnodup
      have ha : a ∈ done ++ a :: rest := by simp
      exact List.inj_on_of_nodup_map hnodup hin' ha hsame.symm
    rw [if_pos hsame, ← hitem]
  · rw [if_neg hsame]
    apply hm
    rcases List.mem_append.mp hin with hin | hin
    · exact hin
    · rw [List.mem_singleton] at hin
      rw [← hin] at hsame
      exact absurd rfl hsame

theorem get_insertAll_of_not_mem {l : List (RelPath × ManifestEntry)} (h : m.insertAll l = .ok m')
    (hp : ∀ e, (p, e) ∉ l) : m'.get p = m.get p := by
  refine foldlM_inv (fun _ m' => m'.get p = m.get p) rfl ?_ h
  intro done a rest s s' hl hs hinsert
  have hne : a.1 ≠ p := by
    intro heq
    apply hp a.2
    rw [hl, ← heq]
    simp
  rw [Manifest.get_insert hinsert, if_neg hne, hs]

/-- A subtree inserted under another root. -/
theorem get_insertSubtree (h : m.insertAll ((src.subtree root).map fun entry =>
      (reroot root copy entry.1, entry.2)) = .ok m') :
    m'.get p = if Within copy p ∧ src.get (reroot copy root p) ≠ none then src.get (reroot copy root p)
      else m.get p := by
  have hnodup : (((src.subtree root).map fun entry => (reroot root copy entry.1, entry.2)).map
      Prod.fst).Nodup := by
    rw [List.map_map, List.Nodup, List.pairwise_map]
    have hkeys := subtree_nodup src root
    rw [List.Nodup, List.pairwise_map] at hkeys
    refine hkeys.imp_of_mem fun {a b} ha hb hne heq => hne ?_
    exact reroot_inj (mem_subtree.mp ha).1 (mem_subtree.mp hb).1 heq
  split
  · rename_i hp
    obtain ⟨e, he⟩ := Option.ne_none_iff_exists'.mp hp.2
    rw [he]
    apply get_insertAll_of_mem hnodup h
    rw [List.mem_map]
    refine ⟨(reroot copy root p, e), mem_subtree.mpr ⟨within_reroot hp.1, he⟩, ?_⟩
    rw [reroot_reroot hp.1]
  · rename_i hp
    apply get_insertAll_of_not_mem h
    intro e hmem
    obtain ⟨⟨q, e'⟩, hq, heq⟩ := List.mem_map.mp hmem
    cases heq
    obtain ⟨hwithin, he⟩ := mem_subtree.mp hq
    refine hp ⟨within_reroot hwithin, ?_⟩
    rw [reroot_reroot hwithin, he]
    simp

theorem get_insertSubtree_self (h : m.insertAll (src.subtree root) = .ok m') :
    m'.get p = if Within root p ∧ src.get p ≠ none then src.get p else m.get p := by
  have hself {q : RelPath} (hq : Within root q) : reroot root root q = q := by
    obtain ⟨rest, rfl, _⟩ := within_iff.mp hq
    simp [reroot]
  have hmap : (src.subtree root).map (fun entry => (reroot root root entry.1, entry.2)) = src.subtree root := by
    have hid : (src.subtree root).map (fun entry => (reroot root root entry.1, entry.2)) =
        (src.subtree root).map id := by
      apply List.map_congr_left
      intro entry hentry
      rw [hself (mem_subtree.mp hentry).1]
      rfl
    rw [hid, List.map_id]
  rw [← hmap] at h
  rw [get_insertSubtree h]
  by_cases hp : Within root p
  · rw [hself hp]
  · rw [if_neg fun h => hp h.1, if_neg fun h => hp h.1]

end Subtrees

end RustSync
