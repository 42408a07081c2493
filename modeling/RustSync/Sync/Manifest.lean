/-
Manifests

A manifest lists the files and directories of a workspace by their paths. Two
entries are the same for synchronisation when kind, size and content hash are:
times and remote references do not count. Its `shape` is what does, so manifests
with equal entries are those with equal shapes.

Key definitions: `ManifestEntry`, `Manifest`, `entriesEqual`, `diffManifests`,
`Manifest.TreeShaped`.
-/
import RustSync.Lib.Path
import RustSync.Protocol.Head

namespace RustSync

/-- The characters of a path as text. -/
def RelPath.text (path : RelPath) : String := String.ofList path

structure FileEntry where
  size : ℕ
  contentHash : String
  modifiedAt : UnixTimestamp
  remoteBlobId : Option BlobId
  remoteChunkIds : List BlobId
deriving DecidableEq

inductive ManifestEntry where
  | file (entry : FileEntry)
  | directory
deriving DecidableEq

/-- `ManifestEntry::file`. -/
def ManifestEntry.ofFile (size : ℕ) (contentHash : String) (modifiedAt : UnixTimestamp) : ManifestEntry :=
  .file ⟨size, contentHash, modifiedAt, none, []⟩

structure Manifest where
  workspaceId : WorkspaceId
  entries : BTreeMap RelPath ManifestEntry

def manifestOf (entries : List (String × ManifestEntry)) : Manifest :=
  ⟨Codec.sampleWorkspace, entries.foldl (fun m entry => m.insert entry.1.toList entry.2) ∅⟩

/-- The errors of manifests, as the core crate has them. -/
inductive ManifestError where
  | protocol (error : ProtocolError)
  | workspaceIdMismatch (manifestWorkspaceId currentWorkspaceId : WorkspaceId)
  | io (text : String)
deriving DecidableEq

/-! ### Paths of manifests -/

/-- A component no path may have. -/
def badComponent (component : List Char) : Bool :=
  component = [] ∨ component = ['.'] ∨ component = ['.', '.']

/-- `validate_manifest_path` of the protocol. -/
def validateManifestPath (path : RelPath) : ProtocolResult Unit := do
  require (path ≠ []) (.invalidManifestPath path.text "path must not be empty")
  require (path.head? ≠ some '/') (.invalidManifestPath path.text "path must be relative")
  require ('\\' ∉ path) (.invalidManifestPath path.text "path must use `/` separators")
  require ((components path).any badComponent = false) (.invalidManifestPath path.text
    "path must be normalized and must not contain empty, `.`, or `..` components")

namespace Manifest

def new (workspaceId : WorkspaceId) : Manifest := ⟨workspaceId, ∅⟩

def get (m : Manifest) (path : RelPath) : Option ManifestEntry := m.entries[path]?

def containsPath (m : Manifest) (path : RelPath) : Bool := (m.get path).isSome

def insert (m : Manifest) (path : RelPath) (entry : ManifestEntry) : ProtocolResult Manifest := do
  validateManifestPath path
  return { m with entries := m.entries.insert path entry }

@[simp] theorem get_new {w : WorkspaceId} {p : RelPath} : (new w).get p = none :=
  Std.ExtTreeMap.getElem?_empty

variable {m m' : Manifest} {p q : RelPath} {e : ManifestEntry}

theorem insert_ok (h : m.insert p e = .ok m') :
    m' = { m with entries := m.entries.insert p e } ∧ validateManifestPath p = .ok () := by
  unfold insert at h
  obtain ⟨hvalid, h⟩ := Except.bind_unit_ok.mp h
  cases h
  exact ⟨rfl, hvalid⟩

theorem get_insert (h : m.insert p e = .ok m') : m'.get q = if p = q then some e else m.get q := by
  obtain ⟨rfl, _⟩ := insert_ok h
  exact BTreeMap.lookup_insert

theorem workspaceId_insert (h : m.insert p e = .ok m') : m'.workspaceId = m.workspaceId := by
  obtain ⟨rfl, _⟩ := insert_ok h
  rfl

/-- Every path above an entry is a directory entry. -/
def TreeShaped (m : Manifest) : Prop :=
  ∀ p e, m.get p = some e → ∀ q, Beneath q p → m.get q = some .directory

theorem treeShaped_iff : m.TreeShaped ↔ ∀ x ∈ m.entries.toList, ∀ q ∈ ancestors x.1, m.get q = some .directory := by
  constructor
  · exact fun h x hx q hq => h x.1 x.2 (BTreeMap.mem_toList.mp hx) q (mem_ancestors.mp hq)
  · exact fun h p e he q hq => h (p, e) (BTreeMap.mem_toList.mpr he) q (mem_ancestors.mpr hq)

instance : Decidable m.TreeShaped := decidable_of_iff _ treeShaped_iff.symm

theorem TreeShaped.some_above (h : m.TreeShaped) (hq : m.get q ≠ none) (hpq : Beneath p q) : m.get p ≠ none := by
  obtain ⟨e, he⟩ := Option.ne_none_iff_exists'.mp hq
  rw [h q e he p hpq]
  simp

theorem TreeShaped.none_beneath (h : m.TreeShaped) (hp : m.get p ≠ some .directory) (hq : Beneath p q) :
    m.get q = none := by
  by_contra hsome
  obtain ⟨e, he⟩ := Option.ne_none_iff_exists'.mp hsome
  exact hp (h q e he p hq)

end Manifest

/-! ### Equal entries -/

/-- What counts of an entry: of a file, the size and the hash. -/
def ManifestEntry.shape : ManifestEntry → Option (ℕ × String)
  | .file entry => some (entry.size, entry.contentHash)
  | .directory => none

def entriesEqual : Option ManifestEntry → Option ManifestEntry → Bool
  | none, none => true
  | some .directory, some .directory => true
  | some (.file left), some (.file right) => left.size = right.size ∧ left.contentHash = right.contentHash
  | _, _ => false

theorem entriesEqual_iff {x y : Option ManifestEntry} :
    entriesEqual x y = true ↔ x.map ManifestEntry.shape = y.map ManifestEntry.shape := by
  rcases x with _ | _ | _ <;> rcases y with _ | _ | _ <;> simp [entriesEqual, ManifestEntry.shape]

@[simp] theorem entriesEqual_self (x : Option ManifestEntry) : entriesEqual x x = true :=
  entriesEqual_iff.mpr rfl

theorem entriesEqual_comm (x y : Option ManifestEntry) : entriesEqual x y = entriesEqual y x := by
  rw [Bool.eq_iff_iff, entriesEqual_iff, entriesEqual_iff, eq_comm]

theorem entriesEqual_trans {x y z : Option ManifestEntry} (hxy : entriesEqual x y = true)
    (hyz : entriesEqual y z = true) : entriesEqual x z = true := by
  rw [entriesEqual_iff] at hxy hyz ⊢
  exact hxy.trans hyz

/-- Equal entries are alike to a third. -/
theorem entriesEqual_congr {x y z : Option ManifestEntry} (h : entriesEqual x y = true) :
    entriesEqual x z = entriesEqual y z := by
  rw [entriesEqual_iff] at h
  rw [Bool.eq_iff_iff, entriesEqual_iff, entriesEqual_iff, h]

theorem entriesEqual_none {x : Option ManifestEntry} : entriesEqual x none = true ↔ x = none := by
  rw [entriesEqual_iff]
  cases x <;> simp

/-- Whether there is a directory entry. -/
def isDirectory (x : Option ManifestEntry) : Bool := x = some .directory

@[simp] theorem isDirectory_iff {x : Option ManifestEntry} : isDirectory x = true ↔ x = some .directory :=
  decide_eq_true_iff

theorem isDirectory_congr {x y : Option ManifestEntry} (h : entriesEqual x y = true) :
    isDirectory x = isDirectory y := by
  rcases x with _ | _ | _ <;> rcases y with _ | _ | _ <;> simp_all [entriesEqual, isDirectory]

namespace Manifest

/-- The same entries at every path. -/
def Agree (m m' : Manifest) : Prop := ∀ p, entriesEqual (m.get p) (m'.get p) = true

variable {m m' m'' : Manifest}

theorem Agree.refl (m : Manifest) : Agree m m := fun _ => entriesEqual_self _

theorem Agree.symm (h : Agree m m') : Agree m' m := fun p => by
  rw [entriesEqual_comm]
  exact h p

theorem Agree.trans (h : Agree m m') (h' : Agree m' m'') : Agree m m'' :=
  fun p => entriesEqual_trans (h p) (h' p)

end Manifest

/-! ### Differences -/

inductive ManifestChange where
  | added (path : RelPath)
  | modified (path : RelPath)
  | deleted (path : RelPath)

def entryChanged : ManifestEntry → ManifestEntry → Bool
  | .file old, .file new => old.size ≠ new.size ∨ old.contentHash ≠ new.contentHash
  | .directory, .directory => false
  | _, _ => true

def diffManifests (old new : Manifest) : List ManifestChange :=
  (new.entries.toList.filterMap fun (path, newEntry) =>
    match old.get path with
    | none => some (.added path)
    | some oldEntry => if entryChanged oldEntry newEntry then some (.modified path) else none) ++
  (old.entries.toList.filterMap fun (path, _) => if new.containsPath path then none else some (.deleted path))

theorem entryChanged_iff {old new : ManifestEntry} :
    entryChanged old new = false ↔ entriesEqual (some old) (some new) = true := by
  cases old <;> cases new <;> simp [entryChanged, entriesEqual]

/-- There is no difference between manifests with the same entries. -/
theorem diffManifests_eq_nil {old new : Manifest} : diffManifests old new = [] ↔ old.Agree new := by
  unfold diffManifests
  rw [List.append_eq_nil_iff, List.filterMap_eq_nil_iff, List.filterMap_eq_nil_iff]
  constructor
  · rintro ⟨hnew, hold⟩ p
    cases hentry : new.get p with
    | none =>
      cases hentry' : old.get p with
      | none => rfl
      | some e =>
        have hdeleted := hold (p, e) (BTreeMap.mem_toList.mpr hentry')
        simp [Manifest.containsPath, hentry] at hdeleted
    | some e =>
      have hchange := hnew (p, e) (BTreeMap.mem_toList.mpr hentry)
      cases hentry' : old.get p with
      | none => simp [hentry'] at hchange
      | some e' =>
        apply entryChanged_iff.mp
        simpa [hentry'] using hchange
  · intro h
    refine ⟨fun ⟨p, e⟩ hmem => ?_, fun ⟨p, e⟩ hmem => ?_⟩
    · have hentry : new.get p = some e := BTreeMap.mem_toList.mp hmem
      have hp := h p
      rw [hentry] at hp
      cases hentry' : old.get p with
      | none => simp [hentry', entriesEqual] at hp
      | some e' =>
        rw [hentry'] at hp
        simp [hentry', entryChanged_iff.mpr hp]
    · have hentry : old.get p = some e := BTreeMap.mem_toList.mp hmem
      have hp := h p
      rw [hentry] at hp
      cases hentry' : new.get p with
      | none => simp [hentry', entriesEqual] at hp
      | some e' => simp [Manifest.containsPath, hentry']

end RustSync
