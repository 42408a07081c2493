/-
Integrity of the object store

Whatever requests interleave, and wherever crashes fall, a catalog row
describes a canonical file, and a canonical file holds the bytes its name is
the digest of and stays. Only the holder of the lock of puts writes files, and
it links a canonical name to a file that is complete.

Key definitions: `Sound`, `storeContract`. Key theorem: `object_store_intact`.
-/
import RustSync.Server.ObjectStore

namespace RustSync.Objects

open Fallible
open Indexed (StoredObjectKind StoredObjectRow StoredObjectMetadata ObjectInsertResult matchesId corrupt
  validateObjectRows metadataOfRows toI64 objectHashAlgorithm)

/-! ### Names -/

theorem stripStart_append (start rest : String) : stripStart start (start ++ rest) = rest := by
  have hafter : afterStart start (start ++ rest) = some rest.toList := by
    unfold afterStart
    rw [String.toList_append, if_pos (List.isPrefixOf_iff_prefix.mpr (List.prefix_append _ _)),
      ← String.length_toList, List.drop_left]
  unfold stripStart
  rw [hafter]
  exact String.ofList_toList

/-- The name of an object's file, without its ending. -/
def nameOf (kind : StoredObjectKind) (id : String) : String := stripStart (idKind kind).requiredPrefix id

theorem pathOf_eq (w : WorkspaceId) (kind : StoredObjectKind) (id : String) :
    pathOf w kind id = objectPath (objectsDir w.asStr) (nameOf kind id) := by
  cases kind <;> rfl

theorem matchesId_iff {c : Crypto} {kind : StoredObjectKind} {id : String} {b : Bytes} :
    matchesId c kind id b = true ↔ (idKind kind).requiredPrefix ++ sha256Hex c b = id := by
  cases kind <;> exact decide_eq_true_iff

/-- The file of matching bytes is named by their digest. -/
theorem nameOf_of_matchesId {c : Crypto} {kind : StoredObjectKind} {id : String} {b : Bytes}
    (h : matchesId c kind id b = true) : nameOf kind id = sha256Hex c b := by
  rw [← matchesId_iff.mp h]
  exact stripStart_append _ _

/-- An identifier is its prefix and the name of its file. -/
theorem append_nameOf {kind : StoredObjectKind} (id : ObjectId (idKind kind)) :
    (idKind kind).requiredPrefix ++ nameOf kind id.asStr = id.asStr := by
  obtain ⟨hash, htext, _⟩ := id.toList_asStr
  unfold nameOf stripStart
  rw [afterStart_some.mpr htext]
  apply String.toList_injective
  rw [String.toList_append, htext]
  exact congrArg _ String.toList_ofList

theorem matchesId_of_nameOf {c : Crypto} {kind : StoredObjectKind} (id : ObjectId (idKind kind)) {b : Bytes}
    (h : nameOf kind id.asStr = sha256Hex c b) : matchesId c kind id.asStr b = true := by
  rw [matchesId_iff, ← h]
  exact append_nameOf id

/-! ### Paths -/

theorem objectPath_eq (w name : String) : ∃ first second,
    objectPath (objectsDir w) name = ["workspaces", w, "objects", first, second, name ++ ".enc"] :=
  ⟨_, _, rfl⟩

/-- A canonical path tells the workspace and the name. -/
theorem objectPath_injective {w w' name name' : String}
    (h : objectPath (objectsDir w) name = objectPath (objectsDir w') name') : w = w' ∧ name = name' := by
  obtain ⟨f, t, hpath⟩ := objectPath_eq w name
  obtain ⟨f', t', hpath'⟩ := objectPath_eq w' name'
  rw [hpath, hpath'] at h
  simp only [List.cons.injEq, true_and, and_true] at h
  obtain ⟨hw, _, _, hfile⟩ := h
  have hchars := congrArg String.toList hfile
  rw [String.toList_append, String.toList_append] at hchars
  exact ⟨hw, String.toList_injective (List.append_cancel_right hchars)⟩

/-- Not the canonical path of an object. -/
def Temporary (path : Path) : Prop := ∀ w name : String, objectPath (objectsDir w) name ≠ path

theorem temporary_tempPathFor (path : Path) (processId timestamp : ℕ) :
    Temporary (tempPathFor path processId timestamp) := by
  intro w name heq
  obtain ⟨first, second, hpath⟩ := objectPath_eq w name
  rw [hpath] at heq
  -- the last characters differ
  have hlast := congrArg (fun p => p.getLast?.map fun text : String => text.toList.getLast?) heq
  have htmp : (toString ".tmp").toList.getLast? = some 'p' := rfl
  simp [tempPathFor, htmp] at hlast

theorem Temporary.ne {path : Path} (h : Temporary path) (w : WorkspaceId) (kind : StoredObjectKind)
    (id : String) : pathOf w kind id ≠ path := by
  rw [pathOf_eq]
  exact h _ _

/-! ### The contract -/

section Contract

variable {ι : Type} (c : Crypto)

/-- Canonical files are named by their digests, and rows describe them. -/
structure Sound (s : State ι) : Prop where
  files : ∀ (w : WorkspaceId) (name : String) (b : Bytes),
    s.files (objectPath (objectsDir w.asStr) name) = some b → sha256Hex c b = name ∧ b.length < 2 ^ 63
  rows : ∀ (w : WorkspaceId) (kind : StoredObjectKind) (id : String) (row : StoredObjectRow),
    s.objects w kind id = some row → ∃ b, s.files (pathOf w kind id) = some b ∧
      matchesId c kind id b = true ∧ row = ⟨kind, objectHashAlgorithm, b.length⟩

/-- Canonical files stay. -/
def FilesKept (s s' : State ι) : Prop := ∀ (w : WorkspaceId) (name : String) (b : Bytes),
  s.files (objectPath (objectsDir w.asStr) name) = some b →
    s'.files (objectPath (objectsDir w.asStr) name) = some b

/-- Rows stay. -/
def RowsKept (s s' : State ι) : Prop :=
  ∀ w kind id row, s.objects w kind id = some row → s'.objects w kind id = some row

/-- Files and rows stay, only the holder of the lock writes files, and the
lock is given back by its holder. -/
structure Guarantees (i : ι) (s s' : State ι) : Prop where
  files : FilesKept s s'
  rows : RowsKept s s'
  unlocked : s.putLock ≠ some i → s'.files = s.files
  lock : ∀ j, j ≠ i → s.putLock = some j → s'.putLock = some j

def storeContract : Contract ι (State ι) where
  inv := Sound c
  guar := Guarantees
  idle _ _ := True

variable {c} {i : ι} {s s' : State ι}

theorem Guarantees.refl (s : State ι) : Guarantees i s s :=
  ⟨fun _ _ _ h => h, fun _ _ _ _ h => h, fun _ => rfl, fun _ _ h => h⟩

/-- The object's canonical file holds `b`. -/
def HasFile (w : WorkspaceId) (kind : StoredObjectKind) (id : String) (b : Bytes) (s : State ι) : Prop :=
  s.files (pathOf w kind id) = some b

def Holding (i : ι) (s : State ι) : Prop := s.putLock = some i

theorem stable_hasFile {w : WorkspaceId} {kind : StoredObjectKind} {id : String} {b : Bytes} :
    (storeContract c).Stable i (HasFile w kind id b) := by
  intro j _ s s' _ _ hguar h
  unfold HasFile at h ⊢
  rw [pathOf_eq] at h ⊢
  exact hguar.files w _ b h

theorem stable_holding : (storeContract c).Stable i (Holding i) :=
  fun _ hj _ _ _ _ hguar h => hguar.lock i hj.symm h

/-- While a thread holds the lock, files are as it left them. -/
theorem stable_file {path : Path} {content : Option Bytes} :
    (storeContract c).Stable i fun s => Holding i s ∧ s.files path = content := by
  intro j hj s s' hs hs' hguar h
  obtain ⟨hlock, hfile⟩ := h
  have hother : s.putLock ≠ some j := by
    rw [hlock]
    exact fun heq => hj (Option.some.inj heq).symm
  refine ⟨hguar.lock i hj.symm hlock, ?_⟩
  rw [hguar.unlocked hother]
  exact hfile

/-- The bytes of an object's file are the identifier's. -/
theorem HasFile.matches (hs : Sound c s) {w : WorkspaceId} {kind : StoredObjectKind}
    {id : ObjectId (idKind kind)} {b : Bytes} (h : HasFile w kind id.asStr b s) :
    matchesId c kind id.asStr b = true ∧ b.length < 2 ^ 63 := by
  unfold HasFile at h
  rw [pathOf_eq] at h
  obtain ⟨hname, hlength⟩ := hs.files w _ b h
  exact ⟨matchesId_of_nameOf id hname.symm, hlength⟩

/-- A change of a temporary file, by the holder of the lock. -/
theorem setFile_temporary (hs : Sound c s) (hlock : Holding i s) {path : Path} (hpath : Temporary path)
    (content : Option Bytes) :
    Sound c (s.setFile path content) ∧ Guarantees i s (s.setFile path content) := by
  have hfiles (w name : String) : (s.setFile path content).files (objectPath (objectsDir w) name) =
      s.files (objectPath (objectsDir w) name) := Function.update_of_ne (hpath w name) _ _
  refine ⟨⟨fun w name b hb => ?_, fun w kind id row hrow => ?_⟩, ⟨fun w name b hb => ?_, fun _ _ _ _ h => h,
    fun hne => absurd hlock hne, fun _ _ h => h⟩⟩
  · rw [hfiles] at hb
    exact hs.files w name b hb
  · obtain ⟨b, hb, hrest⟩ := hs.rows w kind id row hrow
    refine ⟨b, ?_, hrest⟩
    rw [pathOf_eq] at hb ⊢
    rw [hfiles]
    exact hb
  · rw [hfiles]
    exact hb

/-- Linking a complete file to its canonical name. -/
theorem setFile_canonical (hs : Sound c s) (hlock : Holding i s) {w : WorkspaceId} {kind : StoredObjectKind}
    {id : String} {b : Bytes} (hnone : s.files (pathOf w kind id) = none)
    (hmatch : matchesId c kind id b = true) (hlength : b.length < 2 ^ 63) :
    Sound c (s.setFile (pathOf w kind id) (some b)) ∧
      Guarantees i s (s.setFile (pathOf w kind id) (some b)) := by
  have hother {path : Path} {b' : Bytes} (hb' : s.files path = some b') :
      (s.setFile (pathOf w kind id) (some b)).files path = some b' := by
    have hne : path ≠ pathOf w kind id := by
      intro heq
      rw [heq, hnone] at hb'
      cases hb'
    exact (Function.update_of_ne hne _ _).trans hb'
  refine ⟨⟨fun w' name b' hb' => ?_, fun w' kind' id' row hrow => ?_⟩, ⟨fun _ _ _ hb' => hother hb',
    fun _ _ _ _ h => h, fun hne => absurd hlock hne, fun _ _ h => h⟩⟩
  · by_cases hsame : objectPath (objectsDir w'.asStr) name = pathOf w kind id
    · have hcontent : (s.setFile (pathOf w kind id) (some b)).files (objectPath (objectsDir w'.asStr) name) =
          some b := by
        rw [hsame]
        exact Function.update_self _ _ _
      rw [hcontent] at hb'
      cases hb'
      rw [pathOf_eq] at hsame
      obtain ⟨_, hname⟩ := objectPath_injective hsame
      rw [hname, nameOf_of_matchesId hmatch]
      exact ⟨rfl, hlength⟩
    · have hcontent : (s.setFile (pathOf w kind id) (some b)).files (objectPath (objectsDir w'.asStr) name) =
          s.files (objectPath (objectsDir w'.asStr) name) := Function.update_of_ne hsame _ _
      rw [hcontent] at hb'
      exact hs.files w' name b' hb'
  · obtain ⟨b', hb', hrest⟩ := hs.rows w' kind' id' row hrow
    exact ⟨b', hother hb', hrest⟩

/-- A row for a file that is there. -/
theorem insertRow_keeps (hs : Sound c s) {w : WorkspaceId} {kind : StoredObjectKind} {id : String} {b : Bytes}
    (hfile : HasFile w kind id b s) (hmatch : matchesId c kind id b = true)
    (hnone : s.objects w kind id = none) :
    Sound c (s.insertRow w kind id b.length) ∧ Guarantees i s (s.insertRow w kind id b.length) := by
  refine ⟨⟨hs.files, fun w' kind' id' row hrow => ?_⟩, ⟨fun _ _ _ h => h, fun w' kind' id' row hrow => ?_,
    fun _ => rfl, fun _ _ h => h⟩⟩
  · by_cases hsame : w' = w ∧ kind' = kind ∧ id' = id
    · obtain ⟨rfl, rfl, rfl⟩ := hsame
      simp only [State.insertRow, and_self, ↓reduceIte, Option.some.injEq] at hrow
      exact ⟨b, hfile, hmatch, hrow.symm⟩
    · simp only [State.insertRow, if_neg hsame] at hrow
      exact hs.rows w' kind' id' row hrow
  · have hne : ¬ (w' = w ∧ kind' = kind ∧ id' = id) := by
      intro hsame
      obtain ⟨rfl, rfl, rfl⟩ := hsame
      rw [hnone] at hrow
      cases hrow
    simp only [State.insertRow, if_neg hne]
    exact hrow

end Contract

/-! ### The catalog -/

section Programs

variable {ι : Type} {c : Crypto} {i : ι} {α : Type} {w : WorkspaceId}
  {kind : StoredObjectKind} {b : Bytes} {err P : State ι → Prop} {post : α → State ι → Prop}

/-- A proof outline of a program of the store. -/
abbrev Proved (c : Crypto) (i : ι) (err pre : State ι → Prop) (x : Storage α)
    (post : α → State ι → Prop) : Prop :=
  Outlined (storeContract c) (fun i o s r s' => State.Runs i o s r s') i err pre x post

/-- A call that only reads, and what is known of its answer. -/
theorem read {o : Op} (φ : o.Val → State ι → Prop) {f : o.Val → Storage α}
    (hP : (storeContract c).Stable i P)
    (hread : ∀ s r s', Sound c s → P s → State.Runs i o s r s' → s' = s ∧ ∃ a, r = .ok a ∧ φ a s)
    (herr : (storeContract c).Stable i err)
    (hf : ∀ a, Proved c i err (fun s => P s ∧ φ a s) (f a) post) :
    Proved c i err P (call o >>= f) post := by
  apply Outlined.op_bind hP _ herr hf
  intro s r s' hs hp hrun
  obtain ⟨rfl, a, rfl, ha⟩ := hread s r s' hs hp hrun
  exact ⟨hs, Guarantees.refl _, hp, ha⟩

/-- The row of an object of `kind` whose bytes are `b`. -/
def rowOf (kind : StoredObjectKind) (b : Bytes) : StoredObjectRow := ⟨kind, objectHashAlgorithm, b.length⟩

/-- There is the row that describes the file, or none. -/
theorem rows_of_file {s : State ι} (hs : Sound c s) {id : String} (hfile : HasFile w kind id b s) :
    (s.objects w kind id).toList = [] ∨ (s.objects w kind id).toList = [rowOf kind b] := by
  cases hrow : s.objects w kind id with
  | none => exact .inl rfl
  | some row =>
    obtain ⟨b', hb', _, rfl⟩ := hs.rows w kind id row hrow
    have hsame : some b' = some b := hb'.symm.trans hfile
    rw [Option.some.inj hsame]
    exact .inr rfl

/-- An identifier is of one kind. -/
theorem kind_unique {kind' : StoredObjectKind} {id : String} {b' : Bytes} (h : matchesId c kind id b = true)
    (h' : matchesId c kind' id b' = true) : kind' = kind := by
  have hsame := (matchesId_iff.mp h).trans (matchesId_iff.mp h').symm
  have hfirst := congrArg (fun text => text.toList.head?) hsame
  cases kind <;> cases kind' <;> first
    | rfl
    | simp [idKind, blobIdKind, manifestIdKind] at hfirst

/-- Rows under the identifier are of its kind. -/
theorem rows_by_objectId {s : State ι} (hs : Sound c s) {id : String} (hfile : HasFile w kind id b s)
    (hmatch : matchesId c kind id b = true) :
    (s.objects w .blob id).toList ++ (s.objects w .manifest id).toList = [] ∨
      (s.objects w .blob id).toList ++ (s.objects w .manifest id).toList = [rowOf kind b] := by
  have hother {kind' : StoredObjectKind} (hne : kind' ≠ kind) : s.objects w kind' id = none := by
    by_contra hsome
    obtain ⟨row, hrow⟩ := Option.ne_none_iff_exists'.mp hsome
    obtain ⟨b', _, hmatch', _⟩ := hs.rows w kind' id row hrow
    exact hne (kind_unique hmatch hmatch')
  have hrows := rows_of_file hs hfile
  cases kind with
  | blob =>
    have hnone : s.objects w .manifest id = none := hother (by decide)
    rw [hnone, Option.toList_none, List.append_nil]
    exact hrows
  | manifest =>
    have hnone : s.objects w .blob id = none := hother (by decide)
    rw [hnone, Option.toList_none, List.nil_append]
    exact hrows

theorem validateObjectRows_ok {id : String} :
    validateObjectRows ⟨id, kind, b.length⟩ [rowOf kind b] = .ok .exactExisting := by
  simp [validateObjectRows, rowOf]

/-- Cataloguing a file that is there succeeds. -/
theorem insertObjectIfAbsent_proved {id : String} (hP : (storeContract c).Stable i P)
    (hfile : ∀ s, Sound c s → P s → HasFile w kind id b s)
    (hrow : ∀ s, P s → P (s.insertRow w kind id b.length))
    (hmatch : matchesId c kind id b = true) (hlength : b.length < 2 ^ 63)
    (herr : (storeContract c).Stable i err) :
    Proved c i err P (insertObjectIfAbsent w ⟨id, kind, b.length⟩) fun _ => P := by
  have hsize : toI64 b.length "encrypted object size" = .ok (b.length : ℤ) := if_pos hlength
  have hdone {Q : State ι → Prop} (hQ : (storeContract c).Stable i Q) :
      Proved c i err (fun s => P s ∧ Q s) (check (validateObjectRows ⟨id, kind, b.length⟩ [rowOf kind b]))
        fun _ => P :=
    Outlined.check_ok_last validateObjectRows_ok (hP.and hQ) fun _ _ h => h.1
  unfold insertObjectIfAbsent
  apply Outlined.check_ok hsize
  refine read (o := .objectRowsById w kind id) (fun (rows : List StoredObjectRow) _ =>
    rows = [] ∨ rows = [rowOf kind b]) hP ?_ herr fun rows => ?_
  · rintro s r s' hs hp ⟨now, hrun⟩
    cases hrun
    exact ⟨rfl, _, rfl, rows_of_file hs (hfile s hs hp)⟩
  refine Outlined.assume (hP.and Contract.stable_const) (fun s _ h => h.2) fun hrows => ?_
  rcases hrows with rfl | rfl
  · rw [if_neg (by simp)]
    apply Outlined.left _ Contract.stable_const
    refine read (o := .objectRowsByObjectId w id) (fun (rows : List StoredObjectRow) _ =>
      rows = [] ∨ rows = [rowOf kind b]) hP ?_ herr fun rows => ?_
    · rintro s r s' hs hp ⟨now, hrun⟩
      cases hrun
      exact ⟨rfl, _, rfl, rows_by_objectId hs (hfile s hs hp) hmatch⟩
    refine Outlined.assume (hP.and Contract.stable_const) (fun s _ h => h.2) fun hrows => ?_
    rcases hrows with rfl | rfl
    · rw [if_neg (by simp)]
      apply Outlined.left _ Contract.stable_const
      have hboth : (storeContract c).Stable i fun s => P s ∧ s.objects w kind id = some (rowOf kind b) :=
        hP.and fun _ _ _ _ _ _ hguar h => hguar.rows _ _ _ _ h
      have hinsert : Proved c i err P (call (.insertObject w kind id b.length)) fun _ s =>
          P s ∧ s.objects w kind id = some (rowOf kind b) := by
        refine Outlined.op hP ?_ (fun _ => hboth) herr
        rintro s r s' hs hp ⟨now, hrun⟩
        cases hrows : s.objects w kind id with
        | none =>
          simp only [State.run, hrows, Option.isNone_none, ↓reduceIte] at hrun
          cases hrun
          obtain ⟨hs', hguar⟩ := insertRow_keeps (i := i) hs (hfile s hs hp) hmatch hrows
          refine ⟨hs', hguar, hrow s hp, ?_⟩
          simp [State.insertRow, rowOf]
        | some row =>
          simp only [State.run, hrows, Option.isNone_some, Bool.false_eq_true, ↓reduceIte] at hrun
          cases hrun
          refine ⟨hs, Guarantees.refl _, hp, ?_⟩
          obtain ⟨b', hb', _, rfl⟩ := hs.rows w kind id row hrows
          have hsame : some b' = some b := hb'.symm.trans (hfile s hs hp)
          rw [hrows, Option.some.inj hsame, rowOf]
      refine Outlined.bind hinsert herr fun inserted => ?_
      · refine read (o := .objectRowsById w kind id) (fun (rows : List StoredObjectRow) _ =>
          rows = [rowOf kind b]) hboth ?_ herr fun rows => ?_
        · rintro s r s' hs hp ⟨now, hrun⟩
          cases hrun
          rw [hp.2]
          exact ⟨rfl, _, rfl, rfl⟩
        · refine Outlined.assume (hboth.and Contract.stable_const) (fun s _ h => h.2) fun hrows => ?_
          rw [hrows]
          apply Outlined.check_ok validateObjectRows_ok
          exact Outlined.pure (hboth.and Contract.stable_const) fun _ _ h => h.1.1
    · rw [if_pos (by simp)]
      exact hdone Contract.stable_const
  · rw [if_pos (by simp)]
    exact hdone Contract.stable_const

/-! ### Reading objects -/

/-- A file that is read is verified and catalogued. -/
theorem verifyBackfill_proved {id : ObjectId (idKind kind)} (hP : (storeContract c).Stable i P)
    (hfile : ∀ s, Sound c s → P s → HasFile w kind id.asStr b s)
    (hrow : ∀ s, P s → P (s.insertRow w kind id.asStr b.length)) (herr : (storeContract c).Stable i err) :
    Proved c i err P (verifyBackfill c w kind id.asStr b) fun _ => P := by
  unfold verifyBackfill
  refine Outlined.assume hP (fun s hs hp => (hfile s hs hp).matches hs) fun hb => ?_
  apply Outlined.check_ok (b := ()) (require_ok.mpr hb.1)
  refine Outlined.bind (insertObjectIfAbsent_proved hP hfile hrow hb.1 hb.2 herr) herr fun _ => ?_
  exact Outlined.pure hP fun _ _ h => h

/-- Looking for a catalog row changes nothing. -/
theorem reportMissingCatalogRow_proved {id : String} (hP : (storeContract c).Stable i P)
    (herr : (storeContract c).Stable i err) (hfail : ∀ s, P s → err s) :
    Proved c i err P (reportMissingCatalogRow w kind id) fun _ => P := by
  have hread (o : Op) (hsame : ∀ s r s', State.Runs i o s r s' → s' = s ∧ ∃ a, r = .ok a)
      {f : o.Val → Storage (Option StoredObjectMetadata)}
      (hf : ∀ a, Proved c i err P (f a) fun _ => P) : Proved c i err P (call o >>= f) fun _ => P := by
    refine read (fun _ _ => True) hP (fun s r s' _ _ hrun => ?_) herr fun a =>
      Outlined.left (hf a) Contract.stable_true
    obtain ⟨hs, a, ha⟩ := hsame s r s' hrun
    exact ⟨hs, a, ha, trivial⟩
  have hmetadata : Proved c i err P (getObjectMetadata w kind id) fun _ => P := by
    unfold getObjectMetadata
    refine hread (.objectRowsById w kind id) ?_ fun rows => ?_
    · rintro s r s' ⟨now, hrun⟩
      cases hrun
      exact ⟨rfl, _, rfl⟩
    change List StoredObjectRow at rows
    by_cases hrows : rows = []
    · rw [if_pos hrows]
      refine hread (.objectRowsByObjectId w id) ?_ fun conflicting => ?_
      · rintro s r s' ⟨now, hrun⟩
        cases hrun
        exact ⟨rfl, _, rfl⟩
      refine Outlined.check_bind hP (fun s _ h => hfail s h) fun _ _ => ?_
      exact Outlined.pure hP fun _ _ h => h
    · rw [if_neg hrows]
      refine Outlined.check_bind hP (fun s _ h => hfail s h) fun _ _ => ?_
      exact Outlined.pure hP fun _ _ h => h
  unfold reportMissingCatalogRow
  refine Outlined.bind hmetadata herr fun metadata => ?_
  exact Outlined.check hP (fun s _ h => hfail s h) fun _ _ s _ h => h

/-- Reading an object's file, and what is done with it or without it. -/
theorem readFile_proved {id : String} {f : Bytes → Storage α} {g : Storage α}
    (hP : (storeContract c).Stable i P) (herr : (storeContract c).Stable i err)
    (hf : ∀ b, Proved c i err (fun s => P s ∧ HasFile w kind id b s) (f b) post)
    (hg : (∃ s, P s ∧ s.files (pathOf w kind id) = none) → Proved c i err P g post) :
    Proved c i err P (do
      let found : Option Bytes ← call (.readFile (pathOf w kind id))
      match found with
      | some bytes => f bytes
      | none => g) post := by
  refine read (o := .readFile (pathOf w kind id)) (fun (found : Option Bytes) s =>
    (∀ b, found = some b → HasFile w kind id b s) ∧
      (found = none → ∃ s, P s ∧ s.files (pathOf w kind id) = none)) hP ?_ herr fun found => ?_
  · rintro s r s' hs hp ⟨now, hrun⟩
    cases hrun
    exact ⟨rfl, _, rfl, fun b hb => hb, fun hnone => ⟨s, hp, hnone⟩⟩
  have hstable : (storeContract c).Stable i fun s => P s ∧ (∀ b, found = some b → HasFile w kind id b s) ∧
      (found = none → ∃ s, P s ∧ s.files (pathOf w kind id) = none) := by
    refine hP.and (Contract.Stable.and ?_ Contract.stable_const)
    intro j hj s s' hs hs' hguar h b hb
    exact stable_hasFile j hj s s' hs hs' hguar (h b hb)
  cases found with
  | none =>
    refine Outlined.assume hstable (fun s _ h => h.2.2 rfl) fun hnone => ?_
    exact (hg hnone).weaken hstable fun _ _ h => h.1
  | some b => exact (hf b).weaken hstable fun _ _ h => ⟨h.1, h.2.1 b rfl⟩

theorem getObject_proved {id : ObjectId (idKind kind)} {missing : ServerError} :
    Proved c i (fun _ => True) (fun _ => True) (getObject c w kind id.asStr missing)
      fun b s => HasFile w kind id.asStr b s := by
  have hstable {b : Bytes} : (storeContract c).Stable i fun s => True ∧ HasFile w kind id.asStr b s :=
    Contract.stable_true.and stable_hasFile
  refine readFile_proved Contract.stable_true Contract.stable_true (fun b => ?_) fun _ => ?_
  · refine Outlined.bind (verifyBackfill_proved hstable (fun _ _ h => h.2) (fun _ h => h)
      Contract.stable_true) Contract.stable_true fun _ => ?_
    exact Outlined.pure hstable fun _ _ h => h.2
  · refine Outlined.bind (reportMissingCatalogRow_proved Contract.stable_true Contract.stable_true
      fun _ _ => trivial) Contract.stable_true fun _ => ?_
    exact Outlined.throw Contract.stable_true fun _ _ _ => trivial

/-- A file that is there is read and returned. -/
theorem getObject_known {id : ObjectId (idKind kind)} {missing : ServerError} :
    Proved c i (fun _ => False) (HasFile w kind id.asStr b) (getObject c w kind id.asStr missing)
      fun b' _ => b' = b := by
  have hnever : (storeContract (ι := ι) c).Stable i fun _ => False := Contract.stable_const
  have hstable {b' : Bytes} : (storeContract c).Stable i fun s =>
      HasFile w kind id.asStr b s ∧ HasFile w kind id.asStr b' s := stable_hasFile.and stable_hasFile
  refine readFile_proved stable_hasFile hnever (fun b' => ?_) fun habsent => ?_
  · refine Outlined.bind (verifyBackfill_proved hstable (fun _ _ h => h.2) (fun _ h => h) hnever) hnever
      fun _ => ?_
    exact Outlined.pure hstable fun s _ h => Option.some.inj (h.2.symm.trans h.1)
  · obtain ⟨s, hfile, hnone⟩ := habsent
    unfold HasFile at hfile
    rw [hnone] at hfile
    cases hfile

theorem existsObject_proved {id : ObjectId (idKind kind)} :
    Proved c i (fun _ => True) (fun _ => True) (existsObject c w kind id.asStr)
      fun present s => present = true → ∃ b, HasFile w kind id.asStr b s := by
  have hstable {b : Bytes} : (storeContract c).Stable i fun s => True ∧ HasFile w kind id.asStr b s :=
    Contract.stable_true.and stable_hasFile
  refine readFile_proved Contract.stable_true Contract.stable_true (fun b => ?_) fun _ => ?_
  · refine Outlined.bind (verifyBackfill_proved hstable (fun _ _ h => h.2) (fun _ h => h)
      Contract.stable_true) Contract.stable_true fun _ => ?_
    exact Outlined.pure hstable fun _ _ h _ => ⟨b, h.2⟩
  · refine Outlined.bind (reportMissingCatalogRow_proved Contract.stable_true Contract.stable_true
      fun _ _ => trivial) Contract.stable_true fun _ => ?_
    exact Outlined.pure Contract.stable_true fun _ _ _ hfalse => nomatch hfalse

theorem existsObject_known {id : ObjectId (idKind kind)} :
    Proved c i (fun _ => False) (HasFile w kind id.asStr b) (existsObject c w kind id.asStr)
      fun present _ => present = true := by
  have hnever : (storeContract (ι := ι) c).Stable i fun _ => False := Contract.stable_const
  have hstable {b' : Bytes} : (storeContract c).Stable i fun s =>
      HasFile w kind id.asStr b s ∧ HasFile w kind id.asStr b' s := stable_hasFile.and stable_hasFile
  refine readFile_proved stable_hasFile hnever (fun b' => ?_) fun habsent => ?_
  · refine Outlined.bind (verifyBackfill_proved hstable (fun _ _ h => h.2) (fun _ h => h) hnever) hnever
      fun _ => ?_
    exact Outlined.pure hstable fun _ _ _ => rfl
  · obtain ⟨s, hfile, hnone⟩ := habsent
    unfold HasFile at hfile
    rw [hnone] at hfile
    cases hfile

/-! ### Writing objects -/

/-- The holder of the lock links a new file to a free canonical name. -/
theorem writeNew_proved {id : String} (hmatch : matchesId c kind id b = true) (hlength : b.length < 2 ^ 63)
    (herr : (storeContract c).Stable i err) :
    Proved c i err (fun s => Holding i s ∧ s.files (pathOf w kind id) = none)
      (writeNew (pathOf w kind id) b) fun _ s => Holding i s ∧ HasFile w kind id b s := by
  have hfile (path : Path) (content : Option Bytes) :
      (storeContract c).Stable i fun s => Holding i s ∧ s.files path = content := stable_file
  have hwritten {content : Option Bytes} (temp : Path) : (storeContract c).Stable i fun s =>
      Holding i s ∧ s.files (pathOf w kind id) = none ∧ s.files temp = content := by
    intro j hj s s' hs hs' hguar h
    have hpath := hfile _ none j hj s s' hs hs' hguar ⟨h.1, h.2.1⟩
    have htemp := hfile temp content j hj s s' hs hs' hguar ⟨h.1, h.2.2⟩
    exact ⟨hpath.1, hpath.2, htemp.2⟩
  have hname : Proved c i err (fun s => Holding i s ∧ s.files (pathOf w kind id) = none)
      (call (.tempPathFor (pathOf w kind id))) fun (temp : Path) s => Temporary temp ∧
        Holding i s ∧ s.files (pathOf w kind id) = none ∧ s.files temp = none := by
    refine Outlined.op (hfile _ none) ?_ (fun temp => Contract.stable_const.and (hwritten temp)) herr
    rintro s r s' hs hp ⟨now, hrun⟩
    simp only [State.run] at hrun
    split at hrun
    · rename_i hfree
      cases hrun
      exact ⟨hs, Guarantees.refl _, temporary_tempPathFor _ _ _, hp.1, hp.2, Option.isNone_iff_eq_none.mp hfree⟩
    · cases hrun
  unfold writeNew
  refine Outlined.bind hname herr fun temp => ?_
  refine Outlined.assume (Contract.stable_const.and (hwritten temp)) (fun _ _ h => h.1) fun htemp => ?_
  have hne : pathOf w kind id ≠ temp := htemp.ne w kind id
  -- a step that changes the temporary file
  have hstep (after : Option Bytes) {o : Op} {before : Option Bytes} {f : o.Val → Storage Bool}
      (hrun : ∀ s r s', s.files temp = before → State.Runs i o s r s' →
        s' = s.setFile temp after ∧ ∃ a, r = .ok a)
      (hf : ∀ a, Proved c i err (fun s => Holding i s ∧ s.files (pathOf w kind id) = none ∧
        s.files temp = after) (f a) fun _ s => Holding i s ∧ HasFile w kind id b s) :
      Proved c i err (fun s => Holding i s ∧ s.files (pathOf w kind id) = none ∧ s.files temp = before)
        (call o >>= f) fun _ s => Holding i s ∧ HasFile w kind id b s := by
    refine Outlined.op_bind (hwritten temp) (fun s r s' hs hp hop => ?_) herr hf
    obtain ⟨rfl, a, rfl⟩ := hrun s r s' hp.2.2 hop
    obtain ⟨hs', hguar⟩ := setFile_temporary hs hp.1 htemp after
    exact ⟨hs', hguar, hp.1, (Function.update_of_ne hne _ _).trans hp.2.1, Function.update_self _ _ _⟩
  have hremove (result : Bool) : Proved c i err (fun s => Holding i s ∧ HasFile w kind id b s) (do
      removeTempFile temp
      return result) fun _ s => Holding i s ∧ HasFile w kind id b s := by
    refine Outlined.op_bind (hfile _ (some b)) ?_ herr fun _ => Outlined.pure (hfile _ (some b)) fun _ _ h => h
    rintro s r s' hs hp ⟨now, hrun⟩
    cases hrun
    obtain ⟨hs', hguar⟩ := setFile_temporary hs hp.1 htemp none
    exact ⟨hs', hguar, hp.1, (Function.update_of_ne hne _ _).trans hp.2⟩
  refine Outlined.weaken ?_ (Contract.stable_const.and (hwritten temp)) fun _ _ h => h.2
  refine hstep (some []) ?_ fun _ => ?_
  · rintro s r s' hnone ⟨now, hrun⟩
    simp only [State.run, hnone, Option.isNone_none, ↓reduceIte] at hrun
    cases hrun
    exact ⟨rfl, _, rfl⟩
  refine hstep (some b) ?_ fun _ => ?_
  · rintro s r s' _ ⟨now, hrun⟩
    cases hrun
    exact ⟨rfl, _, rfl⟩
  have hlink : Proved c i err (fun s => Holding i s ∧ s.files (pathOf w kind id) = none ∧ s.files temp = some b)
      (call (.hardLink temp (pathOf w kind id))) fun (linked : Linked) s => linked = .done ∧
        Holding i s ∧ HasFile w kind id b s := by
    refine Outlined.op (hwritten temp) ?_ (fun _ => Contract.stable_const.and (hfile _ (some b))) herr
    rintro s r s' hs ⟨hlock, hfree, htempfile⟩ ⟨now, hrun⟩
    simp only [State.run, htempfile, hfree] at hrun
    cases hrun
    obtain ⟨hs', hguar⟩ := setFile_canonical hs hlock hfree hmatch hlength
    exact ⟨hs', hguar, rfl, hlock, Function.update_self _ _ _⟩
  refine Outlined.bind hlink herr fun linked => ?_
  refine Outlined.assume (Contract.stable_const.and (hfile _ (some b))) (fun _ _ h => h.1) fun hdone => ?_
  rw [hdone]
  exact (hremove true).weaken (Contract.stable_const.and (hfile _ (some b))) fun _ _ h => h.2

/-- The object's file holds other bytes of the same digest. -/
def Collides (w : WorkspaceId) (kind : StoredObjectKind) (id : String) (bytes : Bytes) (s : State ι) : Prop :=
  ∃ b, HasFile w kind id b s ∧ b ≠ bytes

theorem stable_collides {id : String} {bytes : Bytes} :
    (storeContract c).Stable i (Collides w kind id bytes) := by
  intro j hj s s' hs hs' hguar h
  obtain ⟨b, hfile, hne⟩ := h
  exact ⟨b, stable_hasFile j hj s s' hs hs' hguar hfile, hne⟩

/-- The canonical bytes are catalogued when they are the submitted ones. -/
theorem catalogue_proved {id : ObjectId (idKind kind)} {bytes : Bytes} :
    Proved c i (fun s => Holding i s ∧ Collides w kind id.asStr bytes s)
      (fun s => Holding i s ∧ HasFile w kind id.asStr b s) (catalogue c w kind id.asStr bytes b)
      fun _ s => Holding i s ∧ HasFile w kind id.asStr bytes s := by
  have hstable {b : Bytes} : (storeContract c).Stable i fun s => Holding i s ∧ HasFile w kind id.asStr b s :=
    stable_holding.and stable_hasFile
  have herr : (storeContract c).Stable i fun s => Holding i s ∧ Collides w kind id.asStr bytes s :=
    stable_holding.and stable_collides
  unfold catalogue
  refine Outlined.assume hstable (fun s hs h => h.2.matches hs) fun hb => ?_
  by_cases hsame : b = bytes
  · subst hsame
    apply Outlined.check_ok (b := ()) (require_ok.mpr ⟨rfl, hb.1⟩)
    refine Outlined.bind (insertObjectIfAbsent_proved hstable (fun _ _ h => h.2) (fun _ h => h) hb.1 hb.2 herr)
      herr fun row => ?_
    exact Outlined.pure hstable fun _ _ h => h
  · exact Outlined.check_bind hstable (fun s _ h => ⟨h.1, b, h.2, hsame⟩) fun _ hok =>
      absurd (require_ok.mp hok).1 hsame

theorem putLocked_proved {id : ObjectId (idKind kind)} {bytes : Bytes}
    (hmatch : matchesId c kind id.asStr bytes = true) (hlength : bytes.length < 2 ^ 63) :
    Proved c i (fun s => Holding i s ∧ Collides w kind id.asStr bytes s) (Holding i)
      (putLocked c w kind id.asStr bytes) fun _ s => Holding i s ∧ HasFile w kind id.asStr bytes s := by
  have herr : (storeContract c).Stable i fun s => Holding i s ∧ Collides w kind id.asStr bytes s :=
    stable_holding.and stable_collides
  -- what is read under the lock stays so
  refine read (o := .readFile (pathOf w kind id.asStr)) (fun (found : Option Bytes) s =>
    Holding i s ∧ s.files (pathOf w kind id.asStr) = found) stable_holding ?_ herr fun found => ?_
  · rintro s r s' hs hp ⟨now, hrun⟩
    cases hrun
    exact ⟨rfl, _, rfl, hp, rfl⟩
  refine Outlined.right ?_ stable_holding
  cases found with
  | some existing => exact catalogue_proved
  | none =>
    refine Outlined.bind (writeNew_proved hmatch hlength herr) herr fun written => ?_
    refine readFile_proved (stable_holding.and stable_hasFile) herr (fun canonical => ?_) fun habsent => ?_
    · exact Outlined.weaken catalogue_proved ((stable_holding.and stable_hasFile).and stable_hasFile)
        fun _ _ h => ⟨h.1.1, h.2⟩
    · obtain ⟨s, hfile, hnone⟩ := habsent
      have hsome := hfile.2
      unfold HasFile at hsome
      rw [hnone] at hsome
      cases hsome

theorem putObject_proved {id : ObjectId (idKind kind)} {bytes : Bytes}
    (hmatch : matchesId c kind id.asStr bytes = true) (hlength : bytes.length < 2 ^ 63) :
    Proved c i (Collides w kind id.asStr bytes) (fun _ => True) (putObject c w kind id.asStr bytes)
      fun _ => HasFile w kind id.asStr bytes := by
  have hends (out : ServerResult PutResult) : (storeContract c).Stable i
      (Ends (Collides w kind id.asStr bytes) (fun _ => HasFile w kind id.asStr bytes) out) := by
    cases out with
    | ok _ => exact stable_hasFile
    | error _ => exact stable_collides
  unfold putObject
  refine Outlined.withLock Contract.stable_true stable_collides ?_
    (putLocked_proved hmatch hlength) ?_ (fun out => ?_) hends
  · rintro s r s' hs _ ⟨now, hrun⟩
    simp only [State.run] at hrun
    split at hrun
    · rename_i hfree
      cases hrun
      refine ⟨⟨hs.files, hs.rows⟩, ⟨fun _ _ _ h => h, fun _ _ _ _ h => h, fun _ => rfl, ?_⟩, rfl⟩
      intro j _ hj
      rw [Option.isNone_iff_eq_none.mp hfree] at hj
      cases hj
    · cases hrun
  · rintro out s r s' hs hin ⟨now, hrun⟩
    cases hrun
    have hlock : Holding i s := by
      cases out with
      | ok _ => exact hin.1
      | error _ => exact hin.1
    refine ⟨⟨hs.files, hs.rows⟩, ⟨fun _ _ _ h => h, fun _ _ _ _ h => h, fun _ => rfl, ?_⟩, ?_⟩
    · intro j hji hj
      rw [hlock] at hj
      exact absurd (Option.some.inj hj).symm hji
    · cases out with
      | ok _ => exact hin.2
      | error _ => exact hin.2
  · cases out with
    | ok _ => exact stable_holding.and stable_hasFile
    | error _ => exact stable_holding.and stable_collides

/-! ### Requests -/

/-- What a request that was served has come to. -/
def Served (c : Crypto) : Request → ServerResult Response → State ι → Prop
  | .put w kind id object, .ok response, s =>
    (∃ result, response = .put result) ∧ HasFile w kind id.asStr object.bytes s
  | .put w kind id object, .error _, s =>
    ObjectId.textOf (idKind kind) c object.bytes ≠ id.asStr ∨ Collides w kind id.asStr object.bytes s
  | .get w kind id, .ok response, s => ∃ b, response = .bytes b ∧ HasFile w kind id.asStr b s
  | .contains w kind id, .ok response, s =>
    ∃ present, response = .found present ∧ (present = true → ∃ b, HasFile w kind id.asStr b s)
  | _, .error _, _ => True

/-- What a request for an object of the bytes `b` comes to where its file is
there. -/
def Available (w : WorkspaceId) (kind : StoredObjectKind) (id : ObjectId (idKind kind)) (b : Bytes)
    (q : Request) (r : ServerResult Response) : Prop :=
  (q = .get w kind id → r = .ok (.bytes b)) ∧ (q = .contains w kind id → r = .ok (.found true))

theorem textOf_matches {kind : StoredObjectKind} {id : ObjectId (idKind kind)}
    (h : ObjectId.textOf (idKind kind) c b = id.asStr) : matchesId c kind id.asStr b = true :=
  matchesId_iff.mpr h

theorem handle_proved (q : Request) :
    Outline (storeContract c) (objectStore ι c).sem i (Served c q) (fun _ => True)
      ((objectStore ι c).program q) := by
  cases q with
  | put w kind id object =>
    by_cases hid : ObjectId.textOf (idKind kind) c object.bytes = id.asStr
    · have hput : Proved c i (Collides w kind id.asStr object.bytes) (fun _ => True)
          ((Request.put w kind id object).handle c) fun response s =>
            (∃ result, response = .put result) ∧ HasFile w kind id.asStr object.bytes s := by
        apply Outlined.check_ok (b := ()) (require_ok.mpr hid)
        exact Outlined.map (putObject_proved (textOf_matches hid) object.bound) stable_collides
          (fun _ => stable_hasFile) fun result s _ h => ⟨⟨result, rfl⟩, h⟩
      apply Outline.weaken_post hput
      intro r s _ hr
      cases r with
      | ok response => exact hr
      | error e => exact .inr hr
    · have hrefused : Proved c i (fun _ => True) (fun _ => True) ((Request.put w kind id object).handle c)
          fun _ _ => False :=
        Outlined.check_bind Contract.stable_true (fun _ _ _ => trivial) fun _ hok =>
          absurd (require_ok.mp hok) hid
      apply Outline.weaken_post hrefused
      intro r s _ hr
      cases r with
      | ok response => exact hr.elim
      | error e => exact .inl hid
  | get w kind id =>
    have hget : Proved c i (fun _ => True) (fun _ => True) ((Request.get w kind id).handle c)
        fun response s => ∃ b, response = .bytes b ∧ HasFile w kind id.asStr b s :=
      Outlined.map getObject_proved Contract.stable_true (fun _ => stable_hasFile) fun b s _ h => ⟨b, rfl, h⟩
    apply Outline.weaken_post hget
    intro r s _ hr
    cases r with
    | ok response => exact hr
    | error e => exact trivial
  | contains w kind id =>
    have hstable (present : Bool) : (storeContract (ι := ι) c).Stable i fun s =>
        present = true → ∃ b, HasFile w kind id.asStr b s := by
      intro j hj s s' hs hs' hguar h hpresent
      obtain ⟨b, hfile⟩ := h hpresent
      exact ⟨b, stable_hasFile j hj s s' hs hs' hguar hfile⟩
    have hcontains : Proved c i (fun _ => True) (fun _ => True) ((Request.contains w kind id).handle c)
        fun response s => ∃ present, response = .found present ∧
          (present = true → ∃ b, HasFile w kind id.asStr b s) :=
      Outlined.map existsObject_proved Contract.stable_true hstable fun present s _ h => ⟨present, rfl, h⟩
    apply Outline.weaken_post hcontains
    intro r s _ hr
    cases r with
    | ok response => exact hr
    | error e => exact trivial

/-- Where the file is there, requests for the object find it. -/
theorem handle_available {id : ObjectId (idKind kind)} (q : Request) :
    Outline (storeContract c) (objectStore ι c).sem i (fun r _ => Available w kind id b q r)
      (HasFile w kind id.asStr b) ((objectStore ι c).program q) := by
  have hnever : (storeContract (ι := ι) c).Stable i fun _ => False := Contract.stable_const
  by_cases hget : q = .get w kind id
  · subst hget
    have hknown : Proved c i (fun _ => False) (HasFile w kind id.asStr b) ((Request.get w kind id).handle c)
        fun response _ => response = .bytes b :=
      Outlined.map getObject_known hnever (fun _ => Contract.stable_const) fun b' _ _ h => by rw [h]
    apply Outline.weaken_post hknown
    intro r s _ hr
    cases r with
    | ok response => exact ⟨fun _ => congrArg Except.ok hr, nofun⟩
    | error e => exact hr.elim
  · by_cases hcontains : q = .contains w kind id
    · subst hcontains
      have hknown : Proved c i (fun _ => False) (HasFile w kind id.asStr b)
          ((Request.contains w kind id).handle c) fun response _ => response = .found true :=
        Outlined.map existsObject_known hnever (fun _ => Contract.stable_const) fun present _ _ h => by rw [h]
      apply Outline.weaken_post hknown
      intro r s _ hr
      cases r with
      | ok response => exact ⟨nofun, fun _ => congrArg Except.ok hr⟩
      | error e => exact hr.elim
    · have hstable : (storeContract c).Stable i (HasFile w kind id.asStr b) := stable_hasFile
      have hany := (handle_proved q).weaken hstable fun _ _ _ => trivial
      exact hany.weaken_post fun r s _ _ => ⟨fun h => absurd h hget, fun h => absurd h hcontains⟩

end Programs

/-! ### A put that runs alone -/

section Alone

variable {ι : Type} {c : Crypto} {i : ι} {w : WorkspaceId} {kind : StoredObjectKind} {now : ℕ}

/-- Calls that can be made in any state. -/
def NonBlocking : Op → Prop
  | .lockPut | .tempPathFor _ => False
  | _ => True

/-- Calls of the catalog. -/
def Cataloguing : Op → Prop
  | .objectRowsById .. | .objectRowsByObjectId .. | .insertObject .. => True
  | _ => False

/-- Calls of the catalog, and looks at files. -/
def Looking : Op → Prop
  | .readFile _ => True
  | o => Cataloguing o

theorem Cataloguing.looking {o : Op} (h : Cataloguing o) : Looking o := by
  cases o <;> trivial

theorem Looking.nonBlocking {o : Op} (h : Looking o) : NonBlocking o := by
  cases o <;> trivial

theorem run_nonBlocking (o : Op) (s : State ι) (h : NonBlocking o) : (s.run now i o).isSome := by
  unfold State.run
  split <;> first
    | exact h.elim
    | rfl
    | (split <;> rfl)

theorem insertObjectIfAbsent_calls {metadata : StoredObjectMetadata} :
    Calls Cataloguing (insertObjectIfAbsent w metadata) := by
  unfold insertObjectIfAbsent
  refine (Calls.check _).bind fun _ => Calls.op_bind trivial fun rows => ?_
  split
  · exact Calls.check _
  · refine Calls.op_bind trivial fun conflicting => ?_
    split
    · exact Calls.check _
    · exact Calls.op_bind trivial fun _ => Calls.op_bind trivial fun _ =>
        (Calls.check _).bind fun _ => Calls.pure _

theorem verifyBackfill_calls {id : String} {bytes : Bytes} : Calls Cataloguing (verifyBackfill c w kind id bytes) :=
  (Calls.check _).bind fun _ => insertObjectIfAbsent_calls.bind fun _ => Calls.pure _

theorem reportMissingCatalogRow_calls {id : String} : Calls Cataloguing (reportMissingCatalogRow w kind id) := by
  have hmetadata : Calls Cataloguing (getObjectMetadata w kind id) := by
    refine Calls.op_bind trivial fun rows => ?_
    change List StoredObjectRow at rows
    by_cases hrows : rows = []
    · rw [if_pos hrows]
      exact Calls.op_bind trivial fun _ => (Calls.check _).bind fun _ => Calls.pure _
    · rw [if_neg hrows]
      exact (Calls.check _).bind fun _ => Calls.pure _
  exact hmetadata.bind fun _ => Calls.check _

theorem catalogue_calls {id : String} {bytes canonical : Bytes} :
    Calls Cataloguing (catalogue c w kind id bytes canonical) :=
  (Calls.check _).bind fun _ => insertObjectIfAbsent_calls.bind fun _ => Calls.pure _

theorem getObject_calls {id : String} {missing : ServerError} : Calls Looking (getObject c w kind id missing) := by
  have hcatalog {α : Type} {x : Storage α} (hx : Calls Cataloguing x) : Calls Looking x :=
    hx.mono fun _ => Cataloguing.looking
  refine Calls.op_bind trivial fun found => ?_
  change Option Bytes at found
  cases found with
  | some b => exact (hcatalog verifyBackfill_calls).bind fun _ => Calls.pure _
  | none => exact (hcatalog reportMissingCatalogRow_calls).bind fun _ => Calls.throw _

theorem existsObject_calls {id : String} : Calls Looking (existsObject c w kind id) := by
  have hcatalog {α : Type} {x : Storage α} (hx : Calls Cataloguing x) : Calls Looking x :=
    hx.mono fun _ => Cataloguing.looking
  refine Calls.op_bind trivial fun found => ?_
  change Option Bytes at found
  cases found with
  | some b => exact (hcatalog verifyBackfill_calls).bind fun _ => Calls.pure _
  | none => exact (hcatalog reportMissingCatalogRow_calls).bind fun _ => Calls.pure _

/-- With the lock free and a new temporary name, a put runs to its end. -/
theorem putObject_exec {id : String} (bytes : Bytes) {s : State ι} (hfree : s.putLock = none)
    (hnew : s.files (tempPathFor (pathOf w kind id) s.processId now) = none) :
    (exec (fun o s => s.run now i o) (putObject c w kind id bytes) s).isSome := by
  have hrun : ∀ (o : Op) (s : State ι), NonBlocking o → (s.run now i o).isSome := run_nonBlocking
  have hcatalogue (canonical : Bytes) : Calls NonBlocking (catalogue c w kind id bytes canonical) :=
    catalogue_calls.mono fun _ h => h.looking.nonBlocking
  have hlocked (t : State ι) (hfiles : t.files = s.files) (hprocess : t.processId = s.processId) :
      (exec (fun o s => s.run now i o) (putLocked c w kind id bytes) t).isSome := by
    have hread : t.run now i (.readFile (pathOf w kind id)) = some (.ok (t.files (pathOf w kind id)), t) := rfl
    unfold putLocked
    refine (congrArg Option.isSome (exec_op_bind hread)).trans ?_
    cases t.files (pathOf w kind id) with
    | some existing => exact (hcatalogue existing).exec hrun t
    | none =>
      -- the name of the temporary file is taken at the same files
      have hname : t.run now i (.tempPathFor (pathOf w kind id)) =
          some (.ok (tempPathFor (pathOf w kind id) t.processId now), t) := by
        have hnew' : (t.files (tempPathFor (pathOf w kind id) t.processId now)).isNone = true := by
          rw [hfiles, hprocess, hnew]
          rfl
        exact if_pos hnew'
      have hwritten : (exec (fun o s => s.run now i o) (writeNew (pathOf w kind id) bytes) t).isSome := by
        unfold writeNew
        refine (congrArg Option.isSome (exec_op_bind hname)).trans ?_
        refine Calls.exec hrun ?_ t
        refine Calls.op_bind trivial fun _ => Calls.op_bind trivial fun _ => Calls.op_bind trivial fun linked => ?_
        change Linked at linked
        cases linked with
        | done => exact Calls.op_bind trivial fun _ => Calls.pure _
        | alreadyExists => exact Calls.op_bind trivial fun _ => Calls.pure _
        | failed error => exact Calls.op_bind trivial fun _ => Calls.throw _
      obtain ⟨⟨out, u⟩, hout⟩ := Option.isSome_iff_exists.mp hwritten
      refine (congrArg Option.isSome exec_bind).trans ?_
      rw [hout, Option.bind_some]
      cases out with
      | error e => rfl
      | ok written =>
        refine Calls.exec hrun ?_ u
        refine Calls.op_bind trivial fun again => ?_
        change Option Bytes at again
        cases again with
        | some canonical => exact hcatalogue canonical
        | none => exact Calls.throw _
  unfold putObject
  have hlock : s.run now i .lockPut = some (.ok (), { s with putLock := some i }) := by
    simp [State.run, hfree]
  rw [exec_withLock, hlock, Option.bind_some]
  obtain ⟨⟨out, t⟩, hout⟩ := Option.isSome_iff_exists.mp (hlocked { s with putLock := some i } rfl rfl)
  simp only [hout, Option.bind_some]
  rfl

theorem put_exec {id : ObjectId (idKind kind)} {object : ObjectBytes} {s : State ι} (hfree : s.putLock = none)
    (hnew : s.files (tempPathFor (pathOf w kind id.asStr) s.processId now) = none) :
    (exec (fun o s => s.run now i o) ((Request.put w kind id object).handle c) s).isSome := by
  obtain ⟨⟨out, t⟩, hout⟩ := Option.isSome_iff_exists.mp
    (putObject_exec object.bytes hfree hnew)
  unfold Request.handle
  rw [exec_check_bind]
  cases require (ObjectId.textOf (idKind kind) c object.bytes = id.asStr) ServerError.objectHashMismatch with
  | ok _ =>
    change (exec _ (Response.put <$> _) s).isSome
    rw [exec_map, hout]
    rfl
  | error e => rfl

end Alone

/-! ### Every interleaving, with crashes -/

section Crashes

variable {ι : Type} {c : Crypto} {s s' : State ι}

theorem Crashed.sound (h : Crashed s s') (hs : Sound c s) : Sound c s' := by
  refine ⟨fun w name b hb => ?_, fun w kind id row hrow => ?_⟩
  · rw [h.files] at hb
    exact hs.files w name b hb
  · rcases h.objects w kind id with hkept | hlost
    · rw [hkept] at hrow
      obtain ⟨b, hb, hrest⟩ := hs.rows w kind id row hrow
      refine ⟨b, ?_, hrest⟩
      rw [pathOf_eq] at hb ⊢
      rw [h.files]
      exact hb
    · rw [hlost] at hrow
      cases hrow

theorem Crashed.hasFile (h : Crashed s s') {w : WorkspaceId} {kind : StoredObjectKind} {id : String} {b : Bytes}
    (hfile : HasFile w kind id b s) : HasFile w kind id b s' := by
  unfold HasFile at hfile ⊢
  rw [pathOf_eq] at hfile ⊢
  rw [h.files]
  exact hfile

theorem storeContract_survives : (storeContract (ι := ι) c).Survives Crashed :=
  fun _ _ hs hcrash => ⟨hcrash.sound hs, fun _ => trivial⟩

theorem objectStore_kept : (storeContract c).Kept (objectStore ι c) fun q _ => Served c q :=
  ⟨fun _ => Contract.stable_true, fun q _ => handle_proved q⟩

/-- A store nothing was put into. -/
structure Empty (s : State ι) : Prop where
  files : ∀ path, s.files path = none
  objects : ∀ w kind id, s.objects w kind id = none

theorem Empty.sound (h : Empty s) : Sound c s := by
  refine ⟨fun w name b hb => ?_, fun w kind id row hrow => ?_⟩
  · rw [h.files] at hb
    cases hb
  · rw [h.objects] at hrow
    cases hrow

/-- The response is that the object is stored, or its bytes. -/
def Delivers (w : WorkspaceId) (kind : StoredObjectKind) (id : ObjectId (idKind kind)) (b : Bytes) (q : Request)
    (response : Response) : Prop :=
  (∃ object, q = .put w kind id object ∧ object.bytes = b) ∨ (q = .get w kind id ∧ response = .bytes b)

/-- The put succeeded, or the file holds other bytes of the same digest. -/
def PutSucceeds (c : Crypto) (w : WorkspaceId) (kind : StoredObjectKind) (id : ObjectId (idKind kind))
    (object : ObjectBytes) (r : ServerResult Response) (s : State ι) : Prop :=
  (∃ result, r = .ok (.put result)) ∨ ∃ b, s.files (pathOf w kind id.asStr) = some b ∧ b ≠ object.bytes ∧
    sha256Hex c b = sha256Hex c object.bytes

theorem Served.putSucceeds {w : WorkspaceId} {kind : StoredObjectKind} {id : ObjectId (idKind kind)}
    {object : ObjectBytes} {r : ServerResult Response} (hs : Sound c s)
    (hid : ObjectId.textOf (idKind kind) c object.bytes = id.asStr)
    (h : Served c (.put w kind id object) r s) : PutSucceeds c w kind id object r s := by
  cases r with
  | ok response =>
    obtain ⟨⟨result, rfl⟩, _⟩ := h
    exact .inl ⟨result, rfl⟩
  | error e =>
    rcases h with hne | ⟨b, hfile, hne⟩
    · exact absurd hid hne
    · have hdigest := nameOf_of_matchesId (hfile.matches hs).1
      exact .inr ⟨b, hfile, hne, hdigest.symm.trans (nameOf_of_matchesId (textOf_matches hid))⟩

theorem Served.hasFile {w : WorkspaceId} {kind : StoredObjectKind} {id : ObjectId (idKind kind)} {b : Bytes}
    {q : Request} {response : Response} (h : Served c q (.ok response) s)
    (hdelivers : Delivers w kind id b q response) : HasFile w kind id.asStr b s := by
  rcases hdelivers with ⟨object, rfl, rfl⟩ | ⟨rfl, rfl⟩
  · exact h.2
  · obtain ⟨b', hb', hfile⟩ := h
    cases hb'
    exact hfile

variable [DecidableEq ι] {cfg : Config ι (Signature.fallible Op.Val ServerError) (State ι) Request
  (ServerResult Response)}

/-- Requests served from an empty store, with crashes. -/
def CrashReachable (c : Crypto) (s₀ : State ι) (cfg : Config ι (Signature.fallible Op.Val ServerError)
    (State ι) Request (ServerResult Response)) : Prop :=
  (objectStore ι c).CrashSteps Crashed ⟨s₀, fun _ => none⟩ cfg

theorem CrashReachable.holds {s₀ : State ι} (hs₀ : Empty s₀) (h : CrashReachable c s₀ cfg) :
    (storeContract c).Holds (objectStore ι c) (fun q _ => Served c q) cfg := by
  have hstart : (storeContract c).Holds (objectStore ι c) (fun q _ => Served c q) ⟨s₀, fun _ => none⟩ :=
    ⟨hs₀.sound, fun _ _ => trivial, fun _ _ _ hp => nomatch hp⟩
  exact hstart.crashes objectStore_kept storeContract_survives h

/-- A delivered object is available from then on. -/
theorem available_later {cfg' cfg'' : Config ι (Signature.fallible Op.Val ServerError) (State ι) Request
      (ServerResult Response)} (hholds : (storeContract c).Holds (objectStore ι c) (fun q _ => Served c q) cfg)
    {i j : ι} {q q' : Request} {response : Response} {r : ServerResult Response}
    (hdone : cfg.thread i = some (q, .done (.ok response))) {w : WorkspaceId} {kind : StoredObjectKind}
    {id : ObjectId (idKind kind)} {b : Bytes} (hdelivers : Delivers w kind id b q response)
    (h' : (objectStore ι c).CrashSteps Crashed cfg cfg') (hidle : cfg'.thread j = none)
    (h'' : (objectStore ι c).CrashSteps Crashed cfg' cfg'') (hdone' : cfg''.thread j = some (q', .done r)) :
    Available w kind id b q' r := by
  have hguar (i : ι) (s s' : State ι) (hguar : Guarantees i s s') (h : HasFile w kind id.asStr b s) :
      HasFile w kind id.asStr b s' := by
    unfold HasFile at h ⊢
    rw [pathOf_eq] at h ⊢
    exact hguar.files w _ b h
  have hfile : HasFile w kind id.asStr b cfg.shared := (hholds.finished hdone).hasFile hdelivers
  have hkept : HasFile w kind id.asStr b cfg.shared → HasFile w kind id.asStr b cfg'.shared := by
    have hmonotone {le : State ι → State ι → Prop}
        (hle : le = fun s s' => HasFile w kind id.asStr b s → HasFile w kind id.asStr b s') :
        le cfg.shared cfg'.shared := by
      subst hle
      exact hholds.monotone (fun _ h => h) (fun _ _ _ h h' hb => h' (h hb)) hguar
        (fun _ _ hcrash => hcrash.hasFile) objectStore_kept storeContract_survives h'
    exact hmonotone rfl
  have hholds' := hholds.crashes objectStore_kept storeContract_survives h'
  have hout (q : Request) : Outline ((storeContract c).conserving (HasFile w kind id.asStr b))
      (objectStore ι c).sem j (fun r _ => Available w kind id b q r) (fun _ => True)
      ((objectStore ι c).program q) := by
    have hknown : Outline (storeContract c) (objectStore ι c).sem j (fun r _ => Available w kind id b q r)
        (HasFile w kind id.asStr b) ((objectStore ι c).program q) := handle_available q
    exact (hknown.conserve hguar).weaken Contract.stable_true fun _ hinv _ => hinv.2
  exact hholds'.conserve hguar (fun _ _ hcrash => hcrash.hasFile) objectStore_kept storeContract_survives
    hout (hkept hfile) hidle h'' hdone'

/-- A served request is a step of the store. -/
theorem serve_crashSteps {now : ℕ} {i : ι} {q : Request} {cfg' : Config ι (Signature.fallible Op.Val ServerError)
      (State ι) Request (ServerResult Response)}
    (h : (objectStore ι c).serve (fun i o s => State.run now i o s) i q cfg = some cfg') :
    (objectStore ι c).CrashSteps Crashed cfg cfg' := by
  have hruns (i : ι) (o : Op) (s : State ι) (r : ServerResult o.Val) (s' : State ι)
      (hrun : s.run now i o = some (r, s')) : (objectStore ι c).sem i o s r s' := ⟨now, hrun⟩
  exact .of_steps (Machine.Steps.serve hruns h)

/-- What runs to its end is served. -/
theorem serve_of_exec {now : ℕ} {i : ι} {q : Request} (hidle : cfg.thread i = none)
    (h : (exec (fun o s => State.run now i o s) (q.handle c) cfg.shared).isSome) :
    ∃ cfg' r, (objectStore ι c).serve (fun i o s => State.run now i o s) i q cfg = some cfg' ∧
      cfg'.thread i = some (q, .done r) := by
  obtain ⟨⟨r, t⟩, hexec⟩ := Option.isSome_iff_exists.mp h
  have hrun : ((objectStore ι c).program q).exec (fun o s => State.run now i o s) cfg.shared = some (r, t) := hexec
  refine ⟨⟨t, Function.update cfg.thread i (some (q, .done r))⟩, r, ?_, Function.update_self ..⟩
  unfold Machine.serve
  rw [hidle, hrun]
  rfl

/-- What the store promises at a point of its life, and from there on. -/
structure Intact (c : Crypto) (cfg : Config ι (Signature.fallible Op.Val ServerError) (State ι) Request
    (ServerResult Response)) : Prop where
  /-- A row describes a canonical file. -/
  rows : ∀ w kind id row, cfg.shared.objects w kind id = some row →
    ∃ b, cfg.shared.files (pathOf w kind id) = some b ∧ matchesId c kind id b = true ∧
      row = ⟨kind, objectHashAlgorithm, b.length⟩
  /-- A get that succeeded returned the bytes that were asked for. -/
  gets : ∀ i w kind id response, cfg.thread i = some (.get w kind id, .done (.ok response)) →
    ∃ b, response = .bytes b ∧ ObjectId.textOf (idKind kind) c b = id.asStr
  /-- What was delivered once is there for every later request. -/
  lasting : ∀ i q response w kind id b, cfg.thread i = some (q, .done (.ok response)) →
    Delivers w kind id b q response → ∀ cfg', (objectStore ι c).CrashSteps Crashed cfg cfg' →
    ∀ j, cfg'.thread j = none →
      (∀ cfg'', (objectStore ι c).CrashSteps Crashed cfg' cfg'' → ∀ q' r,
        cfg''.thread j = some (q', .done r) → Available w kind id b q' r) ∧
      ∀ now, ∃ cfg'', (objectStore ι c).serve (fun i o s => State.run now i o s) j (.get w kind id) cfg' =
        some cfg'' ∧ cfg''.thread j = some (.get w kind id, .done (.ok (.bytes b)))
  /-- A put under the right identifier that finished succeeded. -/
  puts : ∀ i w kind id object r, ObjectId.textOf (idKind kind) c object.bytes = id.asStr →
    cfg.thread i = some (.put w kind id object, .done r) → PutSucceeds c w kind id object r cfg.shared
  /-- With the lock free, as a crash leaves it, a put finishes, and succeeds. -/
  again : ∀ i w kind id object now, ObjectId.textOf (idKind kind) c object.bytes = id.asStr →
    cfg.thread i = none → cfg.shared.putLock = none →
    cfg.shared.files (tempPathFor (pathOf w kind id.asStr) cfg.shared.processId now) = none →
    ∃ cfg' r, (objectStore ι c).serve (fun i o s => State.run now i o s) i (.put w kind id object) cfg =
      some cfg' ∧ cfg'.thread i = some (.put w kind id object, .done r) ∧
        PutSucceeds c w kind id object r cfg'.shared

/-- **The object store stays intact**, whatever requests interleave and
wherever crashes fall. -/
theorem object_store_intact (c : Crypto) {s₀ : State ι} (hs₀ : Empty s₀) (h : CrashReachable c s₀ cfg) :
    Intact c cfg := by
  have hholds := h.holds hs₀
  refine ⟨hholds.inv.rows, fun i w kind id response hdone => ?_,
    fun i q response w kind id b hdone hdelivers cfg' h' j hidle => ?_,
    fun i w kind id object r hid hdone => (hholds.finished hdone).putSucceeds hholds.inv hid,
    fun i w kind id object now hid hidle hfree hnew => ?_⟩
  · obtain ⟨b, rfl, hfile⟩ := hholds.finished hdone
    exact ⟨b, rfl, matchesId_iff.mp (hfile.matches hholds.inv).1⟩
  · have hlater {cfg'' : Config ι (Signature.fallible Op.Val ServerError) (State ι) Request
        (ServerResult Response)} (h'' : (objectStore ι c).CrashSteps Crashed cfg' cfg'') (q' : Request)
        (r : ServerResult Response) (hdone' : cfg''.thread j = some (q', .done r)) :
        Available w kind id b q' r := available_later hholds hdone hdelivers h' hidle h'' hdone'
    refine ⟨fun cfg'' h'' => hlater h'', fun now => ?_⟩
    have hcalls : Calls NonBlocking ((Request.get w kind id).handle c) :=
      Calls.map (getObject_calls.mono fun _ => Looking.nonBlocking)
    have hrun : ∀ (o : Op) (s : State ι), NonBlocking o → (s.run now j o).isSome := run_nonBlocking
    have hexec : (exec (fun o s => s.run now j o) ((Request.get w kind id).handle c) cfg'.shared).isSome :=
      hcalls.exec hrun cfg'.shared
    obtain ⟨cfg'', r, hserve, hdone'⟩ := serve_of_exec hidle hexec
    have hr := (hlater (serve_crashSteps hserve) _ r hdone').1 rfl
    rw [hr] at hdone'
    exact ⟨cfg'', hserve, hdone'⟩
  · have hexec : (exec (fun o s => State.run now i o s) ((Request.put w kind id object).handle c)
        cfg.shared).isSome := put_exec hfree hnew
    obtain ⟨cfg', r, hserve, hdone⟩ := serve_of_exec hidle hexec
    have hholds' := hholds.crashes objectStore_kept storeContract_survives (serve_crashSteps hserve)
    exact ⟨cfg', r, hserve, hdone, (hholds'.finished hdone).putSucceeds hholds'.inv hid⟩

end Crashes

/-! ### A crash between the file and the row

A put links its file and dies. The same bytes are put as a manifest, then put
again and read. -/

section Sample

open Codec

def sampleBytes : ObjectBytes := ⟨sampleKey.val ++ List.replicate 32 0, by decide⟩

def sampleBlobId : ObjectId (idKind .blob) :=
  ⟨"blob_16abab341fb7f370e27e4dadcf81766dd0dfd0ae64469477bb2cf6614938b2af", by decide +kernel⟩

def sampleManifestId : ObjectId (idKind .manifest) :=
  ⟨"manifest_16abab341fb7f370e27e4dadcf81766dd0dfd0ae64469477bb2cf6614938b2af", by decide +kernel⟩

def sampleStore : State ℕ where
  files _ := none
  objects _ _ _ := none
  putLock := none
  processId := 7

/-- The put of the blob, as far as the link. -/
def linkedRun : Option (Config ℕ (Signature.fallible Op.Val ServerError) (State ℕ) Request
    (ServerResult Response)) := do
  let started ← (objectStore ℕ sampleCrypto).begin 0 (.put sampleWorkspace .blob sampleBlobId sampleBytes)
    ⟨sampleStore, fun _ => none⟩
  Machine.schedule (fun i o s => State.run 1000 i o s) (List.replicate 6 0) started

/-- What is served after the crash. -/
def restartedRun (s : State ℕ) : Option (Config ℕ (Signature.fallible Op.Val ServerError) (State ℕ) Request
    (ServerResult Response)) := do
  let store := objectStore ℕ sampleCrypto
  let shared ← store.serve (fun i o s => State.run 2000 i o s) 1
    (.put sampleWorkspace .manifest sampleManifestId sampleBytes) ⟨{ s with putLock := none }, fun _ => none⟩
  let again ← store.serve (fun i o s => State.run 3000 i o s) 2
    (.put sampleWorkspace .blob sampleBlobId sampleBytes) shared
  store.serve (fun i o s => State.run 4000 i o s) 3 (.get sampleWorkspace .blob sampleBlobId) again

def crashedRun : Option (Config ℕ (Signature.fallible Op.Val ServerError) (State ℕ) Request
    (ServerResult Response)) := linkedRun.bind fun cfg => restartedRun cfg.shared

/-- The put that was repeated succeeded, and so did the get. -/
def crashedOutcome (cfg : Config ℕ (Signature.fallible Op.Val ServerError) (State ℕ) Request
    (ServerResult Response)) : Bool :=
  match cfg.thread 2, cfg.thread 3 with
  | some (_, .done (.ok (.put .created))), some (_, .done (.ok (.bytes b))) => b = sampleBytes.bytes
  | _, _ => false

theorem crashedRun_outcome : crashedRun.map crashedOutcome = some true := by
  decide +kernel

theorem crashedRun_reachable {cfg : Config ℕ (Signature.fallible Op.Val ServerError) (State ℕ) Request
    (ServerResult Response)} (h : crashedRun = some cfg) : CrashReachable sampleCrypto sampleStore cfg := by
  obtain ⟨linked, hlinked, hrest⟩ := Option.bind_eq_some_iff.mp h
  simp only [linkedRun, Option.bind_eq_bind, Option.bind_eq_some_iff] at hlinked
  obtain ⟨started, hbegin, hschedule⟩ := hlinked
  simp only [restartedRun, Option.bind_eq_bind, Option.bind_eq_some_iff] at hrest
  obtain ⟨shared, hshared, again, hagain, hget⟩ := hrest
  have hruns (i : ℕ) (o : Op) (s : State ℕ) (r : ServerResult o.Val) (s' : State ℕ)
      (hrun : s.run 1000 i o = some (r, s')) : (objectStore ℕ sampleCrypto).sem i o s r s' := ⟨1000, hrun⟩
  have hreach : (objectStore ℕ sampleCrypto).Reachable sampleStore linked :=
    Machine.Reachable.schedule hruns (Machine.Reachable.begin .refl hbegin) hschedule
  have hcrash : Crashed linked.shared { linked.shared with putLock := none } :=
    ⟨fun _ _ => rfl, fun _ _ _ => .inl rfl, rfl⟩
  have hcrashed : CrashReachable sampleCrypto sampleStore ⟨{ linked.shared with putLock := none },
      fun _ => none⟩ := (Machine.CrashSteps.of_steps hreach).tail (.crash hcrash)
  exact ((hcrashed.trans (serve_crashSteps hshared)).trans (serve_crashSteps hagain)).trans
    (serve_crashSteps hget)

theorem sampleStore_empty : Empty sampleStore := ⟨fun _ => rfl, fun _ _ _ => rfl⟩

theorem crashed_store_intact : ∃ cfg, crashedRun = some cfg ∧ crashedOutcome cfg = true ∧
    Intact sampleCrypto cfg := by
  obtain ⟨cfg, hcfg, hout⟩ := Option.map_eq_some_iff.mp crashedRun_outcome
  exact ⟨cfg, hcfg, hout, object_store_intact sampleCrypto sampleStore_empty (crashedRun_reachable hcfg)⟩

end Sample

end RustSync.Objects
