/-
What is published stays available

However the syncs of any number of devices interleave, on trees with any ignore
rules, with disks and requests that fail and syncs that are cut short, and
whatever becomes of the files of a device between two syncs: each manifest that
the head has ever named can be pulled from then on (`published_available`). A
download of it fails only where a request does, and brings for each file a
content of the size and with the hash that it lists.

The user may also edit the tree while its device syncs (`pushed_pullable`), but
not while a scan reads it. A scan takes the size of a file before it reads it
for the hash, so a file that grows in between is listed with a size and a hash
that do not go together.

Key definitions: `Fleet.RoughStep`, `Fleet.EditedStep`, `fetchRevision`. Key
theorems: `published_available`, `pushed_pullable`.
-/
import RustSync.Sync.Edited
import RustSync.Sync.Fleet

namespace RustSync

/-! ### A fleet where anything goes wrong -/

section Rough

variable {ι : Type} [DecidableEq ι] {ws : Workspace} {c c' : Fleet ι} {r r' : Remote} {d d' : Device} {m : Manifest}

/-- One call of one device: its disk or the request may fail. -/
def Setting.rough : Setting := ⟨False, False, True, True, fun _ => True⟩

variable (ws) in
/-- What a device goes by: others publish what can be pulled. -/
def Setting.crowd : Setting := ⟨True, True, True, True, HeadsPullable ws⟩

variable (ws) in
/-- A call of a device of the fleet. -/
def roughCall (o : Op) (d : Device) (s : Remote) (r : SyncResult o.Val) (d' : Device) (s' : Remote) : Prop :=
  semDistinct .rough ws o ⟨d, s⟩ r ⟨d', s'⟩

variable (ws) in
/-- A device starts a sync, makes a call of it, is through or is cut short; or
anything becomes of its files between two syncs. -/
def Fleet.RoughStep : Fleet ι → Fleet ι → Prop :=
  Parties.Step (S := Signature.fallible Op.Val SyncError) (roughCall ws) (fun _ _ => True) (fun _ => True)
    (SyncIn ws fun _ => True)

variable (ws) in
/-- A call of a device whose user may have edited the tree before it. -/
def editedCall (o : Op) (d : Device) (s : Remote) (r : SyncResult o.Val) (d' : Device) (s' : Remote) : Prop :=
  ∃ tree, roughCall ws o { d with tree := tree } s r d' s'

variable (ws) in
/-- The steps of such a fleet where the trees are edited also while devices sync,
but not while a scan reads them. -/
def Fleet.EditedStep : Fleet ι → Fleet ι → Prop :=
  Parties.Step (S := Signature.fallible Op.Val SyncError) (editedCall ws) (fun _ _ => True) (fun _ => True)
    (SyncIn ws fun _ => True)

variable (ws) in
/-- What each device relies on and keeps. -/
def Fleet.roughTerms : Terms (Signature.fallible Op.Val SyncError) World (SyncResult SyncReport) Device Remote where
  own := World.device
  seen := World.remote
  env := semEdited (.crowd ws) ws
  good := HeadsPullable ws
  Later := Remote.Later (.crowd ws)
  idle _ _ _ := True

theorem within_crowd (hgood : HeadsPullable ws r) (hlater : Remote.Later (.crowd ws) r' r) :
    Setting.rough.Within (.crowd ws) r r' := by
  refine ⟨False.elim, id, id, fun now hnow => ⟨hlater.grows.trans hnow.grows, .inl trivial, fun _ => ?_⟩⟩
  exact hgood.grows hnow.grows (hnow.heads.resolve_left id)

/-- **Each sync keeps what the head has named pullable.** -/
theorem Fleet.roughTerms_kept (hideal : ws.Ideal) :
    (Fleet.roughTerms ws).Kept (S := Signature.fallible Op.Val SyncError)
    (editedCall ws) (fun _ _ => True) (fun _ => True) (SyncIn ws fun _ => True) where
  refl r := .refl r
  trans h h' := h.trans h'
  good h hr := h.server hr
  view d r := ⟨⟨d, r⟩, rfl, rfl⟩
  call {o w s r d' s'} hgood hlater hcall := by
    obtain ⟨tree, hintact, hdistinct⟩ := hcall
    obtain ⟨seen, hseen, heq⟩ := semIntact_earlier (within_crowd hgood hlater) hintact
    rcases heq with rfl | ⟨rfl, rfl⟩
    · exact ⟨⟨d', seen⟩, ⟨tree, hseen, hdistinct⟩, rfl, .refl _⟩
    · exact ⟨⟨d', w.remote⟩, ⟨tree, hseen, hdistinct.earlier hlater.grows⟩, rfl, hlater⟩
  later hcall _ hgood := by
    obtain ⟨_, ⟨hsem, _⟩, _⟩ := hcall
    exact ⟨grows_sem hsem, .inl trivial, fun _ => hgood⟩
  forget _ := trivial
  touched _ _ := trivial
  stays _ _ := trivial
  run {p w out t} hp hgood _ hrun := by
    obtain ⟨mode, _, rfl⟩ := hp
    have hsync : EditedPullable (.crowd ws) ws (sync ws mode) w fun _ _ => True :=
      editedPullable_syncAttempt hideal trivial rfl 1 mode none 0 hgood
    exact ⟨((hsync.kept rfl hgood).anywhere hrun).1, fun _ => trivial⟩

/-- Whatever is edited, what the head has named can be pulled. -/
theorem Fleet.heads_pullable (hideal : ws.Ideal) (hidle : ∀ i, c.running i = none) (hheads : HeadsPullable ws c.shared)
    (hsteps : Relation.ReflTransGen (Fleet.EditedStep ws) c c') : HeadsPullable ws c'.shared := by
  have hstart : (Fleet.roughTerms ws).Holds (SyncIn ws fun _ => True) c := by
    refine ⟨hheads, fun i => ?_⟩
    rw [hidle i]
    trivial
  exact ((Fleet.roughTerms_kept hideal).steps hstart hsteps).good

theorem Fleet.RoughStep.edited (h : Fleet.RoughStep ws c c') : Fleet.EditedStep ws c c' :=
  Parties.Step.mono (S := Signature.fallible Op.Val SyncError) (fun _ d _ _ _ _ hcall => ⟨d.tree, hcall⟩) h

/-! ### What holds of every interleaving -/

variable (ws) in
/-- What a device gets of the head as it was at a revision, beyond what it has. -/
def fetchRevision (head : RemoteHead) (available : BTreeSet String) : Sync (Manifest × BTreeMap String Bytes) := do
  let m ← loadRemoteManifest ws head
  let blobs ← downloadManifestBlobs ws m available
  return (m, blobs)

theorem HeadsPullable.named (h : HeadsPullable ws r) (n : ℕ) : ∃ m, Names ws r (r.headAt n) m ∧ Pullable ws r m := by
  cases hid : (r.headAt n).manifestId with
  | none =>
    refine ⟨.new ws.workspaceId, ?_, ?_⟩
    · unfold Names
      rw [hid]
    · obtain ⟨files, hfiles⟩ := uniqueFiles_exists (m := .new ws.workspaceId)
        (fun p file hp => by rw [Manifest.get_new] at hp; cases hp)
        fun p _ file _ hp => by rw [Manifest.get_new] at hp; cases hp
      refine ⟨files, hfiles, fun f hf => ?_⟩
      obtain ⟨p, file, hp, _⟩ := (uniqueFiles_ok hfiles).listed f hf
      rw [Manifest.get_new] at hp
      cases hp
  | some id =>
    have hmem : id ∈ r.heads := List.mem_of_mem_take (List.mem_of_getLast? hid)
    obtain ⟨m, hm, hpull⟩ := h id hmem
    refine ⟨m, ?_, hpull⟩
    unfold Names
    rw [hid]
    exact hm

/-- What a device has got is all that the manifest lists. -/
structure Brought (ws : Workspace) (m : Manifest) (available : BTreeSet String)
    (got : Manifest × BTreeMap String Bytes) : Prop where
  manifest : got.1 = m
  contents : ∀ p file, m.get p = some (.file file) → file.contentHash ∉ available →
    ∃ b : Bytes, got.2[file.contentHash]? = some b ∧ b.length = file.size ∧ sha256Hex ws.digest b = file.contentHash

theorem guarded_fetchRevision {env : Setting} {w : World} {head : RemoteHead} {available : BTreeSet String}
    (hm : Names ws w.remote head m) (hpull : Pullable ws w.remote m) :
    Fallible.Guarded (sem env) (fun _ _ => True) (fun _ => env.remoteFails) (fetchRevision ws head available) w
      fun got _ => Brought ws m available got := by
  refine Fallible.Guarded.bind (guarded_loadRemoteManifest hm) fun a t h => ?_
  obtain ⟨rfl, ht⟩ := h
  have hlater : Pullable ws t.remote a := hpull.grows ht.remote.grows
  have hbrings : Fallible.Runs (sem env) (fun _ => True) (downloadManifestBlobs ws a available) t
      fun blobs u => Meanwhile env t u ∧ Downloaded ws a available blobs := runs_downloadManifestBlobs
        fun _ _ => trivial
  refine Fallible.Guarded.bind ((guarded_downloadManifestBlobs hlater).and_runs hbrings)
    fun blobs u h => Fallible.Guarded.pure ⟨rfl, fun p file hp hnot => ?_⟩
  exact h.2.2.brings hlater hp hnot

/-- **What is published can be pulled.** Whatever the head has named at a
revision: the manifest is there and is accepted, the objects it refers to are
there and no longer than objects may be; and at any later moment any device gets
all its contents, unless a request fails. -/
theorem published_available (ws : Workspace) (hideal : ws.Ideal) {c c' : Fleet ι} (hidle : ∀ i, c.running i = none)
    (hheads : HeadsPullable ws c.shared) (hsteps : Relation.ReflTransGen (Fleet.RoughStep ws) c c') (n : ℕ) :
    ∃ m, Names ws c'.shared (c'.shared.headAt n) m ∧
      (∀ p file, m.get p = some (.file file) → ∃ ids, remoteRefs file = .ok ids ∧ ∀ id ∈ ids, ∃ bytes,
        c'.shared.blobs id = some bytes ∧ bytes.length ≤ maxEncryptedObjectBytes) ∧
      ∀ env : Setting, ¬ env.remoteFails → ∀ (d : Device) (later : Remote) (available : BTreeSet String),
        c'.shared.Grows later →
          (∃ got t, Fallible.Reaches (sem env) (fetchRevision ws (c'.shared.headAt n) available) ⟨d, later⟩
            (some (.ok got)) t) ∧
          ∀ out t, Fallible.Reaches (sem env) (fetchRevision ws (c'.shared.headAt n) available)
            ⟨d, later⟩ (some out) t →
            ∃ got, out = .ok got ∧ Brought ws m available got := by
  have hgood : HeadsPullable ws c'.shared :=
    Fleet.heads_pullable hideal hidle hheads (hsteps.lift id fun _ _ h => Fleet.RoughStep.edited h)
  obtain ⟨m, hm, hpull⟩ := hgood.named n
  refine ⟨m, hm, fun p file hp => ?_, fun env hrequests d later available hgrows => ?_⟩
  · obtain ⟨files, hfiles, hkept⟩ := hpull
    obtain ⟨f, hf, _, _, hrefs⟩ := (uniqueFiles_ok hfiles).covers p file hp
    obtain ⟨_, contents, hrestores, _⟩ := hkept f hf
    exact ⟨f.blobIds, hrefs, fun id hid => hrestores.stored hid⟩
  · have hfetch : Fallible.Guarded (sem env) (fun _ _ => True) (fun _ => False)
        (fetchRevision ws (c'.shared.headAt n) available) ⟨d, later⟩ fun got _ => Brought ws m available got :=
      (guarded_fetchRevision (hm.grows hgrows) (hpull.grows hgrows)).weaken (fun _ hfails => hrequests hfails)
        fun _ _ h => h
    refine ⟨?_, fun out t hrun => ?_⟩
    · obtain ⟨got, t, hrun, _⟩ := hfetch.succeeds (sem_total env)
      exact ⟨got, t, hrun⟩
    · cases out with
      | error error => exact (hfetch.error hrun).elim
      | ok got => exact ⟨got, rfl, hfetch.ok hrun⟩

/-! ### Edits while devices sync -/

variable (ws) in
/-- The manifest with the id is there and is accepted, and the objects its files
refer to are there. -/
structure Complete (r : Remote) (id : ManifestId) (m : Manifest) (files : List RemoteFile) : Prop where
  manifest : ∃ bytes, r.manifests id = some bytes ∧ bytes.length ≤ maxEncryptedObjectBytes ∧
    openManifest ws id bytes = .ok m
  valid : validatePulledManifest ws m = .ok ()
  listed : uniqueFileRemoteBlobIds m = .ok files
  objects : ∀ file ∈ files, ∀ id ∈ file.blobIds, ∃ bytes, r.blobs id = some bytes ∧
    bytes.length ≤ maxEncryptedObjectBytes

theorem openManifest_parts {id : ManifestId} {bytes : Bytes} (h : openManifest ws id bytes = .ok m) :
    bytes.length ≤ maxEncryptedObjectBytes ∧ validatePulledManifest ws m = .ok () := by
  obtain ⟨_, h⟩ := Except.bind_unit_ok.mp h
  obtain ⟨plaintext, hopen, h⟩ := Except.bind_ok.mp h
  obtain ⟨parsed, _, h⟩ := Except.bind_ok.mp h
  obtain ⟨hvalid, h⟩ := Except.bind_unit_ok.mp h
  cases h
  obtain ⟨object, hframe, _⟩ := Except.bind_ok.mp (Except.mapError_ok.mp hopen)
  refine ⟨?_, Except.mapError_ok.mp hvalid⟩
  exact (fromBinaryBytes_ok.mp (fromRemoteBytes_eq.mp (Except.mapError_ok.mp hframe))).size

theorem Complete.grows {id : ManifestId} {files : List RemoteFile} (h : Complete ws r id m files)
    (hgrows : r.Grows r') : Complete ws r' id m files := by
  obtain ⟨⟨bytes, hbytes, hopen⟩, hvalid, hfiles, hobjects⟩ := h
  refine ⟨⟨bytes, hgrows.manifests id bytes hbytes, hopen⟩, hvalid, hfiles, fun file hfile id hid => ?_⟩
  obtain ⟨object, hobject, hsize⟩ := hobjects file hfile id hid
  exact ⟨object, hgrows.blobs id object hobject, hsize⟩

theorem HeadsPullable.complete (h : HeadsPullable ws r) {id : ManifestId} (hid : id ∈ r.heads) :
    ∃ m files, Complete ws r id m files ∧ Pullable ws r m := by
  obtain ⟨m, ⟨bytes, hbytes, hopen⟩, hpull⟩ := h id hid
  obtain ⟨hsize, hvalid⟩ := openManifest_parts hopen
  obtain ⟨files, hfiles, hkept⟩ := hpull
  refine ⟨m, files, ⟨⟨bytes, hbytes, hsize, hopen⟩, hvalid, hfiles, fun file hfile id hid => ?_⟩, files, hfiles, hkept⟩
  obtain ⟨_, contents, hrestores, _⟩ := hkept file hfile
  exact hrestores.stored hid

/-- What is brought of the manifest: each content that was not at hand. -/
def Rebuilds (ws : Workspace) (m : Manifest) (available : BTreeSet String)
    (blobs : BTreeMap String Bytes) : Prop :=
  ∀ p file, m.get p = some (.file file) → file.contentHash ∉ available →
    ∃ b : Bytes, blobs[file.contentHash]? = some b ∧ b.length = file.size ∧ sha256Hex ws.digest b = file.contentHash

/-- **What is pushed can be pulled**, also where the trees are edited while their
devices sync. Whatever a push has moved the head to is there and is accepted,
with all the objects it refers to, and at any later moment any device that
downloads it rebuilds each of its files, unless a request fails; no object that
a device uploads is longer than objects may be. -/
theorem pushed_pullable (ws : Workspace) (hideal : ws.Ideal) {c c' : Fleet ι} (hidle : ∀ i, c.running i = none)
    (hheads : HeadsPullable ws c.shared) (hsteps : Relation.ReflTransGen (Fleet.EditedStep ws) c c') :
    (∀ id ∈ c'.shared.heads, ∃ m files, ∀ later, c'.shared.Grows later → Complete ws later id m files ∧
      ∀ env : Setting, ¬ env.remoteFails → ∀ (d : Device) (available : BTreeSet String),
        (∃ blobs t, Fallible.Reaches (sem env) (downloadManifestBlobs ws m available) ⟨d, later⟩
          (some (.ok blobs)) t) ∧
        ∀ out t, Fallible.Reaches (sem env) (downloadManifestBlobs ws m available) ⟨d, later⟩ (some out) t →
          ∃ blobs, out = .ok blobs ∧ Rebuilds ws m available blobs) ∧
    ∀ i o k, c'.running i = some (.call o k) → o.Sized := by
  have hgood : HeadsPullable ws c'.shared := Fleet.heads_pullable hideal hidle hheads hsteps
  refine ⟨fun id hid => ?_, fun i o k hat => ?_⟩
  · obtain ⟨m, files, hcomplete, hpull⟩ := hgood.complete hid
    refine ⟨m, files, fun later hgrows => ⟨hcomplete.grows hgrows, fun env hrequests d available => ?_⟩⟩
    have hdownload : Fallible.Guarded (sem env) (fun _ _ => True) (fun _ => False)
        (downloadManifestBlobs ws m available) ⟨d, later⟩ fun blobs _ => Rebuilds ws m available blobs := by
      have hlater : Pullable ws (World.mk d later).remote m := hpull.grows hgrows
      have hruns : Fallible.Runs (sem env) (fun _ => True) (downloadManifestBlobs ws m available) ⟨d, later⟩
          fun blobs t => Meanwhile env ⟨d, later⟩ t ∧ Downloaded ws m available blobs :=
        runs_downloadManifestBlobs fun _ _ => trivial
      refine ((guarded_downloadManifestBlobs hlater).and_runs hruns).weaken (fun _ hfails => hrequests hfails)
        fun blobs _ h p file hp hnot => ?_
      exact h.2.2.brings hlater hp hnot
    refine ⟨?_, fun out t hrun => ?_⟩
    · obtain ⟨blobs, t, hrun, _⟩ := hdownload.succeeds (sem_total env)
      exact ⟨blobs, t, hrun⟩
    · cases out with
      | error error => exact (hdownload.error hrun).elim
      | ok blobs => exact ⟨blobs, rfl, hdownload.ok hrun⟩
  · have hcalls := Parties.calls (S := Signature.fallible Op.Val SyncError) (C := Op.Sized)
      (P := SyncIn ws fun _ => True) (fun p hp => ?_) hidle hsteps i _ hat
    · cases hcalls with
      | call ho _ => exact ho
    · obtain ⟨mode, _, rfl⟩ := hp
      exact sizedCalls_syncAttempt 1 mode none 0

end Rough

/-! ### A note that is available -/

section Sample

instance (ws : Workspace) (w : World) : Decidable (w.Distinct ws) :=
  inferInstanceAs (Decidable (∀ a ∈ w.contents ws, ∀ b ∈ w.contents ws, a.1 = b.1 → a.2 = b.2))

/-- What a call does alone, if no hashes collide. -/
def aloneDistinct (ws : Workspace) (o : Op) (w : Device × Remote) : Option (SyncResult o.Val × (Device × Remote)) :=
  let (r, w') := World.alone o ⟨w.1, w.2⟩
  if o.Intact w'.remote ∧ w'.Distinct ws then some (r, (w'.device, w'.remote)) else none

theorem roughCall_alone {ws : Workspace} {o : Op} {d d' : Device} {s s' : Remote} {r : SyncResult o.Val}
    (h : aloneDistinct ws o (d, s) = some (r, (d', s'))) : roughCall ws o d s r d' s' := by
  unfold aloneDistinct at h
  dsimp only at h
  split at h
  · rename_i hgood
    have hsem := sem_alone .rough o ⟨d, s⟩
    cases h
    exact ⟨⟨hsem, hgood.1⟩, hgood.2⟩
  · cases h

/-- The note is published. -/
def notePublishing : Option (SyncResult SyncReport × Device × Remote) :=
  Fallible.exec (aloneDistinct sampleSpace) (sync sampleSpace .reconcile) (notesWorld.device, notesWorld.remote)

theorem notePublishing_done : ∃ out d r, notePublishing = some (out, d, r) ∧ r.heads.length = 1 := by
  have hdone : notePublishing.map (fun a => a.2.2.heads.length) = some 1 := by decide +kernel
  obtain ⟨⟨out, d, r⟩, hrun, hlength⟩ := Option.map_eq_some_iff.mp hdone
  exact ⟨out, d, r, hrun, hlength⟩

/-- The other device can pull the note. -/
theorem note_available : ∃ c' : Fleet Bool, Relation.ReflTransGen (Fleet.RoughStep sampleSpace) noteFleet c' ∧
    c'.shared.heads.length = 1 ∧ ∃ m got t, Names sampleSpace c'.shared (c'.shared.headAt 1) m ∧
      Fallible.Reaches (sem .alone) (fetchRevision sampleSpace (c'.shared.headAt 1) ∅) ⟨noteFleet.own false, c'.shared⟩
        (some (.ok got)) t ∧ Brought sampleSpace m ∅ got := by
  obtain ⟨out, d, r, hexec, hlength⟩ := notePublishing_done
  have hsteps : Relation.ReflTransGen (Fleet.RoughStep sampleSpace) noteFleet { noteFleet with
      own := Function.update noteFleet.own true d
      shared := r
      last := Function.update noteFleet.last true (some out) } :=
    Parties.runs_alone (fun _ _ _ _ _ _ hcall => roughCall_alone hcall) rfl ⟨_, trivial, rfl⟩ hexec trivial
  obtain ⟨m, hm, _, hfetch⟩ := published_available sampleSpace sampleSpace_ideal (fun _ => rfl)
    (fun id hid => absurd hid List.not_mem_nil) hsteps 1
  obtain ⟨⟨got, t, hrun⟩, hall⟩ := hfetch .alone id (noteFleet.own false) r ∅ (.refl _)
  obtain ⟨got', heq, hfetched⟩ := hall _ t hrun
  cases heq
  exact ⟨_, hsteps, hlength, m, got, t, hm, hrun, hfetched⟩

/-- The user changes the note when a content is about to be uploaded. -/
def noteEdit (o : Op) (d : Device) : Device :=
  match o with
  | .uploadBlob .. => { d with tree := noteTree "ONE\ntwo\n" }
  | _ => d

theorem editedCall_noteEdit {o : Op} {d d' : Device} {s s' : Remote} {r : SyncResult o.Val}
    (h : aloneDistinct sampleSpace o (noteEdit o d, s) = some (r, (d', s'))) :
    editedCall sampleSpace o d s r d' s' := by
  refine ⟨(noteEdit o d).tree, ?_⟩
  have hsame : { d with tree := (noteEdit o d).tree } = noteEdit o d := by cases o <;> rfl
  rw [hsame]
  exact roughCall_alone h

/-- The note is published while it is edited. -/
def noteEditing : Option (SyncResult SyncReport × Device × Remote) :=
  Fallible.exec (fun o (w : Device × Remote) => aloneDistinct sampleSpace o (noteEdit o w.1, w.2))
    (sync sampleSpace .reconcile) (notesWorld.device, notesWorld.remote)

theorem noteEditing_done : ∃ out d r, noteEditing = some (out, d, r) ∧
    d.tree.get "notes".toList = some (sampleFile (utf8 "ONE\ntwo\n")) ∧
    entriesAt r 1 = some (noteManifest "one\ntwo\n").entries.toList := by
  have hdone : noteEditing.map (fun a => decide (a.2.1.tree.get "notes".toList = some (sampleFile (utf8 "ONE\ntwo\n")) ∧
      entriesAt a.2.2 1 = some (noteManifest "one\ntwo\n").entries.toList)) = some true := by decide +kernel
  obtain ⟨⟨out, d, r⟩, hrun, hends⟩ := Option.map_eq_some_iff.mp hdone
  exact ⟨out, d, r, hrun, of_decide_eq_true hends⟩

/-- The note is pulled as it was scanned, and not as it has been edited since. -/
theorem edited_note_pulled : ∃ c' : Fleet Bool, Relation.ReflTransGen (Fleet.EditedStep sampleSpace) noteFleet c' ∧
    (c'.own true).tree.get "notes".toList = some (sampleFile (utf8 "ONE\ntwo\n")) ∧ ∃ id m files blobs t,
      id ∈ c'.shared.heads ∧ Complete sampleSpace c'.shared id m files ∧
      m.entries.toList = (noteManifest "one\ntwo\n").entries.toList ∧
      Fallible.Reaches (sem .alone) (downloadManifestBlobs sampleSpace m ∅) ⟨noteFleet.own false, c'.shared⟩
        (some (.ok blobs)) t ∧ Rebuilds sampleSpace m ∅ blobs := by
  obtain ⟨out, d, r, hexec, hedited, hentries⟩ := noteEditing_done
  have hsteps : Relation.ReflTransGen (Fleet.EditedStep sampleSpace) noteFleet { noteFleet with
      own := Function.update noteFleet.own true d
      shared := r
      last := Function.update noteFleet.last true (some out) } :=
    Parties.runs_alone (fun _ _ _ _ _ _ hcall => editedCall_noteEdit hcall) rfl ⟨_, trivial, rfl⟩ hexec trivial
  have hpushed := (pushed_pullable sampleSpace sampleSpace_ideal (fun _ => rfl)
    (fun id hid => absurd hid List.not_mem_nil) hsteps).1
  cases hid : (r.headAt 1).manifestId with
  | none =>
    unfold entriesAt at hentries
    rw [hid] at hentries
    cases hentries
  | some id =>
    have hmem : id ∈ r.heads := List.mem_of_mem_take (List.mem_of_getLast? hid)
    obtain ⟨m, files, hall⟩ := hpushed id hmem
    obtain ⟨hcomplete, hdownload⟩ := hall r (.refl _)
    obtain ⟨⟨blobs, t, hrun⟩, hends⟩ := hdownload .alone not_false (noteFleet.own false) ∅
    obtain ⟨blobs', heq, hrebuilds⟩ := hends _ t hrun
    cases heq
    have hnames : Names sampleSpace r (r.headAt 1) m := by
      unfold Names
      rw [hid]
      obtain ⟨bytes, hbytes, _, hopen⟩ := hcomplete.manifest
      exact ⟨bytes, hbytes, hopen⟩
    exact ⟨_, hsteps, hedited, id, m, files, blobs, t, hmem, hcomplete, entriesAt_names hentries hnames, hrun,
      hrebuilds⟩

end Sample

end RustSync
