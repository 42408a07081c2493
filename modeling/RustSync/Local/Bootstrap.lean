/-
Bootstrapping a pending device

`device bootstrap` finds a folder `.rustsync` that holds just the identity of
the device, sets it aside, and writes the files of the workspace into a new
one. Where a file cannot be written the new folder is removed and the old one
is put back.

Wherever a run is cut short or fails, the identity can be read from the folder
or from the one set aside, and nothing outside of the two is changed
(`bootstrap_keeps_identity`). A run that succeeds has written all the files;
one that fails has changed nothing, or has left the old folder set aside as a
whole, or could not save the configuration (`bootstrap_ends`).

Key definitions: `bootstrapPendingWorkspace`, `bootstrap`, `SetAside`.
-/
import RustSync.Cli.Delivery
import RustSync.Local.Stores

namespace RustSync

open Fallible Serde FileTree Codec

/-! ### The command -/

section Bootstrap

def bootstrapBackup : RelPath := ".rustsync.bootstrap-backup".toList

/-- The file is looked for where the folder is there. -/
def identityExists : Local Bool := do
  if ← tryExists rustsyncDir then tryExists deviceIdentityPath else return false

/-- The folder holds the identity, and nothing else. -/
def requirePendingIdentityLayout : Local Unit := do
  let there ← identityExists
  check (require (there = true) (.message
    "missing pending local identity in `.rustsync`; run `rustsync device request` first"))
  let configured ← tryExists configPath
  check (require (configured = false)
    (.message "workspace is already initialized; refusing to bootstrap over existing metadata"))
  let entries : List (Option RelPath) ← op (FsOp.readDir (φ := Stored) rustsyncDir)
  check (require (entries = [some deviceIdentityPath])
    (.message "pending `.rustsync` contains unexpected workspace metadata; refusing to overwrite it"))

variable (E : ClientEnv)

/-- The key of an envelope, with the records of the access state. -/
def openBootstrapKey (accessState : AccessState) (identity : DeviceIdentity) (envelope : KeyEnvelope) :
    Except WorkspaceError Key32 := do
  let recipientRecord ← (accessState.activeDeviceRecord identity.deviceId).mapError .protocol
  let senderRecord ← (accessState.activeDeviceRecord envelope.senderDeviceId).mapError .protocol
  let key ← (openKeyEnvelope E.crypto accessState .shared envelope identity recipientRecord
    senderRecord).mapError .access
  require (envelope.keyId = systemKeyId) (.message "bootstrap requires the system key envelope")
  return key

def restorePendingIdentity (cause : WorkspaceError) : Local WorkspaceConfig := do
  if ← tryExists rustsyncDir then
    ExceptT.adapt (.notRemoved cause) (op (FsOp.removeDirAll (φ := Stored) rustsyncDir))
  ExceptT.adapt (.notRestored cause) (op (FsOp.rename (φ := Stored) bootstrapBackup rustsyncDir))
  throw (.restored cause)

def bootstrapPendingWorkspace (identity : DeviceIdentity) (accessState : AccessState) (envelope : KeyEnvelope)
    (now : UnixTimestamp) : Local WorkspaceConfig := do
  requirePendingIdentityLayout
  let workspaceKey ← check (openBootstrapKey E accessState identity envelope)
  if ← tryExists bootstrapBackup then
    throw (.message "bootstrap backup path already exists: .rustsync.bootstrap-backup")
  op (FsOp.rename (φ := Stored) rustsyncDir bootstrapBackup)
  match ← attempt (bootstrapWithKey E identity accessState systemKeyId envelope.keyGeneration workspaceKey now) with
  | .ok config =>
    let _ ← attempt (op (FsOp.removeDirAll (φ := Stored) bootstrapBackup) : Local Unit)
    return config
  | .error error => restorePendingIdentity error

/-- `device bootstrap`, with what the server answers the device. -/
def bootstrap (workspaceId : WorkspaceId) (baseUrl : String)
    (fetchAccessState : DeviceIdentity → Except WorkspaceError AccessState)
    (downloadKeyEnvelope : DeviceIdentity → Except WorkspaceError KeyEnvelope) (now : UnixTimestamp) :
    Local WorkspaceConfig := do
  requirePendingIdentityLayout
  let loaded ← loadLocalDeviceIdentity E
  let identity ← check (okOr loaded
    (.message "missing pending local device identity; run `rustsync device request` first"))
  let accessState ← check (fetchAccessState identity)
  let actual := accessState.workspaceId
  check (require (accessState.workspaceId = workspaceId)
    (.message s!"access state workspace `{actual}` does not match requested workspace `{workspaceId}`"))
  check ((requireActiveIdentity accessState identity).mapError .client)
  let envelope ← check (downloadKeyEnvelope identity)
  let config ← bootstrapPendingWorkspace E identity accessState envelope now
  let config := { config with serverUrl := some baseUrl }
  saveConfig E config
  return config

end Bootstrap

/-! ### What is looked at first -/

section Layout

variable {E : ClientEnv} {t u : FileTree Stored} {path : RelPath}

/-- The folder of a pending device: its identity, and nothing else. -/
structure PendingOnly (t : FileTree Stored) : Prop where
  folder : t.get rustsyncDir = some .directory
  alone : ∀ q, Child rustsyncDir q → t.get q ≠ none → q = deviceIdentityPath

/-- What the runs of a program that only looks come to. -/
abbrev Finds {α : Type} (x : Local α) (t : FileTree Stored) (Q : α → Prop) : Prop :=
  Runs (FsOp.Does WorkspaceError.IsIo) (fun u => u = t) x t fun a u => u = t ∧ Q a

theorem Finds.then {α β : Type} {x : Local α} {f : α → Local β} {Q : α → Prop} {R : β → Prop} (hx : Finds x t Q)
    (hf : ∀ a, Q a → Finds (f a) t R) : Finds (x >>= f) t R := by
  refine Runs.bind hx fun a u _ h => ?_
  obtain ⟨rfl, ha⟩ := h
  exact hf a ha

/-- What only looks leaves the tree where it is. -/
theorem Finds.before {α β : Type} {x : Local α} {f : α → Local β} {Q : α → Prop} {I F : FileTree Stored → Prop}
    {R : β → FileTree Stored → Prop} (hx : Finds x t Q) (hI : I t) (hF : F t)
    (hf : ∀ a, Q a → Outcomes (FsOp.Does WorkspaceError.IsIo) I F (f a) t R) :
    Outcomes (FsOp.Does WorkspaceError.IsIo) I F (x >>= f) t R := by
  refine Outcomes.bind (hx.outcomes.weaken (fun u hu => ?_) (fun u hu _ => ?_) fun _ _ _ h => h) fun a u _ h => ?_
  · exact hu ▸ hI
  · exact hu ▸ hF
  · obtain ⟨rfl, ha⟩ := h
    exact hf a ha

theorem Finds.check {α : Type} {x : Except WorkspaceError α} : Finds (Fallible.check x) t fun a => x = .ok a :=
  Runs.check rfl fun _ ha => ⟨rfl, ha⟩

/-- A call that only looks. -/
theorem Finds.call {o : FsOp Stored} {Q : o.Val → Prop} (hok : ∀ a u, o.Succeeds t a u → u = t ∧ Q a)
    (hbroken : ∀ u, o.Breaks t u → u = t) : Finds (op o) t Q := by
  refine Runs.op rfl fun r u hdoes => ?_
  cases r with
  | ok a =>
    refine ⟨(hok a u hdoes).1, fun _ heq => ?_⟩
    cases heq
    exact hok a u hdoes
  | error e => exact ⟨hbroken u hdoes.2, fun _ h => by cases h⟩

theorem tryExists_finds : Finds (tryExists path) t fun there =>
    there = false → t.get path ≠ some .directory := by
  refine Finds.call (fun there u h => ⟨h.1, fun hthere hdirectory => ?_⟩) fun _ h => h
  have htrue : there = true := h.2.2 _ hdirectory (by simp)
  rw [hthere] at htrue
  cases htrue

theorem identityExists_finds : Finds identityExists t fun _ => True := by
  refine tryExists_finds.then fun folder _ => ?_
  cases folder with
  | true => exact tryExists_finds.weaken (fun _ h => h) fun _ _ _ h => ⟨h.1, trivial⟩
  | false => exact Runs.pure rfl ⟨rfl, trivial⟩

theorem requirePendingIdentityLayout_finds : Finds requirePendingIdentityLayout t fun _ => PendingOnly t := by
  refine identityExists_finds.then fun there _ => Finds.check.then fun _ _ => ?_
  refine tryExists_finds.then fun configured _ => Finds.check.then fun _ _ => ?_
  refine Finds.then (Q := fun entries : List (Option RelPath) => t.get rustsyncDir = some .directory ∧
    (none ∉ entries → ∀ q, Child rustsyncDir q → t.get q ≠ none → some q ∈ entries))
    (Finds.call (fun _ _ h => ⟨h.1, h.2.1, h.2.2.2⟩) fun _ h => h) fun entries h => ?_
  refine Finds.check.weaken (fun _ h => h) fun _ _ _ hcheck => ⟨hcheck.1, h.1, fun q hq hthere => ?_⟩
  have hentries : entries = [some deviceIdentityPath] := require_ok.mp hcheck.2
  have hmem := h.2 (by simp [hentries]) q hq hthere
  simpa [hentries] using hmem

theorem pathExists_finds : Finds (pathExists path) t fun _ => True := by
  refine Runs.bind (P := fun _ u => u = t) (Runs.attempt_op rfl fun r u hdoes => ?_) fun r u _ hu => ?_
  · cases r with
    | ok there => exact ⟨hdoes.1, hdoes.1⟩
    | error e => exact ⟨hdoes.2, hdoes.2⟩
  · subst hu
    cases r with
    | ok there => exact Runs.pure rfl ⟨rfl, trivial⟩
    | error e => exact Runs.pure rfl ⟨rfl, trivial⟩

theorem readText_finds : Finds (readText path) t fun text => t.get path = some (.file (.text text)) := by
  refine Finds.then (Q := fun content : Stored => t.get path = some (.file content))
    (Finds.call (fun _ _ h => h) fun _ h => h) fun content hcontent => ?_
  cases content with
  | text document => exact Runs.pure rfl ⟨rfl, hcontent⟩
  | bytes bytes => exact Runs.throw rfl

theorem loadLocalDeviceIdentity_finds : Finds (loadLocalDeviceIdentity E) t fun loaded =>
    ∀ identity, loaded = some identity → ∃ text, t.get deviceIdentityPath = some (.file (.text text)) ∧
      decodeIdentity text = .ok identity := by
  refine pathExists_finds.then fun there _ => ?_
  cases there with
  | false => exact Runs.pure rfl ⟨rfl, fun _ h => by cases h⟩
  | true =>
    refine readText_finds.then fun text htext => Finds.check.then fun identity hidentity => ?_
    refine Finds.check.then fun _ _ => Runs.pure rfl ⟨rfl, fun _ heq => ?_⟩
    cases heq
    exact ⟨text, htext, Except.mapError_ok.mp hidentity⟩

end Layout

/-! ### Where the runs come to -/

section Runs

variable {E : ClientEnv} {t u v : FileTree Stored} {identity : DeviceIdentity} {accessState : AccessState}
  {envelope : KeyEnvelope} {now : UnixTimestamp}

/-- The trees agree outside of the folder and of the one set aside. -/
def AgreeElsewhere (t u : FileTree Stored) : Prop :=
  ∀ q, ¬ Within rustsyncDir q → ¬ Within bootstrapBackup q → u.get q = t.get q

/-- The folder of a pending device is set aside as a whole. -/
def SetAside (t u : FileTree Stored) : Prop :=
  PendingOnly t ∧ t.get bootstrapBackup ≠ some .directory ∧
    ∃ t₁, Renamed rustsyncDir bootstrapBackup t t₁ ∧ ∀ q, ¬ Within rustsyncDir q → u.get q = t₁.get q

theorem SetAside.get (h : SetAside t u) {q : RelPath} (hq : ¬ Within rustsyncDir q) : u.get q =
    if Within bootstrapBackup q then t.get (reroot bootstrapBackup rustsyncDir q) else t.get q := by
  obtain ⟨hpending, hbackup, t₁, hrenamed, hagree⟩ := h
  rw [hagree q hq, (hrenamed.folder hpending.folder hbackup).2, if_neg hq]

/-- What was in the folder is in the one set aside. -/
theorem SetAside.kept (h : SetAside t u) {q : RelPath} (hq : Within rustsyncDir q) :
    u.get (reroot rustsyncDir bootstrapBackup q) = t.get q := by
  have hin : Within bootstrapBackup (reroot rustsyncDir bootstrapBackup q) := within_reroot hq
  have hout : ¬ Within rustsyncDir (reroot rustsyncDir bootstrapBackup q) := by
    intro hw
    rcases hin.linear hw with h' | h'
    · exact absurd h' (by decide +kernel)
    · exact absurd h' (by decide +kernel)
  rw [h.get hout, if_pos hin, reroot_reroot hq]

theorem SetAside.elsewhere (h : SetAside t u) : AgreeElsewhere t u := by
  intro q hq hbackup
  rw [h.get hq, if_neg hbackup]

theorem SetAside.step (h : SetAside t u) (hsame : ∀ q, ¬ Within rustsyncDir q → v.get q = u.get q) : SetAside t v := by
  obtain ⟨hpending, hbackup, t₁, hrenamed, hagree⟩ := h
  exact ⟨hpending, hbackup, t₁, hrenamed, fun q hq => (hsame q hq).trans (hagree q hq)⟩

/-- A call on the new folder leaves the old one set aside. -/
theorem SetAside.inside (o : FsOp Stored) {r : Except WorkspaceError o.Val} (h : SetAside t u)
    (ho : o.Inside rustsyncDir)
    (hdoes : o.Does WorkspaceError.IsIo u r v) : SetAside t v :=
  h.step fun _ hq => (ho.spares (by decide +kernel) hq).get_eq hdoes

/-- Putting the folder back leaves nothing changed. -/
theorem SetAside.back (h : SetAside t u) (hgone : u.get rustsyncDir ≠ some .directory)
    (hrenamed : Renamed bootstrapBackup rustsyncDir u v) : v = t := by
  obtain ⟨hpending, hbackup, t₁, haside, hagree⟩ := h
  exact haside.back hpending.folder hbackup hagree hgone (by decide +kernel) hrenamed

/-- Nothing is changed, or the folder is set aside. -/
def Undone (t u : FileTree Stored) : Prop := u = t ∨ SetAside t u

theorem putBack_outcomes {cause : WorkspaceError} (h : SetAside t u) (hgone : u.get rustsyncDir ≠ some .directory) :
    Outcomes (FsOp.Does WorkspaceError.IsIo) (Undone t) (Undone t) (do
      ExceptT.adapt (.notRestored cause) (op (FsOp.rename (φ := Stored) bootstrapBackup rustsyncDir))
      throw (.restored cause) : Local WorkspaceConfig) u fun _ _ => False := by
  refine Outcomes.bind (P := fun _ v => v = t) (Outcomes.adapt _ (Outcomes.op (.inr h) ?_ ?_)) fun _ v _ hv =>
    Outcomes.throw (.inl hv) (.inl hv)
  · intro _ v hrenamed
    have hv : v = t := h.back hgone hrenamed
    exact ⟨.inl hv, hv⟩
  · intro e v hfailed
    have hv : SetAside t v := h.step fun q _ => by rw [hfailed.2]
    exact ⟨.inr hv, .inr hv⟩

theorem restorePendingIdentity_outcomes {cause : WorkspaceError} (h : SetAside t u) :
    Outcomes (FsOp.Does WorkspaceError.IsIo) (Undone t) (Undone t) (restorePendingIdentity cause) u
      fun _ _ => False := by
  refine tryExists_finds.before (.inr h) (.inr h) fun there hthere => ?_
  cases there with
  | false => exact putBack_outcomes h (hthere rfl)
  | true =>
    refine Outcomes.bind (P := fun _ w => SetAside t w ∧ w.get rustsyncDir ≠ some .directory)
      (Outcomes.adapt _ (Outcomes.op (.inr h) ?_ ?_)) fun _ w _ hw => putBack_outcomes hw.1 hw.2
    · intro _ w hdoes
      have hw : SetAside t w := h.inside (.removeDirAll rustsyncDir) (r := .ok ()) (within_self _) hdoes
      refine ⟨.inr hw, hw, ?_⟩
      rw [hdoes.2, get_clear, if_pos (within_self _)]
      simp
    · intro e w hdoes
      have hw : SetAside t w := h.inside (.removeDirAll rustsyncDir) (r := .error e) (within_self _) hdoes
      exact ⟨.inr hw, .inr hw⟩

/-- The files of the workspace are written, with the key of the envelope. -/
structure FilesWritten (E : ClientEnv) (identity : DeviceIdentity) (accessState : AccessState) (envelope : KeyEnvelope)
    (now : UnixTimestamp) (t u : FileTree Stored) : Prop where
  pending : PendingOnly t
  valid : identity.validate E.crypto = .ok () ∧ accessState.validate E.crypto.toCrypto = .ok ()
  files : ∃ key, openBootstrapKey E accessState identity envelope = .ok key ∧ WorkspaceFiles E systemKeyId
    (firstKeyring identity systemKeyId envelope.keyGeneration now) key identity accessState u
  elsewhere : AgreeElsewhere t u

/-- What changes neither the new folder, beside the configuration, nor what is
elsewhere. -/
theorem FilesWritten.keep (h : FilesWritten E identity accessState envelope now t u)
    (hfolder : ∀ q, Within rustsyncDir q → q ≠ configPath → v.get q = u.get q) (helse : AgreeElsewhere u v) :
    FilesWritten E identity accessState envelope now t v := by
  obtain ⟨key, hkey, hfiles⟩ := h.files
  obtain ⟨registry, hregistry, hdevices⟩ := hfiles.registryFile
  have hkept : WorkspaceFiles E systemKeyId (firstKeyring identity systemKeyId envelope.keyGeneration now) key identity
      accessState v := by
    constructor
    · exact hfiles.keyringFile.keep (hfolder _ (by decide +kernel) (by decide +kernel))
    · exact (hfolder _ (by decide +kernel) (by decide +kernel)).trans hfiles.keyFile
    · exact hfiles.identityFile.keep (hfolder _ (by decide +kernel) (by decide +kernel))
    · exact ⟨registry, hregistry, hdevices.keep (hfolder _ (by decide +kernel) (by decide +kernel))⟩
    · exact hfiles.accessFile.keep (hfolder _ (by decide +kernel) (by decide +kernel))
  refine ⟨h.pending, h.valid, ⟨key, hkey, hkept⟩, fun q hq hbackup => ?_⟩
  rw [helse q hq hbackup, h.elsewhere q hq hbackup]

/-- Where a run can be: nothing is changed, the folder is set aside, or the
files are written. -/
def Underway (E : ClientEnv) (identity : DeviceIdentity) (accessState : AccessState) (envelope : KeyEnvelope)
    (now : UnixTimestamp) (t u : FileTree Stored) : Prop :=
  Undone t u ∨ FilesWritten E identity accessState envelope now t u

/-- The backup is no part of the new folder. -/
theorem FilesWritten.dropBackup {r : Except WorkspaceError Unit}
    (h : FilesWritten E identity accessState envelope now t u)
    (hdoes : FsOp.Does WorkspaceError.IsIo (.removeDirAll bootstrapBackup) u r v) :
    FilesWritten E identity accessState envelope now t v := by
  have hspared (q : RelPath) (hq : ¬ Within bootstrapBackup q) : v.get q = u.get q :=
    FsOp.Spares.get_eq (o := .removeDirAll bootstrapBackup) hq hdoes
  refine h.keep (fun q hq _ => hspared q fun hw => ?_) fun q _ hq => hspared q hq
  rcases hq.linear hw with h' | h'
  · exact absurd h' (by decide +kernel)
  · exact absurd h' (by decide +kernel)

theorem bootstrapWithKey_aside {key : Key32} {keyGeneration : UInt64} (h : SetAside t u)
    (habsent : u.get rustsyncDir = none) : Outcomes (FsOp.Does WorkspaceError.IsIo) (SetAside t) (SetAside t)
      (bootstrapWithKey E identity accessState systemKeyId keyGeneration key now) u fun config v => SetAside t v ∧
        (identity.validate E.crypto = .ok () ∧ accessState.validate E.crypto.toCrypto = .ok ()) ∧
        config = firstConfig identity accessState systemKeyId ∧ WorkspaceFiles E systemKeyId
          (firstKeyring identity systemKeyId keyGeneration now) key identity accessState v := by
  have hruns : Fallible.Runs (FsOp.Does WorkspaceError.IsIo) (SetAside t)
      (bootstrapWithKey E identity accessState systemKeyId keyGeneration key now) u fun _ => SetAside t :=
    inside_bootstrapWithKey.runs (fun o _ _ _ ho hdoes hs => SetAside.inside o hs ho hdoes) h
  exact hruns.outcomes.and_runs (bootstrapWithKey_achieves habsent)

/-- The files are written in place of the folder that was set aside, or it is
put back. -/
theorem bootstrapPendingWorkspace_outcomes :
    Outcomes (FsOp.Does WorkspaceError.IsIo) (Underway E identity accessState envelope now t) (Undone t)
      (bootstrapPendingWorkspace E identity accessState envelope now) t fun config u =>
        config = firstConfig identity accessState systemKeyId ∧
          FilesWritten E identity accessState envelope now t u := by
  have hstart : Underway E identity accessState envelope now t t := .inl (.inl rfl)
  refine requirePendingIdentityLayout_finds.before hstart (.inl rfl) fun _ hpending => ?_
  refine Outcomes.check_bind hstart (.inl rfl) fun key hkey => ?_
  refine tryExists_finds.before hstart (.inl rfl) fun there hthere => ?_
  cases there with
  | true => exact Outcomes.throw hstart (.inl rfl)
  | false =>
    refine Outcomes.bind (P := fun _ v => SetAside t v ∧ v.get rustsyncDir = none) (Outcomes.op hstart ?_ ?_)
      fun _ v _ hv => ?_
    · intro _ v hrenamed
      have haside : SetAside t v := ⟨hpending, hthere rfl, v, hrenamed, fun _ _ => rfl⟩
      refine ⟨.inl (.inr haside), haside, ?_⟩
      rw [(hrenamed.folder hpending.folder (hthere rfl)).2, if_neg (by decide +kernel), if_pos (within_self _)]
    · intro e v hfailed
      exact ⟨.inl (.inl hfailed.2), .inl hfailed.2⟩
    obtain ⟨haside, habsent⟩ := hv
    refine Outcomes.bind ((Outcomes.attempt (F := Undone t) (bootstrapWithKey_aside haside habsent)).weaken
      (fun _ h => .inl (.inr h)) (fun _ _ h => h) fun _ _ _ h => h) fun r w _ hr => ?_
    obtain ⟨haside, hr⟩ := hr
    cases r with
    | error error =>
      exact (restorePendingIdentity_outcomes haside).weaken (fun _ h => .inl h) (fun _ _ h => h)
        fun _ _ _ h => h.elim
    | ok config =>
      obtain ⟨_, hvalid, hconfig, hfiles⟩ := hr
      have hwritten : FilesWritten E identity accessState envelope now t w :=
        ⟨hpending, hvalid, ⟨key, hkey, hfiles⟩, haside.elsewhere⟩
      refine Outcomes.bind (P := fun _ z => FilesWritten E identity accessState envelope now t z)
        ((Outcomes.attempt (F := Undone t) (Outcomes.op (E := FilesWritten E identity accessState envelope now t)
          (Q := fun _ => FilesWritten E identity accessState envelope now t) (.inr hwritten) ?_ ?_)).weaken
            (fun _ h => h)
          (fun _ _ h => h) fun r z _ h => ?_) fun _ z _ hz => Outcomes.pure (.inr hz) ⟨hconfig, hz⟩
      · intro _ z hdoes
        have hz := hwritten.dropBackup (r := .ok ()) hdoes
        exact ⟨.inr hz, hz⟩
      · intro e z hdoes
        have hz := hwritten.dropBackup (r := .error e) hdoes
        exact ⟨.inr hz, hz⟩
      · cases r with
        | ok a => exact h.2
        | error e => exact h.2

end Runs

/-! ### The command -/

section Command

variable {E : ClientEnv} {workspaceId : WorkspaceId} {baseUrl : String}
  {fetchAccessState : DeviceIdentity → Except WorkspaceError AccessState}
  {downloadKeyEnvelope : DeviceIdentity → Except WorkspaceError KeyEnvelope} {now : UnixTimestamp}
    {t u : FileTree Stored}

/-- What the device has, and what the server answers it. -/
structure ServerAnswered (E : ClientEnv) (workspaceId : WorkspaceId)
    (fetchAccessState : DeviceIdentity → Except WorkspaceError AccessState)
    (downloadKeyEnvelope : DeviceIdentity → Except WorkspaceError KeyEnvelope) (t : FileTree Stored)
    (identity : DeviceIdentity) (accessState : AccessState) (envelope : KeyEnvelope) : Prop where
  loaded : ∃ text, t.get deviceIdentityPath = some (.file (.text text)) ∧ decodeIdentity text = .ok identity
  fetched : fetchAccessState identity = .ok accessState
  workspace : accessState.workspaceId = workspaceId
  active : requireActiveIdentity accessState identity = .ok ()
  downloaded : downloadKeyEnvelope identity = .ok envelope

/-- The workspace of the answers is on the device; its configuration may be
missing. -/
def Installed (E : ClientEnv) (workspaceId : WorkspaceId)
    (fetchAccessState : DeviceIdentity → Except WorkspaceError AccessState)
    (downloadKeyEnvelope : DeviceIdentity → Except WorkspaceError KeyEnvelope) (now : UnixTimestamp)
    (t u : FileTree Stored) (identity : DeviceIdentity) (accessState : AccessState) : Prop :=
  ∃ envelope, ServerAnswered E workspaceId fetchAccessState downloadKeyEnvelope t identity accessState envelope ∧
    FilesWritten E identity accessState envelope now t u

/-- Where a run of the command can be. -/
def BootstrapState (E : ClientEnv) (workspaceId : WorkspaceId)
    (fetchAccessState : DeviceIdentity → Except WorkspaceError AccessState)
    (downloadKeyEnvelope : DeviceIdentity → Except WorkspaceError KeyEnvelope) (now : UnixTimestamp)
    (t u : FileTree Stored) : Prop :=
  Undone t u ∨ ∃ identity accessState,
    Installed E workspaceId fetchAccessState downloadKeyEnvelope now t u identity accessState

theorem FilesWritten.saveConfig {identity : DeviceIdentity} {accessState : AccessState} {envelope : KeyEnvelope}
    {v : FileTree Stored} (h : FilesWritten E identity accessState envelope now t u)
    (hagree : AgreeBut [configPath] u v) :
    FilesWritten E identity accessState envelope now t v := by
  refine h.keep (fun q _ hq => hagree q (by simpa using hq)) fun q hq _ => hagree q ?_
  have hconfig : Within rustsyncDir configPath := by decide +kernel
  intro hmem
  rw [List.mem_singleton.mp hmem] at hq
  exact hq hconfig

theorem bootstrap_outcomes :
    Outcomes (FsOp.Does WorkspaceError.IsIo) (BootstrapState E workspaceId fetchAccessState downloadKeyEnvelope now t)
      (BootstrapState E workspaceId fetchAccessState downloadKeyEnvelope now t)
      (bootstrap E workspaceId baseUrl fetchAccessState downloadKeyEnvelope now) t fun config u =>
        ∃ identity accessState,
          Installed E workspaceId fetchAccessState downloadKeyEnvelope now t u identity accessState ∧
          config = { firstConfig identity accessState systemKeyId with serverUrl := some baseUrl } ∧
          HoldsText E u configPath (serConfig config) := by
  have hstart : BootstrapState E workspaceId fetchAccessState downloadKeyEnvelope now t t := .inl (.inl rfl)
  refine requirePendingIdentityLayout_finds.before hstart hstart fun _ _ => ?_
  refine loadLocalDeviceIdentity_finds.before hstart hstart fun loaded hloaded => ?_
  refine Outcomes.check_bind hstart hstart fun identity hidentity => ?_
  refine Outcomes.check_bind hstart hstart fun accessState hfetched => ?_
  refine Outcomes.check_bind hstart hstart fun _ hworkspace => ?_
  refine Outcomes.check_bind hstart hstart fun _ hactive => ?_
  refine Outcomes.check_bind hstart hstart fun envelope hdownloaded => ?_
  have hanswered : ServerAnswered E workspaceId fetchAccessState downloadKeyEnvelope t identity accessState envelope :=
    ⟨hloaded identity (okOr_ok.mp hidentity), hfetched, require_ok.mp hworkspace, Except.mapError_ok.mp hactive,
      hdownloaded⟩
  have hinstalled {v : FileTree Stored} (hv : FilesWritten E identity accessState envelope now t v) :
      Installed E workspaceId fetchAccessState downloadKeyEnvelope now t v identity accessState :=
    ⟨envelope, hanswered, hv⟩
  have hstate {v : FileTree Stored} (hv : FilesWritten E identity accessState envelope now t v) :
      BootstrapState E workspaceId fetchAccessState downloadKeyEnvelope now t v :=
    .inr ⟨identity, accessState, hinstalled hv⟩
  refine Outcomes.bind (bootstrapPendingWorkspace_outcomes.weaken (fun v hv => ?_) (fun _ _ h => .inl h)
    fun _ _ _ h => h) fun config v _ h => ?_
  · rcases hv with hundone | hwritten
    · exact .inl hundone
    · exact hstate hwritten
  obtain ⟨rfl, hwritten⟩ := h
  refine Outcomes.bind (P := fun _ w => FilesWritten E identity accessState envelope now t w ∧ HoldsText E w configPath
    (serConfig { firstConfig identity accessState systemKeyId with serverUrl := some baseUrl }))
    (Outcomes.check_bind (hstate hwritten) (hstate hwritten) fun text htext => ?_) fun _ w _ hw =>
      Outcomes.pure (hstate hw.1) ⟨identity, accessState, hinstalled hw.1, rfl, hw.2⟩
  refine Outcomes.op (hstate hwritten) (fun _ w hdoes => ?_) fun e w hdoes => ?_
  · have hw := hwritten.saveConfig (agreeBut_put hdoes.2.2)
    exact ⟨hstate hw, hw, text, htext, by rw [get_put hdoes.2.2, if_pos rfl]⟩
  · have hw : FilesWritten E identity accessState envelope now t w := by
      rcases hdoes.2 with rfl | ⟨content, hbroken⟩
      · exact hwritten
      · exact hwritten.saveConfig (agreeBut_put hbroken.2.2)
    exact ⟨hstate hw, hstate hw⟩

/-- **The identity is never lost.** Wherever a run of the command is, cut
short, failed or at its end, the identity of the device can be read from the
folder or from the one set aside, and nothing else in the tree is changed. -/
theorem bootstrap_keeps_identity {identity : DeviceIdentity} {text : Doc}
    {out : Option (Except WorkspaceError WorkspaceConfig)}
    (htext : t.get deviceIdentityPath = some (.file (.text text))) (hidentity : decodeIdentity text = .ok identity)
    (hrun : Reaches (FsOp.Does WorkspaceError.IsIo)
      (bootstrap E workspaceId baseUrl fetchAccessState downloadKeyEnvelope now) t out u) :
    AgreeElsewhere t u ∧ ∃ text', decodeIdentity text' = .ok identity ∧
      (u.get deviceIdentityPath = some (.file (.text text')) ∨
        u.get (reroot rustsyncDir bootstrapBackup deviceIdentityPath) = some (.file (.text text'))) := by
  have hwithin : Within rustsyncDir deviceIdentityPath := by decide +kernel
  have hstate := bootstrap_outcomes.cut (Prog.Reaches.cut_short hrun)
  rcases hstate with (rfl | haside) | ⟨identity', accessState, envelope, hanswered, hwritten⟩
  · exact ⟨fun _ _ _ => rfl, text, hidentity, .inl htext⟩
  · refine ⟨haside.elsewhere, text, hidentity, .inr ?_⟩
    rw [haside.kept hwithin, htext]
  · -- the identity that was written is the one that was loaded
    obtain ⟨loaded, hloaded, hdecoded⟩ := hanswered.loaded
    have hsame : identity' = identity := by
      rw [htext] at hloaded
      cases hloaded
      exact Except.ok.inj (hdecoded.symm.trans hidentity)
    subst hsame
    obtain ⟨key, _, hfiles⟩ := hwritten.files
    obtain ⟨text', hget, hread⟩ := hfiles.identityFile.read (readsBack_of_roundTrips (identity_roundTrips _))
    exact ⟨hwritten.elsewhere, text', hread, .inl hget⟩

/-- **How the command ends.** Where it succeeds, the folder held just the
identity, and now holds the workspace of the access state that the server
answered, with the key of the envelope; the configuration can be read. Where
it fails, nothing is changed, or the old folder is set aside as a whole, or
all files but the configuration are written. -/
theorem bootstrap_ends {r : Except WorkspaceError WorkspaceConfig} (hrun : Reaches (FsOp.Does WorkspaceError.IsIo)
      (bootstrap E workspaceId baseUrl fetchAccessState downloadKeyEnvelope now) t (some r) u) :
    (∃ identity accessState config, r = .ok config ∧
      Installed E workspaceId fetchAccessState downloadKeyEnvelope now t u identity accessState ∧
      config = { firstConfig identity accessState systemKeyId with serverUrl := some baseUrl } ∧
      ∃ text, u.get configPath = some (.file (.text text)) ∧ decodeConfig text = .ok config) ∨
    ∃ e, r = .error e ∧ (u = t ∨ SetAside t u ∨ ∃ identity accessState,
      Installed E workspaceId fetchAccessState downloadKeyEnvelope now t u identity accessState) := by
  cases r with
  | ok config =>
    obtain ⟨identity, accessState, hinstalled, hconfig, htext⟩ := bootstrap_outcomes.ok hrun
    exact .inl ⟨identity, accessState, config, rfl, hinstalled, hconfig,
      htext.read (readsBack_of_roundTrips (config_roundTrips _))⟩
  | error e =>
    refine .inr ⟨e, rfl, ?_⟩
    rcases bootstrap_outcomes.error hrun with (hsame | haside) | hinstalled
    · exact .inl hsame
    · exact .inr (.inl haside)
    · exact .inr (.inr hinstalled)

/-- **What the command wrote is what later commands load.** After a bootstrap
that succeeded, programs that meet no fault load its configuration, the key of
the envelope, and the identity, the access state and the devices it was given. -/
theorem bootstrapped_loads {config : WorkspaceConfig} (hrun : Reaches (FsOp.Does WorkspaceError.IsIo)
      (bootstrap E workspaceId baseUrl fetchAccessState downloadKeyEnvelope now) t (some (.ok config)) u) :
    ∃ identity accessState envelope key registry,
      ServerAnswered E workspaceId fetchAccessState downloadKeyEnvelope t identity accessState envelope ∧
      openBootstrapKey E accessState identity envelope = .ok key ∧ registryOf E accessState = .ok registry ∧
      Loads openWorkspace u config ∧ Loads (loadKey config.defaultKeyId) u key ∧
      Loads openKeyring u (firstKeyring identity systemKeyId envelope.keyGeneration now) ∧
      Loads (loadLocalDeviceIdentity E) u (some identity) ∧ Loads (loadAccessState E) u (some accessState) ∧
      Loads loadDeviceRegistry u (some registry) := by
  obtain ⟨identity, accessState, ⟨envelope, hanswered, hwritten⟩, hconfig, htext⟩ := bootstrap_outcomes.ok hrun
  obtain ⟨key, hkey, hfiles⟩ := hwritten.files
  obtain ⟨registry, hregistry, hdevices⟩ := hfiles.registryFile
  have hid : validateKeyId systemKeyId = .ok () := require_ok.mpr (by decide +kernel)
  refine ⟨identity, accessState, envelope, key, registry, hanswered, hkey, hregistry, openWorkspace_loads htext, ?_,
    openKeyring_loads hfiles.keyringFile, loadLocalDeviceIdentity_loads hwritten.valid.1 hfiles.identityFile,
    loadAccessState_loads hwritten.valid.2 hfiles.accessFile, loadDeviceRegistry_loads hdevices⟩
  rw [hconfig]
  exact loadKey_loads hid hfiles.keyFile

end Command

/-! ### The newcomer bootstraps -/

section Sample

def newcomerText : Doc := (tomlText ownersEnv (serIdentity newcomer)).toOption.getD .null

theorem newcomerText_reads : decodeIdentity newcomerText = .ok newcomer := by
  obtain ⟨text, hwritten, hread⟩ := (identity_roundTrips (f := toml ownersEnv.tomlLimit) newcomer).written
  have htext : tomlText ownersEnv (serIdentity newcomer) = .ok text := Except.mapError_ok.mpr hwritten
  rw [newcomerText, htext]
  exact hread

/-- The folder with the identity of the newcomer. -/
def pendingTree : Option (FileTree Stored) :=
  ((FileTree.empty : FileTree Stored).put rustsyncDir .directory).bind fun t =>
    t.put deviceIdentityPath (.file (.text newcomerText))

theorem pendingTree_get (h : pendingTree = some t) : t.get deviceIdentityPath = some (.file (.text newcomerText)) := by
  unfold pendingTree at h
  obtain ⟨_, _, hput⟩ := Option.bind_eq_some_iff.mp h
  rw [get_put hput, if_pos rfl]

def newcomerBootstrap : Local WorkspaceConfig :=
  bootstrap ownersEnv sampleWorkspace "http://localhost:3000/" (fun _ => .ok joinedState) (fun _ => .ok sentEnvelope)
    ⟨1000⟩

/-- It is cut short while the files are written. -/
def cutRun : Option (Option (Except WorkspaceError WorkspaceConfig) × FileTree Stored) :=
  pendingTree.bind fun t =>
    Prog.execFor (S := Signature.fallible FsOp.Val WorkspaceError) FsOp.run 20 newcomerBootstrap.run t

/-- It comes to its end. -/
def wholeRun : Option (Except WorkspaceError WorkspaceConfig × FileTree Stored) :=
  pendingTree.bind fun t => Fallible.exec FsOp.run newcomerBootstrap t

theorem cutRun_cut : cutRun.map (fun run => run.1.isNone) = some true := by decide +kernel

theorem wholeRun_ends : wholeRun.map (fun run => run.1.isOk) = some true := by decide +kernel

/-- The newcomer's identity is kept where the run is cut short. -/
theorem newcomer_kept : ∃ t u, pendingTree = some t ∧ cutRun = some (none, u) ∧ AgreeElsewhere t u ∧
    ∃ text, decodeIdentity text = .ok newcomer ∧ (u.get deviceIdentityPath = some (.file (.text text)) ∨
      u.get (reroot rustsyncDir bootstrapBackup deviceIdentityPath) = some (.file (.text text))) := by
  obtain ⟨⟨out, u⟩, hcut, hnone⟩ := Option.map_eq_some_iff.mp cutRun_cut
  have hout : out = none := Option.isNone_iff_eq_none.mp hnone
  subst hout
  obtain ⟨t, ht, hexec⟩ := Option.bind_eq_some_iff.mp (show pendingTree.bind _ = _ from hcut)
  obtain ⟨helsewhere, hidentity⟩ :=
    bootstrap_keeps_identity (pendingTree_get ht) newcomerText_reads (OnFiles.reaches_execFor hexec)
  exact ⟨t, u, ht, hcut, helsewhere, hidentity⟩

theorem wholeRun_reaches : ∃ t u config, pendingTree = some t ∧ wholeRun = some (.ok config, u) ∧
    Reaches (FsOp.Does WorkspaceError.IsIo) newcomerBootstrap t (some (.ok config)) u := by
  obtain ⟨⟨r, u⟩, hwhole, hok⟩ := Option.map_eq_some_iff.mp wholeRun_ends
  obtain ⟨t, ht, hexec⟩ := Option.bind_eq_some_iff.mp (show pendingTree.bind _ = _ from hwhole)
  cases r with
  | error e => cases hok
  | ok config => exact ⟨t, u, config, ht, hwhole, OnFiles.reaches_exec hexec⟩

/-- The newcomer has the workspace in the end. -/
theorem newcomer_installs : ∃ t u config, pendingTree = some t ∧ wholeRun = some (.ok config, u) ∧
    (∃ text, u.get configPath = some (.file (.text text)) ∧ decodeConfig text = .ok config) ∧
    ∃ identity accessState, Installed ownersEnv sampleWorkspace (fun _ => .ok joinedState) (fun _ => .ok sentEnvelope)
      ⟨1000⟩ t u identity accessState := by
  obtain ⟨t, u, config, ht, hwhole, hrun⟩ := wholeRun_reaches
  rcases bootstrap_ends hrun with ⟨identity, accessState, _, heq, hinstalled, _, htext⟩ | ⟨_, heq, _⟩
  · cases heq
    exact ⟨t, u, config, ht, hwhole, htext, identity, accessState, hinstalled⟩
  · cases heq

/-- The newcomer loads the key that the first owner sent. -/
theorem newcomer_loads : ∃ u config identity accessState envelope key registry, wholeRun = some (.ok config, u) ∧
    openBootstrapKey ownersEnv accessState identity envelope = .ok key ∧
    registryOf ownersEnv accessState = .ok registry ∧ Loads openWorkspace u config ∧
    Loads (loadKey config.defaultKeyId) u key ∧ Loads (loadLocalDeviceIdentity ownersEnv) u (some identity) ∧
    Loads (loadAccessState ownersEnv) u (some accessState) ∧ Loads loadDeviceRegistry u (some registry) := by
  obtain ⟨t, u, config, _, hwhole, hrun⟩ := wholeRun_reaches
  obtain ⟨identity, accessState, envelope, key, registry, _, hkey, hregistry, hconfig, hloaded, _, hidentity, hstate,
    hdevices⟩ := bootstrapped_loads hrun
  exact ⟨u, config, identity, accessState, envelope, key, registry, hwhole, hkey, hregistry, hconfig, hloaded,
    hidentity, hstate, hdevices⟩

end Sample

end RustSync
