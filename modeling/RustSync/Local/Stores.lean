/-
The local files of a workspace

What a device keeps in the folder `.rustsync` of a workspace: the
configuration, the keyring and its key files, the identity of the device, the
registry of the devices and the access state. The text of a TOML file is
modelled by the document it is the text of.

Key definitions: `Stored`, `WorkspaceKeyring`, `DeviceRegistry`,
`bootstrapWithKey`.
-/
import RustSync.Cli.Device
import RustSync.Lib.Filesystem

namespace RustSync

open Fallible Serde FileTree

/-! ### The layout -/

section Layout

def rustsyncDir : RelPath := ".rustsync".toList
def configPath : RelPath := ".rustsync/workspace.toml".toList
def keysDir : RelPath := ".rustsync/keys".toList
def keyringPath : RelPath := ".rustsync/keys/keyring.toml".toList
def deviceIdentityPath : RelPath := ".rustsync/device.identity.toml".toList
def deviceRegistryPath : RelPath := ".rustsync/devices.toml".toList
def accessControlPath : RelPath := ".rustsync/access.toml".toList

def keyPath (keyId : KeyId) : RelPath := keysDir ++ '/' :: (keyId.asStr.toList ++ ".key".toList)

/-- Of a path that has an extension. -/
def temporaryPath (path : RelPath) : RelPath := path ++ ".tmp".toList

end Layout

/-! ### What the files hold -/

/-- Bytes, or the text of a document. -/
inductive Stored where
  | bytes (bytes : Bytes)
  | text (document : Doc)

inductive WorkspaceError where
  | io (reason : String)
  | message (text : String)
  | notText
  | encode (error : EncodeError)
  | decode (error : DecodeError)
  | protocol (error : ProtocolError)
  | access (error : AccessError)
  | client (error : ClientError)
  | alreadyInitialized
  | notInitialized
  | deviceAlreadyExists (deviceId : DeviceId)
  | invalidKeyId (keyId : KeyId)
  | keyAlreadyExists (keyId : KeyId)
  | keyNotFound (keyId : KeyId)
  | invalidKeySize (expected actual : ℕ)
  | notRemoved (cause error : WorkspaceError)
  | notRestored (cause error : WorkspaceError)
  | restored (cause : WorkspaceError)

/-- What a call on files fails with. -/
def WorkspaceError.IsIo (e : WorkspaceError) : Prop := ∃ reason, e = .io reason

/-- A program that works on the files of a workspace. -/
abbrev Local := OnFiles Stored WorkspaceError

structure WorkspaceConfig where
  serverUrl : Option String
  workspaceId : WorkspaceId
  localDeviceId : DeviceId
  defaultKeyId : KeyId
deriving DecidableEq

/-- `KeyAlgorithm`. -/
inductive KeyAlgorithm where
  | xchacha20Poly1305
deriving DecidableEq

structure WorkspaceKeyRecord where
  keyId : KeyId
  generation : UInt64
  visibility : KeyVisibility
  algorithm : KeyAlgorithm
  createByDeviceId : DeviceId
  createdAt : UInt64
deriving DecidableEq

/-- `KeyringRegistry`. -/
abbrev KeyringRegistry := BTreeMap KeyId WorkspaceKeyRecord

structure DeviceRegistry where
  workspaceId : WorkspaceId
  devices : BTreeMap DeviceId DeviceRecord

namespace Codec

def serConfig (config : WorkspaceConfig) : Ser :=
  .record [("server_url", serOption .str config.serverUrl), ("workspace_id", serId config.workspaceId),
    ("local_device_id", serId config.localDeviceId), ("default_key_id", serId config.defaultKeyId)]

def decodeConfig (d : Doc) : Except DecodeError WorkspaceConfig := do
  let fields ← asTable d
  let serverUrl ← optField fields "server_url" asStr
  let workspaceId ← field fields "workspace_id" (decodeId workspaceIdKind)
  let localDeviceId ← field fields "local_device_id" (decodeId deviceIdKind)
  let defaultKeyId ← field fields "default_key_id" (decodeId keyIdKind)
  return { serverUrl, workspaceId, localDeviceId, defaultKeyId }

def serVisibility : KeyVisibility → Ser
  | .shared => .str "shared"
  | .restricted => .str "restricted"

def decodeVisibility (d : Doc) : Except DecodeError KeyVisibility := do
  match ← asStr d with
  | "shared" => return .shared
  | "restricted" => return .restricted
  | other => throw (.unknownVariant other)

def serAlgorithm : KeyAlgorithm → Ser
  | .xchacha20Poly1305 => .str "x_cha_cha20_poly1305"

def decodeAlgorithm (d : Doc) : Except DecodeError KeyAlgorithm := do
  match ← asStr d with
  | "x_cha_cha20_poly1305" => return .xchacha20Poly1305
  | other => throw (.unknownVariant other)

def serKeyRecord (record : WorkspaceKeyRecord) : Ser :=
  .record [("key_id", serId record.keyId), ("generation", .u64 record.generation),
    ("visibility", serVisibility record.visibility), ("algorithm", serAlgorithm record.algorithm),
    ("create_by_device_id", serId record.createByDeviceId), ("created_at", .u64 record.createdAt)]

def decodeKeyRecord (d : Doc) : Except DecodeError WorkspaceKeyRecord := do
  let fields ← asTable d
  let keyId ← field fields "key_id" (decodeId keyIdKind)
  let generation ← field fields "generation" asU64
  let visibility ← field fields "visibility" decodeVisibility
  let algorithm ← field fields "algorithm" decodeAlgorithm
  let createByDeviceId ← field fields "create_by_device_id" (decodeId deviceIdKind)
  let createdAt ← field fields "created_at" asU64
  return { keyId, generation, visibility, algorithm, createByDeviceId, createdAt }

def serKeyring (keys : KeyringRegistry) : Ser := .record [("keys", serMap serId serKeyRecord keys)]

def decodeKeyring (d : Doc) : Except DecodeError KeyringRegistry := do
  field (← asTable d) "keys" (decodeMap (idOfString keyIdKind) decodeKeyRecord)

def serIdentity (identity : DeviceIdentity) : Ser :=
  .record [("device_id", serId identity.deviceId), ("device_name", .str identity.deviceName),
    ("signing_public_key", serKey32 identity.signingPublicKey),
    ("signing_private_key", serKey32 identity.signingPrivateKey),
    ("exchange_public_key", serKey32 identity.exchangePublicKey),
    ("exchange_private_key", serKey32 identity.exchangePrivateKey)]

def decodeIdentity (d : Doc) : Except DecodeError DeviceIdentity := do
  let fields ← asTable d
  let deviceId ← field fields "device_id" (decodeId deviceIdKind)
  let deviceName ← field fields "device_name" asStr
  let signingPublicKey ← field fields "signing_public_key" decodeKey32
  let signingPrivateKey ← field fields "signing_private_key" decodeKey32
  let exchangePublicKey ← field fields "exchange_public_key" decodeKey32
  let exchangePrivateKey ← field fields "exchange_private_key" decodeKey32
  return { deviceId, deviceName, signingPublicKey, signingPrivateKey, exchangePublicKey, exchangePrivateKey }

def serRegistry (registry : DeviceRegistry) : Ser :=
  .record [("workspace_id", serId registry.workspaceId), ("devices", serMap serId serDeviceRecord registry.devices)]

def decodeRegistry (d : Doc) : Except DecodeError DeviceRegistry := do
  let fields ← asTable d
  let workspaceId ← field fields "workspace_id" (decodeId workspaceIdKind)
  let devices ← field fields "devices" (decodeMap (idOfString deviceIdKind) decodeDeviceRecord)
  return { workspaceId, devices }

end Codec

open Codec

/-! ### The programs -/

section Programs

def tryExists (path : RelPath) : Local Bool := op (FsOp.lookup path)

/-- `Path::exists`: a failure counts as absence. -/
def pathExists (path : RelPath) : Local Bool := do
  match ← attempt (tryExists path) with
  | .ok there => return there
  | .error _ => return false

/-- `fs::read_to_string`, and the document the text is of. -/
def readText (path : RelPath) : Local Doc := do
  match ← op (FsOp.read (φ := Stored) path) with
  | Stored.text document => return document
  | Stored.bytes _ => throw .notText

/-- `let _ = fs::remove_file(path)`. -/
def removeFileQuietly (path : RelPath) : Local Unit := op (FsOp.removeFile path)

variable (E : ClientEnv)

/-- `toml::to_string_pretty`. -/
def tomlText (value : Ser) : Except WorkspaceError Doc := (encode (toml E.tomlLimit) value).mapError .encode

/-! #### The keyring -/

/-- The characters a key file's name is made of. -/
def validateKeyId (keyId : KeyId) : Except WorkspaceError Unit :=
  require (keyId.asStr ≠ "" ∧ keyId.asStr.toList.all fun ch => ch.isAlphanum || ch = '-' || ch = '_')
    (.invalidKeyId keyId)

def openKeyring : Local KeyringRegistry := do
  if ← pathExists keyringPath then
    let text ← readText keyringPath
    check ((decodeKeyring text).mapError .decode)
  else return ∅

def saveKeyring (registry : KeyringRegistry) : Local Unit := do
  let text ← check (tomlText E (serKeyring registry))
  op (FsOp.write keyringPath (.text text))

/-- The file is made first; where the key cannot be written, it is removed. -/
def saveWorkspaceKey (path : RelPath) (key : Key32) : Local Unit := do
  op (FsOp.createNew path (Stored.bytes []))
  onError (removeFileQuietly path) (op (FsOp.write path (.bytes key.val)))

def importKey (registry : KeyringRegistry) (record : WorkspaceKeyRecord) (key : Key32) : Local KeyringRegistry := do
  check (validateKeyId record.keyId)
  if registry.contains record.keyId then throw (.keyAlreadyExists record.keyId)
  if ← pathExists (keyPath record.keyId) then throw (.keyAlreadyExists record.keyId)
  saveWorkspaceKey (keyPath record.keyId) key
  let registry := registry.insert record.keyId record
  saveKeyring E registry
  return registry

def loadKey (keyId : KeyId) : Local Key32 := do
  check (validateKeyId keyId)
  if ← pathExists (keyPath keyId) then
    match ← op (FsOp.read (φ := Stored) (keyPath keyId)) with
    | Stored.bytes bytes =>
      if h : bytes.length = 32 then return ⟨bytes, h⟩ else throw (.invalidKeySize 32 bytes.length)
    | Stored.text _ => throw .notText
  else throw (.keyNotFound keyId)

/-! #### The device -/

def saveLocalDeviceIdentity (identity : DeviceIdentity) : Local Unit := do
  check ((identity.validate E.crypto).mapError .access)
  op (FsOp.createDirAll rustsyncDir)
  let text ← check (tomlText E (serIdentity identity))
  op (FsOp.createNew deviceIdentityPath (.text text))

def loadLocalDeviceIdentity : Local (Option DeviceIdentity) := do
  if ← pathExists deviceIdentityPath then
    let text ← readText deviceIdentityPath
    let identity ← check ((decodeIdentity text).mapError .decode)
    check ((identity.validate E.crypto).mapError .access)
    return some identity
  else return none

namespace DeviceRegistry

def new (workspaceId : WorkspaceId) : DeviceRegistry := ⟨workspaceId, ∅⟩

def insert (self : DeviceRegistry) (record : DeviceRecord) : Except WorkspaceError DeviceRegistry := do
  (record.validate E.crypto.toCrypto).mapError .protocol
  require (self.devices.contains record.deviceId = false) (.deviceAlreadyExists record.deviceId)
  return { self with devices := self.devices.insert record.deviceId record }

end DeviceRegistry

/-- The records of the members of an access state. -/
def registryOf (accessState : AccessState) : Except WorkspaceError DeviceRegistry :=
  (accessState.memberships.toList.map Prod.snd).foldlM (fun registry membership =>
    match accessState.deviceRecord membership.deviceId with
    | some record => registry.insert E record
    | none => .ok registry) (.new accessState.workspaceId)

def saveDeviceRegistry (registry : DeviceRegistry) : Local Unit := do
  op (FsOp.createDirAll rustsyncDir)
  let text ← check (tomlText E (serRegistry registry))
  op (FsOp.write (temporaryPath deviceRegistryPath) (.text text))
  op (FsOp.rename (temporaryPath deviceRegistryPath) deviceRegistryPath)

def loadDeviceRegistry : Local (Option DeviceRegistry) := do
  if ← pathExists deviceRegistryPath then
    let text ← readText deviceRegistryPath
    let registry ← check ((decodeRegistry text).mapError .decode)
    return some registry
  else return none

/-! #### The access state -/

/-- The file is written under another name and renamed. -/
def atomicWrite (path : RelPath) (content : Stored) : Local Unit :=
  onError (removeFileQuietly (temporaryPath path)) (do
    op (FsOp.write (temporaryPath path) content)
    op (FsOp.rename (temporaryPath path) path))

/-- `save_access_state`, and its file. -/
def writeAccessState (accessState : AccessState) : Local Unit := do
  check ((accessState.validate E.crypto.toCrypto).mapError .protocol)
  op (FsOp.createDirAll rustsyncDir)
  let text ← check (tomlText E (serAccessState accessState))
  atomicWrite accessControlPath (.text text)

def loadAccessState : Local (Option AccessState) := do
  if ← pathExists accessControlPath then
    let text ← readText accessControlPath
    let accessState ← check ((decodeAccessState text).mapError .decode)
    check ((accessState.validate E.crypto.toCrypto).mapError .protocol)
    return some accessState
  else return none

/-! #### The workspace -/

def saveConfig (config : WorkspaceConfig) : Local Unit := do
  let text ← check (tomlText E (serConfig config))
  op (FsOp.write configPath (.text text))

/-- `Workspace::open`. -/
def openWorkspace : Local WorkspaceConfig := do
  if ← pathExists rustsyncDir then
    let text ← readText configPath
    check ((decodeConfig text).mapError .decode)
  else throw .notInitialized

/-- The files of a new workspace. -/
def writeWorkspace (identity : DeviceIdentity) (accessState : AccessState) (keyId : KeyId) (keyGeneration : UInt64)
    (workspaceKey : Key32) (now : UnixTimestamp) : Local WorkspaceConfig := do
  let localDevice ← check ((accessState.activeDeviceRecord identity.deviceId).mapError .protocol)
  check (require (localDevice.signingPublicKey = identity.signingPublicKey ∧
    localDevice.exchangePublicKey = identity.exchangePublicKey) (.access .signingKeyMismatch))
  op (FsOp.createDirAll keysDir)
  let config : WorkspaceConfig :=
    { serverUrl := none, workspaceId := accessState.workspaceId, localDeviceId := identity.deviceId,
      defaultKeyId := keyId }
  saveConfig E config
  let keyring ← openKeyring
  let _ ← importKey E keyring
    { keyId, generation := keyGeneration, visibility := .shared, algorithm := .xchacha20Poly1305,
      createByDeviceId := identity.deviceId, createdAt := now.asSecs } workspaceKey
  saveLocalDeviceIdentity E identity
  let registry ← check (registryOf E accessState)
  saveDeviceRegistry E registry
  writeAccessState E accessState
  return config

/-- Where a file cannot be written, the folder is removed. -/
def bootstrapWithKey (identity : DeviceIdentity) (accessState : AccessState) (keyId : KeyId) (keyGeneration : UInt64)
    (workspaceKey : Key32) (now : UnixTimestamp) : Local WorkspaceConfig := do
  check ((identity.validate E.crypto).mapError .access)
  check ((accessState.validate E.crypto.toCrypto).mapError .protocol)
  if ← pathExists rustsyncDir then throw .alreadyInitialized
  onError (op (FsOp.removeDirAll rustsyncDir))
    (writeWorkspace E identity accessState keyId keyGeneration workspaceKey now)

end Programs

/-! ### What the programs write -/

section Writes

variable {E : ClientEnv} {α β : Type} {t t' : FileTree Stored} {path : RelPath} {touched : List RelPath}
  {Q : α → FileTree Stored → Prop} {R : β → FileTree Stored → Prop}

/-- What the runs of a program come to that succeed. -/
abbrev Achieves (x : Local α) (t : FileTree Stored) (Q : α → FileTree Stored → Prop) : Prop :=
  Runs (FsOp.Does WorkspaceError.IsIo) (fun _ => True) x t Q

theorem Achieves.call {o : FsOp Stored} {Q : o.Val → FileTree Stored → Prop} (h : ∀ a t', o.Succeeds t a t' → Q a t') :
    Achieves (op o) t Q := by
  refine Runs.op trivial fun r t' hdoes => ⟨trivial, fun a hr => ?_⟩
  subst hr
  exact h a t' hdoes

theorem Achieves.call_bind {o : FsOp Stored} {f : o.Val → Local β}
    (h : ∀ a t', o.Succeeds t a t' → Achieves (f a) t' R) : Achieves (op o >>= f) t R :=
  Runs.bind (Achieves.call h) fun _ _ _ hf => hf

theorem Achieves.then {x : Local α} {f : α → Local β} (hx : Achieves x t Q)
    (hf : ∀ a t', Q a t' → Achieves (f a) t' R) : Achieves (x >>= f) t R :=
  Runs.bind hx fun a t' _ hQ => hf a t' hQ

/-- A cleanup has no part in what succeeds. -/
theorem Achieves.onError {cleanup : Local Unit} {x : Local α} (hx : Achieves x t Q) :
    Achieves (Fallible.onError cleanup x) t Q :=
  Runs.onError hx fun _ _ => Runs.any.weaken (fun _ _ => trivial) fun _ _ _ _ => trivial

/-- A file holds the TOML text of a value. -/
def HoldsText (E : ClientEnv) (t : FileTree Stored) (path : RelPath) (value : Ser) : Prop :=
  ∃ text, tomlText E value = .ok text ∧ t.get path = some (.file (.text text))

theorem HoldsText.keep {value : Ser} (h : HoldsText E t path value) (ht : t'.get path = t.get path) :
    HoldsText E t' path value := by
  obtain ⟨text, htext, hget⟩ := h
  exact ⟨text, htext, ht.trans hget⟩

theorem pathExists_achieves : Achieves (pathExists path) t fun there t' =>
    t' = t ∧ (t.get path = none → there = false) := by
  refine Runs.bind (P := fun r t' => t' = t ∧ ∀ there, r = .ok there → t.get path = none → there = false)
    (Runs.attempt_op trivial fun r t' hdoes => ⟨trivial, ?_⟩) fun r t' _ h => ?_
  · rcases r with e | there
    · exact ⟨hdoes.2, fun _ h => by cases h⟩
    · refine ⟨hdoes.1, fun _ heq habsent => ?_⟩
      cases heq
      exact hdoes.2.1 habsent
  · rcases r with e | there
    · exact Runs.pure trivial ⟨h.1, fun _ => rfl⟩
    · exact Runs.pure trivial ⟨h.1, h.2 there rfl⟩

theorem openKeyring_achieves (habsent : t.get keyringPath = none) : Achieves openKeyring t fun keyring t' =>
    keyring = ∅ ∧ t' = t := by
  refine pathExists_achieves.then fun there t' h => ?_
  obtain ⟨rfl, hthere⟩ := h
  rw [hthere habsent]
  exact Runs.pure trivial ⟨rfl, rfl⟩

theorem writeText_achieves (value : Ser) : Achieves (do
    let text ← check (tomlText E value)
    op (FsOp.write path (.text text))) t fun _ t' => AgreeBut [path] t t' ∧ HoldsText E t' path value := by
  refine Runs.check_bind trivial fun text htext => Achieves.call fun _ t' hwritten => ?_
  exact ⟨agreeBut_put hwritten.2.2, text, htext, by rw [get_put hwritten.2.2, if_pos rfl]⟩

theorem saveWorkspaceKey_achieves (key : Key32) : Achieves (saveWorkspaceKey path key) t fun _ t' =>
    AgreeBut [path] t t' ∧ t'.get path = some (.file (.bytes key.val)) := by
  refine Achieves.call_bind fun _ u hcreated => Achieves.onError (Achieves.call fun _ t' hwritten => ?_)
  refine ⟨fun q hq => ?_, by rw [get_put hwritten.2.2, if_pos rfl]⟩
  rw [agreeBut_put hwritten.2.2 q hq, agreeBut_put hcreated.2 q hq]

theorem importKey_achieves {keyring : KeyringRegistry} {record : WorkspaceKeyRecord} {key : Key32}
    (hne : keyPath record.keyId ≠ keyringPath) : Achieves (importKey E keyring record key) t fun imported t' =>
      imported = keyring.insert record.keyId record ∧ AgreeBut [keyPath record.keyId, keyringPath] t t' ∧
        t'.get (keyPath record.keyId) = some (.file (.bytes key.val)) ∧
        HoldsText E t' keyringPath (serKeyring imported) := by
  refine Runs.check_bind trivial fun _ _ => ?_
  by_cases hknown : keyring.contains record.keyId = true
  · simp only [hknown, if_true]
    exact Runs.throw trivial
  simp only [hknown]
  refine pathExists_achieves.then fun there u hu => ?_
  obtain ⟨rfl, _⟩ := hu
  cases there with
  | true => exact Runs.throw trivial
  | false =>
    refine (saveWorkspaceKey_achieves key).then fun _ v hkey => ?_
    refine (writeText_achieves _).then fun _ t' htext => Runs.pure trivial ⟨rfl, hkey.1.trans htext.1, ?_, htext.2⟩
    rw [htext.1 _ (by simpa using hne), hkey.2]

theorem made_rustsyncDir (h : Made rustsyncDir t t') : AgreeBut [rustsyncDir] t t' := by
  have habove : ancestors rustsyncDir = [] := by decide
  have hagree := h.agreeBut
  rwa [habove] at hagree

theorem saveLocalDeviceIdentity_achieves {identity : DeviceIdentity} :
    Achieves (saveLocalDeviceIdentity E identity) t fun _ t' =>
      AgreeBut [rustsyncDir, deviceIdentityPath] t t' ∧ HoldsText E t' deviceIdentityPath (serIdentity identity) := by
  refine Runs.check_bind trivial fun _ _ => Achieves.call_bind fun _ u hmade => ?_
  refine Runs.check_bind trivial fun text htext => Achieves.call fun _ t' hcreated => ?_
  refine ⟨?_, text, htext, by rw [get_put hcreated.2, if_pos rfl]⟩
  exact (made_rustsyncDir hmade.1).trans (agreeBut_put hcreated.2)

/-- A file is written under another name, and renamed. -/
theorem replace_achieves (content : Stored) : Achieves (do
    op (FsOp.write (temporaryPath path) content)
    op (FsOp.rename (temporaryPath path) path)) t fun _ t' =>
      AgreeBut [temporaryPath path, path] t t' ∧ t'.get path = some (.file content) := by
  refine Achieves.call_bind fun _ u hwritten => Achieves.call fun _ t' hrenamed => ?_
  have hfile : u.get (temporaryPath path) = some (.file content) := by
    rw [get_put hwritten.2.2, if_pos rfl]
  have hne : temporaryPath path ≠ path := by simp [temporaryPath]
  obtain ⟨hget, hagree⟩ := hrenamed.file hne hfile
  refine ⟨fun q hq => ?_, hget⟩
  have hother : q ≠ temporaryPath path := List.ne_of_not_mem_cons hq
  rw [hagree q hq, agreeBut_put hwritten.2.2 q (by simpa using hother)]

theorem saveDeviceRegistry_achieves {registry : DeviceRegistry} :
    Achieves (saveDeviceRegistry E registry) t fun _ t' =>
      AgreeBut [rustsyncDir, temporaryPath deviceRegistryPath, deviceRegistryPath] t t' ∧
        HoldsText E t' deviceRegistryPath (serRegistry registry) := by
  refine Achieves.call_bind fun _ u hmade => Runs.check_bind trivial fun text htext => ?_
  refine Runs.weaken (replace_achieves (Stored.text text)) (fun _ _ => trivial) fun _ t' _ h => ?_
  exact ⟨(made_rustsyncDir hmade.1).trans h.1, text, htext, h.2⟩

theorem writeAccessState_achieves {accessState : AccessState} :
    Achieves (writeAccessState E accessState) t fun _ t' =>
      AgreeBut [rustsyncDir, temporaryPath accessControlPath, accessControlPath] t t' ∧
        HoldsText E t' accessControlPath (serAccessState accessState) := by
  refine Runs.check_bind trivial fun _ _ => Achieves.call_bind fun _ u hmade => ?_
  refine Runs.check_bind trivial fun text htext => ?_
  refine Runs.weaken (replace_achieves (Stored.text text)).onError (fun _ _ => trivial) fun _ t' _ h => ?_
  exact ⟨(made_rustsyncDir hmade.1).trans h.1, text, htext, h.2⟩

/-- The files of a workspace on a device, beside its configuration. -/
structure WorkspaceFiles (E : ClientEnv) (keyId : KeyId) (keyring : KeyringRegistry) (key : Key32)
    (identity : DeviceIdentity) (accessState : AccessState) (t : FileTree Stored) : Prop where
  keyringFile : HoldsText E t keyringPath (serKeyring keyring)
  keyFile : t.get (keyPath keyId) = some (.file (.bytes key.val))
  identityFile : HoldsText E t deviceIdentityPath (serIdentity identity)
  registryFile : ∃ registry, registryOf E accessState = .ok registry ∧
    HoldsText E t deviceRegistryPath (serRegistry registry)
  accessFile : HoldsText E t accessControlPath (serAccessState accessState)

/-- How a workspace is configured at first. -/
def firstConfig (identity : DeviceIdentity) (accessState : AccessState) (keyId : KeyId) : WorkspaceConfig where
  serverUrl := none
  workspaceId := accessState.workspaceId
  localDeviceId := identity.deviceId
  defaultKeyId := keyId

/-- The keyring with just the key that was delivered. -/
def firstKeyring (identity : DeviceIdentity) (keyId : KeyId) (keyGeneration : UInt64) (now : UnixTimestamp) :
    KeyringRegistry :=
  (∅ : KeyringRegistry).insert keyId
    { keyId, generation := keyGeneration, visibility := .shared, algorithm := .xchacha20Poly1305,
      createByDeviceId := identity.deviceId, createdAt := now.asSecs }

theorem writeWorkspace_achieves {identity : DeviceIdentity} {accessState : AccessState} {keyGeneration : UInt64}
    {key : Key32} {now : UnixTimestamp} (habsent : t.get keyringPath = none) :
    Achieves (writeWorkspace E identity accessState systemKeyId keyGeneration key now) t fun config t' =>
      config = firstConfig identity accessState systemKeyId ∧ HoldsText E t' configPath (serConfig config) ∧
        WorkspaceFiles E systemKeyId
          (firstKeyring identity systemKeyId keyGeneration now) key identity accessState t' := by
  refine Runs.check_bind trivial fun _ _ => Runs.check_bind trivial fun _ _ => Achieves.call_bind fun _ t₀ hmade => ?_
  have habove : keysDir :: ancestors keysDir = [keysDir, rustsyncDir] := by decide +kernel
  have h₀ : AgreeBut [keysDir, rustsyncDir] t t₀ := habove ▸ hmade.1.agreeBut
  refine (writeText_achieves _).then fun _ t₁ h => ?_
  obtain ⟨h₁, hconfig⟩ := h
  have hnone : t₁.get keyringPath = none := by
    rw [h₁ _ (by decide +kernel), h₀ _ (by decide +kernel), habsent]
  refine (openKeyring_achieves hnone).then fun keyring t₂ h => ?_
  obtain ⟨rfl, rfl⟩ := h
  have hne : keyPath systemKeyId ≠ keyringPath := by decide +kernel
  refine (importKey_achieves (by exact hne)).then fun imported t₃ h => ?_
  obtain ⟨rfl, h₃, hkey, hkeyring⟩ := h
  have h₃ : AgreeBut [keyPath systemKeyId, keyringPath] t₂ t₃ := h₃
  refine saveLocalDeviceIdentity_achieves.then fun _ t₄ h => ?_
  obtain ⟨h₄, hidentity⟩ := h
  refine Runs.check_bind trivial fun registry hregistry => saveDeviceRegistry_achieves.then fun _ t₅ h => ?_
  obtain ⟨h₅, hdevices⟩ := h
  refine writeAccessState_achieves.then fun _ t₆ h => Runs.pure trivial ⟨rfl, ?_⟩
  obtain ⟨h₆, haccess⟩ := h
  -- what is written later is written elsewhere
  have hlast {q : RelPath} (hq₄ : q ∉ [rustsyncDir, deviceIdentityPath])
      (hq₅ : q ∉ [rustsyncDir, temporaryPath deviceRegistryPath, deviceRegistryPath])
      (hq₆ : q ∉ [rustsyncDir, temporaryPath accessControlPath, accessControlPath]) : t₆.get q = t₃.get q := by
    rw [h₆ q hq₆, h₅ q hq₅, h₄ q hq₄]
  refine ⟨?_, ?_⟩
  · apply hconfig.keep
    rw [hlast (by decide +kernel) (by decide +kernel) (by decide +kernel), h₃ _ (by decide +kernel)]
  constructor
  · exact hkeyring.keep (hlast (by decide +kernel) (by decide +kernel) (by decide +kernel))
  · have hlast : t₆.get (keyPath systemKeyId) = t₃.get (keyPath systemKeyId) :=
      hlast (by decide +kernel) (by decide +kernel) (by decide +kernel)
    exact hlast.trans hkey
  · apply hidentity.keep
    rw [h₆ _ (by decide +kernel), h₅ _ (by decide +kernel)]
  · exact ⟨registry, hregistry, hdevices.keep (h₆ _ (by decide +kernel))⟩
  · exact haccess

theorem bootstrapWithKey_achieves {identity : DeviceIdentity} {accessState : AccessState} {keyGeneration : UInt64}
    {key : Key32} {now : UnixTimestamp} (habsent : t.get rustsyncDir = none) :
    Achieves (bootstrapWithKey E identity accessState systemKeyId keyGeneration key now) t fun config t' =>
      (identity.validate E.crypto = .ok () ∧ accessState.validate E.crypto.toCrypto = .ok ()) ∧
        config = firstConfig identity accessState systemKeyId ∧
        WorkspaceFiles E systemKeyId
          (firstKeyring identity systemKeyId keyGeneration now) key identity accessState t' := by
  refine Runs.check_bind trivial fun _ hidentity => Runs.check_bind trivial fun _ hstate => ?_
  refine pathExists_achieves.then fun there u h => ?_
  obtain ⟨rfl, hthere⟩ := h
  rw [hthere habsent]
  have hkeyring : u.get keyringPath = none := u.get_beneath (by rw [habsent]; simp) (by decide +kernel)
  refine (writeWorkspace_achieves hkeyring).onError.weaken (fun _ _ => trivial) fun config v _ h => ?_
  exact ⟨⟨Except.mapError_ok.mp hidentity, Except.mapError_ok.mp hstate⟩, h.1, h.2.2⟩

end Writes

/-! ### Where they write -/

section Inside

variable {E : ClientEnv}

/-- A program that works within `.rustsync`. -/
abbrev StaysInside {α : Type} (x : Local α) : Prop := Calls (FsOp.Inside rustsyncDir) x

theorem inside_pathExists {path : RelPath} : StaysInside (pathExists path) := by
  refine Calls.bind (Calls.attempt (Calls.op trivial)) fun r => ?_
  cases r with
  | ok there => exact .pure _
  | error e => exact .pure _

theorem inside_openKeyring : StaysInside openKeyring := by
  refine inside_pathExists.bind fun there => ?_
  cases there with
  | true =>
    refine Calls.bind (Calls.op_bind trivial fun content => ?_) fun text => .check _
    cases content with
    | text document => exact .pure _
    | bytes bytes => exact .throw _
  | false => exact .pure _

theorem inside_importKey {keyring : KeyringRegistry} {record : WorkspaceKeyRecord} {key : Key32}
    (hkey : Within rustsyncDir (keyPath record.keyId)) : StaysInside (importKey E keyring record key) := by
  have hkeyring : Within rustsyncDir keyringPath := by decide +kernel
  refine Calls.check_bind fun _ => ?_
  by_cases hknown : keyring.contains record.keyId = true
  · simp only [hknown, if_true]
    exact .throw _
  simp only [hknown]
  refine inside_pathExists.bind fun there => ?_
  cases there with
  | true => exact .throw _
  | false =>
    refine Calls.bind (Calls.op_bind hkey fun _ => ?_) fun _ => ?_
    · exact Calls.onError (Calls.op hkey) (Calls.op hkey)
    · exact Calls.bind (Calls.check_bind fun _ => Calls.op hkeyring) fun _ => .pure _

theorem inside_writeWorkspace {identity : DeviceIdentity} {accessState : AccessState} {keyGeneration : UInt64}
    {key : Key32} {now : UnixTimestamp} :
    StaysInside (writeWorkspace E identity accessState systemKeyId keyGeneration key now) := by
  have hfolder : Within rustsyncDir rustsyncDir := within_self _
  have hkeys : Within rustsyncDir keysDir := by decide +kernel
  have hconfig : Within rustsyncDir configPath := by decide +kernel
  have hkey : Within rustsyncDir (keyPath systemKeyId) := by decide +kernel
  have hidentity : Within rustsyncDir deviceIdentityPath := by decide +kernel
  have hregistry : Within rustsyncDir deviceRegistryPath := by decide +kernel
  have hregistry' : Within rustsyncDir (temporaryPath deviceRegistryPath) := by decide +kernel
  have haccess : Within rustsyncDir accessControlPath := by decide +kernel
  have haccess' : Within rustsyncDir (temporaryPath accessControlPath) := by decide +kernel
  refine Calls.check_bind fun _ => Calls.check_bind fun _ => Calls.op_bind hkeys fun _ => ?_
  refine Calls.bind (Calls.check_bind fun _ => Calls.op hconfig) fun _ => inside_openKeyring.bind fun keyring => ?_
  refine (inside_importKey (by exact hkey)).bind fun _ => ?_
  refine Calls.bind (Calls.check_bind fun _ => Calls.op_bind hfolder fun _ => Calls.check_bind fun _ =>
    Calls.op hidentity) fun _ => Calls.check_bind fun registry => ?_
  refine Calls.bind (Calls.op_bind hfolder fun _ => Calls.check_bind fun _ => Calls.op_bind hregistry' fun _ =>
    Calls.op ⟨hregistry', hregistry⟩) fun _ => ?_
  refine Calls.bind (Calls.check_bind fun _ => Calls.op_bind hfolder fun _ => Calls.check_bind fun _ =>
    Calls.onError (Calls.op haccess') (Calls.op_bind haccess' fun _ => Calls.op ⟨haccess', haccess⟩)) fun _ => ?_
  exact .pure _

theorem inside_bootstrapWithKey {identity : DeviceIdentity} {accessState : AccessState} {keyGeneration : UInt64}
    {key : Key32} {now : UnixTimestamp} :
    StaysInside (bootstrapWithKey E identity accessState systemKeyId keyGeneration key now) := by
  refine Calls.check_bind fun _ => Calls.check_bind fun _ => inside_pathExists.bind fun there => ?_
  cases there with
  | true => exact .throw _
  | false => exact Calls.onError (Calls.op (within_self _)) inside_writeWorkspace

end Inside

/-! ### Reading back -/

section RoundTrips

variable {f : Format}

theorem identity_roundTrips (identity : DeviceIdentity) : RoundTrips f serIdentity decodeIdentity identity := by
  refine record_roundTrips rfl ?_ (by rintro _ ⟨⟩) fun out hout => ?_
  · simp only [List.forall_mem_cons]
    exact ⟨(id_roundTrips _).writes, (str_roundTrips _).writes, (key32_roundTrips _).writes,
      (key32_roundTrips _).writes,
      (key32_roundTrips _).writes, (key32_roundTrips _).writes, by simp⟩
  · have hn : ["device_id", "device_name", "signing_public_key", "signing_private_key", "exchange_public_key",
        "exchange_private_key"].Nodup := by decide
    simp only [decodeIdentity, asTable, Except.bind_ok]
    exact ⟨out, rfl, identity.deviceId, field_roundTrips hout hn (id_roundTrips _) (by simp),
      identity.deviceName, field_roundTrips hout hn (str_roundTrips _) (by simp),
      identity.signingPublicKey, field_roundTrips hout hn (key32_roundTrips _) (by simp),
      identity.signingPrivateKey, field_roundTrips hout hn (key32_roundTrips _) (by simp),
      identity.exchangePublicKey, field_roundTrips hout hn (key32_roundTrips _) (by simp),
      identity.exchangePrivateKey, field_roundTrips hout hn (key32_roundTrips _) (by simp), rfl⟩

theorem config_roundTrips (config : WorkspaceConfig) : RoundTrips f serConfig decodeConfig config := by
  have hurl : ∀ url ∈ config.serverUrl, RoundTrips f .str asStr url := fun url _ => str_roundTrips url
  refine record_roundTrips rfl ?_ (by rintro _ ⟨⟩) fun out hout => ?_
  · simp only [List.forall_mem_cons]
    exact ⟨optWrites hurl, (id_roundTrips _).writes, (id_roundTrips _).writes, (id_roundTrips _).writes, by simp⟩
  · have hn : ["server_url", "workspace_id", "local_device_id", "default_key_id"].Nodup := by decide
    simp only [decodeConfig, asTable, Except.bind_ok]
    exact ⟨out, rfl, config.serverUrl, optField_roundTrips hout hn hurl (by simp),
      config.workspaceId, field_roundTrips hout hn (id_roundTrips _) (by simp),
      config.localDeviceId, field_roundTrips hout hn (id_roundTrips _) (by simp),
      config.defaultKeyId, field_roundTrips hout hn (id_roundTrips _) (by simp), rfl⟩

theorem visibility_roundTrips (v : KeyVisibility) : RoundTrips f serVisibility decodeVisibility v := by
  cases v <;> exact ⟨by rintro ⟨⟩, by rintro _ ⟨⟩, .str _, by rw [serVisibility, encode], rfl⟩

theorem algorithm_roundTrips (a : KeyAlgorithm) : RoundTrips f serAlgorithm decodeAlgorithm a := by
  cases a
  exact ⟨by rintro ⟨⟩, by rintro _ ⟨⟩, .str _, by rw [serAlgorithm, encode], rfl⟩

theorem keyRecord_roundTrips {record : WorkspaceKeyRecord} (hgeneration : record.generation.toNat < f.integerLimit)
    (hcreated : record.createdAt.toNat < f.integerLimit) : RoundTrips f serKeyRecord decodeKeyRecord record := by
  refine record_roundTrips rfl ?_ (by rintro _ ⟨⟩) fun out hout => ?_
  · simp only [List.forall_mem_cons]
    exact ⟨(id_roundTrips _).writes, (u64_roundTrips hgeneration).writes, (visibility_roundTrips _).writes,
      (algorithm_roundTrips _).writes, (id_roundTrips _).writes, (u64_roundTrips hcreated).writes, by simp⟩
  · have hn : ["key_id", "generation", "visibility", "algorithm", "create_by_device_id", "created_at"].Nodup := by
      decide
    simp only [decodeKeyRecord, asTable, Except.bind_ok]
    exact ⟨out, rfl, record.keyId, field_roundTrips hout hn (id_roundTrips _) (by simp),
      record.generation, field_roundTrips hout hn (u64_roundTrips hgeneration) (by simp),
      record.visibility, field_roundTrips hout hn (visibility_roundTrips _) (by simp),
      record.algorithm, field_roundTrips hout hn (algorithm_roundTrips _) (by simp),
      record.createByDeviceId, field_roundTrips hout hn (id_roundTrips _) (by simp),
      record.createdAt, field_roundTrips hout hn (u64_roundTrips hcreated) (by simp), rfl⟩

theorem registry_roundTrips (registry : DeviceRegistry) : RoundTrips f serRegistry decodeRegistry registry := by
  have hdevices : RoundTrips f (serMap serId serDeviceRecord)
      (decodeMap (idOfString deviceIdKind) decodeDeviceRecord) registry.devices :=
    map_roundTrips fun id d _ => ⟨id_key id, deviceRecord_roundTrips d⟩
  refine record_roundTrips rfl ?_ (by rintro _ ⟨⟩) fun out hout => ?_
  · simp only [List.forall_mem_cons]
    exact ⟨(id_roundTrips _).writes, hdevices.writes, by simp⟩
  · have hn : ["workspace_id", "devices"].Nodup := by decide
    simp only [decodeRegistry, asTable, Except.bind_ok]
    exact ⟨out, rfl, registry.workspaceId, field_roundTrips hout hn (id_roundTrips _) (by simp),
      registry.devices, field_roundTrips hout hn hdevices (by simp), rfl⟩

/-! #### What was written -/

/-- What is written of a value is read as it. -/
def ReadsBack {α : Type} (f : Format) (ser : α → Ser) (de : Doc → Except DecodeError α) (x : α) : Prop :=
  ∀ text, encode f (ser x) = .ok text → de text = .ok x

theorem readsBack_of_roundTrips {α : Type} {ser : α → Ser} {de : Doc → Except DecodeError α} {x : α}
    (h : RoundTrips f ser de x) : ReadsBack f ser de x := by
  intro text htext
  obtain ⟨written, hwritten, hread⟩ := h.written
  have heq : written = text := Except.ok.inj (hwritten.symm.trans htext)
  exact heq ▸ hread

theorem u64_written {entries : List (String × Ser)} {out : List (String × Doc)} {name : String} {n : UInt64}
    (h : encodeFields f entries = .ok out) (hmem : (name, Ser.u64 n) ∈ entries) : n.toNat < f.integerLimit := by
  obtain ⟨_, hn⟩ := encode_of_mem h hmem (by rintro ⟨⟩)
  exact u64_below hn

theorem optional_u64_written {entries : List (String × Ser)} {out : List (String × Doc)} {name : String}
    {o : Option UInt64} (h : encodeFields f entries = .ok out) (hmem : (name, serOption Ser.u64 o) ∈ entries) :
    ∀ n ∈ o, n.toNat < f.integerLimit := by
  intro n hn
  rw [Option.mem_def.mp hn] at hmem
  obtain ⟨_, hsome⟩ := encode_of_mem h hmem (by rintro ⟨⟩)
  rw [serOption, encode] at hsome
  exact u64_below hsome

theorem keyring_readsBack (keys : KeyringRegistry) : ReadsBack f serKeyring decodeKeyring keys := by
  intro text htext
  simp only [serKeyring, encode, Except.bind_ok] at htext
  obtain ⟨out, hout, htable⟩ := htext
  cases htable
  obtain ⟨written, hwritten⟩ : ∃ d, encode f (serMap serId serKeyRecord keys) = .ok d :=
    encode_of_mem hout List.mem_cons_self (by rintro ⟨⟩)
  have hkeys : RoundTrips f (serMap serId serKeyRecord) (decodeMap (idOfString keyIdKind) decodeKeyRecord) keys := by
    refine map_roundTrips fun id record hrecord => ⟨id_key id, ?_⟩
    obtain ⟨_, hvalue⟩ := encode_map_value hwritten hrecord
    simp only [serKeyRecord, encode, Except.bind_ok] at hvalue
    obtain ⟨fields, hfields, _⟩ := hvalue
    exact keyRecord_roundTrips (u64_written hfields (show ("generation", _) ∈ _ by simp))
      (u64_written hfields (show ("created_at", _) ∈ _ by simp))
  exact field_roundTrips hout (by simp) hkeys List.mem_cons_self

theorem membershipBelow_of_encode {m : Membership} {d : Doc} (h : encode f (serMembership m) = .ok d) :
    MembershipBelow f.integerLimit m := by
  simp only [serMembership, encode, Except.bind_ok] at h
  obtain ⟨fields, hfields, _⟩ := h
  exact ⟨u64_written hfields (show ("joined_at", _) ∈ _ by simp),
    u64_written hfields (show ("joined_at_revision", _) ∈ _ by simp),
    optional_u64_written hfields (show ("removed_at", _) ∈ _ by simp),
    optional_u64_written hfields (show ("removed_at_revision", _) ∈ _ by simp)⟩

theorem accessState_readsBack (accessState : AccessState) :
    ReadsBack f serAccessState decodeAccessState accessState := by
  intro text htext
  obtain ⟨hgrants, hrevision⟩ := encode_accessState htext
  refine readsBack_of_roundTrips (accessState_roundTrips ⟨hrevision, fun id m hm => ?_, ?_⟩) text htext
  · simp only [serAccessState, encode, Except.bind_ok] at htext
    obtain ⟨out, hout, _⟩ := htext
    obtain ⟨_, hmembers⟩ : ∃ d, encode f (serMap serId serMembership accessState.memberships) = .ok d :=
      encode_of_mem hout (show ("memberships", _) ∈ _ by simp) (by rintro ⟨⟩)
    obtain ⟨_, hmember⟩ := encode_map_value hmembers hm
    exact membershipBelow_of_encode hmember
  · exact Std.ExtTreeMap.isEmpty_iff.mp hgrants

/-- What a file holds the text of can be read from it. -/
theorem HoldsText.read {E : ClientEnv} {α : Type} {t : FileTree Stored} {path : RelPath} {ser : α → Ser}
    {de : Doc → Except DecodeError α} {x : α} (hx : ReadsBack (toml E.tomlLimit) ser de x)
    (h : HoldsText E t path (ser x)) : ∃ text, t.get path = some (.file (.text text)) ∧ de text = .ok x := by
  obtain ⟨text, htext, hget⟩ := h
  exact ⟨text, hget, hx text (Except.mapError_ok.mp htext)⟩

end RoundTrips

/-! ### Loading -/

section Loads

variable {E : ClientEnv} {α β : Type} {t : FileTree Stored} {path : RelPath}

/-- A program that meets no fault returns a value, and leaves the tree alone. -/
abbrev Loads (x : Local α) (t : FileTree Stored) (a : α) : Prop := Fallible.exec FsOp.run x t = some (.ok a, t)

theorem Loads.bind {x : Local α} {f : α → Local β} {a : α} {b : β} (hx : Loads x t a) (hf : Loads (f a) t b) :
    Loads (x >>= f) t b := by
  rw [Loads, exec_bind, hx]
  exact hf

theorem check_loads {x : Except WorkspaceError α} {a : α} (hx : x = .ok a) : Loads (check x) t a := by
  rw [Loads, exec_check, hx]

theorem pathExists_loads {n : Node Stored} (h : t.get path = some n) : Loads (pathExists path) t true := by
  have hexec : Fallible.exec FsOp.run (pathExists path) t = some (.ok (t.get path).isSome, t) := rfl
  rw [Loads, hexec, h]
  rfl

theorem read_run {content : Stored} (h : t.get path = some (.file content)) :
    (FsOp.run (.read path) t : Option (Except WorkspaceError Stored × FileTree Stored)) = some (.ok content, t) := by
  simp only [FsOp.run, h]

theorem readText_loads {text : Doc} (h : t.get path = some (.file (.text text))) : Loads (readText path) t text := by
  rw [Loads, readText, exec_op_bind (read_run h)]
  rfl

/-- A file that holds the text of a value is loaded as it. -/
theorem HoldsText.loads {ser : α → Ser} {de : Doc → Except DecodeError α} {x : α}
    (hx : ReadsBack (toml E.tomlLimit) ser de x) (h : HoldsText E t path (ser x)) : Loads (do
      let text ← readText path
      check ((de text).mapError .decode)) t x := by
  obtain ⟨text, hget, hread⟩ := h.read hx
  exact (readText_loads hget).bind (check_loads (Except.mapError_ok.mpr hread))

theorem openWorkspace_loads {config : WorkspaceConfig} (h : HoldsText E t configPath (serConfig config)) :
    Loads openWorkspace t config := by
  obtain ⟨text, hget, _⟩ := h.read (readsBack_of_roundTrips (config_roundTrips config))
  have hfolder : t.get rustsyncDir = some .directory := t.get_above hget (by decide +kernel)
  exact (pathExists_loads hfolder).bind (h.loads (readsBack_of_roundTrips (config_roundTrips config)))

theorem openKeyring_loads {keyring : KeyringRegistry} (h : HoldsText E t keyringPath (serKeyring keyring)) :
    Loads openKeyring t keyring := by
  obtain ⟨text, hget, _⟩ := h.read (keyring_readsBack keyring)
  exact (pathExists_loads hget).bind (h.loads (keyring_readsBack keyring))

theorem loadKey_loads {keyId : KeyId} {key : Key32} (hid : validateKeyId keyId = .ok ())
    (h : t.get (keyPath keyId) = some (.file (.bytes key.val))) : Loads (loadKey keyId) t key := by
  refine (check_loads hid).bind ((pathExists_loads h).bind ?_)
  rw [Loads, if_pos rfl, exec_op_bind (read_run h)]
  simp only [key.property, dite_true, exec_pure]

theorem loadLocalDeviceIdentity_loads {identity : DeviceIdentity} (hvalid : identity.validate E.crypto = .ok ())
    (h : HoldsText E t deviceIdentityPath (serIdentity identity)) :
    Loads (loadLocalDeviceIdentity E) t (some identity) := by
  obtain ⟨text, hget, hread⟩ := h.read (readsBack_of_roundTrips (identity_roundTrips identity))
  refine (pathExists_loads hget).bind ((readText_loads hget).bind ?_)
  refine (check_loads (Except.mapError_ok.mpr hread)).bind ?_
  exact (check_loads (Except.mapError_ok.mpr hvalid)).bind rfl

theorem loadDeviceRegistry_loads {registry : DeviceRegistry}
    (h : HoldsText E t deviceRegistryPath (serRegistry registry)) : Loads loadDeviceRegistry t (some registry) := by
  obtain ⟨text, hget, hread⟩ := h.read (readsBack_of_roundTrips (registry_roundTrips registry))
  refine (pathExists_loads hget).bind ((readText_loads hget).bind ?_)
  exact (check_loads (Except.mapError_ok.mpr hread)).bind rfl

theorem loadAccessState_loads {accessState : AccessState} (hvalid : accessState.validate E.crypto.toCrypto = .ok ())
    (h : HoldsText E t accessControlPath (serAccessState accessState)) :
    Loads (loadAccessState E) t (some accessState) := by
  obtain ⟨text, hget, hread⟩ := h.read (accessState_readsBack accessState)
  refine (pathExists_loads hget).bind ((readText_loads hget).bind ?_)
  refine (check_loads (Except.mapError_ok.mpr hread)).bind ?_
  exact (check_loads (Except.mapError_ok.mpr hvalid)).bind rfl

end Loads

end RustSync
