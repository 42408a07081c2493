/-
The device commands

`device approve` on an owner device: it looks the join request up, reads the
access state, signs and sends the join event, seals the workspace key for the
new device and uploads the envelope. Approval and delivery are two requests.
`device bootstrap` opens the envelope on the new device, with the records the
access state has by then.

The server handles each request of a client as a whole. A request is
authenticated as the device that makes it (`authorized`): a device signs its
own requests, so what is left to check is that it is active and may make them.

Key definitions: `approve`, `bootstrapKey`, `clients`.
-/
import RustSync.Access.EnvelopeCodec
import RustSync.Lib.Linearization
import RustSync.Server.Access

namespace RustSync

open Fallible

/-- A workspace on a device, as `init` and `bootstrap` set it up: the stored
identity is valid, and the default key is the shared system key. -/
structure LocalWorkspace (c : EnvelopeCrypto) (ws : WorkspaceId) where
  identity : DeviceIdentity
  defaultKeyId : KeyId
  generation : UInt64
  visibility : KeyVisibility
  key : Key32
  identity_valid : identity.validate c = .ok ()
  default_system : defaultKeyId = systemKeyId
  shared : visibility = .shared
  generation_ne_zero : generation ≠ 0

/-- The primitives a client calls, how it writes JSON, and the largest integer
it can write to TOML. -/
structure ClientEnv where
  crypto : EnvelopeCrypto
  renderJson : Serde.Doc → Bytes
  tomlLimit : ℕ
  le_tomlLimit : 2 ^ 63 ≤ tomlLimit

inductive ClientError where
  | message (text : String)
  | identifier (error : InvalidIdentifier)
  | protocol (error : ProtocolError)
  | access (error : AccessError)
  | accessStore (error : Codec.StoreError)
  | encode (error : Serde.EncodeError)
  | server (error : ServerError)
  | keyEnvelopeDelivery (joinRequestId : JoinRequestId) (workspaceId : WorkspaceId) (deviceId : DeviceId)
      (error : ServerError)
  /-- "server accepted the membership change, but saving local access state
  failed: {error}; run `rustsync device list` to refresh it" -/
  | membershipNotSaved (error : ClientError)

/-! ### Requests -/

section Requests

/-- What `authenticate` checks of a request its device signed. -/
def authorized (workspaceId : WorkspaceId) (deviceId : DeviceId) (permission : WorkspacePermission) :
    Handler AuthenticatedDevice := do
  let accessState : AccessState ← call (.getAccessState workspaceId)
  let _ ← check ((accessState.activeDeviceRecord deviceId).mapError .authProtocol)
  check ((accessState.requirePermission deviceId permission).mapError .authProtocol)
  return ⟨workspaceId, deviceId, permission⟩

/-- The requests of clients, with the device that makes each. -/
inductive HttpCall where
  | listJoinRequests (device : DeviceId)
  | fetchAccessState (device : DeviceId)
  | approveJoinRequest (device : DeviceId) (joinRequestId : JoinRequestId) (event : SignedAccessEvent)
  | applyAccessEvent (device : DeviceId) (event : SignedAccessEvent)
  | submitJoinRequest (request : DeviceJoinRequest)
  | uploadKeyEnvelope (device : DeviceId) (envelope : KeyEnvelope) (body : Bytes)

def HttpCall.Val : HttpCall → Type
  | .listJoinRequests _ => List DeviceJoinRequest
  | .fetchAccessState _ | .approveJoinRequest .. | .applyAccessEvent .. => AccessState
  | .submitJoinRequest _ => JoinRequestSubmissionResponse
  | .uploadKeyEnvelope .. => ObjectUploadResponse

variable (c : Crypto) (ws : WorkspaceId)

/-- The handler of a request. -/
def HttpCall.handle : (q : HttpCall) → Handler q.Val
  | .listJoinRequests device => listJoinRequestsAs (authorized ws device .manageDevices) ws
  | .fetchAccessState device => fetchAccessStateAs (authorized ws device .readObjects) ws
  | .approveJoinRequest device joinRequestId event =>
    approveJoinRequestAs c (authorized ws device .manageDevices) ws joinRequestId ⟨joinRequestId, event⟩
  | .applyAccessEvent device event => do
    let permission ← check (okOr event.event.requiredPermission
      (.invalidRequest "workspace-created events cannot be applied here"))
    applyAccessEventAs c (authorized ws device permission) ws event
  | .submitJoinRequest request => do
    check ((request.verifyForWorkspace c ws).mapError .invalidAccessState)
    withLock .lockJoinRequests .unlockJoinRequests (submitLocked ws request)
  | .uploadKeyEnvelope device envelope body =>
    putKeyEnvelopeAs c (authorized envelope.workspaceId device .manageKeys) envelope.workspaceId
      envelope.keyId envelope.recipientDeviceId envelope body

/-- What a client does: requests, and reading the clock and the random source. -/
inductive ClientOp where
  | http (call : HttpCall)
  | now
  | random

def ClientOp.Val : ClientOp → Type
  | .http q => q.Val
  | .now => UnixTimestamp
  | .random => Key32 × EnvelopeNonce

abbrev Client := Fallible ClientOp.Val ClientError

def send (q : HttpCall) : Client q.Val := Fallible.op (ClientOp.http q)

/-- What a request of `i` does: its handler runs as a whole. Clocks are before
the year 292 billion. -/
def ClientOp.Answers {ι : Type} (i : ι) :
    (o : ClientOp) → ServerState ι → Except ClientError o.Val → ServerState ι → Prop
  | .http q, s, r, s' => ∃ response : ServerResult q.Val,
    Fallible.exec (ServerState.attempt c i) (q.handle c ws) s = some (response, s') ∧
      r = response.mapError .server
  | .now, s, r, s' => (∃ t : UnixTimestamp, r = .ok t ∧ t.secs < 2 ^ 63) ∧ s' = s
  | .random, s, r, s' => (∃ drawn, r = .ok drawn) ∧ s' = s

/-- An access event that was accepted, and the state it led to. -/
abbrev Accepted := SignedAccessEvent × AccessState

/-- The event that is accepted with the answer to a request. -/
def acceptedBy {σ : Type} : (o : ClientOp) → σ → Except ClientError o.Val → σ → Option Accepted
  | .http (.approveJoinRequest _ _ event), _, .ok accessState, _ => some (event, accessState)
  | .http (.applyAccessEvent _ event), _, .ok accessState, _ => some (event, accessState)
  | _, _, _, _ => none

end Requests

/-! ### Approval -/

section Approve

variable (E : ClientEnv) {ws : WorkspaceId}

/-- `save_access_state`: what is saved is valid, and can be written to TOML. -/
def saveAccessState (accessState : AccessState) : Except ClientError Unit := do
  let _ ← (Codec.saveToml E.crypto.toCrypto E.tomlLimit accessState).mapError .accessStore

variable (ws) in
def signedDeviceJoinedEvent (actor : DeviceIdentity) (joinRequest : DeviceJoinRequest)
    (expectedRevision : UInt64) (role : WorkspaceRole) (now : UnixTimestamp) :
    Except ClientError SignedAccessEvent := do
  let requestId := joinRequest.requestId
  let eventId ← (TextId.parse accessEventIdKind s!"event_{requestId}").mapError .identifier
  let unsigned : SignedAccessEvent :=
    { eventId, workspaceId := ws, expectedRevision, actorDeviceId := actor.deviceId, createdAt := now,
      event := .deviceJoined joinRequest.requestId joinRequest.device role, signature := [] }
  let signature ← (actor.sign E.crypto unsigned.signingPayload).mapError .access
  return { unsigned with signature }

def sealDefaultKeyEnvelope (w : LocalWorkspace E.crypto ws) (accessState : AccessState)
    (recipientDeviceId : DeviceId) (now : UnixTimestamp) (ephemeralSecret : Key32) (nonce : EnvelopeNonce) :
    Except ClientError KeyEnvelope := do
  require (w.defaultKeyId = systemKeyId) (.message "default workspace key is not the system bootstrap key")
  require (w.visibility = .shared) (.message "system bootstrap key must have shared visibility")
  let senderRecord ← (accessState.activeDeviceRecord w.identity.deviceId).mapError .protocol
  let recipientRecord ← (accessState.activeDeviceRecord recipientDeviceId).mapError .protocol
  (sealKeyEnvelope E.crypto accessState .shared w.defaultKeyId w.generation w.key w.identity senderRecord
    recipientRecord now ephemeralSecret nonce).mapError .access

/-- The JSON body of an envelope. -/
def envelopeBody (envelope : KeyEnvelope) : Except ClientError Bytes := do
  let doc ← (Serde.encode Codec.json (Codec.serKeyEnvelope envelope)).mapError .encode
  return E.renderJson doc

/-- What `approve` prints. -/
structure Approval where
  deviceId : DeviceId
  accessRevision : UInt64
  keyId : KeyId
  delivery : ObjectUploadResponse

def deliveryError (joinRequestId : JoinRequestId) (ws : WorkspaceId) (deviceId : DeviceId) :
    ClientError → ClientError
  | .server error => .keyEnvelopeDelivery joinRequestId ws deviceId error
  | other => other

def approve (w : LocalWorkspace E.crypto ws) (joinRequestId : JoinRequestId) (role : WorkspaceRole) :
    Client Approval := do
  let device := w.identity.deviceId
  let requests : List DeviceJoinRequest ← send (.listJoinRequests device)
  let joinRequest ← check (okOr (requests.find? fun request => request.requestId = joinRequestId)
    (.message s!"join request `{joinRequestId}` is not pending for workspace {ws}"))
  let accessState : AccessState ← send (.fetchAccessState device)
  check (saveAccessState E accessState)
  let now : UnixTimestamp ← Fallible.op ClientOp.now
  let event ← check (signedDeviceJoinedEvent E ws w.identity joinRequest accessState.revision role now)
  let approved : AccessState ← send (.approveJoinRequest device joinRequestId event)
  check (saveAccessState E approved)
  let now : UnixTimestamp ← Fallible.op ClientOp.now
  let drawn : Key32 × EnvelopeNonce ← Fallible.op ClientOp.random
  let envelope ← check (sealDefaultKeyEnvelope E w approved joinRequest.device.deviceId now drawn.1 drawn.2)
  let body ← check (envelopeBody E envelope)
  let delivery : ObjectUploadResponse ←
    ExceptT.adapt (deliveryError joinRequestId ws joinRequest.device.deviceId)
      (send (.uploadKeyEnvelope device envelope body))
  return ⟨joinRequest.device.deviceId, approved.revision, envelope.keyId, delivery⟩

/-! ### Bootstrap -/

def requireActiveIdentity (accessState : AccessState) (identity : DeviceIdentity) :
    Except ClientError Unit := do
  let record ← (accessState.activeDeviceRecord identity.deviceId).mapError .protocol
  require (record.signingPublicKey = identity.signingPublicKey ∧
      record.exchangePublicKey = identity.exchangePublicKey)
    (.message "local device identity does not match the active access-state record")

/-- What `bootstrap` does with the access state and the envelope it fetched. -/
def bootstrapKey (ws : WorkspaceId) (accessState : AccessState) (identity : DeviceIdentity)
    (envelope : KeyEnvelope) : Except ClientError Key32 := do
  let actual := accessState.workspaceId
  require (accessState.workspaceId = ws)
    (.message s!"access state workspace `{actual}` does not match requested workspace `{ws}`")
  requireActiveIdentity accessState identity
  let recipientRecord ← (accessState.activeDeviceRecord identity.deviceId).mapError .protocol
  let senderRecord ← (accessState.activeDeviceRecord envelope.senderDeviceId).mapError .protocol
  let key ← (openKeyEnvelope E.crypto accessState .shared envelope identity recipientRecord
    senderRecord).mapError .access
  require (envelope.keyId = systemKeyId) (.message "bootstrap requires the system key envelope")
  return key

/-! ### Clients -/

/-- What runs on the clients of a workspace: `approve` commands, and whatever
else changes its access state or asks to join it. -/
inductive ClientRequest (ws : WorkspaceId) where
  | approve (w : LocalWorkspace E.crypto ws) (joinRequestId : JoinRequestId) (role : WorkspaceRole)
  | applyAccessEvent (device : DeviceId) (event : SignedAccessEvent)
  | submitJoinRequest (request : DeviceJoinRequest)

inductive ClientResponse where
  | approved (approval : Approval)
  | applied (accessState : AccessState)
  | submission (response : JoinRequestSubmissionResponse)

def ClientRequest.run : ClientRequest E ws → Client ClientResponse
  | .approve w joinRequestId role => .approved <$> RustSync.approve E w joinRequestId role
  | .applyAccessEvent device event => .applied <$> send (.applyAccessEvent device event)
  | .submitJoinRequest request => .submission <$> send (.submitJoinRequest request)

/-- The clients of a workspace over its server; the log lists the events that
were accepted, and by whose requests. -/
def clients (ι : Type) (ws : WorkspaceId) :
    Machine ι (Signature.linearized (ServerState ι) ClientOp.Val ClientError Accepted)
      (ServerState ι × Log ι Accepted) (ClientRequest E ws) (Except ClientError ClientResponse) :=
  Machine.logged
    { sem := ClientOp.Answers E.crypto.toCrypto ws
      program := fun q => (q.run E).run }
    fun _ => acceptedBy

end Approve

end RustSync
