/-
The access handlers

The handlers of a workspace's access routes: key envelopes, join requests,
their approval, access events, and reading the state. A handler checks the
body, authenticates the caller against the stored state, does its work, and
every step in between may interleave with other handlers. Only
`verifyAndApplyAccessEvent` writes an access state, under a lock that spans
reading, verifying and saving it.

Each handler is split where the caller is authenticated: what follows takes
the step that authenticates as an argument (`approveJoinRequestAs`,
`putKeyEnvelopeAs`, ...).

Key definitions: `authenticate`, `verifyAndApplyAccessEvent`,
`approveJoinRequest`, `applyAccessEvent`, `submitJoinRequest`, `AccessRequest`.
-/
import RustSync.Access.Envelope
import RustSync.Protocol.Auth
import RustSync.Server.Storage

namespace RustSync

structure ApproveJoinRequestRequest where
  joinRequestId : JoinRequestId
  event : SignedAccessEvent

/-- The primitives the server calls, and how it reads the JSON bodies. -/
structure ServerEnv where
  crypto : Crypto
  parseKeyEnvelope : Bytes → Except String KeyEnvelope
  parseDeviceJoinRequest : Bytes → Except String DeviceJoinRequest
  parseApproveJoinRequest : Bytes → Except String ApproveJoinRequestRequest
  parseApplyAccessEvent : Bytes → Except String SignedAccessEvent

/-- A request as the router hands it on, with what `parse_auth_headers` makes
of its headers. -/
structure HttpRequest where
  method : String
  pathAndQuery : String
  headers : ServerResult AuthHeaders
  body : Bytes

structure AuthenticatedDevice where
  workspaceId : WorkspaceId
  deviceId : DeviceId
  permission : WorkspacePermission

/-- Whether a join request is new; it names the request that is pending. -/
inductive JoinRequestSubmissionResponse where
  | submitted (requestId : JoinRequestId)
  | alreadyPending (requestId : JoinRequestId)

inductive ObjectUploadResponse where
  | created
  | alreadyExists
deriving DecidableEq

def maxAuthBodyBytes : ℕ := 1024 * 1024

def maxPendingJoinRequestsPerWorkspace : ℕ := 128

def ensureBodyLimit (body : Bytes) : ServerResult Unit :=
  require (body.length ≤ maxAuthBodyBytes) .requestBodyTooLarge

/-- `parse_json`, by what the decoder says of the body. -/
def parseJson {α : Type} (parsed : Except String α) : ServerResult α :=
  parsed.mapError fun error => .invalidRequest s!"invalid JSON body: {error}"

def actorMismatch : ServerError :=
  .authProtocol (.invalidAccessEvent "authenticated device does not match access event actor")

open Fallible Replay

/-! ### Events -/

section Events

variable (c : Crypto)

/-- What happens under the lock. -/
def applyLocked (workspaceId : WorkspaceId) (event : SignedAccessEvent) : Handler AccessState := do
  check (require (event.workspaceId = workspaceId)
    (.accessStateWorkspaceMismatch workspaceId event.workspaceId))
  let accessState : AccessState ← call (.getAccessState workspaceId)
  let actor ← check ((accessState.activeDeviceRecord event.actorDeviceId).mapError .invalidAccessState)
  check ((event.verifySignature c actor).mapError .invalidAccessState)
  let applied := (AccessState.applyVerifiedEvent c event).exec accessState
  check (applied.1.mapError .invalidAccessState)
  call (.saveAccessState workspaceId applied.2 event)
  return applied.2

def verifyAndApplyAccessEvent (workspaceId : WorkspaceId) (event : SignedAccessEvent) :
    Handler AccessState :=
  withLock .lockAccessEvents .unlockAccessEvents (applyLocked c workspaceId event)

/-- A join event: its request must be pending, and is taken off the list when
the event was applied. -/
def applyJoinEvent (workspaceId : WorkspaceId) (joinRequestId : JoinRequestId)
    (event : SignedAccessEvent) : Handler AccessState := do
  let found : Option DeviceJoinRequest ← call (.getJoinRequest workspaceId joinRequestId)
  let pending ← check (okOr found (.invalidRequest "join request is not pending"))
  check ((pending.verifyForWorkspace c workspaceId).mapError .invalidAccessState)
  check ((event.verifyJoinRequest pending).mapError .invalidAccessState)
  let accessState ← verifyAndApplyAccessEvent c workspaceId event
  call (.removeJoinRequest workspaceId joinRequestId)
  return accessState

/-- `approve_join_request`, after the body was parsed. -/
def approveJoinRequestAs (auth : Handler AuthenticatedDevice) (workspaceId : WorkspaceId)
    (joinRequestId : JoinRequestId) (request : ApproveJoinRequestRequest) : Handler AccessState := do
  check (require (request.joinRequestId = joinRequestId)
    (.invalidRequest "join request ID in body does not match path"))
  let auth ← auth
  check (require (auth.deviceId = request.event.actorDeviceId) actorMismatch)
  applyJoinEvent c workspaceId joinRequestId request.event

/-- `apply_access_event`, after the event's permission was found. -/
def applyAccessEventAs (auth : Handler AuthenticatedDevice) (workspaceId : WorkspaceId)
    (event : SignedAccessEvent) : Handler AccessState := do
  let auth ← auth
  check (require (auth.deviceId = event.actorDeviceId) actorMismatch)
  match event.event with
  | .deviceJoined joinRequestId _ _ => applyJoinEvent c workspaceId joinRequestId event
  | _ => verifyAndApplyAccessEvent c workspaceId event

/-! ### Key envelopes -/

/-- `put_key_envelope`, after the body was parsed. -/
def putKeyEnvelopeAs (auth : Handler AuthenticatedDevice) (workspaceId : WorkspaceId)
    (keyId : KeyId) (recipientDeviceId : DeviceId) (envelope : KeyEnvelope) (body : Bytes) :
    Handler ObjectUploadResponse := do
  let auth ← auth
  check (require (auth.deviceId = envelope.senderDeviceId) (.authProtocol (.invalidAccessEvent
    "authenticated device does not match key envelope sender")))
  check (require (envelope.workspaceId = workspaceId ∧ envelope.keyId = keyId ∧
      envelope.recipientDeviceId = recipientDeviceId)
    (.invalidRequest "key envelope fields do not match request path"))
  let accessState : AccessState ← call (.getAccessState workspaceId)
  let sender ← check
    ((accessState.activeDeviceRecord envelope.senderDeviceId).mapError .invalidAccessState)
  let _ ← check
    ((accessState.activeDeviceRecord envelope.recipientDeviceId).mapError .invalidAccessState)
  check ((envelope.verifySenderSignature c sender).mapError .invalidAccessState)
  check (require (envelope.accessRevision = accessState.revision)
    (.invalidRequest "key envelope access revision does not match current access state"))
  let result : PutResult ← call (.putKeyEnvelope workspaceId keyId recipientDeviceId body)
  match result with
  | .created => return .created
  | .alreadyExists => return .alreadyExists
  | .conflict => throw .keyEnvelopeConflict

end Events

/-- `fetch_key_envelope`, up to decoding what is stored. -/
def fetchKeyEnvelopeAs (auth : Handler AuthenticatedDevice) (workspaceId : WorkspaceId)
    (keyId : KeyId) (recipientDeviceId : DeviceId) : Handler Bytes := do
  let auth ← auth
  check (require (auth.deviceId = recipientDeviceId) .keyEnvelopeRecipientMismatch)
  let bytes : Option Bytes ← call (.getKeyEnvelope workspaceId keyId recipientDeviceId)
  check (okOr bytes .keyEnvelopeNotFound)

def listJoinRequestsAs (auth : Handler AuthenticatedDevice) (workspaceId : WorkspaceId) :
    Handler (List DeviceJoinRequest) := do
  let _ ← auth
  call (.listJoinRequests workspaceId)

def fetchAccessStateAs (auth : Handler AuthenticatedDevice) (workspaceId : WorkspaceId) :
    Handler AccessState := do
  let _ ← auth
  call (.getAccessState workspaceId)

/-! ### Join requests -/

/-- The answer to a stored or already stored request. -/
def submissionResponse (requestId : JoinRequestId) :
    JoinRequestPutResult → ServerResult JoinRequestSubmissionResponse
  | .submitted => .ok (.submitted requestId)
  | .alreadyPending => .ok (.alreadyPending requestId)
  | .conflict => .error .joinRequestConflict

/-- What happens under the lock: one pending request per device, and no more
than the maximum per workspace. -/
def submitLocked (workspaceId : WorkspaceId) (request : DeviceJoinRequest) :
    Handler JoinRequestSubmissionResponse := do
  let accessState : AccessState ← call (.getAccessState workspaceId)
  check (require (accessState.revision ≠ 0) (.invalidRequest "workspace has not been initialized"))
  check (require (accessState.isActiveMember request.device.deviceId = false)
    (.invalidAccessState (.deviceAlreadyMember request.device.deviceId)))
  let existing : Option DeviceJoinRequest ← call (.getJoinRequest workspaceId request.requestId)
  if existing.isSome then
    let result : JoinRequestPutResult ← call (.submitJoinRequest workspaceId request)
    check (submissionResponse request.requestId result)
  else
    let pendingRequests : List DeviceJoinRequest ← call (.listJoinRequests workspaceId)
    match pendingRequests.find? fun pending => pending.device.deviceId = request.device.deviceId with
    | some existingRequest => return .alreadyPending existingRequest.requestId
    | none =>
      check (require (pendingRequests.length < maxPendingJoinRequestsPerWorkspace) (.invalidRequest
        s!"workspace already has the maximum of {maxPendingJoinRequestsPerWorkspace} pending join requests"))
      let result : JoinRequestPutResult ← call (.submitJoinRequest workspaceId request)
      check (submissionResponse request.requestId result)

/-! ### Whole handlers -/

section Handlers

variable (E : ServerEnv)

def signedHttpRequestFromHeaders (http : HttpRequest) : ServerResult SignedHttpRequest := do
  let headers ← http.headers
  return .ofHeaders E.crypto http.method http.pathAndQuery http.body headers

def authenticate (workspaceId : WorkspaceId) (permission : WorkspacePermission) (http : HttpRequest) :
    Handler AuthenticatedDevice := do
  let signedRequest ← check (signedHttpRequestFromHeaders E http)
  let now : UnixTimestamp ← call .now
  check (validateTimestamp now signedRequest.input.timestamp)
  let accessState : AccessState ← call (.getAccessState workspaceId)
  let device ← check
    ((accessState.activeDeviceRecord signedRequest.input.deviceId).mapError .authProtocol)
  check ((signedRequest.verifyWithDevice E.crypto device).mapError .authProtocol)
  call (.checkAndRecord workspaceId signedRequest.input.deviceId signedRequest.input.nonce
    signedRequest.input.timestamp)
  check ((accessState.requirePermission signedRequest.input.deviceId permission).mapError .authProtocol)
  return ⟨workspaceId, signedRequest.input.deviceId, permission⟩

def verifyJoinRequestHttpSignature (workspaceId : WorkspaceId) (http : HttpRequest)
    (request : DeviceJoinRequest) : Handler Unit := do
  let signedRequest ← check (signedHttpRequestFromHeaders E http)
  let now : UnixTimestamp ← call .now
  check (validateTimestamp now signedRequest.input.timestamp)
  check (require (signedRequest.input.deviceId = request.device.deviceId)
    (.authProtocol (.invalidAccessEvent "authenticated device does not match join request device")))
  check ((signedRequest.verifyWithDevice E.crypto request.device).mapError .authProtocol)
  call (.checkAndRecord workspaceId signedRequest.input.deviceId signedRequest.input.nonce
    signedRequest.input.timestamp)

def submitJoinRequest (workspaceId : WorkspaceId) (http : HttpRequest) :
    Handler JoinRequestSubmissionResponse := do
  check (ensureBodyLimit http.body)
  let request ← check (parseJson (E.parseDeviceJoinRequest http.body))
  check ((request.verifyForWorkspace E.crypto workspaceId).mapError .invalidAccessState)
  verifyJoinRequestHttpSignature E workspaceId http request
  withLock .lockJoinRequests .unlockJoinRequests (submitLocked workspaceId request)

def approveJoinRequest (workspaceId : WorkspaceId) (joinRequestId : JoinRequestId)
    (http : HttpRequest) : Handler AccessState := do
  check (ensureBodyLimit http.body)
  let request ← check (parseJson (E.parseApproveJoinRequest http.body))
  approveJoinRequestAs E.crypto (authenticate E workspaceId .manageDevices http) workspaceId
    joinRequestId request

def applyAccessEvent (workspaceId : WorkspaceId) (http : HttpRequest) : Handler AccessState := do
  check (ensureBodyLimit http.body)
  let event ← check (parseJson (E.parseApplyAccessEvent http.body))
  let permission ← check (okOr event.event.requiredPermission
    (.invalidRequest "workspace-created events cannot be applied here"))
  applyAccessEventAs E.crypto (authenticate E workspaceId permission http) workspaceId event

def putKeyEnvelope (workspaceId : WorkspaceId) (keyId : KeyId) (recipientDeviceId : DeviceId)
    (http : HttpRequest) : Handler ObjectUploadResponse := do
  check (ensureBodyLimit http.body)
  let envelope ← check (parseJson (E.parseKeyEnvelope http.body))
  putKeyEnvelopeAs E.crypto (authenticate E workspaceId .manageKeys http) workspaceId keyId
    recipientDeviceId envelope http.body

def fetchKeyEnvelope (workspaceId : WorkspaceId) (keyId : KeyId) (recipientDeviceId : DeviceId)
    (http : HttpRequest) : Handler Bytes :=
  fetchKeyEnvelopeAs (authenticate E workspaceId .readObjects http) workspaceId keyId
    recipientDeviceId

def listJoinRequests (workspaceId : WorkspaceId) (http : HttpRequest) :
    Handler (List DeviceJoinRequest) :=
  listJoinRequestsAs (authenticate E workspaceId .manageDevices http) workspaceId

def fetchAccessState (workspaceId : WorkspaceId) (http : HttpRequest) : Handler AccessState :=
  fetchAccessStateAs (authenticate E workspaceId .readObjects http) workspaceId

end Handlers

/-- The routes. -/
inductive AccessRequest where
  | putKeyEnvelope (workspaceId : WorkspaceId) (keyId : KeyId) (recipientDeviceId : DeviceId)
      (http : HttpRequest)
  | fetchKeyEnvelope (workspaceId : WorkspaceId) (keyId : KeyId) (recipientDeviceId : DeviceId)
      (http : HttpRequest)
  | submitJoinRequest (workspaceId : WorkspaceId) (http : HttpRequest)
  | listJoinRequests (workspaceId : WorkspaceId) (http : HttpRequest)
  | approveJoinRequest (workspaceId : WorkspaceId) (joinRequestId : JoinRequestId) (http : HttpRequest)
  | applyAccessEvent (workspaceId : WorkspaceId) (http : HttpRequest)
  | fetchAccessState (workspaceId : WorkspaceId) (http : HttpRequest)

inductive AccessResponse where
  | uploaded (response : ObjectUploadResponse)
  | keyEnvelope (bytes : Bytes)
  | submission (response : JoinRequestSubmissionResponse)
  | joinRequests (requests : List DeviceJoinRequest)
  | applied (accessState : AccessState)
  | accessState (accessState : AccessState)

def AccessRequest.handle (E : ServerEnv) : AccessRequest → Handler AccessResponse
  | .putKeyEnvelope w k d http => .uploaded <$> RustSync.putKeyEnvelope E w k d http
  | .fetchKeyEnvelope w k d http => .keyEnvelope <$> RustSync.fetchKeyEnvelope E w k d http
  | .submitJoinRequest w http => .submission <$> RustSync.submitJoinRequest E w http
  | .listJoinRequests w http => .joinRequests <$> RustSync.listJoinRequests E w http
  | .approveJoinRequest w id http => .applied <$> RustSync.approveJoinRequest E w id http
  | .applyAccessEvent w http => .applied <$> RustSync.applyAccessEvent E w http
  | .fetchAccessState w http => .accessState <$> RustSync.fetchAccessState E w http

/-- The server: its handlers on its shared state, `ι` being the handler
invocations. -/
def accessServer (ι : Type) (E : ServerEnv) :
    Machine ι (Signature.fallible ServerOp.Val ServerError) (ServerState ι) AccessRequest
      (ServerResult AccessResponse) where
  sem i o := ServerState.Serves E.crypto i o
  program q := (q.handle E).run

end RustSync
