/-
Access events

A workspace's access state changes by signed events. An event names the
revision it expects, the acting device, and what it does; its signature is
the actor's, over a payload that holds all of it. A join event must besides
match the join request it approves (`verifyJoinRequest`).

Key definitions: `AccessEvent`, `SignedAccessEvent`,
`SignedAccessEvent.verifySignature`, `SignedAccessEvent.verifyJoinRequest`.
-/
import RustSync.Protocol.Device

namespace RustSync

inductive AccessEvent where
  | workspaceCreated (owner : DeviceRecord)
  | deviceJoined (joinRequestId : JoinRequestId) (device : DeviceRecord) (role : WorkspaceRole)
  | deviceRoleChanged (deviceId : DeviceId) (newRole : WorkspaceRole)
  | deviceRemoved (deviceId : DeviceId)
  | restrictedKeyGranted (keyId : KeyId) (keyGeneration : UInt64) (deviceId : DeviceId)
  | restrictedKeyRevoked (keyId : KeyId) (keyGeneration : UInt64) (deviceId : DeviceId)
deriving DecidableEq

structure SignedAccessEvent where
  eventId : AccessEventId
  workspaceId : WorkspaceId
  expectedRevision : UInt64
  actorDeviceId : DeviceId
  createdAt : UnixTimestamp
  event : AccessEvent
  signature : Bytes
deriving DecidableEq

def AccessEvent.requiredPermission : AccessEvent → Option WorkspacePermission
  | .workspaceCreated _ => none
  | .deviceJoined .. => some .manageDevices
  | .deviceRemoved _ => some .manageDevices
  | .deviceRoleChanged .. => some .manageRoles
  | .restrictedKeyGranted .. => some .manageKeys
  | .restrictedKeyRevoked .. => some .manageKeys

/-- Every event but the first takes a permission only owners have. -/
theorem requiredPermission_manages {e : AccessEvent} {p : WorkspacePermission}
    (h : e.requiredPermission = some p) : p.manages = true := by
  cases e <;> cases h <;> rfl

/-! ### Payload -/

def deviceStatusByte : DeviceStatus → UInt8
  | .pending => 1
  | .active => 2
  | .revoked => 3

def pushDeviceRecord (device : DeviceRecord) : Bytes :=
  pushStr device.deviceId.asStr ++ pushStr device.deviceName ++
    pushBytes device.signingPublicKey.val ++ pushBytes device.exchangePublicKey.val ++
    pushStr device.fingerprint ++ pushU8 (deviceStatusByte device.status)

def pushRole : WorkspaceRole → Bytes
  | .owner => pushU8 1
  | .member => pushU8 2

def pushAccessEvent : AccessEvent → Bytes
  | .workspaceCreated owner => pushU8 1 ++ pushDeviceRecord owner
  | .deviceJoined joinRequestId device role =>
    pushU8 2 ++ pushStr joinRequestId.asStr ++ pushDeviceRecord device ++ pushRole role
  | .deviceRoleChanged deviceId newRole => pushU8 3 ++ pushStr deviceId.asStr ++ pushRole newRole
  | .deviceRemoved deviceId => pushU8 4 ++ pushStr deviceId.asStr
  | .restrictedKeyGranted keyId keyGeneration deviceId =>
    pushU8 5 ++ pushStr keyId.asStr ++ pushU64 keyGeneration ++ pushStr deviceId.asStr
  | .restrictedKeyRevoked keyId keyGeneration deviceId =>
    pushU8 6 ++ pushStr keyId.asStr ++ pushU64 keyGeneration ++ pushStr deviceId.asStr

def SignedAccessEvent.signingPayload (self : SignedAccessEvent) : Bytes :=
  pushBytes accessEventDomain ++ pushStr self.eventId.asStr ++ pushStr self.workspaceId.asStr ++
    pushU64 self.expectedRevision ++ pushStr self.actorDeviceId.asStr ++
    pushU64 self.createdAt.asSecs ++ pushAccessEvent self.event

/-! ### Checks -/

section Checks

variable (c : Crypto)

def AccessEvent.validate : AccessEvent → ProtocolResult Unit
  | .workspaceCreated owner => do
    owner.validate c
    require (owner.status = .active) (.invalidAccessEvent "workspace owner must have active status")
  | .deviceJoined _ device _ => do
    device.validate c
    require (device.status = .pending)
      (.invalidAccessEvent "joined device record must have pending status")
  | .restrictedKeyGranted _ keyGeneration _ =>
    require (keyGeneration ≠ 0) (.invalidKeyGeneration keyGeneration)
  | .restrictedKeyRevoked _ keyGeneration _ =>
    require (keyGeneration ≠ 0) (.invalidKeyGeneration keyGeneration)
  | .deviceRoleChanged .. => .ok ()
  | .deviceRemoved _ => .ok ()

namespace SignedAccessEvent

def validate (self : SignedAccessEvent) : ProtocolResult Unit := do
  require (self.signature ≠ []) (.invalidAccessEvent "signature is missing")
  self.event.validate c

def verifySignature (self : SignedAccessEvent) (actor : DeviceRecord) : ProtocolResult Unit := do
  self.validate c
  let record := actor.deviceId
  let named := self.actorDeviceId
  require (actor.deviceId = self.actorDeviceId)
    (.invalidAccessEvent s!"actore record `{record}` does not match event actor `{named}`")
  actor.verifySignature c self.signingPayload self.signature

def verifyJoinRequest (self : SignedAccessEvent) (request : DeviceJoinRequest) :
    ProtocolResult Unit :=
  match self.event with
  | .deviceJoined joinRequestId device _ => do
    require (joinRequestId = request.requestId)
      (.invalidAccessEvent "join request ID does not match event")
    require (device = request.device)
      (.invalidAccessEvent "join request device does not match event device")
    require (self.workspaceId = request.workspaceId)
      (.invalidAccessEvent "join request workspace does not match event workspace")
  | _ => .error (.invalidAccessEvent "event is not a device join event")

/-- An event matches a join request when it is the join of the request's
device into its workspace. -/
theorem verifyJoinRequest_ok {self : SignedAccessEvent} {request : DeviceJoinRequest} :
    self.verifyJoinRequest request = .ok () ↔
      (∃ role, self.event = .deviceJoined request.requestId request.device role) ∧
        self.workspaceId = request.workspaceId := by
  unfold verifyJoinRequest
  split
  · rename_i joinRequestId device role he
    simp only [Except.bind_unit_ok, require_ok, he]
    constructor
    · rintro ⟨rfl, rfl, hw⟩
      exact ⟨⟨role, rfl⟩, hw⟩
    · rintro ⟨⟨r, h⟩, hw⟩
      cases h
      exact ⟨rfl, rfl, hw⟩
  · rename_i hne
    constructor
    · rintro ⟨⟩
    · rintro ⟨⟨r, h⟩, _⟩
      exact absurd h (hne _ _ _)

end SignedAccessEvent

end Checks

end RustSync
