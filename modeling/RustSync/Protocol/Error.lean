/-
Roles, permissions and protocol errors

What a member of a workspace may do depends on its role alone, and only an
owner may change who the members are (`allows_manage`). A check of the protocol
that fails says so in a `ProtocolError`, with the values and the text the
source puts there.

Key definitions: `WorkspaceRole`, `WorkspacePermission`, `ProtocolError`.
-/
import RustSync.Protocol.Ids

namespace RustSync

inductive WorkspacePermission where
  | readObjects
  | writeObjects
  | updateHead
  | readDevices
  | readAccessHistory
  | manageDevices
  | manageRoles
  | manageKeys
deriving DecidableEq, Repr

inductive WorkspaceRole where
  | owner
  | member
deriving DecidableEq, Repr

def WorkspaceRole.allows : WorkspaceRole → WorkspacePermission → Bool
  | .owner, _ => true
  | .member, .readObjects => true
  | .member, .writeObjects => true
  | .member, .updateHead => true
  | .member, .readDevices => true
  | .member, .readAccessHistory => true
  | .member, _ => false

/-- The permissions over devices, roles and keys. -/
def WorkspacePermission.manages (p : WorkspacePermission) : Bool :=
  p = .manageDevices ∨ p = .manageRoles ∨ p = .manageKeys

/-- Only an owner manages. -/
theorem allows_manage {r : WorkspaceRole} {p : WorkspacePermission} (hp : p.manages = true) :
    r.allows p = true ↔ r = .owner := by
  cases r <;> cases p <;> simp_all [WorkspaceRole.allows, WorkspacePermission.manages]

/-- The errors of the protocol crate that the modelled functions return. -/
inductive ProtocolError where
  | invalidIdentifier (error : InvalidIdentifier)
  | invalidDeviceName
  | invalidPublicKey
  | invalidSignature
  | fingerprintMismatch (expected actual : String)
  | invalidJoinRequest (reason : String)
  | workspaceMismatch (expected actual : String)
  | invalidKeyGeneration (generation : UInt64)
  | emptyCiphertext
  | ciphertextTooShort (minimum actual : ℕ)
  | invalidNonceLength (expected actual : ℕ)
  | encryptedObjectTooLarge (maximum actual : ℕ)
  | invalidEncryptedObjectBinary
  | unsupportedEncryptedObjectVersion (version : UInt8)
  | unsupportedContentEncryptionAlgorithm (tag : UInt8)
  | invalidEncryptedObjectEncoding
  | invalidAccessEvent (reason : String)
  | invalidManifestPath (path reason : String)
  | invalidRequestSignature
  | invalidAuthHeader (reason : String)
  | deviceNotActiveMember (deviceId : DeviceId)
  | permissionDenied (deviceId : DeviceId) (permission : WorkspacePermission)
  | deviceNotAuthorizedForKey (keyId : KeyId) (generation : UInt64) (deviceId : DeviceId)
  | deviceAlreadyMember (deviceId : DeviceId)
  | workspaceIdMismatch (expected actual : WorkspaceId)
  | revisionOverflow
  | cannotRemoveLastOwner
  | invalidState (reason : String)
  | keyAccessAlreadyGranted (keyId : KeyId) (generation : UInt64) (deviceId : DeviceId)
  | keyAccessNotGranted (keyId : KeyId) (generation : UInt64) (deviceId : DeviceId)
deriving DecidableEq

abbrev ProtocolResult (α : Type) := Except ProtocolError α

end RustSync
