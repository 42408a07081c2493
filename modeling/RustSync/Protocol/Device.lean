/-
Device records and join requests

A device record binds a device id to two public keys, through the fingerprint
`validate` recomputes. Whatever a device signs (an access event, a join
request, an HTTP request, a key envelope) is checked by the record's
`verifySignature`, over a payload of length-prefixed parts.

The hash and the signature scheme are third-party: they are the parameter
`Crypto`, and only `ed25519Verify` says whether a signature is one.

Key definitions: `Crypto`, `DeviceRecord`, `DeviceRecord.validate`,
`DeviceRecord.verifySignature`, `DeviceJoinRequest.verifyForWorkspace`.
-/
import RustSync.Lib.Base64
import RustSync.Lib.Result
import RustSync.Protocol.Error

namespace RustSync

/-- The cryptographic primitives: SHA-256, `VerifyingKey::from_bytes` and
`VerifyingKey::verify`, of the key, the message and the 64 signature bytes. -/
structure Crypto where
  sha256 : Bytes → Bytes
  validVerifyingKey : Bytes → Bool
  ed25519Verify : Bytes → Bytes → Bytes → Bool

/-- `[u8; 32]`. -/
abbrev Key32 := { bytes : Bytes // bytes.length = 32 }

/-! ### Encodings -/

/-- `u64::to_be_bytes`. -/
def u64ToBeBytes (n : UInt64) : Bytes :=
  ([56, 48, 40, 32, 24, 16, 8, 0] : List UInt64).map fun shift => (n >>> shift).toUInt8

def pushBytes (value : Bytes) : Bytes := u64ToBeBytes (UInt64.ofNat value.length) ++ value

def pushStr (value : String) : Bytes := pushBytes (utf8 value)

def pushU64 (value : UInt64) : Bytes := pushBytes (u64ToBeBytes value)

def pushU8 (value : UInt8) : Bytes := pushBytes [value]

/-- `chunks(4)`, joined with a dash. -/
def joinChunks : List Char → List Char
  | a :: b :: c :: d :: e :: rest => a :: b :: c :: d :: '-' :: joinChunks (e :: rest)
  | short => short

def shortFingerprint (bytes : Bytes) : String :=
  String.ofList (joinChunks ((base64Encode (bytes.take 10)).map Char.toUpper))

/-- `char::is_whitespace`. -/
def isWhitespace (c : Char) : Bool :=
  let n := c.toNat
  9 ≤ n && n ≤ 13 || n == 0x20 || n == 0x85 || n == 0xA0 || n == 0x1680 ||
    0x2000 ≤ n && n ≤ 0x200A || n == 0x2028 || n == 0x2029 || n == 0x202F || n == 0x205F || n == 0x3000

/-- `str::trim`. -/
def trim (s : List Char) : List Char :=
  ((s.dropWhile isWhitespace).reverse.dropWhile isWhitespace).reverse

/-! ### Device records -/

inductive DeviceStatus where
  | pending
  | active
  | revoked
deriving DecidableEq, Repr

structure DeviceRecord where
  deviceId : DeviceId
  deviceName : String
  signingPublicKey : Key32
  exchangePublicKey : Key32
  fingerprint : String
  status : DeviceStatus
deriving DecidableEq

def deviceSignatureDomain : Bytes := utf8 "rustsync/device-signature"
def accessEventDomain : Bytes := utf8 "rustsync/access-event"
def deviceJoinRequestDomain : Bytes := utf8 "rustsync/device-join-request"

def deviceSignaturePayload (message : Bytes) : Bytes :=
  pushBytes deviceSignatureDomain ++ pushBytes message

section Device

variable (c : Crypto)

def fingerprintFromPublicKeys (signingPublicKey exchangePublicKey : Key32) : String :=
  shortFingerprint (c.sha256 (signingPublicKey.val ++ exchangePublicKey.val))

namespace DeviceRecord

def validate (self : DeviceRecord) : ProtocolResult Unit := do
  require (trim self.deviceName.toList ≠ []) .invalidDeviceName
  let expected := fingerprintFromPublicKeys c self.signingPublicKey self.exchangePublicKey
  require (expected = self.fingerprint) (.fingerprintMismatch expected self.fingerprint)
  require (c.validVerifyingKey self.signingPublicKey.val = true) .invalidPublicKey

/-- `Signature::from_slice` takes 64 bytes and nothing else. -/
def verifySignature (self : DeviceRecord) (message signature : Bytes) : ProtocolResult Unit := do
  self.validate c
  require (signature.length = 64) .invalidSignature
  require
    (c.ed25519Verify self.signingPublicKey.val (deviceSignaturePayload message) signature = true)
    .invalidSignature

def activate (self : DeviceRecord) : DeviceRecord := { self with status := .active }

def revoke (self : DeviceRecord) : DeviceRecord := { self with status := .revoked }

def isPending (self : DeviceRecord) : Bool := self.status = .pending

/-- The identity of a device, which nothing changes once it has joined. -/
def identity (self : DeviceRecord) : Key32 × Key32 × String :=
  (self.signingPublicKey, self.exchangePublicKey, self.fingerprint)

@[simp] theorem activate_deviceId (d : DeviceRecord) : d.activate.deviceId = d.deviceId := rfl
@[simp] theorem activate_status (d : DeviceRecord) : d.activate.status = .active := rfl
@[simp] theorem activate_identity (d : DeviceRecord) : d.activate.identity = d.identity := rfl
@[simp] theorem revoke_deviceId (d : DeviceRecord) : d.revoke.deviceId = d.deviceId := rfl
@[simp] theorem revoke_status (d : DeviceRecord) : d.revoke.status = .revoked := rfl
@[simp] theorem revoke_identity (d : DeviceRecord) : d.revoke.identity = d.identity := rfl

/-- The status is not part of what is validated. -/
@[simp] theorem validate_activate (d : DeviceRecord) : d.activate.validate c = d.validate c := rfl
@[simp] theorem validate_revoke (d : DeviceRecord) : d.revoke.validate c = d.validate c := rfl

end DeviceRecord

/-! ### Join requests -/

structure DeviceJoinRequest where
  requestId : JoinRequestId
  workspaceId : WorkspaceId
  device : DeviceRecord
  createdAt : UnixTimestamp
  signature : Bytes
deriving DecidableEq

def deviceStatusName : DeviceStatus → String
  | .pending => "pending"
  | .active => "active"
  | .revoked => "revoked"

namespace DeviceJoinRequest

def signingPayload (self : DeviceJoinRequest) : Bytes :=
  pushBytes deviceJoinRequestDomain ++ pushStr self.requestId.asStr ++
    pushStr self.workspaceId.asStr ++ pushStr self.device.deviceId.asStr ++
    pushStr self.device.deviceName ++ pushBytes self.device.signingPublicKey.val ++
    pushBytes self.device.exchangePublicKey.val ++ pushStr self.device.fingerprint ++
    pushStr (deviceStatusName self.device.status) ++ pushU64 self.createdAt.asSecs

def validate (self : DeviceJoinRequest) : ProtocolResult Unit := do
  require (self.signature ≠ []) (.invalidJoinRequest ".signature is missing")
  require (self.device.isPending = true)
    (.invalidJoinRequest "joining device must have pending status")
  self.device.validate c

def verify (self : DeviceJoinRequest) : ProtocolResult Unit := do
  self.validate c
  self.device.verifySignature c self.signingPayload self.signature

def verifyForWorkspace (self : DeviceJoinRequest) (expected : WorkspaceId) :
    ProtocolResult Unit := do
  require (self.workspaceId = expected)
    (.workspaceMismatch expected.asStr self.workspaceId.asStr)
  self.verify c

end DeviceJoinRequest

end Device

/-! ### A sample device

Its signing key is the identity point of the curve: a key `from_bytes` takes,
under which the signature of the identity and zero verifies for every
message. -/

def sampleKey : Key32 := ⟨1 :: List.replicate 31 0, by decide⟩

def sampleSignature : Bytes := 1 :: List.replicate 63 0

/-- The primitives, as they are on the sample key and signature. -/
def sampleCrypto : Crypto where
  sha256 _ := [22, 171, 171, 52, 31, 183, 243, 112, 226, 126, 77, 173, 207, 129, 118, 109, 208, 223,
    208, 174, 100, 70, 148, 119, 187, 44, 246, 97, 73, 56, 178, 175]
  validVerifyingKey key := key = sampleKey.val
  ed25519Verify key _ signature := key = sampleKey.val ∧ signature = sampleSignature

/-- The hashes of a table. -/
def Crypto.withHashes (c : Crypto) (hashes : List (Bytes × Bytes)) : Crypto :=
  { c with sha256 := fun bytes => (hashes.lookup bytes).getD (c.sha256 bytes) }

def sampleDevice (deviceId : DeviceId) (status : DeviceStatus) : DeviceRecord where
  deviceId := deviceId
  deviceName := "laptop"
  signingPublicKey := sampleKey
  exchangePublicKey := ⟨List.replicate 32 0, by decide⟩
  fingerprint := "FQUR-NB-3-83DI-FG"
  status := status

end RustSync
