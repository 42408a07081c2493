/-
Key envelopes

An owner hands a workspace key to a device in an envelope: the key encrypted
under a secret shared between an ephemeral key and the recipient's exchange
key, bound to the workspace, the access revision and the two devices, and
signed by the sender. Opening it checks the sender's rights again, in the
access state the opener has.

The key agreement, the key derivation and the authenticated cipher are
third-party, and so is signing: they are the parameter `EnvelopeCrypto`, with
what is relied on of them in `EnvelopeCrypto.Ideal`. Then an envelope opens to
the key that was sealed, in every state where its sender still may deliver it
and its recipient is active (`open_seal`).

Key definitions: `KeyEnvelope`, `DeviceIdentity`, `sealKeyEnvelope`,
`openKeyEnvelope`.
-/
import RustSync.Access.State

namespace RustSync

/-- There is one algorithm. -/
inductive EnvelopeAlgorithm where
  | x25519HkdfSha256XChaCha20Poly1305
deriving DecidableEq, Repr

def EnvelopeAlgorithm.asStr : EnvelopeAlgorithm → String
  | .x25519HkdfSha256XChaCha20Poly1305 => "x25519-hkdf-sha256-xchacha20poly1305"

abbrev EnvelopeNonce := { bytes : Bytes // bytes.length = 24 }

structure KeyEnvelope where
  workspaceId : WorkspaceId
  keyId : KeyId
  keyGeneration : UInt64
  accessRevision : UInt64
  senderDeviceId : DeviceId
  recipientDeviceId : DeviceId
  algorithm : EnvelopeAlgorithm
  senderEphemeralPublicKey : Key32
  nonce : EnvelopeNonce
  encryptedWorkspaceKey : Bytes
  createdAt : UnixTimestamp
  signature : Bytes
deriving DecidableEq

def keyEnvelopeDomain : Bytes := utf8 "rustsync/key-envelope"

/-- What sealing and opening an envelope fail with. -/
inductive AccessError where
  | protocol (error : ProtocolError)
  | signingKeyMismatch
  | exchangeKeyMismatch
  | workspaceMismatch (expected actual : WorkspaceId)
  | accessStateTooOld (localRevision envelopeRevision : UInt64)
  | wrongEnvelopeRecipient (expected actual : DeviceId)
  | deviceIdentityConflict (deviceId : DeviceId)
  | envelopeDecryptionFailed
  | invalidWorkspaceKeyLength (expected actual : ℕ)
deriving DecidableEq

namespace KeyEnvelope

def contextBytes (self : KeyEnvelope) : Bytes :=
  pushBytes keyEnvelopeDomain ++ pushStr self.workspaceId.asStr ++ pushStr self.keyId.asStr ++
    pushU64 self.keyGeneration ++ pushU64 self.accessRevision ++
    pushStr self.senderDeviceId.asStr ++ pushStr self.recipientDeviceId.asStr ++
    pushStr self.algorithm.asStr ++ pushU64 self.createdAt.asSecs

def signingPayload (self : KeyEnvelope) : Bytes :=
  self.contextBytes ++ pushBytes self.senderEphemeralPublicKey.val ++ pushBytes self.nonce.val ++
    pushBytes self.encryptedWorkspaceKey

def validate (self : KeyEnvelope) : ProtocolResult Unit := do
  require (self.keyGeneration ≠ 0) (.invalidKeyGeneration self.keyGeneration)
  require (self.encryptedWorkspaceKey ≠ []) .emptyCiphertext
  require (self.signature ≠ []) .invalidSignature

def verifySenderSignature (c : Crypto) (self : KeyEnvelope) (sender : DeviceRecord) :
    ProtocolResult Unit := do
  self.validate
  let named := self.senderDeviceId
  let record := sender.deviceId
  require (sender.deviceId = self.senderDeviceId)
    (.invalidAccessEvent s!"envelope sender `{named}` does not match record `{record}`")
  sender.verifySignature c self.signingPayload self.signature

end KeyEnvelope

/-! ### Identities -/

/-- The primitives a device uses its private keys with: deriving public keys,
signing, the key agreement, the key derivation and the authenticated cipher. -/
structure EnvelopeCrypto extends Crypto where
  signingPublic : Key32 → Key32
  sign : Key32 → Bytes → Bytes
  exchangePublic : Key32 → Key32
  diffieHellman : Key32 → Key32 → Bytes
  hkdf : Bytes → Bytes → Bytes → Bytes
  encrypt : Bytes → Bytes → Bytes → Bytes → Bytes
  decrypt : Bytes → Bytes → Bytes → Bytes → Option Bytes

/-- What is relied on: signatures of a key verify under its public key and are
64 bytes; the two sides of a key agreement get the same secret; a cipher
decrypts what it encrypted, and a ciphertext is never empty. -/
structure EnvelopeCrypto.Ideal (c : EnvelopeCrypto) : Prop where
  sign_length : ∀ key message, (c.sign key message).length = 64
  verify_sign : ∀ key message,
    c.ed25519Verify (c.signingPublic key).val message (c.sign key message) = true
  agree : ∀ a b, c.diffieHellman a (c.exchangePublic b) = c.diffieHellman b (c.exchangePublic a)
  decrypt_encrypt : ∀ key nonce aad message,
    c.decrypt key nonce aad (c.encrypt key nonce aad message) = some message
  encrypt_ne_nil : ∀ key nonce aad message, c.encrypt key nonce aad message ≠ []

structure DeviceIdentity where
  deviceId : DeviceId
  deviceName : String
  signingPublicKey : Key32
  signingPrivateKey : Key32
  exchangePublicKey : Key32
  exchangePrivateKey : Key32
deriving DecidableEq

/-- `SYSTEM_KEY_ID`. -/
def systemKeyId : KeyId := ⟨"system", by decide⟩

inductive KeyVisibility where
  | shared
  | restricted
deriving DecidableEq, Repr

section Identity

variable (c : EnvelopeCrypto)

namespace DeviceIdentity

def publicRecord (self : DeviceIdentity) (status : DeviceStatus) : DeviceRecord where
  deviceId := self.deviceId
  deviceName := self.deviceName
  signingPublicKey := self.signingPublicKey
  exchangePublicKey := self.exchangePublicKey
  fingerprint := fingerprintFromPublicKeys c.toCrypto self.signingPublicKey self.exchangePublicKey
  status := status

def validate (self : DeviceIdentity) : Except AccessError Unit := do
  require (c.signingPublic self.signingPrivateKey = self.signingPublicKey) .signingKeyMismatch
  require (c.exchangePublic self.exchangePrivateKey = self.exchangePublicKey) .exchangeKeyMismatch
  ((self.publicRecord c .active).validate c.toCrypto).mapError .protocol

def sign (self : DeviceIdentity) (payload : Bytes) : Except AccessError Bytes := do
  self.validate c
  return c.sign self.signingPrivateKey (deviceSignaturePayload payload)

end DeviceIdentity

def requireIdentityMatchesRecord (identity : DeviceIdentity) (record : DeviceRecord) :
    Except AccessError Unit :=
  require (identity.deviceId = record.deviceId ∧ identity.signingPublicKey = record.signingPublicKey ∧
      identity.exchangePublicKey = record.exchangePublicKey)
    (.deviceIdentityConflict record.deviceId)

/-! ### Sealing and opening -/

def authorizeKeyDelivery (state : AccessState) (visibility : KeyVisibility) (keyId : KeyId)
    (generation : UInt64) (senderDeviceId recipientDeviceId : DeviceId) : Except AccessError Unit := do
  (state.requirePermission senderDeviceId .manageKeys).mapError .protocol
  let _ ← (state.activeMembership recipientDeviceId).mapError .protocol
  if visibility = .restricted then
    let _ ← (state.requireKeyGrant keyId generation recipientDeviceId).mapError .protocol

def envelopeHkdfSalt : Bytes := utf8 "rustsync/key-envelope/hkdf-sha256"

/-- HKDF-SHA256 under the envelope's salt; a 32-byte output is never too long. -/
def deriveEnvelopeKey (sharedSecret context : Bytes) : Bytes :=
  c.hkdf envelopeHkdfSalt sharedSecret context

/-- The ephemeral secret and the nonce are drawn at random; here they are
given. -/
def sealKeyEnvelope (state : AccessState) (visibility : KeyVisibility) (keyId : KeyId)
    (generation : UInt64) (workspaceKey : Key32) (sender : DeviceIdentity)
    (senderRecord recipient : DeviceRecord) (createdAt : UnixTimestamp) (ephemeralSecret : Key32)
    (nonce : EnvelopeNonce) : Except AccessError KeyEnvelope := do
  sender.validate c
  (senderRecord.validate c.toCrypto).mapError .protocol
  (recipient.validate c.toCrypto).mapError .protocol
  requireIdentityMatchesRecord sender senderRecord
  authorizeKeyDelivery state visibility keyId generation senderRecord.deviceId recipient.deviceId
  let sharedSecret := c.diffieHellman ephemeralSecret recipient.exchangePublicKey
  let envelope : KeyEnvelope :=
    { workspaceId := state.workspaceId, keyId, keyGeneration := generation,
      accessRevision := state.revision, senderDeviceId := senderRecord.deviceId,
      recipientDeviceId := recipient.deviceId, algorithm := .x25519HkdfSha256XChaCha20Poly1305,
      senderEphemeralPublicKey := c.exchangePublic ephemeralSecret, nonce,
      encryptedWorkspaceKey := [], createdAt, signature := [] }
  let context := envelope.contextBytes
  let encrypted := c.encrypt (deriveEnvelopeKey c sharedSecret context) nonce.val context workspaceKey.val
  let envelope := { envelope with encryptedWorkspaceKey := encrypted }
  let signature ← sender.sign c envelope.signingPayload
  return { envelope with signature }

abbrev workspaceKeySize : ℕ := 32

def openKeyEnvelope (state : AccessState) (visibility : KeyVisibility) (envelope : KeyEnvelope)
    (recipient : DeviceIdentity) (recipientRecord senderRecord : DeviceRecord) :
    Except AccessError Key32 := do
  require (envelope.workspaceId = state.workspaceId)
    (.workspaceMismatch state.workspaceId envelope.workspaceId)
  require (envelope.accessRevision ≤ state.revision)
    (.accessStateTooOld state.revision envelope.accessRevision)
  recipient.validate c
  (recipientRecord.validate c.toCrypto).mapError .protocol
  (senderRecord.validate c.toCrypto).mapError .protocol
  requireIdentityMatchesRecord recipient recipientRecord
  require (envelope.recipientDeviceId = recipientRecord.deviceId)
    (.wrongEnvelopeRecipient recipientRecord.deviceId envelope.recipientDeviceId)
  authorizeKeyDelivery state visibility envelope.keyId envelope.keyGeneration senderRecord.deviceId
    recipientRecord.deviceId
  (envelope.verifySenderSignature c.toCrypto senderRecord).mapError .protocol
  let sharedSecret := c.diffieHellman recipient.exchangePrivateKey envelope.senderEphemeralPublicKey
  let context := envelope.contextBytes
  let decrypted ← okOr
    (c.decrypt (deriveEnvelopeKey c sharedSecret context) envelope.nonce.val context
      envelope.encryptedWorkspaceKey) .envelopeDecryptionFailed
  if h : decrypted.length = workspaceKeySize then return ⟨decrypted, h⟩
  else throw (.invalidWorkspaceKeyLength workspaceKeySize decrypted.length)

end Identity

/-! ### What sealing gives -/

section Seal

variable {c : EnvelopeCrypto}

theorem DeviceIdentity.sign_ok {identity : DeviceIdentity} {payload signature : Bytes}
    (h : identity.sign c payload = .ok signature) :
    signature = c.sign identity.signingPrivateKey (deviceSignaturePayload payload) := by
  simp only [DeviceIdentity.sign, Except.bind_unit_ok] at h
  cases h.2
  rfl

/-- What an identity signs, its record verifies. -/
theorem verifySignature_sign (hc : c.Ideal) {identity : DeviceIdentity} {record : DeviceRecord}
    {payload signature : Bytes} (hidentity : identity.validate c = .ok ())
    (hkey : identity.signingPublicKey = record.signingPublicKey)
    (hrecord : record.validate c.toCrypto = .ok ())
    (hsign : identity.sign c payload = .ok signature) :
    record.verifySignature c.toCrypto payload signature = .ok () := by
  have hsig := DeviceIdentity.sign_ok hsign
  simp only [DeviceIdentity.validate, Except.bind_unit_ok, require_ok] at hidentity
  simp only [DeviceRecord.verifySignature, Except.bind_unit_ok, require_ok]
  subst hsig
  have hverify := hc.verify_sign identity.signingPrivateKey (deviceSignaturePayload payload)
  rw [hidentity.1, hkey] at hverify
  exact ⟨hrecord, hc.sign_length _ _, hverify⟩

/-- The parts of a sealed envelope. -/
structure Sealed (c : EnvelopeCrypto) (state : AccessState) (keyId : KeyId) (generation : UInt64)
    (workspaceKey : Key32) (sender : DeviceIdentity) (senderRecord recipient : DeviceRecord)
    (envelope : KeyEnvelope) : Prop where
  workspace : envelope.workspaceId = state.workspaceId
  key : envelope.keyId = keyId ∧ envelope.keyGeneration = generation
  revision : envelope.accessRevision = state.revision
  sender_eq : envelope.senderDeviceId = senderRecord.deviceId
  recipient_eq : envelope.recipientDeviceId = recipient.deviceId
  identity : sender.validate c = .ok () ∧ sender.signingPublicKey = senderRecord.signingPublicKey
  signed : sender.sign c envelope.signingPayload = .ok envelope.signature
  encrypted : ∃ ephemeralSecret, envelope.senderEphemeralPublicKey = c.exchangePublic ephemeralSecret ∧
    envelope.encryptedWorkspaceKey = c.encrypt
      (deriveEnvelopeKey c (c.diffieHellman ephemeralSecret recipient.exchangePublicKey)
        envelope.contextBytes) envelope.nonce.val envelope.contextBytes workspaceKey.val

theorem sealKeyEnvelope_ok {state : AccessState} {visibility : KeyVisibility} {keyId : KeyId}
    {generation : UInt64} {workspaceKey ephemeralSecret : Key32} {sender : DeviceIdentity}
    {senderRecord recipient : DeviceRecord} {createdAt : UnixTimestamp} {nonce : EnvelopeNonce}
    {envelope : KeyEnvelope}
    (h : sealKeyEnvelope c state visibility keyId generation workspaceKey sender senderRecord recipient
      createdAt ephemeralSecret nonce = .ok envelope) :
    Sealed c state keyId generation workspaceKey sender senderRecord recipient envelope := by
  simp only [sealKeyEnvelope, requireIdentityMatchesRecord, Except.bind_ok, require_ok] at h
  obtain ⟨_, hsender, _, _, _, _, _, ⟨_, hkey, _⟩, _, _, signature, hsign, hout⟩ := h
  cases hout
  exact ⟨rfl, ⟨rfl, rfl⟩, rfl, rfl, rfl, ⟨hsender, hkey⟩, hsign, ephemeralSecret, rfl, rfl⟩

/-- Sealing succeeds when its checks do. -/
theorem sealKeyEnvelope_succeeds {state : AccessState} {visibility : KeyVisibility} {keyId : KeyId}
    {generation : UInt64} {sender : DeviceIdentity} {senderRecord recipient : DeviceRecord}
    (hsender : sender.validate c = .ok ()) (hsenderRecord : senderRecord.validate c.toCrypto = .ok ())
    (hrecipient : recipient.validate c.toCrypto = .ok ())
    (hmatch : requireIdentityMatchesRecord sender senderRecord = .ok ())
    (hauth : authorizeKeyDelivery state visibility keyId generation senderRecord.deviceId
      recipient.deviceId = .ok ())
    (workspaceKey ephemeralSecret : Key32) (createdAt : UnixTimestamp) (nonce : EnvelopeNonce) :
    ∃ envelope, sealKeyEnvelope c state visibility keyId generation workspaceKey sender senderRecord
      recipient createdAt ephemeralSecret nonce = .ok envelope := by
  have hsign (payload : Bytes) : ∃ signature, sender.sign c payload = .ok signature :=
    ⟨_, by rw [DeviceIdentity.sign, hsender]; rfl⟩
  simp only [sealKeyEnvelope, Except.bind_unit_ok, Except.mapError_ok]
  simp only [Except.bind_ok]
  obtain ⟨signature, hsignature⟩ := hsign _
  exact ⟨_, hsender, hsenderRecord, hrecipient, hmatch, hauth, signature, hsignature, rfl⟩

/-- The sender's record verifies the envelope it sealed. -/
theorem Sealed.verifySenderSignature (hc : c.Ideal) {state : AccessState} {keyId : KeyId}
    {generation : UInt64} {workspaceKey : Key32} {sender : DeviceIdentity}
    {senderRecord recipient record : DeviceRecord} {envelope : KeyEnvelope}
    (h : Sealed c state keyId generation workspaceKey sender senderRecord recipient envelope)
    (hgen : generation ≠ 0) (hid : record.deviceId = senderRecord.deviceId)
    (hkey : record.signingPublicKey = senderRecord.signingPublicKey)
    (hrecord : record.validate c.toCrypto = .ok ()) :
    envelope.verifySenderSignature c.toCrypto record = .ok () := by
  obtain ⟨ephemeralSecret, _, henc⟩ := h.encrypted
  have hverify := verifySignature_sign hc h.identity.1 (h.identity.2.trans hkey.symm) hrecord h.signed
  have hsig : envelope.signature ≠ [] := by
    have hlen := hc.sign_length sender.signingPrivateKey (deviceSignaturePayload envelope.signingPayload)
    rw [← DeviceIdentity.sign_ok h.signed] at hlen
    intro hnil
    rw [hnil] at hlen
    cases hlen
  simp only [KeyEnvelope.verifySenderSignature, KeyEnvelope.validate, Except.bind_unit_ok, require_ok]
  refine ⟨⟨by rw [h.key.2]; exact hgen, ?_, hsig⟩, by rw [hid, h.sender_eq], hverify⟩
  rw [henc]
  exact hc.encrypt_ne_nil _ _ _ _

/-- **An envelope opens to the key that was sealed**, wherever its sender may
still deliver keys and the recipient's record holds the keys it was sealed
for. -/
theorem open_seal (hc : c.Ideal) {state later : AccessState} {visibility : KeyVisibility}
    {keyId : KeyId} {generation : UInt64} {workspaceKey : Key32} {sender recipient : DeviceIdentity}
    {senderRecord recipientRecord senderNow recipientNow : DeviceRecord} {envelope : KeyEnvelope}
    (h : Sealed c state keyId generation workspaceKey sender senderRecord recipientRecord envelope)
    (hgen : generation ≠ 0) (hws : later.workspaceId = state.workspaceId)
    (hrev : state.revision ≤ later.revision)
    (hsender : senderNow.deviceId = senderRecord.deviceId ∧
      senderNow.signingPublicKey = senderRecord.signingPublicKey ∧
      senderNow.validate c.toCrypto = .ok ())
    (hrecipient : recipientNow.deviceId = recipientRecord.deviceId ∧
      recipientNow.exchangePublicKey = recipientRecord.exchangePublicKey ∧
      recipientNow.validate c.toCrypto = .ok ())
    (hidentity : recipient.validate c = .ok ())
    (hmatch : requireIdentityMatchesRecord recipient recipientNow = .ok ())
    (hauth : authorizeKeyDelivery later visibility keyId generation senderNow.deviceId
      recipientNow.deviceId = .ok ()) :
    openKeyEnvelope c later visibility envelope recipient recipientNow senderNow = .ok workspaceKey := by
  obtain ⟨ephemeralSecret, heph, henc⟩ := h.encrypted
  have hverify := h.verifySenderSignature hc hgen hsender.1 hsender.2.1 hsender.2.2
  -- both sides derive the same key
  have hexchange : c.exchangePublic recipient.exchangePrivateKey = recipientRecord.exchangePublicKey := by
    simp only [DeviceIdentity.validate, Except.bind_unit_ok, require_ok] at hidentity
    simp only [requireIdentityMatchesRecord, require_ok] at hmatch
    exact hidentity.2.1.trans (hmatch.2.2.trans hrecipient.2.1)
  have hshared : c.diffieHellman recipient.exchangePrivateKey envelope.senderEphemeralPublicKey =
      c.diffieHellman ephemeralSecret recipientRecord.exchangePublicKey := by
    rw [heph, hc.agree, hexchange]
  have hdecrypt : c.decrypt (deriveEnvelopeKey c
      (c.diffieHellman recipient.exchangePrivateKey envelope.senderEphemeralPublicKey)
        envelope.contextBytes) envelope.nonce.val envelope.contextBytes envelope.encryptedWorkspaceKey =
      some workspaceKey.val := by
    rw [hshared, henc]
    exact hc.decrypt_encrypt _ _ _ _
  simp only [openKeyEnvelope, Except.bind_ok, require_ok, Except.mapError_ok, okOr_ok]
  refine ⟨(), h.workspace.trans hws.symm, (), by rw [h.revision]; exact hrev, (), hidentity, (),
    hrecipient.2.2, (), hsender.2.2, (), hmatch, (), h.recipient_eq.trans hrecipient.1.symm, (),
    by rw [h.key.1, h.key.2]; exact hauth, (), hverify, workspaceKey.val, hdecrypt, ?_⟩
  rw [dif_pos workspaceKey.property]
  rfl

end Seal

end RustSync
