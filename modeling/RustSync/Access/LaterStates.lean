/-
Envelopes in later states

An envelope outlives the state it was sealed in. In a history a device keeps
its keys, so the envelope opens in every later state where its sender may still
deliver keys and its recipient is active, as the devices are recorded there;
and nothing else opens under its signature, in no state at all, since the
signature is over every other field.

Key definitions: `Binds`. Key theorem: `envelope_outlives`.
-/
import RustSync.Access.History
import RustSync.Access.SigningPayload

namespace RustSync

open AccessState

section LaterStates

variable {c : EnvelopeCrypto} {state later : AccessState} {visibility : KeyVisibility} {keyId : KeyId}
  {generation : UInt64} {workspaceKey ephemeralSecret : Key32} {sender recipient : DeviceIdentity}
  {senderRecord recipientRecord senderNow recipientNow : DeviceRecord} {createdAt : UnixTimestamp}
  {nonce : EnvelopeNonce} {envelope tampered : KeyEnvelope}

/-- The signature is of the message, and verifies for no other under any key. -/
def Binds (c : EnvelopeCrypto) (signature message : Bytes) : Prop :=
  ∀ key other, c.ed25519Verify key other signature = true → other = message

/-! ### Who may open -/

theorem requireKeyGrant_of_active {id : DeviceId} (h : state.hasActiveKeyGrant keyId generation id = true) :
    ∃ grant, state.requireKeyGrant keyId generation id = .ok grant := by
  unfold hasActiveKeyGrant at h
  unfold requireKeyGrant
  split at h
  · rename_i grant hgrant
    refine ⟨grant, ?_⟩
    rw [okOr_ok, hgrant, Option.filter_some, if_pos h]
  · cases h

theorem authorizeKeyDelivery_ok {senderId recipientId : DeviceId} (hsender : state.ActiveOwner senderId)
    (hrecipient : state.isActiveMember recipientId = true)
    (hgrant : visibility = .restricted → state.hasActiveKeyGrant keyId generation recipientId = true) :
    authorizeKeyDelivery state visibility keyId generation senderId recipientId = .ok () := by
  unfold authorizeKeyDelivery
  obtain ⟨m, hm⟩ := isActiveMember_iff.mp hrecipient
  have hpermission := (requirePermission_manage (p := .manageKeys) rfl).mpr hsender
  rw [hpermission, activeMembership_ok.mpr hm]
  by_cases hvisibility : visibility = .restricted
  · obtain ⟨grant, hrequired⟩ := requireKeyGrant_of_active (hgrant hvisibility)
    simp only [Except.mapError, bind, Except.bind]
    rw [if_pos hvisibility, hrequired]
    rfl
  · simp only [Except.mapError, bind, Except.bind]
    rw [if_neg hvisibility]
    rfl

/-- The record of a device in a later state holds the keys it had. -/
theorem later_record (hwf : WellFormed c.toCrypto later) (hext : Extends state later) {id : DeviceId}
    {record recordNow : DeviceRecord} (hrecord : state.deviceRecord id = some record)
    (hnow : later.deviceRecord id = some recordNow) :
    recordNow.deviceId = id ∧ recordNow.validate c.toCrypto = .ok () ∧
      recordNow.signingPublicKey = record.signingPublicKey ∧
      recordNow.exchangePublicKey = record.exchangePublicKey := by
  obtain ⟨recordLater, hlater, hidentity⟩ := hext.identity id record hrecord
  have hsame : recordLater = recordNow := Option.some.inj (hlater.symm.trans hnow)
  subst hsame
  obtain ⟨hid, hvalid, _⟩ := hwf.device id recordLater hlater
  simp only [DeviceRecord.identity, Prod.mk.injEq] at hidentity
  exact ⟨hid, hvalid, hidentity.1, hidentity.2.1⟩

/-! ### What an envelope is opened by -/

/-- An envelope that opens bears a signature of its own payload. -/
theorem openKeyEnvelope_verified {key : Key32}
    (h : openKeyEnvelope c later visibility tampered recipient recipientNow senderNow = .ok key) :
    c.ed25519Verify senderNow.signingPublicKey.val (deviceSignaturePayload tampered.signingPayload)
      tampered.signature = true := by
  simp only [openKeyEnvelope, Except.bind_ok, Except.mapError_ok, require_ok] at h
  obtain ⟨_, _, _, _, _, _, _, _, _, _, _, _, _, _, _, _, _, hverify, _⟩ := h
  simp only [KeyEnvelope.verifySenderSignature, DeviceRecord.verifySignature, Except.bind_unit_ok, require_ok]
    at hverify
  exact hverify.2.2.2.2

/-- Only the sealed envelope opens under its signature. -/
theorem tampered_refused (hbinds : Binds c envelope.signature (deviceSignaturePayload envelope.signingPayload))
    (hsignature : tampered.signature = envelope.signature) (hne : tampered ≠ envelope) :
    ∃ e, openKeyEnvelope c later visibility tampered recipient recipientNow senderNow = .error e := by
  cases hopen : openKeyEnvelope c later visibility tampered recipient recipientNow senderNow with
  | error e => exact ⟨e, rfl⟩
  | ok key =>
    have hverify := openKeyEnvelope_verified hopen
    rw [hsignature] at hverify
    have hpayload := deviceSignaturePayload_injective (hbinds _ _ hverify)
    have hfields := keyEnvelope_injective hpayload
    exfalso
    apply hne
    cases tampered
    cases envelope
    simp only [KeyEnvelope.mk.injEq] at hfields hsignature ⊢
    exact ⟨hfields.1, hfields.2.1, hfields.2.2.1, hfields.2.2.2.1, hfields.2.2.2.2.1, hfields.2.2.2.2.2.1,
      hfields.2.2.2.2.2.2.1, hfields.2.2.2.2.2.2.2.1, hfields.2.2.2.2.2.2.2.2.1, hfields.2.2.2.2.2.2.2.2.2.1,
      hfields.2.2.2.2.2.2.2.2.2.2.1, hsignature⟩

/-- **An envelope outlives its state.** It opens to the sealed key in every
later state in which its sender is an active owner and its recipient active,
with a grant where the key is restricted; and nothing else opens under its
signature. -/
theorem envelope_outlives (hc : c.Ideal) {ws : WorkspaceId} {events : List SignedAccessEvent}
    (hstate : state = history c.toCrypto (.empty ws) events) (hgeneration : generation ≠ 0)
    (hsender : state.deviceRecord senderRecord.deviceId = some senderRecord)
    (hrecipient : state.deviceRecord recipientRecord.deviceId = some recipientRecord)
    (hseal : sealKeyEnvelope c state visibility keyId generation workspaceKey sender senderRecord recipientRecord
      createdAt ephemeralSecret nonce = .ok envelope)
    (hidentity : recipient.validate c = .ok ())
    (hmatch : requireIdentityMatchesRecord recipient recipientRecord = .ok ())
    (hbinds : Binds c envelope.signature (deviceSignaturePayload envelope.signingPayload)) :
    (∀ more later, later = history c.toCrypto state more → later.ActiveOwner senderRecord.deviceId →
      later.isActiveMember recipientRecord.deviceId = true →
      (visibility = .restricted → later.hasActiveKeyGrant keyId generation recipientRecord.deviceId = true) →
      ∀ senderNow recipientNow, later.deviceRecord senderRecord.deviceId = some senderNow →
        later.deviceRecord recipientRecord.deviceId = some recipientNow →
        openKeyEnvelope c later visibility envelope recipient recipientNow senderNow = .ok workspaceKey) ∧
    ∀ tampered : KeyEnvelope, tampered.signature = envelope.signature → tampered ≠ envelope →
      ∀ later visibility recipient recipientNow senderNow,
        ∃ e, openKeyEnvelope c later visibility tampered recipient recipientNow senderNow = .error e := by
  refine ⟨fun more later hlater howner hactive hgrant senderNow recipientNow hsenderNow hrecipientNow => ?_,
    fun tampered hsignature hne later visibility recipient recipientNow senderNow =>
      tampered_refused hbinds hsignature hne⟩
  have hwf : WellFormed c.toCrypto state := by
    rw [hstate]
    exact (WellFormed.history events (wellFormed_empty ws)).1
  obtain ⟨hwfLater, hext⟩ := WellFormed.history more hwf
  rw [← hlater] at hwfLater hext
  obtain ⟨hsenderId, hsenderValid, hsenderKey, _⟩ := later_record hwfLater hext hsender hsenderNow
  obtain ⟨hrecipientId, hrecipientValid, hrecipientSigning, hrecipientExchange⟩ :=
    later_record hwfLater hext hrecipient hrecipientNow
  have hmatchNow : requireIdentityMatchesRecord recipient recipientNow = .ok () := by
    unfold requireIdentityMatchesRecord at hmatch ⊢
    rw [require_ok] at hmatch ⊢
    rw [hrecipientId, hrecipientSigning, hrecipientExchange]
    exact hmatch
  apply open_seal hc (sealKeyEnvelope_ok hseal) hgeneration hext.workspace hext.revision
    ⟨hsenderId, hsenderKey, hsenderValid⟩ ⟨hrecipientId, hrecipientExchange, hrecipientValid⟩ hidentity hmatchNow
  rw [hsenderId, hrecipientId]
  exact authorizeKeyDelivery_ok howner hactive hgrant

end LaterStates

/-! ### Two owners and a newcomer

The first owner seals a key for a device that joined. The primitives are as
they are on what the runs hold; elsewhere any function does. -/

section Sample

open Codec (sampleWorkspace)

def bytes32 (n : UInt8) : Key32 := ⟨List.replicate 32 n, List.length_replicate⟩

/-- The identity of a device with its keys. -/
def identityOf (deviceId : DeviceId) (signing exchange : UInt8) (signingPublicKey exchangePublicKey : Key32) :
    DeviceIdentity where
  deviceId := deviceId
  deviceName := "laptop"
  signingPublicKey := signingPublicKey
  signingPrivateKey := bytes32 signing
  exchangePublicKey := exchangePublicKey
  exchangePrivateKey := bytes32 exchange

def firstOwner : DeviceIdentity :=
  identityOf ⟨"device_first", by decide⟩ 1 4
    ⟨[138, 136, 227, 221, 116, 9, 241, 149, 253, 82, 219, 45, 60, 186, 93, 114, 202, 103, 9, 191,
      29, 148, 18, 27, 243, 116, 136, 1, 180, 15, 111, 92], rfl⟩
    ⟨[172, 1, 178, 32, 158, 134, 53, 79, 184, 83, 35, 123, 93, 224, 244, 250, 177, 60, 127, 203,
      244, 51, 166, 28, 1, 147, 105, 97, 127, 236, 241, 11], rfl⟩

def secondOwner : DeviceIdentity :=
  identityOf ⟨"device_second", by decide⟩ 2 5
    ⟨[129, 57, 119, 14, 168, 125, 23, 95, 86, 163, 84, 102, 195, 76, 126, 204, 203, 141, 138,
      145, 180, 238, 55, 162, 93, 246, 15, 91, 143, 201, 179, 148], rfl⟩
    ⟨[80, 166, 20, 9, 177, 221, 208, 50, 94, 155, 22, 183, 0, 231, 25, 233, 119, 44, 7, 0, 11,
      27, 215, 120, 110, 144, 124, 101, 61, 32, 73, 93], rfl⟩

theorem newcomer_valid : validateTextId deviceIdKind "device_new" = .ok () := by decide

def newcomer : DeviceIdentity :=
  identityOf ⟨"device_new", newcomer_valid⟩ 3 6
    ⟨[237, 73, 40, 198, 40, 209, 194, 198, 234, 233, 3, 56, 144, 89, 149, 97, 41, 89, 39, 58, 92,
      99, 249, 54, 54, 193, 70, 20, 172, 135, 55, 209], rfl⟩
    ⟨[245, 178, 214, 230, 15, 148, 119, 227, 16, 194, 152, 45, 170, 166, 201, 19, 108, 16, 138,
      23, 119, 197, 148, 126, 68, 143, 163, 125, 104, 23, 69, 87], rfl⟩

/-- The public key of the ephemeral secret `bytes32 7`. -/
def ephemeralPublic : Key32 :=
  ⟨[19, 190, 79, 234, 234, 242, 4, 199, 253, 51, 88, 252, 156, 0, 114, 24, 129, 209, 116, 39,
    129, 40, 34, 126, 198, 116, 243, 127, 127, 233, 123, 109], rfl⟩

def recordOf (identity : DeviceIdentity) (fingerprint : String) (status : DeviceStatus) : DeviceRecord where
  deviceId := identity.deviceId
  deviceName := identity.deviceName
  signingPublicKey := identity.signingPublicKey
  exchangePublicKey := identity.exchangePublicKey
  fingerprint := fingerprint
  status := status

def newRecord : DeviceRecord := recordOf newcomer "OIQW-9IVH-1ANA-PA" .pending

def newRequestId : JoinRequestId := ⟨"join_new", by decide⟩

/-- An event before it is signed. -/
def unsignedEvent (eventId : AccessEventId) (expectedRevision : UInt64) (actor : DeviceIdentity)
    (event : AccessEvent) : SignedAccessEvent where
  eventId := eventId
  workspaceId := sampleWorkspace
  expectedRevision := expectedRevision
  actorDeviceId := actor.deviceId
  createdAt := ⟨1000⟩
  event := event
  signature := []

def firstCreates : SignedAccessEvent :=
  unsignedEvent Codec.sampleEventId 0 firstOwner
    (.workspaceCreated (recordOf firstOwner "J-RZ-4KC--YP1O-DW" .active))

theorem secondJoins_valid : validateTextId accessEventIdKind "event_2" = .ok () := by decide

def secondJoins : SignedAccessEvent :=
  unsignedEvent ⟨"event_2", secondJoins_valid⟩ 1 firstOwner
    (.deviceJoined ⟨"join_second", by decide⟩ (recordOf secondOwner "OXZV-T5GA-DFSP-NA" .pending) .owner)

def newJoins : SignedAccessEvent :=
  unsignedEvent ⟨"event_join_new", by decide⟩ 2 firstOwner (.deviceJoined newRequestId newRecord .member)

def firstDemoted : SignedAccessEvent :=
  unsignedEvent ⟨"event_4", by decide⟩ 3 secondOwner (.deviceRoleChanged firstOwner.deviceId .member)

def secondDemoted : SignedAccessEvent :=
  unsignedEvent ⟨"event_5", by decide⟩ 3 firstOwner (.deviceRoleChanged secondOwner.deviceId .member)

def newRequest : DeviceJoinRequest where
  requestId := newRequestId
  workspaceId := sampleWorkspace
  device := newRecord
  createdAt := ⟨1000⟩
  signature := []

/-- The envelope before it is encrypted and signed. -/
def openEnvelope : KeyEnvelope where
  workspaceId := sampleWorkspace
  keyId := systemKeyId
  keyGeneration := 1
  accessRevision := 3
  senderDeviceId := firstOwner.deviceId
  recipientDeviceId := newcomer.deviceId
  algorithm := .x25519HkdfSha256XChaCha20Poly1305
  senderEphemeralPublicKey := ephemeralPublic
  nonce := ⟨List.replicate 24 8, List.length_replicate⟩
  encryptedWorkspaceKey := []
  createdAt := ⟨1000⟩
  signature := []

def ciphertext : Bytes :=
  [154, 42, 94, 223, 255, 125, 107, 76, 74, 112, 93, 24, 204, 57, 248, 111, 37, 205, 92, 176, 64,
  106, 72, 40, 102, 144, 6, 3, 123, 189, 129, 62, 122, 38, 175, 207, 171, 170, 44, 182, 202, 163,
  252, 114, 169, 185, 247, 226]

/-- The secret the ephemeral key and the newcomer's share. -/
def sharedSecret : Bytes :=
  [56, 27, 217, 63, 155, 107, 107, 147, 21, 58, 48, 35, 143, 39, 17, 78, 225, 170, 156, 90, 149,
  5, 4, 241, 176, 81, 48, 135, 85, 93, 16, 3]

def envelopeKey : Bytes :=
  [155, 232, 250, 138, 212, 194, 174, 41, 107, 212, 84, 167, 83, 118, 18, 245, 202, 233, 148, 184,
  245, 226, 41, 114, 11, 4, 48, 180, 173, 146, 198, 122]

/-- Ed25519, by public key. -/
def signatureOf (key : Bytes) (message : Bytes) : Bytes :=
  if (key, message) =
      (firstOwner.signingPublicKey.val, deviceSignaturePayload firstCreates.signingPayload) then
    [85, 221, 141, 176, 69, 251, 2, 248, 14, 23, 53, 132, 56, 218, 129, 30, 219, 19, 208, 165,
    180, 126, 229, 4, 157, 121, 28, 26, 253, 127, 135, 115, 121, 116, 247, 0, 126, 249, 247, 160,
    47, 218, 120, 87, 238, 184, 79, 155, 246, 122, 73, 169, 249, 145, 147, 102, 216, 136, 205,
    16, 81, 63, 202, 2]
  else if (key, message) =
      (firstOwner.signingPublicKey.val, deviceSignaturePayload secondJoins.signingPayload) then
    [49, 225, 223, 91, 251, 162, 148, 79, 5, 176, 56, 122, 141, 243, 63, 161, 206, 0, 1, 202, 10,
    114, 69, 189, 139, 9, 113, 82, 171, 134, 115, 178, 163, 10, 37, 26, 23, 173, 200, 34, 245,
    60, 209, 181, 136, 86, 14, 25, 243, 153, 42, 117, 183, 168, 148, 165, 88, 177, 165, 118, 50,
    164, 249, 11]
  else if (key, message) =
      (firstOwner.signingPublicKey.val, deviceSignaturePayload newJoins.signingPayload) then
    [185, 132, 141, 36, 230, 87, 131, 171, 81, 133, 67, 14, 118, 126, 232, 58, 31, 188, 88, 84,
    148, 52, 113, 96, 204, 97, 174, 33, 32, 52, 179, 15, 196, 143, 133, 57, 148, 185, 141, 218,
    2, 230, 73, 51, 159, 234, 39, 131, 80, 68, 24, 1, 73, 153, 214, 0, 118, 10, 234, 84, 23, 83,
    59, 9]
  else if (key, message) =
      (secondOwner.signingPublicKey.val, deviceSignaturePayload firstDemoted.signingPayload) then
    [84, 81, 120, 90, 118, 20, 112, 238, 137, 109, 17, 6, 220, 103, 240, 15, 81, 43, 158, 75, 159,
    66, 160, 109, 24, 88, 245, 193, 5, 136, 48, 96, 78, 73, 245, 142, 215, 24, 63, 30, 171, 164,
    7, 208, 164, 79, 90, 16, 188, 181, 56, 113, 134, 94, 38, 214, 48, 3, 32, 191, 119, 213, 8, 13]
  else if (key, message) =
      (firstOwner.signingPublicKey.val, deviceSignaturePayload secondDemoted.signingPayload) then
    [19, 22, 110, 52, 71, 183, 165, 83, 151, 199, 231, 71, 43, 245, 37, 247, 53, 165, 207, 142, 38,
    61, 234, 23, 115, 190, 199, 217, 7, 81, 155, 40, 248, 202, 194, 191, 101, 126, 124, 64, 88, 201,
    90, 162, 11, 204, 148, 184, 201, 211, 51, 247, 103, 157, 101, 203, 34, 243, 79, 228, 213, 226,
    240, 3]
  else if (key, message) =
      (newcomer.signingPublicKey.val, deviceSignaturePayload newRequest.signingPayload) then
    [81, 6, 128, 172, 241, 194, 48, 43, 94, 32, 194, 145, 251, 223, 51, 69, 20, 117, 156, 250,
    246, 213, 17, 83, 61, 247, 11, 146, 37, 149, 121, 172, 61, 150, 232, 219, 170, 133, 89, 209,
    17, 80, 200, 172, 192, 117, 59, 254, 189, 90, 100, 198, 122, 31, 63, 138, 31, 229, 223, 125,
    218, 50, 110, 14]
  else if (key, message) = (firstOwner.signingPublicKey.val,
      deviceSignaturePayload ({ openEnvelope with encryptedWorkspaceKey := ciphertext }).signingPayload) then
    [18, 170, 26, 151, 151, 111, 160, 78, 8, 112, 251, 174, 88, 84, 117, 224, 32, 200, 19, 18,
    213, 48, 206, 153, 19, 174, 22, 111, 136, 132, 142, 194, 52, 149, 178, 227, 165, 29, 75, 51,
    124, 85, 108, 127, 74, 214, 235, 28, 142, 201, 187, 0, 167, 146, 170, 50, 76, 160, 143, 135,
    54, 9, 220, 1]
  else List.replicate 64 0

/-- X25519, by the two public keys. -/
def sharedBetween (p q : Key32) : Bytes :=
  if (p, q) = (ephemeralPublic, newcomer.exchangePublicKey) ∨
      (q, p) = (ephemeralPublic, newcomer.exchangePublicKey) then
    sharedSecret
  else []

def exchangePublicOf (secret : Key32) : Key32 :=
  if secret = bytes32 4 then firstOwner.exchangePublicKey
  else if secret = bytes32 5 then secondOwner.exchangePublicKey
  else if secret = bytes32 6 then newcomer.exchangePublicKey
  else if secret = bytes32 7 then ephemeralPublic
  else secret

def ownersCrypto : EnvelopeCrypto where
  sha256 bytes :=
    if bytes = firstOwner.signingPublicKey.val ++ firstOwner.exchangePublicKey.val then
      [39, 234, 217, 226, 64, 190, 202, 157, 78, 15, 220, 63, 186, 17, 251, 223, 38, 15, 33, 83,
      38, 94, 169, 242, 203, 166, 47, 199, 91, 124, 173, 52]
    else if bytes = secondOwner.signingPublicKey.val ++ secondOwner.exchangePublicKey.val then
      [59, 22, 111, 79, 152, 0, 116, 91, 41, 156, 250, 147, 102, 137, 61, 90, 32, 177, 46, 252,
      28, 165, 44, 107, 94, 192, 16, 152, 152, 107, 96, 248]
    else if bytes = newcomer.signingPublicKey.val ++ newcomer.exchangePublicKey.val then
      [58, 36, 22, 246, 43, 199, 212, 9, 218, 164, 108, 15, 74, 94, 244, 170, 7, 66, 21, 151, 148,
      73, 108, 106, 220, 106, 44, 33, 159, 254, 185, 124]
    else []
  validVerifyingKey _ := true
  ed25519Verify key message signature := signature = signatureOf key message
  signingPublic secret :=
    if secret = bytes32 1 then firstOwner.signingPublicKey
    else if secret = bytes32 2 then secondOwner.signingPublicKey
    else if secret = bytes32 3 then newcomer.signingPublicKey
    else secret
  sign secret message := signatureOf (
    if secret = bytes32 1 then firstOwner.signingPublicKey
    else if secret = bytes32 2 then secondOwner.signingPublicKey
    else if secret = bytes32 3 then newcomer.signingPublicKey
    else secret).val message
  exchangePublic := exchangePublicOf
  diffieHellman secret key := sharedBetween (exchangePublicOf secret) key
  hkdf salt secret info :=
    if (salt, secret, info) = (envelopeHkdfSalt, sharedSecret, openEnvelope.contextBytes) then envelopeKey
    else []
  encrypt key nonce aad message :=
    if (key, nonce, aad, message) =
        (envelopeKey, openEnvelope.nonce.val, openEnvelope.contextBytes, (bytes32 9).val) then ciphertext
    else message ++ [0]
  decrypt key nonce aad encrypted :=
    if (key, nonce, aad, encrypted) =
        (envelopeKey, openEnvelope.nonce.val, openEnvelope.contextBytes, ciphertext) then
      some (bytes32 9).val
    else some encrypted.dropLast

theorem signatureOf_length (key message : Bytes) : (signatureOf key message).length = 64 := by
  unfold signatureOf
  split
  · rfl
  · split
    · rfl
    · split
      · rfl
      · split
        · rfl
        · split
          · rfl
          · split
            · rfl
            · split
              · rfl
              · exact List.length_replicate

theorem sharedBetween_comm (p q : Key32) : sharedBetween p q = sharedBetween q p := by
  unfold sharedBetween
  simp only [Or.comm]

theorem ownersCrypto_ideal : ownersCrypto.Ideal where
  sign_length _ _ := signatureOf_length _ _
  verify_sign _ _ := decide_eq_true rfl
  agree a b := sharedBetween_comm _ _
  decrypt_encrypt key nonce aad message := by
    by_cases h : (key, nonce, aad, message) =
        (envelopeKey, openEnvelope.nonce.val, openEnvelope.contextBytes, (bytes32 9).val)
    · have hencrypt : ownersCrypto.encrypt key nonce aad message = ciphertext := if_pos h
      have hdecrypt : ownersCrypto.decrypt key nonce aad ciphertext = some (bytes32 9).val :=
        if_pos (congrArg (fun q : Bytes × Bytes × Bytes × Bytes => (q.1, q.2.1, q.2.2.1, ciphertext)) h)
      rw [hencrypt, hdecrypt]
      exact congrArg (fun q : Bytes × Bytes × Bytes × Bytes => some q.2.2.2) h.symm
    · have hencrypt : ownersCrypto.encrypt key nonce aad message = message ++ [0] := if_neg h
      -- the ciphertext ends in another byte
      have hne : message ++ [0] ≠ ciphertext := by
        intro heq
        have hlast := congrArg List.getLast? heq
        rw [List.getLast?_concat] at hlast
        exact absurd hlast (by decide +kernel)
      have hdecrypt : ownersCrypto.decrypt key nonce aad (message ++ [0]) = some (message ++ [0]).dropLast :=
        if_neg fun h' => hne (congrArg (fun q : Bytes × Bytes × Bytes × Bytes => q.2.2.2) h')
      rw [hencrypt, hdecrypt, List.dropLast_concat]
  encrypt_ne_nil key nonce aad message := by
    by_cases h : (key, nonce, aad, message) =
        (envelopeKey, openEnvelope.nonce.val, openEnvelope.contextBytes, (bytes32 9).val)
    · have hencrypt : ownersCrypto.encrypt key nonce aad message = ciphertext := if_pos h
      rw [hencrypt]
      exact List.cons_ne_nil _ _
    · have hencrypt : ownersCrypto.encrypt key nonce aad message = message ++ [0] := if_neg h
      rw [hencrypt]
      exact List.append_ne_nil_of_right_ne_nil _ (List.cons_ne_nil _ _)

def signedBy (identity : DeviceIdentity) (event : SignedAccessEvent) : SignedAccessEvent :=
  { event with
    signature := signatureOf identity.signingPublicKey.val (deviceSignaturePayload event.signingPayload) }

/-- The first owner created the workspace and let the second join as an owner. -/
def ownersState : AccessState :=
  history ownersCrypto.toCrypto (.empty sampleWorkspace)
    [signedBy firstOwner firstCreates, signedBy firstOwner secondJoins]

/-- The newcomer joined. -/
def joinedState : AccessState :=
  history ownersCrypto.toCrypto (.empty sampleWorkspace)
    [signedBy firstOwner firstCreates, signedBy firstOwner secondJoins, signedBy firstOwner newJoins]

def encryptedEnvelope : KeyEnvelope := { openEnvelope with encryptedWorkspaceKey := ciphertext }

/-- The envelope as it is sent. -/
def sentEnvelope : KeyEnvelope :=
  { encryptedEnvelope with
    signature := signatureOf firstOwner.signingPublicKey.val (deviceSignaturePayload encryptedEnvelope.signingPayload) }

def firstRecord : DeviceRecord := recordOf firstOwner "J-RZ-4KC--YP1O-DW" .active

theorem sentEnvelope_sealed : sealKeyEnvelope ownersCrypto joinedState .shared systemKeyId 1 (bytes32 9) firstOwner
    firstRecord newRecord.activate ⟨1000⟩ (bytes32 7) openEnvelope.nonce = .ok sentEnvelope := by
  decide +kernel

theorem ownersCrypto_verify {key message signature : Bytes} :
    ownersCrypto.ed25519Verify key message signature = true ↔ signature = signatureOf key message :=
  decide_eq_true_iff

theorem sentEnvelope_signature : sentEnvelope.signature =
    [18, 170, 26, 151, 151, 111, 160, 78, 8, 112, 251, 174, 88, 84, 117, 224, 32, 200, 19, 18,
    213, 48, 206, 153, 19, 174, 22, 111, 136, 132, 142, 194, 52, 149, 178, 227, 165, 29, 75, 51,
    124, 85, 108, 127, 74, 214, 235, 28, 142, 201, 187, 0, 167, 146, 170, 50, 76, 160, 143, 135,
    54, 9, 220, 1] := by
  decide +kernel

theorem signingPayload_withSignature (envelope : KeyEnvelope) (signature : Bytes) :
    ({ envelope with signature }).signingPayload = envelope.signingPayload := rfl

theorem sentEnvelope_payload : sentEnvelope.signingPayload = encryptedEnvelope.signingPayload :=
  signingPayload_withSignature encryptedEnvelope _

/-- The signatures of the other messages are others. -/
theorem sentEnvelope_binds :
    Binds ownersCrypto sentEnvelope.signature (deviceSignaturePayload sentEnvelope.signingPayload) := by
  intro key other hverify
  rw [ownersCrypto_verify, sentEnvelope_signature] at hverify
  rw [sentEnvelope_payload]
  unfold signatureOf at hverify
  split at hverify
  · exact absurd hverify (by decide)
  · split at hverify
    · exact absurd hverify (by decide)
    · split at hverify
      · exact absurd hverify (by decide)
      · split at hverify
        · exact absurd hverify (by decide)
        · split at hverify
          · exact absurd hverify (by decide)
          · split at hverify
            · exact absurd hverify (by decide)
            · split at hverify
              · rename_i hmessage
                exact congrArg Prod.snd hmessage
              · exact absurd hverify (by decide)

/-- The first owner took the second's role. -/
def demotedState : AccessState := history ownersCrypto.toCrypto joinedState [signedBy firstOwner secondDemoted]

/-- The newcomer opens the envelope after a later event, and no other. -/
theorem sentEnvelope_outlives : demotedState.revision = 4 ∧
    openKeyEnvelope ownersCrypto demotedState .shared sentEnvelope newcomer newRecord.activate firstRecord =
      .ok (bytes32 9) ∧
    ∀ tampered : KeyEnvelope, tampered.signature = sentEnvelope.signature → tampered ≠ sentEnvelope →
      ∃ e, openKeyEnvelope ownersCrypto demotedState .shared tampered newcomer newRecord.activate firstRecord =
        .error e := by
  have hsender : joinedState.deviceRecord firstRecord.deviceId = some firstRecord := by decide +kernel
  have hrecipient : joinedState.deviceRecord newRecord.activate.deviceId = some newRecord.activate := by
    decide +kernel
  have hsenderNow : demotedState.deviceRecord firstRecord.deviceId = some firstRecord := by decide +kernel
  have hrecipientNow : demotedState.deviceRecord newRecord.activate.deviceId = some newRecord.activate := by
    decide +kernel
  have howner : demotedState.requirePermission firstRecord.deviceId .manageKeys = .ok () := by decide +kernel
  have hactive : demotedState.isActiveMember newRecord.activate.deviceId = true := by decide +kernel
  have hidentity : newcomer.validate ownersCrypto = .ok () := by decide +kernel
  have hmatch : requireIdentityMatchesRecord newcomer newRecord.activate = .ok () := by decide +kernel
  have hstate : joinedState = history ownersCrypto.toCrypto (.empty sampleWorkspace)
      [signedBy firstOwner firstCreates, signedBy firstOwner secondJoins, signedBy firstOwner newJoins] := by
    unfold joinedState
    rfl
  have hlater : demotedState = history ownersCrypto.toCrypto joinedState [signedBy firstOwner secondDemoted] := by
    unfold demotedState
    rfl
  obtain ⟨hopens, hrefused⟩ := envelope_outlives ownersCrypto_ideal hstate (by decide) hsender hrecipient
    sentEnvelope_sealed hidentity hmatch sentEnvelope_binds
  refine ⟨by decide +kernel, ?_, fun tampered hsignature hne => hrefused tampered hsignature hne _ _ _ _ _⟩
  have hnone : KeyVisibility.shared = .restricted → demotedState.hasActiveKeyGrant systemKeyId 1
      newRecord.activate.deviceId = true := fun hvisibility => nomatch hvisibility
  exact hopens [signedBy firstOwner secondDemoted] demotedState hlater
    ((requirePermission_manage (p := .manageKeys) rfl).mp howner) hactive hnone _ _ hsenderNow hrecipientNow

end Sample

end RustSync
