/-
How a key envelope is written

The fields of an envelope in the order serde derives, and their round trip
through JSON: what an owner uploads is what the recipient reads.

Key definitions: `serKeyEnvelope`, `decodeKeyEnvelope`. Key theorem:
`keyEnvelope_roundTrips`.
-/
import RustSync.Access.Codec
import RustSync.Access.Envelope

namespace RustSync.Codec

open Serde

/-- `serde_json`'s name of the one algorithm; reading takes the alias too,
which is the same text. -/
def envelopeAlgorithmName : String := "X25519HkdfSha256XChaCha20Poly1305"

def serEnvelopeAlgorithm : EnvelopeAlgorithm → Ser
  | .x25519HkdfSha256XChaCha20Poly1305 => .str envelopeAlgorithmName

def decodeEnvelopeAlgorithm (d : Doc) : Except DecodeError EnvelopeAlgorithm := do
  let name ← asStr d
  if name = envelopeAlgorithmName then return .x25519HkdfSha256XChaCha20Poly1305
  else throw (.unknownVariant name)

def serBytes (bytes : Bytes) : Ser := .seq (bytes.map .u8)

def decodeBytes (d : Doc) : Except DecodeError Bytes := do
  decodeItems asU8 (← asItems d)

def decodeEnvelopeNonce (d : Doc) : Except DecodeError EnvelopeNonce := do
  let bytes ← decodeItems asU8 (← asItems d)
  if h : bytes.length = 24 then return ⟨bytes, h⟩ else throw .invalidLength

def serKeyEnvelope (envelope : KeyEnvelope) : Ser :=
  .record [("workspace_id", serId envelope.workspaceId), ("key_id", serId envelope.keyId),
    ("key_generation", .u64 envelope.keyGeneration), ("access_revision", .u64 envelope.accessRevision),
    ("sender_device_id", serId envelope.senderDeviceId),
    ("recipient_device_id", serId envelope.recipientDeviceId),
    ("algorithm", serEnvelopeAlgorithm envelope.algorithm),
    ("sender_ephemeral_public_key", serKey32 envelope.senderEphemeralPublicKey),
    ("nonce", serBytes envelope.nonce.val),
    ("encrypted_workspace_key", serBytes envelope.encryptedWorkspaceKey),
    ("created_at", .u64 envelope.createdAt.asSecs), ("signature", serBytes envelope.signature)]

def decodeKeyEnvelope (d : Doc) : Except DecodeError KeyEnvelope := do
  let fields ← asTable d
  let workspaceId ← field fields "workspace_id" (decodeId workspaceIdKind)
  let keyId ← field fields "key_id" (decodeId keyIdKind)
  let keyGeneration ← field fields "key_generation" asU64
  let accessRevision ← field fields "access_revision" asU64
  let senderDeviceId ← field fields "sender_device_id" (decodeId deviceIdKind)
  let recipientDeviceId ← field fields "recipient_device_id" (decodeId deviceIdKind)
  let algorithm ← field fields "algorithm" decodeEnvelopeAlgorithm
  let senderEphemeralPublicKey ← field fields "sender_ephemeral_public_key" decodeKey32
  let nonce ← field fields "nonce" decodeEnvelopeNonce
  let encryptedWorkspaceKey ← field fields "encrypted_workspace_key" decodeBytes
  let createdAt ← field fields "created_at" asU64
  let signature ← field fields "signature" decodeBytes
  return { workspaceId, keyId, keyGeneration, accessRevision, senderDeviceId, recipientDeviceId,
           algorithm, senderEphemeralPublicKey, nonce, encryptedWorkspaceKey, createdAt := ⟨createdAt⟩,
           signature }

variable {f : Format}

theorem envelopeAlgorithm_roundTrips (a : EnvelopeAlgorithm) :
    RoundTrips f serEnvelopeAlgorithm decodeEnvelopeAlgorithm a := by
  cases a
  exact ⟨nofun, nofun, .str _, by rw [serEnvelopeAlgorithm, encode], rfl⟩

/-- Bytes are written as a list of numbers. -/
theorem bytes_written (bytes : Bytes) : ∃ ds, encode f (serBytes bytes) = .ok (.arr ds) ∧
    decodeItems asU8 ds = .ok bytes := by
  have hbytes : ∀ n ∈ bytes, RoundTrips f .u8 asU8 n := fun n _ => u8_roundTrips n
  obtain ⟨ds, hds, hback⟩ := items_roundTrip hbytes
  refine ⟨ds, ?_, hback⟩
  rw [serBytes, encode, hds]
  rfl

theorem bytes_roundTrips (bytes : Bytes) : RoundTrips f serBytes decodeBytes bytes := by
  obtain ⟨ds, hds, hback⟩ := bytes_written (f := f) bytes
  exact ⟨nofun, nofun, .arr ds, hds, hback⟩

theorem envelopeNonce_roundTrips (nonce : EnvelopeNonce) :
    RoundTrips f (fun n : EnvelopeNonce => serBytes n.val) decodeEnvelopeNonce nonce := by
  obtain ⟨ds, hds, hback⟩ := bytes_written (f := f) nonce.val
  refine ⟨nofun, nofun, .arr ds, hds, ?_⟩
  simp [decodeEnvelopeNonce, asItems, hback, nonce.property, bind, Except.bind, pure, Except.pure]

/-- **An envelope survives its JSON.** -/
theorem keyEnvelope_roundTrips (e : KeyEnvelope) : RoundTrips json serKeyEnvelope decodeKeyEnvelope e := by
  have hu64 (n : UInt64) : RoundTrips json .u64 asU64 n := u64_roundTrips n.toNat_lt
  refine record_roundTrips rfl ?_ nofun fun out hout => ?_
  · simp only [List.forall_mem_cons]
    exact ⟨(id_roundTrips _).writes, (id_roundTrips _).writes, (hu64 _).writes, (hu64 _).writes,
      (id_roundTrips _).writes, (id_roundTrips _).writes, (envelopeAlgorithm_roundTrips _).writes,
      (key32_roundTrips _).writes, (envelopeNonce_roundTrips _).writes, (bytes_roundTrips _).writes,
      (hu64 _).writes, (bytes_roundTrips _).writes, by simp⟩
  · have hn : ["workspace_id", "key_id", "key_generation", "access_revision", "sender_device_id",
        "recipient_device_id", "algorithm", "sender_ephemeral_public_key", "nonce",
        "encrypted_workspace_key", "created_at", "signature"].Nodup := by decide
    simp only [decodeKeyEnvelope, asTable, Except.bind_ok]
    exact ⟨out, rfl, e.workspaceId, field_roundTrips hout hn (id_roundTrips _) (by simp),
      e.keyId, field_roundTrips hout hn (id_roundTrips _) (by simp),
      e.keyGeneration, field_roundTrips hout hn (hu64 _) (by simp),
      e.accessRevision, field_roundTrips hout hn (hu64 _) (by simp),
      e.senderDeviceId, field_roundTrips hout hn (id_roundTrips _) (by simp),
      e.recipientDeviceId, field_roundTrips hout hn (id_roundTrips _) (by simp),
      e.algorithm, field_roundTrips hout hn (envelopeAlgorithm_roundTrips _) (by simp),
      e.senderEphemeralPublicKey, field_roundTrips hout hn (key32_roundTrips _) (by simp),
      e.nonce, field_roundTrips hout hn (envelopeNonce_roundTrips _) (by simp),
      e.encryptedWorkspaceKey, field_roundTrips hout hn (bytes_roundTrips _) (by simp),
      e.createdAt.asSecs, field_roundTrips hout hn (hu64 _) (by simp),
      e.signature, field_roundTrips hout hn (bytes_roundTrips _) (by simp), rfl⟩

end RustSync.Codec
