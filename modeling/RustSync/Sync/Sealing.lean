/-
Sealed objects

What is stored on the server is a frame: a header, the id of the workspace key,
a nonce and the ciphertext. The encoder makes the documented frames and the
decoder takes them, each in its own steps (`toBinaryBytes_ok`,
`fromBinaryBytes_ok`), so frames and objects correspond (`frame_codec`). The
cipher is third-party (`Aead`), with what is relied on of it in `Aead.Ideal`.
Then a frame opens to the content it was sealed from (`openBytes_sealBytes`).

Key definitions: `EncryptedObject`, `toBinaryBytes`, `fromRemoteBytes`,
`Framed`, `WorkspaceCrypto`, `sealBytes`, `openBytes`.
-/
import RustSync.Lib.Result
import RustSync.Protocol.Error

namespace RustSync

/-! ### Frames -/

/-- Its algorithm is the only one there is. -/
structure EncryptedObject where
  keyId : KeyId
  nonce : Bytes
  ciphertext : Bytes
deriving DecidableEq

def nonceSize : ℕ := 24
def tagSize : ℕ := 16

def EncryptedObject.validate (o : EncryptedObject) : ProtocolResult Unit := do
  require (o.ciphertext ≠ []) .emptyCiphertext
  require (o.nonce.length = nonceSize) (.invalidNonceLength nonceSize o.nonce.length)
  require (tagSize ≤ o.ciphertext.length) (.ciphertextTooShort tagSize o.ciphertext.length)

def magic : Bytes := [0x52, 0x53, 0x4F, 0x42]
def frameVersion : UInt8 := 1
def xchacha20Poly1305Tag : UInt8 := 1
def fixedHeaderLen : ℕ := 9
def maxEncryptedObjectBytes : ℕ := 1024 * 1024

/-- `u16::to_be_bytes`. -/
def u16ToBeBytes (n : ℕ) : Bytes := [UInt8.ofNat (n / 256), UInt8.ofNat (n % 256)]

def toBinaryBytes (o : EncryptedObject) : ProtocolResult Bytes := do
  o.validate
  let keyId := utf8 o.keyId.asStr
  require (keyId.length < 2 ^ 16) .invalidEncryptedObjectBinary
  let capacity := fixedHeaderLen + keyId.length + o.nonce.length + o.ciphertext.length
  require (capacity ≤ maxEncryptedObjectBytes) (.encryptedObjectTooLarge maxEncryptedObjectBytes capacity)
  return magic ++ [frameVersion, xchacha20Poly1305Tag] ++ u16ToBeBytes keyId.length ++
    [UInt8.ofNat o.nonce.length] ++ keyId ++ o.nonce ++ o.ciphertext

/-- `Cursor::take`. -/
def takeBytes (n : ℕ) (bytes : Bytes) : ProtocolResult (Bytes × Bytes) :=
  if n ≤ bytes.length then .ok (bytes.splitAt n) else .error .invalidEncryptedObjectBinary

/-- `Cursor::byte`. -/
def takeByte : Bytes → ProtocolResult (UInt8 × Bytes)
  | byte :: rest => .ok (byte, rest)
  | [] => .error .invalidEncryptedObjectBinary

/-- A `u16` in big-endian order. -/
def takeU16 (bytes : Bytes) : ProtocolResult (ℕ × Bytes) := do
  let (high, rest) ← takeByte bytes
  let (low, rest) ← takeByte rest
  return (256 * high.toNat + low.toNat, rest)

/-- `std::str::from_utf8` and `KeyId::parse`. -/
def keyIdOfBytes (bytes : Bytes) : ProtocolResult KeyId :=
  match String.fromUTF8? ⟨bytes.toArray⟩ with
  | some text => (TextId.parse keyIdKind text).mapError fun _ => .invalidEncryptedObjectBinary
  | none => .error .invalidEncryptedObjectBinary

def fromBinaryBytes (bytes : Bytes) : ProtocolResult EncryptedObject := do
  require (bytes.length ≤ maxEncryptedObjectBytes) (.encryptedObjectTooLarge maxEncryptedObjectBytes bytes.length)
  let (start, rest) ← takeBytes magic.length bytes
  require (start = magic) .invalidEncryptedObjectBinary
  let (version, rest) ← takeByte rest
  require (version = frameVersion) (.unsupportedEncryptedObjectVersion version)
  let (algorithm, rest) ← takeByte rest
  require (algorithm = xchacha20Poly1305Tag) (.unsupportedContentEncryptionAlgorithm algorithm)
  let (keyIdLen, rest) ← takeU16 rest
  let (nonceLen, rest) ← takeByte rest
  let (keyIdBytes, rest) ← takeBytes keyIdLen rest
  let keyId ← keyIdOfBytes keyIdBytes
  let (nonce, ciphertext) ← takeBytes nonceLen.toNat rest
  let object := EncryptedObject.mk keyId nonce ciphertext
  object.validate
  return object

def fromRemoteBytes (bytes : Bytes) : ProtocolResult EncryptedObject :=
  if magic.isPrefixOf bytes then fromBinaryBytes bytes else .error .invalidEncryptedObjectEncoding

/-! ### Keys -/

/-- The third-party cipher, by key and nonce. -/
structure Aead where
  encrypt : Bytes → Bytes → Bytes → Option Bytes
  decrypt : Bytes → Bytes → Bytes → Option Bytes

/-- What is relied on of the cipher. -/
structure Aead.Ideal (a : Aead) : Prop where
  decrypt_encrypt : ∀ key nonce plaintext ciphertext, a.encrypt key nonce plaintext = some ciphertext →
    a.decrypt key nonce ciphertext = some plaintext

inductive SealError where
  | key (text : String)
  | encryptionFailed
  | decryptionFailed
  | protocol (error : ProtocolError)
deriving DecidableEq

/-- The keyring of a workspace, and the key it seals with. -/
structure WorkspaceCrypto where
  aead : Aead
  loadKey : KeyId → Except SealError Bytes
  defaultKeyId : KeyId

namespace WorkspaceCrypto

variable (wc : WorkspaceCrypto)

def encryptBytes (nonce plaintext : Bytes) : Except SealError EncryptedObject := do
  let key ← wc.loadKey wc.defaultKeyId
  let ciphertext ← okOr (wc.aead.encrypt key nonce plaintext) .encryptionFailed
  let object := EncryptedObject.mk wc.defaultKeyId nonce ciphertext
  object.validate.mapError .protocol
  return object

def decryptFile (object : EncryptedObject) : Except SealError Bytes := do
  let key ← wc.loadKey object.keyId
  object.validate.mapError .protocol
  okOr (wc.aead.decrypt key object.nonce object.ciphertext) .decryptionFailed

/-- `encrypt_bytes` and `to_binary_bytes`. -/
def sealBytes (nonce plaintext : Bytes) : Except SealError Bytes := do
  let object ← wc.encryptBytes nonce plaintext
  (toBinaryBytes object).mapError .protocol

/-- `decrypt_remote_object_bytes`. -/
def openBytes (bytes : Bytes) : Except SealError Bytes := do
  let object ← (fromRemoteBytes bytes).mapError .protocol
  wc.decryptFile object

end WorkspaceCrypto

/-! ### The frames there are -/

section Frames

variable {o : EncryptedObject} {bytes front rest : Bytes} {n : ℕ}

/-- The documented layout of a frame. -/
structure Framed (bytes : Bytes) (o : EncryptedObject) : Prop where
  layout : bytes = magic ++ ([frameVersion, xchacha20Poly1305Tag] ++ (u16ToBeBytes (utf8 o.keyId.asStr).length ++
    ([UInt8.ofNat nonceSize] ++ (utf8 o.keyId.asStr ++ (o.nonce ++ o.ciphertext)))))
  nonce : o.nonce.length = nonceSize
  ciphertext : tagSize ≤ o.ciphertext.length
  size : bytes.length ≤ maxEncryptedObjectBytes

theorem EncryptedObject.validate_ok {u : Unit} :
    o.validate = .ok u ↔ o.nonce.length = nonceSize ∧ tagSize ≤ o.ciphertext.length := by
  unfold EncryptedObject.validate
  simp only [Except.bind_unit_ok, require_ok]
  constructor
  · exact fun h => h.2
  · intro h
    refine ⟨fun hempty => ?_, h⟩
    have htag := h.2
    rw [hempty] at htag
    exact absurd htag (by decide)

/-- What is taken is what stands first, and no more than there is. -/
theorem takeBytes_ok : takeBytes n bytes = .ok (front, rest) ↔ front.length = n ∧ bytes = front ++ rest := by
  unfold takeBytes
  by_cases hlen : n ≤ bytes.length
  · rw [if_pos hlen, List.splitAt_eq]
    simp only [Except.ok.injEq, Prod.mk.injEq]
    constructor
    · rintro ⟨rfl, rfl⟩
      exact ⟨List.length_take_of_le hlen, (List.take_append_drop n bytes).symm⟩
    · rintro ⟨rfl, rfl⟩
      simp
  · rw [if_neg hlen]
    simp only [reduceCtorEq, false_iff, not_and]
    rintro rfl rfl
    apply hlen
    simp

theorem takeByte_ok {byte : UInt8} : takeByte bytes = .ok (byte, rest) ↔ bytes = byte :: rest := by
  unfold takeByte
  cases bytes with
  | nil => simp
  | cons first others => simp

theorem takeU16_ok : takeU16 bytes = .ok (n, rest) ↔ n < 2 ^ 16 ∧ bytes = u16ToBeBytes n ++ rest := by
  unfold takeU16
  simp only [Except.bind_ok, Prod.exists, takeByte_ok]
  constructor
  · rintro ⟨high, _, rfl, low, _, rfl, hn⟩
    simp only [pure, Except.pure, Except.ok.injEq, Prod.mk.injEq] at hn
    obtain ⟨rfl, rfl⟩ := hn
    have hhigh := high.toNat_lt
    have hlow := low.toNat_lt
    have hdiv : (256 * high.toNat + low.toNat) / 256 = high.toNat := by omega
    have hmod : (256 * high.toNat + low.toNat) % 256 = low.toNat := by omega
    refine ⟨by omega, ?_⟩
    rw [u16ToBeBytes, hdiv, hmod, UInt8.ofNat_toNat, UInt8.ofNat_toNat]
    rfl
  · rintro ⟨hn, rfl⟩
    refine ⟨UInt8.ofNat (n / 256), UInt8.ofNat (n % 256) :: rest, rfl, UInt8.ofNat (n % 256), rest, rfl, ?_⟩
    have hhigh : (UInt8.ofNat (n / 256)).toNat = n / 256 := by
      rw [UInt8.toNat_ofNat']
      omega
    have hlow : (UInt8.ofNat (n % 256)).toNat = n % 256 := by
      rw [UInt8.toNat_ofNat']
      omega
    rw [hhigh, hlow, Nat.div_add_mod]
    rfl

theorem keyIdOfBytes_ok {keyId : KeyId} : keyIdOfBytes bytes = .ok keyId ↔ bytes = utf8 keyId.asStr := by
  unfold keyIdOfBytes
  constructor
  · intro h
    split at h
    · rename_i text htext
      rw [Except.mapError_ok] at h
      rw [← utf8_of_fromUTF8? htext, TextId.asStr_of_parse h]
    · cases h
  · rintro rfl
    rw [fromUTF8?_utf8]
    simp [Except.mapError]

/-- An object has a frame when the encoder makes it. -/
theorem toBinaryBytes_ok : toBinaryBytes o = .ok bytes ↔ Framed bytes o := by
  unfold toBinaryBytes
  simp only [Except.bind_unit_ok, require_ok, EncryptedObject.validate_ok]
  have hkey : (utf8 o.keyId.asStr).length < 2 ^ 16 :=
    Nat.lt_of_le_of_lt o.keyId.length_le (by decide)
  constructor
  · rintro ⟨⟨hnonce, htag⟩, _, hcapacity, hbytes⟩
    cases hbytes
    refine ⟨?_, hnonce, htag, ?_⟩
    · simp only [List.append_assoc, hnonce]
    · simp only [List.length_append, List.length_cons, List.length_nil, magic, u16ToBeBytes]
      unfold fixedHeaderLen at hcapacity
      omega
  · rintro ⟨hlayout, hnonce, htag, hsize⟩
    refine ⟨⟨hnonce, htag⟩, hkey, ?_, ?_⟩
    · rw [hlayout] at hsize
      simp only [List.length_append, List.length_cons, List.length_nil, magic, u16ToBeBytes] at hsize
      unfold fixedHeaderLen
      omega
    · rw [hlayout, hnonce]
      simp only [List.append_assoc]
      rfl

/-- The decoder takes the frames, and nothing else. -/
theorem fromBinaryBytes_ok : fromBinaryBytes bytes = .ok o ↔ Framed bytes o := by
  unfold fromBinaryBytes
  simp only [Except.bind_ok, require_ok, Prod.exists, takeBytes_ok, takeByte_ok, takeU16_ok,
    keyIdOfBytes_ok, EncryptedObject.validate_ok]
  constructor
  · rintro ⟨_, hsize, _, _, ⟨_, rfl⟩, _, rfl, _, _, rfl, _, rfl, _, _, rfl, _, rfl, keyIdLen, _, ⟨_, rfl⟩,
      nonceLen, _, rfl,
      _, _, ⟨hkey, rfl⟩, keyId, rfl, nonce, ciphertext, ⟨hnonce, rfl⟩, _, ⟨hvalid, htag⟩, ho⟩
    cases ho
    refine ⟨?_, hvalid, htag, hsize⟩
    have hbyte : nonceLen = UInt8.ofNat nonceSize := by
      rw [← hvalid, hnonce, UInt8.ofNat_toNat]
    rw [hkey, hbyte]
    rfl
  · rintro ⟨hlayout, hnonce, htag, hsize⟩
    have hkey : (utf8 o.keyId.asStr).length < 2 ^ 16 :=
      Nat.lt_of_le_of_lt o.keyId.length_le (by decide)
    exact ⟨(), hsize, magic, _, ⟨rfl, hlayout⟩, (), rfl, frameVersion, _, rfl, (), rfl,
      xchacha20Poly1305Tag, _, rfl, (),
      rfl, _, _, ⟨hkey, rfl⟩, UInt8.ofNat nonceSize, _, rfl, _, _, ⟨rfl, rfl⟩, o.keyId, rfl, o.nonce, o.ciphertext,
      ⟨hnonce, rfl⟩, (), ⟨hnonce, htag⟩, rfl⟩

theorem fromRemoteBytes_eq : fromRemoteBytes bytes = .ok o ↔ fromBinaryBytes bytes = .ok o := by
  unfold fromRemoteBytes
  by_cases hmagic : magic.isPrefixOf bytes = true
  · rw [if_pos hmagic]
  · rw [if_neg hmagic, fromBinaryBytes_ok]
    simp only [reduceCtorEq, false_iff]
    intro hframed
    apply hmagic
    rw [hframed.layout, List.isPrefixOf_iff_prefix]
    exact List.prefix_append _ _

/-- A frame is read back. -/
theorem fromRemoteBytes_toBinaryBytes (h : toBinaryBytes o = .ok bytes) : fromRemoteBytes bytes = .ok o := by
  rw [fromRemoteBytes_eq, fromBinaryBytes_ok, ← toBinaryBytes_ok]
  exact h

/-- **Frames and objects correspond.** The decoder takes the documented frames
and refuses all other strings; each object has one frame and each frame one
object. -/
theorem frame_codec :
    (∀ o bytes, toBinaryBytes o = .ok bytes → fromBinaryBytes bytes = .ok o) ∧
    (∀ o bytes, fromBinaryBytes bytes = .ok o → toBinaryBytes o = .ok bytes) ∧
    (∀ bytes, (∃ o, fromBinaryBytes bytes = .ok o) ↔ ∃ o, Framed bytes o) ∧
    (∀ bytes, (¬ ∃ o, Framed bytes o) → ∃ e, fromBinaryBytes bytes = .error e) ∧
    (∀ n bytes front rest, takeBytes n bytes = .ok (front, rest) → front.length = n ∧ front ++ rest = bytes) ∧
    (∀ o bytes, fromRemoteBytes bytes = .ok o ↔ fromBinaryBytes bytes = .ok o) := by
  refine ⟨fun o bytes h => ?_, fun o bytes h => ?_, fun bytes => ?_, fun bytes hnot => ?_,
    fun n bytes front rest h => ?_,
    fun o bytes => fromRemoteBytes_eq⟩
  · rw [fromBinaryBytes_ok, ← toBinaryBytes_ok]
    exact h
  · rw [toBinaryBytes_ok, ← fromBinaryBytes_ok]
    exact h
  · simp only [fromBinaryBytes_ok]
  · cases hdecoded : fromBinaryBytes bytes with
    | error e => exact ⟨e, rfl⟩
    | ok o => exact absurd ⟨o, fromBinaryBytes_ok.mp hdecoded⟩ hnot
  · obtain ⟨hlength, heq⟩ := takeBytes_ok.mp h
    exact ⟨hlength, heq.symm⟩

end Frames

/-! ### What is sealed opens -/

namespace WorkspaceCrypto

variable {wc : WorkspaceCrypto} {nonce plaintext bytes : Bytes}

theorem sealBytes_ok (h : wc.sealBytes nonce plaintext = .ok bytes) : ∃ key ciphertext,
    wc.loadKey wc.defaultKeyId = .ok key ∧ wc.aead.encrypt key nonce plaintext = some ciphertext ∧
      (EncryptedObject.mk wc.defaultKeyId nonce ciphertext).validate = .ok () ∧
      toBinaryBytes ⟨wc.defaultKeyId, nonce, ciphertext⟩ = .ok bytes := by
  obtain ⟨object, hencrypt, hframe⟩ := Except.bind_ok.mp h
  obtain ⟨key, hkey, hrest⟩ := Except.bind_ok.mp hencrypt
  obtain ⟨ciphertext, hcipher, hrest⟩ := Except.bind_ok.mp hrest
  obtain ⟨hvalid, hobject⟩ := Except.bind_unit_ok.mp hrest
  cases hobject
  exact ⟨key, ciphertext, hkey, okOr_ok.mp hcipher, Except.mapError_ok.mp hvalid, Except.mapError_ok.mp hframe⟩

/-- What is sealed opens. -/
theorem openBytes_sealBytes (hideal : wc.aead.Ideal) (h : wc.sealBytes nonce plaintext = .ok bytes) :
    wc.openBytes bytes = .ok plaintext := by
  obtain ⟨key, ciphertext, hkey, hcipher, hvalid, hframe⟩ := sealBytes_ok h
  unfold openBytes decryptFile
  rw [fromRemoteBytes_toBinaryBytes hframe]
  simp only [Except.mapError, bind, Except.bind]
  rw [hkey]
  simp only [hvalid, hideal.decrypt_encrypt _ _ _ _ hcipher]
  rfl

end WorkspaceCrypto

end RustSync
