/-
Headers of signed requests

What authenticates a request is written to four headers: two identifiers as
they are, the time as a decimal number and the signature in base64. They read
back as what they were written from (`fromHeaderValues_toHeaderValues`), and
are made of visible characters, so that no header is refused on the way.

Key definitions: `AuthHeaders.toHeaderValues`, `AuthHeaders.fromHeaderValues`.
-/
import RustSync.Protocol.Auth

namespace RustSync

def deviceIdHeader : String := "x-rustsync-device-id"
def timestampHeader : String := "x-rustsync-timestamp"
def nonceHeader : String := "x-rustsync-nonce"
def signatureHeader : String := "x-rustsync-signature"

structure AuthHeaderValues where
  deviceId : String
  timestamp : String
  nonce : String
  signature : String
deriving DecidableEq

def RequestNonce.parse (value : String) : ProtocolResult RequestNonce :=
  match h : validateRequestNonce value with
  | .ok () => .ok ⟨value, h⟩
  | .error reason => .error (.invalidAuthHeader reason)

/-- `str::parse::<u64>`. -/
def parseU64 (value : List Char) : Option UInt64 :=
  let digits := if value.head? = some '+' then value.tail else value
  if digits = [] ∨ digits.all Char.isDigit = false then none
  else
    let n := Nat.ofDigitChars 10 digits 0
    if n < 2 ^ 64 then some (UInt64.ofNat n) else none

def parseSignature (value : String) : ProtocolResult Bytes :=
  okOr (base64Decode value.toList) .invalidRequestSignature

namespace AuthHeaders

def fromHeaderValues (values : AuthHeaderValues) : ProtocolResult AuthHeaders := do
  let deviceId ← (TextId.parse deviceIdKind values.deviceId).mapError .invalidIdentifier
  let timestamp ← okOr (parseU64 values.timestamp.toList)
    (.invalidAuthHeader "timestamp must be an unsigned integer")
  let nonce ← RequestNonce.parse values.nonce
  let signature ← parseSignature values.signature
  return { deviceId, timestamp := ⟨timestamp⟩, nonce, signature }

def toHeaderValues (self : AuthHeaders) : AuthHeaderValues where
  deviceId := self.deviceId.asStr
  timestamp := toString self.timestamp.asSecs
  nonce := self.nonce.asStr
  signature := String.ofList (base64Encode self.signature)

end AuthHeaders

/-! ### Requests -/

/-- `SignedHttpRequestParts::signature_input`. -/
def signatureInput (c : Crypto) (method pathAndQuery : String) (body : Bytes) (deviceId : DeviceId)
    (timestamp : UnixTimestamp) (nonce : RequestNonce) : HttpRequestSignatureInput where
  method := method
  pathAndQuery := pathAndQuery
  bodySha256Hex := sha256Hex c body
  timestamp := timestamp
  deviceId := deviceId
  nonce := nonce
  contentLength := body.length

def HttpRequestSignatureInput.withSignature (self : HttpRequestSignatureInput) (signature : Bytes) :
    SignedHttpRequest := ⟨self, signature⟩

def SignedHttpRequest.authHeaders (self : SignedHttpRequest) : AuthHeaders where
  deviceId := self.input.deviceId
  timestamp := self.input.timestamp
  nonce := self.input.nonce
  signature := self.signature

/-! ### Reading back -/

section Values

variable {c : Crypto} {method pathAndQuery : String} {body signature : Bytes} {deviceId : DeviceId}
  {timestamp : UnixTimestamp} {nonce : RequestNonce}

theorem RequestNonce.parse_asStr (nonce : RequestNonce) : RequestNonce.parse nonce.asStr = .ok nonce := by
  unfold RequestNonce.parse
  split
  · rfl
  · rename_i reason h
    rw [nonce.valid] at h
    cases h

theorem parseU64_toString (n : UInt64) : parseU64 (toString n).toList = some n := by
  have htext : (toString n).toList = Nat.toDigits 10 n.toNat := Nat.toList_repr
  have hdigits {ch : Char} (hch : ch ∈ Nat.toDigits 10 n.toNat) : ch.isDigit = true :=
    Nat.isDigit_of_mem_toDigits (by decide) (by decide) hch
  have hplus : (Nat.toDigits 10 n.toNat).head? ≠ some '+' := by
    intro hhead
    exact absurd (hdigits (List.mem_of_mem_head? hhead)) (by decide)
  have hall : (Nat.toDigits 10 n.toNat).all Char.isDigit = true := List.all_eq_true.mpr fun ch => hdigits
  unfold parseU64
  rw [htext]
  simp only [if_neg hplus]
  rw [if_neg (by simp [Nat.toDigits_ne_nil, hall]), Nat.ofDigitChars_ten_toDigits, if_pos n.toNat_lt,
    UInt64.ofNat_toNat]

theorem parseSignature_encode (signature : Bytes) :
    parseSignature (String.ofList (base64Encode signature)) = .ok signature := by
  unfold parseSignature
  rw [String.toList_ofList, base64Decode_encode]
  rfl

/-- **Headers read back as they were written.** -/
theorem fromHeaderValues_toHeaderValues (headers : AuthHeaders) :
    AuthHeaders.fromHeaderValues headers.toHeaderValues = .ok headers := by
  have hdevice : TextId.parse deviceIdKind headers.toHeaderValues.deviceId = .ok headers.deviceId :=
    TextId.parse_asStr headers.deviceId
  have htimestamp : parseU64 headers.toHeaderValues.timestamp.toList = some headers.timestamp.asSecs :=
    parseU64_toString headers.timestamp.asSecs
  have hnonce : RequestNonce.parse headers.toHeaderValues.nonce = .ok headers.nonce := headers.nonce.parse_asStr
  have hsignature : parseSignature headers.toHeaderValues.signature = .ok headers.signature :=
    parseSignature_encode headers.signature
  unfold AuthHeaders.fromHeaderValues
  rw [hdevice, htimestamp, hnonce, hsignature]
  rfl

/-! ### Printable characters -/

/-- The texts that headers carry. -/
def Printable (text : List Char) : Prop := ∀ ch ∈ text, 32 ≤ ch.toNat ∧ ch.toNat < 127

theorem printable_idChars {text : List Char} (h : text.all isIdChar = true) : Printable text := by
  intro ch hch
  have hid := List.all_eq_true.mp h ch hch
  unfold isIdChar Char.isAlphanum Char.isAlpha Char.isUpper Char.isLower Char.isDigit at hid
  simp only [Bool.or_eq_true, Bool.and_eq_true, decide_eq_true_eq, beq_iff_eq, UInt32.le_iff_toNat_le, ge_iff_le] at hid
  rcases hid with ((((h | h) | h) | rfl) | rfl) | rfl
  · simp at h
    omega
  · simp at h
    omega
  · simp at h
    omega
  · decide
  · decide
  · decide

theorem printable_base64 (bytes : Bytes) : Printable (base64Encode bytes) := by
  have hdigits : ∀ n < 64, 32 ≤ (base64Char n).toNat ∧ (base64Char n).toNat < 127 := by decide
  intro ch hch
  obtain ⟨n, hn, rfl⟩ := mem_base64Encode hch
  exact hdigits n hn

theorem printable_decimal (n : UInt64) : Printable (toString n).toList := by
  have htext : (toString n).toList = Nat.toDigits 10 n.toNat := Nat.toList_repr
  rw [htext]
  apply printable_idChars
  rw [List.all_eq_true]
  intro ch hch
  have hdigit := Nat.isDigit_of_mem_toDigits (by decide) (by decide) hch
  simp [isIdChar, Char.isAlphanum, hdigit]

/-- Such a text is written with a byte for a character. -/
theorem utf8_printable {text : List Char} (h : Printable text) :
    utf8 (String.ofList text) = text.map fun ch => UInt8.ofNat ch.toNat := by
  have hone {ch : Char} (hch : ch ∈ text) : String.utf8EncodeChar ch = [UInt8.ofNat ch.toNat] := by
    have hsize : ch.utf8Size = 1 := by
      rw [Char.utf8Size_eq_one_iff, UInt32.le_iff_toNat_le]
      have hlt := (h ch hch).2
      simp
      omega
    rw [String.utf8EncodeChar_eq_singleton hsize]
    rfl
  unfold utf8
  rw [String.toList_ofList, List.flatMap_congr fun ch hch => hone hch, List.map_eq_flatMap]

end Values

end RustSync
