/-
Signed HTTP requests

A request's signature covers its method, path, body digest and length, the
time, the device and a nonce, joined by line feeds under a domain. It is the
device's, checked by its record.

Key definitions: `canonicalRequestPayload`, `SignedHttpRequest`,
`SignedHttpRequest.verifyWithDevice`.
-/
import RustSync.Protocol.Device

namespace RustSync

def authDomain : String := "rustsync-http-auth"

def hexDigit (n : ℕ) : Char := Char.ofNat (if n < 10 then n + 48 else n + 87)

/-- The `02x` format of a byte. -/
def hexByte (b : UInt8) : List Char := [hexDigit (b.toNat / 16), hexDigit (b.toNat % 16)]

def sha256Hex (c : Crypto) (bytes : Bytes) : String :=
  String.ofList ((c.sha256 bytes).flatMap hexByte)

structure AuthHeaders where
  deviceId : DeviceId
  timestamp : UnixTimestamp
  nonce : RequestNonce
  signature : Bytes
deriving DecidableEq

structure HttpRequestSignatureInput where
  method : String
  pathAndQuery : String
  bodySha256Hex : String
  timestamp : UnixTimestamp
  deviceId : DeviceId
  nonce : RequestNonce
  contentLength : ℕ

def HttpRequestSignatureInput.canonicalPayload (self : HttpRequestSignatureInput) : Bytes :=
  let lines := [authDomain, self.method, self.pathAndQuery, self.bodySha256Hex,
    toString self.timestamp.asSecs, self.deviceId.asStr, self.nonce.asStr, toString self.contentLength]
  lines.flatMap fun line => utf8 line ++ utf8 "\n"

structure SignedHttpRequest where
  input : HttpRequestSignatureInput
  signature : Bytes

/-- `SignedHttpRequestParts::from_auth_headers`. -/
def SignedHttpRequest.ofHeaders (c : Crypto) (method pathAndQuery : String) (body : Bytes)
    (headers : AuthHeaders) : SignedHttpRequest where
  input :=
    { method, pathAndQuery, bodySha256Hex := sha256Hex c body, timestamp := headers.timestamp,
      deviceId := headers.deviceId, nonce := headers.nonce, contentLength := body.length }
  signature := headers.signature

def SignedHttpRequest.verifyWithDevice (c : Crypto) (self : SignedHttpRequest)
    (device : DeviceRecord) : ProtocolResult Unit := do
  require (self.input.deviceId = device.deviceId) .invalidRequestSignature
  (device.verifySignature c self.input.canonicalPayload self.signature).mapError fun _ =>
    .invalidRequestSignature

end RustSync
