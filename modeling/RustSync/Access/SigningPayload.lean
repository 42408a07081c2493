/-
What a signature is over

The program signs four kinds of message: access events, join requests, key
envelopes and HTTP requests. Each has an encoder of its own, under a domain of
its own, and `deviceSignaturePayload` puts its result under one more. Two
messages of whatever kinds with the same signed bytes are the same message
(`signedBytes_injective`): a signature is over one event of one workspace, or
one request, and over nothing else.

Every encoder but that of HTTP requests is a chain of fields prefixed by their
length, so it is taken apart field by field. An HTTP request is written in
lines.

Key definitions: `SignedObject`, `SignedObject.signedBytes`,
`SignedObject.Admissible`.
-/
import RustSync.Access.EnvelopeCodec
import RustSync.Lib.Code
import RustSync.Protocol.Auth
import Std.Data.String.ToNat

namespace RustSync

/-! ### Fields -/

section Fields

theorem byte_of_shift (n : UInt64) {k : UInt64} (hk : k.toNat < 64) :
    ((n >>> k).toUInt8).toNat = n.toNat / 2 ^ k.toNat % 256 := by
  rw [UInt64.toNat_toUInt8, UInt64.toNat_shiftRight, Nat.mod_eq_of_lt hk, Nat.shiftRight_eq_div_pow]

/-- The eight bytes of a number determine it. -/
theorem u64ToBeBytes_injective {n m : UInt64} (h : u64ToBeBytes n = u64ToBeBytes m) : n = m := by
  have hbyte : ∀ k ∈ ([56, 48, 40, 32, 24, 16, 8, 0] : List UInt64),
      n.toNat / 2 ^ k.toNat % 256 = m.toNat / 2 ^ k.toNat % 256 := by
    intro k hk
    have hshifts : ([56, 48, 40, 32, 24, 16, 8, 0] : List UInt64).all (fun k => k.toNat < 64) = true := rfl
    have hk64 : k.toNat < 64 := of_decide_eq_true (List.all_eq_true.mp hshifts k hk)
    have heq := List.map_inj_left.mp h k hk
    rw [← byte_of_shift n hk64, ← byte_of_shift m hk64, heq]
  simp only [List.forall_mem_cons] at hbyte
  obtain ⟨h7, h6, h5, h4, h3, h2, h1, h0, _⟩ := hbyte
  -- from the top byte down, each byte extends what is known to agree
  have hdown (j : ℕ) (htop : n.toNat / 2 ^ (j + 8) = m.toNat / 2 ^ (j + 8))
      (hlow : n.toNat / 2 ^ j % 256 = m.toNat / 2 ^ j % 256) : n.toNat / 2 ^ j = m.toNat / 2 ^ j := by
    rw [Nat.pow_add, ← Nat.div_div_eq_div_mul, ← Nat.div_div_eq_div_mul] at htop
    omega
  have htop : n.toNat / 2 ^ 56 = m.toNat / 2 ^ 56 := by
    have hn := n.toNat_lt
    have hm := m.toNat_lt
    simp only [UInt64.reduceToNat] at h7
    omega
  have hall := hdown 0 (hdown 8 (hdown 16 (hdown 24 (hdown 32 (hdown 40 (hdown 48 htop h6) h5) h4) h3) h2) h1) h0
  rw [Nat.pow_zero, Nat.div_one, Nat.div_one] at hall
  exact UInt64.toNat_inj.mp hall

theorem selfDelimiting_u64ToBeBytes : SelfDelimiting (fun _ => True) u64ToBeBytes :=
  .of_length (n := 8) (fun _ _ => rfl) fun _ _ _ _ h => u64ToBeBytes_injective h

/-- A length below `2 ^ 64`, as that of every string and vector. -/
abbrev Short (n : ℕ) : Prop := n < 2 ^ 64

theorem selfDelimiting_pushBytes : SelfDelimiting (fun v : Bytes => Short v.length) pushBytes := by
  have hlength : SelfDelimiting Short fun n : ℕ => u64ToBeBytes (UInt64.ofNat n) := by
    refine selfDelimiting_u64ToBeBytes.comap (fun _ _ => trivial) fun n m hn hm heq => ?_
    have hnat := congrArg UInt64.toNat heq
    rw [UInt64.toNat_ofNat_of_lt' hn, UInt64.toNat_ofNat_of_lt' hm] at hnat
    exact hnat
  exact .of_header hlength

/-- What is pushed last needs no bound. -/
theorem pushBytes_injective {v w : Bytes} (h : pushBytes v = pushBytes w) : v = w :=
  (List.append_inj h rfl).2

/-- UTF-8 determines the characters. -/
theorem encodeChars_injective {l m : List Char}
    (h : l.flatMap String.utf8EncodeChar = m.flatMap String.utf8EncodeChar) : l = m := by
  have hbytes : l.utf8Encode = m.utf8Encode := congrArg List.toByteArray h
  have hdecode := congrArg ByteArray.utf8Decode? hbytes
  rw [List.utf8Decode?_utf8Encode, List.utf8Decode?_utf8Encode] at hdecode
  simpa using hdecode

theorem utf8_injective {s t : String} (h : utf8 s = utf8 t) : s = t :=
  String.toList_inj.mp (encodeChars_injective h)

theorem selfDelimiting_pushStr : SelfDelimiting (fun s : String => Short (utf8 s).length) pushStr :=
  selfDelimiting_pushBytes.comap (fun _ h => h) fun _ _ _ _ h => utf8_injective h

theorem selfDelimiting_pushU64 : SelfDelimiting (fun _ => True) pushU64 :=
  selfDelimiting_pushBytes.comap (f := u64ToBeBytes) (fun _ _ => show 8 < 2 ^ 64 by decide)
    fun _ _ _ _ h => u64ToBeBytes_injective h

theorem selfDelimiting_pushU8 : SelfDelimiting (fun _ => True) pushU8 :=
  selfDelimiting_pushBytes.comap (f := fun n : UInt8 => [n]) (fun _ _ => show 1 < 2 ^ 64 by decide)
    fun _ _ _ _ h => (List.cons.inj h).1

theorem selfDelimiting_pushKey : SelfDelimiting (fun _ => True) fun key : Key32 => pushBytes key.val :=
  selfDelimiting_pushBytes.comap
    (fun key _ => show key.val.length < 2 ^ 64 by rw [key.property]; decide)
    fun _ _ _ _ h => Subtype.ext h

theorem selfDelimiting_pushNonce :
    SelfDelimiting (fun _ => True) fun nonce : EnvelopeNonce => pushBytes nonce.val :=
  selfDelimiting_pushBytes.comap
    (fun nonce _ => show nonce.val.length < 2 ^ 64 by rw [nonce.property]; decide)
    fun _ _ _ _ h => Subtype.ext h

/-- Identifiers are short. -/
theorem TextId.short {k : IdKind} (hk : k.maxLen < 2 ^ 64) (i : TextId k) : Short (utf8 i.asStr).length :=
  Nat.lt_of_le_of_lt i.length_le hk

theorem selfDelimiting_pushId {k : IdKind} (hk : k.maxLen < 2 ^ 64) :
    SelfDelimiting (fun _ => True) fun i : TextId k => pushStr i.asStr :=
  selfDelimiting_pushStr.comap (fun i _ => i.short hk) fun _ _ _ _ h => TextId.asStr_injective h

theorem selfDelimiting_pushTime : SelfDelimiting (fun _ => True) fun t : UnixTimestamp => pushU64 t.asSecs :=
  selfDelimiting_pushU64.comap (fun _ _ => trivial) fun t u _ _ h => by
    cases t
    cases u
    exact congrArg UnixTimestamp.mk h

end Fields

/-! ### Records -/

section Records

/-- The strings of a record are as long as strings are. -/
structure DeviceRecord.Sized (d : DeviceRecord) : Prop where
  deviceName : Short (utf8 d.deviceName).length
  fingerprint : Short (utf8 d.fingerprint).length

theorem selfDelimiting_pushStatus :
    SelfDelimiting (fun _ => True) fun s : DeviceStatus => pushU8 (deviceStatusByte s) :=
  selfDelimiting_pushU8.comap (fun _ _ => trivial) fun s t _ _ h => by
    cases s <;> cases t <;> first | rfl | cases h

theorem selfDelimiting_pushStatusName :
    SelfDelimiting (fun _ => True) fun s : DeviceStatus => pushStr (deviceStatusName s) :=
  selfDelimiting_pushStr.comap (fun s _ => by rw [length_utf8]; cases s <;> decide) fun s t _ _ h => by
    cases s <;> cases t <;> first | rfl | simp [deviceStatusName] at h

theorem selfDelimiting_pushRole : SelfDelimiting (fun _ => True) pushRole := by
  have hrole (r : WorkspaceRole) : pushRole r = pushU8 (if r = .owner then 1 else 2) := by
    cases r <;> rfl
  intro r s x y _ _ heq
  rw [hrole, hrole] at heq
  obtain ⟨hbyte, hrest⟩ := selfDelimiting_pushU8.cancel trivial trivial heq
  cases r <;> cases s <;> first | exact ⟨rfl, hrest⟩ | cases hbyte

/-- A record, with its status written by any encoding that can be read back. -/
theorem selfDelimiting_record {pushStatus : DeviceStatus → Bytes}
    (hstatus : SelfDelimiting (fun _ => True) pushStatus) :
    SelfDelimiting DeviceRecord.Sized fun d => pushStr d.deviceId.asStr ++ pushStr d.deviceName ++
      pushBytes d.signingPublicKey.val ++ pushBytes d.exchangePublicKey.val ++ pushStr d.fingerprint ++
      pushStatus d.status := by
  intro a b x y ha hb heq
  simp only [List.append_assoc] at heq
  obtain ⟨hid, heq⟩ := (selfDelimiting_pushId (by decide)).cancel trivial trivial heq
  obtain ⟨hname, heq⟩ := selfDelimiting_pushStr.cancel ha.deviceName hb.deviceName heq
  obtain ⟨hsigning, heq⟩ := selfDelimiting_pushKey.cancel trivial trivial heq
  obtain ⟨hexchange, heq⟩ := selfDelimiting_pushKey.cancel trivial trivial heq
  obtain ⟨hprint, heq⟩ := selfDelimiting_pushStr.cancel ha.fingerprint hb.fingerprint heq
  obtain ⟨hstatus, heq⟩ := hstatus.cancel trivial trivial heq
  refine ⟨?_, heq⟩
  cases a
  cases b
  simp only [DeviceRecord.mk.injEq]
  exact ⟨hid, hname, hsigning, hexchange, hprint, hstatus⟩

theorem selfDelimiting_pushDeviceRecord : SelfDelimiting DeviceRecord.Sized pushDeviceRecord := by
  intro a b x y ha hb heq
  rw [pushDeviceRecord, pushDeviceRecord] at heq
  exact (selfDelimiting_record selfDelimiting_pushStatus).cancel ha hb heq

/-- The record an event holds, where it holds one. -/
def AccessEvent.Sized : AccessEvent → Prop
  | .workspaceCreated owner => owner.Sized
  | .deviceJoined _ device _ => device.Sized
  | _ => True

def accessEventTag : AccessEvent → UInt8
  | .workspaceCreated _ => 1
  | .deviceJoined .. => 2
  | .deviceRoleChanged .. => 3
  | .deviceRemoved _ => 4
  | .restrictedKeyGranted .. => 5
  | .restrictedKeyRevoked .. => 6

/-- An event starts with its tag. -/
theorem pushAccessEvent_tag (e : AccessEvent) :
    ∃ rest, pushAccessEvent e = pushU8 (accessEventTag e) ++ rest := by
  cases e with
  | workspaceCreated owner => exact ⟨_, rfl⟩
  | deviceJoined id device role => exact ⟨_, by rw [pushAccessEvent, List.append_assoc, List.append_assoc]; rfl⟩
  | deviceRoleChanged id role => exact ⟨_, by rw [pushAccessEvent, List.append_assoc]; rfl⟩
  | deviceRemoved id => exact ⟨_, rfl⟩
  | restrictedKeyGranted key generation id =>
    exact ⟨_, by rw [pushAccessEvent, List.append_assoc, List.append_assoc]; rfl⟩
  | restrictedKeyRevoked key generation id =>
    exact ⟨_, by rw [pushAccessEvent, List.append_assoc, List.append_assoc]; rfl⟩

theorem accessEventTag_eq {a b : AccessEvent} {x y : Bytes}
    (heq : pushAccessEvent a ++ x = pushAccessEvent b ++ y) : accessEventTag a = accessEventTag b := by
  obtain ⟨resta, ha⟩ := pushAccessEvent_tag a
  obtain ⟨restb, hb⟩ := pushAccessEvent_tag b
  rw [ha, hb, List.append_assoc, List.append_assoc] at heq
  exact (selfDelimiting_pushU8.cancel trivial trivial heq).1

/-- A key event, whatever its tag: the key, its generation and the device. -/
theorem keyEvent_cancel {k k' : KeyId} {g g' : UInt64} {d d' : DeviceId} {x y : Bytes}
    (heq : pushStr k.asStr ++ (pushU64 g ++ (pushStr d.asStr ++ x)) =
      pushStr k'.asStr ++ (pushU64 g' ++ (pushStr d'.asStr ++ y))) :
    (k = k' ∧ g = g' ∧ d = d') ∧ x = y := by
  obtain ⟨hkey, heq⟩ := (selfDelimiting_pushId (by decide)).cancel trivial trivial heq
  obtain ⟨hgeneration, heq⟩ := selfDelimiting_pushU64.cancel trivial trivial heq
  obtain ⟨hdevice, heq⟩ := (selfDelimiting_pushId (by decide)).cancel trivial trivial heq
  exact ⟨⟨hkey, hgeneration, hdevice⟩, heq⟩

/-- **An event is determined by its encoding**, whatever its variant. -/
theorem selfDelimiting_pushAccessEvent : SelfDelimiting AccessEvent.Sized pushAccessEvent := by
  intro a b x y ha hb heq
  have htag := accessEventTag_eq heq
  cases a with
  | workspaceCreated owner =>
    cases b with
    | workspaceCreated owner' =>
      simp only [pushAccessEvent, List.append_assoc] at heq
      obtain ⟨_, hrest⟩ := selfDelimiting_pushU8.cancel trivial trivial heq
      obtain ⟨rfl, hrest2⟩ := selfDelimiting_pushDeviceRecord.cancel ha hb hrest
      exact ⟨rfl, hrest2⟩
    | _ => cases htag
  | deviceJoined id device role =>
    cases b with
    | deviceJoined id' device' role' =>
      simp only [pushAccessEvent, List.append_assoc] at heq
      obtain ⟨_, hrest⟩ := selfDelimiting_pushU8.cancel trivial trivial heq
      obtain ⟨rfl, hrest2⟩ := (selfDelimiting_pushId (by decide)).cancel trivial trivial hrest
      obtain ⟨rfl, hrest3⟩ := selfDelimiting_pushDeviceRecord.cancel ha hb hrest2
      obtain ⟨rfl, hrest4⟩ := selfDelimiting_pushRole.cancel trivial trivial hrest3
      exact ⟨rfl, hrest4⟩
    | _ => cases htag
  | deviceRoleChanged id role =>
    cases b with
    | deviceRoleChanged id' role' =>
      simp only [pushAccessEvent, List.append_assoc] at heq
      obtain ⟨_, hrest⟩ := selfDelimiting_pushU8.cancel trivial trivial heq
      obtain ⟨rfl, hrest2⟩ := (selfDelimiting_pushId (by decide)).cancel trivial trivial hrest
      obtain ⟨rfl, hrest3⟩ := selfDelimiting_pushRole.cancel trivial trivial hrest2
      exact ⟨rfl, hrest3⟩
    | _ => cases htag
  | deviceRemoved id =>
    cases b with
    | deviceRemoved id' =>
      simp only [pushAccessEvent, List.append_assoc] at heq
      obtain ⟨_, hrest⟩ := selfDelimiting_pushU8.cancel trivial trivial heq
      obtain ⟨rfl, hrest2⟩ := (selfDelimiting_pushId (by decide)).cancel trivial trivial hrest
      exact ⟨rfl, hrest2⟩
    | _ => cases htag
  | restrictedKeyGranted key generation id =>
    cases b with
    | restrictedKeyGranted key' generation' id' =>
      simp only [pushAccessEvent, List.append_assoc] at heq
      obtain ⟨_, hrest⟩ := selfDelimiting_pushU8.cancel trivial trivial heq
      obtain ⟨⟨rfl, rfl, rfl⟩, hrest2⟩ := keyEvent_cancel hrest
      exact ⟨rfl, hrest2⟩
    | _ => cases htag
  | restrictedKeyRevoked key generation id =>
    cases b with
    | restrictedKeyRevoked key' generation' id' =>
      simp only [pushAccessEvent, List.append_assoc] at heq
      obtain ⟨_, hrest⟩ := selfDelimiting_pushU8.cancel trivial trivial heq
      obtain ⟨⟨rfl, rfl, rfl⟩, hrest2⟩ := keyEvent_cancel hrest
      exact ⟨rfl, hrest2⟩
    | _ => cases htag

end Records

/-! ### Messages -/

/-- The four kinds of message that are signed. -/
inductive SignedObject where
  | accessEvent (event : SignedAccessEvent)
  | joinRequest (request : DeviceJoinRequest)
  | keyEnvelope (envelope : KeyEnvelope)
  | httpRequest (request : SignedHttpRequest)

namespace SignedObject

def payload : SignedObject → Bytes
  | .accessEvent event => event.signingPayload
  | .joinRequest request => request.signingPayload
  | .keyEnvelope envelope => envelope.signingPayload
  | .httpRequest request => request.input.canonicalPayload

/-- The bytes a signature is made of and checked against. -/
def signedBytes (self : SignedObject) : Bytes := deviceSignaturePayload self.payload

def withSignature (self : SignedObject) (signature : Bytes) : SignedObject :=
  match self with
  | .accessEvent event => .accessEvent { event with signature }
  | .joinRequest request => .joinRequest { request with signature }
  | .keyEnvelope envelope => .keyEnvelope { envelope with signature }
  | .httpRequest request => .httpRequest { request with signature }

/-- What memory and HTTP give: strings are shorter than `2 ^ 64` bytes, a
method and a path hold no line feed, and a body stands by its hash and its
length. -/
def Admissible (c : Crypto) : SignedObject → Prop
  | .accessEvent event => event.event.Sized
  | .joinRequest request => request.device.Sized
  | .keyEnvelope _ => True
  | .httpRequest request => '\n' ∉ request.input.method.toList ∧ '\n' ∉ request.input.pathAndQuery.toList ∧
      ∃ body, request.input.bodySha256Hex = sha256Hex c body ∧ request.input.contentLength = body.length

end SignedObject

section Messages

variable {c : Crypto}

theorem deviceSignaturePayload_injective {m m' : Bytes}
    (h : deviceSignaturePayload m = deviceSignaturePayload m') : m = m' :=
  pushBytes_injective (List.append_inj h rfl).2

/-- An event's signature aside, its payload determines it. -/
theorem accessEvent_injective {e e' : SignedAccessEvent} (he : e.event.Sized) (he' : e'.event.Sized)
    (h : e.signingPayload = e'.signingPayload) : { e with signature := [] } = { e' with signature := [] } := by
  have heq : e.signingPayload ++ [] = e'.signingPayload ++ [] := by rw [h]
  simp only [SignedAccessEvent.signingPayload, List.append_assoc] at heq
  have hdomain : pushBytes accessEventDomain ++ _ = pushBytes accessEventDomain ++ _ := heq
  have heq := List.append_cancel_left hdomain
  obtain ⟨hid, heq⟩ := (selfDelimiting_pushId (by decide)).cancel trivial trivial heq
  obtain ⟨hworkspace, heq⟩ := (selfDelimiting_pushId (by decide)).cancel trivial trivial heq
  obtain ⟨hrevision, heq⟩ := selfDelimiting_pushU64.cancel trivial trivial heq
  obtain ⟨hactor, heq⟩ := (selfDelimiting_pushId (by decide)).cancel trivial trivial heq
  obtain ⟨htime, heq⟩ := selfDelimiting_pushTime.cancel trivial trivial heq
  obtain ⟨hevent, _⟩ := selfDelimiting_pushAccessEvent.cancel he he' heq
  simp only [SignedAccessEvent.mk.injEq]
  exact ⟨hid, hworkspace, hrevision, hactor, htime, hevent, trivial⟩

theorem joinRequest_injective {r r' : DeviceJoinRequest} (hr : r.device.Sized) (hr' : r'.device.Sized)
    (h : r.signingPayload = r'.signingPayload) : { r with signature := [] } = { r' with signature := [] } := by
  have heq : r.signingPayload ++ [] = r'.signingPayload ++ [] := by rw [h]
  simp only [DeviceJoinRequest.signingPayload, List.append_assoc] at heq
  have heq := List.append_cancel_left heq
  obtain ⟨hid, heq⟩ := (selfDelimiting_pushId (by decide)).cancel trivial trivial heq
  obtain ⟨hworkspace, heq⟩ := (selfDelimiting_pushId (by decide)).cancel trivial trivial heq
  have hrecord := selfDelimiting_record selfDelimiting_pushStatusName
  obtain ⟨hdevice, heq⟩ := hrecord r.device r'.device _ _ hr hr' (by simpa only [List.append_assoc] using heq)
  obtain ⟨htime, _⟩ := selfDelimiting_pushTime.cancel trivial trivial heq
  simp only [DeviceJoinRequest.mk.injEq]
  exact ⟨hid, hworkspace, hdevice, htime, trivial⟩

theorem keyEnvelope_injective {e e' : KeyEnvelope} (h : e.signingPayload = e'.signingPayload) :
    { e with signature := [] } = { e' with signature := [] } := by
  have heq := h
  simp only [KeyEnvelope.signingPayload, KeyEnvelope.contextBytes, List.append_assoc] at heq
  have heq := List.append_cancel_left heq
  obtain ⟨hworkspace, heq⟩ := (selfDelimiting_pushId (by decide)).cancel trivial trivial heq
  obtain ⟨hkey, heq⟩ := (selfDelimiting_pushId (by decide)).cancel trivial trivial heq
  obtain ⟨hgeneration, heq⟩ := selfDelimiting_pushU64.cancel trivial trivial heq
  obtain ⟨hrevision, heq⟩ := selfDelimiting_pushU64.cancel trivial trivial heq
  obtain ⟨hsender, heq⟩ := (selfDelimiting_pushId (by decide)).cancel trivial trivial heq
  obtain ⟨hrecipient, heq⟩ := (selfDelimiting_pushId (by decide)).cancel trivial trivial heq
  -- there is one algorithm
  have halgorithm : e.algorithm = e'.algorithm := by
    cases e.algorithm
    cases e'.algorithm
    rfl
  rw [halgorithm] at heq
  have heq := List.append_cancel_left heq
  obtain ⟨htime, heq⟩ := selfDelimiting_pushTime.cancel trivial trivial heq
  obtain ⟨hephemeral, heq⟩ := selfDelimiting_pushKey.cancel trivial trivial heq
  obtain ⟨hnonce, heq⟩ := selfDelimiting_pushNonce.cancel trivial trivial heq
  have hencrypted := pushBytes_injective heq
  simp only [KeyEnvelope.mk.injEq]
  exact ⟨hworkspace, hkey, hgeneration, hrevision, hsender, hrecipient, trivial, hephemeral, hnonce,
    hencrypted, htime, trivial⟩

/-! ### HTTP requests -/

/-- The lines of a request. -/
def HttpRequestSignatureInput.lines (self : HttpRequestSignatureInput) : List String :=
  [authDomain, self.method, self.pathAndQuery, self.bodySha256Hex, toString self.timestamp.asSecs,
    self.deviceId.asStr, self.nonce.asStr, toString self.contentLength]

/-- The payload is the UTF-8 of the lines. -/
theorem canonicalPayload_eq (input : HttpRequestSignatureInput) :
    input.canonicalPayload =
      ((input.lines.map String.toList).flatMap fun line => line ++ ['\n']).flatMap String.utf8EncodeChar := by
  have hline (line : String) : utf8 line ++ utf8 "\n" =
      (line.toList ++ ['\n']).flatMap String.utf8EncodeChar := by
    rw [List.flatMap_append]
    rfl
  rw [HttpRequestSignatureInput.canonicalPayload, ← HttpRequestSignatureInput.lines, List.flatMap_assoc,
    List.flatMap_map]
  simp only [hline]

theorem newline_not_mem_nonce (n : RequestNonce) : '\n' ∉ n.asStr.toList := by
  intro hmem
  have hchar := List.all_eq_true.mp n.all_isIdChar _ hmem
  exact absurd hchar (by decide)

theorem newline_not_mem_number (n : ℕ) : '\n' ∉ (toString n).toList := by
  intro hmem
  have hdigits : '\n' ∈ Nat.toDigits 10 n := by
    rw [← Nat.toList_repr]
    exact hmem
  have hdigit := Nat.isDigit_of_mem_toDigits (by decide) (by decide) hdigits
  exact absurd hdigit (by decide)

theorem newline_ne_hexDigit {n : ℕ} (hn : n < 16) : '\n' ≠ hexDigit n := by
  revert n
  decide

theorem newline_not_mem_sha256Hex (body : Bytes) : '\n' ∉ (sha256Hex c body).toList := by
  rw [sha256Hex, String.toList_ofList, List.mem_flatMap]
  rintro ⟨b, _, hmem⟩
  have hb := b.toNat_lt
  rcases List.mem_cons.mp hmem with hhigh | hrest
  · exact newline_ne_hexDigit (show b.toNat / 16 < 16 by omega) hhigh
  · exact newline_ne_hexDigit (show b.toNat % 16 < 16 by omega) (List.mem_singleton.mp hrest)

/-- No line holds a line feed. -/
theorem newline_not_mem_lines {request : SignedHttpRequest}
    (h : (SignedObject.httpRequest request).Admissible c) :
    ∀ line ∈ request.input.lines.map String.toList, '\n' ∉ line := by
  obtain ⟨hmethod, hpath, body, hbody, _⟩ := h
  simp only [HttpRequestSignatureInput.lines, List.map_cons, List.map_nil, List.forall_mem_cons]
  refine ⟨by decide, hmethod, hpath, ?_, newline_not_mem_number _, TextId.not_mem _ (by decide),
    newline_not_mem_nonce _, newline_not_mem_number _, nofun⟩
  rw [hbody]
  exact newline_not_mem_sha256Hex body

theorem httpRequest_injective {r r' : SignedHttpRequest} (hr : (SignedObject.httpRequest r).Admissible c)
    (hr' : (SignedObject.httpRequest r').Admissible c)
    (h : r.input.canonicalPayload = r'.input.canonicalPayload) : r.input = r'.input := by
  rw [canonicalPayload_eq, canonicalPayload_eq] at h
  have hlength : (r.input.lines.map String.toList).length = (r'.input.lines.map String.toList).length := rfl
  have hlines := lines_injective hlength (newline_not_mem_lines hr) (newline_not_mem_lines hr')
    (encodeChars_injective h)
  simp only [HttpRequestSignatureInput.lines, List.map_cons, List.map_nil, List.cons.injEq,
    String.toList_inj] at hlines
  obtain ⟨_, hmethod, hpath, hbody, htime, hdevice, hnonce, hlength, _⟩ := hlines
  have htime' : r.input.timestamp = r'.input.timestamp := by
    have hsecs := Nat.repr_injective htime
    have hasSecs := UInt64.toNat_inj.mp hsecs
    exact congrArg UnixTimestamp.mk hasSecs
  have hnonce' : r.input.nonce = r'.input.nonce := by
    generalize r.input.nonce = n, r'.input.nonce = n' at hnonce
    cases n
    cases n'
    simpa using hnonce
  generalize r.input = input, r'.input = input' at *
  cases input
  cases input'
  simp only [HttpRequestSignatureInput.mk.injEq]
  exact ⟨hmethod, hpath, hbody, htime', TextId.asStr_injective hdevice, hnonce', Nat.repr_injective hlength⟩

/-! ### Domains -/

/-- The domain of the messages that are chains of fields; an HTTP request has
its domain on its first line. -/
def SignedObject.domain : SignedObject → Option Bytes
  | .accessEvent _ => some accessEventDomain
  | .joinRequest _ => some deviceJoinRequestDomain
  | .keyEnvelope _ => some keyEnvelopeDomain
  | .httpRequest _ => none

theorem payload_domain {o : SignedObject} {d : Bytes} (h : o.domain = some d) :
    Short d.length ∧ ∃ rest, o.payload = pushBytes d ++ rest := by
  cases o with
  | accessEvent e =>
    cases h
    refine ⟨by decide, ?_⟩
    simp only [SignedObject.payload, SignedAccessEvent.signingPayload, List.append_assoc]
    exact ⟨_, rfl⟩
  | joinRequest r =>
    cases h
    refine ⟨by decide, ?_⟩
    simp only [SignedObject.payload, DeviceJoinRequest.signingPayload, List.append_assoc]
    exact ⟨_, rfl⟩
  | keyEnvelope e =>
    cases h
    refine ⟨by decide, ?_⟩
    simp only [SignedObject.payload, KeyEnvelope.signingPayload, KeyEnvelope.contextBytes, List.append_assoc]
    exact ⟨_, rfl⟩
  | httpRequest r => cases h

/-- A chain of fields starts with the high byte of a length. -/
theorem head_of_domain {o : SignedObject} {d : Bytes} (h : o.domain = some d) : o.payload.head? = some 0 := by
  have hshort : d.length < 2 ^ 56 := by
    cases o <;> cases h <;> decide
  obtain ⟨_, rest, hrest⟩ := payload_domain h
  have hhigh : (UInt64.ofNat d.length >>> 56).toUInt8 = 0 := by
    refine UInt8.toNat_inj.mp ?_
    rw [byte_of_shift _ (by decide), UInt64.toNat_ofNat_of_lt' (show d.length < 2 ^ 64 by omega)]
    have hzero : d.length / 2 ^ 56 = 0 := Nat.div_eq_of_lt hshort
    simp only [UInt64.reduceToNat, hzero]
    rfl
  rw [hrest, pushBytes, u64ToBeBytes, List.map_cons, List.cons_append, List.cons_append, List.head?_cons,
    hhigh]

/-- An HTTP request starts with a letter. -/
theorem head_of_httpRequest (r : SignedHttpRequest) : r.input.canonicalPayload.head? = some 114 := by
  have hdomain : utf8 authDomain = 114 :: (utf8 authDomain).tail := by decide
  rw [HttpRequestSignatureInput.canonicalPayload, List.flatMap_cons, hdomain]
  rfl

theorem domain_eq {a b : SignedObject} (h : a.payload = b.payload) : a.domain = b.domain := by
  cases ha : a.domain with
  | some d =>
    cases hb : b.domain with
    | some d' =>
      obtain ⟨hd, rest, hrest⟩ := payload_domain ha
      obtain ⟨hd', rest', hrest'⟩ := payload_domain hb
      rw [hrest, hrest'] at h
      rw [(selfDelimiting_pushBytes.cancel hd hd' h).1]
    | none =>
      cases b with
      | httpRequest r =>
        have hhead := head_of_domain ha
        rw [h, SignedObject.payload, head_of_httpRequest] at hhead
        cases hhead
      | _ => cases hb
  | none =>
    cases a with
    | httpRequest r =>
      cases hb : b.domain with
      | some d' =>
        have hhead := head_of_domain hb
        rw [← h, SignedObject.payload, head_of_httpRequest] at hhead
        cases hhead
      | none => rfl
    | _ => cases ha

/-- No two domains are the same. -/
theorem domains_ne : accessEventDomain ≠ deviceJoinRequestDomain ∧ accessEventDomain ≠ keyEnvelopeDomain ∧
    deviceJoinRequestDomain ≠ keyEnvelopeDomain := by decide

/-- **Signed bytes determine the message.** Messages with the same signed
bytes are of one kind, and the same but for their signatures. -/
theorem signedBytes_injective (c : Crypto) {a b : SignedObject} (ha : a.Admissible c)
    (hb : b.Admissible c) (h : a.signedBytes = b.signedBytes) :
    a.withSignature [] = b.withSignature [] := by
  have hpayload : a.payload = b.payload := deviceSignaturePayload_injective h
  have hdomain := domain_eq hpayload
  obtain ⟨hejoin, heenvelope, hjoinenvelope⟩ := domains_ne
  cases a with
  | accessEvent e =>
    cases b with
    | accessEvent e' => exact congrArg SignedObject.accessEvent (accessEvent_injective ha hb hpayload)
    | joinRequest r => exact absurd (Option.some.inj hdomain) hejoin
    | keyEnvelope k => exact absurd (Option.some.inj hdomain) heenvelope
    | httpRequest r => cases hdomain
  | joinRequest r =>
    cases b with
    | accessEvent e => exact absurd (Option.some.inj hdomain).symm hejoin
    | joinRequest r' => exact congrArg SignedObject.joinRequest (joinRequest_injective ha hb hpayload)
    | keyEnvelope k => exact absurd (Option.some.inj hdomain) hjoinenvelope
    | httpRequest r' => cases hdomain
  | keyEnvelope k =>
    cases b with
    | accessEvent e => exact absurd (Option.some.inj hdomain).symm heenvelope
    | joinRequest r => exact absurd (Option.some.inj hdomain).symm hjoinenvelope
    | keyEnvelope k' => exact congrArg SignedObject.keyEnvelope (keyEnvelope_injective hpayload)
    | httpRequest r => cases hdomain
  | httpRequest r =>
    cases b with
    | httpRequest r' =>
      have hinput := httpRequest_injective ha hb hpayload
      simp only [SignedObject.withSignature, hinput]
    | _ => cases hdomain

end Messages

/-- The creation of the sample workspace, signed twice. -/
theorem creation_signedBytes (signature : Bytes) :
    (SignedObject.accessEvent { Codec.creation with signature }).signedBytes =
      (SignedObject.accessEvent Codec.creation).signedBytes := rfl

theorem creation_sized : (SignedObject.accessEvent Codec.creation).Admissible sampleCrypto := by
  refine ⟨?_, ?_⟩
  · show (utf8 "laptop").length < 2 ^ 64
    decide
  · show (utf8 "FQUR-NB-3-83DI-FG").length < 2 ^ 64
    decide

theorem creation_signed_once :
    (SignedObject.accessEvent { Codec.creation with signature := [1] }).withSignature [] =
      (SignedObject.accessEvent Codec.creation).withSignature [] :=
  signedBytes_injective sampleCrypto creation_sized creation_sized (creation_signedBytes [1])

end RustSync
