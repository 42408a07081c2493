/-
Storing access states

The server stores and sends an access state as JSON, a client keeps it as
TOML; both validate it on the way in and out. The field names, the optional
fields and the enumerations are what the derived `Serialize` and
`Deserialize` make of them. The keys of `key_grants` are structs, which
neither format can write: a state goes through exactly as long as no
restricted key was ever granted (`persists_iff`).

Key definitions: `serAccessState`, `decodeAccessState`, `saveJson`,
`loadJson`, `saveToml`, `loadToml`, `PersistsOnServer`, `PersistsOnClient`.
-/
import RustSync.Access.History
import RustSync.Lib.Serde

namespace RustSync
namespace Codec

open Serde AccessState

def json : Format := ⟨true, 2 ^ 64, true⟩

/-- TOML's integers reach up to `limit`, which no reader or writer puts below
`2 ^ 63`. -/
def toml (limit : ℕ) : Format := ⟨false, limit, false⟩

/-! ### Identifiers and enumerations -/

def serId {k : IdKind} (id : TextId k) : Ser := .str id.asStr

/-- A string that must parse as an identifier of the kind. -/
def idOfString (k : IdKind) (s : String) : Except DecodeError (TextId k) :=
  match TextId.parse k s with
  | .ok id => .ok id
  | .error e =>
    let kind := e.kind
    let value := e.value
    let reason := e.reason
    .error (.invalidValue s!"invalid {kind} identifier `{value}`: {reason}")

def decodeId (k : IdKind) (d : Doc) : Except DecodeError (TextId k) := do
  idOfString k (← asStr d)

def serStatus (s : DeviceStatus) : Ser := .str (deviceStatusName s)

/-- The variants, with their aliases. -/
def decodeStatus (d : Doc) : Except DecodeError DeviceStatus := do
  match ← asStr d with
  | "pending" | "Pending" => return .pending
  | "active" | "Active" => return .active
  | "revoked" | "Revoked" => return .revoked
  | other => throw (.unknownVariant other)

def serRole : WorkspaceRole → Ser
  | .owner => .str "owner"
  | .member => .str "member"

def decodeRole (d : Doc) : Except DecodeError WorkspaceRole := do
  match ← asStr d with
  | "owner" | "Owner" => return .owner
  | "member" | "Member" => return .member
  | other => throw (.unknownVariant other)

def serMembershipStatus : MembershipStatus → Ser
  | .active => .str "active"
  | .removed => .str "removed"

def decodeMembershipStatus (d : Doc) : Except DecodeError MembershipStatus := do
  match ← asStr d with
  | "active" => return .active
  | "removed" => return .removed
  | other => throw (.unknownVariant other)

def serKey32 (key : Key32) : Ser := .seq (key.val.map .u8)

def decodeKey32 (d : Doc) : Except DecodeError Key32 := do
  let bytes ← decodeItems asU8 (← asItems d)
  if h : bytes.length = 32 then return ⟨bytes, h⟩ else throw .invalidLength

/-! ### Records -/

def serDeviceRecord (d : DeviceRecord) : Ser :=
  .record [("device_id", serId d.deviceId), ("device_name", .str d.deviceName),
    ("signing_public_key", serKey32 d.signingPublicKey),
    ("exchange_public_key", serKey32 d.exchangePublicKey),
    ("fingerprint", .str d.fingerprint), ("status", serStatus d.status)]

def decodeDeviceRecord (d : Doc) : Except DecodeError DeviceRecord := do
  let fields ← asTable d
  let deviceId ← field fields "device_id" (decodeId deviceIdKind)
  let deviceName ← field fields "device_name" asStr
  let signingPublicKey ← field fields "signing_public_key" decodeKey32
  let exchangePublicKey ← field fields "exchange_public_key" decodeKey32
  let fingerprint ← field fields "fingerprint" asStr
  let status ← field fields "status" decodeStatus
  return { deviceId, deviceName, signingPublicKey, exchangePublicKey, fingerprint, status }

def serMembership (m : Membership) : Ser :=
  .record [("device_id", serId m.deviceId), ("role", serRole m.role),
    ("status", serMembershipStatus m.status), ("joined_by_device_id", serId m.joinedByDeviceId),
    ("joined_at", .u64 m.joinedAt), ("joined_at_revision", .u64 m.joinedAtRevision),
    ("removed_by_device_id", serOption serId m.removedByDeviceId),
    ("removed_at", serOption .u64 m.removedAt),
    ("removed_at_revision", serOption .u64 m.removedAtRevision)]

def decodeMembership (d : Doc) : Except DecodeError Membership := do
  let fields ← asTable d
  let deviceId ← field fields "device_id" (decodeId deviceIdKind)
  let role ← field fields "role" decodeRole
  let status ← field fields "status" decodeMembershipStatus
  let joinedByDeviceId ← field fields "joined_by_device_id" (decodeId deviceIdKind)
  let joinedAt ← field fields "joined_at" asU64
  let joinedAtRevision ← field fields "joined_at_revision" asU64
  let removedByDeviceId ← optField fields "removed_by_device_id" (decodeId deviceIdKind)
  let removedAt ← optField fields "removed_at" asU64
  let removedAtRevision ← optField fields "removed_at_revision" asU64
  return { deviceId, role, status, joinedByDeviceId, joinedAt, joinedAtRevision, removedByDeviceId,
           removedAt, removedAtRevision }

def serKeyGrant (g : KeyGrant) : Ser :=
  .record [("key_id", serId g.keyId), ("generation", .u64 g.generation),
    ("device_id", serId g.deviceId), ("granted_by_device_id", serId g.grantedByDeviceId),
    ("granted_at", .u64 g.grantedAt), ("granted_at_revision", .u64 g.grantedAtRevision),
    ("revoked_by_device_id", serOption serId g.revokedByDeviceId),
    ("revoked_at", serOption .u64 g.revokedAt),
    ("revoked_at_revision", serOption .u64 g.revokedAtRevision)]

def decodeKeyGrant (d : Doc) : Except DecodeError KeyGrant := do
  let fields ← asTable d
  let keyId ← field fields "key_id" (decodeId keyIdKind)
  let generation ← field fields "generation" asU64
  let deviceId ← field fields "device_id" (decodeId deviceIdKind)
  let grantedByDeviceId ← field fields "granted_by_device_id" (decodeId deviceIdKind)
  let grantedAt ← field fields "granted_at" asU64
  let grantedAtRevision ← field fields "granted_at_revision" asU64
  let revokedByDeviceId ← optField fields "revoked_by_device_id" (decodeId deviceIdKind)
  let revokedAt ← optField fields "revoked_at" asU64
  let revokedAtRevision ← optField fields "revoked_at_revision" asU64
  return { keyId, generation, deviceId, grantedByDeviceId, grantedAt, grantedAtRevision,
           revokedByDeviceId, revokedAt, revokedAtRevision }

/-- A key version is a struct, also where it is a map key. -/
def serKeyVersion (v : KeyVersion) : Ser :=
  .record [("key_id", serId v.keyId), ("generation", .u64 v.generation)]

/-- A map key is a string, which no struct is read from. -/
def keyVersionOfString (_ : String) : Except DecodeError KeyVersion := .error .invalidType

def serAccessState (s : AccessState) : Ser :=
  .record [("workspace_id", serId s.workspaceId), ("revision", .u64 s.revision),
    ("last_event_id", serOption serId s.lastEventId),
    ("devices", serMap serId serDeviceRecord s.devices),
    ("memberships", serMap serId serMembership s.memberships),
    ("key_grants", serMap serKeyVersion (serMap serId serKeyGrant) s.keyGrants)]

def decodeAccessState (d : Doc) : Except DecodeError AccessState := do
  let fields ← asTable d
  let workspaceId ← field fields "workspace_id" (decodeId workspaceIdKind)
  let revision ← field fields "revision" asU64
  let lastEventId ← optField fields "last_event_id" (decodeId accessEventIdKind)
  let devices ← field fields "devices" (decodeMap (idOfString deviceIdKind) decodeDeviceRecord)
  let memberships ← field fields "memberships" (decodeMap (idOfString deviceIdKind) decodeMembership)
  let keyGrants ← field fields "key_grants"
    (decodeMap keyVersionOfString (decodeMap (idOfString deviceIdKind) decodeKeyGrant))
  return { workspaceId, revision, lastEventId, devices, memberships, keyGrants }

/-- The body of a response that carries a state. -/
def serResponse (s : AccessState) : Ser := .record [("access_state", serAccessState s)]

def decodeResponse (d : Doc) : Except DecodeError AccessState := do
  field (← asTable d) "access_state" decodeAccessState

/-! ### The stores -/

inductive StoreError where
  | workspaceMismatch (expected actual : WorkspaceId)
  | invalid (error : ProtocolError)
  | encode (error : EncodeError)
  | decode (error : DecodeError)
deriving DecidableEq

section Stores

variable (c : Crypto)

/-- The server's check before a state is saved and after it is read. -/
def validateState (workspace : WorkspaceId) (s : AccessState) : Except StoreError Unit := do
  require (s.workspaceId = workspace) (.workspaceMismatch workspace s.workspaceId)
  (s.validate c).mapError .invalid

def saveJson (workspace : WorkspaceId) (s : AccessState) : Except StoreError Doc := do
  validateState c workspace s
  (encode json (serAccessState s)).mapError .encode

def loadJson (workspace : WorkspaceId) (d : Doc) : Except StoreError AccessState := do
  let s ← (decodeAccessState d).mapError .decode
  validateState c workspace s
  return s

def saveToml (limit : ℕ) (s : AccessState) : Except StoreError Doc := do
  (s.validate c).mapError .invalid
  (encode (toml limit) (serAccessState s)).mapError .encode

def loadToml (d : Doc) : Except StoreError AccessState := do
  let s ← (decodeAccessState d).mapError .decode
  (s.validate c).mapError .invalid
  return s

end Stores

/-! ### Round trips -/

section RoundTrips

variable {f : Format}

@[simp] theorem idOfString_asStr {k : IdKind} (id : TextId k) : idOfString k id.asStr = .ok id := by
  simp [idOfString]

theorem id_roundTrips {k : IdKind} (id : TextId k) : RoundTrips f serId (decodeId k) id :=
  ⟨nofun, nofun, .str id.asStr, by rw [serId, encode], by simp [decodeId, asStr, bind, Except.bind]⟩

theorem id_key {k : IdKind} (id : TextId k) :
    ∃ key, encodeKey f (serId id) = .ok key ∧ idOfString k key = .ok id :=
  ⟨id.asStr, rfl, idOfString_asStr id⟩

theorem status_roundTrips (s : DeviceStatus) : RoundTrips f serStatus decodeStatus s := by
  cases s <;> exact ⟨by rintro ⟨⟩, by rintro _ ⟨⟩, .str _, by rw [serStatus, encode], rfl⟩

theorem role_roundTrips (r : WorkspaceRole) : RoundTrips f serRole decodeRole r := by
  cases r <;> exact ⟨by rintro ⟨⟩, by rintro _ ⟨⟩, .str _, by rw [serRole, encode], rfl⟩

theorem membershipStatus_roundTrips (s : MembershipStatus) :
    RoundTrips f serMembershipStatus decodeMembershipStatus s := by
  cases s <;> exact ⟨by rintro ⟨⟩, by rintro _ ⟨⟩, .str _, by rw [serMembershipStatus, encode], rfl⟩

theorem key32_roundTrips (key : Key32) : RoundTrips f serKey32 decodeKey32 key := by
  have hbytes : ∀ n ∈ key.val, RoundTrips f .u8 asU8 n := fun n _ => u8_roundTrips n
  obtain ⟨ds, hds, hkey⟩ := items_roundTrip hbytes
  refine ⟨nofun, nofun, .arr ds, ?_, ?_⟩
  · rw [serKey32, encode, hds]
    rfl
  · simp [decodeKey32, asItems, hkey, key.property, bind, Except.bind, pure, Except.pure]

theorem deviceRecord_roundTrips (d : DeviceRecord) :
    RoundTrips f serDeviceRecord decodeDeviceRecord d := by
  refine record_roundTrips rfl ?_ nofun fun out hout => ?_
  · simp only [List.forall_mem_cons]
    exact ⟨(id_roundTrips _).writes, (str_roundTrips _).writes, (key32_roundTrips _).writes,
      (key32_roundTrips _).writes, (str_roundTrips _).writes, (status_roundTrips _).writes, by simp⟩
  · have hn : ["device_id", "device_name", "signing_public_key", "exchange_public_key", "fingerprint",
        "status"].Nodup := by decide
    simp only [decodeDeviceRecord, asTable, Except.bind_ok]
    exact ⟨out, rfl, d.deviceId, field_roundTrips hout hn (id_roundTrips _) (by simp),
      d.deviceName, field_roundTrips hout hn (str_roundTrips _) (by simp),
      d.signingPublicKey, field_roundTrips hout hn (key32_roundTrips _) (by simp),
      d.exchangePublicKey, field_roundTrips hout hn (key32_roundTrips _) (by simp),
      d.fingerprint, field_roundTrips hout hn (str_roundTrips _) (by simp),
      d.status, field_roundTrips hout hn (status_roundTrips _) (by simp), rfl⟩

/-- The integers of a membership that a format must be able to write. -/
def MembershipBelow (limit : ℕ) (m : Membership) : Prop :=
  m.joinedAt.toNat < limit ∧ m.joinedAtRevision.toNat < limit ∧
    (∀ n ∈ m.removedAt, n.toNat < limit) ∧ ∀ n ∈ m.removedAtRevision, n.toNat < limit

theorem membership_roundTrips {m : Membership} (h : MembershipBelow f.integerLimit m) :
    RoundTrips f serMembership decodeMembership m := by
  obtain ⟨hj, hjr, hr, hrr⟩ := h
  have hby : ∀ id ∈ m.removedByDeviceId, RoundTrips f serId (decodeId deviceIdKind) id :=
    fun id _ => id_roundTrips id
  have hat : ∀ n ∈ m.removedAt, RoundTrips f .u64 asU64 n := fun n hn => u64_roundTrips (hr n hn)
  have hrev : ∀ n ∈ m.removedAtRevision, RoundTrips f .u64 asU64 n :=
    fun n hn => u64_roundTrips (hrr n hn)
  refine record_roundTrips rfl ?_ nofun fun out hout => ?_
  · simp only [List.forall_mem_cons]
    exact ⟨(id_roundTrips _).writes, (role_roundTrips _).writes,
      (membershipStatus_roundTrips _).writes, (id_roundTrips _).writes, (u64_roundTrips hj).writes,
      (u64_roundTrips hjr).writes, optWrites hby, optWrites hat, optWrites hrev, by simp⟩
  · have hn : ["device_id", "role", "status", "joined_by_device_id", "joined_at", "joined_at_revision",
        "removed_by_device_id", "removed_at", "removed_at_revision"].Nodup := by decide
    simp only [decodeMembership, asTable, Except.bind_ok]
    exact ⟨out, rfl, m.deviceId, field_roundTrips hout hn (id_roundTrips _) (by simp),
      m.role, field_roundTrips hout hn (role_roundTrips _) (by simp),
      m.status, field_roundTrips hout hn (membershipStatus_roundTrips _) (by simp),
      m.joinedByDeviceId, field_roundTrips hout hn (id_roundTrips _) (by simp),
      m.joinedAt, field_roundTrips hout hn (u64_roundTrips hj) (by simp),
      m.joinedAtRevision, field_roundTrips hout hn (u64_roundTrips hjr) (by simp),
      m.removedByDeviceId, optField_roundTrips hout hn hby (by simp),
      m.removedAt, optField_roundTrips hout hn hat (by simp),
      m.removedAtRevision, optField_roundTrips hout hn hrev (by simp), rfl⟩

/-- What a format must be able to write of a state: its integers, and no key
grant. -/
structure Writable (f : Format) (s : AccessState) : Prop where
  revision : s.revision.toNat < f.integerLimit
  members : ∀ (id : DeviceId) (m : Membership), s.memberships[id]? = some m → MembershipBelow f.integerLimit m
  noGrants : s.keyGrants = ∅

/-- **A state round-trips exactly when it is writable.** -/
theorem accessState_roundTrips {s : AccessState} (h : Writable f s) :
    RoundTrips f serAccessState decodeAccessState s := by
  have hid : ∀ id ∈ s.lastEventId, RoundTrips f serId (decodeId accessEventIdKind) id :=
    fun id _ => id_roundTrips id
  have hdevices : RoundTrips f (serMap serId serDeviceRecord)
      (decodeMap (idOfString deviceIdKind) decodeDeviceRecord) s.devices :=
    map_roundTrips fun id d _ => ⟨id_key id, deviceRecord_roundTrips d⟩
  have hmembers : RoundTrips f (serMap serId serMembership)
      (decodeMap (idOfString deviceIdKind) decodeMembership) s.memberships :=
    map_roundTrips fun id m hm => ⟨id_key id, membership_roundTrips (h.members id m hm)⟩
  have hgrants : RoundTrips f (serMap serKeyVersion (serMap serId serKeyGrant))
      (decodeMap keyVersionOfString (decodeMap (idOfString deviceIdKind) decodeKeyGrant))
      s.keyGrants := by
    rw [h.noGrants]
    exact map_roundTrips fun v gs hv => by simp at hv
  refine record_roundTrips rfl ?_ nofun fun out hout => ?_
  · simp only [List.forall_mem_cons]
    exact ⟨(id_roundTrips _).writes, (u64_roundTrips h.revision).writes, optWrites hid,
      hdevices.writes, hmembers.writes, hgrants.writes, by simp⟩
  · have hn : ["workspace_id", "revision", "last_event_id", "devices", "memberships",
        "key_grants"].Nodup := by decide
    simp only [decodeAccessState, asTable, Except.bind_ok]
    exact ⟨out, rfl, s.workspaceId, field_roundTrips hout hn (id_roundTrips _) (by simp),
      s.revision, field_roundTrips hout hn (u64_roundTrips h.revision) (by simp),
      s.lastEventId, optField_roundTrips hout hn hid (by simp),
      s.devices, field_roundTrips hout hn hdevices (by simp),
      s.memberships, field_roundTrips hout hn hmembers (by simp),
      s.keyGrants, field_roundTrips hout hn hgrants (by simp), rfl⟩

/-- A number was written, so the format can write it. -/
theorem u64_below {n : UInt64} {d : Doc} (h : encode f (.u64 n) = .ok d) :
    n.toNat < f.integerLimit := by
  rw [encode] at h
  split at h
  · assumption
  · cases h

/-- What was written had no key grant, and a revision the format can write. -/
theorem encode_accessState {s : AccessState} {d : Doc} (h : encode f (serAccessState s) = .ok d) :
    s.keyGrants.isEmpty = true ∧ s.revision.toNat < f.integerLimit := by
  simp only [serAccessState, encode, Except.bind_ok] at h
  obtain ⟨out, hout, _⟩ := h
  constructor
  · obtain ⟨d', hd'⟩ : ∃ d', encode f (serMap serKeyVersion (serMap serId serKeyGrant) s.keyGrants) = .ok d' :=
      encode_of_mem hout (show ("key_grants", _) ∈ _ by simp) (by rintro ⟨⟩)
    rw [Std.ExtTreeMap.isEmpty_iff, ← Std.ExtTreeMap.toList_eq_nil_iff]
    cases hl : s.keyGrants.toList with
    | nil => rfl
    | cons p rest =>
      rw [serMap, hl, List.map_cons] at hd'
      obtain ⟨_, hkey⟩ := encode_map_key hd'
      cases hkey
  · obtain ⟨d', hd'⟩ : ∃ d', encode f (.u64 s.revision) = .ok d' :=
      encode_of_mem hout (show ("revision", _) ∈ _ by simp) (by rintro ⟨⟩)
    exact u64_below hd'

end RoundTrips

/-! ### What a history writes -/

section Histories

variable {c : Crypto} {s s' : AccessState} {e : SignedAccessEvent}

/-- The event grants a restricted key. -/
def grantsKey (e : SignedAccessEvent) : Bool :=
  match e.event with
  | .restrictedKeyGranted .. => true
  | _ => false

/-- The times a state records are below `limit`. -/
def TimesBelow (limit : ℕ) (s : AccessState) : Prop :=
  ∀ (id : DeviceId) (m : Membership), s.memberships[id]? = some m →
    m.joinedAt.toNat < limit ∧ ∀ n ∈ m.removedAt, n.toNat < limit

/-- The times of a state that was written can be written. -/
theorem timesBelow_of_encode {f : Format} {d : Doc} (h : encode f (serAccessState s) = .ok d) :
    TimesBelow f.integerLimit s := by
  intro id m hm
  simp only [serAccessState, encode, Except.bind_ok] at h
  obtain ⟨out, hout, _⟩ := h
  obtain ⟨_, hmembers⟩ : ∃ d', encode f (serMap serId serMembership s.memberships) = .ok d' :=
    encode_of_mem hout (show ("memberships", _) ∈ _ by simp) (by rintro ⟨⟩)
  obtain ⟨_, hmember⟩ := encode_map_value hmembers hm
  simp only [serMembership, encode, Except.bind_ok] at hmember
  obtain ⟨fields, hfields, _⟩ := hmember
  constructor
  · obtain ⟨_, hjoined⟩ : ∃ d', encode f (.u64 m.joinedAt) = .ok d' :=
      encode_of_mem hfields (show ("joined_at", _) ∈ _ by simp) (by rintro ⟨⟩)
    exact u64_below hjoined
  · intro n hn
    have hsome : serOption .u64 m.removedAt = .some (.u64 n) := by
      rw [Option.mem_def.mp hn]
      rfl
    obtain ⟨_, hremoved⟩ : ∃ d', encode f (.some (.u64 n)) = .ok d' :=
      encode_of_mem hfields (show ("removed_at", _) ∈ _ by simp [hsome]) (by rintro ⟨⟩)
    rw [encode] at hremoved
    exact u64_below hremoved

/-- Grants are in the map as soon as one was made. -/
theorem keyGrants_staged (hs : Staged c s e s') :
    s'.keyGrants.isEmpty = true ↔ s.keyGrants.isEmpty = true ∧ grantsKey e = false := by
  obtain ⟨_, _, _, n, mid, _, hchange, rfl⟩ := hs
  unfold grantsKey
  generalize e.event = ev at hchange
  cases hchange with
  | workspaceCreated | deviceJoined | deviceRoleChanged => exact (and_iff_left rfl).symm
  | deviceRemoved =>
    simp [commitEvent, removeDevice, revokeAllForDevice, modifyDevice, modifyMembership]
  | restrictedKeyGranted => simp [commitEvent, insertKeyGrant]
  | restrictedKeyRevoked => simp [commitEvent, modifyKeyGrant]

theorem timesBelow_staged {limit : ℕ} (hs : Staged c s e s') (ht : TimesBelow limit s)
    (he : e.createdAt.secs < limit) : TimesBelow limit s' := by
  obtain ⟨_, _, _, n, mid, _, hchange, rfl⟩ := hs
  generalize e.event = ev at hchange
  have hjoin : ∀ (t : AccessState) (d : DeviceId) role actor,
      t.memberships = s.memberships → TimesBelow limit
        ((t.insertMembership (.joined d role actor e.createdAt.asSecs n)).commitEvent e.eventId n) := by
    intro t d role actor ht' id m hm
    simp only [commitEvent_memberships, insertMembership, BTreeMap.lookup_insert, ht'] at hm
    split at hm
    · cases hm
      exact ⟨he, by simp [Membership.joined]⟩
    · exact ht id m hm
  cases hchange with
  | workspaceCreated => exact hjoin _ _ _ _ rfl
  | deviceJoined => exact hjoin _ _ _ _ rfl
  | deviceRoleChanged =>
    intro i m hm
    simp only [commitEvent_memberships, modifyMembership, BTreeMap.lookup_modify] at hm
    split at hm
    · obtain ⟨m', hm', rfl⟩ := Option.map_eq_some_iff.mp hm
      exact ht _ m' hm'
    · exact ht i m hm
  | deviceRemoved =>
    intro i m hm
    rw [commitEvent_memberships, memberships_removeDevice] at hm
    split at hm
    · obtain ⟨m', hm', rfl⟩ := Option.map_eq_some_iff.mp hm
      refine ⟨(ht _ m' hm').1, fun t htime => ?_⟩
      cases htime
      exact he
    · exact ht i m hm
  | restrictedKeyGranted => exact ht
  | restrictedKeyRevoked => exact ht

theorem keyGrants_history : ∀ (events : List SignedAccessEvent) {s : AccessState}, WellFormed c s →
    ((history c s events).keyGrants.isEmpty = true ↔
      s.keyGrants.isEmpty = true ∧ ∀ e ∈ accepted c s events, grantsKey e = false)
  | [], s, _ => by simp [history, accepted]
  | e :: events, s, h => by
    have ih := keyGrants_history events (h.attempt e).1
    have hstep : history c s (e :: events) = history c (attempt c s e) events := rfl
    rw [hstep, ih, accepted, List.forall_mem_append]
    rcases h.attempt_cases e with ⟨hacc, hs⟩ | ⟨hacc, hs⟩
    · simp [hacc, hs]
    · simp [hacc, keyGrants_staged hs, and_assoc]

theorem timesBelow_history {limit : ℕ} : ∀ (events : List SignedAccessEvent) {s : AccessState},
    WellFormed c s → TimesBelow limit s →
    (∀ e ∈ accepted c s events, e.createdAt.secs < limit) → TimesBelow limit (history c s events)
  | [], _, _, ht, _ => ht
  | e :: events, s, h, ht, hacc => by
    rw [accepted, List.forall_mem_append] at hacc
    refine timesBelow_history events (h.attempt e).1 ?_ hacc.2
    rcases h.attempt_cases e with ⟨_, hs⟩ | ⟨ha, hs⟩
    · rwa [hs]
    · exact timesBelow_staged hs ht (hacc.1 e (by simp [ha]))

/-- A well-formed state without grants is writable where its times and its
revision are. -/
theorem writable_of_wellFormed {f : Format} (h : WellFormed c s) (hg : s.keyGrants.isEmpty = true)
    (ht : TimesBelow f.integerLimit s) (hr : s.revision.toNat < f.integerLimit) : Writable f s where
  revision := hr
  members id m hm := by
    obtain ⟨_, ⟨_, hjoined⟩, _, _, henr⟩ := h.member id m hm
    obtain ⟨hj, hremoved⟩ := ht id m hm
    rw [UInt64.le_iff_toNat_le] at hjoined
    refine ⟨hj, by omega, hremoved, fun n hn => ?_⟩
    rcases henr with ⟨_, _, hnone, _⟩ | ⟨_, _, r, hsome, hle⟩
    · rw [hnone] at hn
      cases hn
    · rw [hsome] at hn
      cases hn
      rw [UInt64.le_iff_toNat_le] at hle
      omega
  noGrants := Std.ExtTreeMap.isEmpty_iff.mp hg

/-- The server's store and its responses give the state back. -/
def PersistsOnServer (c : Crypto) (s : AccessState) : Prop :=
  (∃ d, saveJson c s.workspaceId s = .ok d ∧ loadJson c s.workspaceId d = .ok s) ∧
    RoundTrips json serResponse decodeResponse s

/-- A client's file gives the state back. -/
def PersistsOnClient (c : Crypto) (limit : ℕ) (s : AccessState) : Prop :=
  ∃ d, saveToml c limit s = .ok d ∧ loadToml c d = .ok s

theorem response_roundTrips {f : Format} (h : RoundTrips f serAccessState decodeAccessState s) :
    RoundTrips f serResponse decodeResponse s := by
  refine record_roundTrips rfl ?_ nofun fun out hout => ?_
  · simp only [List.forall_mem_cons]
    exact ⟨h.writes, by simp⟩
  · have hn : ["access_state"].Nodup := by decide
    simp only [decodeResponse, asTable, Except.bind_ok]
    exact ⟨out, rfl, field_roundTrips hout hn h (by simp)⟩

theorem saveJson_ok {ws : WorkspaceId} {d : Doc} : saveJson c ws s = .ok d ↔
    (s.workspaceId = ws ∧ s.validate c = .ok ()) ∧ encode json (serAccessState s) = .ok d := by
  simp [saveJson, validateState, and_assoc]

theorem saveToml_ok {limit : ℕ} {d : Doc} : saveToml c limit s = .ok d ↔
    s.validate c = .ok () ∧ encode (toml limit) (serAccessState s) = .ok d := by
  simp [saveToml]

theorem persistsOnServer_iff (h : WellFormed c s) :
    PersistsOnServer c s ↔ s.keyGrants.isEmpty = true := by
  have hvalid := validate_of_wellFormed h
  constructor
  · rintro ⟨⟨d, hd, _⟩, _⟩
    exact (encode_accessState (saveJson_ok.mp hd).2).1
  · intro hg
    have hrt : RoundTrips json serAccessState decodeAccessState s :=
      accessState_roundTrips (writable_of_wellFormed h hg
        (fun _ m _ => ⟨m.joinedAt.toNat_lt, fun n _ => n.toNat_lt⟩) s.revision.toNat_lt)
    obtain ⟨d, hd, hs⟩ := hrt.written
    refine ⟨⟨d, saveJson_ok.mpr ⟨⟨rfl, hvalid⟩, hd⟩, ?_⟩, response_roundTrips hrt⟩
    simp only [loadJson, validateState, hs, Except.bind_ok, Except.mapError_ok, require_ok]
    exact ⟨s, rfl, (), ⟨(), rfl, hvalid⟩, rfl⟩

theorem persistsOnClient_iff {limit : ℕ} (h : WellFormed c s) (ht : TimesBelow limit s) :
    PersistsOnClient c limit s ↔ s.keyGrants.isEmpty = true ∧ s.revision.toNat < limit := by
  have hvalid := validate_of_wellFormed h
  constructor
  · rintro ⟨d, hd, _⟩
    exact encode_accessState (saveToml_ok.mp hd).2
  · rintro ⟨hg, hr⟩
    have hrt : RoundTrips (toml limit) serAccessState decodeAccessState s :=
      accessState_roundTrips (writable_of_wellFormed h hg ht hr)
    obtain ⟨d, hd, hs⟩ := hrt.written
    refine ⟨d, saveToml_ok.mpr ⟨hvalid, hd⟩, ?_⟩
    simp only [loadToml, hs, Except.bind_ok, Except.mapError_ok]
    exact ⟨s, rfl, (), hvalid, rfl⟩

/-- **When a history can be stored.** The server can store, send and reload a
state exactly when no restricted key was granted on the way to it; a client
can exactly when, besides, TOML can write how many events there were. -/
theorem persists_iff (c : Crypto) (limit : ℕ) (hlimit : 2 ^ 63 ≤ limit) (ws : WorkspaceId)
    (events : List SignedAccessEvent)
    (htimes : ∀ e ∈ accepted c (empty ws) events, e.createdAt.secs < 2 ^ 63) :
    (PersistsOnServer c (history c (empty ws) events) ↔
        ∀ e ∈ accepted c (empty ws) events, grantsKey e = false) ∧
      (PersistsOnClient c limit (history c (empty ws) events) ↔
        (∀ e ∈ accepted c (empty ws) events, grantsKey e = false) ∧
          (accepted c (empty ws) events).length < limit) := by
  have hempty := wellFormed_empty (c := c) ws
  have h := (WellFormed.history events hempty).1
  have hgrants := keyGrants_history events hempty
  rw [and_iff_right (show (empty ws).keyGrants.isEmpty = true by simp [empty])] at hgrants
  have ht : TimesBelow limit (history c (empty ws) events) :=
    timesBelow_history events hempty (fun id m hm => by simp [empty] at hm)
      fun e he => Nat.lt_of_lt_of_le (htimes e he) hlimit
  have hrev : (history c (empty ws) events).revision.toNat = (accepted c (empty ws) events).length :=
    (revision_history events hempty).trans (by simp [empty])
  rw [persistsOnServer_iff h, persistsOnClient_iff h ht, hgrants, hrev]
  exact ⟨Iff.rfl, Iff.rfl⟩

/-! ### A grant -/

def sampleWorkspace : WorkspaceId := ⟨"ws", by decide⟩
def sampleOwner : DeviceId := ⟨"device_owner", by decide⟩
def sampleEventId : AccessEventId := ⟨"event_1", by decide⟩

/-- An event of the sample owner. -/
def sampleEvent (expectedRevision : UInt64) (event : AccessEvent) : SignedAccessEvent where
  eventId := sampleEventId
  workspaceId := sampleWorkspace
  expectedRevision := expectedRevision
  actorDeviceId := sampleOwner
  createdAt := ⟨1000⟩
  event := event
  signature := sampleSignature

def creation : SignedAccessEvent :=
  sampleEvent 0 (.workspaceCreated (sampleDevice sampleOwner .active))

/-- The owner creates the workspace and grants itself a restricted key. -/
def grantHistory : List SignedAccessEvent :=
  [creation, sampleEvent 1 (.restrictedKeyGranted ⟨"k", by decide⟩ 1 sampleOwner)]

theorem not_persists : ¬ ∀ (c : Crypto) (limit : ℕ), 2 ^ 63 ≤ limit → ∀ ws events,
    (∀ e ∈ accepted c (empty ws) events, e.createdAt.secs < 2 ^ 63) →
    PersistsOnServer c (history c (empty ws) events) ∧
      PersistsOnClient c limit (history c (empty ws) events) := by
  intro h
  have hp := (h sampleCrypto (2 ^ 63) (Nat.le_refl _) sampleWorkspace grantHistory (by decide)).1
  have hwf := (WellFormed.history grantHistory (wellFormed_empty (c := sampleCrypto) sampleWorkspace)).1
  have hempty := (persistsOnServer_iff hwf).mp hp
  revert hempty
  decide

/-- A workspace without grants is stored and reloaded. -/
theorem creation_persists :
    PersistsOnServer sampleCrypto (history sampleCrypto (empty sampleWorkspace) [creation]) ∧
      PersistsOnClient sampleCrypto (2 ^ 63)
        (history sampleCrypto (empty sampleWorkspace) [creation]) := by
  obtain ⟨hserver, hclient⟩ := persists_iff sampleCrypto (2 ^ 63) (Nat.le_refl _) sampleWorkspace
    [creation] (by decide)
  exact ⟨hserver.mpr (by decide), hclient.mpr ⟨by decide, by decide⟩⟩

end Histories

end Codec
end RustSync
