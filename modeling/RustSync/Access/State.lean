/-
The access state of a workspace

A workspace's devices, their memberships and the grants of its restricted
keys, changed by `apply_verified_event` alone: it checks the event, makes the
change of the event's kind, moves to the next revision and validates the
whole state. The method writes before that last validation, so it is modelled
as a transformer that keeps what it wrote on failure.

`stageEvent` is the method up to the last validation. All it can do is said
once (`stageEvent_atomic`): fail and leave the state alone, or make one
`Change` and commit it.

Key definitions: `AccessState`, `applyVerifiedEvent`, `AccessState.validate`,
`Change`.
-/
import RustSync.Access.Event
import RustSync.Lib.Mut

namespace RustSync

inductive MembershipStatus where
  | active
  | removed
deriving DecidableEq, Repr

structure Membership where
  deviceId : DeviceId
  role : WorkspaceRole
  status : MembershipStatus
  joinedByDeviceId : DeviceId
  joinedAt : UInt64
  joinedAtRevision : UInt64
  removedByDeviceId : Option DeviceId
  removedAt : Option UInt64
  removedAtRevision : Option UInt64
deriving DecidableEq

structure KeyVersion where
  keyId : KeyId
  generation : UInt64
deriving DecidableEq

/-- Key versions are ordered by key, then generation. -/
instance : Ord KeyVersion := ⟨compareLex (compareOn KeyVersion.keyId) (compareOn KeyVersion.generation)⟩

instance : Std.TransOrd KeyVersion :=
  inferInstanceAs (Std.TransCmp (compareLex (compareOn KeyVersion.keyId) (compareOn KeyVersion.generation)))

instance : Std.LawfulEqOrd KeyVersion where
  eq_of_compare {a b} h := by
    have hlex : (compare a.keyId b.keyId).then (compare a.generation b.generation) = .eq := h
    rw [Ordering.then_eq_eq] at hlex
    obtain ⟨hk, hg⟩ := hlex
    cases a; cases b
    simp_all

structure KeyGrant where
  keyId : KeyId
  generation : UInt64
  deviceId : DeviceId
  grantedByDeviceId : DeviceId
  grantedAt : UInt64
  grantedAtRevision : UInt64
  revokedByDeviceId : Option DeviceId
  revokedAt : Option UInt64
  revokedAtRevision : Option UInt64
deriving DecidableEq

structure AccessState where
  workspaceId : WorkspaceId
  revision : UInt64
  lastEventId : Option AccessEventId
  devices : BTreeMap DeviceId DeviceRecord
  memberships : BTreeMap DeviceId Membership
  keyGrants : BTreeMap KeyVersion (BTreeMap DeviceId KeyGrant)

namespace AccessState

def empty (workspaceId : WorkspaceId) : AccessState :=
  ⟨workspaceId, 0, none, ∅, ∅, ∅⟩

def membership (self : AccessState) (deviceId : DeviceId) : Option Membership :=
  self.memberships[deviceId]?

def deviceRecord (self : AccessState) (deviceId : DeviceId) : Option DeviceRecord :=
  self.devices[deviceId]?

def activeMembership (self : AccessState) (deviceId : DeviceId) : ProtocolResult Membership := do
  let membership ← okOr (self.membership deviceId) (.deviceNotActiveMember deviceId)
  require (membership.status = .active) (.deviceNotActiveMember deviceId)
  return membership

def activeDeviceRecord (self : AccessState) (deviceId : DeviceId) : ProtocolResult DeviceRecord := do
  let _ ← self.activeMembership deviceId
  let device ← okOr (self.deviceRecord deviceId)
    (.invalidState s!"active membership for `{deviceId}` has no device record")
  require (device.status = .active)
    (.invalidState s!"active membership for `{deviceId}` has non-active device record")
  return device

def requirePermission (self : AccessState) (deviceId : DeviceId) (permission : WorkspacePermission) :
    ProtocolResult Unit := do
  let membership ← self.activeMembership deviceId
  require (membership.role.allows permission = true) (.permissionDenied deviceId permission)

def isActiveMember (self : AccessState) (deviceId : DeviceId) : Bool :=
  match self.activeMembership deviceId with
  | .ok _ => true
  | .error _ => false

def activeMembers (self : AccessState) : List Membership :=
  (self.memberships.toList.map Prod.snd).filter fun m => m.status = .active

def activeOwnerCount (self : AccessState) : ℕ :=
  (self.activeMembers.filter fun m => m.role = .owner).length

def keyGrant (self : AccessState) (keyId : KeyId) (generation : UInt64) (deviceId : DeviceId) :
    Option KeyGrant :=
  self.keyGrants[(⟨keyId, generation⟩ : KeyVersion)]?.bind fun grants => grants[deviceId]?

def hasActiveKeyGrant (self : AccessState) (keyId : KeyId) (generation : UInt64)
    (deviceId : DeviceId) : Bool :=
  match self.keyGrant keyId generation deviceId with
  | some grant => grant.revokedAtRevision.isNone
  | none => false

def requireKeyGrant (self : AccessState) (keyId : KeyId) (generation : UInt64)
    (deviceId : DeviceId) : ProtocolResult KeyGrant :=
  okOr ((self.keyGrant keyId generation deviceId).filter fun grant => grant.revokedAtRevision.isNone)
    (.deviceNotAuthorizedForKey keyId generation deviceId)

def requireEventPermission (self : AccessState) (event : SignedAccessEvent) : ProtocolResult Unit :=
  match event.event.requiredPermission with
  | some permission => self.requirePermission event.actorDeviceId permission
  | none => .ok ()

/-! ### Validation -/

section Validate

variable (c : Crypto)

def validateDevice (self : AccessState) (deviceId : DeviceId) (device : DeviceRecord) :
    ProtocolResult Unit := do
  let recorded := device.deviceId
  require (deviceId = device.deviceId)
    (.invalidState s!"device map key `{deviceId}` does not match record `{recorded}`")
  device.validate c
  require (self.memberships.contains deviceId = true)
    (.invalidState s!"device record for `{deviceId}` has no membership")

def validateMembership (self : AccessState) (deviceId : DeviceId) (membership : Membership) :
    ProtocolResult Unit := do
  let recorded := membership.deviceId
  require (deviceId = membership.deviceId)
    (.invalidState s!"membership map key `{deviceId}` does not match record `{recorded}`")
  let joined := membership.joinedAtRevision
  require (joined ≠ 0 ∧ joined ≤ self.revision)
    (.invalidState s!"membership for `{deviceId}` has invalid join revision {joined}")
  let device ← okOr self.devices[deviceId]?
    (.invalidState s!"membership for `{deviceId}` has no device record")
  match membership.status with
  | .active =>
    require (device.status = .active)
      (.invalidState s!"active membership for `{deviceId}` has non-active device record")
    require (membership.removedAtRevision = none ∧ membership.removedAt = none ∧
        membership.removedByDeviceId = none)
      (.invalidState s!"active membership for `{deviceId}` contains removal metadata")
  | .removed =>
    require (device.status ≠ .active)
      (.invalidState s!"removed membership for `{deviceId}` has active device record")
    let removedRevision ← okOr membership.removedAtRevision
      (.invalidState s!"removed membership for `{deviceId}` has no removal revision")
    require (removedRevision ≤ self.revision)
      (.invalidState s!"removed membership for `{deviceId}` has future revision")

def validateGrant (self : AccessState) (version : KeyVersion) (deviceId : DeviceId)
    (grant : KeyGrant) : ProtocolResult Unit := do
  require (deviceId = grant.deviceId ∧ version.keyId = grant.keyId ∧
      version.generation = grant.generation)
    (.invalidState "key grant index does not match grant record")
  let key := version.keyId
  require (grant.grantedAtRevision ≠ 0 ∧ grant.grantedAtRevision ≤ self.revision)
    (.invalidState s!"grant for key `{key}` and device `{deviceId}` has invalid revision")

def validateGrants (self : AccessState) (version : KeyVersion) (grants : BTreeMap DeviceId KeyGrant) :
    ProtocolResult Unit := do
  let key := version.keyId
  require (version.generation ≠ 0) (.invalidState s!"key `{key}` contains generation 0")
  forM grants.toList fun (deviceId, grant) => self.validateGrant version deviceId grant

def validate (self : AccessState) : ProtocolResult Unit :=
  if self.revision = 0 then
    require (self.memberships.isEmpty = true ∧ self.devices.isEmpty = true ∧ self.lastEventId = none)
      (.invalidState "revision 0 state must not contain applied access events")
  else do
    require (self.activeOwnerCount ≠ 0) .cannotRemoveLastOwner
    forM self.devices.toList fun (deviceId, device) => self.validateDevice c deviceId device
    forM self.memberships.toList fun (deviceId, membership) =>
      self.validateMembership deviceId membership
    forM self.keyGrants.toList fun (version, grants) => self.validateGrants version grants

end Validate

/-! ### Writes -/

def insertMembership (self : AccessState) (membership : Membership) : AccessState :=
  { self with memberships := self.memberships.insert membership.deviceId membership }

def insertDeviceRecord (self : AccessState) (device : DeviceRecord) : AccessState :=
  { self with devices := self.devices.insert device.deviceId device }

/-- `membership_mut` and what the caller then writes. -/
def modifyMembership (self : AccessState) (deviceId : DeviceId) (f : Membership → Membership) :
    AccessState :=
  { self with memberships := self.memberships.modify deviceId f }

/-- `devices.get_mut` and what the caller then writes. -/
def modifyDevice (self : AccessState) (deviceId : DeviceId) (f : DeviceRecord → DeviceRecord) :
    AccessState :=
  { self with devices := self.devices.modify deviceId f }

def insertKeyGrant (self : AccessState) (grant : KeyGrant) : AccessState :=
  { self with
    keyGrants := self.keyGrants.alter ⟨grant.keyId, grant.generation⟩ fun grants =>
      some ((grants.getD ∅).insert grant.deviceId grant) }

/-- `key_grant_mut` and what the caller then writes. -/
def modifyKeyGrant (self : AccessState) (keyId : KeyId) (generation : UInt64) (deviceId : DeviceId)
    (f : KeyGrant → KeyGrant) : AccessState :=
  { self with
    keyGrants := self.keyGrants.modify ⟨keyId, generation⟩ fun grants => grants.modify deviceId f }

end AccessState

/-- What revoking writes into a grant. -/
def KeyGrant.revoke (self : KeyGrant) (revokedBy : DeviceId) (revokedAt revokedAtRevision : UInt64) :
    KeyGrant :=
  { self with
    revokedByDeviceId := some revokedBy
    revokedAt := some revokedAt
    revokedAtRevision := some revokedAtRevision }

/-- What removing writes into a membership. -/
def Membership.remove (self : Membership) (removedBy : DeviceId) (removedAt removedAtRevision : UInt64) :
    Membership :=
  { self with
    status := .removed
    removedByDeviceId := some removedBy
    removedAt := some removedAt
    removedAtRevision := some removedAtRevision }

/-- A new member's membership. -/
def Membership.joined (deviceId : DeviceId) (role : WorkspaceRole) (joinedBy : DeviceId)
    (joinedAt joinedAtRevision : UInt64) : Membership :=
  { deviceId, role, status := .active, joinedByDeviceId := joinedBy, joinedAt, joinedAtRevision,
    removedByDeviceId := none, removedAt := none, removedAtRevision := none }

namespace AccessState

/-- The grants of a device that are not revoked yet. -/
def affectedVersions (self : AccessState) (deviceId : DeviceId) : List KeyVersion :=
  (self.keyGrants.toList.filter fun (version, _) =>
    self.hasActiveKeyGrant version.keyId version.generation deviceId).map Prod.fst

/-- Returns the versions it revoked a grant of, as the source does; no caller
looks at them. -/
def revokeAllForDevice (self : AccessState) (deviceId revokedBy : DeviceId)
    (revokedAt revokedAtRevision : UInt64) : List KeyVersion × AccessState :=
  (self.affectedVersions deviceId,
    { self with
      keyGrants := self.keyGrants.map fun _ grants => grants.modify deviceId fun grant =>
        if grant.revokedAtRevision.isNone then grant.revoke revokedBy revokedAt revokedAtRevision
        else grant })

/-- All a removal writes: the membership, the device record and its grants. -/
def removeDevice (self : AccessState) (deviceId removedBy : DeviceId)
    (removedAt removedAtRevision : UInt64) : AccessState :=
  (((self.modifyMembership deviceId fun m => m.remove removedBy removedAt removedAtRevision).modifyDevice
    deviceId DeviceRecord.revoke).revokeAllForDevice deviceId removedBy removedAt removedAtRevision).2

def commitEvent (self : AccessState) (eventId : AccessEventId) (nextRevision : UInt64) : AccessState :=
  { self with revision := nextRevision, lastEventId := some eventId }

@[simp] theorem commitEvent_memberships {self : AccessState} {eventId : AccessEventId} {n : UInt64} :
    (self.commitEvent eventId n).memberships = self.memberships := rfl
@[simp] theorem commitEvent_devices {self : AccessState} {eventId : AccessEventId} {n : UInt64} :
    (self.commitEvent eventId n).devices = self.devices := rfl

/-- `revision.checked_add(1)`. -/
def nextRevision (self : AccessState) : ProtocolResult UInt64 :=
  if self.revision = UInt64.ofNat (UInt64.size - 1) then .error .revisionOverflow
  else .ok (self.revision + 1)

/-! ### Applying an event -/

abbrev AccessM := Mut AccessState ProtocolError

open Mut

/-- The event kinds, up to `commit_event`. -/
def changeBy (event : SignedAccessEvent) (nextRevision : UInt64) : AccessM Unit := do
  let actor := event.actorDeviceId
  let now := event.createdAt.asSecs
  match event.event with
  | .workspaceCreated owner =>
    let self ← get
    check (require (self.revision = 0 ∧ self.memberships.isEmpty = true ∧ self.devices.isEmpty = true)
      (.invalidState "workspace-created event can only initialize an empty access state"))
    let named := owner.deviceId
    check (require (actor = owner.deviceId)
      (.invalidState s!"workspace-created actor `{actor}` does not match owner `{named}`"))
    modify fun self => (self.insertDeviceRecord owner).insertMembership
      (.joined owner.deviceId .owner owner.deviceId now nextRevision)
  | .deviceJoined _ device role =>
    let self ← get
    check (self.requireEventPermission event)
    check (require (self.membership device.deviceId = none) (.deviceAlreadyMember device.deviceId))
    modify fun self => (self.insertDeviceRecord device.activate).insertMembership
      (.joined device.deviceId role actor now nextRevision)
  | .deviceRoleChanged deviceId newRole =>
    let self ← get
    check (self.requireEventPermission event)
    let membership ← check (self.activeMembership deviceId)
    check (require (¬ (newRole ≠ .owner ∧ membership.role = .owner ∧ self.activeOwnerCount = 1))
      .cannotRemoveLastOwner)
    let _ ← check (okOr (self.membership deviceId) (.deviceNotActiveMember deviceId))
    modify fun self => self.modifyMembership deviceId fun m => { m with role := newRole }
  | .deviceRemoved deviceId =>
    let self ← get
    check (self.requireEventPermission event)
    let membership ← check (self.activeMembership deviceId)
    check (require (¬ (membership.role = .owner ∧ self.activeOwnerCount = 1)) .cannotRemoveLastOwner)
    let _ ← check (okOr (self.membership deviceId) (.deviceNotActiveMember deviceId))
    modify fun self => self.removeDevice deviceId actor now nextRevision
  | .restrictedKeyGranted keyId keyGeneration deviceId =>
    let self ← get
    check (self.requireEventPermission event)
    let _ ← check (self.activeMembership deviceId)
    check (require (self.hasActiveKeyGrant keyId keyGeneration deviceId = false)
      (.keyAccessAlreadyGranted keyId keyGeneration deviceId))
    modify fun self => self.insertKeyGrant
      { keyId, generation := keyGeneration, deviceId, grantedByDeviceId := actor, grantedAt := now,
        grantedAtRevision := nextRevision, revokedByDeviceId := none, revokedAt := none,
        revokedAtRevision := none }
  | .restrictedKeyRevoked keyId keyGeneration deviceId =>
    let self ← get
    check (self.requireEventPermission event)
    let grant ← check (okOr (self.keyGrant keyId keyGeneration deviceId)
      (.keyAccessNotGranted keyId keyGeneration deviceId))
    check (require (grant.revokedAtRevision = none)
      (.keyAccessNotGranted keyId keyGeneration deviceId))
    modify fun self => self.modifyKeyGrant keyId keyGeneration deviceId fun g =>
      g.revoke actor now nextRevision

section Apply

variable (c : Crypto)

/-- `apply_verified_event` without the last validation. -/
def stageEvent (event : SignedAccessEvent) : AccessM Unit := do
  check (event.validate c)
  let self ← get
  check (require (self.workspaceId = event.workspaceId)
    (.workspaceIdMismatch self.workspaceId event.workspaceId))
  let eventId := event.eventId
  let expected := event.expectedRevision
  let revision := self.revision
  check (require (self.revision = event.expectedRevision) (.invalidState
    s!"access event `{eventId}` expected revision {expected}, but local revision is {revision}"))
  let nextRevision ← check self.nextRevision
  changeBy event nextRevision
  modify fun self => self.commitEvent event.eventId nextRevision

def applyVerifiedEvent (event : SignedAccessEvent) : AccessM Unit := do
  stageEvent c event
  let self ← get
  check (self.validate c)

end Apply

/-! ### What the lookups say -/

variable {s s' : AccessState} {id : DeviceId}

theorem activeMembership_ok {m : Membership} :
    s.activeMembership id = .ok m ↔ s.memberships[id]? = some m ∧ m.status = .active := by
  simp only [activeMembership, membership, Except.bind_ok, okOr_ok, require_ok]
  constructor
  · rintro ⟨m', hm, _, ha, ⟨⟩⟩
    exact ⟨hm, ha⟩
  · rintro ⟨hm, ha⟩
    exact ⟨m, hm, (), ha, rfl⟩

theorem activeDeviceRecord_ok {d : DeviceRecord} :
    s.activeDeviceRecord id = .ok d ↔
      (∃ m, s.memberships[id]? = some m ∧ m.status = .active) ∧ s.devices[id]? = some d ∧
        d.status = .active := by
  simp only [activeDeviceRecord, deviceRecord, Except.bind_ok, okOr_ok, require_ok,
    activeMembership_ok]
  constructor
  · rintro ⟨m, hm, d', hd, _, ha, ⟨⟩⟩
    exact ⟨⟨m, hm⟩, hd, ha⟩
  · rintro ⟨⟨m, hm⟩, hd, ha⟩
    exact ⟨m, hm, d, hd, (), ha, rfl⟩

theorem isActiveMember_iff :
    s.isActiveMember id = true ↔ ∃ m, s.memberships[id]? = some m ∧ m.status = .active := by
  unfold isActiveMember
  cases h : s.activeMembership id with
  | ok m => simpa using ⟨m, activeMembership_ok.mp h⟩
  | error e =>
    simp only [Bool.false_eq_true, false_iff]
    rintro ⟨m, hm⟩
    rw [activeMembership_ok.mpr hm] at h
    cases h

/-- `id` is an active owner. -/
def ActiveOwner (s : AccessState) (id : DeviceId) : Prop :=
  ∃ m, s.memberships[id]? = some m ∧ m.status = .active ∧ m.role = .owner

theorem requirePermission_manage {p : WorkspacePermission} (hp : p.manages = true) :
    s.requirePermission id p = .ok () ↔ s.ActiveOwner id := by
  simp only [requirePermission, Except.bind_ok, require_ok, activeMembership_ok, allows_manage hp,
    ActiveOwner, and_assoc]

theorem requireEventPermission_ok {e : SignedAccessEvent} {p : WorkspacePermission}
    (hp : e.event.requiredPermission = some p) :
    s.requireEventPermission e = .ok () ↔ s.ActiveOwner e.actorDeviceId := by
  unfold requireEventPermission
  rw [hp]
  exact requirePermission_manage (requiredPermission_manages hp)

theorem nextRevision_ok {n : UInt64} (h : s.nextRevision = .ok n) :
    n.toNat = s.revision.toNat + 1 := by
  unfold nextRevision at h
  split at h
  · cases h
  · rename_i hne
    cases h
    have hlt := s.revision.toNat_lt
    have hn : s.revision.toNat ≠ 2 ^ 64 - 1 := fun he => hne (UInt64.toNat_inj.mp (by rw [he]; rfl))
    rw [UInt64.toNat_add, UInt64.toNat_one, Nat.mod_eq_of_lt (by omega)]

/-! ### What an event does -/

/-- The change each kind of event makes, with what it requires of the state. -/
inductive Change (s : AccessState) (e : SignedAccessEvent) (n : UInt64) :
    AccessEvent → AccessState → Prop
  | workspaceCreated {owner : DeviceRecord} (hrev : s.revision = 0)
      (hmembers : s.memberships.isEmpty = true) (hdevices : s.devices.isEmpty = true)
      (hactor : e.actorDeviceId = owner.deviceId) :
      Change s e n (.workspaceCreated owner) ((s.insertDeviceRecord owner).insertMembership
        (.joined owner.deviceId .owner owner.deviceId e.createdAt.asSecs n))
  | deviceJoined {request : JoinRequestId} {device : DeviceRecord} {role : WorkspaceRole}
      (howner : s.ActiveOwner e.actorDeviceId) (hnew : s.memberships[device.deviceId]? = none) :
      Change s e n (.deviceJoined request device role)
        ((s.insertDeviceRecord device.activate).insertMembership
          (.joined device.deviceId role e.actorDeviceId e.createdAt.asSecs n))
  | deviceRoleChanged {id : DeviceId} {newRole : WorkspaceRole} {m : Membership}
      (howner : s.ActiveOwner e.actorDeviceId) (hm : s.memberships[id]? = some m)
      (hactive : m.status = .active)
      (hlast : newRole ≠ .owner → m.role = .owner → s.activeOwnerCount ≠ 1) :
      Change s e n (.deviceRoleChanged id newRole)
        (s.modifyMembership id fun m => { m with role := newRole })
  | deviceRemoved {id : DeviceId} {m : Membership}
      (howner : s.ActiveOwner e.actorDeviceId) (hm : s.memberships[id]? = some m)
      (hactive : m.status = .active) (hlast : m.role = .owner → s.activeOwnerCount ≠ 1) :
      Change s e n (.deviceRemoved id) (s.removeDevice id e.actorDeviceId e.createdAt.asSecs n)
  | restrictedKeyGranted {key : KeyId} {generation : UInt64} {id : DeviceId} {m : Membership}
      (howner : s.ActiveOwner e.actorDeviceId) (hm : s.memberships[id]? = some m)
      (hactive : m.status = .active) (hnew : s.hasActiveKeyGrant key generation id = false) :
      Change s e n (.restrictedKeyGranted key generation id)
        (s.insertKeyGrant ⟨key, generation, id, e.actorDeviceId, e.createdAt.asSecs, n, none, none, none⟩)
  | restrictedKeyRevoked {key : KeyId} {generation : UInt64} {id : DeviceId} {g : KeyGrant}
      (howner : s.ActiveOwner e.actorDeviceId) (hg : s.keyGrant key generation id = some g)
      (hactive : g.revokedAtRevision = none) :
      Change s e n (.restrictedKeyRevoked key generation id)
        (s.modifyKeyGrant key generation id fun g => g.revoke e.actorDeviceId e.createdAt.asSecs n)

/-- A staged event: what it was checked for, and the change it made. -/
structure Staged (c : Crypto) (s : AccessState) (e : SignedAccessEvent) (s' : AccessState) : Prop where
  valid : e.validate c = .ok ()
  workspace : s.workspaceId = e.workspaceId
  expected : s.revision = e.expectedRevision
  change : ∃ n mid, n.toNat = s.revision.toNat + 1 ∧ Change s e n e.event mid ∧
    s' = mid.commitEvent e.eventId n

/-- Every kind of event makes its checks before it writes. -/
theorem changeBy_atomic (e : SignedAccessEvent) (n : UInt64) :
    Atomic (changeBy e n) s fun _ mid => Change s e n e.event mid := by
  unfold changeBy
  split
  · rename_i he
    refine Atomic.get_bind (Atomic.check_bind fun _ h => Atomic.check_bind fun _ hactor => ?_)
    obtain ⟨hrev, hm, hd⟩ := require_ok.mp h
    exact Atomic.of_modify (he ▸ .workspaceCreated hrev hm hd (require_ok.mp hactor))
  · rename_i he
    refine Atomic.get_bind (Atomic.check_bind fun _ hp => Atomic.check_bind fun _ hnew => ?_)
    have howner := (requireEventPermission_ok (by rw [he]; rfl)).mp hp
    exact Atomic.of_modify (he ▸ .deviceJoined howner (require_ok.mp hnew))
  · rename_i he
    refine Atomic.get_bind (Atomic.check_bind fun _ hp => Atomic.check_bind fun m hm =>
      Atomic.check_bind fun _ hlast => Atomic.check_bind fun _ _ => ?_)
    have howner := (requireEventPermission_ok (by rw [he]; rfl)).mp hp
    obtain ⟨hm, hactive⟩ := activeMembership_ok.mp hm
    have hlast := require_ok.mp hlast
    exact Atomic.of_modify (he ▸ .deviceRoleChanged howner hm hactive fun h₁ h₂ h₃ => hlast ⟨h₁, h₂, h₃⟩)
  · rename_i he
    refine Atomic.get_bind (Atomic.check_bind fun _ hp => Atomic.check_bind fun m hm =>
      Atomic.check_bind fun _ hlast => Atomic.check_bind fun _ _ => ?_)
    have howner := (requireEventPermission_ok (by rw [he]; rfl)).mp hp
    obtain ⟨hm, hactive⟩ := activeMembership_ok.mp hm
    have hlast := require_ok.mp hlast
    exact Atomic.of_modify (he ▸ .deviceRemoved howner hm hactive fun h₁ h₂ => hlast ⟨h₁, h₂⟩)
  · rename_i he
    refine Atomic.get_bind (Atomic.check_bind fun _ hp => Atomic.check_bind fun m hm =>
      Atomic.check_bind fun _ hnew => ?_)
    have howner := (requireEventPermission_ok (by rw [he]; rfl)).mp hp
    obtain ⟨hm, hactive⟩ := activeMembership_ok.mp hm
    exact Atomic.of_modify (he ▸ .restrictedKeyGranted howner hm hactive (require_ok.mp hnew))
  · rename_i he
    refine Atomic.get_bind (Atomic.check_bind fun _ hp => Atomic.check_bind fun g hg =>
      Atomic.check_bind fun _ hactive => ?_)
    have howner := (requireEventPermission_ok (by rw [he]; rfl)).mp hp
    exact Atomic.of_modify (he ▸ .restrictedKeyRevoked howner (okOr_ok.mp hg) (require_ok.mp hactive))

/-- **All a staged event does**: it fails and leaves the state, or it makes
its change. -/
theorem stageEvent_atomic (c : Crypto) (e : SignedAccessEvent) :
    Atomic (stageEvent c e) s fun _ s' => Staged c s e s' := by
  unfold stageEvent
  refine Atomic.check_bind fun _ hvalid => Atomic.get_bind (Atomic.check_bind fun _ hws =>
    Atomic.check_bind fun _ hrev => Atomic.check_bind fun n hn =>
      Atomic.bind_modify (changeBy_atomic e n) fun _ mid hmid => ?_)
  exact ⟨hvalid, require_ok.mp hws, require_ok.mp hrev, n, mid, nextRevision_ok hn, hmid, rfl⟩

/-- Applying an event stages it, and then validates what it staged. -/
theorem applyVerifiedEvent_cases (c : Crypto) (e : SignedAccessEvent) :
    (∃ err, (applyVerifiedEvent c e).exec s = (.error err, s)) ∨
      ∃ s', Staged c s e s' ∧ (applyVerifiedEvent c e).exec s = (s'.validate c, s') := by
  have hstage := stageEvent_atomic (s := s) c e
  unfold applyVerifiedEvent
  rw [exec_bind]
  rcases hr : (stageEvent c e).exec s with ⟨err | _, s'⟩
  · have := hstage.failed hr
    subst this
    exact .inl ⟨err, rfl⟩
  · exact .inr ⟨s', hstage.succeeded hr, rfl⟩

end AccessState

end RustSync
