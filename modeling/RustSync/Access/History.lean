/-
Access histories

The invariant of every access state that events have built, whatever events
were tried and in whatever order: devices and memberships have the same keys
and agree on who is active, there is an active owner from the first revision
on, and a grant that is not revoked belongs to an active member. Validation
accepts every such state (`validate_of_wellFormed`), and each change leads
from one to another (`WellFormed.staged`), so the last validation of an event
that was staged never fails and a rejected event changes nothing.

What a history never undoes is `Extends`: a removed device stays removed, and
a device keeps its keys and fingerprint.

Key definitions: `WellFormed`, `Extends`, `history`. Key theorem:
`history_sound`.
-/
import RustSync.Access.State

namespace RustSync
namespace AccessState

variable {c : Crypto} {s s' : AccessState} {e : SignedAccessEvent}

/-! ### Lookups after a write -/

section Lookups

variable {id i : DeviceId} {k : KeyId} {g : UInt64}

theorem keyGrant_insertKeyGrant {grant : KeyGrant} :
    (s.insertKeyGrant grant).keyGrant k g i =
      if grant.keyId = k ∧ grant.generation = g ∧ grant.deviceId = i then some grant
      else s.keyGrant k g i := by
  unfold keyGrant insertKeyGrant
  simp only [BTreeMap.lookup_alter, KeyVersion.mk.injEq]
  by_cases hv : grant.keyId = k ∧ grant.generation = g
  · obtain ⟨rfl, rfl⟩ := hv
    cases s.keyGrants[(⟨grant.keyId, grant.generation⟩ : KeyVersion)]? <;> simp
  · rw [if_neg hv, if_neg fun h => hv ⟨h.1, h.2.1⟩]

theorem keyGrant_modifyKeyGrant {f : KeyGrant → KeyGrant} {k' : KeyId} {g' : UInt64} :
    (s.modifyKeyGrant k g id f).keyGrant k' g' i =
      if k = k' ∧ g = g' ∧ id = i then (s.keyGrant k g id).map f else s.keyGrant k' g' i := by
  unfold keyGrant modifyKeyGrant
  simp only [BTreeMap.lookup_modify, KeyVersion.mk.injEq]
  by_cases hv : k = k' ∧ g = g'
  · obtain ⟨rfl, rfl⟩ := hv
    cases hgs : s.keyGrants[(⟨k, g⟩ : KeyVersion)]? with
    | none => simp
    | some gs => by_cases hi : id = i <;> simp [hi]
  · rw [if_neg hv, if_neg fun h => hv ⟨h.1, h.2.1⟩]

/-- A removal revokes what the device holds. -/
theorem keyGrant_removeDevice {actor : DeviceId} {now n : UInt64} :
    (s.removeDevice id actor now n).keyGrant k g i =
      if id = i then (s.keyGrant k g i).map fun grant =>
        if grant.revokedAtRevision.isNone then grant.revoke actor now n else grant
      else s.keyGrant k g i := by
  unfold keyGrant removeDevice revokeAllForDevice
  simp only [Std.ExtTreeMap.getElem?_map, modifyDevice, modifyMembership]
  cases s.keyGrants[(⟨k, g⟩ : KeyVersion)]? with
  | none => simp
  | some gs => by_cases hi : id = i <;> simp [hi]

theorem versions_removeDevice {actor : DeviceId} {now n : UInt64} {v : KeyVersion} :
    (s.removeDevice id actor now n).keyGrants[v]? =
      s.keyGrants[v]?.map fun grants => grants.modify id fun grant =>
        if grant.revokedAtRevision.isNone then grant.revoke actor now n else grant :=
  Std.ExtTreeMap.getElem?_map

theorem memberships_removeDevice {actor : DeviceId} {now n : UInt64} :
    (s.removeDevice id actor now n).memberships[i]? =
      if id = i then s.memberships[id]?.map (·.remove actor now n) else s.memberships[i]? :=
  BTreeMap.lookup_modify

theorem devices_removeDevice {actor : DeviceId} {now n : UInt64} :
    (s.removeDevice id actor now n).devices[i]? =
      if id = i then s.devices[id]?.map DeviceRecord.revoke else s.devices[i]? :=
  BTreeMap.lookup_modify

end Lookups

/-! ### The invariant -/

/-- A membership and the device record of the same device. -/
def Enrolled (revision : UInt64) (m : Membership) (d : DeviceRecord) : Prop :=
  (m.status = .active ∧ d.status = .active ∧ m.removedAtRevision = none ∧ m.removedAt = none ∧
      m.removedByDeviceId = none) ∨
    (m.status = .removed ∧ d.status = .revoked ∧ ∃ r, m.removedAtRevision = some r ∧ r ≤ revision)

/-- **The invariant of access states.** -/
structure WellFormed (c : Crypto) (s : AccessState) : Prop where
  fresh : s.revision = 0 → s = empty s.workspaceId
  owned : s.revision ≠ 0 → ∃ id, s.ActiveOwner id
  device : ∀ (id : DeviceId) (d : DeviceRecord), s.devices[id]? = some d →
    d.deviceId = id ∧ d.validate c = .ok () ∧ ∃ m, s.memberships[id]? = some m
  member : ∀ (id : DeviceId) (m : Membership), s.memberships[id]? = some m →
    m.deviceId = id ∧ (m.joinedAtRevision ≠ 0 ∧ m.joinedAtRevision ≤ s.revision) ∧
      ∃ d, s.devices[id]? = some d ∧ Enrolled s.revision m d
  version : ∀ (v : KeyVersion) (gs : BTreeMap DeviceId KeyGrant), s.keyGrants[v]? = some gs → v.generation ≠ 0
  grant : ∀ (k : KeyId) (g : UInt64) (id : DeviceId) (grant : KeyGrant), s.keyGrant k g id = some grant →
    (grant.keyId = k ∧ grant.generation = g ∧ grant.deviceId = id) ∧
      (grant.grantedAtRevision ≠ 0 ∧ grant.grantedAtRevision ≤ s.revision) ∧
      (grant.revokedAtRevision = none → ∃ m, s.memberships[id]? = some m ∧ m.status = .active)

theorem wellFormed_empty (ws : WorkspaceId) : WellFormed c (empty ws) where
  fresh _ := rfl
  owned h := absurd rfl h
  device id d h := by simp [empty] at h
  member id m h := by simp [empty] at h
  version v gs h := by simp [empty] at h
  grant k g id grant h := by simp [empty, keyGrant] at h

theorem activeOwnerCount_eq :
    s.activeOwnerCount = s.memberships.countValues fun m => m.role = .owner ∧ m.status = .active := by
  simp [activeOwnerCount, activeMembers, BTreeMap.countValues, List.filter_filter]

theorem activeOwnerCount_ne_zero : s.activeOwnerCount ≠ 0 ↔ ∃ id, s.ActiveOwner id := by
  simp only [activeOwnerCount_eq, BTreeMap.countValues_ne_zero, ActiveOwner, decide_eq_true_eq,
    and_comm]

/-- Unless `id` is the last active owner, there is another. -/
theorem exists_other_owner {id : DeviceId} (h : s.ActiveOwner id) (hlast : s.activeOwnerCount ≠ 1) :
    ∃ i, i ≠ id ∧ s.ActiveOwner i := by
  rw [activeOwnerCount_eq] at hlast
  obtain ⟨m, hm, hactive, hrole⟩ := h
  obtain ⟨i, m', hne, hm', hp⟩ := BTreeMap.exists_ne_of_countValues hlast hm (by simp [hrole, hactive])
  simp only [decide_eq_true_eq] at hp
  exact ⟨i, hne, m', hm', hp.2, hp.1⟩

/-- **Validation accepts a well-formed state.** -/
theorem validate_of_wellFormed (h : WellFormed c s) : s.validate c = .ok () := by
  unfold validate
  split
  · rename_i hrev
    rw [h.fresh hrev]
    simp [empty]
  · rename_i hrev
    simp only [Except.bind_unit_ok, require_ok, forM_ok, Prod.forall,
      Std.ExtTreeMap.mem_toList_iff_getElem?_eq_some]
    refine ⟨activeOwnerCount_ne_zero.mpr (h.owned hrev), ?_, ?_, ?_⟩
    · intro id d hd
      obtain ⟨hid, hvalid, m, hm⟩ := h.device id d hd
      simp [validateDevice, hid, hvalid, hm, Std.ExtTreeMap.contains_eq_isSome_getElem?]
    · intro id m hm
      obtain ⟨hid, hjoin, d, hd, henr⟩ := h.member id m hm
      unfold validateMembership
      rcases henr with ⟨hs, hds, hr⟩ | ⟨hs, hds, r, hr, hle⟩ <;> simp [okOr, *]
    · intro v gs hgs
      simp only [validateGrants, Except.bind_unit_ok, require_ok, forM_ok, Prod.forall,
        Std.ExtTreeMap.mem_toList_iff_getElem?_eq_some]
      refine ⟨h.version v gs hgs, fun id grant hgrant => ?_⟩
      obtain ⟨⟨hk, hg, hid⟩, hat, _⟩ := h.grant v.keyId v.generation id grant (by simp [keyGrant, hgs, hgrant])
      simp [validateGrant, hk, hg, hid, hat]

/-! ### Each change keeps it -/

section Changes

variable {n : UInt64} {eventId : AccessEventId}

theorem le_next {a : UInt64} (hn : n.toNat = s.revision.toNat + 1) (h : a ≤ s.revision) : a ≤ n := by
  rw [UInt64.le_iff_toNat_le] at h ⊢
  omega

theorem next_ne_zero (hn : n.toNat = s.revision.toNat + 1) : n ≠ 0 := by
  rintro rfl
  simp at hn

theorem Enrolled.next {m : Membership} {d : DeviceRecord} (h : Enrolled s.revision m d)
    (hn : n.toNat = s.revision.toNat + 1) : Enrolled n m d := by
  rcases h with h | ⟨hs, hd, r, hr, hle⟩
  · exact .inl h
  · exact .inr ⟨hs, hd, r, hr, le_next hn hle⟩

/-- A state with an active owner is past revision 0. -/
theorem WellFormed.revision_ne_zero (h : WellFormed c s) {id : DeviceId} (ho : s.ActiveOwner id) :
    s.revision ≠ 0 := by
  intro hrev
  obtain ⟨m, hm, _⟩ := ho
  rw [h.fresh hrev] at hm
  simp [empty] at hm

/-- A new device, active, with a fresh membership. -/
theorem WellFormed.enroll (h : WellFormed c s) (hn : n.toNat = s.revision.toNat + 1)
    {d : DeviceRecord} {role : WorkspaceRole} {by_ : DeviceId} {now : UInt64}
    (hvalid : d.validate c = .ok ()) (hactive : d.status = .active)
    (hnew : s.memberships[d.deviceId]? = none)
    (howner : role = .owner ∨ ∃ id, s.ActiveOwner id) :
    WellFormed c (((s.insertDeviceRecord d).insertMembership
      (.joined d.deviceId role by_ now n)).commitEvent eventId n) where
  fresh hrev := absurd hrev (next_ne_zero hn)
  owned _ := by
    rcases howner with hrole | ⟨id, m, hm, ha, hr⟩
    · refine ⟨d.deviceId, .joined d.deviceId role by_ now n, ?_, rfl, hrole⟩
      simp [commitEvent, insertMembership, Membership.joined]
    · have hne : d.deviceId ≠ id := by
        rintro rfl
        rw [hnew] at hm
        cases hm
      refine ⟨id, m, ?_, ha, hr⟩
      simpa [commitEvent, insertMembership, insertDeviceRecord, Membership.joined, hne] using hm
  device id d' hd := by
    simp only [commitEvent, insertMembership, insertDeviceRecord, Membership.joined,
      BTreeMap.lookup_insert] at hd ⊢
    by_cases hid : d.deviceId = id
    · rw [if_pos hid] at hd
      cases hd
      exact ⟨hid, hvalid, _, if_pos hid⟩
    · rw [if_neg hid] at hd
      simpa only [if_neg hid] using h.device id d' hd
  member id m hm := by
    simp only [commitEvent, insertMembership, insertDeviceRecord, Membership.joined,
      BTreeMap.lookup_insert] at hm ⊢
    by_cases hid : d.deviceId = id
    · rw [if_pos hid] at hm
      cases hm
      exact ⟨hid, ⟨next_ne_zero hn, UInt64.le_refl n⟩, d, if_pos hid, .inl ⟨rfl, hactive, rfl, rfl, rfl⟩⟩
    · rw [if_neg hid] at hm
      obtain ⟨hm, ⟨hj, hle⟩, d', hd', henr⟩ := h.member id m hm
      exact ⟨hm, ⟨hj, le_next hn hle⟩, d', by rw [if_neg hid, hd'], henr.next hn⟩
  version := h.version
  grant k g id grant hg := by
    obtain ⟨hid, ⟨hat, hle⟩, hact⟩ := h.grant k g id grant hg
    refine ⟨hid, ⟨hat, le_next hn hle⟩, fun hr => ?_⟩
    obtain ⟨m, hm, ha⟩ := hact hr
    have hne : d.deviceId ≠ id := by
      rintro rfl
      rw [hnew] at hm
      cases hm
    refine ⟨m, ?_, ha⟩
    simpa [commitEvent, insertMembership, insertDeviceRecord, Membership.joined, hne] using hm

/-- An active member's role, unless it was the last owner's. -/
theorem WellFormed.changeRole (h : WellFormed c s) (hn : n.toNat = s.revision.toNat + 1)
    {id : DeviceId} {m : Membership} {role : WorkspaceRole} {actor : DeviceId}
    (howner : s.ActiveOwner actor) (hm : s.memberships[id]? = some m) (hactive : m.status = .active)
    (hlast : role ≠ .owner → m.role = .owner → s.activeOwnerCount ≠ 1) :
    WellFormed c ((s.modifyMembership id fun m => { m with role }).commitEvent eventId n) where
  fresh hrev := absurd hrev (next_ne_zero hn)
  owned _ := by
    have hother : ∀ i, i ≠ id → s.ActiveOwner i →
        ((s.modifyMembership id fun m => { m with role }).commitEvent eventId n).ActiveOwner i := by
      rintro i hne ⟨m', hm', ha, hr⟩
      exact ⟨m', by simpa [commitEvent, modifyMembership, Ne.symm hne] using hm', ha, hr⟩
    by_cases hrole : role = .owner
    · refine ⟨id, { m with role }, ?_, hactive, hrole⟩
      simp [commitEvent, modifyMembership, hm]
    · by_cases hactor : actor = id
      · subst hactor
        obtain ⟨m', hm', _, hr⟩ := id howner
        rw [hm] at hm'
        cases hm'
        obtain ⟨i, hne, hi⟩ := exists_other_owner howner (hlast hrole hr)
        exact ⟨i, hother i hne hi⟩
      · exact ⟨actor, hother actor hactor howner⟩
  device i d hd := by
    obtain ⟨hid, hv, m', hm'⟩ := h.device i d hd
    refine ⟨hid, hv, ?_⟩
    simp only [commitEvent, modifyMembership, BTreeMap.lookup_modify]
    split
    · rename_i hi
      exact ⟨_, by rw [hm]; rfl⟩
    · exact ⟨m', hm'⟩
  member i m' hm' := by
    simp only [commitEvent, modifyMembership, BTreeMap.lookup_modify] at hm' ⊢
    split at hm'
    · rename_i hi
      subst hi
      rw [hm] at hm'
      cases hm'
      obtain ⟨hid, ⟨hj, hle⟩, d, hd, henr⟩ := h.member id m hm
      exact ⟨hid, ⟨hj, le_next hn hle⟩, d, hd, Enrolled.next (m := { m with role }) henr hn⟩
    · obtain ⟨hid, ⟨hj, hle⟩, d, hd, henr⟩ := h.member i m' hm'
      exact ⟨hid, ⟨hj, le_next hn hle⟩, d, hd, henr.next hn⟩
  version := h.version
  grant k g i grant hg := by
    obtain ⟨hid, ⟨hat, hle⟩, hact⟩ := h.grant k g i grant hg
    refine ⟨hid, ⟨hat, le_next hn hle⟩, fun hr => ?_⟩
    obtain ⟨m', hm', ha⟩ := hact hr
    simp only [commitEvent, modifyMembership, BTreeMap.lookup_modify]
    split
    · exact ⟨{ m with role }, by rw [hm]; rfl, hactive⟩
    · exact ⟨m', hm', ha⟩

/-- An active member's removal, unless it was the last owner. -/
theorem WellFormed.remove (h : WellFormed c s) (hn : n.toNat = s.revision.toNat + 1)
    {id : DeviceId} {m : Membership} {actor : DeviceId} {now : UInt64}
    (howner : s.ActiveOwner actor) (hm : s.memberships[id]? = some m) (hactive : m.status = .active)
    (hlast : m.role = .owner → s.activeOwnerCount ≠ 1) :
    WellFormed c ((s.removeDevice id actor now n).commitEvent eventId n) := by
  obtain ⟨hidm, ⟨hj, hle⟩, d, hd, henr⟩ := h.member id m hm
  have hmem : ∀ i, ((s.removeDevice id actor now n).commitEvent eventId n).memberships[i]? =
      if id = i then some (m.remove actor now n) else s.memberships[i]? := by
    intro i
    rw [commitEvent_memberships, memberships_removeDevice, hm]
    rfl
  have hdev : ∀ i, ((s.removeDevice id actor now n).commitEvent eventId n).devices[i]? =
      if id = i then some d.revoke else s.devices[i]? := by
    intro i
    rw [commitEvent_devices, devices_removeDevice, hd]
    rfl
  refine ⟨fun hz => absurd hz (next_ne_zero hn), fun _ => ?_, ?_, ?_, ?_, ?_⟩
  · -- another owner stays: the acting one, or the one the last-owner check found
    have hother : ∀ i, i ≠ id → s.ActiveOwner i →
        ((s.removeDevice id actor now n).commitEvent eventId n).ActiveOwner i := by
      rintro i hne ⟨m', hm', ha, hr⟩
      exact ⟨m', by rw [hmem, if_neg (Ne.symm hne), hm'], ha, hr⟩
    by_cases hactor : actor = id
    · subst hactor
      obtain ⟨m', hm', _, hr⟩ := howner
      rw [hm] at hm'
      cases hm'
      obtain ⟨i, hne, hi⟩ := exists_other_owner ⟨m, hm, hactive, hr⟩ (hlast hr)
      exact ⟨i, hother i hne hi⟩
    · exact ⟨actor, hother actor hactor howner⟩
  · intro i d' hd'
    rw [hdev] at hd'
    rw [hmem]
    split at hd'
    · rename_i hi
      subst hi
      cases hd'
      obtain ⟨hid, hv, _⟩ := h.device id d hd
      exact ⟨hid, hv, _, if_pos rfl⟩
    · rename_i hi
      simpa only [if_neg hi] using h.device i d' hd'
  · intro i m' hm'
    rw [hmem] at hm'
    rw [hdev]
    split at hm'
    · rename_i hi
      subst hi
      cases hm'
      exact ⟨hidm, ⟨hj, le_next hn hle⟩, d.revoke, if_pos rfl, .inr ⟨rfl, rfl, n, rfl, UInt64.le_refl n⟩⟩
    · rename_i hi
      obtain ⟨hid, ⟨hj', hle'⟩, d', hd', henr'⟩ := h.member i m' hm'
      exact ⟨hid, ⟨hj', le_next hn hle'⟩, d', by rw [if_neg hi, hd'], henr'.next hn⟩
  · intro v gs hgs
    obtain ⟨gs', hgs', _⟩ := Option.map_eq_some_iff.mp (versions_removeDevice.symm.trans hgs)
    exact h.version v gs' hgs'
  · intro k g i grant hg
    replace hg := keyGrant_removeDevice.symm.trans hg
    split at hg
    · rename_i hi
      subst hi
      obtain ⟨grant', hg', rfl⟩ := Option.map_eq_some_iff.mp hg
      obtain ⟨hid, ⟨hat, hle'⟩, _⟩ := h.grant k g id grant' hg'
      split
      · exact ⟨hid, ⟨hat, le_next hn hle'⟩, fun hr => by cases hr⟩
      · rename_i hnone
        exact ⟨hid, ⟨hat, le_next hn hle'⟩, fun hr => absurd (by rw [hr]; rfl) hnone⟩
    · rename_i hi
      obtain ⟨hid, ⟨hat, hle'⟩, hact⟩ := h.grant k g i grant hg
      refine ⟨hid, ⟨hat, le_next hn hle'⟩, fun hr => ?_⟩
      obtain ⟨m', hm', ha⟩ := hact hr
      exact ⟨m', by rw [hmem, if_neg hi, hm'], ha⟩

/-- A change of grants alone keeps the rest. -/
theorem WellFormed.changeGrants (h : WellFormed c s) (hn : n.toNat = s.revision.toNat + 1)
    (hrev : s.revision ≠ 0) {keyGrants : BTreeMap KeyVersion (BTreeMap DeviceId KeyGrant)}
    (hversion : ∀ (v : KeyVersion) gs, keyGrants[v]? = some gs → v.generation ≠ 0)
    (hgrant : ∀ k g id grant, { s with keyGrants }.keyGrant k g id = some grant →
      (grant.keyId = k ∧ grant.generation = g ∧ grant.deviceId = id) ∧
        (grant.grantedAtRevision ≠ 0 ∧ grant.grantedAtRevision ≤ n) ∧
        (grant.revokedAtRevision = none → ∃ m, s.memberships[id]? = some m ∧ m.status = .active)) :
    WellFormed c ({ s with keyGrants }.commitEvent eventId n) where
  fresh hz := absurd hz (next_ne_zero hn)
  owned _ := h.owned hrev
  device := h.device
  member id m hm := by
    obtain ⟨hid, ⟨hj, hle⟩, d, hd, henr⟩ := h.member id m hm
    exact ⟨hid, ⟨hj, le_next hn hle⟩, d, hd, henr.next hn⟩
  version := hversion
  grant := hgrant

theorem WellFormed.grantKey (h : WellFormed c s) (hn : n.toNat = s.revision.toNat + 1)
    {key : KeyId} {generation now : UInt64} {id actor : DeviceId} {m : Membership}
    (hgen : generation ≠ 0) (howner : s.ActiveOwner actor) (hm : s.memberships[id]? = some m)
    (hactive : m.status = .active) :
    WellFormed c ((s.insertKeyGrant
      ⟨key, generation, id, actor, now, n, none, none, none⟩).commitEvent eventId n) := by
  refine h.changeGrants hn (h.revision_ne_zero howner) ?_ ?_
  · intro v gs hgs
    rw [BTreeMap.lookup_alter] at hgs
    split at hgs
    · rename_i hv
      subst hv
      exact hgen
    · exact h.version v gs hgs
  · intro k g i grant hg
    have hg' := keyGrant_insertKeyGrant.symm.trans hg
    split at hg'
    · rename_i hkey
      cases hg'
      obtain ⟨rfl, rfl, rfl⟩ := hkey
      exact ⟨⟨rfl, rfl, rfl⟩, ⟨next_ne_zero hn, UInt64.le_refl n⟩, fun _ => ⟨m, hm, hactive⟩⟩
    · obtain ⟨hid, ⟨hat, hle⟩, hact⟩ := h.grant k g i grant hg'
      exact ⟨hid, ⟨hat, le_next hn hle⟩, hact⟩

theorem WellFormed.revokeKey (h : WellFormed c s) (hn : n.toNat = s.revision.toNat + 1)
    {key : KeyId} {generation now : UInt64} {id actor : DeviceId} (howner : s.ActiveOwner actor) :
    WellFormed c ((s.modifyKeyGrant key generation id fun g => g.revoke actor now n).commitEvent
      eventId n) := by
  refine h.changeGrants hn (h.revision_ne_zero howner) ?_ ?_
  · intro v gs hgs
    rw [BTreeMap.lookup_modify] at hgs
    split at hgs
    · rename_i hv
      obtain ⟨gs', hgs', _⟩ := Option.map_eq_some_iff.mp hgs
      exact hv ▸ h.version _ gs' hgs'
    · exact h.version v gs hgs
  · intro k g i grant hg
    have hg' := keyGrant_modifyKeyGrant.symm.trans hg
    split at hg'
    · rename_i hkey
      obtain ⟨rfl, rfl, rfl⟩ := hkey
      obtain ⟨grant', hgrant', rfl⟩ := Option.map_eq_some_iff.mp hg'
      obtain ⟨hid, ⟨hat, hle⟩, _⟩ := h.grant key generation id grant' hgrant'
      exact ⟨hid, ⟨hat, le_next hn hle⟩, fun hr => by cases hr⟩
    · obtain ⟨hid, ⟨hat, hle⟩, hact⟩ := h.grant k g i grant hg'
      exact ⟨hid, ⟨hat, le_next hn hle⟩, hact⟩

/-- **A staged event leads from a well-formed state to one.** -/
theorem WellFormed.staged (h : WellFormed c s) (hs : Staged c s e s') : WellFormed c s' := by
  obtain ⟨hvalid, _, _, n, mid, hn, hchange, rfl⟩ := hs
  have hev : e.event.validate c = .ok () := by
    simp only [SignedAccessEvent.validate, Except.bind_unit_ok] at hvalid
    exact hvalid.2
  generalize e.event = ev at hchange hev
  cases hchange with
  | workspaceCreated hrev hmembers hdevices hactor =>
    simp only [AccessEvent.validate, Except.bind_unit_ok, require_ok] at hev
    exact h.enroll hn hev.1 hev.2 (BTreeMap.isEmpty_iff_lookup.mp hmembers _) (.inl rfl)
  | deviceJoined howner hnew =>
    simp only [AccessEvent.validate, Except.bind_unit_ok, require_ok] at hev
    exact h.enroll hn (by simpa using hev.1) rfl hnew (.inr ⟨_, howner⟩)
  | deviceRoleChanged howner hm hactive hlast => exact h.changeRole hn howner hm hactive hlast
  | deviceRemoved howner hm hactive hlast => exact h.remove hn howner hm hactive hlast
  | restrictedKeyGranted howner hm hactive hnew =>
    simp only [AccessEvent.validate, require_ok] at hev
    exact h.grantKey hn hev howner hm hactive
  | restrictedKeyRevoked howner hg hactive => exact h.revokeKey hn howner

end Changes

/-! ### What no event undoes -/

/-- `s'` is later than `s`: what was removed is removed, and a device recorded
in `s` is recorded in `s'` with the keys it had. -/
structure Extends (s s' : AccessState) : Prop where
  workspace : s'.workspaceId = s.workspaceId
  revision : s.revision.toNat ≤ s'.revision.toNat
  removed : ∀ (id : DeviceId) (m : Membership), s.memberships[id]? = some m → m.status = .removed →
    ∃ m', s'.memberships[id]? = some m' ∧ m'.status = .removed
  identity : ∀ (id : DeviceId) (d : DeviceRecord), s.devices[id]? = some d →
    ∃ d', s'.devices[id]? = some d' ∧ d'.identity = d.identity

theorem Extends.refl (s : AccessState) : Extends s s :=
  ⟨rfl, Nat.le_refl _, fun _ m hm hr => ⟨m, hm, hr⟩, fun _ d hd => ⟨d, hd, rfl⟩⟩

theorem Extends.trans {s₁ s₂ s₃ : AccessState} (h : Extends s₁ s₂) (h' : Extends s₂ s₃) :
    Extends s₁ s₃ where
  workspace := h'.workspace.trans h.workspace
  revision := Nat.le_trans h.revision h'.revision
  removed id m hm hr := by
    obtain ⟨m', hm', hr'⟩ := h.removed id m hm hr
    exact h'.removed id m' hm' hr'
  identity id d hd := by
    obtain ⟨d', hd', hi⟩ := h.identity id d hd
    obtain ⟨d'', hd'', hi'⟩ := h'.identity id d' hd'
    exact ⟨d'', hd'', hi'.trans hi⟩

theorem Extends.commit {mid : AccessState} {n : UInt64} {eventId : AccessEventId}
    (hn : n.toNat = s.revision.toNat + 1) (hws : mid.workspaceId = s.workspaceId)
    (hr : ∀ (id : DeviceId) (m : Membership), s.memberships[id]? = some m → m.status = .removed →
      ∃ m', mid.memberships[id]? = some m' ∧ m'.status = .removed)
    (hi : ∀ (id : DeviceId) (d : DeviceRecord), s.devices[id]? = some d →
      ∃ d', mid.devices[id]? = some d' ∧ d'.identity = d.identity) :
    Extends s (mid.commitEvent eventId n) :=
  ⟨hws, show s.revision.toNat ≤ n.toNat by omega, hr, hi⟩

/-- Enrolling a device that has no membership touches no other. -/
theorem Extends.enroll (h : WellFormed c s) {n : UInt64} (hn : n.toNat = s.revision.toNat + 1)
    {d : DeviceRecord} {role : WorkspaceRole} {by_ : DeviceId} {now : UInt64} {eventId : AccessEventId}
    (hnew : s.memberships[d.deviceId]? = none) :
    Extends s (((s.insertDeviceRecord d).insertMembership
      (.joined d.deviceId role by_ now n)).commitEvent eventId n) := by
  refine Extends.commit hn rfl ?_ ?_
  · intro id m hm hr
    have hne : d.deviceId ≠ id := by
      rintro rfl
      rw [hnew] at hm
      cases hm
    exact ⟨m, by simpa [insertMembership, insertDeviceRecord, Membership.joined, hne] using hm, hr⟩
  · intro id d' hd'
    obtain ⟨_, _, m, hm⟩ := h.device id d' hd'
    have hne : d.deviceId ≠ id := by
      rintro rfl
      rw [hnew] at hm
      cases hm
    exact ⟨d', by simpa [insertMembership, insertDeviceRecord, hne] using hd', rfl⟩

theorem Extends.staged (h : WellFormed c s) (hs : Staged c s e s') : Extends s s' := by
  obtain ⟨_, _, _, n, mid, hn, hchange, rfl⟩ := hs
  generalize e.event = ev at hchange
  have hdevices : ∀ (id : DeviceId) (d : DeviceRecord), s.devices[id]? = some d →
      ∃ d', s.devices[id]? = some d' ∧ d'.identity = d.identity := fun _ d hd => ⟨d, hd, rfl⟩
  cases hchange with
  | workspaceCreated hrev hmembers _ _ =>
    exact Extends.enroll h hn (BTreeMap.isEmpty_iff_lookup.mp hmembers _)
  | deviceJoined _ hnew => exact Extends.enroll (d := DeviceRecord.activate _) h hn hnew
  | @deviceRoleChanged id role m _ hm hactive _ =>
    refine Extends.commit hn rfl (fun i m' hm' hr => ?_) hdevices
    have hne : id ≠ i := by
      rintro rfl
      rw [hm] at hm'
      cases hm'
      rw [hactive] at hr
      cases hr
    exact ⟨m', by simpa [modifyMembership, hne] using hm', hr⟩
  | @deviceRemoved id m _ hm hactive _ =>
    refine Extends.commit hn rfl (fun i m' hm' hr => ?_) fun i d hd => ?_
    · have hne : id ≠ i := by
        rintro rfl
        rw [hm] at hm'
        cases hm'
        rw [hactive] at hr
        cases hr
      exact ⟨m', by rw [memberships_removeDevice, if_neg hne, hm'], hr⟩
    · by_cases hi : id = i
      · subst hi
        exact ⟨d.revoke, by rw [devices_removeDevice, if_pos rfl, hd]; rfl, rfl⟩
      · exact ⟨d, by rw [devices_removeDevice, if_neg hi, hd], rfl⟩
  | restrictedKeyGranted _ _ _ _ =>
    exact Extends.commit hn rfl (fun _ m hm hr => ⟨m, hm, hr⟩) hdevices
  | restrictedKeyRevoked _ _ _ =>
    exact Extends.commit hn rfl (fun _ m hm hr => ⟨m, hm, hr⟩) hdevices

/-! ### Histories -/

section Histories

variable (c : Crypto)

/-- The state after an event was tried, accepted or not. -/
def attempt (s : AccessState) (e : SignedAccessEvent) : AccessState :=
  ((applyVerifiedEvent c e).exec s).2

def history (s : AccessState) (events : List SignedAccessEvent) : AccessState :=
  events.foldl (attempt c) s

def accepts (s : AccessState) (e : SignedAccessEvent) : Bool :=
  match ((applyVerifiedEvent c e).exec s).1 with
  | .ok _ => true
  | .error _ => false

/-- The events of a history that were accepted. -/
def accepted : AccessState → List SignedAccessEvent → List SignedAccessEvent
  | _, [] => []
  | s, e :: events =>
    (if accepts c s e then [e] else []) ++ accepted (attempt c s e) events

end Histories

/-- Where the state is well formed, an event is staged and accepted, or
rejected with the state as it was. -/
theorem WellFormed.apply_cases (h : WellFormed c s) (e : SignedAccessEvent) :
    (∃ err, (applyVerifiedEvent c e).exec s = (.error err, s)) ∨
      ∃ s', Staged c s e s' ∧ (applyVerifiedEvent c e).exec s = (.ok (), s') := by
  rcases applyVerifiedEvent_cases (s := s) c e with ⟨err, herr⟩ | ⟨s', hs, happly⟩
  · exact .inl ⟨err, herr⟩
  · rw [validate_of_wellFormed (h.staged hs)] at happly
    exact .inr ⟨s', hs, happly⟩

/-- The same, of the state after the event was tried. -/
theorem WellFormed.attempt_cases (h : WellFormed c s) (e : SignedAccessEvent) :
    (accepts c s e = false ∧ attempt c s e = s) ∨
      (accepts c s e = true ∧ Staged c s e (attempt c s e)) := by
  unfold accepts AccessState.attempt
  rcases h.apply_cases e with ⟨err, herr⟩ | ⟨s', hs, happly⟩
  · exact .inl (by rw [herr]; exact ⟨rfl, rfl⟩)
  · exact .inr (by rw [happly]; exact ⟨rfl, hs⟩)

theorem WellFormed.attempt (h : WellFormed c s) (e : SignedAccessEvent) :
    WellFormed c (attempt c s e) ∧ Extends s (AccessState.attempt c s e) := by
  rcases h.attempt_cases e with ⟨_, hs⟩ | ⟨_, hs⟩
  · rw [hs]
    exact ⟨h, Extends.refl s⟩
  · exact ⟨h.staged hs, Extends.staged h hs⟩

theorem WellFormed.history : ∀ (events : List SignedAccessEvent) {s : AccessState},
    WellFormed c s → WellFormed c (history c s events) ∧ Extends s (AccessState.history c s events)
  | [], s, h => ⟨h, Extends.refl s⟩
  | e :: events, s, h => by
    obtain ⟨hw, hx⟩ := h.attempt e
    obtain ⟨hw', hx'⟩ := WellFormed.history events hw
    exact ⟨hw', hx.trans hx'⟩

/-- The revision counts the accepted events. -/
theorem revision_history : ∀ (events : List SignedAccessEvent) {s : AccessState}, WellFormed c s →
    (AccessState.history c s events).revision.toNat =
      s.revision.toNat + (accepted c s events).length
  | [], _, _ => rfl
  | e :: events, s, h => by
    have ih := revision_history events (h.attempt e).1
    have hstep : AccessState.history c s (e :: events) =
      AccessState.history c (AccessState.attempt c s e) events := rfl
    rw [hstep, ih, accepted, List.length_append]
    rcases h.attempt_cases e with ⟨ha, hs⟩ | ⟨ha, ⟨_, _, _, n, mid, hn, _, hs⟩⟩
    · simp [ha, hs]
    · have hrev : (AccessState.attempt c s e).revision = n := by rw [hs]; rfl
      rw [hrev, hn, if_pos ha, List.length_singleton]
      omega

/-- What every state of every history has. -/
structure Sound (c : Crypto) (s : AccessState) : Prop where
  /-- The next event is rejected and changes nothing, or takes the state one
  revision on. -/
  step : ∀ e, (∃ err, (applyVerifiedEvent c e).exec s = (.error err, s)) ∨
    ∃ s', (applyVerifiedEvent c e).exec s = (.ok (), s') ∧
      s'.revision.toNat = s.revision.toNat + 1
  valid : s.validate c = .ok ()
  /-- What gets as far as the last validation passes it. -/
  lastValidation : ∀ e s', (stageEvent c e).exec s = (.ok (), s') → s'.validate c = .ok ()
  owned : 1 ≤ s.revision.toNat → 1 ≤ s.activeOwnerCount
  enrolled : ∀ id, (∃ m, s.membership id = some m ∧ m.status = .active) ↔
    ∃ d, s.deviceRecord id = some d ∧ d.status = .active
  granted : ∀ key generation id grant, s.keyGrant key generation id = some grant →
    grant.revokedAtRevision = none → s.isActiveMember id = true
  later : ∀ events, Extends s (history c s events)

/-- **Every state of every history is sound**, whatever events were tried. -/
theorem history_sound (c : Crypto) (ws : WorkspaceId) (events : List SignedAccessEvent) :
    Sound c (history c (empty ws) events) := by
  have h := (WellFormed.history events (wellFormed_empty (c := c) ws)).1
  generalize history c (empty ws) events = s at h
  refine ⟨fun e => ?_, validate_of_wellFormed h, fun e s' hs => ?_, fun hrev => ?_, fun id => ?_, ?_,
    fun events' => (WellFormed.history events' h).2⟩
  · rcases h.apply_cases e with herr | ⟨s', ⟨_, _, _, n, mid, hn, _, rfl⟩, happly⟩
    · exact .inl herr
    · exact .inr ⟨_, happly, hn⟩
  · exact validate_of_wellFormed (h.staged ((stageEvent_atomic c e).succeeded hs))
  · have hne : s.revision ≠ 0 := by
      intro hz
      rw [hz] at hrev
      simp at hrev
    exact Nat.one_le_iff_ne_zero.mpr (activeOwnerCount_ne_zero.mpr (h.owned hne))
  · constructor
    · rintro ⟨m, hm, ha⟩
      obtain ⟨_, _, d, hd, henr⟩ := h.member id m hm
      rcases henr with ⟨_, hda, _⟩ | ⟨hr, _⟩
      · exact ⟨d, hd, hda⟩
      · rw [ha] at hr
        cases hr
    · rintro ⟨d, hd, ha⟩
      obtain ⟨_, _, m, hm⟩ := h.device id d hd
      obtain ⟨_, _, d', hd', henr⟩ := h.member id m hm
      rw [show s.devices[id]? = some d from hd] at hd'
      cases hd'
      rcases henr with ⟨hma, _⟩ | ⟨_, hdr, _⟩
      · exact ⟨m, hm, hma⟩
      · rw [ha] at hdr
        cases hdr
  · intro key generation id grant hg hr
    exact isActiveMember_iff.mpr ((h.grant key generation id grant hg).2.2 hr)

end AccessState
end RustSync
