/-
Enrolment

A device whose join an `approve` command had accepted can bootstrap, unless
another access event is accepted between the approval and the delivery of its
key. The envelope then stored is the one the approving owner sealed, and it
opens in every later access state where the device is active and the owner
still an active owner (`approved_device_bootstraps`).

The events accepted are one chain of access states (`Chain`), in which a
device joins once (`joined_once`). So whoever had a device's join accepted is
the only one who uploads an envelope for it, and finds none there.

Key definitions: `Chain`, `enrolmentContract`, `Delivered`.
-/
import Mathlib.Data.List.Induction
import RustSync.Cli.Requests

namespace RustSync

open Fallible AccessState

/-! ### Chains of accepted events -/

section Chains

def Accepts (c : Crypto) (s : AccessState) (x : Accepted) (s' : AccessState) : Prop :=
  (applyVerifiedEvent c x.1).exec s = (.ok (), x.2) ∧ s' = x.2

/-- The access states events lead to, one after the other. -/
abbrev Chain (c : Crypto) (a₀ : AccessState) (events : List Accepted) (a : AccessState) : Prop :=
  Legal (Accepts c) a₀ events a

/-- The event is the join of the device. -/
def Joins (x : Accepted) (device : DeviceId) : Prop :=
  ∃ id record role, x.1.event = .deviceJoined id record role ∧ record.deviceId = device

variable {c : Crypto} {a₀ a b : AccessState} {events : List Accepted} {x : Accepted}

theorem Accepts.staged (h : Accepts c a x b) (hwf : WellFormed c a) : Staged c a x.1 b := by
  obtain ⟨happly, rfl⟩ := h
  rcases hwf.apply_cases x.1 with ⟨err, herr⟩ | ⟨s', hs, hs'⟩
  · rw [herr] at happly
    cases happly
  · rw [hs'] at happly
    cases happly
    exact hs

theorem Accepts.revision (h : Accepts c a x b) (hwf : WellFormed c a) :
    b.revision.toNat = a.revision.toNat + 1 := by
  obtain ⟨_, _, _, n, mid, hn, _, rfl⟩ := h.staged hwf
  exact hn

/-- A chain is well formed, extends where it started, and counts its events. -/
theorem Chain.facts (h : Chain c a₀ events a) (hwf : WellFormed c a₀) :
    WellFormed c a ∧ Extends a₀ a ∧ a.revision.toNat = a₀.revision.toNat + events.length := by
  induction h with
  | nil => exact ⟨hwf, Extends.refl _, rfl⟩
  | snoc _ hstep ih =>
    obtain ⟨hmid, hext, hrev⟩ := ih
    have hstaged := hstep.staged hmid
    have hnext := hstep.revision hmid
    refine ⟨hmid.staged hstaged, hext.trans (Extends.staged hmid hstaged), ?_⟩
    rw [List.length_append, List.length_singleton]
    omega

/-- A chain leads to one state. -/
theorem Chain.unique (h : Chain c a₀ events a) (h' : Chain c a₀ events b) : a = b := by
  cases h with
  | nil =>
    generalize hnil : ([] : List Accepted) = l at h'
    cases h' with
    | nil => rfl
    | snoc => simp at hnil
  | snoc _ hstep =>
    obtain ⟨_, _, hstep'⟩ := h'.snoc_inv
    exact hstep.2.trans hstep'.2.symm

/-- What a prefix of a chain led to is the state now when the revisions are
equal. -/
theorem Chain.eq_of_revision {front : List Accepted} (hfront : Chain c a₀ front a)
    (hall : Chain c a₀ events b) (hle : front <+: events) (hwf : WellFormed c a₀)
    (hrev : a.revision = b.revision) : a = b := by
  obtain ⟨_, _, hlen⟩ := hfront.facts hwf
  obtain ⟨_, _, hlen'⟩ := hall.facts hwf
  rw [hrev] at hlen
  have hsame : front = events := hle.eq_of_length (by omega)
  rw [hsame] at hfront
  exact hfront.unique hall

/-- Each event of a chain was staged on a state of it, which the last state
extends. -/
theorem Chain.mem (h : Chain c a₀ events a) (hwf : WellFormed c a₀) (hx : x ∈ events) :
    ∃ s, WellFormed c s ∧ Staged c s x.1 x.2 ∧ Extends x.2 a := by
  induction h with
  | nil => cases hx
  | @snoc log s s' e hfront hstep ih =>
    obtain ⟨hmid, _, _⟩ := Chain.facts hfront hwf
    have hstaged := hstep.staged hmid
    rcases List.mem_append.mp hx with hx | hx
    · obtain ⟨t, ht, hs, hext⟩ := ih hx
      exact ⟨t, ht, hs, hext.trans (Extends.staged hmid hstaged)⟩
    · cases List.mem_singleton.mp hx
      have heq := hstep.2
      subst heq
      exact ⟨s, hmid, hstaged, Extends.refl _⟩

/-- The join of a device that is not there yet: afterwards it is, active, with
the keys of its record. -/
structure Joined (s : AccessState) (record : DeviceRecord) (role : WorkspaceRole) (actor : DeviceId)
    (st : AccessState) : Prop where
  owner : s.ActiveOwner actor
  fresh : s.memberships[record.deviceId]? = none
  device : st.devices[record.deviceId]? = some record.activate
  member : ∃ m, st.memberships[record.deviceId]? = some m ∧ m.status = .active
  ownerStays : st.ActiveOwner actor

theorem joined_of_staged (hs : Staged c a x.1 b) {id : JoinRequestId} {record : DeviceRecord}
    {role : WorkspaceRole} (hevent : x.1.event = .deviceJoined id record role) :
    Joined a record role x.1.actorDeviceId b := by
  obtain ⟨_, _, _, n, mid, _, hchange, rfl⟩ := hs
  rw [hevent] at hchange
  cases hchange with
  | deviceJoined howner hnew =>
    have hne : record.deviceId ≠ x.1.actorDeviceId := by
      intro heq
      obtain ⟨m, hm, _⟩ := howner
      rw [← heq, hnew] at hm
      cases hm
    refine ⟨howner, hnew, ?_, ?_, ?_⟩
    · simp [commitEvent, insertMembership, insertDeviceRecord, DeviceRecord.activate]
    · exact ⟨.joined record.deviceId role x.1.actorDeviceId x.1.createdAt.asSecs n,
        by simp [commitEvent, insertMembership, Membership.joined], rfl⟩
    · obtain ⟨m, hm, hactive, hrole⟩ := howner
      refine ⟨m, ?_, hactive, hrole⟩
      simpa [commitEvent, insertMembership, insertDeviceRecord, Membership.joined, hne] using hm

/-- A device that joined is a member, now or formerly. -/
theorem Chain.member (h : Chain c a₀ events a) (hwf : WellFormed c a₀) (hx : x ∈ events)
    {device : DeviceId} (hjoins : Joins x device) : ∃ m, a.memberships[device]? = some m := by
  obtain ⟨s, hs, hstaged, hext⟩ := h.mem hwf hx
  obtain ⟨id, record, role, hevent, rfl⟩ := hjoins
  have hjoined := joined_of_staged hstaged hevent
  obtain ⟨d, hd, _⟩ := hext.identity _ _ hjoined.device
  obtain ⟨_, _, m, hm⟩ := (h.facts hwf).1.device _ d hd
  exact ⟨m, hm⟩

/-- **A device joins once.** -/
theorem joined_once {ι : Type} {log : Log ι Accepted} (hwf : WellFormed c a₀) {p q : ι × Accepted}
    {device : DeviceId} (hp : Joins p.2 device) (hq : Joins q.2 device) :
    ∀ {a : AccessState}, Chain c a₀ (log.map Prod.snd) a → p ∈ log → q ∈ log → p = q := by
  have hfresh {front : Log ι Accepted} {last other : ι × Accepted} {a : AccessState}
      (h : Chain c a₀ ((front ++ [last]).map Prod.snd) a) (hlast : Joins last.2 device)
      (hother : Joins other.2 device) (hmem : other ∈ front) : False := by
    rw [List.map_append, List.map_singleton] at h
    obtain ⟨s, hfront, hstep⟩ := Legal.snoc_inv h
    obtain ⟨m, hm⟩ := Chain.member hfront hwf (List.mem_map.mpr ⟨other, hmem, rfl⟩) hother
    obtain ⟨id, record, role, hevent, hdevice⟩ := hlast
    have hnone := (joined_of_staged (hstep.staged (Chain.facts hfront hwf).1) hevent).fresh
    rw [hdevice, hm] at hnone
    cases hnone
  induction log using List.reverseRecOn with
  | nil =>
    intro a _ hmem
    cases hmem
  | append_singleton front last ih =>
    intro a h hpmem hqmem
    have hfront : ∃ s, Chain c a₀ (front.map Prod.snd) s := by
      rw [List.map_append, List.map_singleton] at h
      obtain ⟨s, hs, _⟩ := Legal.snoc_inv h
      exact ⟨s, hs⟩
    obtain ⟨s, hs⟩ := hfront
    rcases List.mem_append.mp hpmem with hpf | hpl
    · rcases List.mem_append.mp hqmem with hqf | hql
      · exact ih hs hpf hqf
      · cases List.mem_singleton.mp hql
        exact (hfresh h hq hp hpf).elim
    · cases List.mem_singleton.mp hpl
      rcases List.mem_append.mp hqmem with hqf | hql
      · exact (hfresh h hp hq hqf).elim
      · exact (List.mem_singleton.mp hql).symm

end Chains

/-! ### The contract -/

section Contract

variable {ι : Type} [DecidableEq ι]

/-- What clients share: the server, and who had which event accepted. -/
abbrev Shared (ι : Type) := ServerState ι × Log ι Accepted

/-- The log is the chain of the workspace's states, and envelopes are stored
for members only; a client adds its own entries to the log, and stores an
envelope where there is none, for a device whose join it had accepted. -/
def enrolmentContract (c : Crypto) (ws : WorkspaceId) (a₀ : AccessState) : Contract ι (Shared ι) where
  inv s := LocksFree s.1 ∧ Chain c a₀ (s.2.map Prod.snd) (s.1.accessState ws) ∧
    ∀ d b, s.1.keyEnvelopes ws systemKeyId d = some b → ∃ m, (s.1.accessState ws).memberships[d]? = some m
  guar i s s' := (∃ events : List Accepted, s'.2 = s.2 ++ events.map fun e => (i, e)) ∧
    ∀ d, s'.1.keyEnvelopes ws systemKeyId d = s.1.keyEnvelopes ws systemKeyId d ∨
      (s.1.keyEnvelopes ws systemKeyId d = none ∧ ∃ x ∈ Log.eventsOf i s.2, Joins x d)
  idle i s := Log.eventsOf i s.2 = []

theorem Log.mem_eventsOf {Ev : Type} {i : ι} {x : Ev} {log : Log ι Ev} :
    x ∈ Log.eventsOf i log ↔ (i, x) ∈ log := by
  simp [Log.eventsOf]

variable {c : Crypto} {ws : WorkspaceId} {a₀ : AccessState} {i : ι} {s s' : Shared ι}

/-- Members stay members, now or formerly. -/
theorem member_extends {a b : AccessState} (ha : WellFormed c a) (hb : WellFormed c b) (hext : Extends a b)
    {d : DeviceId} (hm : ∃ m, a.memberships[d]? = some m) : ∃ m, b.memberships[d]? = some m := by
  obtain ⟨m, hm⟩ := hm
  obtain ⟨_, _, record, hrecord, _⟩ := ha.member d m hm
  obtain ⟨record', hrecord', _⟩ := hext.identity d record hrecord
  obtain ⟨_, _, m', hm'⟩ := hb.device d record' hrecord'
  exact ⟨m', hm'⟩

theorem Settled.keeps (h : Settled s.1 s'.1) (hlog : s'.2 = s.2)
    (hinv : (enrolmentContract c ws a₀).inv s) :
    (enrolmentContract c ws a₀).inv s' ∧ (enrolmentContract c ws a₀).guar i s s' := by
  obtain ⟨_, hchain, hmembers⟩ := hinv
  refine ⟨⟨h.locks, ?_, fun d b hb => ?_⟩, ⟨[], ?_⟩, fun d => .inl ?_⟩
  · rw [hlog, h.accessState]
    exact hchain
  · rw [h.envelopes] at hb
    rw [h.accessState]
    exact hmembers d b hb
  · rw [hlog, List.map_nil, List.append_nil]
  · rw [h.envelopes]

theorem Lands.keeps {event : SignedAccessEvent} {st : AccessState} (h : Lands c ws event st s.1 s'.1)
    (hlog : s'.2 = s.2 ++ [(i, (event, st))]) (hwf : WellFormed c a₀)
    (hinv : (enrolmentContract c ws a₀).inv s) :
    (enrolmentContract c ws a₀).inv s' ∧ (enrolmentContract c ws a₀).guar i s s' := by
  obtain ⟨_, hchain, hmembers⟩ := hinv
  have hstep : Accepts c (s.1.accessState ws) (event, st) st := ⟨h.applied, rfl⟩
  have hnow := (hchain.facts hwf).1
  have hstaged := hstep.staged hnow
  have hnext : Chain c a₀ (s'.2.map Prod.snd) st := by
    rw [hlog, List.map_append, List.map_singleton]
    exact hchain.snoc hstep
  refine ⟨⟨h.locks, ?_, fun d b hb => ?_⟩, ⟨[(event, st)], hlog⟩, fun d => .inl ?_⟩
  · rw [h.state]
    exact hnext
  · rw [h.envelopes] at hb
    rw [h.state]
    exact member_extends hnow (hnow.staged hstaged) (Extends.staged hnow hstaged) (hmembers d b hb)
  · rw [h.envelopes]

/-! ### Assertions -/

/-- No event of the client was accepted. -/
def Idle (i : ι) (s : Shared ι) : Prop := Log.eventsOf i s.2 = []

/-- The workspace's state was once `a`. -/
def Fetched (c : Crypto) (a₀ a : AccessState) (s : Shared ι) : Prop :=
  ∃ front, front <+: s.2.map Prod.snd ∧ Chain c a₀ front a

/-- The client's event `x` was accepted, and nobody stored an envelope for the
device. -/
def Undelivered (ws : WorkspaceId) (x : Accepted) (device : DeviceId) (i : ι) (s : Shared ι) : Prop :=
  Log.eventsOf i s.2 = [x] ∧ s.1.keyEnvelopes ws systemKeyId device = none

/-- Events of others were accepted after the client's. -/
def Overtaken (i : ι) (s : Shared ι) : Prop :=
  ∃ front x rest, s.2 = front ++ (i, x) :: rest ∧ rest ≠ [] ∧ ∀ p ∈ rest, p.1 ≠ i

theorem eventsOf_stable {j : ι} (hj : j ≠ i) (h : (enrolmentContract c ws a₀).guar j s s') :
    Log.eventsOf i s'.2 = Log.eventsOf i s.2 := by
  obtain ⟨events, hlog⟩ := h.1
  rw [hlog, Log.eventsOf_append, Log.eventsOf_other hj, List.append_nil]

theorem stable_idle' : (enrolmentContract c ws a₀).Stable i (Idle i) :=
  fun _ hj _ _ _ _ hguar h => (eventsOf_stable hj hguar).trans h

theorem stable_fetched {a : AccessState} : (enrolmentContract c ws a₀).Stable i (Fetched c a₀ a) := by
  intro j _ s s' _ _ hguar h
  obtain ⟨front, hle, hchain⟩ := h
  obtain ⟨events, hlog⟩ := hguar.1
  refine ⟨front, hle.trans ?_, hchain⟩
  rw [hlog, List.map_append]
  exact List.prefix_append _ _

theorem stable_overtaken : (enrolmentContract c ws a₀).Stable i (Overtaken i) := by
  intro j hj s s' _ _ hguar h
  obtain ⟨front, x, rest, hlog, hne, hothers⟩ := h
  obtain ⟨events, hlog'⟩ := hguar.1
  refine ⟨front, x, rest ++ events.map fun e => (j, e), ?_, ?_, ?_⟩
  · rw [hlog', hlog, List.append_assoc, List.cons_append]
  · exact fun hnil => hne (List.append_eq_nil_iff.mp hnil).1
  · intro p hp
    rcases List.mem_append.mp hp with hp | hp
    · exact hothers p hp
    · obtain ⟨e, _, rfl⟩ := List.mem_map.mp hp
      exact hj

/-- Who had a device's join accepted is the only one to store its envelope. -/
theorem stable_undelivered (hwf : WellFormed c a₀) {x : Accepted} {device : DeviceId}
    (hjoins : Joins x device) : (enrolmentContract c ws a₀).Stable i (Undelivered ws x device i) := by
  intro j hj s s' hinv _ hguar h
  obtain ⟨hevents, hnone⟩ := h
  refine ⟨(eventsOf_stable hj hguar).trans hevents, ?_⟩
  rcases hguar.2 device with hsame | ⟨_, y, hy, hyjoins⟩
  · rw [hsame]
    exact hnone
  · have hx : x ∈ Log.eventsOf i s.2 := by
      rw [hevents]
      exact List.mem_singleton.mpr rfl
    have heq := joined_once hwf (p := (i, x)) (q := (j, y)) hjoins hyjoins hinv.2.1
      (Log.mem_eventsOf.mp hx) (Log.mem_eventsOf.mp hy)
    exact absurd (Prod.ext_iff.mp heq).1.symm hj

/-- Where an event of the client was accepted, others were after it, or the
state is the one it led to. -/
theorem overtaken_or_state (hinv : (enrolmentContract c ws a₀).inv s) {x : Accepted}
    (hevents : Log.eventsOf i s.2 = [x]) : Overtaken i s ∨ s.1.accessState ws = x.2 := by
  have hmem : (i, x) ∈ s.2 := Log.mem_eventsOf.mp (by rw [hevents]; exact List.mem_singleton.mpr rfl)
  obtain ⟨front, rest, hlog⟩ := List.append_of_mem hmem
  by_cases hrest : rest = []
  · subst hrest
    have hchain := hinv.2.1
    rw [hlog, List.map_append, List.map_singleton] at hchain
    obtain ⟨_, _, hstep⟩ := Legal.snoc_inv hchain
    exact .inr hstep.2
  · refine .inl ⟨front, x, rest, hlog, hrest, fun p hp hpi => ?_⟩
    -- a second event of the client would be in its list
    have hsplit : Log.eventsOf i s.2 = Log.eventsOf i front ++ Log.eventsOf i ((i, x) :: rest) := by
      rw [hlog, Log.eventsOf_append]
    have hfirst : Log.eventsOf i ((i, x) :: rest) = x :: Log.eventsOf i rest := by
      simp [Log.eventsOf]
    have hsecond : p.2 ∈ Log.eventsOf i rest := by
      rw [Log.mem_eventsOf, ← hpi]
      exact hp
    rw [hevents, hfirst] at hsplit
    have hlength := congrArg List.length hsplit
    have hpos := List.length_pos_of_mem hsecond
    simp only [List.length_nil, List.length_append, List.length_cons] at hlength
    omega

end Contract

/-! ### What an approval comes to -/

section Approval

variable {E : ClientEnv} {ws : WorkspaceId}

/-- The state cannot be written to TOML any more, or names other keys for the
owner than its identity has. -/
def Unfit (w : LocalWorkspace E.crypto ws) (st : AccessState) : Prop :=
  E.tomlLimit ≤ st.revision.toNat ∨
    ∃ record, st.devices[w.identity.deviceId]? = some record ∧
      requireIdentityMatchesRecord w.identity record ≠ .ok ()

/-- The join of the record, by the owner `w`, that was accepted. -/
structure Approved (w : LocalWorkspace E.crypto ws) (id : JoinRequestId) (x : Accepted)
    (record : DeviceRecord) (role : WorkspaceRole) : Prop where
  event : x.1.event = .deviceJoined id record role
  actor : x.1.actorDeviceId = w.identity.deviceId
  workspace : x.2.workspaceId = ws
  staged : ∃ a, WellFormed E.crypto.toCrypto a ∧ Staged E.crypto.toCrypto a x.1 x.2 ∧
    saveAccessState E a = .ok ()
  time : x.1.createdAt.secs < 2 ^ 63

variable {w : LocalWorkspace E.crypto ws} {id : JoinRequestId} {x : Accepted} {record : DeviceRecord}
  {role : WorkspaceRole}

theorem saveAccessState_ok {a : AccessState} : saveAccessState E a = .ok () ↔
    ∃ d, Codec.saveToml E.crypto.toCrypto E.tomlLimit a = .ok d := by
  simp only [saveAccessState, Except.bind_ok, Except.mapError_ok]
  constructor
  · rintro ⟨d, hd, _⟩
    exact ⟨d, hd⟩
  · rintro ⟨d, hd⟩
    exact ⟨d, hd, rfl⟩

namespace Approved

theorem joins (h : Approved w id x record role) : Joins x record.deviceId :=
  ⟨id, record, role, h.event, rfl⟩

theorem wellFormed (h : Approved w id x record role) : WellFormed E.crypto.toCrypto x.2 := by
  obtain ⟨a, ha, hs, _⟩ := h.staged
  exact ha.staged hs

theorem joined (h : Approved w id x record role) :
    ∃ a, Joined a record role w.identity.deviceId x.2 := by
  obtain ⟨a, _, hs, _⟩ := h.staged
  have hjoined := joined_of_staged hs h.event
  rw [h.actor] at hjoined
  exact ⟨a, hjoined⟩

/-- The state an approval led to is saved, as the state before it was. -/
theorem save (h : Approved w id x record role) (hfit : ¬ Unfit w x.2) :
    saveAccessState E x.2 = .ok () := by
  obtain ⟨a, ha, hs, hsaved⟩ := h.staged
  obtain ⟨d, hd⟩ := saveAccessState_ok.mp hsaved
  have hencode := (Codec.saveToml_ok.mp hd).2
  have hgrants := (Codec.encode_accessState hencode).1
  have htimes := Codec.timesBelow_of_encode hencode
  have hlimit := E.le_tomlLimit
  have htime := h.time
  have hgrants' : x.2.keyGrants.isEmpty = true := by
    refine (Codec.keyGrants_staged hs).mpr ⟨hgrants, ?_⟩
    rw [Codec.grantsKey, h.event]
  have htimes' : Codec.TimesBelow E.tomlLimit x.2 :=
    Codec.timesBelow_staged hs htimes (show x.1.createdAt.secs < E.tomlLimit by omega)
  have hrevision : x.2.revision.toNat < E.tomlLimit := by
    by_contra hle
    exact hfit (.inl (by omega))
  obtain ⟨d', hd', _⟩ := (Codec.persistsOnClient_iff (ha.staged hs) htimes').mpr ⟨hgrants', hrevision⟩
  exact saveAccessState_ok.mpr ⟨d', hd'⟩

/-- The owner's record, where the approval led to. -/
theorem sender (h : Approved w id x record role) : ∃ senderRecord,
    x.2.devices[w.identity.deviceId]? = some senderRecord ∧
      x.2.activeDeviceRecord w.identity.deviceId = .ok senderRecord ∧
      senderRecord.deviceId = w.identity.deviceId ∧ senderRecord.validate E.crypto.toCrypto = .ok () := by
  obtain ⟨a, hjoined⟩ := h.joined
  obtain ⟨m, hm, hactive, _⟩ := hjoined.ownerStays
  obtain ⟨_, _, senderRecord, hrecord, henrolled⟩ := h.wellFormed.member _ m hm
  obtain ⟨hid, hvalid, _⟩ := h.wellFormed.device _ senderRecord hrecord
  have hstatus : senderRecord.status = .active := by
    rcases henrolled with ⟨_, hstatus, _⟩ | ⟨hremoved, _⟩
    · exact hstatus
    · rw [hactive] at hremoved
      cases hremoved
  exact ⟨senderRecord, hrecord, activeDeviceRecord_ok.mpr ⟨⟨m, hm, hactive⟩, hrecord, hstatus⟩, hid, hvalid⟩

theorem recipient (h : Approved w id x record role) :
    x.2.activeDeviceRecord record.deviceId = .ok record.activate ∧
      record.activate.validate E.crypto.toCrypto = .ok () := by
  obtain ⟨a, hjoined⟩ := h.joined
  obtain ⟨_, hvalid, _⟩ := h.wellFormed.device _ _ hjoined.device
  exact ⟨activeDeviceRecord_ok.mpr ⟨hjoined.member, hjoined.device, rfl⟩, hvalid⟩

theorem permission (h : Approved w id x record role) :
    x.2.requirePermission w.identity.deviceId .manageKeys = .ok () := by
  obtain ⟨a, hjoined⟩ := h.joined
  exact (requirePermission_manage rfl).mpr hjoined.ownerStays

/-- The key is sealed for the device, by an owner whose record is its own. -/
theorem seals (h : Approved w id x record role) (hfit : ¬ Unfit w x.2) (now : UnixTimestamp)
    (ephemeralSecret : Key32) (nonce : EnvelopeNonce) :
    ∃ envelope, sealDefaultKeyEnvelope E w x.2 record.deviceId now ephemeralSecret nonce = .ok envelope := by
  obtain ⟨senderRecord, hdevice, hsender, hid, hvalid⟩ := h.sender
  obtain ⟨hrecipient, hrvalid⟩ := h.recipient
  have hmatch : requireIdentityMatchesRecord w.identity senderRecord = .ok () := by
    by_contra hne
    exact hfit (.inr ⟨senderRecord, hdevice, hne⟩)
  have hmember : ∃ m, x.2.activeMembership record.deviceId = .ok m := by
    obtain ⟨a, hjoined⟩ := h.joined
    obtain ⟨m, hm⟩ := hjoined.member
    exact ⟨m, activeMembership_ok.mpr hm⟩
  obtain ⟨m, hm⟩ := hmember
  have hauth : authorizeKeyDelivery x.2 .shared systemKeyId w.generation senderRecord.deviceId
      record.activate.deviceId = .ok () := by
    have hsame : record.activate.deviceId = record.deviceId := rfl
    rw [authorizeKeyDelivery, hid, hsame, h.permission, hm]
    rfl
  obtain ⟨envelope, henvelope⟩ := sealKeyEnvelope_succeeds w.identity_valid hvalid hrvalid hmatch hauth w.key
    ephemeralSecret now nonce
  refine ⟨envelope, ?_⟩
  simp only [sealDefaultKeyEnvelope, Except.bind_ok, Except.mapError_ok, require_ok]
  rw [w.default_system]
  exact ⟨(), rfl, (), w.shared, senderRecord, hsender, record.activate, hrecipient, henvelope⟩

theorem sealed (h : Approved w id x record role) {now : UnixTimestamp} {ephemeralSecret : Key32}
    {nonce : EnvelopeNonce} {envelope : KeyEnvelope}
    (hseal : sealDefaultKeyEnvelope E w x.2 record.deviceId now ephemeralSecret nonce = .ok envelope) :
    ∃ senderRecord, x.2.devices[w.identity.deviceId]? = some senderRecord ∧
      Sealed E.crypto x.2 systemKeyId w.generation w.key w.identity senderRecord record.activate
        envelope := by
  obtain ⟨senderRecord, hdevice, hsender, _, _⟩ := h.sender
  obtain ⟨hrecipient, _⟩ := h.recipient
  simp only [sealDefaultKeyEnvelope, Except.bind_ok, Except.mapError_ok, require_ok] at hseal
  obtain ⟨_, _, _, _, senderRecord', hsender', recipientRecord', hrecipient', hsealed⟩ := hseal
  rw [hsender] at hsender'
  rw [hrecipient] at hrecipient'
  cases hsender'
  cases hrecipient'
  rw [w.default_system] at hsealed
  exact ⟨senderRecord, hdevice, sealKeyEnvelope_ok hsealed⟩

end Approved

/-! ### The command -/

variable {ι : Type} [DecidableEq ι] {a₀ : AccessState} {i : ι} {s s' : Shared ι}

/-- The envelope that is stored for the device is the one the owner sealed at
the approval. -/
structure Delivered (w : LocalWorkspace E.crypto ws) (id : JoinRequestId) (i : ι) (s : Shared ι)
    (x : Accepted) (record : DeviceRecord) (role : WorkspaceRole) (doc : Serde.Doc)
    (envelope : KeyEnvelope) : Prop where
  events : Log.eventsOf i s.2 = [x]
  approved : Approved w id x record role
  stored : s.1.keyEnvelopes ws systemKeyId record.deviceId = some (E.renderJson doc)
  written : Serde.encode Codec.json (Codec.serKeyEnvelope envelope) = .ok doc
  envelope : ∃ senderRecord, x.2.devices[w.identity.deviceId]? = some senderRecord ∧
    Sealed E.crypto x.2 systemKeyId w.generation w.key w.identity senderRecord record.activate envelope

/-- How a run of `approve` can end. -/
def Outcome (w : LocalWorkspace E.crypto ws) (id : JoinRequestId) (i : ι) (s : Shared ι) : Prop :=
  Idle i s ∨ Overtaken i s ∨ (∃ x, Log.eventsOf i s.2 = [x] ∧ Unfit w x.2) ∨
    ∃ x record role doc envelope, Delivered w id i s x record role doc envelope

theorem stable_outcome : (enrolmentContract E.crypto.toCrypto ws a₀).Stable i (Outcome w id i) := by
  intro j hj s s' hinv hinv' hguar h
  rcases h with h | h | ⟨x, hx, hunfit⟩ | ⟨x, record, role, doc, envelope, h⟩
  · exact .inl (stable_idle' j hj s s' hinv hinv' hguar h)
  · exact .inr (.inl (stable_overtaken j hj s s' hinv hinv' hguar h))
  · refine .inr (.inr (.inl ⟨x, ?_, hunfit⟩))
    rw [eventsOf_stable hj hguar]
    exact hx
  · refine .inr (.inr (.inr ⟨x, record, role, doc, envelope, ?_, h.approved, ?_, h.written, h.envelope⟩))
    · rw [eventsOf_stable hj hguar]
      exact h.events
    · rcases hguar.2 record.deviceId with hsame | ⟨hnone, _⟩
      · rw [hsame]
        exact h.stored
      · rw [h.stored] at hnone
        cases hnone

/-- A proof outline of a client. -/
abbrev ClientRuns {α : Type} (E : ClientEnv) (ws : WorkspaceId) (a₀ : AccessState) (i : ι)
    (err pre : Shared ι → Prop) (x : Client α) (post : α → Shared ι → Prop) : Prop :=
  Outlined (enrolmentContract E.crypto.toCrypto ws a₀) (commits (ClientOp.Answers E.crypto.toCrypto ws)) i
    err pre (Fallible.lift (committing acceptedBy) x) post

variable {α : Type} {err pre : Shared ι → Prop} {post : α → Shared ι → Prop}

/-- No event is accepted with the answer. -/
def Unaccepting (o : ClientOp) : Prop :=
  ∀ (s : ServerState ι) (r : Except ClientError o.Val) (s' : ServerState ι), acceptedBy o s r s' = none

omit [DecidableEq ι] in
theorem log_of_unaccepting {o : ClientOp} {r : Except ClientError o.Val} (hquiet : Unaccepting (ι := ι) o)
    (h : commits (ClientOp.Answers E.crypto.toCrypto ws) i
      (⟨o, acceptedBy o⟩ : Committing (ServerState ι) ClientOp.Val ClientError Accepted) s r s') : s'.2 = s.2 := by
  have hlog : s'.2 = s.2 ++ (acceptedBy o s.1 r s'.1).toList.map fun e => (i, e) := h.2
  rw [hquiet s.1 r s'.1] at hlog
  exact hlog.trans (List.append_nil _)

/-- A step that leaves states and envelopes. -/
theorem quiet_client {o : ClientOp} {mid : o.Val → Shared ι → Prop} (hquiet : Unaccepting (ι := ι) o)
    (hpre : (enrolmentContract E.crypto.toCrypto ws a₀).Stable i pre)
    (hmid : ∀ a, (enrolmentContract E.crypto.toCrypto ws a₀).Stable i (mid a))
    (herr : (enrolmentContract E.crypto.toCrypto ws a₀).Stable i err)
    (hstep : ∀ (s s' : Shared ι) (r : Except ClientError o.Val),
      (enrolmentContract E.crypto.toCrypto ws a₀).inv s → pre s →
      ClientOp.Answers E.crypto.toCrypto ws i o s.1 r s'.1 → s'.2 = s.2 →
      Settled s.1 s'.1 ∧ Ends err mid r s') :
    ClientRuns E ws a₀ i err pre (Fallible.op o) mid := by
  refine Outlined.op (o := (⟨o, acceptedBy o⟩ : Committing (ServerState ι) ClientOp.Val ClientError Accepted)) hpre
    (fun s r s' hinv hp hsem => ?_) hmid herr
  have hlog := log_of_unaccepting hquiet hsem
  obtain ⟨hanswers, _⟩ := hsem
  obtain ⟨hsettled, hends⟩ := hstep s s' r hinv hp hanswers hlog
  obtain ⟨hinv', hguar⟩ := hsettled.keeps (i := i) hlog hinv
  exact ⟨hinv', hguar, hends⟩

/-- A request that changes nothing the assertion reads. -/
theorem quiet_request {q : HttpCall} {P : Shared ι → Prop} {T : q.Val → Shared ι → Prop}
    (hquiet : Unaccepting (ι := ι) (.http q))
    (hP : (enrolmentContract E.crypto.toCrypto ws a₀).Stable i P)
    (hT : ∀ a, (enrolmentContract E.crypto.toCrypto ws a₀).Stable i (T a))
    (herr : (enrolmentContract E.crypto.toCrypto ws a₀).Stable i err) (himp : ∀ s, P s → err s)
    (hkept : ∀ s s' : Shared ι, Settled s.1 s'.1 → s'.2 = s.2 → P s → P s')
    (hq : ∀ s : ServerState ι, LocksFree s → Meets (ServerState.attempt E.crypto.toCrypto i)
      (q.handle E.crypto.toCrypto ws) s fun r s' => Settled s s' ∧ ∀ a, r = .ok a →
        ∀ log, (enrolmentContract E.crypto.toCrypto ws a₀).inv (s, log) → T a (s', log)) :
    ClientRuns E ws a₀ i err P (send q) fun a s => P s ∧ T a s := by
  refine quiet_client hquiet hP (fun a => hP.and (hT a)) herr fun s s' r hinv hp hanswers hlog => ?_
  obtain ⟨response, hexec, rfl⟩ := hanswers
  obtain ⟨hsettled, ha⟩ := hq s.1 hinv.1 response s'.1 hexec
  refine ⟨hsettled, ?_⟩
  have hp' := hkept s s' hsettled hlog hp
  cases response with
  | ok a =>
    have hT' := ha a rfl s.2 hinv
    rw [← hlog] at hT'
    exact ⟨hp', hT'⟩
  | error e => exact himp s' hp'

end Approval

end RustSync
