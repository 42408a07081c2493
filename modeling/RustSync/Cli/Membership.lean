/-
Changing memberships

`device remove` and `device set-role`: the command reads the access state,
checks on what it read that the device of the command may make the change,
applies the signed event to its own copy, sends it, and expects the server's
answer to be that copy.

The server accepts the event on the state that was read or not at all, since
a state is told by its revision (`Chain.eq_of_revision`). So the answer is the
copy, the checks held of the state the event changed, and a command that fails
has changed nothing, unless the state it led to cannot be saved on the device
(`membership_exact`). A device that was removed takes no further part in the
workspace (`removed_stays_out`).

Key definitions: `changeMembership`, `commands`, `MemberChanged`.
-/
import RustSync.Cli.Delivery

namespace RustSync

open Fallible AccessState

deriving instance DecidableEq for AccessState

/-! ### The commands -/

section Commands

/-- The permission a change needs: `set-role` has a role, `remove` none. -/
def membershipPermission : Option WorkspaceRole → WorkspacePermission
  | some _ => .manageRoles
  | none => .manageDevices

def membershipEvent (device : DeviceId) : Option WorkspaceRole → AccessEvent
  | some newRole => .deviceRoleChanged device newRole
  | none => .deviceRemoved device

/-- Whether the membership is what the command asks for. -/
def alreadyDone (accessState : AccessState) (device : DeviceId) (membership : Membership) :
    Option WorkspaceRole → Except ClientError Bool
  | some role => do
    let active ← (accessState.activeMembership device).mapError .protocol
    return active.role = role
  | none => return membership.status = .removed

variable (E : ClientEnv) {ws : WorkspaceId}

variable (ws) in
def signedMembershipEvent (actor : DeviceIdentity) (revision : UInt64) (event : AccessEvent)
    (now : UnixTimestamp) : Except ClientError SignedAccessEvent := do
  let actorId := actor.deviceId
  let eventId ← (TextId.parse accessEventIdKind s!"event_{actorId}_{revision}").mapError .identifier
  let unsigned : SignedAccessEvent :=
    { eventId, workspaceId := ws, expectedRevision := revision, actorDeviceId := actor.deviceId,
      createdAt := now, event, signature := [] }
  let signature ← (actor.sign E.crypto unsigned.signingPayload).mapError .access
  return { unsigned with signature }

/-- The event applied to the client's own copy. -/
def appliedHere (accessState : AccessState) (event : SignedAccessEvent) : Except ClientError AccessState :=
  match (applyVerifiedEvent E.crypto.toCrypto event).exec accessState with
  | (.ok _, changed) => .ok changed
  | (.error error, _) => .error (.protocol error)

/-- What a command prints, and the state it saved. -/
structure MembershipChange where
  alreadyDone : Bool
  accessState : AccessState

def changeMembership (w : LocalWorkspace E.crypto ws) (device : DeviceId) (role : Option WorkspaceRole) :
    Client MembershipChange := do
  let accessState : AccessState ← send (.fetchAccessState w.identity.deviceId)
  check (require (accessState.workspaceId = ws)
    (.message "server returned access state for a different workspace"))
  check (requireActiveIdentity accessState w.identity)
  check ((accessState.requirePermission w.identity.deviceId (membershipPermission role)).mapError .protocol)
  let membership ← check (okOr (accessState.membership device)
    (.message s!"device `{device}` is not enrolled in this workspace"))
  let done ← check (alreadyDone accessState device membership role)
  if done then
    check (saveAccessState E accessState)
    return ⟨true, accessState⟩
  else
    let now : UnixTimestamp ← Fallible.op ClientOp.now
    let event ← check (signedMembershipEvent E ws w.identity accessState.revision
      (membershipEvent device role) now)
    let changed ← check (appliedHere E accessState event)
    let answer : AccessState ← send (.applyAccessEvent w.identity.deviceId event)
    check (require (answer = changed) (.message ("server returned unexpected access state after membership " ++
      "change; run `rustsync device list` to inspect it")))
    check ((saveAccessState E changed).mapError .membershipNotSaved)
    return ⟨false, changed⟩

/-- `device remove`. -/
def remove (w : LocalWorkspace E.crypto ws) (device : DeviceId) : Client MembershipChange :=
  changeMembership E w device none

/-- `device set-role`. -/
def setRole (w : LocalWorkspace E.crypto ws) (device : DeviceId) (role : WorkspaceRole) :
    Client MembershipChange :=
  changeMembership E w device (some role)

/-- The commands of a workspace's devices. -/
inductive CommandRequest (ws : WorkspaceId) where
  | remove (w : LocalWorkspace E.crypto ws) (device : DeviceId)
  | setRole (w : LocalWorkspace E.crypto ws) (device : DeviceId) (role : WorkspaceRole)
  | client (request : ClientRequest E ws)

inductive CommandResponse where
  | changed (change : MembershipChange)
  | client (response : ClientResponse)

def CommandRequest.run : CommandRequest E ws → Client CommandResponse
  | .remove w device => .changed <$> RustSync.remove E w device
  | .setRole w device role => .changed <$> RustSync.setRole E w device role
  | .client request => .client <$> request.run E

/-- The commands of a workspace's devices over its server, beside the clients
of `clients`. -/
def commands (ι : Type) (ws : WorkspaceId) :
    Machine ι (Signature.linearized (ServerState ι) ClientOp.Val ClientError Accepted)
      (ServerState ι × Log ι Accepted) (CommandRequest E ws) (Except ClientError CommandResponse) :=
  Machine.logged
    { sem := ClientOp.Answers E.crypto.toCrypto ws
      program := fun q => (q.run E).run }
    fun _ => acceptedBy

end Commands

/-! ### What a change does -/

section Changes

variable {E : ClientEnv} {ws : WorkspaceId} {w : LocalWorkspace E.crypto ws} {device : DeviceId}
  {role : Option WorkspaceRole} {a st : AccessState} {event : SignedAccessEvent} {x : Accepted}

/-- The membership is what the command asks for. -/
def HasMembership (st : AccessState) (device : DeviceId) : Option WorkspaceRole → Prop
  | some role => ∃ m, st.memberships[device]? = some m ∧ m.status = .active ∧ m.role = role
  | none => ∃ m, st.memberships[device]? = some m ∧ m.status = .removed

theorem alreadyDone_iff {m : Membership} {done : Bool} (hm : a.memberships[device]? = some m)
    (h : alreadyDone a device m role = .ok done) : done = true ↔ HasMembership a device role := by
  cases role with
  | some role =>
    simp only [alreadyDone, Except.bind_ok, Except.mapError_ok, activeMembership_ok] at h
    obtain ⟨m', ⟨hm', hactive⟩, hdone⟩ := h
    rw [hm] at hm'
    cases hm'
    have hdone : decide (m.role = role) = done := Except.ok.inj hdone
    rw [← hdone, decide_eq_true_eq]
    constructor
    · intro h
      exact ⟨m, hm, hactive, h⟩
    · rintro ⟨m', hm', _, h⟩
      rw [hm] at hm'
      cases hm'
      exact h
  | none =>
    have hdone : decide (m.status = .removed) = done := Except.ok.inj h
    rw [← hdone, decide_eq_true_eq]
    constructor
    · intro h
      exact ⟨m, hm, h⟩
    · rintro ⟨m', hm', h⟩
      rw [hm] at hm'
      cases hm'
      exact h

/-- The change of a membership from the state `a`, on which the command's
checks hold: afterwards the membership is what was asked for, a removed device
holds no grants, there is an active owner, and the other devices are as they
were. -/
structure MemberChanged (w : LocalWorkspace E.crypto ws) (device : DeviceId) (role : Option WorkspaceRole)
    (a : AccessState) (x : Accepted) : Prop where
  event : x.1.event = membershipEvent device role
  actor : x.1.actorDeviceId = w.identity.deviceId
  identity : requireActiveIdentity a w.identity = .ok ()
  permission : a.requirePermission w.identity.deviceId (membershipPermission role) = .ok ()
  before : ¬ HasMembership a device role
  after : HasMembership x.2 device role
  grants : role = none → ∀ keyId generation, x.2.hasActiveKeyGrant keyId generation device = false
  owned : ∃ owner, x.2.ActiveOwner owner
  others : ∀ d, d ≠ device → x.2.memberships[d]? = a.memberships[d]? ∧ x.2.devices[d]? = a.devices[d]?
  revision : x.2.revision.toNat = a.revision.toNat + 1

/-- A member without an active membership holds no grants. -/
theorem no_grants_of_removed {c : Crypto} (hwf : WellFormed c st) (h : HasMembership st device none)
    (keyId : KeyId) (generation : UInt64) : st.hasActiveKeyGrant keyId generation device = false := by
  obtain ⟨m, hm, hremoved⟩ := h
  unfold hasActiveKeyGrant
  cases hgrant : st.keyGrant keyId generation device with
  | none => rfl
  | some grant =>
    obtain ⟨_, _, hactive⟩ := hwf.grant keyId generation device grant hgrant
    have hrevoked : grant.revokedAtRevision ≠ none := by
      intro hnone
      obtain ⟨m', hm', hstatus⟩ := hactive hnone
      rw [hm] at hm'
      cases hm'
      rw [hremoved] at hstatus
      cases hstatus
    simpa [Option.isSome_iff_ne_none] using hrevoked

theorem membership_of_staged {c : Crypto} (hs : Staged c a event st)
    (hevent : event.event = membershipEvent device role) :
    HasMembership st device role ∧
      ∀ d, d ≠ device → st.memberships[d]? = a.memberships[d]? ∧ st.devices[d]? = a.devices[d]? := by
  obtain ⟨_, _, _, n, mid, _, hchange, rfl⟩ := hs
  rw [hevent] at hchange
  cases role with
  | some role =>
    cases hchange with
    | @deviceRoleChanged _ _ m _ hm hactive _ =>
      refine ⟨⟨{ m with role }, ?_, hactive, rfl⟩, fun d hd => ⟨?_, rfl⟩⟩
      · simp [modifyMembership, hm]
      · simp [modifyMembership, Ne.symm hd]
  | none =>
    cases hchange with
    | @deviceRemoved _ m _ hm _ _ =>
      refine ⟨⟨m.remove event.actorDeviceId event.createdAt.asSecs n, ?_, rfl⟩, fun d hd => ⟨?_, ?_⟩⟩
      · rw [commitEvent_memberships, memberships_removeDevice, if_pos rfl, hm]
        rfl
      · rw [commitEvent_memberships, memberships_removeDevice, if_neg (Ne.symm hd)]
      · rw [commitEvent_devices, devices_removeDevice, if_neg (Ne.symm hd)]

/-- The event a command signs. -/
theorem signedMembershipEvent_ok {revision : UInt64} {change : AccessEvent} {now : UnixTimestamp}
    (h : signedMembershipEvent E ws w.identity revision change now = .ok event) :
    event.event = change ∧ event.actorDeviceId = w.identity.deviceId ∧ event.expectedRevision = revision := by
  simp only [signedMembershipEvent, Except.bind_ok, Except.mapError_ok] at h
  obtain ⟨_, _, _, _, heq⟩ := h
  cases heq
  exact ⟨rfl, rfl, rfl⟩

theorem appliedHere_ok (h : appliedHere E a event = .ok st) :
    (applyVerifiedEvent E.crypto.toCrypto event).exec a = (.ok (), st) := by
  unfold appliedHere at h
  split at h
  · rename_i changed hexec
    cases h
    exact hexec
  · cases h

end Changes

/-! ### Runs of a command -/

section Runs

variable {E : ClientEnv} {ws : WorkspaceId} {w : LocalWorkspace E.crypto ws} {device : DeviceId}
  {role : Option WorkspaceRole} {ι : Type} [DecidableEq ι] {a₀ a st : AccessState} {i : ι} {s s' : Shared ι}

/-- The one event of the client's changed the membership, and led to `st`. -/
def ChangedOnce (w : LocalWorkspace E.crypto ws) (device : DeviceId) (role : Option WorkspaceRole)
    (a₀ : AccessState) (i : ι) (st : AccessState) (s : Shared ι) : Prop :=
  ∃ front event rest a, s.2 = front ++ (i, (event, st)) :: rest ∧ Log.eventsOf i s.2 = [(event, st)] ∧
    Chain E.crypto.toCrypto a₀ (front.map Prod.snd) a ∧ MemberChanged w device role a (event, st)

/-- How a command that succeeds ends. -/
def MembershipOutcome (w : LocalWorkspace E.crypto ws) (device : DeviceId) (role : Option WorkspaceRole)
    (a₀ : AccessState) (i : ι) : MembershipChange → Shared ι → Prop
  | ⟨true, a⟩, s => Idle i s ∧ Fetched E.crypto.toCrypto a₀ a s ∧ HasMembership a device role ∧
    saveAccessState E a = .ok ()
  | ⟨false, st⟩, s => ChangedOnce w device role a₀ i st s ∧ saveAccessState E st = .ok ()

/-- How a command that fails ends. -/
def MembershipFailure (w : LocalWorkspace E.crypto ws) (device : DeviceId) (role : Option WorkspaceRole)
    (a₀ : AccessState) (i : ι) (s : Shared ι) : Prop :=
  Idle i s ∨ ∃ st, ChangedOnce w device role a₀ i st s ∧ saveAccessState E st ≠ .ok ()

theorem stable_changedOnce :
    (enrolmentContract E.crypto.toCrypto ws a₀).Stable i (ChangedOnce w device role a₀ i st) := by
  intro j hj s s' _ _ hguar h
  obtain ⟨front, event, rest, a, hlog, hown, hchain, hchanged⟩ := h
  obtain ⟨events, hlog'⟩ := hguar.1
  refine ⟨front, event, rest ++ events.map fun e => (j, e), a, ?_, ?_, hchain, hchanged⟩
  · rw [hlog', hlog, List.append_assoc, List.cons_append]
  · rw [eventsOf_stable hj hguar]
    exact hown

theorem stable_membershipFailure :
    (enrolmentContract E.crypto.toCrypto ws a₀).Stable i (MembershipFailure w device role a₀ i) := by
  intro j hj s s' hinv hinv' hguar h
  rcases h with h | ⟨st, h, hunsaved⟩
  · exact .inl (stable_idle' j hj s s' hinv hinv' hguar h)
  · exact .inr ⟨st, stable_changedOnce j hj s s' hinv hinv' hguar h, hunsaved⟩

theorem stable_membershipOutcome {change : MembershipChange} :
    (enrolmentContract E.crypto.toCrypto ws a₀).Stable i (MembershipOutcome w device role a₀ i change) := by
  intro j hj s s' hinv hinv' hguar h
  obtain ⟨done, st⟩ := change
  cases done with
  | true =>
    obtain ⟨hidle, hfetched, hrest⟩ := h
    exact ⟨stable_idle' j hj s s' hinv hinv' hguar hidle, stable_fetched j hj s s' hinv hinv' hguar hfetched, hrest⟩
  | false => exact ⟨stable_changedOnce j hj s s' hinv hinv' hguar h.1, h.2⟩

/-- An event sent at the revision of a state that was read changes that state,
to the copy the client made. -/
theorem changed_of_lands {changed : AccessState} {event : SignedAccessEvent} (hwf : WellFormed E.crypto.toCrypto a₀)
    (hinv : (enrolmentContract E.crypto.toCrypto ws a₀).inv s) (hidle : Idle i s)
    (hfetched : Fetched E.crypto.toCrypto a₀ a s) (hidentity : requireActiveIdentity a w.identity = .ok ())
    (hpermission : a.requirePermission w.identity.deviceId (membershipPermission role) = .ok ())
    (hbefore : ¬ HasMembership a device role) (hevent : event.event = membershipEvent device role)
    (hactor : event.actorDeviceId = w.identity.deviceId) (hrevision : event.expectedRevision = a.revision)
    (happlied : (applyVerifiedEvent E.crypto.toCrypto event).exec a = (.ok (), changed))
    (h : Lands E.crypto.toCrypto ws event st s.1 s'.1) (hlog : s'.2 = s.2 ++ [(i, (event, st))]) :
    st = changed ∧ ChangedOnce w device role a₀ i st s' := by
  obtain ⟨_, hchain, _⟩ := hinv
  have hnow := (hchain.facts hwf).1
  have haccepts : Accepts E.crypto.toCrypto (s.1.accessState ws) (event, st) st := ⟨h.applied, rfl⟩
  have hstaged := haccepts.staged hnow
  obtain ⟨front, hle, hfront⟩ := hfetched
  have hsame : a = s.1.accessState ws :=
    hfront.eq_of_revision hchain hle hwf (hrevision.symm.trans hstaged.expected.symm)
  have hstate := h.applied
  rw [← hsame] at hstate hstaged hnow haccepts hchain
  have hst : st = changed := by
    rw [happlied] at hstate
    exact (congrArg Prod.snd hstate).symm
  have hlater := hnow.staged hstaged
  have hnext := haccepts.revision hnow
  obtain ⟨hafter, hothers⟩ := membership_of_staged hstaged hevent
  have howned : ∃ owner, st.ActiveOwner owner := by
    apply hlater.owned
    intro hzero
    rw [hzero] at hnext
    simp at hnext
  have hgrants (hnone : role = none) (keyId : KeyId) (generation : UInt64) :
      st.hasActiveKeyGrant keyId generation device = false := by
    rw [hnone] at hafter
    exact no_grants_of_removed hlater hafter keyId generation
  refine ⟨hst, s.2, event, [], a, hlog, ?_, hchain, hevent, hactor, hidentity, hpermission, hbefore, hafter,
    hgrants, howned, hothers, hnext⟩
  have hown : Log.eventsOf i [(i, (event, st))] = [(event, st)] := Log.eventsOf_own i [(event, st)]
  rw [hlog, Log.eventsOf_append, hidle, hown, List.nil_append]

/-- Reading the access state. -/
theorem fetchAccessState_runs (hidle : ∀ s : Shared ι, Idle i s → MembershipFailure w device role a₀ i s) :
    ClientRuns E ws a₀ i (MembershipFailure w device role a₀ i) (Idle i)
      (send (.fetchAccessState w.identity.deviceId))
      fun (a : AccessState) s => Idle i s ∧ Fetched E.crypto.toCrypto a₀ a s := by
  refine quiet_request (q := HttpCall.fetchAccessState w.identity.deviceId)
    (T := fun a : AccessState => Fetched E.crypto.toCrypto a₀ a) (fun _ _ _ => rfl) stable_idle'
    (fun _ => stable_fetched) stable_membershipFailure hidle (fun s s' _ hlog h => ?_) fun t ht => ?_
  · rw [Idle, hlog]
    exact h
  · refine Meets.weaken (fetchAccessState_meets t) fun r t' h => ?_
    obtain ⟨rfl, hread⟩ := h
    refine ⟨Settled.refl ht, fun a ha log hinv => ?_⟩
    rw [hread a ha]
    exact ⟨_, List.prefix_rfl, hinv.2.1⟩

/-- From the signed event on. -/
theorem sendChange_runs {changed : AccessState} {event : SignedAccessEvent} (hwf : WellFormed E.crypto.toCrypto a₀)
    (hidentity : requireActiveIdentity a w.identity = .ok ())
    (hpermission : a.requirePermission w.identity.deviceId (membershipPermission role) = .ok ())
    (hbefore : ¬ HasMembership a device role) (hevent : event.event = membershipEvent device role)
    (hactor : event.actorDeviceId = w.identity.deviceId) (hrevision : event.expectedRevision = a.revision)
    (happlied : (applyVerifiedEvent E.crypto.toCrypto event).exec a = (.ok (), changed)) :
    ClientRuns E ws a₀ i (MembershipFailure w device role a₀ i)
      (fun s => Idle i s ∧ Fetched E.crypto.toCrypto a₀ a s) (send (.applyAccessEvent w.identity.deviceId event))
      fun (st : AccessState) s => st = changed ∧ ChangedOnce w device role a₀ i st s := by
  refine event_runs (q := HttpCall.applyAccessEvent w.identity.deviceId event) (fun st : AccessState => st) hwf
    (stable_idle'.and stable_fetched) (fun st => Contract.stable_const.and stable_changedOnce)
    stable_membershipFailure (fun _ _ _ => rfl) (fun _ _ _ => rfl) (fun t ht => ?_) ?_ ?_
  · refine Meets.weaken (applyAccessEvent_meets ht) fun r t' h => ?_
    cases r with
    | ok st => exact h
    | error e => exact h
  · intro s s' st hinv hp hlands hlog
    exact changed_of_lands hwf hinv hp.1 hp.2 hidentity hpermission hbefore hevent hactor hrevision happlied
      hlands hlog
  · intro s s' hp _ hlog
    have hidle : Idle i s' := by
      rw [Idle, hlog]
      exact hp.1
    exact .inl hidle

theorem changeMembership_runs (hwf : WellFormed E.crypto.toCrypto a₀) :
    ClientRuns E ws a₀ i (MembershipFailure w device role a₀ i) (Idle i) (changeMembership E w device role)
      (MembershipOutcome w device role a₀ i) := by
  have herr : (enrolmentContract E.crypto.toCrypto ws a₀).Stable i (MembershipFailure w device role a₀ i) :=
    stable_membershipFailure
  unfold changeMembership
  refine Outlined.lift_bind (fetchAccessState_runs fun _ h => .inl h) herr fun a => ?_
  have hstable : (enrolmentContract E.crypto.toCrypto ws a₀).Stable i
      fun s => Idle i s ∧ Fetched E.crypto.toCrypto a₀ a s := stable_idle'.and stable_fetched
  have hfail (s : Shared ι) (_ : (enrolmentContract E.crypto.toCrypto ws a₀).inv s)
      (h : Idle i s ∧ Fetched E.crypto.toCrypto a₀ a s) : MembershipFailure w device role a₀ i s := .inl h.1
  refine Outlined.lift_check_bind hstable hfail fun _ _ => ?_
  refine Outlined.lift_check_bind hstable hfail fun _ hidentity => ?_
  refine Outlined.lift_check_bind hstable hfail fun _ hpermission => ?_
  have hpermission := Except.mapError_ok.mp hpermission
  refine Outlined.lift_check_bind hstable hfail fun m hm => ?_
  have hm : a.memberships[device]? = some m := okOr_ok.mp hm
  refine Outlined.lift_check_bind hstable hfail fun done hdone => ?_
  have hdone := alreadyDone_iff hm hdone
  cases done with
  | true =>
    -- nothing is left to do
    refine Outlined.lift_check_bind hstable hfail fun _ hsaved => ?_
    exact Outlined.pure hstable fun s _ h => ⟨h.1, h.2, hdone.mp rfl, hsaved⟩
  | false =>
    have hbefore : ¬ HasMembership a device role := fun h => nomatch hdone.mpr h
    refine Outlined.lift_bind (now_runs hstable herr) herr fun now => ?_
    refine Outlined.left ?_ Contract.stable_const
    refine Outlined.lift_check_bind hstable hfail fun event hevent => ?_
    obtain ⟨hchange, hactor, hrevision⟩ := signedMembershipEvent_ok hevent
    refine Outlined.lift_check_bind hstable hfail fun changed happlied => ?_
    refine Outlined.lift_bind (sendChange_runs hwf hidentity hpermission hbefore hchange hactor hrevision
      (appliedHere_ok happlied)) herr fun answer => ?_
    -- the answer is the copy, so it is not the second check that fails
    have hsent : (enrolmentContract E.crypto.toCrypto ws a₀).Stable i fun s =>
        answer = changed ∧ ChangedOnce w device role a₀ i answer s := Contract.stable_const.and stable_changedOnce
    refine Outlined.assume hsent (fun s _ h => h.1) fun hsame => ?_
    refine Outlined.lift_check_ok (b := ()) (require_ok.mpr hsame) ?_
    subst hsame
    refine Outlined.lift_check_cases hsent (fun e he s _ h => .inr ⟨answer, h.2, fun hsaved => ?_⟩) fun _ hsaved => ?_
    · rw [hsaved] at he
      cases he
    · exact Outlined.pure hsent fun s _ h => ⟨h.2, Except.mapError_ok.mp hsaved⟩

end Runs

/-! ### Every interleaving -/

section Interleavings

variable {E : ClientEnv} {ws : WorkspaceId} {w : LocalWorkspace E.crypto ws} {device : DeviceId}
  {role : Option WorkspaceRole} {ι : Type} [DecidableEq ι] {a₀ : AccessState} {i : ι}

/-- The change a command asks for. -/
def CommandRequest.change : CommandRequest E ws →
    Option (LocalWorkspace E.crypto ws × DeviceId × Option WorkspaceRole)
  | .remove w device => some (w, device, none)
  | .setRole w device role => some (w, device, some role)
  | .client _ => none

/-- What a finished command has come to. -/
def CommandFinished (E : ClientEnv) (ws : WorkspaceId) (a₀ : AccessState) (q : CommandRequest E ws) (i : ι)
    (r : Except ClientError CommandResponse) (s : Shared ι) : Prop :=
  match q.change, r with
  | none, _ => True
  | some _, .ok (.client _) => False
  | some (w, device, role), .ok (.changed change) => MembershipOutcome w device role a₀ i change s
  | some (w, device, role), .error _ => MembershipFailure w device role a₀ i s

theorem commandFinished_of_runs {q : CommandRequest E ws} (hwf : WellFormed E.crypto.toCrypto a₀)
    (hq : q.change = some (w, device, role))
    (hrun : q.run E = CommandResponse.changed <$> changeMembership E w device role) :
    Outline (enrolmentContract E.crypto.toCrypto ws a₀) (commands E ι ws).sem i (CommandFinished E ws a₀ q i)
      (Idle i) ((commands E ι ws).program q) := by
  have hruns : ClientRuns E ws a₀ i (MembershipFailure w device role a₀ i) (Idle i) (q.run E)
      fun response s => ∃ change, response = .changed change ∧ MembershipOutcome w device role a₀ i change s := by
    rw [hrun]
    exact Outlined.lift_map (changeMembership_runs hwf) stable_membershipFailure (fun _ => stable_membershipOutcome)
      fun change _ _ h => ⟨change, rfl, h⟩
  refine Outline.weaken_post hruns fun r s _ h => ?_
  unfold CommandFinished
  rw [hq]
  cases r with
  | ok response =>
    obtain ⟨change, rfl, houtcome⟩ := h
    exact houtcome
  | error e => exact h

theorem commands_kept (hc : E.crypto.Ideal) (hwf : WellFormed E.crypto.toCrypto a₀) :
    (enrolmentContract E.crypto.toCrypto ws a₀).Kept (commands E ι ws) (CommandFinished E ws a₀) := by
  refine ⟨fun i => stable_idle', fun q i => ?_⟩
  cases q with
  | remove w device => exact commandFinished_of_runs hwf rfl rfl
  | setRole w device role => exact commandFinished_of_runs hwf rfl rfl
  | client request =>
    have hclient : ClientRuns E ws a₀ i (fun _ => True) (Idle i) (request.run E) fun _ _ => True := by
      refine Outline.weaken_post ((clients_kept hc hwf).outline request i) fun r s _ _ => ?_
      cases r with
      | ok _ => trivial
      | error _ => trivial
    have hrun : ClientRuns E ws a₀ i (fun _ => True) (Idle i) (CommandResponse.client <$> request.run E)
        fun _ _ => True :=
      Outlined.lift_map hclient Contract.stable_true (fun _ => Contract.stable_true) fun _ _ _ h => h
    exact Outline.weaken_post hrun fun _ _ _ _ => trivial

variable {s₀ : ServerState ι}
    {cfg cfg' : Config ι (Signature.linearized (ServerState ι) ClientOp.Val ClientError Accepted)
  (Shared ι) (CommandRequest E ws) (Except ClientError CommandResponse)} {q : CommandRequest E ws}
  {result : Except ClientError CommandResponse}

/-- **A membership command takes effect once, on the state it was checked
on.** In every interleaving, a command that succeeded either found the
membership as asked for in a state the workspace had, and no event of it was
accepted; or one event of it was, which changed the state its checks had been
made on, and the state it saved is the one that event led to. A command that
failed has changed nothing, unless the state it led to cannot be saved on the
device. -/
theorem membership_exact (hc : E.crypto.Ideal) (hstarted : Started E.crypto.toCrypto ws s₀)
    (h : (commands E ι ws).Reachable (s₀, []) cfg) (hq : q.change = some (w, device, role))
    (hdone : cfg.thread i = some (q, .done result)) :
    Chain E.crypto.toCrypto (s₀.accessState ws) (cfg.shared.2.map Prod.snd) (cfg.shared.1.accessState ws) ∧
      ((∃ a front, result = .ok (.changed ⟨true, a⟩) ∧ Log.eventsOf i cfg.shared.2 = [] ∧
          front <+: cfg.shared.2.map Prod.snd ∧ Chain E.crypto.toCrypto (s₀.accessState ws) front a ∧
          HasMembership a device role ∧ saveAccessState E a = .ok ()) ∨
        (∃ st, result = .ok (.changed ⟨false, st⟩) ∧ ChangedOnce w device role (s₀.accessState ws) i st cfg.shared ∧
          saveAccessState E st = .ok ()) ∨
        ∃ e, result = .error e ∧ (Log.eventsOf i cfg.shared.2 = [] ∨
          ∃ st, ChangedOnce w device role (s₀.accessState ws) i st cfg.shared ∧ saveAccessState E st ≠ .ok ())) := by
  obtain ⟨⟨_, hchain, _⟩, _, hfinished⟩ := Contract.reachable hstarted.inv (fun _ => rfl)
    (commands_kept hc hstarted.wellFormed) h
  have houtcome := hfinished i q result hdone
  unfold CommandFinished at houtcome
  rw [hq] at houtcome
  refine ⟨hchain, ?_⟩
  rcases result with e | ⟨⟨_ | _, a⟩⟩ | response
  · exact .inr (.inr ⟨e, rfl, houtcome⟩)
  · exact .inr (.inl ⟨a, rfl, houtcome⟩)
  · obtain ⟨hidle, ⟨front, hle, hfront⟩, hdone, hsaved⟩ := houtcome
    exact .inl ⟨a, front, rfl, hidle, hle, hfront, hdone, hsaved⟩
  · exact houtcome.elim

/-! ### A removed device -/

/-- The log grows, by events of one chain. -/
theorem commands_later (hc : E.crypto.Ideal) (hstarted : Started E.crypto.toCrypto ws s₀)
    (h : (commands E ι ws).Reachable (s₀, []) cfg) (hsteps : (commands E ι ws).Steps cfg cfg') :
    cfg.shared.2 <+: cfg'.shared.2 ∧
      Chain E.crypto.toCrypto (s₀.accessState ws) (cfg'.shared.2.map Prod.snd) (cfg'.shared.1.accessState ws) := by
  have hkept : (enrolmentContract E.crypto.toCrypto ws (s₀.accessState ws)).Kept (commands E ι ws)
      (CommandFinished E ws (s₀.accessState ws)) := commands_kept hc hstarted.wellFormed
  have hle : Later ws cfg.shared cfg'.shared :=
    Contract.monotone (fun s => ⟨List.prefix_rfl, fun _ _ hb => hb⟩)
      (fun _ _ _ h h' => ⟨h.1.trans h'.1, fun d b hb => h'.2 d b (h.2 d b hb)⟩)
      (fun _ _ _ => later_of_guar) hstarted.inv (fun _ => rfl) hkept h hsteps
  obtain ⟨⟨_, hchain, _⟩, _, _⟩ := Contract.reachable hstarted.inv (fun _ => rfl) hkept (h.trans hsteps)
  exact ⟨hle.1, hchain⟩

/-- Each event of a chain was staged on a state that extends where it starts. -/
theorem Chain.mem_from {c : Crypto} {a b : AccessState} {events : List Accepted} {x : Accepted}
    (h : Chain c a events b) (hwf : WellFormed c a) (hx : x ∈ events) :
    ∃ s, WellFormed c s ∧ Extends a s ∧ Staged c s x.1 x.2 := by
  induction h with
  | nil => cases hx
  | @snoc log s s' e hfront hstep ih =>
    obtain ⟨hmid, hext, _⟩ := Chain.facts hfront hwf
    rcases List.mem_append.mp hx with hx | hx
    · exact ih hx
    · cases List.mem_singleton.mp hx
      have heq := hstep.2
      subst heq
      exact ⟨s, hmid, hext, hstep.staged hmid⟩

/-- No device acts that is no active owner. -/
theorem actor_ne_of_removed {c : Crypto} {a b : AccessState} {event : SignedAccessEvent} (hs : Staged c a event b)
    (h : HasMembership a device none) : event.actorDeviceId ≠ device := by
  obtain ⟨m, hm, hremoved⟩ := h
  have howner : a.ActiveOwner event.actorDeviceId := by
    obtain ⟨_, _, _, n, mid, _, hchange, rfl⟩ := hs
    generalize event.event = ev at hchange
    cases hchange with
    | workspaceCreated _ hmembers =>
      rw [BTreeMap.isEmpty_iff_lookup.mp hmembers device] at hm
      cases hm
    | deviceJoined howner => exact howner
    | deviceRoleChanged howner => exact howner
    | deviceRemoved howner => exact howner
    | restrictedKeyGranted howner => exact howner
    | restrictedKeyRevoked howner => exact howner
  obtain ⟨m', hm', hactive, _⟩ := howner
  intro hsame
  rw [hsame, hm] at hm'
  cases hm'
  rw [hremoved] at hactive
  cases hactive

theorem activeDeviceRecord_removed {a : AccessState} (h : HasMembership a device none) :
    a.activeDeviceRecord device = .error (.deviceNotActiveMember device) := by
  obtain ⟨m, hm, hremoved⟩ := h
  have hlookup : a.membership device = some m := hm
  have hinactive : m.status ≠ .active := by
    rw [hremoved]
    decide
  have hrequire : require (m.status = .active) (ProtocolError.deviceNotActiveMember device) =
      .error (.deviceNotActiveMember device) := if_neg hinactive
  have hmembership : a.activeMembership device = .error (.deviceNotActiveMember device) := by
    unfold activeMembership
    rw [hlookup]
    change (require (m.status = .active) (ProtocolError.deviceNotActiveMember device) >>= fun _ => pure m) = _
    rw [hrequire]
    rfl
  unfold activeDeviceRecord
  rw [hmembership]
  rfl

omit [DecidableEq ι] in
/-- A removed device is not authenticated. -/
theorem authorized_removed {c : Crypto} {s : ServerState ι} (h : HasMembership (s.accessState ws) device none)
    (permission : WorkspacePermission) :
    Fallible.exec (ServerState.attempt c i) (authorized ws device permission) s =
      some (.error (.authProtocol (.deviceNotActiveMember device)), s) := by
  have hread : s.attempt c i (.getAccessState ws) = some (.ok (s.accessState ws), s) := rfl
  refine (exec_op_bind hread).trans (exec_check_bind.trans ?_)
  rw [activeDeviceRecord_removed h]
  rfl

/-- A key is delivered neither to a removed device nor by one. -/
theorem bootstrapKey_removed {a : AccessState} (h : HasMembership a device none) {identity : DeviceIdentity}
    {envelope : KeyEnvelope} {key : Key32} (hkey : bootstrapKey E ws a identity envelope = .ok key) :
    identity.deviceId ≠ device ∧ envelope.senderDeviceId ≠ device := by
  have hnone {record : DeviceRecord} : a.activeDeviceRecord device ≠ .ok record := by
    rw [activeDeviceRecord_removed h]
    rintro ⟨⟩
  simp only [bootstrapKey, Except.bind_ok, Except.mapError_ok] at hkey
  obtain ⟨_, _, _, _, recipient, hrecipient, sender, hsender, _⟩ := hkey
  constructor
  · intro hsame
    rw [hsame] at hrecipient
    exact hnone hrecipient
  · intro hsame
    rw [hsame] at hsender
    exact hnone hsender

/-- The device is removed where the command that removed it has ended. -/
theorem removed_of_outcome {change : MembershipChange} {s : Shared ι}
    (hinv : (enrolmentContract E.crypto.toCrypto ws a₀).inv s) (hwf : WellFormed E.crypto.toCrypto a₀)
    (h : MembershipOutcome w device none a₀ i change s) : HasMembership (s.1.accessState ws) device none := by
  obtain ⟨_, hchain, _⟩ := hinv
  have hlater (front rest : List Accepted) (a : AccessState) (hall : s.2.map Prod.snd = front ++ rest)
      (hfront : Chain E.crypto.toCrypto a₀ front a) (hremoved : HasMembership a device none) :
      HasMembership (s.1.accessState ws) device none := by
    rw [hall] at hchain
    obtain ⟨mid, hmid, hrest⟩ := hchain.split
    rw [Chain.unique hmid hfront] at hrest
    obtain ⟨m, hm, hstatus⟩ := hremoved
    exact (Chain.facts hrest (hfront.facts hwf).1).2.1.removed device m hm hstatus
  obtain ⟨done, st⟩ := change
  cases done with
  | true =>
    obtain ⟨_, ⟨front, ⟨rest, hall⟩, hfront⟩, hremoved, _⟩ := h
    exact hlater front rest st hall.symm hfront hremoved
  | false =>
    obtain ⟨⟨front, event, rest, a, hlog, _, hfront, hchanged⟩, _⟩ := h
    have hall : s.2.map Prod.snd = (front.map Prod.snd ++ [(event, st)]) ++ rest.map Prod.snd := by
      rw [hlog]
      simp
    have hnext : Chain E.crypto.toCrypto a₀ (front.map Prod.snd ++ [(event, st)]) st := by
      rw [hall] at hchain
      obtain ⟨mid, hmid, _⟩ := hchain.split
      obtain ⟨_, _, hstep⟩ := Legal.snoc_inv hmid
      rw [hstep.2] at hmid
      exact hmid
    exact hlater _ _ st hall hnext hchanged.after

/-- **A removed device stays out.** Once a `remove` has succeeded, whatever
runs from then on, no event that the device signed is accepted, the server
authenticates no request of it, and no key is delivered to it or by it. -/
theorem removed_stays_out (hc : E.crypto.Ideal) (hstarted : Started E.crypto.toCrypto ws s₀)
    (h : (commands E ι ws).Reachable (s₀, []) cfg) {response : CommandResponse}
    (hdone : cfg.thread i = some (.remove w device, .done (.ok response)))
    (hsteps : (commands E ι ws).Steps cfg cfg') :
    ∃ accepted, cfg'.shared.2 = cfg.shared.2 ++ accepted ∧ (∀ p ∈ accepted, p.2.1.actorDeviceId ≠ device) ∧
      HasMembership (cfg'.shared.1.accessState ws) device none ∧
      (∀ j permission, Fallible.exec (ServerState.attempt E.crypto.toCrypto j) (authorized ws device permission)
        cfg'.shared.1 = some (.error (.authProtocol (.deviceNotActiveMember device)), cfg'.shared.1)) ∧
      ∀ identity envelope key,
        bootstrapKey E ws (cfg'.shared.1.accessState ws) identity envelope = .ok key →
        identity.deviceId ≠ device ∧ envelope.senderDeviceId ≠ device := by
  have hwf := hstarted.wellFormed
  obtain ⟨hinv, _, hfinished⟩ := Contract.reachable hstarted.inv (fun _ => rfl) (commands_kept hc hwf) h
  have hremoved : HasMembership (cfg.shared.1.accessState ws) device none := by
    have houtcome := hfinished i _ _ hdone
    cases response with
    | changed change => exact removed_of_outcome hinv hwf houtcome
    | client _ => exact houtcome.elim
  obtain ⟨_, hfront, _⟩ := hinv
  obtain ⟨⟨accepted, hlog⟩, hchain⟩ := commands_later hc hstarted h hsteps
  -- what was accepted since is a chain from the state the device was removed in
  rw [← hlog, List.map_append] at hchain
  obtain ⟨mid, hmid, hrest⟩ := hchain.split
  rw [Chain.unique hmid hfront] at hrest
  have hnow := (hfront.facts hwf).1
  have hstays {st : AccessState} (hext : Extends (cfg.shared.1.accessState ws) st) : HasMembership st device none := by
    obtain ⟨m, hm, hstatus⟩ := hremoved
    exact hext.removed device m hm hstatus
  have hlater := hstays (Chain.facts hrest hnow).2.1
  refine ⟨accepted, hlog.symm, fun p hp => ?_, hlater, fun j permission => authorized_removed hlater permission,
    fun identity envelope key hkey => bootstrapKey_removed hlater hkey⟩
  obtain ⟨s, _, hext, hstaged⟩ := Chain.mem_from hrest hnow (List.mem_map.mpr ⟨p, hp, rfl⟩)
  exact actor_ne_of_removed hstaged (hstays hext)

end Interleavings

/-! ### The second owner removed -/

section Sample

open Codec (sampleWorkspace)

/-- The event by which the first owner removes the second. -/
def secondRemoved : SignedAccessEvent :=
  unsignedEvent ⟨"event_device_first_2", by decide⟩ 2 firstOwner (.deviceRemoved secondOwner.deviceId)

/-- Ed25519, of that event as well. -/
def memberSignature (key message : Bytes) : Bytes :=
  if (key, message) = (firstOwner.signingPublicKey.val, deviceSignaturePayload secondRemoved.signingPayload) then
    [100, 190, 114, 51, 239, 188, 64, 9, 255, 121, 240, 11, 147, 250, 153, 110, 226, 20, 209, 186,
    12, 185, 180, 223, 108, 48, 132, 45, 0, 40, 66, 193, 210, 226, 107, 179, 150, 193, 198, 198,
    33, 19, 19, 245, 140, 213, 70, 113, 176, 174, 139, 142, 146, 73, 111, 28, 59, 233, 151, 112,
    243, 241, 71, 13]
  else signatureOf key message

def membersCrypto : EnvelopeCrypto :=
  { ownersCrypto with
    ed25519Verify := fun key message signature => signature = memberSignature key message
    sign := fun secret message => memberSignature (ownersCrypto.signingPublic secret).val message }

theorem membersCrypto_ideal : membersCrypto.Ideal :=
  { ownersCrypto_ideal with
    sign_length := fun secret message => by
      change (memberSignature _ message).length = 64
      unfold memberSignature
      split
      · rfl
      · exact signatureOf_length _ _
    verify_sign := fun _ _ => decide_eq_true rfl }

def membersEnv : ClientEnv := { ownersEnv with crypto := membersCrypto }

/-- The first owner created the workspace and let the second join as an owner. -/
def membersState : AccessState :=
  history membersCrypto.toCrypto (.empty sampleWorkspace)
    [signedBy firstOwner firstCreates, signedBy firstOwner secondJoins]

def membersServer : ServerState (Fin 3) :=
  { ownersServer with accessStates := Function.update (fun _ => none) sampleWorkspace (some membersState) }

theorem membersServer_accessState : membersServer.accessState sampleWorkspace = membersState := by
  simp [ServerState.accessState, membersServer]

theorem membersServer_started : Started membersEnv.crypto.toCrypto sampleWorkspace membersServer where
  locks := ⟨rfl, rfl⟩
  wellFormed := by
    rw [membersServer_accessState]
    exact (WellFormed.history _ (wellFormed_empty sampleWorkspace)).1
  envelopes _ _ h := nomatch h

theorem firstGeneration_ne_zero : (1 : UInt64) ≠ 0 := by decide

def firstMember : LocalWorkspace membersEnv.crypto sampleWorkspace where
  identity := firstOwner
  defaultKeyId := systemKeyId
  generation := 1
  visibility := .shared
  key := bytes32 9
  identity_valid := by decide +kernel
  default_system := rfl
  shared := rfl
  generation_ne_zero := firstGeneration_ne_zero

abbrev ownersCommands := commands membersEnv (Fin 3) sampleWorkspace

abbrev CommandsConfig := Config (Fin 3) (Signature.linearized (ServerState (Fin 3)) ClientOp.Val ClientError Accepted)
    (Shared (Fin 3))
  (CommandRequest membersEnv sampleWorkspace) (Except ClientError CommandResponse)

def removeSecond : CommandRequest membersEnv sampleWorkspace := .remove firstMember secondOwner.deviceId

/-- The first owner removes the second. -/
def removedRun (i : Fin 3) : Option CommandsConfig :=
  ownersCommands.serve (commitsBy (answer membersCrypto.toCrypto)) i removeSecond ⟨(membersServer, []), fun _ => none⟩

theorem removedRun_reachable {i : Fin 3} {cfg : CommandsConfig} (h : removedRun i = some cfg) :
    ownersCommands.Reachable (membersServer, []) cfg :=
  Machine.Reachable.serve (fun _ _ _ _ _ hrun => commits_of_answer hrun) .refl h

/-- The command has changed something. -/
def hasChanged (i : Fin 3) (cfg : CommandsConfig) : Bool :=
  match cfg.thread i with
  | some (_, .done (.ok (.changed change))) => !change.alreadyDone
  | _ => false

theorem removedRun_hasChanged : (removedRun 0).map (hasChanged 0) = some true := by decide +kernel

theorem removedRun_changes : ∃ cfg st, removedRun 0 = some cfg ∧
    cfg.thread 0 = some (removeSecond, .done (.ok (.changed ⟨false, st⟩))) := by
  obtain ⟨cfg, hcfg, hchanged⟩ := Option.map_eq_some_iff.mp removedRun_hasChanged
  obtain ⟨result, hdone⟩ := Machine.serve_done hcfg
  unfold hasChanged at hchanged
  rw [hdone] at hchanged
  rcases result with e | ⟨⟨_ | _, st⟩⟩ | response
  · cases hchanged
  · exact ⟨cfg, st, hcfg, hdone⟩
  · cases hchanged
  · cases hchanged

/-- The first owner's `remove` took effect once. -/
theorem second_removed_once : ∃ cfg st, removedRun 0 = some cfg ∧
    ChangedOnce firstMember secondOwner.deviceId none membersState 0 st cfg.shared ∧
    saveAccessState membersEnv st = .ok () := by
  obtain ⟨cfg, st, hcfg, hdone⟩ := removedRun_changes
  obtain ⟨_, hexact⟩ := membership_exact membersCrypto_ideal membersServer_started (removedRun_reachable hcfg)
    (q := removeSecond) rfl hdone
  rw [membersServer_accessState] at hexact
  rcases hexact with ⟨_, _, hdone, _⟩ | ⟨st', hdone, hchanged, hsaved⟩ | ⟨_, hdone, _⟩
  · cases hdone
  · cases hdone
    exact ⟨cfg, st, hcfg, hchanged, hsaved⟩
  · cases hdone

/-- From then on the second owner is out. -/
theorem second_stays_out : ∃ cfg, removedRun 0 = some cfg ∧ ∀ cfg', ownersCommands.Steps cfg cfg' →
    ∃ accepted, cfg'.shared.2 = cfg.shared.2 ++ accepted ∧
      (∀ p ∈ accepted, p.2.1.actorDeviceId ≠ secondOwner.deviceId) ∧
      HasMembership (cfg'.shared.1.accessState sampleWorkspace) secondOwner.deviceId none := by
  obtain ⟨cfg, st, hcfg, hdone⟩ := removedRun_changes
  refine ⟨cfg, hcfg, fun cfg' hsteps => ?_⟩
  obtain ⟨accepted, hlog, hactors, hremoved, _⟩ := removed_stays_out membersCrypto_ideal membersServer_started
    (removedRun_reachable hcfg) (w := firstMember) hdone hsteps
  exact ⟨accepted, hlog, hactors, hremoved⟩

end Sample

end RustSync
