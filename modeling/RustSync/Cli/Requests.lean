/-
Requests handled as a whole

What the server has done when a request was answered and no store failed: it
accepted the event of the request (`Lands`), or left access states and
envelopes as they were (`Settled`), or stored an envelope. The locks are free
before and after.

Key definitions: `LocksFree`, `Settled`, `Lands`.
-/
import RustSync.Access.History
import RustSync.Cli.Device

namespace RustSync

open Fallible AccessState

variable {ι : Type} {c : Crypto} {i : ι} {ws : WorkspaceId}

def LocksFree (s : ServerState ι) : Prop := s.accessEventLock = none ∧ s.joinRequestLock = none

/-- Access states and envelopes are as they were. -/
structure Settled (s s' : ServerState ι) : Prop where
  states : s'.accessStates = s.accessStates
  envelopes : s'.keyEnvelopes = s.keyEnvelopes
  locks : LocksFree s'

/-- An event was accepted, and led to `st`. -/
structure Lands (c : Crypto) (ws : WorkspaceId) (event : SignedAccessEvent) (st : AccessState)
    (s s' : ServerState ι) : Prop where
  applied : (applyVerifiedEvent c event).exec (s.accessState ws) = (.ok (), st)
  state : s'.accessState ws = st
  envelopes : s'.keyEnvelopes = s.keyEnvelopes
  locks : LocksFree s'

theorem Settled.refl {s : ServerState ι} (h : LocksFree s) : Settled s s := ⟨rfl, rfl, h⟩

theorem Settled.accessState {s s' : ServerState ι} (h : Settled s s') :
    s'.accessState ws = s.accessState ws := by
  rw [ServerState.accessState, ServerState.accessState, h.states]

/-- Whatever the program returns, nothing changed. -/
abbrev Leaves {α : Type} (c : Crypto) (i : ι) (x : Handler α) (s : ServerState ι)
    (Q : α → Prop) : Prop :=
  Meets (ServerState.attempt c i) x s fun r s' => s' = s ∧ ∀ a, r = .ok a → Q a

theorem authorized_leaves {device : DeviceId} {permission : WorkspacePermission} (s : ServerState ι) :
    Leaves c i (authorized ws device permission) s fun auth => auth.deviceId = device := by
  unfold authorized
  refine Meets.op_bind (o := ServerOp.getAccessState ws) rfl ?_
  refine Meets.check_bind (fun _ _ => ⟨rfl, nofun⟩) fun _ _ => ?_
  refine Meets.check_bind (fun _ _ => ⟨rfl, nofun⟩) fun _ _ => ?_
  exact Meets.pure ⟨rfl, fun a ha => by cases ha; rfl⟩

/-- An active device that may make a request is authorised. -/
theorem authorized_ok {device : DeviceId} {permission : WorkspacePermission} {record : DeviceRecord}
    {s : ServerState ι} (hrecord : (s.accessState ws).activeDeviceRecord device = .ok record)
    (hpermission : (s.accessState ws).requirePermission device permission = .ok ()) :
    Meets (ServerState.attempt c i) (authorized ws device permission) s fun r s' =>
      r = .ok ⟨ws, device, permission⟩ ∧ s' = s := by
  unfold authorized
  refine Meets.op_bind (o := ServerOp.getAccessState ws) rfl ?_
  rw [hrecord, hpermission]
  exact Meets.check_bind (fun _ he => nomatch he) fun _ _ =>
    Meets.check_bind (fun _ he => nomatch he) fun _ _ => Meets.pure ⟨rfl, rfl⟩

/-! ### Events -/

/-- Either an event was accepted, or the request failed and left everything. -/
def AppliesOrFails (c : Crypto) (ws : WorkspaceId) (event : SignedAccessEvent) (s : ServerState ι)
    (r : ServerResult AccessState) (s' : ServerState ι) : Prop :=
  match r with
  | .ok st => Lands c ws event st s s'
  | .error _ => Settled s s'

theorem saveAccessState_meets {event : SignedAccessEvent} {st : AccessState} {s : ServerState ι} :
    Meets (ServerState.attempt c i) (call (.saveAccessState ws st event)) s fun r s' =>
      (∃ e, r = .error e ∧ s' = s) ∨ ∃ d, Codec.saveJson c ws st = .ok d ∧ r = .ok () ∧ s' = { s with
        accessStates := Function.update s.accessStates ws (some st)
        log := s.log ++ [.accepted ws event st] } := by
  have hattempt : s.attempt c i (.saveAccessState ws st event) = some (s.saveAccessState c ws st event) := rfl
  cases hsave : Codec.saveJson c ws st with
  | error e =>
    rw [ServerState.saveAccessState, hsave] at hattempt
    exact Meets.op hattempt (.inl ⟨_, rfl, rfl⟩)
  | ok d =>
    rw [ServerState.saveAccessState, hsave] at hattempt
    exact Meets.op hattempt (.inr ⟨d, rfl, rfl, rfl⟩)

/-- Under the lock. -/
theorem applyLocked_meets {event : SignedAccessEvent} (s : ServerState ι) :
    Meets (ServerState.attempt c i) (applyLocked c ws event) s fun r s' =>
      (∃ e, r = .error e ∧ s' = s) ∨
        ∃ st, r = .ok st ∧ (applyVerifiedEvent c event).exec (s.accessState ws) = (.ok (), st) ∧
          s' = { s with
            accessStates := Function.update s.accessStates ws (some st)
            log := s.log ++ [.accepted ws event st] } := by
  unfold applyLocked
  refine Meets.check_bind (fun e _ => .inl ⟨e, rfl, rfl⟩) fun _ _ => ?_
  refine Meets.op_bind (o := ServerOp.getAccessState ws) rfl ?_
  refine Meets.check_bind (fun e _ => .inl ⟨e, rfl, rfl⟩) fun _ _ => ?_
  refine Meets.check_bind (fun e _ => .inl ⟨e, rfl, rfl⟩) fun _ _ => ?_
  refine Meets.check_bind (fun e _ => .inl ⟨e, rfl, rfl⟩) fun _ happlied => ?_
  have happlied := Except.mapError_ok.mp happlied
  refine Meets.bind saveAccessState_meets ?_ ?_
  · rintro e s' (⟨_, _, rfl⟩ | ⟨_, _, hok, _⟩)
    · exact .inl ⟨e, rfl, rfl⟩
    · cases hok
  · rintro _ s' (⟨_, herr, _⟩ | ⟨_, _, _, rfl⟩)
    · cases herr
    · exact Meets.pure (.inr ⟨_, rfl, Prod.ext happlied rfl, rfl⟩)

theorem verifyAndApplyAccessEvent_meets {event : SignedAccessEvent} {s : ServerState ι} (hs : LocksFree s) :
    Meets (ServerState.attempt c i) (verifyAndApplyAccessEvent c ws event) s
      (AppliesOrFails c ws event s) := by
  unfold verifyAndApplyAccessEvent
  have hlock : s.attempt c i .lockAccessEvents = some (.ok (), { s with accessEventLock := some i }) := by
    unfold ServerState.attempt
    rw [hs.1]
    rfl
  refine Meets.withLock hlock (applyLocked_meets _) ?_
  intro out u r v hout hunlock
  have hv : v = { u with accessEventLock := none } := by
    cases hunlock
    rfl
  subst hv
  rcases hout with ⟨e, rfl, rfl⟩ | ⟨st, rfl, happlied, rfl⟩
  · exact ⟨rfl, rfl, rfl, hs.2⟩
  · refine ⟨happlied, ?_, rfl, rfl, hs.2⟩
    simp [ServerState.accessState]

theorem applyJoinEvent_meets {joinRequestId : JoinRequestId} {event : SignedAccessEvent}
    {s : ServerState ι} (hs : LocksFree s) :
    Meets (ServerState.attempt c i) (applyJoinEvent c ws joinRequestId event) s
      (AppliesOrFails c ws event s) := by
  have hfail (e : ServerError) : AppliesOrFails c ws event s (.error e) s := Settled.refl hs
  unfold applyJoinEvent
  refine Meets.op_bind (o := ServerOp.getJoinRequest ws joinRequestId) rfl ?_
  refine Meets.check_bind (fun e _ => hfail e) fun _ _ => ?_
  refine Meets.check_bind (fun e _ => hfail e) fun _ _ => ?_
  refine Meets.check_bind (fun e _ => hfail e) fun _ _ => ?_
  refine Meets.bind (verifyAndApplyAccessEvent_meets hs) (fun e s' h => h) fun st s' h => ?_
  refine Meets.op_bind (o := ServerOp.removeJoinRequest ws joinRequestId) rfl ?_
  exact Meets.pure (show Lands c ws event st s _ from ⟨h.applied, h.state, h.envelopes, h.locks⟩)

theorem approveJoinRequest_meets {device : DeviceId} {joinRequestId : JoinRequestId}
    {event : SignedAccessEvent} {s : ServerState ι} (hs : LocksFree s) :
    Meets (ServerState.attempt c i) ((HttpCall.approveJoinRequest device joinRequestId event).handle c ws) s
      (AppliesOrFails c ws event s) := by
  have hfail (e : ServerError) : AppliesOrFails c ws event s (.error e) s := Settled.refl hs
  unfold HttpCall.handle approveJoinRequestAs
  refine Meets.check_bind (fun e _ => hfail e) fun _ _ => ?_
  refine Meets.bind (authorized_leaves s) (fun e s' h => h.1 ▸ hfail e) fun auth s' h => ?_
  rw [h.1]
  exact Meets.check_bind (fun e _ => hfail e) fun _ _ => applyJoinEvent_meets hs

theorem applyAccessEvent_meets {device : DeviceId} {event : SignedAccessEvent} {s : ServerState ι}
    (hs : LocksFree s) :
    Meets (ServerState.attempt c i) ((HttpCall.applyAccessEvent device event).handle c ws) s
      (AppliesOrFails c ws event s) := by
  have hfail (e : ServerError) : AppliesOrFails c ws event s (.error e) s := Settled.refl hs
  unfold HttpCall.handle applyAccessEventAs
  refine Meets.check_bind (fun e _ => hfail e) fun _ _ => ?_
  refine Meets.bind (authorized_leaves s) (fun e s' h => h.1 ▸ hfail e) fun auth s' h => ?_
  rw [h.1]
  refine Meets.check_bind (fun e _ => hfail e) fun _ _ => ?_
  split
  · exact applyJoinEvent_meets hs
  · exact verifyAndApplyAccessEvent_meets hs

/-! ### Reading, and asking to join -/

theorem listJoinRequests_meets {device : DeviceId} (s : ServerState ι) :
    Leaves c i ((HttpCall.listJoinRequests device).handle c ws) s fun _ => True := by
  unfold HttpCall.handle listJoinRequestsAs
  refine Meets.bind (authorized_leaves s) (fun e s' h => ⟨h.1, nofun⟩) fun auth s' h => ?_
  rw [h.1]
  exact Meets.op (o := ServerOp.listJoinRequests ws) rfl ⟨rfl, fun _ _ => trivial⟩

theorem fetchAccessState_meets {device : DeviceId} (s : ServerState ι) :
    Leaves c i ((HttpCall.fetchAccessState device).handle c ws) s
      fun a : AccessState => a = s.accessState ws := by
  unfold HttpCall.handle fetchAccessStateAs
  refine Meets.bind (authorized_leaves s) (fun e s' h => ⟨h.1, nofun⟩) fun auth s' h => ?_
  rw [h.1]
  refine Meets.op (o := ServerOp.getAccessState ws) rfl ⟨rfl, fun a ha => ?_⟩
  cases ha
  rfl

/-- What asking to join leaves as it was. -/
structure Aside (s s' : ServerState ι) : Prop where
  states : s'.accessStates = s.accessStates
  envelopes : s'.keyEnvelopes = s.keyEnvelopes
  lock : s'.accessEventLock = s.accessEventLock

theorem submitJoinRequest_call_meets {request : DeviceJoinRequest} (s : ServerState ι) :
    Meets (ServerState.attempt c i) (call (.submitJoinRequest ws request)) s fun _ s' => Aside s s' := by
  refine Meets.op (o := ServerOp.submitJoinRequest ws request)
    (a := (s.submitJoinRequest ws request).1) (t := (s.submitJoinRequest ws request).2) rfl ?_
  unfold ServerState.submitJoinRequest
  split
  · exact ⟨rfl, rfl, rfl⟩
  · split <;> exact ⟨rfl, rfl, rfl⟩

theorem submitLocked_meets {request : DeviceJoinRequest} (s : ServerState ι) :
    Meets (ServerState.attempt c i) (submitLocked ws request) s fun _ s' => Aside s s' := by
  have hsame : Aside s s := ⟨rfl, rfl, rfl⟩
  have hsubmit : Meets (ServerState.attempt c i) (do
      let result : JoinRequestPutResult ← call (.submitJoinRequest ws request)
      check (submissionResponse request.requestId result)) s fun _ s' => Aside s s' :=
    Meets.bind (submitJoinRequest_call_meets s) (fun _ _ h => h) fun _ _ h => Meets.check h
  unfold submitLocked
  refine Meets.op_bind (o := ServerOp.getAccessState ws) rfl ?_
  refine Meets.check_bind (fun _ _ => hsame) fun _ _ => ?_
  refine Meets.check_bind (fun _ _ => hsame) fun _ _ => ?_
  refine Meets.op_bind (o := ServerOp.getJoinRequest ws request.requestId) rfl ?_
  split
  · exact hsubmit
  · refine Meets.op_bind (o := ServerOp.listJoinRequests ws) rfl ?_
    split
    · exact Meets.pure hsame
    · exact Meets.check_bind (fun _ _ => hsame) fun _ _ => hsubmit

theorem submitJoinRequest_meets {request : DeviceJoinRequest} {s : ServerState ι} (hs : LocksFree s) :
    Meets (ServerState.attempt c i) ((HttpCall.submitJoinRequest request).handle c ws) s
      fun _ s' => Settled s s' := by
  unfold HttpCall.handle
  refine Meets.check_bind (fun e _ => Settled.refl hs) fun _ _ => ?_
  have hlock : s.attempt c i .lockJoinRequests = some (.ok (), { s with joinRequestLock := some i }) := by
    unfold ServerState.attempt
    rw [hs.2]
    rfl
  refine Meets.withLock hlock (submitLocked_meets _) ?_
  intro out u r v hout hunlock
  cases hunlock
  exact ⟨hout.states, hout.envelopes, hout.lock.trans hs.1, rfl⟩

/-! ### Uploading an envelope -/

section Put

variable {s : ServerState ι} {keyId : KeyId} {recipient : DeviceId} {body : Bytes}

theorem attempt_putKeyEnvelope_none (h : s.keyEnvelopes ws keyId recipient = none) :
    s.attempt c i (.putKeyEnvelope ws keyId recipient body) =
      some (.ok PutResult.created, (s.putKeyEnvelope ws keyId recipient body).2) := by
  have hattempt : s.attempt c i (.putKeyEnvelope ws keyId recipient body) =
      some (s.putKeyEnvelope ws keyId recipient body) := rfl
  rw [hattempt, ServerState.putKeyEnvelope, h]
  rfl

theorem attempt_putKeyEnvelope_same (h : s.keyEnvelopes ws keyId recipient = some body) :
    s.attempt c i (.putKeyEnvelope ws keyId recipient body) = some (.ok PutResult.alreadyExists, s) := by
  have hattempt : s.attempt c i (.putKeyEnvelope ws keyId recipient body) =
      some (s.putKeyEnvelope ws keyId recipient body) := rfl
  have hput : s.putKeyEnvelope ws keyId recipient body = (.ok .alreadyExists, s) := by
    simp [ServerState.putKeyEnvelope, h]
  rw [hattempt, hput]
  rfl

theorem attempt_putKeyEnvelope_other {existing : Bytes}
    (h : s.keyEnvelopes ws keyId recipient = some existing) (hne : existing ≠ body) :
    s.attempt c i (.putKeyEnvelope ws keyId recipient body) = some (.ok PutResult.conflict, s) := by
  have hattempt : s.attempt c i (.putKeyEnvelope ws keyId recipient body) =
      some (s.putKeyEnvelope ws keyId recipient body) := rfl
  have hput : s.putKeyEnvelope ws keyId recipient body = (.ok .conflict, s) := by
    simp [ServerState.putKeyEnvelope, h, hne]
  rw [hattempt, hput]
  rfl

end Put

/-- An upload stores the body where nothing was stored, or changes nothing. -/
theorem uploadKeyEnvelope_meets {device : DeviceId} {envelope : KeyEnvelope} {body : Bytes}
    (s : ServerState ι) :
    Meets (ServerState.attempt c i) ((HttpCall.uploadKeyEnvelope device envelope body).handle c ws) s
      fun r s' => (s' = s ∧
          ∀ a, r = .ok a → s.keyEnvelopes envelope.workspaceId envelope.keyId envelope.recipientDeviceId =
            some body) ∨
        (s.keyEnvelopes envelope.workspaceId envelope.keyId envelope.recipientDeviceId = none ∧
          r = .ok .created ∧ s' = (s.putKeyEnvelope envelope.workspaceId envelope.keyId
            envelope.recipientDeviceId body).2) := by
  unfold HttpCall.handle putKeyEnvelopeAs
  refine Meets.bind (authorized_leaves s) (fun e s' h => .inl ⟨h.1, nofun⟩) fun auth s' h => ?_
  rw [h.1]
  refine Meets.check_bind (fun _ _ => .inl ⟨rfl, nofun⟩) fun _ _ => ?_
  refine Meets.check_bind (fun _ _ => .inl ⟨rfl, nofun⟩) fun _ _ => ?_
  refine Meets.op_bind (o := ServerOp.getAccessState envelope.workspaceId) rfl ?_
  refine Meets.check_bind (fun _ _ => .inl ⟨rfl, nofun⟩) fun _ _ => ?_
  refine Meets.check_bind (fun _ _ => .inl ⟨rfl, nofun⟩) fun _ _ => ?_
  refine Meets.check_bind (fun _ _ => .inl ⟨rfl, nofun⟩) fun _ _ => ?_
  refine Meets.check_bind (fun _ _ => .inl ⟨rfl, nofun⟩) fun _ _ => ?_
  cases hstored : s.keyEnvelopes envelope.workspaceId envelope.keyId envelope.recipientDeviceId with
  | none =>
    exact Meets.op_bind (attempt_putKeyEnvelope_none hstored) (Meets.pure (.inr ⟨rfl, rfl, rfl⟩))
  | some existing =>
    by_cases hsame : existing = body
    · subst hsame
      exact Meets.op_bind (attempt_putKeyEnvelope_same hstored) (Meets.pure (.inl ⟨rfl, fun _ _ => rfl⟩))
    · exact Meets.op_bind (attempt_putKeyEnvelope_other hstored hsame) (Meets.throw (.inl ⟨rfl, nofun⟩))

/-- An upload by an active owner, at the revision the envelope was sealed at,
of an envelope that verifies, to an active device that has none, succeeds. -/
theorem uploadKeyEnvelope_created {device : DeviceId} {envelope : KeyEnvelope} {body : Bytes}
    {s : ServerState ι} {sender recipient : DeviceRecord} (hdevice : device = envelope.senderDeviceId)
    (hsender : (s.accessState envelope.workspaceId).activeDeviceRecord device = .ok sender)
    (hpermission : (s.accessState envelope.workspaceId).requirePermission device .manageKeys = .ok ())
    (hrecipient : (s.accessState envelope.workspaceId).activeDeviceRecord envelope.recipientDeviceId =
      .ok recipient)
    (hsigned : envelope.verifySenderSignature c sender = .ok ())
    (hrevision : envelope.accessRevision = (s.accessState envelope.workspaceId).revision)
    (hstored : s.keyEnvelopes envelope.workspaceId envelope.keyId envelope.recipientDeviceId = none) :
    Meets (ServerState.attempt c i) ((HttpCall.uploadKeyEnvelope device envelope body).handle c ws) s
      fun r _ => r = .ok .created := by
  unfold HttpCall.handle putKeyEnvelopeAs
  refine Meets.bind (authorized_ok hsender hpermission) (fun e s' h => nomatch h.1) fun auth s' h => ?_
  obtain ⟨hauth, rfl⟩ := h
  cases hauth
  rw [hdevice] at hsender
  have hfields : envelope.workspaceId = envelope.workspaceId ∧ envelope.keyId = envelope.keyId ∧
      envelope.recipientDeviceId = envelope.recipientDeviceId := ⟨rfl, rfl, rfl⟩
  refine Meets.check_ok (b := ()) (require_ok.mpr hdevice) ?_
  refine Meets.check_ok (b := ()) (require_ok.mpr hfields) ?_
  refine Meets.op_bind (o := ServerOp.getAccessState envelope.workspaceId) rfl ?_
  refine Meets.check_ok (Except.mapError_ok.mpr hsender) ?_
  refine Meets.check_ok (Except.mapError_ok.mpr hrecipient) ?_
  refine Meets.check_ok (b := ()) (Except.mapError_ok.mpr hsigned) ?_
  refine Meets.check_ok (b := ()) (require_ok.mpr hrevision) ?_
  exact Meets.op_bind (attempt_putKeyEnvelope_none hstored) (Meets.pure rfl)

end RustSync
