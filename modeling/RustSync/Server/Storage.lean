/-
The server's shared state

What the access handlers of the server share: the stored access states, join
requests and key envelopes of each workspace, the replay cache, and two locks.
Handlers are programs over the calls below; a call is atomic, and a store may
fail without effect (`Serves`). Without faults a call does what `perform`
says.

The log is a ghost: it lists the join requests that were stored and the events
that were saved, in that order, and no handler reads it. For the same purpose
`saveAccessState` carries the event that led to the state.

Key definitions: `ServerState`, `ServerOp`, `perform`, `Serves`.
-/
import RustSync.Access.Codec
import RustSync.Lib.Interleaving
import RustSync.Server.Replay

namespace RustSync

inductive LogEntry where
  | submitted (workspaceId : WorkspaceId) (request : DeviceJoinRequest)
  | accepted (workspaceId : WorkspaceId) (event : SignedAccessEvent) (state : AccessState)

/-- The state handlers share; `ι` are the handler invocations. -/
structure ServerState (ι : Type) where
  accessStates : WorkspaceId → Option AccessState
  joinRequests : WorkspaceId → BTreeMap JoinRequestId DeviceJoinRequest
  keyEnvelopes : WorkspaceId → KeyId → DeviceId → Option Bytes
  replayCache : Replay.ReplayCache
  clock : UnixTimestamp
  accessEventLock : Option ι
  joinRequestLock : Option ι
  log : List LogEntry

inductive PutResult where
  | created
  | alreadyExists
  | conflict
deriving DecidableEq, Repr

inductive JoinRequestPutResult where
  | submitted
  | alreadyPending
  | conflict
deriving DecidableEq, Repr

inductive ServerOp where
  | now
  | checkAndRecord (workspaceId : WorkspaceId) (deviceId : DeviceId) (nonce : RequestNonce)
      (timestamp : UnixTimestamp)
  | getAccessState (workspaceId : WorkspaceId)
  | saveAccessState (workspaceId : WorkspaceId) (state : AccessState) (cause : SignedAccessEvent)
  | getJoinRequest (workspaceId : WorkspaceId) (requestId : JoinRequestId)
  | listJoinRequests (workspaceId : WorkspaceId)
  | submitJoinRequest (workspaceId : WorkspaceId) (request : DeviceJoinRequest)
  | removeJoinRequest (workspaceId : WorkspaceId) (requestId : JoinRequestId)
  | getKeyEnvelope (workspaceId : WorkspaceId) (keyId : KeyId) (recipient : DeviceId)
  | putKeyEnvelope (workspaceId : WorkspaceId) (keyId : KeyId) (recipient : DeviceId) (bytes : Bytes)
  | lockAccessEvents
  | unlockAccessEvents
  | lockJoinRequests
  | unlockJoinRequests

/-- What a call returns when it succeeds. -/
def ServerOp.Val : ServerOp → Type
  | .now => UnixTimestamp
  | .getAccessState _ => AccessState
  | .getJoinRequest .. => Option DeviceJoinRequest
  | .listJoinRequests _ => List DeviceJoinRequest
  | .submitJoinRequest .. => JoinRequestPutResult
  | .getKeyEnvelope .. => Option Bytes
  | .putKeyEnvelope .. => PutResult
  | .checkAndRecord .. | .saveAccessState .. | .removeJoinRequest .. => Unit
  | .lockAccessEvents | .unlockAccessEvents | .lockJoinRequests | .unlockJoinRequests => Unit

/-- A handler of the server. -/
abbrev Handler := Fallible ServerOp.Val ServerError

def call (o : ServerOp) : Handler o.Val := Fallible.op o

/-- The server's error for a state it does not store. -/
def Codec.StoreError.toServer : Codec.StoreError → ServerError
  | .workspaceMismatch expected actual => .accessStateWorkspaceMismatch expected actual
  | .invalid error => .invalidAccessState error
  | .encode _ => .invalidStoredAccessStateJson "the state has no JSON form"
  | .decode _ => .invalidStoredAccessStateJson "the JSON is not an access state"

namespace ServerState

variable {ι : Type} (c : Crypto)

/-- A workspace nothing is stored of is empty. -/
def accessState (s : ServerState ι) (workspaceId : WorkspaceId) : AccessState :=
  (s.accessStates workspaceId).getD (.empty workspaceId)

/-- A state is stored when it is valid and has a JSON form. -/
def saveAccessState (s : ServerState ι) (workspaceId : WorkspaceId) (state : AccessState)
    (cause : SignedAccessEvent) : ServerResult Unit × ServerState ι :=
  match Codec.saveJson c workspaceId state with
  | .error e => (.error e.toServer, s)
  | .ok _ => (.ok (), { s with
      accessStates := Function.update s.accessStates workspaceId (some state)
      log := s.log ++ [.accepted workspaceId cause state] })

def submitJoinRequest (s : ServerState ι) (workspaceId : WorkspaceId) (request : DeviceJoinRequest) :
    ServerResult JoinRequestPutResult × ServerState ι :=
  if request.workspaceId ≠ workspaceId then
    (.error (.accessStateWorkspaceMismatch workspaceId request.workspaceId), s)
  else
    match (s.joinRequests workspaceId)[request.requestId]? with
    | none => (.ok .submitted, { s with
        joinRequests := Function.update s.joinRequests workspaceId
          ((s.joinRequests workspaceId).insert request.requestId request)
        log := s.log ++ [.submitted workspaceId request] })
    | some existing => (.ok (if existing = request then .alreadyPending else .conflict), s)

def putKeyEnvelope (s : ServerState ι) (workspaceId : WorkspaceId) (keyId : KeyId)
    (recipient : DeviceId) (bytes : Bytes) : ServerResult PutResult × ServerState ι :=
  match s.keyEnvelopes workspaceId keyId recipient with
  | none => (.ok .created, { s with
      keyEnvelopes := fun w k d =>
        if w = workspaceId ∧ k = keyId ∧ d = recipient then some bytes else s.keyEnvelopes w k d })
  | some existing => (.ok (if existing = bytes then .alreadyExists else .conflict), s)

def checkAndRecord (s : ServerState ι) (workspaceId : WorkspaceId) (deviceId : DeviceId)
    (nonce : RequestNonce) (timestamp : UnixTimestamp) : ServerResult Unit × ServerState ι :=
  let (result, cache) := Replay.checkAndRecord s.replayCache workspaceId deviceId nonce timestamp
    Replay.maxTimestampSkewSeconds
  (result, { s with replayCache := cache })

/-- What a call of `i` does when no store fails. -/
def perform (i : ι) : (o : ServerOp) → ServerState ι → ServerResult o.Val × ServerState ι
  | .now, s => (.ok s.clock, s)
  | .checkAndRecord workspaceId deviceId nonce timestamp, s =>
    s.checkAndRecord workspaceId deviceId nonce timestamp
  | .getAccessState workspaceId, s => (.ok (s.accessState workspaceId), s)
  | .saveAccessState workspaceId state cause, s => s.saveAccessState c workspaceId state cause
  | .getJoinRequest workspaceId requestId, s => (.ok (s.joinRequests workspaceId)[requestId]?, s)
  | .listJoinRequests workspaceId, s => (.ok ((s.joinRequests workspaceId).toList.map Prod.snd), s)
  | .submitJoinRequest workspaceId request, s => s.submitJoinRequest workspaceId request
  | .removeJoinRequest workspaceId requestId, s => (.ok (), { s with
      joinRequests := Function.update s.joinRequests workspaceId
        ((s.joinRequests workspaceId).erase requestId) })
  | .getKeyEnvelope workspaceId keyId recipient, s =>
    (.ok (s.keyEnvelopes workspaceId keyId recipient), s)
  | .putKeyEnvelope workspaceId keyId recipient bytes, s =>
    s.putKeyEnvelope workspaceId keyId recipient bytes
  | .lockAccessEvents, s => (.ok (), { s with accessEventLock := some i })
  | .unlockAccessEvents, s => (.ok (), { s with accessEventLock := none })
  | .lockJoinRequests, s => (.ok (), { s with joinRequestLock := some i })
  | .unlockJoinRequests, s => (.ok (), { s with joinRequestLock := none })

/-- A lock can be taken when it is free. -/
def Enabled (s : ServerState ι) : ServerOp → Prop
  | .lockAccessEvents => s.accessEventLock = none
  | .lockJoinRequests => s.joinRequestLock = none
  | _ => True

/-- The calls that go to a store. -/
def Stores : ServerOp → Prop
  | .getAccessState _ | .saveAccessState .. | .getJoinRequest .. | .listJoinRequests _ => True
  | .submitJoinRequest .. | .removeJoinRequest .. | .getKeyEnvelope .. | .putKeyEnvelope .. => True
  | _ => False

/-- What a call of `i` may do: what `perform` says, or fail without effect
where it goes to a store; the clock may show anything, and requests may be
listed in any order. -/
def Serves (i : ι) (o : ServerOp) (s : ServerState ι) (r : ServerResult o.Val) (s' : ServerState ι) :
    Prop :=
  s.Enabled o ∧
    ((r, s') = s.perform c i o ∨ (Stores o ∧ (∃ e, r = .error e) ∧ s' = s) ∨
      match o, r with
      | .now, r => (∃ t : UnixTimestamp, r = .ok t) ∧ s' = s
      | .listJoinRequests workspaceId, r =>
        (∃ l : List DeviceJoinRequest, r = .ok l ∧
          l.Perm ((s.joinRequests workspaceId).toList.map Prod.snd)) ∧ s' = s
      | _, _ => False)

/-- A call without faults, when it can be made. -/
def attempt (i : ι) (o : ServerOp) (s : ServerState ι) : Option (ServerResult o.Val × ServerState ι) :=
  match o with
  | .lockAccessEvents => if s.accessEventLock.isNone then some (s.perform c i .lockAccessEvents) else none
  | .lockJoinRequests => if s.joinRequestLock.isNone then some (s.perform c i .lockJoinRequests) else none
  | o => some (s.perform c i o)

theorem serves_of_attempt {i : ι} {o : ServerOp} {s s' : ServerState ι} {r : ServerResult o.Val}
    (h : s.attempt c i o = some (r, s')) : s.Serves c i o r s' := by
  unfold attempt at h
  split at h
  · split at h
    · rename_i hfree
      exact ⟨Option.isNone_iff_eq_none.mp hfree, .inl (Option.some.inj h).symm⟩
    · cases h
  · split at h
    · rename_i hfree
      exact ⟨Option.isNone_iff_eq_none.mp hfree, .inl (Option.some.inj h).symm⟩
    · cases h
  · rename_i hfirst hsecond
    refine ⟨?_, .inl (Option.some.inj h).symm⟩
    cases o with
    | lockAccessEvents => exact (hfirst rfl).elim
    | lockJoinRequests => exact (hsecond rfl).elim
    | _ => trivial

end ServerState

end RustSync
