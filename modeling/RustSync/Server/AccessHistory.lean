/-
The server's access history

Whatever handlers interleave, the states a workspace has had are one chain:
each is what one accepted event made of the one before (`Linear`), no saved
state overwrites another, and a handler that answers with a state has its
event in the chain. Every event was authorised where it was applied: signed
by its actor under the key recorded there, the actor being an active owner;
and a join event introduces the device of a join request that was submitted
earlier, signed by that device.

The argument is rely-guarantee. A handler that holds the access-event lock
relies on the others leaving the access states alone; what a handler learnt
of the join requests before it took the lock is a fact about the log, which
only grows.

Key definitions: `Authorised`, `Linear`, `accessContract`. Key theorem:
`access_history_linear`.
-/
import RustSync.Access.History
import RustSync.Server.Access

namespace RustSync

open Fallible AccessState

/-! ### Chains of events -/

/-- The device of a join event is that of a join request of the workspace,
submitted earlier and signed by the device. -/
def JoinAuthorised (c : Crypto) (ws : WorkspaceId) (log : List LogEntry) (e : SignedAccessEvent) : Prop :=
  ∀ id device role, e.event = .deviceJoined id device role →
    ∃ r, .submitted ws r ∈ log ∧ r.requestId = id ∧ r.device = device ∧ r.workspaceId = ws ∧
      r.verify c = .ok ()

/-- What holds of an accepted event, in the log and the state it was applied
to. -/
structure Authorised (c : Crypto) (ws : WorkspaceId) (log : List LogEntry) (s : AccessState)
    (e : SignedAccessEvent) : Prop where
  workspace : e.workspaceId = ws
  signed : ∃ d, s.deviceRecord e.actorDeviceId = some d ∧ d.deviceId = e.actorDeviceId ∧
    d.status = .active ∧ d.verifySignature c e.signingPayload e.signature = .ok ()
  owner : s.ActiveOwner e.actorDeviceId
  joined : JoinAuthorised c ws log e

/-- `s` is where the events the log accepted of `ws` lead from `s₀`, one after
the other, each authorised where it was applied. -/
inductive Linear (c : Crypto) (ws : WorkspaceId) (s₀ : AccessState) : List LogEntry → AccessState → Prop
  | start : Linear c ws s₀ [] s₀
  | submitted {log : List LogEntry} {s : AccessState} {w : WorkspaceId} {r : DeviceJoinRequest}
      (h : Linear c ws s₀ log s) : Linear c ws s₀ (log ++ [.submitted w r]) s
  | elsewhere {log : List LogEntry} {s t : AccessState} {w : WorkspaceId} {e : SignedAccessEvent}
      (h : Linear c ws s₀ log s) (hw : w ≠ ws) : Linear c ws s₀ (log ++ [.accepted w e t]) s
  | accepted {log : List LogEntry} {s s' : AccessState} {e : SignedAccessEvent}
      (h : Linear c ws s₀ log s) (happly : (applyVerifiedEvent c e).exec s = (.ok (), s'))
      (hauth : Authorised c ws log s e) : Linear c ws s₀ (log ++ [.accepted ws e s']) s'

/-- The events accepted of a workspace, with the state each led to. -/
def acceptedOf (ws : WorkspaceId) (log : List LogEntry) : List (SignedAccessEvent × AccessState) :=
  log.filterMap fun entry =>
    match entry with
    | .accepted w e s => if w = ws then some (e, s) else none
    | .submitted _ _ => none

/-- A chain is the fold of its events, and counts them. -/
theorem Linear.fold {c : Crypto} {ws : WorkspaceId} {s₀ s : AccessState} {log : List LogEntry}
    (h : Linear c ws s₀ log s) :
    s = history c s₀ ((acceptedOf ws log).map Prod.fst) ∧
      s.revision.toNat = s₀.revision.toNat + (acceptedOf ws log).length := by
  induction h with
  | start => exact ⟨rfl, rfl⟩
  | submitted _ ih => simpa [acceptedOf] using ih
  | elsewhere _ hw ih => simpa [acceptedOf, hw] using ih
  | @accepted log s s' e _ happly _ ih =>
    have hlast : acceptedOf ws (log ++ [.accepted ws e s']) = acceptedOf ws log ++ [(e, s')] := by
      simp [acceptedOf]
    have hnext : AccessState.attempt c s e = s' := by rw [AccessState.attempt, happly]
    have hrev : s'.revision.toNat = s.revision.toNat + 1 := by
      rcases applyVerifiedEvent_cases (s := s) c e with ⟨err, herr⟩ | ⟨t, ⟨_, _, _, n, mid, hn, _, rfl⟩, ht⟩
      · rw [herr] at happly
        cases happly
      · rw [happly, Prod.mk.injEq] at ht
        rw [ht.2]
        exact hn
    have hfold : history c s₀ ((acceptedOf ws log).map Prod.fst ++ [e]) =
        AccessState.attempt c (history c s₀ ((acceptedOf ws log).map Prod.fst)) e := by
      simp [history]
    rw [hlast, List.map_append, List.length_append]
    refine ⟨?_, ?_⟩
    · rw [List.map_singleton, hfold, ← ih.1, hnext]
    · rw [hrev, ih.2, List.length_singleton]
      omega

theorem JoinAuthorised.mono {c : Crypto} {ws : WorkspaceId} {log log' : List LogEntry}
    {e : SignedAccessEvent} (h : JoinAuthorised c ws log e) (hle : log <+: log') :
    JoinAuthorised c ws log' e := by
  intro id device role he
  obtain ⟨r, hr, hrest⟩ := h id device role he
  exact ⟨r, hle.subset hr, hrest⟩

/-! ### The contract -/

section Contract

variable {ι : Type} (c : Crypto) (init : WorkspaceId → AccessState)

/-- What is stored is accounted for by the log, and a handler that does not
hold the lock leaves the access states to the one that does. -/
def accessContract : Contract ι (ServerState ι) where
  inv s := (∀ ws, Linear c ws (init ws) s.log (s.accessState ws)) ∧
    (∀ (ws : WorkspaceId) (id : JoinRequestId) (r : DeviceJoinRequest),
      (s.joinRequests ws)[id]? = some r → .submitted ws r ∈ s.log) ∧
    ∀ ws r, .submitted ws r ∈ s.log → r.verifyForWorkspace c ws = .ok ()
  guar i s s' := s.log <+: s'.log ∧
    ∀ j, j ≠ i → s.accessEventLock = some j →
      s'.accessEventLock = some j ∧ s'.accessStates = s.accessStates
  idle _ _ := True

variable {c} {init} {i : ι} {s s' : ServerState ι}

/-- The calls that touch neither access states nor join requests nor the
access-event lock. -/
def Quiet : ServerOp → Prop
  | .saveAccessState .. | .submitJoinRequest .. | .removeJoinRequest .. => False
  | .lockAccessEvents | .unlockAccessEvents => False
  | _ => True

structure Untouched (s s' : ServerState ι) : Prop where
  states : s'.accessStates = s.accessStates
  requests : s'.joinRequests = s.joinRequests
  lock : s'.accessEventLock = s.accessEventLock
  log : s'.log = s.log

theorem untouched_of_quiet {o : ServerOp} {r : ServerResult o.Val} (ho : Quiet o)
    (h : s.Serves c i o r s') : Untouched s s' := by
  obtain ⟨_, hperform | ⟨_, _, rfl⟩ | hother⟩ := h
  · have hs' : s' = (s.perform c i o).2 := congrArg Prod.snd hperform
    subst hs'
    cases o with
    | putKeyEnvelope w k d b =>
      simp only [ServerState.perform, ServerState.putKeyEnvelope]
      split <;> exact ⟨rfl, rfl, rfl, rfl⟩
    | saveAccessState | submitJoinRequest | removeJoinRequest | lockAccessEvents
    | unlockAccessEvents => exact ho.elim
    | _ => exact ⟨rfl, rfl, rfl, rfl⟩
  · exact ⟨rfl, rfl, rfl, rfl⟩
  · split at hother
    · rw [hother.2]
      exact ⟨rfl, rfl, rfl, rfl⟩
    · rw [hother.2]
      exact ⟨rfl, rfl, rfl, rfl⟩
    · exact hother.elim

theorem Untouched.keeps (h : Untouched s s') (hinv : (accessContract c init).inv s) :
    (accessContract c init).inv s' ∧ (accessContract c init).guar i s s' := by
  obtain ⟨hs, hr, hl, hlog⟩ := h
  have hstate : ∀ ws, s'.accessState ws = s.accessState ws := fun ws => by
    rw [ServerState.accessState, ServerState.accessState, hs]
  refine ⟨⟨fun ws => ?_, fun ws id r => ?_, fun ws r => ?_⟩, ?_, fun j _ hj => ?_⟩
  · rw [hlog, hstate]
    exact hinv.1 ws
  · rw [hlog, hr]
    exact hinv.2.1 ws id r
  · rw [hlog]
    exact hinv.2.2 ws r
  · exact hlog ▸ List.prefix_rfl
  · exact ⟨hl.trans hj, hs⟩

/-! ### Assertions -/

/-- A fact about the log that entries to come do not falsify. -/
def Logged (P : List LogEntry → Prop) (s : ServerState ι) : Prop := P s.log

def Monotone (P : List LogEntry → Prop) : Prop := ∀ log log', log <+: log' → P log → P log'

def Locked (i : ι) (s : ServerState ι) : Prop := s.accessEventLock = some i

/-- The lock is held, and the state of the workspace is `a`. -/
def Holding (i : ι) (ws : WorkspaceId) (a : AccessState) (s : ServerState ι) : Prop :=
  Locked i s ∧ s.accessState ws = a

theorem stable_logged {P : List LogEntry → Prop} (hP : Monotone P) :
    (accessContract c init).Stable i (Logged P) :=
  fun _ _ _ _ _ _ hguar h => hP _ _ hguar.1 h

theorem stable_locked : (accessContract c init).Stable i (Locked i) :=
  fun _ hj _ _ _ _ hguar h => (hguar.2 i (Ne.symm hj) h).1

theorem stable_holding {ws : WorkspaceId} {a : AccessState} :
    (accessContract c init).Stable i (Holding i ws a) := by
  intro j hj s s' _ _ hguar h
  obtain ⟨hlock, hstates⟩ := hguar.2 i (Ne.symm hj) h.1
  refine ⟨hlock, ?_⟩
  rw [ServerState.accessState, hstates]
  exact h.2

/-- Assertions that only read what quiet calls leave alone. -/
def Kept (P : ServerState ι → Prop) : Prop := ∀ s s', Untouched s s' → P s → P s'

/-! ### Calls -/

/-- A proof outline of a handler. -/
abbrev Proved {α : Type} (c : Crypto) (init : WorkspaceId → AccessState) (i : ι)
    (err pre : ServerState ι → Prop) (x : Handler α) (post : α → ServerState ι → Prop) : Prop :=
  Outlined (accessContract c init) (ServerState.Serves c) i err pre x post

variable {α : Type} {err pre : ServerState ι → Prop} {post : α → ServerState ι → Prop}

theorem quiet {o : ServerOp} (ho : Quiet o) (hkept : Kept pre)
    (hstable : (accessContract c init).Stable i pre) (herr : ∀ s, pre s → err s)
    (herr' : (accessContract c init).Stable i err) :
    Proved c init i err pre (call o) fun _ => pre := by
  refine Outlined.op hstable (fun s r s' hinv hp hserves => ?_) (fun _ => hstable) herr'
  have huntouched := untouched_of_quiet ho hserves
  obtain ⟨hinv', hguar⟩ := huntouched.keeps hinv
  have hp' := hkept s s' huntouched hp
  refine ⟨hinv', hguar, ?_⟩
  cases r with
  | ok a => exact hp'
  | error e => exact herr s' hp'

theorem quiet_bind {o : ServerOp} {f : o.Val → Handler α} (ho : Quiet o) (hkept : Kept pre)
    (hstable : (accessContract c init).Stable i pre) (herr : ∀ s, pre s → err s)
    (herr' : (accessContract c init).Stable i err) (hf : ∀ a, Proved c init i err pre (f a) post) :
    Proved c init i err pre (call o >>= f) post :=
  Outlined.bind (quiet ho hkept hstable herr herr') herr' hf

/-- Reading a stored state: it is `Linear`, whoever reads it. Under the lock it
stays what it is. -/
theorem getAccessState_locked {ws : WorkspaceId} {P : List LogEntry → Prop} (hP : Monotone P) :
    Proved c init i (Locked i) (fun s => Locked i s ∧ Logged P s) (call (.getAccessState ws))
      fun a s => Holding i ws a s ∧ Logged P s := by
  have hstable : (accessContract c init).Stable i fun s => Locked i s ∧ Logged P s :=
    stable_locked.and (stable_logged hP)
  refine Outlined.op hstable (fun s r s' hinv hp hserves => ?_)
    (fun _ => stable_holding.and (stable_logged hP)) stable_locked
  have huntouched := untouched_of_quiet (o := .getAccessState ws) trivial hserves
  obtain ⟨hinv', hguar⟩ := huntouched.keeps hinv
  have hlock' : Locked i s' := huntouched.lock.trans hp.1
  refine ⟨hinv', hguar, ?_⟩
  obtain ⟨_, hperform | ⟨_, ⟨e, rfl⟩, rfl⟩ | hother⟩ := hserves
  · simp only [ServerState.perform, Prod.mk.injEq] at hperform
    obtain ⟨rfl, rfl⟩ := hperform
    exact ⟨⟨hp.1, rfl⟩, hp.2⟩
  · exact hp.1
  · exact hother.elim

/-- An event that was applied to what the lock holder read is saved on top of
it. -/
theorem saveAccessState_locked {ws : WorkspaceId} {a a' : AccessState} {e : SignedAccessEvent}
    {P : List LogEntry → Prop} (hP : Monotone P)
    (happly : (applyVerifiedEvent c e).exec a = (.ok (), a'))
    (hauth : ∀ log, P log → Authorised c ws log a e) :
    Proved c init i (Locked i) (fun s => Holding i ws a s ∧ Logged P s)
      (call (.saveAccessState ws a' e))
      fun _ s => Locked i s ∧ Logged (fun log => .accepted ws e a' ∈ log) s := by
  have hsaved : Monotone fun log => .accepted ws e a' ∈ log := fun _ _ hle h => hle.subset h
  refine Outlined.op (stable_holding.and (stable_logged hP)) (fun s r s' hinv hp hserves => ?_)
    (fun _ => stable_locked.and (stable_logged hsaved)) stable_locked
  obtain ⟨⟨hlock, hstate⟩, hlog⟩ := hp
  have hsame : (accessContract c init).guar i s s := ⟨List.prefix_rfl, fun j _ hj => ⟨hj, rfl⟩⟩
  obtain ⟨_, hperform | ⟨_, ⟨err, rfl⟩, rfl⟩ | hother⟩ := hserves
  · simp only [ServerState.perform, ServerState.saveAccessState] at hperform
    split at hperform
    · obtain ⟨rfl, rfl⟩ := Prod.mk.inj hperform
      exact ⟨hinv, hsame, hlock⟩
    · obtain ⟨rfl, rfl⟩ := Prod.mk.inj hperform
      refine ⟨⟨fun w => ?_, fun w id r hr => ?_, fun w r hr => ?_⟩, ⟨?_, fun j hji hj => ?_⟩, hlock, ?_⟩
      · by_cases hw : ws = w
        · subst hw
          have hlinear := hinv.1 ws
          rw [hstate] at hlinear
          have hnext := hlinear.accepted happly (hauth _ hlog)
          simpa [ServerState.accessState] using hnext
        · have hlinear := (hinv.1 w).elsewhere (e := e) (t := a') hw
          simpa [ServerState.accessState, Function.update_of_ne (Ne.symm hw)] using hlinear
      · exact List.mem_append_left _ (hinv.2.1 w id r hr)
      · have hr' : .submitted w r ∈ s.log := by simpa using hr
        exact hinv.2.2 w r hr'
      · exact List.prefix_append _ _
      · -- the lock is this handler's
        have hij : some i = some j := hlock.symm.trans hj
        exact absurd (Option.some.inj hij).symm hji
      · exact List.mem_append_right _ (List.mem_singleton.mpr rfl)
  · exact ⟨hinv, hsame, hlock⟩
  · exact hother.elim

theorem submitJoinRequest_proved {ws : WorkspaceId} {request : DeviceJoinRequest}
    (hverified : request.verifyForWorkspace c ws = .ok ()) :
    Proved c init i (fun _ => True) (fun _ => True) (call (.submitJoinRequest ws request))
      fun _ _ => True := by
  refine Outlined.op Contract.stable_true (fun s r s' hinv _ hserves => ?_)
    (fun _ => Contract.stable_true) Contract.stable_true
  have hends : Ends (fun _ : ServerState ι => True) (fun _ _ => True) r s' := by
    cases r <;> trivial
  have hsame : (accessContract c init).guar i s s := ⟨List.prefix_rfl, fun j _ hj => ⟨hj, rfl⟩⟩
  obtain ⟨_, hperform | ⟨_, _, rfl⟩ | hother⟩ := hserves
  · have hs' := congrArg Prod.snd hperform
    simp only [ServerState.perform, ServerState.submitJoinRequest] at hs'
    split at hs'
    · subst hs'
      exact ⟨hinv, hsame, hends⟩
    · split at hs'
      · subst hs'
        refine ⟨⟨fun w => ?_, fun w id req hr => ?_, fun w r hr => ?_⟩,
          ⟨List.prefix_append _ _, fun j _ hj => ⟨hj, rfl⟩⟩, hends⟩
        · exact (hinv.1 w).submitted
        · by_cases hw : w = ws
          · subst hw
            simp only [Function.update_self, BTreeMap.lookup_insert] at hr
            split at hr
            · cases hr
              exact List.mem_append_right _ (List.mem_singleton.mpr rfl)
            · exact List.mem_append_left _ (hinv.2.1 w id req hr)
          · simp only [Function.update_of_ne hw] at hr
            exact List.mem_append_left _ (hinv.2.1 w id req hr)
        · rcases List.mem_append.mp hr with hr | hr
          · exact hinv.2.2 w r hr
          · cases List.mem_singleton.mp hr
            exact hverified
      · subst hs'
        exact ⟨hinv, hsame, hends⟩
  · exact ⟨hinv, hsame, hends⟩
  · exact hother.elim

theorem removeJoinRequest_proved {ws : WorkspaceId} {id : JoinRequestId} {P : List LogEntry → Prop}
    (hP : Monotone P) :
    Proved c init i (fun _ => True) (Logged P) (call (.removeJoinRequest ws id)) fun _ => Logged P := by
  refine Outlined.op (stable_logged hP) (fun s r s' hinv hp hserves => ?_)
    (fun _ => stable_logged hP) Contract.stable_true
  have hsame : (accessContract c init).guar i s s := ⟨List.prefix_rfl, fun j _ hj => ⟨hj, rfl⟩⟩
  obtain ⟨_, hperform | ⟨_, ⟨e, rfl⟩, rfl⟩ | hother⟩ := hserves
  · obtain ⟨rfl, rfl⟩ := Prod.mk.inj hperform
    refine ⟨⟨hinv.1, fun w id' r hr => ?_, hinv.2.2⟩, hsame, hp⟩
    by_cases hw : w = ws
    · subst hw
      have hr' : (s.joinRequests w)[id']? = some r := by
        simp only [Function.update_self, Std.ExtTreeMap.getElem?_erase] at hr
        split at hr
        · cases hr
        · exact hr
      exact hinv.2.1 w id' r hr'
    · simp only [Function.update_of_ne hw] at hr
      exact hinv.2.1 w id' r hr
  · exact ⟨hinv, hsame, trivial⟩
  · exact hother.elim

theorem getJoinRequest_proved {ws : WorkspaceId} {id : JoinRequestId} :
    Proved c init i (fun _ => True) (fun _ => True) (call (.getJoinRequest ws id))
      fun found => Logged fun log => ∀ r : DeviceJoinRequest, found = some r → .submitted ws r ∈ log := by
  have hmono (found : Option DeviceJoinRequest) :
      Monotone fun log => ∀ r : DeviceJoinRequest, found = some r → .submitted ws r ∈ log :=
    fun _ _ hle h r hr => hle.subset (h r hr)
  refine Outlined.op Contract.stable_true (fun s r s' hinv _ hserves => ?_)
    (fun found => stable_logged (hmono found)) Contract.stable_true
  have huntouched := untouched_of_quiet (o := .getJoinRequest ws id) trivial hserves
  obtain ⟨hinv', hguar⟩ := huntouched.keeps hinv
  refine ⟨hinv', hguar, ?_⟩
  obtain ⟨_, hperform | ⟨_, ⟨e, rfl⟩, rfl⟩ | hother⟩ := hserves
  · obtain ⟨rfl, rfl⟩ := Prod.mk.inj hperform
    exact fun r hr => hinv.2.1 ws id r hr
  · trivial
  · exact hother.elim

/-! ### Handlers -/

theorem monotone_joinAuthorised {ws : WorkspaceId} {e : SignedAccessEvent} :
    Monotone fun log => JoinAuthorised c ws log e := fun _ _ hle h => h.mono hle

theorem monotone_accepted {ws : WorkspaceId} {e : SignedAccessEvent} {st : AccessState} :
    Monotone fun log => .accepted ws e st ∈ log := fun _ _ hle h => hle.subset h

/-- Where an event is applied to a state that was read, and is no creation,
its actor is an active owner there. -/
theorem activeOwner_of_applied {e : SignedAccessEvent} {a a' : AccessState}
    (hmanage : e.event.requiredPermission ≠ none)
    (happly : (applyVerifiedEvent c e).exec a = (.ok (), a')) : a.ActiveOwner e.actorDeviceId := by
  rcases applyVerifiedEvent_cases (s := a) c e with ⟨err, herr⟩ | ⟨t, ⟨_, _, _, n, mid, _, hchange, _⟩, _⟩
  · rw [herr] at happly
    cases happly
  · generalize e.event = kind at hmanage hchange
    cases hchange with
    | workspaceCreated => exact absurd rfl hmanage
    | deviceJoined howner _ => exact howner
    | deviceRoleChanged howner _ _ _ => exact howner
    | deviceRemoved howner _ _ _ => exact howner
    | restrictedKeyGranted howner _ _ _ => exact howner
    | restrictedKeyRevoked howner _ _ => exact howner

theorem applyLocked_proved {ws : WorkspaceId} {e : SignedAccessEvent}
    (hmanage : e.event.requiredPermission ≠ none) :
    Proved c init i (Locked i) (fun s => Locked i s ∧ Logged (fun log => JoinAuthorised c ws log e) s)
      (applyLocked c ws e) fun st s => Locked i s ∧ Logged (fun log => .accepted ws e st ∈ log) s := by
  have hjoin : Monotone fun log => JoinAuthorised c ws log e := monotone_joinAuthorised
  have hstable : (accessContract c init).Stable i fun s =>
      Locked i s ∧ Logged (fun log => JoinAuthorised c ws log e) s :=
    stable_locked.and (stable_logged hjoin)
  unfold applyLocked
  refine Outlined.check_bind hstable (fun s _ hp => hp.1) fun _ hws => ?_
  refine Outlined.bind (getAccessState_locked hjoin) stable_locked fun a => ?_
  have hread : (accessContract c init).Stable i fun s =>
      Holding i ws a s ∧ Logged (fun log => JoinAuthorised c ws log e) s :=
    stable_holding.and (stable_logged hjoin)
  refine Outlined.check_bind hread (fun s _ hp => hp.1.1) fun actor hactor => ?_
  refine Outlined.check_bind hread (fun s _ hp => hp.1.1) fun _ hsigned => ?_
  refine Outlined.check_bind hread (fun s _ hp => hp.1.1) fun _ happlied => ?_
  have hws := require_ok.mp hws
  have hactor := activeDeviceRecord_ok.mp (Except.mapError_ok.mp hactor)
  have hsigned := Except.mapError_ok.mp hsigned
  have happly : (applyVerifiedEvent c e).exec a = (.ok (), ((applyVerifiedEvent c e).exec a).2) :=
    Prod.ext (Except.mapError_ok.mp happlied) rfl
  have hauth (log : List LogEntry) (hlog : JoinAuthorised c ws log e) : Authorised c ws log a e := by
    simp only [SignedAccessEvent.verifySignature, Except.bind_unit_ok, require_ok] at hsigned
    obtain ⟨_, hid, hsigned⟩ := hsigned
    exact ⟨hws, ⟨actor, hactor.2.1, hid, hactor.2.2, hsigned⟩, activeOwner_of_applied hmanage happly, hlog⟩
  refine Outlined.bind (saveAccessState_locked hjoin happly hauth) stable_locked fun _ => ?_
  exact Outlined.pure (stable_locked.and (stable_logged monotone_accepted)) fun s _ h => h

theorem verifyAndApplyAccessEvent_proved {ws : WorkspaceId} {e : SignedAccessEvent}
    (hmanage : e.event.requiredPermission ≠ none) :
    Proved c init i (fun _ => True) (Logged fun log => JoinAuthorised c ws log e)
      (verifyAndApplyAccessEvent c ws e) fun st => Logged fun log => .accepted ws e st ∈ log := by
  have hjoin : Monotone fun log => JoinAuthorised c ws log e := monotone_joinAuthorised
  refine Outlined.withLock (stable_logged hjoin) Contract.stable_true ?_
    (applyLocked_proved hmanage) ?_ ?_ ?_
  · intro s r s' hinv hp hserves
    obtain ⟨hfree, hperform | ⟨hstores, _⟩ | hother⟩ := hserves
    · obtain ⟨rfl, rfl⟩ := Prod.mk.inj hperform
      refine ⟨hinv, ⟨List.prefix_rfl, fun j _ hj => ?_⟩, rfl, hp⟩
      rw [show s.accessEventLock = none from hfree] at hj
      cases hj
    · exact hstores.elim
    · exact hother.elim
  · intro out s r s' hinv hp hserves
    have hlock : s.accessEventLock = some i := by
      cases out with
      | ok st => exact hp.1
      | error err => exact hp
    obtain ⟨_, hperform | ⟨hstores, _⟩ | hother⟩ := hserves
    · obtain ⟨rfl, rfl⟩ := Prod.mk.inj hperform
      refine ⟨hinv, ⟨List.prefix_rfl, fun j hji hj => ?_⟩, ?_⟩
      · rw [hlock] at hj
        exact absurd (Option.some.inj hj).symm hji
      · cases out with
        | ok st => exact hp.2
        | error err => trivial
    · exact hstores.elim
    · exact hother.elim
  · intro out
    cases out with
    | ok st => exact stable_locked.and (stable_logged monotone_accepted)
    | error err => exact stable_locked
  · intro out
    cases out with
    | ok st => exact stable_logged monotone_accepted
    | error err => exact Contract.stable_true

theorem applyJoinEvent_proved {ws : WorkspaceId} {id : JoinRequestId} {e : SignedAccessEvent} :
    Proved c init i (fun _ => True) (fun _ => True) (applyJoinEvent c ws id e)
      fun st => Logged fun log => .accepted ws e st ∈ log := by
  unfold applyJoinEvent
  refine Outlined.bind getJoinRequest_proved Contract.stable_true fun found => ?_
  have hstable : (accessContract c init).Stable i
      (Logged fun log => ∀ r : DeviceJoinRequest, found = some r → LogEntry.submitted ws r ∈ log) :=
    stable_logged fun _ _ hle h r hr => hle.subset (h r hr)
  refine Outlined.check_bind hstable (fun _ _ _ => trivial) fun pending hfound => ?_
  refine Outlined.check_bind hstable (fun _ _ _ => trivial) fun _ hverified => ?_
  refine Outlined.check_bind hstable (fun _ _ _ => trivial) fun _ hmatches => ?_
  have hfound := okOr_ok.mp hfound
  have hverified := Except.mapError_ok.mp hverified
  obtain ⟨⟨role, hevent⟩, _⟩ := SignedAccessEvent.verifyJoinRequest_ok.mp (Except.mapError_ok.mp hmatches)
  have hmanage : e.event.requiredPermission ≠ none := by
    rw [hevent]
    exact Option.some_ne_none _
  have hjoined (log : List LogEntry) (hlog : LogEntry.submitted ws pending ∈ log) :
      JoinAuthorised c ws log e := by
    intro id' device role' he
    rw [hevent] at he
    cases he
    simp only [DeviceJoinRequest.verifyForWorkspace, Except.bind_unit_ok, require_ok] at hverified
    exact ⟨pending, hlog, rfl, rfl, hverified.1, hverified.2⟩
  have happly := (verifyAndApplyAccessEvent_proved hmanage).weaken hstable fun s _ hp =>
    hjoined s.log (hp pending hfound)
  refine Outlined.bind happly Contract.stable_true fun st => ?_
  refine Outlined.bind (removeJoinRequest_proved monotone_accepted) Contract.stable_true fun _ => ?_
  exact Outlined.pure (stable_logged monotone_accepted) fun _ _ h => h

/-- A handler that makes only quiet calls up to `f`. -/
theorem quiet_call {o : ServerOp} {f : o.Val → Handler α} (ho : Quiet o)
    (hf : ∀ a, Proved c init i (fun _ => True) (fun _ => True) (f a) post) :
    Proved c init i (fun _ => True) (fun _ => True) (call o >>= f) post :=
  quiet_bind ho (fun _ _ _ _ => trivial) Contract.stable_true (fun _ _ => trivial) Contract.stable_true hf

theorem checked {β : Type} {x : ServerResult β} {f : β → Handler α}
    (hf : ∀ b, x = .ok b → Proved c init i (fun _ => True) (fun _ => True) (f b) post) :
    Proved c init i (fun _ => True) (fun _ => True) (check x >>= f) post :=
  Outlined.check_bind Contract.stable_true (fun _ _ _ => trivial) hf

theorem returned {a : α} : Proved c init i (fun _ => True) (fun _ => True) (pure a : Handler α)
    fun _ _ => True :=
  Outlined.pure Contract.stable_true fun _ _ _ => trivial

theorem checked_last {x : ServerResult α} :
    Proved c init i (fun _ => True) (fun _ => True) (check x) fun _ _ => True :=
  Outlined.check Contract.stable_true (fun _ _ _ => trivial) fun _ _ _ _ _ => trivial

theorem quiet_last {o : ServerOp} (ho : Quiet o) :
    Proved c init i (fun _ => True) (fun _ => True) (call o) fun _ _ => True :=
  quiet ho (fun _ _ _ _ => trivial) Contract.stable_true (fun _ _ => trivial) Contract.stable_true

theorem authenticated {β : Type} {auth : Handler β} {f : β → Handler α}
    (hauth : Proved c init i (fun _ => True) (fun _ => True) auth fun _ _ => True)
    (hf : ∀ b, Proved c init i (fun _ => True) (fun _ => True) (f b) post) :
    Proved c init i (fun _ => True) (fun _ => True) (auth >>= f) post :=
  Outlined.bind hauth Contract.stable_true hf

theorem authenticate_proved {E : ServerEnv} {ws : WorkspaceId} {permission : WorkspacePermission}
    {http : HttpRequest} :
    Proved E.crypto init i (fun _ => True) (fun _ => True) (authenticate E ws permission http)
      fun _ _ => True := by
  unfold authenticate
  refine checked fun _ _ => quiet_call trivial fun _ => checked fun _ _ => ?_
  refine quiet_call trivial fun _ => checked fun _ _ => checked fun _ _ => ?_
  exact quiet_call trivial fun _ => checked fun _ _ => returned

theorem submitLocked_proved {ws : WorkspaceId} {request : DeviceJoinRequest}
    (hverified : request.verifyForWorkspace c ws = .ok ()) :
    Proved c init i (fun _ => True) (fun _ => True) (submitLocked ws request) fun _ _ => True := by
  have hsubmit {f : JoinRequestPutResult → Handler JoinRequestSubmissionResponse}
      (hf : ∀ r, Proved c init i (fun _ => True) (fun _ => True) (f r) fun _ _ => True) :
      Proved c init i (fun _ => True) (fun _ => True) (call (.submitJoinRequest ws request) >>= f)
        fun _ _ => True :=
    Outlined.bind (submitJoinRequest_proved hverified) Contract.stable_true hf
  unfold submitLocked
  refine quiet_call trivial fun _ => checked fun _ _ => checked fun _ _ => quiet_call trivial fun existing => ?_
  split
  · exact hsubmit fun _ => checked_last
  · refine quiet_call trivial fun pending => ?_
    split
    · exact returned
    · exact checked fun _ _ => hsubmit fun _ => checked_last

theorem submitJoinRequest_handler_proved {E : ServerEnv} {ws : WorkspaceId} {http : HttpRequest} :
    Proved E.crypto init i (fun _ => True) (fun _ => True) (submitJoinRequest E ws http)
      fun _ _ => True := by
  have hsignature (request : DeviceJoinRequest) :
      Proved E.crypto init i (fun _ => True) (fun _ => True)
        (verifyJoinRequestHttpSignature E ws http request) fun _ _ => True := by
    unfold verifyJoinRequestHttpSignature
    refine checked fun _ _ => quiet_call trivial fun _ => checked fun _ _ => ?_
    exact checked fun _ _ => checked fun _ _ => quiet_last trivial
  have hlock {o : ServerOp} {s : ServerState ι} {r : ServerResult o.Val} {s' : ServerState ι}
      (ho : Quiet o) (hinv : (accessContract E.crypto init).inv s) (hserves : s.Serves E.crypto i o r s') :
      (accessContract E.crypto init).inv s' ∧ (accessContract E.crypto init).guar i s s' :=
    (untouched_of_quiet ho hserves).keeps hinv
  have hends {β : Type} (out : ServerResult β) (s : ServerState ι) :
      Ends (fun _ => True) (fun _ _ => True) out s := by cases out <;> trivial
  have hstable {β : Type} (out : ServerResult β) :
      (accessContract E.crypto init).Stable i (Ends (fun _ => True) (fun _ _ => True) out) :=
    fun _ _ _ s' _ _ _ _ => hends out s'
  unfold submitJoinRequest
  refine checked fun _ _ => checked fun request _ => checked fun _ hverified => ?_
  refine authenticated (hsignature request) fun _ => ?_
  refine Outlined.withLock Contract.stable_true Contract.stable_true ?_
    (submitLocked_proved (Except.mapError_ok.mp hverified)) ?_ hstable hstable
  · intro s r s' hinv _ hserves
    obtain ⟨hinv', hguar⟩ := hlock (o := .lockJoinRequests) trivial hinv hserves
    exact ⟨hinv', hguar, hends r s'⟩
  · intro out s r s' hinv _ hserves
    obtain ⟨hinv', hguar⟩ := hlock (o := .unlockJoinRequests) trivial hinv hserves
    exact ⟨hinv', hguar, hends out s'⟩

theorem putKeyEnvelope_proved {E : ServerEnv} {ws : WorkspaceId} {k : KeyId} {d : DeviceId}
    {http : HttpRequest} :
    Proved E.crypto init i (fun _ => True) (fun _ => True) (putKeyEnvelope E ws k d http)
      fun _ _ => True := by
  unfold putKeyEnvelope putKeyEnvelopeAs
  refine checked fun _ _ => checked fun _ _ => authenticated authenticate_proved fun _ => ?_
  refine checked fun _ _ => checked fun _ _ => quiet_call trivial fun _ => checked fun _ _ => ?_
  refine checked fun _ _ => checked fun _ _ => checked fun _ _ => quiet_call trivial fun result => ?_
  cases result with
  | created => exact returned
  | alreadyExists => exact returned
  | conflict => exact Outlined.throw Contract.stable_true fun _ _ _ => trivial

/-- What a request asks to apply. -/
def AccessRequest.event (E : ServerEnv) : AccessRequest → Option (WorkspaceId × SignedAccessEvent)
  | .approveJoinRequest ws _ http =>
    (E.parseApproveJoinRequest http.body).toOption.map fun request => (ws, request.event)
  | .applyAccessEvent ws http => (E.parseApplyAccessEvent http.body).toOption.map fun e => (ws, e)
  | _ => none

/-- A request that asks to apply an event was answered with the state the
event led to. -/
def Answered (E : ServerEnv) (q : AccessRequest) (response : AccessResponse) (log : List LogEntry) : Prop :=
  ∀ ws e, q.event E = some (ws, e) → ∃ st, response = .applied st ∧ .accepted ws e st ∈ log

theorem monotone_answered {E : ServerEnv} {q : AccessRequest} {response : AccessResponse} :
    Monotone (Answered E q response) := by
  intro log log' hle h ws e hq
  obtain ⟨st, hst, hmem⟩ := h ws e hq
  exact ⟨st, hst, hle.subset hmem⟩

theorem approveJoinRequest_proved {E : ServerEnv} {ws : WorkspaceId} {id : JoinRequestId}
    {http : HttpRequest} :
    Proved E.crypto init i (fun _ => True) (fun _ => True) (approveJoinRequest E ws id http)
      fun st => Logged (Answered E (.approveJoinRequest ws id http) (.applied st)) := by
  unfold approveJoinRequest approveJoinRequestAs
  refine checked fun _ _ => checked fun request hparse => checked fun _ _ => ?_
  refine authenticated authenticate_proved fun _ => checked fun _ _ => ?_
  have hparse : E.parseApproveJoinRequest http.body = .ok request := by
    cases hp : E.parseApproveJoinRequest http.body with
    | ok r =>
      rw [hp] at hparse
      cases hparse
      rfl
    | error e =>
      rw [hp] at hparse
      cases hparse
  refine Outlined.weaken_post applyJoinEvent_proved ?_
  intro st s _ hst ws' e he
  rw [AccessRequest.event, hparse] at he
  cases he
  exact ⟨st, rfl, hst⟩

theorem applyAccessEvent_proved {E : ServerEnv} {ws : WorkspaceId} {http : HttpRequest} :
    Proved E.crypto init i (fun _ => True) (fun _ => True) (applyAccessEvent E ws http)
      fun st => Logged (Answered E (.applyAccessEvent ws http) (.applied st)) := by
  unfold applyAccessEvent applyAccessEventAs
  refine checked fun _ _ => checked fun e hparse => checked fun permission hpermission => ?_
  refine authenticated authenticate_proved fun _ => checked fun _ _ => ?_
  have hmanage : e.event.requiredPermission ≠ none := by
    rw [okOr_ok.mp hpermission]
    exact Option.some_ne_none _
  have hparse : E.parseApplyAccessEvent http.body = .ok e := by
    cases hp : E.parseApplyAccessEvent http.body with
    | ok e =>
      rw [hp] at hparse
      cases hparse
      rfl
    | error err =>
      rw [hp] at hparse
      cases hparse
  have hanswered {x : Handler AccessState}
      (hx : Proved E.crypto init i (fun _ => True) (fun _ => True) x
        fun st => Logged fun log => .accepted ws e st ∈ log) :
      Proved E.crypto init i (fun _ => True) (fun _ => True) x
        fun st => Logged (Answered E (.applyAccessEvent ws http) (.applied st)) := by
    refine Outlined.weaken_post hx ?_
    intro st s _ hst ws' e' he
    rw [AccessRequest.event, hparse] at he
    cases he
    exact ⟨st, rfl, hst⟩
  split
  · exact hanswered applyJoinEvent_proved
  · rename_i hother
    refine hanswered ((verifyAndApplyAccessEvent_proved hmanage).weaken Contract.stable_true ?_)
    intro s _ _ id device role he
    exact absurd he (hother id device role)

/-- Every handler has an outline. -/
theorem handle_proved {E : ServerEnv} (q : AccessRequest) :
    Proved E.crypto init i (fun _ => True) (fun _ => True) (q.handle E)
      fun response => Logged (Answered E q response) := by
  have hplain {β : Type} {x : Handler β} {f : β → AccessResponse}
      (hx : Proved E.crypto init i (fun _ => True) (fun _ => True) x fun _ _ => True)
      (hq : q.event E = none) :
      Proved E.crypto init i (fun _ => True) (fun _ => True) (f <$> x)
        fun response => Logged (Answered E q response) := by
    refine Outlined.map hx Contract.stable_true (fun _ => Contract.stable_true) ?_
    intro b s _ _ ws e he
    rw [hq] at he
    cases he
  cases q with
  | putKeyEnvelope w k d http => exact hplain putKeyEnvelope_proved rfl
  | fetchKeyEnvelope w k d http =>
    refine hplain ?_ rfl
    unfold fetchKeyEnvelope fetchKeyEnvelopeAs
    refine authenticated authenticate_proved fun _ => checked fun _ _ => ?_
    exact quiet_call trivial fun _ => checked_last
  | submitJoinRequest w http => exact hplain submitJoinRequest_handler_proved rfl
  | listJoinRequests w http =>
    refine hplain ?_ rfl
    unfold listJoinRequests listJoinRequestsAs
    exact authenticated authenticate_proved fun _ => quiet_last trivial
  | approveJoinRequest w id http =>
    exact Outlined.map approveJoinRequest_proved Contract.stable_true
      (fun _ => stable_logged monotone_answered) fun _ _ _ h => h
  | applyAccessEvent w http =>
    exact Outlined.map applyAccessEvent_proved Contract.stable_true
      (fun _ => stable_logged monotone_answered) fun _ _ _ h => h
  | fetchAccessState w http =>
    refine hplain ?_ rfl
    unfold fetchAccessState fetchAccessStateAs
    exact authenticated authenticate_proved fun _ => quiet_last trivial

end Contract

/-! ### The server -/

section Server

variable {ι : Type}

/-- The server of workspaces created with their access states, before it
served a request. -/
structure Created (s : ServerState ι) : Prop where
  log : s.log = []
  requests : ∀ ws, s.joinRequests ws = ∅

theorem Created.inv {c : Crypto} {s : ServerState ι} (h : Created s) :
    (accessContract c s.accessState).inv s := by
  refine ⟨fun ws => ?_, fun ws id r hr => ?_, fun ws r hr => ?_⟩
  · rw [h.log]
    exact .start
  · rw [h.requests, Std.ExtTreeMap.getElem?_empty] at hr
    cases hr
  · rw [h.log] at hr
    cases hr

theorem accessServer_kept {E : ServerEnv} {init : WorkspaceId → AccessState} :
    (accessContract E.crypto init).Kept (accessServer ι E) fun q _ =>
      Ends (fun _ => True) fun response => Logged (Answered E q response) :=
  ⟨fun _ => Contract.stable_true, fun q _ => handle_proved q⟩

/-- **The access history is linear and authorised.** Whatever handlers
interleave, the states a workspace has had are one chain of authorised events
from the state it was created with, and their fold; a request that was
answered has its event in the chain, and what is in the chain stays. -/
theorem access_history_linear [DecidableEq ι] (E : ServerEnv) {s₀ : ServerState ι} (hcreated : Created s₀)
    {cfg : Config ι (Signature.fallible ServerOp.Val ServerError) (ServerState ι) AccessRequest
      (ServerResult AccessResponse)} (h : (accessServer ι E).Reachable s₀ cfg) :
    (∀ ws, Linear E.crypto ws (s₀.accessState ws) cfg.shared.log (cfg.shared.accessState ws) ∧
      cfg.shared.accessState ws =
        history E.crypto (s₀.accessState ws) ((acceptedOf ws cfg.shared.log).map Prod.fst) ∧
      (cfg.shared.accessState ws).revision.toNat =
        (s₀.accessState ws).revision.toNat + (acceptedOf ws cfg.shared.log).length) ∧
    (∀ i q response, cfg.thread i = some (q, .done (.ok response)) →
      Answered E q response cfg.shared.log) ∧
    ∀ cfg', (accessServer ι E).Steps cfg cfg' → cfg.shared.log <+: cfg'.shared.log := by
  obtain ⟨hinv, _, hanswered⟩ := Contract.reachable hcreated.inv (fun _ => trivial) accessServer_kept h
  refine ⟨fun ws => ⟨hinv.1 ws, (hinv.1 ws).fold⟩, fun i q response hdone => ?_, fun cfg' hsteps => ?_⟩
  · exact hanswered i q (.ok response) hdone
  · have hle (i : ι) (s s' : ServerState ι)
        (hguar : (accessContract E.crypto s₀.accessState).guar i s s') : s.log <+: s'.log := hguar.1
    have hrefl (s : ServerState ι) : s.log <+: s.log := List.prefix_rfl
    have htrans (s t u : ServerState ι) (hst : s.log <+: t.log) (htu : t.log <+: u.log) :
        s.log <+: u.log := hst.trans htu
    exact Contract.monotone hrefl htrans hle hcreated.inv (fun _ => trivial) accessServer_kept h hsteps

end Server

/-! ### An enrolment

A device asks to join the sample workspace, and the owner approves it. -/

section Sample

open Codec

def sampleDeviceId : DeviceId := ⟨"device_new", by decide⟩
def sampleRequestId : JoinRequestId := ⟨"join_1", by decide⟩

def sampleJoin : DeviceJoinRequest where
  requestId := sampleRequestId
  workspaceId := sampleWorkspace
  device := sampleDevice sampleDeviceId .pending
  createdAt := ⟨1000⟩
  signature := sampleSignature

def sampleApproval : ApproveJoinRequestRequest where
  joinRequestId := sampleRequestId
  event :=
    { sampleEvent 1 (.deviceJoined sampleRequestId (sampleDevice sampleDeviceId .pending) .member) with
      eventId := ⟨"event_2", by decide⟩ }

/-- A JSON object of the fields, given as their texts. -/
def jsonObject (fields : List (String × Bytes)) : Bytes :=
  utf8 "\x7b" ++ (utf8 ",").intercalate (fields.map fun (name, value) =>
    utf8 "\"" ++ utf8 name ++ utf8 "\":" ++ value) ++ utf8 "\x7d"

def jsonBytes (bytes : Bytes) : Bytes :=
  utf8 "[" ++ (utf8 ",").intercalate (bytes.map fun b => utf8 (toString b.toNat)) ++ utf8 "]"

def jsonString (s : String) : Bytes := utf8 "\"" ++ utf8 s ++ utf8 "\""

def sampleDeviceJson : Bytes :=
  jsonObject [("device_id", jsonString "device_new"), ("device_name", jsonString "laptop"),
    ("signing_public_key", jsonBytes sampleKey.val),
    ("exchange_public_key", jsonBytes (List.replicate 32 0)),
    ("fingerprint", jsonString "FQUR-NB-3-83DI-FG"), ("status", jsonString "pending")]

def sampleJoinBody : Bytes :=
  jsonObject [("request_id", jsonString "join_1"), ("workspace_id", jsonString "ws"),
    ("device", sampleDeviceJson), ("created_at", utf8 "1000"), ("signature", jsonBytes sampleSignature)]

def sampleApprovalBody : Bytes :=
  jsonObject [("join_request_id", jsonString "join_1"), ("event",
    jsonObject [("event_id", jsonString "event_2"), ("workspace_id", jsonString "ws"),
      ("expected_revision", utf8 "1"), ("actor_device_id", jsonString "device_owner"),
      ("created_at", utf8 "1000"), ("event", jsonObject [("device_joined",
        jsonObject [("join_request_id", jsonString "join_1"), ("device", sampleDeviceJson),
          ("role", jsonString "member")])]),
      ("signature", jsonBytes sampleSignature)])]

/-- The primitives and decoders, as they are on what the sample requests hold. -/
def sampleEnv : ServerEnv where
  crypto :=
    { sampleCrypto with
      sha256 := fun bytes =>
        if bytes = sampleJoinBody then
          [211, 27, 233, 193, 198, 80, 240, 11, 185, 228, 154, 142, 80, 216, 100, 233, 5, 138, 129, 240,
            67, 10, 244, 251, 17, 29, 213, 30, 239, 144, 202, 59]
        else if bytes = sampleApprovalBody then
          [162, 21, 212, 204, 160, 146, 36, 200, 30, 175, 41, 225, 180, 110, 152, 84, 230, 66, 87, 218,
            146, 174, 16, 87, 255, 109, 105, 178, 239, 139, 181, 225]
        else sampleCrypto.sha256 bytes }
  parseKeyEnvelope _ := .error "missing field"
  parseDeviceJoinRequest body := if body = sampleJoinBody then .ok sampleJoin else .error "missing field"
  parseApproveJoinRequest body :=
    if body = sampleApprovalBody then .ok sampleApproval else .error "missing field"
  parseApplyAccessEvent _ := .error "missing field"

def sampleNonce : RequestNonce := ⟨"nonce", by decide⟩

/-- A request the sample key signed. -/
def sampleHttp (path : String) (deviceId : DeviceId) (body : Bytes) : HttpRequest where
  method := "POST"
  pathAndQuery := path
  headers := .ok ⟨deviceId, ⟨1000⟩, sampleNonce, sampleSignature⟩
  body := body

def sampleServer : ServerState ℕ where
  accessStates := Function.update (fun _ => none) sampleWorkspace
    (some (history sampleCrypto (.empty sampleWorkspace) [creation]))
  joinRequests _ := ∅
  keyEnvelopes _ _ _ := none
  replayCache _ := none
  clock := ⟨1000⟩
  accessEventLock := none
  joinRequestLock := none
  log := []

def enrolment : Option (Config ℕ (Signature.fallible ServerOp.Val ServerError) (ServerState ℕ)
    AccessRequest (ServerResult AccessResponse)) := do
  let server := accessServer ℕ sampleEnv
  let run := ServerState.attempt sampleEnv.crypto
  let submit := AccessRequest.submitJoinRequest sampleWorkspace
    (sampleHttp "/workspaces/ws/devices/join-requests" sampleDeviceId sampleJoinBody)
  let approve := AccessRequest.approveJoinRequest sampleWorkspace sampleRequestId
    (sampleHttp "/workspaces/ws/devices/join-requests/join_1/approval" sampleOwner sampleApprovalBody)
  let cfg ← server.serve run 0 submit ⟨sampleServer, fun _ => none⟩
  server.serve run 1 approve cfg

theorem sampleServer_created : Created sampleServer := ⟨rfl, fun _ => rfl⟩

theorem enrolment_reachable {cfg : Config ℕ (Signature.fallible ServerOp.Val ServerError)
    (ServerState ℕ) AccessRequest (ServerResult AccessResponse)} (h : enrolment = some cfg) :
    (accessServer ℕ sampleEnv).Reachable sampleServer cfg := by
  simp only [enrolment, Option.bind_eq_bind, Option.bind_eq_some_iff] at h
  obtain ⟨mid, hsubmit, happrove⟩ := h
  have hserves (i : ℕ) (o : ServerOp) (s : ServerState ℕ) (r : ServerResult o.Val) (s' : ServerState ℕ)
      (hrun : s.attempt sampleEnv.crypto i o = some (r, s')) :
      (accessServer ℕ sampleEnv).sem i o s r s' := ServerState.serves_of_attempt sampleEnv.crypto hrun
  have hmid : (accessServer ℕ sampleEnv).Reachable sampleServer mid :=
    Machine.Reachable.serve hserves .refl hsubmit
  exact Machine.Reachable.serve hserves hmid happrove

theorem enrolment_accepts : enrolment.map (fun cfg =>
    (acceptedOf sampleWorkspace cfg.shared.log).length) = some 1 := by decide +kernel

/-- The approval is the chain of the sample workspace. -/
theorem enrolment_linear : ∃ cfg, enrolment = some cfg ∧
    (acceptedOf sampleWorkspace cfg.shared.log).length = 1 ∧
    Linear sampleEnv.crypto sampleWorkspace (sampleServer.accessState sampleWorkspace) cfg.shared.log
      (cfg.shared.accessState sampleWorkspace) ∧
    (cfg.shared.accessState sampleWorkspace).revision.toNat = 2 := by
  obtain ⟨cfg, hcfg, hlen⟩ := Option.map_eq_some_iff.mp enrolment_accepts
  obtain ⟨hchain, _, _⟩ :=
    access_history_linear sampleEnv sampleServer_created (enrolment_reachable hcfg)
  obtain ⟨hlinear, _, hrevision⟩ := hchain sampleWorkspace
  have hfirst : (sampleServer.accessState sampleWorkspace).revision.toNat = 1 := by decide
  rw [hlen, hfirst] at hrevision
  exact ⟨cfg, hcfg, hlen, hlinear, hrevision⟩

end Sample

end RustSync
