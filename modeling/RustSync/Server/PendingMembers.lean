/-
Pending requests of members

An approval saves the event that makes a device a member, and then removes the
request it was for. In between, and for as long as a handler is due to remove
it, a member may have a pending request; once all handlers are finished, none
has, whatever interleaves, as long as no step admits a device that has another
request, and none stores a request of a device that has become a member since
its submission looked.

A submission looks for its device among the members under one lock, and an
approval admits the device under the other. So the second kind of step does
happen (`pending_member`).

Key definitions: `Works`, `Current`, `Sole`, `faultlessServer`. Key theorems:
`no_pending_members`, `pending_member`.
-/
import RustSync.Server.JoinQueue

namespace RustSync.JoinQueue

open Fallible AccessState

/-! ### Runs without faults -/

section Runs

variable {ι : Type}

/-- A call that no store fails. -/
def Works (c : Crypto) (i : ι) (o : ServerOp) (s : ServerState ι) (r : ServerResult o.Val) (s' : ServerState ι) :
    Prop :=
  (r, s') = s.perform c i o ∨
    match o, r with
    | .now, r => (∃ t : UnixTimestamp, r = .ok t) ∧ s' = s
    | .listJoinRequests w, r =>
      (∃ l : List DeviceJoinRequest, r = .ok l ∧ l.Perm ((s.joinRequests w).toList.map Prod.snd)) ∧ s' = s
    | _, _ => False

/-- A request that is stored is not of a member. -/
def Current (o : ServerOp) (s : ServerState ι) : Prop :=
  ∀ w r, o = .submitJoinRequest w r → (s.joinRequests w)[r.requestId]? = none →
    (s.accessState w).isActiveMember r.device.deviceId = false

/-- A device that is admitted has no request but the one it is admitted for. -/
def Sole (o : ServerOp) (s : ServerState ι) : Prop :=
  ∀ w state cause id device, o = .saveAccessState w state cause → joins cause = some (id, device) →
    ∀ (id' : JoinRequestId) (r : DeviceJoinRequest), (s.joinRequests w)[id']? = some r →
      r.device.deviceId = device → id' = id

variable (ι) in
/-- The server's runs in which no store fails. -/
def faultlessServer (E : ServerEnv) : Machine ι Sig (ServerState ι) AccessRequest (ServerResult AccessResponse) :=
  (accessServer ι E).restrict fun i o s r s' => Works E.crypto i o s r s'

variable (ι) in
/-- The runs without faults whose every step is current and sole. -/
def timelyServer (E : ServerEnv) : Machine ι Sig (ServerState ι) AccessRequest (ServerResult AccessResponse) :=
  (faultlessServer ι E).restrict fun _ o s _ _ => Current o s ∧ Sole o s

end Runs

/-! ### Members -/

section Members

variable {c : Crypto} {a a' : AccessState} {e : SignedAccessEvent}

/-- An event that is no creation admits at most the device that joins. -/
theorem admitted (hmanage : e.event.requiredPermission ≠ none)
    (happly : (applyVerifiedEvent c e).exec a = (.ok (), a')) {device : DeviceId}
    (hactive : a'.isActiveMember device = true) :
    a.isActiveMember device = true ∨ ∃ id, joins e = some (id, device) := by
  rw [isActiveMember_iff] at hactive ⊢
  rcases applyVerifiedEvent_cases (s := a) c e with ⟨err, herr⟩ | ⟨t, ⟨_, _, _, n, mid, _, hchange, rfl⟩, ht⟩
  · rw [herr] at happly
    cases happly
  · rw [happly] at ht
    obtain ⟨_, rfl⟩ := Prod.mk.inj ht
    obtain ⟨m, hm, hstatus⟩ := hactive
    have hm : mid.memberships[device]? = some m := hm
    unfold joins
    generalize e.event = kind at hmanage hchange ⊢
    cases hchange with
    | workspaceCreated => exact absurd rfl hmanage
    | @deviceJoined id joined role howner hnew =>
      by_cases hjoined : joined.deviceId = device
      · subst hjoined
        exact .inr ⟨id, rfl⟩
      · have hkept : a.memberships[device]? = some m := by
          simpa [insertMembership, insertDeviceRecord, Membership.joined, hjoined] using hm
        exact .inl ⟨m, hkept, hstatus⟩
    | @deviceRoleChanged id newRole m' howner hm' hactive hlast =>
      left
      simp only [modifyMembership, BTreeMap.lookup_modify] at hm
      split at hm
      · rename_i heq
        subst heq
        exact ⟨m', hm', hactive⟩
      · exact ⟨m, hm, hstatus⟩
    | @deviceRemoved id m' howner hm' hactive hlast =>
      left
      rw [memberships_removeDevice] at hm
      split at hm
      · rename_i heq
        subst heq
        exact ⟨m', hm', hactive⟩
      · exact ⟨m, hm, hstatus⟩
    | restrictedKeyGranted => exact .inl ⟨m, hm, hstatus⟩
    | restrictedKeyRevoked => exact .inl ⟨m, hm, hstatus⟩

end Members

/-! ### The contract -/

section Contract

variable (ι : Type)

/-- A pending request of a member is due to be removed by a handler, and only
the holder of the lock changes the members. -/
def memberContract : Contract ι (Noted ι) where
  inv s := (∀ w (id : JoinRequestId) (r : DeviceJoinRequest), (s.1.joinRequests w)[id]? = some r → r.requestId = id) ∧
    ∀ w (id : JoinRequestId) (r : DeviceJoinRequest), (s.1.joinRequests w)[id]? = some r →
      (s.1.accessState w).isActiveMember r.device.deviceId = true →
        ∃ j, (s.2 j).due = some (w, id, r.device.deviceId)
  guar i s s' := (∀ j, j ≠ i → s'.2 j = s.2 j) ∧ ∀ j, j ≠ i → s.1.accessEventLock = some j →
    s'.1.accessEventLock = some j ∧ s'.1.accessStates = s.1.accessStates
  idle i s := (s.2 i).due = none

variable {ι} [DecidableEq ι] {E : ServerEnv} {i : ι}

/-- The server, as it is observed in timely runs. -/
abbrev timelySem (E : ServerEnv) (i : ι) (o : ServerOp) (s : Noted ι) (r : ServerResult o.Val) (s' : Noted ι) : Prop :=
  ((timelyServer ι E).observed note).sem i o s r s'

/-- The calls that leave the members, and what the handler is due to remove. -/
def Harmless : ServerOp → Prop
  | .saveAccessState .. | .removeJoinRequest .. | .lockAccessEvents | .unlockAccessEvents => False
  | _ => True

theorem note_harmless {o : ServerOp} {r : ServerResult o.Val} {n : Note} (ho : Harmless o) :
    (note o r n).due = n.due := by
  cases o with
  | saveAccessState | removeJoinRequest | lockAccessEvents | unlockAccessEvents => exact ho.elim
  | getJoinRequest w id =>
    cases r with
    | ok found => rfl
    | error e => rfl
  | _ => rfl

omit [DecidableEq ι] in
/-- What is pending after a harmless call was pending, or was stored by it. -/
theorem harmless_serves {c : Crypto} {o : ServerOp} {s s' : ServerState ι} {r : ServerResult o.Val}
    (ho : Harmless o) (h : s.Serves c i o r s') :
    s'.accessStates = s.accessStates ∧ s'.accessEventLock = s.accessEventLock ∧
      ∀ w (id : JoinRequestId) (request : DeviceJoinRequest), (s'.joinRequests w)[id]? = some request →
        (s.joinRequests w)[id]? = some request ∨
          (o = .submitJoinRequest w request ∧ request.requestId = id ∧ (s.joinRequests w)[id]? = none) := by
  obtain ⟨_, hperform | ⟨_, _, rfl⟩ | hother⟩ := h
  · have hs' : s' = (s.perform c i o).2 := congrArg Prod.snd hperform
    subst hs'
    cases o with
    | saveAccessState | removeJoinRequest | lockAccessEvents | unlockAccessEvents => exact ho.elim
    | submitJoinRequest w' request' =>
      simp only [ServerState.perform, ServerState.submitJoinRequest]
      split
      · exact ⟨rfl, rfl, fun _ _ _ hr => .inl hr⟩
      · split
        · rename_i hgone
          refine ⟨rfl, rfl, fun w id request hr => ?_⟩
          by_cases hw : w = w'
          · subst hw
            simp only [Function.update_self, BTreeMap.lookup_insert] at hr
            split at hr
            · rename_i heq
              cases hr
              subst heq
              exact .inr ⟨rfl, rfl, hgone⟩
            · exact .inl hr
          · simp only [Function.update_of_ne hw] at hr
            exact .inl hr
        · exact ⟨rfl, rfl, fun _ _ _ hr => .inl hr⟩
    | putKeyEnvelope w' k d b =>
      simp only [ServerState.perform, ServerState.putKeyEnvelope]
      split <;> exact ⟨rfl, rfl, fun _ _ _ hr => .inl hr⟩
    | _ => exact ⟨rfl, rfl, fun _ _ _ hr => .inl hr⟩
  · exact ⟨rfl, rfl, fun _ _ _ hr => .inl hr⟩
  · split at hother
    · rw [hother.2]
      exact ⟨rfl, rfl, fun _ _ _ hr => .inl hr⟩
    · rw [hother.2]
      exact ⟨rfl, rfl, fun _ _ _ hr => .inl hr⟩
    · exact hother.elim

/-- A harmless call keeps the contract, and what the handler is due to do. -/
theorem harmless_keeps {o : ServerOp} {s s' : Noted ι} {r : ServerResult o.Val} (ho : Harmless o)
    (hinv : (memberContract ι).inv s) (h : timelySem E i o s r s') :
    (memberContract ι).inv s' ∧ (memberContract ι).guar i s s' ∧ (s'.2 i).due = (s.2 i).due ∧
      s'.1.accessEventLock = s.1.accessEventLock ∧ s'.1.accessStates = s.1.accessStates := by
  obtain ⟨⟨⟨hserves, _⟩, hcurrent, _⟩, hnotes⟩ := h
  obtain ⟨hstates, hlock, hpending⟩ := harmless_serves ho hserves
  have hdue (j : ι) : (s'.2 j).due = (s.2 j).due := by
    rw [hnotes]
    by_cases hj : j = i
    · subst hj
      rw [Function.update_self]
      exact note_harmless ho
    · rw [Function.update_of_ne hj]
  have hstate (w : WorkspaceId) : s'.1.accessState w = s.1.accessState w := by
    unfold ServerState.accessState
    rw [hstates]
  refine ⟨⟨fun w id request hr => ?_, fun w id request hr hactive => ?_⟩, ⟨fun j hj => ?_, fun j _ hj => ?_⟩,
    hdue i, hlock, hstates⟩
  · rcases hpending w id request hr with hr | ⟨_, hfiled, _⟩
    · exact hinv.1 w id request hr
    · exact hfiled
  · rw [hstate] at hactive
    rcases hpending w id request hr with hr | ⟨rfl, rfl, hgone⟩
    · obtain ⟨j, hj⟩ := hinv.2 w id request hr hactive
      exact ⟨j, (hdue j).trans hj⟩
    · rw [hcurrent w request rfl hgone] at hactive
      cases hactive
  · rw [hnotes, Function.update_of_ne hj]
  · exact ⟨hlock.trans hj, hstates⟩

theorem Basic.harmless {o : ServerOp} (ho : Basic o) : Harmless o := by
  cases o <;> trivial

/-! ### Assertions -/

/-- What the handler is due to remove. -/
def IsDue (i : ι) (due : Option (WorkspaceId × JoinRequestId × DeviceId)) (s : Noted ι) : Prop := (s.2 i).due = due

/-- The lock of events is held. -/
def Holds (i : ι) (due : Option (WorkspaceId × JoinRequestId × DeviceId)) (s : Noted ι) : Prop :=
  s.1.accessEventLock = some i ∧ IsDue i due s

section Stable

variable {due : Option (WorkspaceId × JoinRequestId × DeviceId)}

omit [DecidableEq ι]

theorem stable_isDue : (memberContract ι).Stable i (IsDue i due) := by
  intro j hj s s' _ _ hguar h
  unfold IsDue
  rw [hguar.1 i (Ne.symm hj)]
  exact h

theorem stable_holds : (memberContract ι).Stable i (Holds i due) := by
  intro j hj s s' hinv hinv' hguar h
  exact ⟨(hguar.2 i (Ne.symm hj) h.1).1, stable_isDue j hj s s' hinv hinv' hguar h.2⟩

/-- Under the lock, the members of a workspace are as they were read. -/
theorem stable_read {w : WorkspaceId} {a : AccessState} :
    (memberContract ι).Stable i fun s => Holds i due s ∧ s.1.accessState w = a := by
  intro j hj s s' hinv hinv' hguar h
  refine ⟨stable_holds j hj s s' hinv hinv' hguar h.1, ?_⟩
  unfold ServerState.accessState
  rw [(hguar.2 i (Ne.symm hj) h.1.1).2]
  exact h.2

end Stable

/-- A proof outline of a handler in timely runs. -/
abbrev Timely {α : Type} (E : ServerEnv) (i : ι) (err pre : Noted ι → Prop) (x : Handler α)
    (post : α → Noted ι → Prop) : Prop := Outlined (memberContract ι) (timelySem E) i err pre x post

/-- What a join event of a workspace makes due. -/
def dueFor (w : WorkspaceId) (e : SignedAccessEvent) : Option (WorkspaceId × JoinRequestId × DeviceId) :=
  (joins e).map fun (id, device) => (w, id, device)

/-! ### Events -/

/-- An event that was applied under the lock is saved, and its removal is due. -/
theorem saveAccessState_timely {w : WorkspaceId} {a a' : AccessState} {e : SignedAccessEvent}
    (hmanage : e.event.requiredPermission ≠ none) (happly : (applyVerifiedEvent E.crypto e).exec a = (.ok (), a')) :
    Timely E i (Holds i none) (fun s => Holds i none s ∧ s.1.accessState w = a) (call (.saveAccessState w a' e))
      fun _ => Holds i (dueFor w e) := by
  refine Outlined.op stable_read (fun s r s' hinv hp hsem => ?_) (fun _ => stable_holds) stable_holds
  obtain ⟨⟨hlock, hfree⟩, hread⟩ := hp
  obtain ⟨⟨⟨_, hworks⟩, _, hsole⟩, hnotes⟩ := hsem
  have hothers (j : ι) (hj : j ≠ i) : s'.2 j = s.2 j := by
    rw [hnotes, Function.update_of_ne hj]
  have hguar (h : s'.1.accessEventLock = some i) : (memberContract ι).guar i s s' := by
    refine ⟨hothers, fun j hj hheld => ?_⟩
    rw [hlock] at hheld
    exact absurd (Option.some.inj hheld).symm hj
  rcases hworks with hperform | hfalse
  · simp only [ServerState.perform, ServerState.saveAccessState] at hperform
    split at hperform
    · obtain ⟨rfl, hs'⟩ := Prod.mk.inj hperform
      have hnote : s' = s := by
        refine Prod.ext hs' (hnotes.trans ?_)
        funext j
        by_cases hj : j = i
        · subst hj
          rw [Function.update_self]
          rfl
        · rw [Function.update_of_ne hj]
      rw [hnote]
      exact ⟨hinv, ⟨fun _ _ => rfl, fun _ _ hj => ⟨hj, rfl⟩⟩, hlock, hfree⟩
    · obtain ⟨rfl, hs'⟩ := Prod.mk.inj hperform
      have hlock' : s'.1.accessEventLock = some i := by
        rw [hs']
        exact hlock
      have hdue : IsDue i (dueFor w e) s' := by
        unfold IsDue
        rw [hnotes, Function.update_self]
        rfl
      have hqueue : s'.1.joinRequests = s.1.joinRequests := by
        rw [hs']
      refine ⟨⟨fun w' id request hr => ?_, fun w' id request hr hactive => ?_⟩, hguar hlock', hlock', hdue⟩
      · rw [hqueue] at hr
        exact hinv.1 w' id request hr
      · rw [hqueue] at hr
        -- who was a member before has his request removed by another handler
        have hbefore (h : (s.1.accessState w').isActiveMember request.device.deviceId = true) :
            ∃ j, (s'.2 j).due = some (w', id, request.device.deviceId) := by
          obtain ⟨j, hj⟩ := hinv.2 w' id request hr h
          have hne : j ≠ i := by
            intro heq
            rw [heq, hfree] at hj
            cases hj
          exact ⟨j, by rw [hothers j hne]; exact hj⟩
        by_cases hw : w' = w
        · subst hw
          have hstate : s'.1.accessState w' = a' := by
            rw [hs']
            simp [ServerState.accessState]
          rw [hstate] at hactive
          rcases admitted hmanage happly hactive with hold | ⟨id', hjoins⟩
          · rw [← hread] at hold
            exact hbefore hold
          · have hsame := hsole w' a' e id' _ rfl hjoins id request hr rfl
            refine ⟨i, hdue.trans ?_⟩
            unfold dueFor
            rw [hjoins, hsame]
            rfl
        · have hstate : s'.1.accessState w' = s.1.accessState w' := by
            rw [hs']
            simp [ServerState.accessState, Function.update_of_ne hw]
          rw [hstate] at hactive
          exact hbefore hactive
  · exact hfalse.elim

theorem applyLocked_timely {w : WorkspaceId} {e : SignedAccessEvent} (hmanage : e.event.requiredPermission ≠ none) :
    Timely E i (Holds i none) (Holds i none) (applyLocked E.crypto w e) fun _ => Holds i (dueFor w e) := by
  unfold applyLocked
  refine Outlined.check_bind stable_holds (fun _ _ h => h) fun _ _ => ?_
  have hread : Timely E i (Holds i none) (Holds i none) (call (.getAccessState w)) fun (a : AccessState) s =>
      Holds i none s ∧ s.1.accessState w = a := by
    refine Outlined.op stable_holds (fun s r s' hinv hp hsem => ?_) (fun _ => stable_read) stable_holds
    obtain ⟨hinv', hguar, hdue, hlock, hstates⟩ := harmless_keeps (o := .getAccessState w) trivial hinv hsem
    refine ⟨hinv', hguar, ?_⟩
    have hheld : Holds i none s' := ⟨hlock.trans hp.1, hdue.trans hp.2⟩
    rcases hsem.1.1.2 with hperform | hfalse
    · obtain ⟨rfl, hs'⟩ := Prod.mk.inj hperform
      refine ⟨hheld, ?_⟩
      rw [hs']
    · exact hfalse.elim
  refine Outlined.bind hread stable_holds fun (a : AccessState) => ?_
  refine Outlined.check_bind stable_read (fun _ _ h => h.1) fun actor _ => ?_
  refine Outlined.check_bind stable_read (fun _ _ h => h.1) fun _ _ => ?_
  refine Outlined.check_bind stable_read (fun _ _ h => h.1) fun _ happlied => ?_
  have happly : (applyVerifiedEvent E.crypto e).exec a = (.ok (), ((applyVerifiedEvent E.crypto e).exec a).2) :=
    Prod.ext (Except.mapError_ok.mp happlied) rfl
  refine Outlined.bind (saveAccessState_timely hmanage happly) stable_holds fun _ => ?_
  exact Outlined.pure stable_holds fun _ _ h => h

omit [DecidableEq ι] in
/-- Where only locks changed. -/
theorem inv_of_same {s s' : Noted ι} (hinv : (memberContract ι).inv s)
    (hqueue : s'.1.joinRequests = s.1.joinRequests) (hstates : s'.1.accessStates = s.1.accessStates)
    (hnotes : s'.2 = s.2) : (memberContract ι).inv s' := by
  refine ⟨fun w id r hr => ?_, fun w id r hr hactive => ?_⟩
  · rw [hqueue] at hr
    exact hinv.1 w id r hr
  · rw [hqueue] at hr
    unfold ServerState.accessState at hactive
    rw [hstates] at hactive
    rw [hnotes]
    exact hinv.2 w id r hr hactive

theorem verifyAndApplyAccessEvent_timely {w : WorkspaceId} {e : SignedAccessEvent}
    (hmanage : e.event.requiredPermission ≠ none) :
    Timely E i (IsDue i none) (IsDue i none) (verifyAndApplyAccessEvent E.crypto w e) fun _ =>
      IsDue i (dueFor w e) := by
  refine Outlined.withLock stable_isDue stable_isDue ?_ (applyLocked_timely hmanage) ?_ (fun out => ?_) fun out => ?_
  · intro s r s' hinv hp hsem
    obtain ⟨⟨⟨⟨hfree, _⟩, hworks⟩, _⟩, hnotes⟩ := hsem
    have hnote : s'.2 = s.2 := hnotes.trans (Function.update_eq_self i s.2)
    rcases hworks with hperform | hfalse
    · obtain ⟨rfl, hs'⟩ := Prod.mk.inj hperform
      refine ⟨inv_of_same hinv ?_ ?_ hnote, ⟨fun j _ => by rw [hnote], fun j _ hj => ?_⟩, ?_, ?_⟩
      · rw [hs']
      · rw [hs']
      · rw [show s.1.accessEventLock = none from hfree] at hj
        cases hj
      · rw [hs']
      · unfold IsDue
        rw [hnote]
        exact hp
    · exact hfalse.elim
  · intro out s r s' hinv hin hsem
    obtain ⟨⟨⟨_, hworks⟩, _⟩, hnotes⟩ := hsem
    have hnote : s'.2 = s.2 := hnotes.trans (Function.update_eq_self i s.2)
    have hlock : s.1.accessEventLock = some i := by
      cases out <;> exact hin.1
    rcases hworks with hperform | hfalse
    · obtain ⟨rfl, hs'⟩ := Prod.mk.inj hperform
      refine ⟨inv_of_same hinv ?_ ?_ hnote, ⟨fun j _ => by rw [hnote], fun j hj hheld => ?_⟩, ?_⟩
      · rw [hs']
      · rw [hs']
      · rw [hlock] at hheld
        exact absurd (Option.some.inj hheld).symm hj
      · have hdue {due : Option (WorkspaceId × JoinRequestId × DeviceId)} (h : IsDue i due s) : IsDue i due s' := by
          unfold IsDue
          rw [hnote]
          exact h
        cases out with
        | ok st => exact hdue hin.2
        | error err => exact hdue hin.2
    · exact hfalse.elim
  · cases out <;> exact stable_holds
  · cases out <;> exact stable_isDue

/-! ### Requests -/

/-- What is due is removed. -/
theorem removeJoinRequest_timely {w : WorkspaceId} {id : JoinRequestId} {device : DeviceId} :
    Timely E i (IsDue i none) (IsDue i (some (w, id, device))) (call (.removeJoinRequest w id)) fun _ =>
      IsDue i none := by
  refine Outlined.op stable_isDue (fun s r s' hinv hp hsem => ?_) (fun _ => stable_isDue) stable_isDue
  obtain ⟨⟨⟨_, hworks⟩, _⟩, hnotes⟩ := hsem
  rcases hworks with hperform | hfalse
  · obtain ⟨rfl, hs'⟩ := Prod.mk.inj hperform
    have hothers (j : ι) (hj : j ≠ i) : s'.2 j = s.2 j := by
      rw [hnotes, Function.update_of_ne hj]
    have hshrinks (w' : WorkspaceId) (id' : JoinRequestId) (r : DeviceJoinRequest)
        (hr : (s'.1.joinRequests w')[id']? = some r) :
        (s.1.joinRequests w')[id']? = some r ∧ ¬ (w' = w ∧ id' = id) := by
      rw [hs'] at hr
      by_cases hw : w' = w
      · subst hw
        simp only [Function.update_self, BTreeMap.lookup_erase] at hr
        split at hr
        · cases hr
        · rename_i hid
          exact ⟨hr, fun h => hid h.2.symm⟩
      · simp only [Function.update_of_ne hw] at hr
        exact ⟨hr, fun h => hw h.1⟩
    refine ⟨⟨fun w' id' r hr => hinv.1 w' id' r (hshrinks w' id' r hr).1, fun w' id' r hr hactive => ?_⟩,
      ⟨hothers, fun j _ hj => ?_⟩, ?_⟩
    · obtain ⟨hpending, hother⟩ := hshrinks w' id' r hr
      rw [hs'] at hactive
      obtain ⟨j, hj⟩ := hinv.2 w' id' r hpending hactive
      have hne : j ≠ i := by
        intro heq
        rw [heq, hp] at hj
        cases hj
        exact hother ⟨rfl, rfl⟩
      exact ⟨j, by rw [hothers j hne]; exact hj⟩
    · rw [hs']
      exact ⟨hj, rfl⟩
    · change (s'.2 i).due = none
      rw [hnotes, Function.update_self]
      rfl
  · exact hfalse.elim

/-- A program of harmless calls leaves what is due. -/
theorem harmless_outline {α : Type} {x : Handler α} {due : Option (WorkspaceId × JoinRequestId × DeviceId)}
    (hx : Calls Harmless x) : Timely E i (IsDue i due) (IsDue i due) x fun _ => IsDue i due := by
  have hout : Outline (memberContract ι) (timelySem E) i (fun _ => IsDue i due) (IsDue i due) x.run := by
    refine Prog.Calls.outline stable_isDue (fun o s r s' ho hinv hp hsem => ?_) hx
    obtain ⟨hinv', hguar, hdue, _⟩ := harmless_keeps ho hinv hsem
    exact ⟨hinv', hguar, hdue.trans hp⟩
  refine Outline.weaken_post hout fun r s _ h => ?_
  cases r <;> exact h

theorem applyJoinEvent_timely {w : WorkspaceId} {id : JoinRequestId} {e : SignedAccessEvent} :
    Timely E i (IsDue i none) (IsDue i none) (applyJoinEvent E.crypto w id e) fun _ => IsDue i none := by
  unfold applyJoinEvent
  have hstable (found : Option DeviceJoinRequest) : (memberContract ι).Stable i fun s =>
      IsDue i none s ∧ ∀ r : DeviceJoinRequest, found = some r → r.requestId = id :=
    stable_isDue.and Contract.stable_const
  have hread : Timely E i (IsDue i none) (IsDue i none) (call (.getJoinRequest w id))
      fun (found : Option DeviceJoinRequest) s => IsDue i none s ∧
        ∀ r : DeviceJoinRequest, found = some r → r.requestId = id := by
    refine Outlined.op stable_isDue (fun s r s' hinv hp hsem => ?_) hstable stable_isDue
    obtain ⟨hinv', hguar, hdue, _⟩ := harmless_keeps (o := .getJoinRequest w id) trivial hinv hsem
    refine ⟨hinv', hguar, ?_⟩
    rcases hsem.1.1.2 with hperform | hfalse
    · obtain ⟨rfl, _⟩ := Prod.mk.inj hperform
      exact ⟨hdue.trans hp, fun r hr => hinv.1 w id r hr⟩
    · exact hfalse.elim
  refine Outlined.bind hread stable_isDue fun (found : Option DeviceJoinRequest) => ?_
  refine Outlined.assume (hstable found) (fun _ _ h => h.2) fun hfiled => ?_
  refine Outlined.weaken ?_ (hstable found) fun _ _ h => h.1
  refine Outlined.check_bind stable_isDue (fun _ _ h => h) fun pending hfound => ?_
  refine Outlined.check_bind stable_isDue (fun _ _ h => h) fun _ _ => ?_
  refine Outlined.check_bind stable_isDue (fun _ _ h => h) fun _ hmatches => ?_
  obtain ⟨⟨role, hevent⟩, _⟩ := SignedAccessEvent.verifyJoinRequest_ok.mp (Except.mapError_ok.mp hmatches)
  rw [hfiled pending (okOr_ok.mp hfound)] at hevent
  have hmanage : e.event.requiredPermission ≠ none := by
    rw [hevent]
    exact Option.some_ne_none _
  have hdue : dueFor w e = some (w, id, pending.device.deviceId) := by
    unfold dueFor joins
    rw [hevent]
    rfl
  refine Outlined.bind (verifyAndApplyAccessEvent_timely hmanage) stable_isDue fun _ => ?_
  rw [hdue]
  refine Outlined.bind removeJoinRequest_timely stable_isDue fun _ => ?_
  exact Outlined.pure stable_isDue fun _ _ h => h

/-! ### Handlers -/

theorem authenticate_timely {w : WorkspaceId} {permission : WorkspacePermission} {http : HttpRequest} :
    Timely E i (IsDue i none) (IsDue i none) (authenticate E w permission http) fun _ => IsDue i none :=
  harmless_outline (authenticate_basic.mono fun _ => Basic.harmless)

theorem approveJoinRequest_timely {w : WorkspaceId} {id : JoinRequestId} {http : HttpRequest} :
    Timely E i (IsDue i none) (IsDue i none) (approveJoinRequest E w id http) fun _ => IsDue i none := by
  unfold approveJoinRequest approveJoinRequestAs
  refine Outlined.check_bind stable_isDue (fun _ _ h => h) fun _ _ => ?_
  refine Outlined.check_bind stable_isDue (fun _ _ h => h) fun request _ => ?_
  refine Outlined.check_bind stable_isDue (fun _ _ h => h) fun _ _ => ?_
  refine Outlined.bind authenticate_timely stable_isDue fun _ => ?_
  exact Outlined.check_bind stable_isDue (fun _ _ h => h) fun _ _ => applyJoinEvent_timely

theorem applyAccessEvent_timely {w : WorkspaceId} {http : HttpRequest} :
    Timely E i (IsDue i none) (IsDue i none) (applyAccessEvent E w http) fun _ => IsDue i none := by
  unfold applyAccessEvent applyAccessEventAs
  refine Outlined.check_bind stable_isDue (fun _ _ h => h) fun _ _ => ?_
  refine Outlined.check_bind stable_isDue (fun _ _ h => h) fun e _ => ?_
  refine Outlined.check_bind stable_isDue (fun _ _ h => h) fun permission hpermission => ?_
  refine Outlined.bind authenticate_timely stable_isDue fun _ => ?_
  refine Outlined.check_bind stable_isDue (fun _ _ h => h) fun _ _ => ?_
  have hmanage : e.event.requiredPermission ≠ none := by
    rw [okOr_ok.mp hpermission]
    exact Option.some_ne_none _
  split
  · exact applyJoinEvent_timely
  · rename_i hother
    have hnone : dueFor w e = none := by
      unfold dueFor joins
      split
      · rename_i id device role he
        exact absurd he (hother id device role)
      · rfl
    have happly := verifyAndApplyAccessEvent_timely (ι := ι) (E := E) (i := i) (w := w) hmanage
    rw [hnone] at happly
    exact happly

theorem submitJoinRequest_harmless {w : WorkspaceId} {http : HttpRequest} :
    Calls Harmless (submitJoinRequest E w http) := by
  unfold submitJoinRequest
  refine Calls.check_bind fun _ => Calls.check_bind fun request => Calls.check_bind fun _ => ?_
  refine (signature_basic.mono fun _ => Basic.harmless).bind fun _ => Calls.withLock trivial trivial ?_
  unfold submitLocked
  refine Calls.op_bind trivial fun _ => Calls.check_bind fun _ => Calls.check_bind fun _ => ?_
  refine Calls.op_bind trivial fun (existing : Option DeviceJoinRequest) => ?_
  split
  · exact Calls.op_bind trivial fun _ => Calls.check _
  · refine Calls.op_bind trivial fun (pending : List DeviceJoinRequest) => ?_
    split
    · exact Calls.pure _
    · exact Calls.check_bind fun _ => Calls.op_bind trivial fun _ => Calls.check _

/-- A handler that is finished has nothing left to remove. -/
theorem handle_timely (q : AccessRequest) :
    Timely E i (IsDue i none) (IsDue i none) (q.handle E) fun _ => IsDue i none := by
  cases q with
  | submitJoinRequest w http => exact harmless_outline (Calls.map submitJoinRequest_harmless)
  | approveJoinRequest w id http =>
    exact Outlined.map approveJoinRequest_timely stable_isDue (fun _ => stable_isDue) fun _ _ _ h => h
  | applyAccessEvent w http =>
    exact Outlined.map applyAccessEvent_timely stable_isDue (fun _ => stable_isDue) fun _ _ _ h => h
  | putKeyEnvelope | fetchKeyEnvelope | listJoinRequests | fetchAccessState =>
    refine harmless_outline (Calls.mono (fun _ => Basic.harmless) (handle_basic ?_))
    trivial

theorem timelyServer_kept : (memberContract ι).Kept ((timelyServer ι E).observed note) fun _ i _ => IsDue i none := by
  refine ⟨fun _ => stable_isDue, fun q i => Outline.weaken_post (handle_timely q) fun r s _ h => ?_⟩
  cases r <;> exact h

end Contract

/-! ### Settled queues -/

section Settled

variable {ι : Type} [DecidableEq ι]

/-- No member has a pending request. -/
def Settled (s : ServerState ι) : Prop :=
  ∀ w (id : JoinRequestId) (r : DeviceJoinRequest), (s.joinRequests w)[id]? = some r →
    (s.accessState w).isActiveMember r.device.deviceId = false

/-- Every request is filed under its id. -/
def Filed (s : ServerState ι) : Prop :=
  ∀ w (id : JoinRequestId) (r : DeviceJoinRequest), (s.joinRequests w)[id]? = some r → r.requestId = id

/-- Every handler that was started is finished. -/
def Finished {Req Res : Type} {S : Signature} {σ : Type} (cfg : Config ι S σ Req Res) : Prop :=
  ∀ i q p, cfg.thread i = some (q, p) → ∃ a, p = .done a

/-- **No member has a pending request** once all handlers of a timely run are
finished. -/
theorem no_pending_members (E : ServerEnv) {s₀ : ServerState ι} (hfiled : Filed s₀) (hsettled : Settled s₀)
    {cfg : Config ι Sig (ServerState ι) AccessRequest (ServerResult AccessResponse)}
    (h : (timelyServer ι E).Reachable s₀ cfg) (hfinished : Finished cfg) : Settled cfg.shared := by
  obtain ⟨g, hobserved⟩ := h.observed note blank
  have hinit : (memberContract ι).inv (s₀, blank) := by
    refine ⟨hfiled, fun w id r hr hactive => ?_⟩
    rw [hsettled w id r hr] at hactive
    cases hactive
  obtain ⟨hinv, hidle, hpost⟩ := Contract.reachable hinit (fun _ => rfl) timelyServer_kept hobserved
  intro w id r hr
  by_contra hactive
  obtain ⟨j, hj⟩ := hinv.2 w id r hr (eq_true_of_ne_false hactive)
  -- the handler that is due to remove the request is not finished
  have hnone : (g j).due = none := by
    cases hthread : cfg.thread j with
    | none => exact hidle j hthread
    | some started =>
      obtain ⟨q, p⟩ := started
      obtain ⟨a, rfl⟩ := hfinished j q p hthread
      exact hpost j q a hthread
  rw [hnone] at hj
  cases hj

end Settled

/-! ### A submission that overlaps an approval

A device asks to join, and asks again under a second id. The second submission
does not find the device among the members; the first request is approved and
removed, and the second submission finds nothing pending. -/

section Sample

open Codec

def pendingRun : Option Cfg := do
  let server := faultlessServer ℕ queueEnv
  let run := ServerState.attempt queueEnv.crypto
  let queued ← server.serve run 0 (submission sampleRequestId sampleDeviceId sampleNonce) ⟨sampleServer, fun _ => none⟩
  let started ← server.begin 1 (submission otherRequestId sampleDeviceId otherNonce) queued
  let looked ← Machine.schedule run (List.replicate 4 1) started
  let approved ← server.serve run 2 approval looked
  Machine.schedule run (List.replicate 4 1) approved

theorem works_of_attempt {c : Crypto} {i : ℕ} {o : ServerOp} {s : ServerState ℕ} {r : ServerResult o.Val}
    {s' : ServerState ℕ} (h : s.attempt c i o = some (r, s')) : Works c i o s r s' := by
  left
  unfold ServerState.attempt at h
  split at h
  · split at h
    · exact (Option.some.inj h).symm
    · cases h
  · split at h
    · exact (Option.some.inj h).symm
    · cases h
  · exact (Option.some.inj h).symm

theorem faultless_of_attempt {E : ServerEnv} (i : ℕ) (o : ServerOp) (s : ServerState ℕ) (r : ServerResult o.Val)
    (s' : ServerState ℕ) (h : s.attempt E.crypto i o = some (r, s')) : (faultlessServer ℕ E).sem i o s r s' :=
  ⟨runs_of_attempt i o s r s' h, works_of_attempt h⟩

theorem pendingRun_reachable {cfg : Cfg} (h : pendingRun = some cfg) :
    (faultlessServer ℕ queueEnv).Reachable sampleServer cfg := by
  simp only [pendingRun, Option.bind_eq_bind, Option.bind_eq_some_iff] at h
  obtain ⟨queued, hqueued, started, hbegin, looked, hlooked, approved, happroved, hlast⟩ := h
  have hreach : (faultlessServer ℕ queueEnv).Reachable sampleServer looked :=
    ((Machine.Reachable.serve faultless_of_attempt .refl hqueued).begin hbegin).schedule faultless_of_attempt hlooked
  exact (hreach.serve faultless_of_attempt happroved).schedule faultless_of_attempt hlast

/-- The device is a member, with a pending request, and three handlers are
finished. -/
def pendingOutcome (cfg : Cfg) : Bool :=
  (cfg.shared.joinRequests sampleWorkspace)[otherRequestId]? = some (joinOf otherRequestId sampleDeviceId) ∧
    (cfg.shared.accessState sampleWorkspace).isActiveMember sampleDeviceId = true ∧
    (List.range 3).all (fun i => match cfg.thread i with
      | some (_, .done _) => true
      | _ => false) = true

theorem pendingRun_outcome : pendingRun.map pendingOutcome = some true := by
  decide +kernel

/-- Of a run of three threads, all of them finished. -/
theorem finished_three {cfg : Cfg} (hidle : ∀ i, 3 ≤ i → cfg.thread i = none)
    (hdone : (List.range 3).all (fun i => match cfg.thread i with
      | some (_, .done _) => true
      | _ => false) = true) : Finished cfg := by
  intro i q p hi
  by_cases hlt : i < 3
  · have hat := List.all_eq_true.mp hdone i (List.mem_range.mpr hlt)
    rw [hi] at hat
    cases p with
    | done a => exact ⟨a, rfl⟩
    | call o k => cases hat
  · rw [hidle i (by omega)] at hi
    cases hi

/-- A member has a pending request, after a run without faults in which every
handler is finished. -/
theorem pending_member : ∃ cfg : Cfg, (faultlessServer ℕ queueEnv).Reachable sampleServer cfg ∧ Finished cfg ∧
    ¬ Settled cfg.shared := by
  obtain ⟨cfg, hcfg, hout⟩ := Option.map_eq_some_iff.mp pendingRun_outcome
  obtain ⟨hpending, hactive, hdone⟩ := of_decide_eq_true hout
  refine ⟨cfg, pendingRun_reachable hcfg, finished_three (fun i hi => ?_) hdone, fun hsettled => ?_⟩
  · simp only [pendingRun, Option.bind_eq_bind, Option.bind_eq_some_iff] at hcfg
    obtain ⟨queued, hqueued, started, hbegin, looked, hlooked, approved, happroved, hlast⟩ := hcfg
    have hnot : i ∉ List.replicate 4 1 := by
      intro hmem
      have := List.eq_of_mem_replicate hmem
      omega
    rw [Machine.schedule_other hlast hnot, Machine.serve_other happroved (by omega),
      Machine.schedule_other hlooked hnot, Machine.begin_other hbegin (by omega),
      Machine.serve_other hqueued (by omega)]
  · have hnone := hsettled sampleWorkspace _ _ hpending
    rw [show (joinOf otherRequestId sampleDeviceId).device.deviceId = sampleDeviceId from rfl, hactive] at hnone
    cases hnone

/-! A device asks to join and is approved, and its request is gone. -/

/-- Whether a call is current and sole. -/
def isTimely (o : ServerOp) (s : ServerState ℕ) : Bool :=
  match o with
  | .submitJoinRequest w r => !(s.accessState w).isActiveMember r.device.deviceId
  | .saveAccessState w _ cause =>
    match joins cause with
    | some (id, device) => (s.joinRequests w).toList.all fun (id', r) => r.device.deviceId ≠ device ∨ id' = id
    | none => true
  | _ => true

def timelyAttempt (c : Crypto) (i : ℕ) (o : ServerOp) (s : ServerState ℕ) :
    Option (ServerResult o.Val × ServerState ℕ) :=
  if isTimely o s then s.attempt c i o else none

theorem timely_of_attempt {E : ServerEnv} (i : ℕ) (o : ServerOp) (s : ServerState ℕ) (r : ServerResult o.Val)
    (s' : ServerState ℕ) (h : timelyAttempt E.crypto i o s = some (r, s')) : (timelyServer ℕ E).sem i o s r s' := by
  unfold timelyAttempt at h
  split at h
  · rename_i htimely
    refine ⟨faultless_of_attempt i o s r s' h, ?_, ?_⟩
    · rintro w request rfl _
      simpa [isTimely] using htimely
    · rintro w state cause id device rfl hjoins id' request hrequest hdevice
      simp only [isTimely, hjoins, List.all_eq_true, decide_eq_true_eq] at htimely
      have hat := htimely (id', request) (BTreeMap.mem_toList.mpr hrequest)
      exact hat.resolve_left (not_not.mpr hdevice)
  · cases h

def timelyRun : Option Cfg := do
  let server := timelyServer ℕ queueEnv
  let run := timelyAttempt queueEnv.crypto
  let queued ← server.serve run 0 (submission sampleRequestId sampleDeviceId sampleNonce) ⟨sampleServer, fun _ => none⟩
  server.serve run 1 approval queued

theorem timelyRun_outcome : timelyRun.map (fun cfg =>
    (cfg.shared.accessState sampleWorkspace).isActiveMember sampleDeviceId) = some true := by
  decide +kernel

/-- The device is a member, and has no pending request. -/
theorem approved_settled : ∃ cfg : Cfg, timelyRun = some cfg ∧
    (cfg.shared.accessState sampleWorkspace).isActiveMember sampleDeviceId = true ∧ Settled cfg.shared := by
  obtain ⟨cfg, hcfg, hactive⟩ := Option.map_eq_some_iff.mp timelyRun_outcome
  have hempty (w : WorkspaceId) (id : JoinRequestId) (r : DeviceJoinRequest) :
      (sampleServer.joinRequests w)[id]? ≠ some r := by
    have hnone : (sampleServer.joinRequests w)[id]? = none := Std.ExtTreeMap.getElem?_empty
    rw [hnone]
    exact fun h => nomatch h
  have hfiled : Filed sampleServer := fun w id r hr => absurd hr (hempty w id r)
  have hsettled : Settled sampleServer := fun w id r hr => absurd hr (hempty w id r)
  have hrun := hcfg
  simp only [timelyRun, Option.bind_eq_bind, Option.bind_eq_some_iff] at hrun
  obtain ⟨queued, hqueued, happroved⟩ := hrun
  have hreach : (timelyServer ℕ queueEnv).Reachable sampleServer cfg :=
    (Machine.Reachable.serve timely_of_attempt .refl hqueued).serve timely_of_attempt happroved
  refine ⟨cfg, hcfg, hactive, no_pending_members queueEnv hfiled hsettled hreach fun i q p hi => ?_⟩
  obtain ⟨a, ha⟩ := Machine.serve_done hqueued
  obtain ⟨a', ha'⟩ := Machine.serve_done happroved
  by_cases hone : i = 1
  · subst hone
    rw [ha'] at hi
    cases hi
    exact ⟨a', rfl⟩
  · rw [Machine.serve_other happroved hone] at hi
    by_cases hzero : i = 0
    · subst hzero
      rw [ha] at hi
      cases hi
      exact ⟨a, rfl⟩
    · rw [Machine.serve_other hqueued hzero] at hi
      cases hi

end Sample

end RustSync.JoinQueue
