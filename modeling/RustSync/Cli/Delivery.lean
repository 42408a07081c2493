/-
Delivery

Outlines of the clients, and what an `approve` command comes to: no event of it
was accepted, or another event was accepted between its approval and its
upload, or the envelope it sealed is stored (`approve_runs`). A delivered
envelope opens in every later state where its sender is still an active owner
(`approved_device_bootstraps`).
-/
import RustSync.Access.LaterStates
import RustSync.Cli.Enrolment

namespace RustSync

open Fallible AccessState

section Delivery

variable {E : ClientEnv} {ws : WorkspaceId} {w : LocalWorkspace E.crypto ws} {id : JoinRequestId}
  {x : Accepted} {record : DeviceRecord} {role : WorkspaceRole}
  {ι : Type} [DecidableEq ι] {a₀ : AccessState} {i : ι} {s s' : Shared ι}
  {err pre : Shared ι → Prop}

/-! ### Steps that change nothing -/

/-- Reading the clock. -/
theorem now_runs {P : Shared ι → Prop} (hP : (enrolmentContract E.crypto.toCrypto ws a₀).Stable i P)
    (herr : (enrolmentContract E.crypto.toCrypto ws a₀).Stable i err) :
    ClientRuns E ws a₀ i err P (Fallible.op ClientOp.now) fun (t : UnixTimestamp) s =>
      P s ∧ t.secs < 2 ^ 63 := by
  refine quiet_client (o := ClientOp.now) (fun _ _ _ => rfl) hP (fun t => hP.and Contract.stable_const) herr ?_
  intro s s' r hinv hp hanswers hlog
  obtain ⟨⟨t, rfl, ht⟩, hs⟩ := hanswers
  have hsame : s' = s := Prod.ext hs hlog
  rw [hsame]
  exact ⟨Settled.refl hinv.1, hp, ht⟩

/-- Drawing an ephemeral key and a nonce. -/
theorem random_runs {P : Shared ι → Prop} (hP : (enrolmentContract E.crypto.toCrypto ws a₀).Stable i P)
    (herr : (enrolmentContract E.crypto.toCrypto ws a₀).Stable i err) :
    ClientRuns E ws a₀ i err P (Fallible.op ClientOp.random) fun (_ : Key32 × EnvelopeNonce) s => P s := by
  refine quiet_client (o := ClientOp.random) (fun _ _ _ => rfl) hP (fun _ => hP) herr ?_
  intro s s' r hinv hp hanswers hlog
  obtain ⟨⟨drawn, rfl⟩, hs⟩ := hanswers
  have hsame : s' = s := Prod.ext hs hlog
  rw [hsame]
  exact ⟨Settled.refl hinv.1, hp⟩

/-! ### The upload -/

variable (w) in
/-- What is uploaded: the envelope the owner sealed at the approval, and its
JSON. -/
structure Ready (x : Accepted) (record : DeviceRecord) (envelope : KeyEnvelope) (doc : Serde.Doc) :
    Prop where
  isSealed : ∃ senderRecord, x.2.devices[w.identity.deviceId]? = some senderRecord ∧
    Sealed E.crypto x.2 systemKeyId w.generation w.key w.identity senderRecord record.activate envelope
  written : Serde.encode Codec.json (Codec.serKeyEnvelope envelope) = .ok doc

theorem Ready.names (happroved : Approved w id x record role) {envelope : KeyEnvelope} {doc : Serde.Doc}
    (h : Ready w x record envelope doc) : envelope.workspaceId = ws ∧ envelope.keyId = systemKeyId ∧
      envelope.recipientDeviceId = record.deviceId ∧ envelope.senderDeviceId = w.identity.deviceId := by
  obtain ⟨senderRecord, hdevice, hsealed⟩ := h.isSealed
  have hid := (happroved.wellFormed.device _ senderRecord hdevice).1
  exact ⟨hsealed.workspace.trans happroved.workspace, hsealed.key.1, hsealed.recipient_eq,
    hsealed.sender_eq.trans hid⟩

theorem Ready.decodes {envelope : KeyEnvelope} {doc : Serde.Doc} (h : Ready w x record envelope doc) :
    Codec.decodeKeyEnvelope doc = .ok envelope := by
  obtain ⟨_, _, doc', hdoc, hdecode⟩ := Codec.keyEnvelope_roundTrips envelope
  rw [h.written] at hdoc
  cases hdoc
  exact hdecode

omit [DecidableEq ι] in
/-- Where nothing was accepted since the approval, and nothing is stored, the
server stores the envelope. -/
theorem Ready.accepted (hc : E.crypto.Ideal) (happroved : Approved w id x record role)
    {envelope : KeyEnvelope} {doc : Serde.Doc} (h : Ready w x record envelope doc)
    {t : ServerState ι} (hstate : t.accessState ws = x.2)
    (hnone : t.keyEnvelopes ws systemKeyId record.deviceId = none) (body : Bytes) :
    Meets (ServerState.attempt E.crypto.toCrypto i)
      ((HttpCall.uploadKeyEnvelope w.identity.deviceId envelope body).handle E.crypto.toCrypto ws) t
      fun r _ => r = .ok .created := by
  obtain ⟨hws, hkey, hrecipient, hsender⟩ := h.names happroved
  obtain ⟨senderRecord, hdevice, hsealed⟩ := h.isSealed
  obtain ⟨senderRecord', hdevice', hactive, _, hvalid⟩ := happroved.sender
  rw [hdevice] at hdevice'
  cases hdevice'
  have hsigned := hsealed.verifySenderSignature hc w.generation_ne_zero rfl rfl hvalid
  have hpermission := happroved.permission
  obtain ⟨hactive', _⟩ := happroved.recipient
  rw [← hstate] at hactive hpermission hactive'
  rw [← hrecipient] at hactive'
  have hrecord : (t.accessState envelope.workspaceId).activeDeviceRecord envelope.recipientDeviceId =
      .ok record.activate := by
    rw [hws]
    exact hactive'
  refine uploadKeyEnvelope_created hsender.symm ?_ ?_ hrecord hsigned ?_ ?_
  · rw [hws]
    exact hactive
  · rw [hws]
    exact hpermission
  · rw [hws, hstate]
    exact hsealed.revision
  · rw [hws, hkey, hrecipient]
    exact hnone

/-- An envelope stored for a device of the client's keeps the contract. -/
theorem put_keeps (hinv : (enrolmentContract E.crypto.toCrypto ws a₀).inv s) (hwf : WellFormed E.crypto.toCrypto a₀)
    {device : DeviceId} {body : Bytes} (hjoins : Joins x device) (hx : x ∈ Log.eventsOf i s.2)
    (hnone : s.1.keyEnvelopes ws systemKeyId device = none)
    (hput : s'.1 = (s.1.putKeyEnvelope ws systemKeyId device body).2) (hlog : s'.2 = s.2) :
    (enrolmentContract E.crypto.toCrypto ws a₀).inv s' ∧ (enrolmentContract E.crypto.toCrypto ws a₀).guar i s s' ∧
      s'.1.keyEnvelopes ws systemKeyId device = some body := by
  obtain ⟨hlocks, hchain, hmembers⟩ := hinv
  have hstored : s'.1.keyEnvelopes ws systemKeyId = Function.update (s.1.keyEnvelopes ws systemKeyId) device
      (some body) := by
    funext d
    by_cases hd : d = device <;> simp [hput, ServerState.putKeyEnvelope, hnone, hd]
  have hrest : s'.1.accessState ws = s.1.accessState ws ∧ LocksFree s'.1 := by
    rw [hput, ServerState.putKeyEnvelope, hnone]
    exact ⟨rfl, hlocks⟩
  have hmember : ∃ m, (s.1.accessState ws).memberships[device]? = some m :=
    hchain.member hwf (List.mem_map.mpr ⟨(i, x), Log.mem_eventsOf.mp hx, rfl⟩) hjoins
  refine ⟨⟨hrest.2, ?_, fun d b hb => ?_⟩, ⟨⟨[], by simp [hlog]⟩, fun d => ?_⟩, ?_⟩
  · rw [hlog, hrest.1]
    exact hchain
  · rw [hrest.1]
    by_cases hd : d = device
    · rw [hd]
      exact hmember
    · rw [hstored, Function.update_of_ne hd] at hb
      exact hmembers d b hb
  · by_cases hd : d = device
    · subst hd
      exact .inr ⟨hnone, x, hx, hjoins⟩
    · rw [hstored, Function.update_of_ne hd]
      exact .inl rfl
  · rw [hstored, Function.update_self]

/-- The upload: the envelope is stored, or an event was accepted since the
approval. -/
theorem upload_runs (hc : E.crypto.Ideal) (hwf : WellFormed E.crypto.toCrypto a₀)
    (happroved : Approved w id x record role) {envelope : KeyEnvelope} {doc : Serde.Doc}
    (hready : Ready w x record envelope doc) :
    ClientRuns E ws a₀ i (Outcome w id i) (Undelivered ws x record.deviceId i)
      (send (.uploadKeyEnvelope w.identity.deviceId envelope (E.renderJson doc)))
      fun _ => Outcome w id i := by
  obtain ⟨hws, hkey, hrecipient, _⟩ := hready.names happroved
  refine Outlined.op (o := (⟨_, acceptedBy _⟩ : Committing (ServerState ι) ClientOp.Val ClientError Accepted))
    (stable_undelivered hwf happroved.joins) (fun s r s' hinv hp hsem => ?_) (fun _ => stable_outcome) stable_outcome
  have hlog' := log_of_unaccepting (fun _ _ _ => rfl) hsem
  obtain ⟨⟨response, hexec, rfl⟩, _⟩ := hsem
  obtain ⟨hevents, hnone⟩ := hp
  have hx : x ∈ Log.eventsOf i s.2 := by
    rw [hevents]
    exact List.mem_singleton.mpr rfl
  have hmeets := uploadKeyEnvelope_meets s.1 response s'.1 hexec
  rw [hws, hkey, hrecipient] at hmeets
  rcases hmeets with ⟨hsame, hok⟩ | ⟨_, hcreated, hput⟩
  · -- nothing was stored, so the request failed, and the state has moved on
    have hs : s' = s := Prod.ext hsame hlog'
    have hkept := Settled.keeps (i := i) (Settled.refl hinv.1) rfl hinv
    rw [hs]
    refine ⟨hkept.1, hkept.2, ?_⟩
    cases response with
    | ok a =>
      have hstored := hok a rfl
      rw [hnone] at hstored
      cases hstored
    | error e =>
      rcases overtaken_or_state hinv hevents with hover | hstate
      · exact .inr (.inl hover)
      · have haccepted := hready.accepted hc happroved hstate hnone _ _ _ hexec
        cases haccepted
  · obtain ⟨hinv', hguar, hstored⟩ := put_keeps hinv hwf happroved.joins hx hnone hput hlog'
    refine ⟨hinv', hguar, ?_⟩
    rw [hcreated]
    refine .inr (.inr (.inr ⟨x, record, role, doc, envelope, ?_, happroved, hstored, hready.written,
      hready.isSealed⟩))
    rw [hlog']
    exact hevents

/-! ### The command -/

/-- From the approval on. -/
theorem deliver_runs (hc : E.crypto.Ideal) (hwf : WellFormed E.crypto.toCrypto a₀)
    {event : SignedAccessEvent} {approved : AccessState}
    (happroved : Approved w id (event, approved) record role) :
    ClientRuns E ws a₀ i (Outcome w id i) (Undelivered ws (event, approved) record.deviceId i) (do
      check (saveAccessState E approved)
      let now : UnixTimestamp ← Fallible.op ClientOp.now
      let drawn : Key32 × EnvelopeNonce ← Fallible.op ClientOp.random
      let envelope ← check (sealDefaultKeyEnvelope E w approved record.deviceId now drawn.1 drawn.2)
      let body ← check (envelopeBody E envelope)
      let delivery : ObjectUploadResponse ←
        ExceptT.adapt (deliveryError id ws record.deviceId)
          (send (.uploadKeyEnvelope w.identity.deviceId envelope body))
      return (⟨record.deviceId, approved.revision, envelope.keyId, delivery⟩ : Approval))
      fun _ => Outcome w id i := by
  have hstable : (enrolmentContract E.crypto.toCrypto ws a₀).Stable i
      (Undelivered ws (event, approved) record.deviceId i) :=
    stable_undelivered hwf happroved.joins
  have hunfit (hx : Unfit w approved) (s : Shared ι) (h : Undelivered ws (event, approved) record.deviceId i s) :
      Outcome w id i s := by
    exact .inr (.inr (.inl ⟨(event, approved), h.1, hx⟩))
  refine Outlined.lift_check_cases hstable (fun e he s _ hp => ?_) fun _ _ => ?_
  · refine hunfit (by_contra fun hfit => ?_) s hp
    rw [happroved.save hfit] at he
    cases he
  refine Outlined.lift_bind (now_runs hstable stable_outcome) stable_outcome fun now => ?_
  refine Outlined.left ?_ Contract.stable_const
  refine Outlined.lift_bind (random_runs hstable stable_outcome) stable_outcome fun drawn => ?_
  refine Outlined.lift_check_cases hstable (fun e he s _ hp => ?_) fun envelope henvelope => ?_
  · refine hunfit (by_contra fun hfit => ?_) s hp
    obtain ⟨envelope, henvelope⟩ := happroved.seals hfit now drawn.1 drawn.2
    rw [henvelope] at he
    cases he
  obtain ⟨_, _, doc, hdoc, _⟩ := Codec.keyEnvelope_roundTrips envelope
  have hbody : envelopeBody E envelope = .ok (E.renderJson doc) := by
    rw [envelopeBody, hdoc]
    rfl
  refine Outlined.lift_check_ok hbody ?_
  refine Outlined.lift_bind (Outlined.adapt _ (upload_runs hc hwf happroved ⟨happroved.sealed henvelope, hdoc⟩)
    stable_outcome fun _ => stable_outcome) stable_outcome fun delivery => ?_
  exact Outlined.pure stable_outcome fun _ _ h => h

/-- The event `approve` sends. -/
theorem signedDeviceJoinedEvent_ok {joinRequest : DeviceJoinRequest} {revision : UInt64}
    {now : UnixTimestamp} {event : SignedAccessEvent}
    (h : signedDeviceJoinedEvent E ws w.identity joinRequest revision role now = .ok event) :
    event.event = .deviceJoined joinRequest.requestId joinRequest.device role ∧
      event.actorDeviceId = w.identity.deviceId ∧ event.workspaceId = ws ∧
      event.expectedRevision = revision ∧ event.createdAt = now := by
  simp only [signedDeviceJoinedEvent, Except.bind_ok, Except.mapError_ok] at h
  obtain ⟨_, _, _, _, heq⟩ := h
  cases heq
  exact ⟨rfl, rfl, rfl, rfl, rfl⟩

/-- What is sent at the revision of a saved state is accepted there or not at
all. -/
theorem approved_of_lands {a st : AccessState} {event : SignedAccessEvent} (hwf : WellFormed E.crypto.toCrypto a₀)
    (hinv : (enrolmentContract E.crypto.toCrypto ws a₀).inv s) (hidle : Idle i s)
    (hfetched : Fetched E.crypto.toCrypto a₀ a s) (hsaved : saveAccessState E a = .ok ())
    (hevent : event.event = .deviceJoined id record role) (hactor : event.actorDeviceId = w.identity.deviceId)
    (hws : event.workspaceId = ws) (hrevision : event.expectedRevision = a.revision)
    (htime : event.createdAt.secs < 2 ^ 63) (h : Lands E.crypto.toCrypto ws event st s.1 s'.1)
    (hlog : s'.2 = s.2 ++ [(i, (event, st))]) :
    Approved w id (event, st) record role ∧ Undelivered ws (event, st) record.deviceId i s' := by
  obtain ⟨_, hchain, hmembers⟩ := hinv
  have hnow := (hchain.facts hwf).1
  have haccepts : Accepts E.crypto.toCrypto (s.1.accessState ws) (event, st) st := ⟨h.applied, rfl⟩
  have hstaged := haccepts.staged hnow
  obtain ⟨front, hle, hfront⟩ := hfetched
  have hsame : a = s.1.accessState ws :=
    hfront.eq_of_revision hchain hle hwf (hrevision.symm.trans hstaged.expected.symm)
  have hst : st.workspaceId = ws :=
    (Extends.staged hnow hstaged).workspace.trans (hstaged.workspace.trans hws)
  rw [hsame] at hsaved
  refine ⟨⟨hevent, hactor, hst, ⟨_, hnow, hstaged, hsaved⟩, htime⟩, ?_, ?_⟩
  · have hown : Log.eventsOf i [(i, (event, st))] = [(event, st)] := Log.eventsOf_own i [(event, st)]
    rw [hlog, Log.eventsOf_append, hidle, hown, List.nil_append]
  · rw [h.envelopes]
    by_contra hsome
    obtain ⟨b, hb⟩ := Option.ne_none_iff_exists'.mp hsome
    obtain ⟨m, hm⟩ := hmembers _ b hb
    rw [(joined_of_staged hstaged hevent).fresh] at hm
    cases hm

/-- A request that an event is sent with. -/
theorem event_runs {q : HttpCall} {event : SignedAccessEvent} (state : q.Val → AccessState)
    {mid : q.Val → Shared ι → Prop} (hwf : WellFormed E.crypto.toCrypto a₀)
    (hpre : (enrolmentContract E.crypto.toCrypto ws a₀).Stable i pre)
    (hmid : ∀ a, (enrolmentContract E.crypto.toCrypto ws a₀).Stable i (mid a))
    (herr : (enrolmentContract E.crypto.toCrypto ws a₀).Stable i err)
    (haccepted : ∀ (t : ServerState ι) (a : q.Val) (t' : ServerState ι),
      acceptedBy (.http q) t (.ok a) t' = some (event, state a))
    (hrefused : ∀ (t : ServerState ι) (e : ClientError) (t' : ServerState ι),
      acceptedBy (.http q) t (.error e) t' = none)
    (hq : ∀ t : ServerState ι, LocksFree t → Meets (ServerState.attempt E.crypto.toCrypto i)
      (q.handle E.crypto.toCrypto ws) t fun r t' => match r with
        | .ok a => Lands E.crypto.toCrypto ws event (state a) t t'
        | .error _ => Settled t t')
    (hlands : ∀ s s' a, (enrolmentContract E.crypto.toCrypto ws a₀).inv s → pre s →
      Lands E.crypto.toCrypto ws event (state a) s.1 s'.1 →
      s'.2 = s.2 ++ [(i, (event, state a))] → mid a s')
    (hfails : ∀ s s' : Shared ι, pre s → Settled s.1 s'.1 → s'.2 = s.2 → err s') :
    ClientRuns E ws a₀ i err pre (send q) mid := by
  refine Outlined.op (o := (⟨.http q, acceptedBy (.http q)⟩ :
    Committing (ServerState ι) ClientOp.Val ClientError Accepted)) hpre (fun s r s' hinv hp hsem => ?_) hmid herr
  obtain ⟨⟨response, hexec, rfl⟩, hlog⟩ := hsem
  have hdone := hq s.1 hinv.1 response s'.1 hexec
  cases response with
  | ok a =>
    have hlog' : s'.2 = s.2 ++ [(i, (event, state a))] := by
      have hevent := haccepted s.1 a s'.1
      exact hlog.trans (congrArg (fun x => s.2 ++ (Option.toList x).map fun e => (i, e)) hevent)
    obtain ⟨hinv', hguar⟩ := Lands.keeps hdone hlog' hwf hinv
    exact ⟨hinv', hguar, hlands s s' a hinv hp hdone hlog'⟩
  | error e =>
    have hlog' : s'.2 = s.2 := by
      have hnone := hrefused s.1 (.server e) s'.1
      exact (hlog.trans (congrArg (fun x => s.2 ++ (Option.toList x).map fun e => (i, e)) hnone)).trans
        (List.append_nil _)
    obtain ⟨hinv', hguar⟩ := Settled.keeps (i := i) hdone hlog' hinv
    exact ⟨hinv', hguar, hfails s s' hp hdone hlog'⟩

/-- `approve`. -/
theorem approve_runs (hc : E.crypto.Ideal) (hwf : WellFormed E.crypto.toCrypto a₀) :
    ClientRuns E ws a₀ i (Outcome w id i) (Idle i) (approve E w id role) fun _ => Outcome w id i := by
  have hidle (s : Shared ι) (h : Idle i s) : Outcome w id i s := .inl h
  have hkept (s s' : Shared ι) (_ : Settled s.1 s'.1) (hlog : s'.2 = s.2) (h : Idle i s) : Idle i s' := by
    rw [Idle, hlog]
    exact h
  unfold approve
  refine Outlined.lift_bind (quiet_request (q := HttpCall.listJoinRequests w.identity.deviceId)
    (T := fun _ _ => True) (fun _ _ _ => rfl) stable_idle'
    (fun _ => Contract.stable_true) stable_outcome hidle hkept fun t ht => ?_) stable_outcome fun requests => ?_
  · refine (listJoinRequests_meets t).weaken fun r t' h => ?_
    rw [h.1]
    exact ⟨Settled.refl ht, fun _ _ _ _ => trivial⟩
  refine Outlined.left ?_ Contract.stable_true
  refine Outlined.lift_check_bind stable_idle' (fun s _ h => hidle s h) fun joinRequest hfound => ?_
  have hid : joinRequest.requestId = id := by
    have hfind := List.find?_some (okOr_ok.mp hfound)
    simpa using hfind
  refine Outlined.lift_bind (quiet_request (q := HttpCall.fetchAccessState w.identity.deviceId)
    (T := fun a : AccessState => Fetched E.crypto.toCrypto a₀ a) (fun _ _ _ => rfl) stable_idle'
    (fun _ => stable_fetched) stable_outcome hidle hkept fun t ht => ?_) stable_outcome fun a => ?_
  · refine Meets.weaken (fetchAccessState_meets t) fun r t' h => ?_
    obtain ⟨rfl, hread⟩ := h
    refine ⟨Settled.refl ht, fun a ha log hinv => ?_⟩
    rw [hread a ha]
    exact ⟨_, List.prefix_rfl, hinv.2.1⟩
  have hstable : (enrolmentContract E.crypto.toCrypto ws a₀).Stable i
      fun s => Idle i s ∧ Fetched E.crypto.toCrypto a₀ a s := stable_idle'.and stable_fetched
  have hout (s : Shared ι) (h : Idle i s ∧ Fetched E.crypto.toCrypto a₀ a s) : Outcome w id i s := hidle s h.1
  refine Outlined.lift_check_bind hstable (fun s _ h => hout s h) fun _ hsaved => ?_
  refine Outlined.lift_bind (now_runs hstable stable_outcome) stable_outcome fun now => ?_
  refine Outlined.assume (hstable.and Contract.stable_const) (fun s _ h => h.2) fun hnow => ?_
  refine Outlined.left ?_ Contract.stable_const
  refine Outlined.lift_check_bind hstable (fun s _ h => hout s h) fun event hevent => ?_
  obtain ⟨hjoin, hactor, hws, hrevision, htime⟩ := signedDeviceJoinedEvent_ok hevent
  rw [hid] at hjoin
  have hjoins (st : AccessState) : Joins (event, st) joinRequest.device.deviceId := ⟨_, _, _, hjoin, rfl⟩
  have htime' : event.createdAt.secs < 2 ^ 63 := by
    rw [htime]
    exact hnow
  have hsent : ClientRuns E ws a₀ i (Outcome w id i) (fun s => Idle i s ∧ Fetched E.crypto.toCrypto a₀ a s)
      (send (.approveJoinRequest w.identity.deviceId id event)) fun (st : AccessState) s =>
        Approved w id (event, st) joinRequest.device role ∧
          Undelivered ws (event, st) joinRequest.device.deviceId i s := by
    refine event_runs (q := HttpCall.approveJoinRequest w.identity.deviceId id event)
      (fun st : AccessState => st) hwf hstable
      (fun st => Contract.stable_const.and (stable_undelivered hwf (hjoins st))) stable_outcome
      (fun _ _ _ => rfl) (fun _ _ _ => rfl) (fun t ht => ?_) ?_ ?_
    · refine Meets.weaken (approveJoinRequest_meets ht) fun r t' h => ?_
      cases r with
      | ok st => exact h
      | error e => exact h
    · intro s s' st hinv hp hlands hlog
      exact approved_of_lands hwf hinv hp.1 hp.2 hsaved hjoin hactor hws hrevision htime' hlands hlog
    · intro s s' hp hsettled hlog
      exact hidle s' (hkept s s' hsettled hlog hp.1)
  refine Outlined.lift_bind hsent stable_outcome fun st => ?_
  refine Outlined.assume (Contract.stable_const.and (stable_undelivered hwf (hjoins st)))
    (fun s _ h => h.1) fun happroved => ?_
  exact Outlined.weaken (deliver_runs hc hwf happroved)
    (Contract.stable_const.and (stable_undelivered hwf (hjoins st))) fun s _ h => h.2

theorem applyAccessEvent_runs (hwf : WellFormed E.crypto.toCrypto a₀) {device : DeviceId}
    {event : SignedAccessEvent} :
    ClientRuns E ws a₀ i (fun _ => True) (Idle i) (send (.applyAccessEvent device event)) fun _ _ => True := by
  refine event_runs (q := HttpCall.applyAccessEvent device event) (fun st : AccessState => st) hwf
    stable_idle' (fun _ => Contract.stable_true) Contract.stable_true (fun _ _ _ => rfl) (fun _ _ _ => rfl)
      (fun t ht => ?_)
    (fun _ _ _ _ _ _ _ => trivial) (fun _ _ _ _ _ => trivial)
  refine Meets.weaken (applyAccessEvent_meets ht) fun r t' h => ?_
  cases r with
  | ok st => exact h
  | error e => exact h

theorem submitJoinRequest_runs {request : DeviceJoinRequest} :
    ClientRuns E ws a₀ i (fun _ => True) (Idle i) (send (.submitJoinRequest request)) fun _ _ => True := by
  refine Outlined.weaken_post (quiet_request (q := HttpCall.submitJoinRequest request) (P := Idle i)
    (T := fun _ _ => True) (fun _ _ _ => rfl) stable_idle' (fun _ => Contract.stable_true) Contract.stable_true
    (fun _ _ => trivial) (fun s s' _ hlog h => ?_) fun t ht => ?_) fun _ _ _ _ => trivial
  · rw [Idle, hlog]
    exact h
  · exact Meets.weaken (submitJoinRequest_meets ht) fun r t' h => ⟨h, fun _ _ _ _ => trivial⟩

/-! ### Opening the envelope -/

/-- In a later state where the device is active, and whoever approved it still
an active owner, the device gets the key. -/
theorem Ready.opens (hc : E.crypto.Ideal) (happroved : Approved w id x record role)
    {envelope : KeyEnvelope} {doc : Serde.Doc} (h : Ready w x record envelope doc) {later : AccessState}
    (hlater : WellFormed E.crypto.toCrypto later) (hext : Extends x.2 later) {identity : DeviceIdentity}
    (hidentity : identity.validate E.crypto = .ok ()) (hdevice : identity.deviceId = record.deviceId)
    (hactive : requireActiveIdentity later identity = .ok ())
    (howner : later.ActiveOwner w.identity.deviceId) :
    bootstrapKey E ws later identity envelope = .ok w.key := by
  obtain ⟨_, hkey, _, hsender⟩ := h.names happroved
  obtain ⟨senderRecord, hsenderThen, hsealed⟩ := h.isSealed
  -- the sender's record, then and now
  obtain ⟨senderNow, hsenderDevice, hsenderIdentity⟩ := hext.identity _ _ hsenderThen
  have hsenderId := (happroved.wellFormed.device _ _ hsenderThen).1
  obtain ⟨hsenderNowId, hsenderValid, _⟩ := hlater.device _ _ hsenderDevice
  have hsenderActive : later.activeDeviceRecord w.identity.deviceId = .ok senderNow := by
    obtain ⟨m, hm, hstatus, _⟩ := howner
    obtain ⟨_, _, d, hd, henrolled⟩ := hlater.member _ m hm
    rw [hsenderDevice] at hd
    cases hd
    rcases henrolled with ⟨_, hrecord, _⟩ | ⟨hremoved, _⟩
    · exact activeDeviceRecord_ok.mpr ⟨⟨m, hm, hstatus⟩, hsenderDevice, hrecord⟩
    · rw [hstatus] at hremoved
      cases hremoved
  -- the recipient's record, then and now
  obtain ⟨_, hjoined⟩ := happroved.joined
  obtain ⟨recipientNow, hrecipientDevice, hrecipientIdentity⟩ := hext.identity _ _ hjoined.device
  obtain ⟨hrecipientId, hrecipientValid, _⟩ := hlater.device _ _ hrecipientDevice
  simp only [requireActiveIdentity, Except.bind_ok, Except.mapError_ok, require_ok] at hactive
  obtain ⟨recipient, hrecipientActive, hkeys⟩ := hactive
  obtain ⟨⟨m, hm, hstatus⟩, hsame, _⟩ := activeDeviceRecord_ok.mp hrecipientActive
  rw [hdevice, hrecipientDevice] at hsame
  cases hsame
  have hmatch : requireIdentityMatchesRecord identity recipientNow = .ok () :=
    require_ok.mpr ⟨hdevice.trans hrecipientId.symm, hkeys.1.symm, hkeys.2.symm⟩
  have hmember : later.activeMembership record.deviceId = .ok m := by
    rw [hdevice] at hm
    exact activeMembership_ok.mpr ⟨hm, hstatus⟩
  have hauth : authorizeKeyDelivery later .shared systemKeyId w.generation senderNow.deviceId
      recipientNow.deviceId = .ok () := by
    rw [authorizeKeyDelivery, hsenderNowId, hrecipientId, (requirePermission_manage rfl).mpr howner, hmember]
    rfl
  simp only [DeviceRecord.identity, Prod.mk.injEq] at hsenderIdentity hrecipientIdentity
  have hopen : openKeyEnvelope E.crypto later .shared envelope identity recipientNow senderNow = .ok w.key :=
    open_seal hc hsealed w.generation_ne_zero hext.workspace
    (UInt64.le_iff_toNat_le.mpr hext.revision)
    ⟨hsenderNowId.trans hsenderId.symm, hsenderIdentity.1, hsenderValid⟩
    ⟨hrecipientId, hrecipientIdentity.2.1, hrecipientValid⟩ hidentity hmatch hauth
  simp only [bootstrapKey, requireActiveIdentity, Except.bind_ok, Except.mapError_ok, require_ok]
  exact ⟨(), hext.workspace.trans happroved.workspace, (), ⟨recipientNow, hrecipientActive, hkeys⟩,
    recipientNow, hrecipientActive, senderNow, by rw [hsender]; exact hsenderActive, w.key, hopen, (), hkey,
    rfl⟩

/-- Only what an active owner sent opens. -/
theorem bootstrapKey_owner {state : AccessState} {identity : DeviceIdentity}
    {envelope : KeyEnvelope} {key : Key32} (hstate : WellFormed E.crypto.toCrypto state)
    (h : bootstrapKey E ws state identity envelope = .ok key) : state.ActiveOwner envelope.senderDeviceId := by
  simp only [bootstrapKey, Except.bind_ok, Except.mapError_ok, require_ok] at h
  obtain ⟨_, _, _, _, _, _, senderRecord, hsender, _, hopen, _⟩ := h
  obtain ⟨_, hdevice, _⟩ := activeDeviceRecord_ok.mp hsender
  have hid := (hstate.device _ _ hdevice).1
  simp only [openKeyEnvelope, authorizeKeyDelivery, Except.bind_ok, Except.mapError_ok] at hopen
  obtain ⟨_, _, _, _, _, _, _, _, _, _, _, _, _, _, _, ⟨_, hpermission, _⟩, _⟩ := hopen
  rw [hid] at hpermission
  exact (requirePermission_manage rfl).mp hpermission

/-! ### Every interleaving -/

/-- What a finished command has come to. -/
def Finished (E : ClientEnv) (ws : WorkspaceId) (q : ClientRequest E ws) (i : ι)
    (_ : Except ClientError ClientResponse) (s : Shared ι) : Prop :=
  match q with
  | .approve w id _ => Outcome w id i s
  | _ => True

theorem clients_kept (hc : E.crypto.Ideal) (hwf : WellFormed E.crypto.toCrypto a₀) :
    (enrolmentContract E.crypto.toCrypto ws a₀).Kept (clients E ι ws) (Finished E ws) := by
  refine ⟨fun i => stable_idle', fun q i => ?_⟩
  cases q with
  | approve w id role =>
    have hrun : ClientRuns E ws a₀ i (Outcome w id i) (Idle i) (ClientResponse.approved <$> approve E w id role)
        fun _ => Outcome w id i :=
      Outlined.lift_map (approve_runs hc hwf) stable_outcome (fun _ => stable_outcome) fun _ _ _ h => h
    refine Outline.weaken_post hrun fun r s _ h => ?_
    cases r with
    | ok _ => exact h
    | error _ => exact h
  | applyAccessEvent device event =>
    have hrun : ClientRuns E ws a₀ i (fun _ => True) (Idle i)
      (ClientResponse.applied <$> send (.applyAccessEvent device event))
        fun _ _ => True :=
      Outlined.lift_map (applyAccessEvent_runs hwf) Contract.stable_true (fun _ => Contract.stable_true)
        fun _ _ _ h => h
    exact Outline.weaken_post hrun fun _ _ _ _ => trivial
  | submitJoinRequest request =>
    have hrun : ClientRuns E ws a₀ i (fun _ => True) (Idle i)
        (ClientResponse.submission <$> send (.submitJoinRequest request)) fun _ _ => True :=
      Outlined.lift_map submitJoinRequest_runs Contract.stable_true (fun _ => Contract.stable_true) fun _ _ _ h => h
    exact Outline.weaken_post hrun fun _ _ _ _ => trivial

/-- A server on which nothing runs yet: the state of the workspace is well
formed, and envelopes are stored for its members only. -/
structure Started (c : Crypto) (ws : WorkspaceId) (s : ServerState ι) : Prop where
  locks : LocksFree s
  wellFormed : WellFormed c (s.accessState ws)
  envelopes : ∀ d b, s.keyEnvelopes ws systemKeyId d = some b →
    ∃ m, (s.accessState ws).memberships[d]? = some m

/-- The owner is registered under its own keys. -/
def Registered (w : LocalWorkspace E.crypto ws) (st : AccessState) : Prop :=
  ∀ record, st.devices[w.identity.deviceId]? = some record →
    requireIdentityMatchesRecord w.identity record = .ok ()

/-- What is stored stays, and what was accepted. -/
def Later (ws : WorkspaceId) (s s' : Shared ι) : Prop :=
  s.2 <+: s'.2 ∧ ∀ d b, s.1.keyEnvelopes ws systemKeyId d = some b →
    s'.1.keyEnvelopes ws systemKeyId d = some b

theorem later_of_guar (h : (enrolmentContract E.crypto.toCrypto ws a₀).guar i s s') : Later ws s s' := by
  obtain ⟨⟨events, hlog⟩, henvelopes⟩ := h
  refine ⟨⟨_, hlog.symm⟩, fun d b hb => ?_⟩
  rcases henvelopes d with hsame | ⟨hnone, _⟩
  · rw [hsame]
    exact hb
  · rw [hb] at hnone
    cases hnone

theorem Started.inv {s₀ : ServerState ι} (h : Started E.crypto.toCrypto ws s₀) :
    (enrolmentContract E.crypto.toCrypto ws (s₀.accessState ws)).inv (s₀, []) :=
  ⟨h.locks, .nil, h.envelopes⟩

variable {s₀ : ServerState ι}
    {cfg cfg' : Config ι (Signature.linearized (ServerState ι) ClientOp.Val ClientError Accepted)
  (Shared ι) (ClientRequest E ws) (Except ClientError ClientResponse)}
  {result : Except ClientError ClientResponse} {log : Log ι Accepted} {event : SignedAccessEvent}
  {st : AccessState}

/-- A run of `approve` whose event is the last that was accepted delivered the
key. -/
theorem delivered_of_last (hc : E.crypto.Ideal) (hstarted : Started E.crypto.toCrypto ws s₀)
    (h : (clients E ι ws).Reachable (s₀, []) cfg)
    (hdone : cfg.thread i = some (.approve w id role, .done result))
    (hlast : cfg.shared.2 = log ++ [(i, (event, st))]) (hregistered : Registered w st)
    (hlimit : st.revision.toNat < E.tomlLimit) :
    ∃ record role doc envelope, Delivered w id i cfg.shared (event, st) record role doc envelope := by
  obtain ⟨_, _, hfinished⟩ := Contract.reachable hstarted.inv (fun _ => rfl)
    (clients_kept hc hstarted.wellFormed) h
  have houtcome : Outcome w id i cfg.shared := hfinished i _ result hdone
  have hown : (event, st) ∈ Log.eventsOf i cfg.shared.2 := by
    rw [Log.mem_eventsOf, hlast]
    exact List.mem_append_right _ (List.mem_singleton.mpr rfl)
  rcases houtcome with hidle | ⟨front, x, rest, hlog, hne, hothers⟩ | ⟨x, hevents, hunfit⟩ |
    ⟨x, record, role', doc, envelope, hdelivered⟩
  · rw [Idle] at hidle
    rw [hidle] at hown
    cases hown
  · -- the last event is not the client's
    obtain ⟨rest', last, rfl⟩ := (List.eq_nil_or_concat' rest).resolve_left hne
    have hsplit : (front ++ (i, x) :: rest') ++ [last] = log ++ [(i, (event, st))] := by
      rw [← hlast, hlog, List.append_assoc, List.cons_append]
    have hlast' : last = (i, (event, st)) := by simpa using (List.append_inj' hsplit rfl).2
    have hother := hothers last (List.mem_append_right _ (List.mem_singleton.mpr rfl))
    rw [hlast'] at hother
    exact absurd rfl hother
  · rw [hevents] at hown
    cases List.mem_singleton.mp hown
    rcases hunfit with hbig | ⟨record, hrecord, hmismatch⟩
    · exact absurd hlimit (Nat.not_lt.mpr hbig)
    · exact absurd (hregistered record hrecord) hmismatch
  · rw [hdelivered.events] at hown
    cases List.mem_singleton.mp hown
    exact ⟨record, role', doc, envelope, hdelivered⟩

/-- What was stored and accepted stays, and later states extend the accepted. -/
theorem steps_later (hc : E.crypto.Ideal) (hstarted : Started E.crypto.toCrypto ws s₀)
    (h : (clients E ι ws).Reachable (s₀, []) cfg) (hsteps : (clients E ι ws).Steps cfg cfg') :
    Later ws cfg.shared cfg'.shared ∧ WellFormed E.crypto.toCrypto (cfg'.shared.1.accessState ws) ∧
      ∀ p ∈ cfg.shared.2, Extends p.2.2 (cfg'.shared.1.accessState ws) := by
  have hkept : (enrolmentContract E.crypto.toCrypto ws (s₀.accessState ws)).Kept (clients E ι ws)
      (Finished E ws) := clients_kept hc hstarted.wellFormed
  have hle : Later ws cfg.shared cfg'.shared :=
    Contract.monotone (fun s => ⟨List.prefix_rfl, fun _ _ hb => hb⟩)
      (fun _ _ _ h h' => ⟨h.1.trans h'.1, fun d b hb => h'.2 d b (h.2 d b hb)⟩)
      (fun _ _ _ => later_of_guar) hstarted.inv (fun _ => rfl) hkept h hsteps
  obtain ⟨⟨_, hchain, _⟩, _, _⟩ := Contract.reachable hstarted.inv (fun _ => rfl) hkept (h.trans hsteps)
  refine ⟨hle, (hchain.facts hstarted.wellFormed).1, fun p hp => ?_⟩
  obtain ⟨_, _, _, hext⟩ := hchain.mem hstarted.wellFormed (List.mem_map.mpr ⟨p, hle.1.subset hp, rfl⟩)
  exact hext

/-- **An approved device can bootstrap.** Take any interleaving of clients, and
a run of `approve` that finished with its event the last that was accepted.
The device has a stored envelope from then on; and whenever the device is
active, and the owner that approved it an active owner, it opens to the key of
that owner. -/
theorem approved_device_bootstraps (hc : E.crypto.Ideal) (hstarted : Started E.crypto.toCrypto ws s₀)
    (h : (clients E ι ws).Reachable (s₀, []) cfg)
    (hdone : cfg.thread i = some (.approve w id role, .done result))
    (hlast : cfg.shared.2 = log ++ [(i, (event, st))]) (hregistered : Registered w st)
    (hlimit : st.revision.toNat < E.tomlLimit) :
    ∃ record role doc envelope, event.event = .deviceJoined id record role ∧
      Codec.decodeKeyEnvelope doc = .ok envelope ∧
      ∀ cfg', (clients E ι ws).Steps cfg cfg' →
        cfg'.shared.1.keyEnvelopes ws systemKeyId record.deviceId = some (E.renderJson doc) ∧
        ∀ identity : DeviceIdentity, identity.validate E.crypto = .ok () →
          identity.deviceId = record.deviceId →
          requireActiveIdentity (cfg'.shared.1.accessState ws) identity = .ok () →
          (cfg'.shared.1.accessState ws).ActiveOwner w.identity.deviceId →
          bootstrapKey E ws (cfg'.shared.1.accessState ws) identity envelope = .ok w.key := by
  obtain ⟨record, role', doc, envelope, hdelivered⟩ :=
    delivered_of_last hc hstarted h hdone hlast hregistered hlimit
  have hready : Ready w (event, st) record envelope doc := ⟨hdelivered.envelope, hdelivered.written⟩
  have hmem : (i, (event, st)) ∈ cfg.shared.2 := by
    rw [hlast]
    exact List.mem_append_right _ (List.mem_singleton.mpr rfl)
  refine ⟨record, role', doc, envelope, hdelivered.approved.event, hready.decodes, fun cfg' hsteps => ?_⟩
  obtain ⟨hle, hwf, hext⟩ := steps_later hc hstarted h hsteps
  refine ⟨hle.2 _ _ hdelivered.stored, fun identity hidentity hdevice hactive howner => ?_⟩
  exact hready.opens hc hdelivered.approved hwf (hext _ hmem) hidentity hdevice hactive howner

end Delivery

/-! ### Two approvals

Two owners, and a device that asks to join. -/

section Sample

open Codec (sampleWorkspace)

/-! ### The runs -/

mutual

/-- Compact JSON, of texts without characters to escape. -/
def renderDoc : Serde.Doc → Bytes
  | .null => utf8 "null"
  | .int n => utf8 (toString n)
  | .str s => utf8 "\"" ++ utf8 s ++ utf8 "\""
  | .arr items => utf8 "[" ++ renderItems items ++ utf8 "]"
  | .table fields => utf8 "\x7b" ++ renderFields fields ++ utf8 "\x7d"

def renderItems : List Serde.Doc → Bytes
  | [] => []
  | [d] => renderDoc d
  | d :: ds => renderDoc d ++ utf8 "," ++ renderItems ds

def renderFields : List (String × Serde.Doc) → Bytes
  | [] => []
  | [(name, d)] => utf8 "\"" ++ utf8 name ++ utf8 "\":" ++ renderDoc d
  | (name, d) :: fields =>
    utf8 "\"" ++ utf8 name ++ utf8 "\":" ++ renderDoc d ++ utf8 "," ++ renderFields fields

end

def ownersEnv : ClientEnv where
  crypto := ownersCrypto
  renderJson := renderDoc
  tomlLimit := 2 ^ 63
  le_tomlLimit := Nat.le_refl _

def ownersServer : ServerState (Fin 3) where
  accessStates := Function.update (fun _ => none) sampleWorkspace (some ownersState)
  joinRequests _ := ∅
  keyEnvelopes _ _ _ := none
  replayCache _ := none
  clock := ⟨1000⟩
  accessEventLock := none
  joinRequestLock := none
  log := []

def firstWorkspace : LocalWorkspace ownersEnv.crypto sampleWorkspace where
  identity := firstOwner
  defaultKeyId := systemKeyId
  generation := 1
  visibility := .shared
  key := bytes32 9
  identity_valid := by decide +kernel
  default_system := rfl
  shared := rfl
  generation_ne_zero := by decide

/-- What a client's step does, at one second, with one random draw. -/
def answer (c : Crypto) (i : Fin 3) :
    (o : ClientOp) → ServerState (Fin 3) → Option (Except ClientError o.Val × ServerState (Fin 3))
  | .http q, s => (Fallible.exec (ServerState.attempt c i) (q.handle c sampleWorkspace) s).map fun (r, s') =>
    (r.mapError .server, s')
  | .now, s => some (.ok (⟨1000⟩ : UnixTimestamp), s)
  | .random, s => some (.ok (bytes32 7, openEnvelope.nonce), s)

theorem answers_of_answer {c : Crypto} {i : Fin 3} {o : ClientOp} {s s' : ServerState (Fin 3)}
    {r : Except ClientError o.Val} (h : answer c i o s = some (r, s')) :
    ClientOp.Answers c sampleWorkspace i o s r s' := by
  cases o with
  | http q =>
    obtain ⟨⟨response, t⟩, hexec, heq⟩ := Option.map_eq_some_iff.mp h
    obtain ⟨rfl, rfl⟩ := Prod.mk.inj heq
    exact ⟨response, hexec, rfl⟩
  | now =>
    cases h
    exact ⟨⟨_, rfl, by decide⟩, rfl⟩
  | random =>
    cases h
    exact ⟨⟨_, rfl⟩, rfl⟩

theorem commits_of_answer {c : Crypto} {i : Fin 3}
    {o : Committing (ServerState (Fin 3)) ClientOp.Val ClientError Accepted} {s s' : Shared (Fin 3)}
    {r : Except ClientError o.Val} (h : commitsBy (answer c) i o s = some (r, s')) :
    commits (ClientOp.Answers c sampleWorkspace) i o s r s' := by
  have hruns (i : Fin 3) (o : ClientOp) (s : ServerState (Fin 3)) (r : Except ClientError o.Val)
      (s' : ServerState (Fin 3)) (hanswer : answer c i o s = some (r, s')) :
      ClientOp.Answers c sampleWorkspace i o s r s' := answers_of_answer hanswer
  exact commits_of_commitsBy hruns h

abbrev ownersClients := clients ownersEnv (Fin 3) sampleWorkspace

abbrev OwnersConfig := Config (Fin 3) (Signature.linearized (ServerState (Fin 3)) ClientOp.Val ClientError Accepted)
    (Shared (Fin 3))
  (ClientRequest ownersEnv sampleWorkspace) (Except ClientError ClientResponse)

def askToJoin : ClientRequest ownersEnv sampleWorkspace :=
  .submitJoinRequest { newRequest with
    signature := signatureOf newcomer.signingPublicKey.val (deviceSignaturePayload newRequest.signingPayload) }

def approveNew : ClientRequest ownersEnv sampleWorkspace := .approve firstWorkspace newRequestId .member

def demoteFirst : ClientRequest ownersEnv sampleWorkspace :=
  .applyAccessEvent secondOwner.deviceId (signedBy secondOwner firstDemoted)

/-- The device asks, and the first owner approves it. -/
def deliveredRun : Option OwnersConfig := do
  let cfg ← ownersClients.serve (commitsBy (answer ownersCrypto.toCrypto)) 0 askToJoin
    ⟨(ownersServer, []), fun _ => none⟩
  ownersClients.serve (commitsBy (answer ownersCrypto.toCrypto)) 1 approveNew cfg

/-- Then the second owner demotes the first. -/
def demotedRun : Option OwnersConfig := do
  let cfg ← deliveredRun
  ownersClients.serve (commitsBy (answer ownersCrypto.toCrypto)) 2 demoteFirst cfg

/-- The second owner demotes the first between its approval and its upload. -/
def overtakenRun : Option OwnersConfig := do
  let cfg ← ownersClients.serve (commitsBy (answer ownersCrypto.toCrypto)) 0 askToJoin
    ⟨(ownersServer, []), fun _ => none⟩
  let cfg ← ownersClients.begin 1 approveNew cfg
  let cfg ← Machine.schedule (commitsBy (answer ownersCrypto.toCrypto)) [1, 1, 1, 1] cfg
  let cfg ← ownersClients.serve (commitsBy (answer ownersCrypto.toCrypto)) 2 demoteFirst cfg
  Machine.schedule (commitsBy (answer ownersCrypto.toCrypto)) [1, 1, 1] cfg

theorem deliveredRun_reachable {cfg : OwnersConfig} (h : deliveredRun = some cfg) :
    ownersClients.Reachable (ownersServer, []) cfg ∧ ∃ result, cfg.thread 1 = some (approveNew, .done result) := by
  simp only [deliveredRun, Option.bind_eq_bind, Option.bind_eq_some_iff] at h
  obtain ⟨mid, hask, happrove⟩ := h
  have hmid : ownersClients.Reachable (ownersServer, []) mid :=
    Machine.Reachable.serve (fun _ _ _ _ _ => commits_of_answer) .refl hask
  exact ⟨hmid.serve (fun _ _ _ _ _ => commits_of_answer) happrove, Machine.serve_done happrove⟩

theorem overtakenRun_reachable {cfg : OwnersConfig} (h : overtakenRun = some cfg) :
    ownersClients.Reachable (ownersServer, []) cfg := by
  simp only [overtakenRun, Option.bind_eq_bind, Option.bind_eq_some_iff] at h
  obtain ⟨cfg₁, hask, cfg₂, hbegin, cfg₃, happrove, cfg₄, hdemote, hupload⟩ := h
  have hrun (i : Fin 3) (o : Committing (ServerState (Fin 3)) ClientOp.Val ClientError Accepted) (s : Shared (Fin 3))
      (r : Except ClientError o.Val) (s' : Shared (Fin 3))
        (h : commitsBy (answer ownersCrypto.toCrypto) i o s = some (r, s')) :
      ownersClients.sem i o s r s' := commits_of_answer h
  have h₁ : ownersClients.Reachable (ownersServer, []) cfg₁ := Machine.Reachable.serve hrun .refl hask
  have h₃ := (h₁.begin hbegin).schedule hrun happrove
  exact (h₃.serve hrun hdemote).schedule hrun hupload

theorem ownersServer_accessState : ownersServer.accessState sampleWorkspace = ownersState := by
  simp [ServerState.accessState, ownersServer]

theorem ownersServer_started : Started ownersEnv.crypto.toCrypto sampleWorkspace ownersServer where
  locks := ⟨rfl, rfl⟩
  wellFormed := by
    rw [ownersServer_accessState]
    exact (WellFormed.history _ (wellFormed_empty sampleWorkspace)).1
  envelopes _ _ h := nomatch h

/-- The one accepted event is of the first owner's run, at revision 3, and it
is registered there under its own keys. -/
def approvedOnce (cfg : OwnersConfig) : Bool :=
  cfg.shared.2.map (fun p => (p.1, p.2.2.revision)) = [(1, 3)] ∧
    cfg.shared.2.map (fun p => p.2.1.event) = [.deviceJoined newRequestId newRecord .member] ∧
    cfg.shared.2.map (fun p => (p.2.2.devices[firstOwner.deviceId]?).map
      (requireIdentityMatchesRecord firstOwner)) = [some (.ok ())]

theorem deliveredRun_approvedOnce : deliveredRun.map approvedOnce = some true := by decide +kernel

theorem approvedOnce_iff {cfg : OwnersConfig} (h : approvedOnce cfg = true) : ∃ event st,
    cfg.shared.2 = [] ++ [(1, (event, st))] ∧ event.event = .deviceJoined newRequestId newRecord .member ∧
      st.revision = 3 ∧ Registered firstWorkspace st := by
  obtain ⟨hrevisions, hevents, hrecords⟩ := of_decide_eq_true h
  obtain ⟨⟨i, event, st⟩, hlog, hfirst⟩ := List.map_eq_singleton_iff.mp hrevisions
  obtain ⟨rfl, hrevision⟩ := Prod.mk.inj hfirst
  rw [hlog, List.map_singleton] at hrecords hevents
  refine ⟨event, st, hlog, List.singleton_inj.mp hevents, hrevision, fun record hrecord => ?_⟩
  have hlookup : st.devices[firstOwner.deviceId]? = some record := hrecord
  rw [List.singleton_inj, hlookup] at hrecords
  exact Option.some.inj hrecords

/-- The first owner's approval delivers the key. -/
theorem newcomer_bootstraps : ∃ cfg event st record role doc envelope, deliveredRun = some cfg ∧
    cfg.shared.2 = [] ++ [(1, (event, st))] ∧
    event.event = .deviceJoined newRequestId record role ∧ Codec.decodeKeyEnvelope doc = .ok envelope ∧
    ∀ cfg', ownersClients.Steps cfg cfg' →
      cfg'.shared.1.keyEnvelopes sampleWorkspace systemKeyId record.deviceId = some (renderDoc doc) ∧
      ∀ identity : DeviceIdentity, identity.validate ownersCrypto = .ok () →
        identity.deviceId = record.deviceId →
        requireActiveIdentity (cfg'.shared.1.accessState sampleWorkspace) identity = .ok () →
        (cfg'.shared.1.accessState sampleWorkspace).ActiveOwner firstOwner.deviceId →
        bootstrapKey ownersEnv sampleWorkspace (cfg'.shared.1.accessState sampleWorkspace) identity
          envelope = .ok (bytes32 9) := by
  obtain ⟨cfg, hcfg, honce⟩ := Option.map_eq_some_iff.mp deliveredRun_approvedOnce
  obtain ⟨hreachable, result, hdone⟩ := deliveredRun_reachable hcfg
  obtain ⟨event, st, hlog, _, hrevision, hregistered⟩ := approvedOnce_iff honce
  have hlimit : st.revision.toNat < ownersEnv.tomlLimit := by
    rw [hrevision]
    decide
  obtain ⟨record, role, doc, envelope, hevent, hdecode, hlater⟩ := approved_device_bootstraps
    ownersCrypto_ideal ownersServer_started hreachable hdone hlog hregistered hlimit
  exact ⟨cfg, event, st, record, role, doc, envelope, hcfg, hlog, hevent, hdecode, hlater⟩

/-! ### An approval without a key -/

def isDone {Req Res : Type} {S : Signature} : Option (Req × Prog S Res) → Bool
  | some (_, .call ..) => false
  | _ => true

theorem allDone {cfg : OwnersConfig} (h : (List.finRange 3).all (fun i => isDone (cfg.thread i)) = true)
    (i : Fin 3) : isDone (cfg.thread i) = true := List.all_eq_true.mp h i (List.mem_finRange i)

/-- Every run has finished, the first owner's had the join of the device
accepted, and no envelope is stored for it. -/
def leftWithout (cfg : OwnersConfig) : Bool :=
  (List.finRange 3).all (fun i => isDone (cfg.thread i)) ∧
    (Log.eventsOf 1 cfg.shared.2).map (fun x => x.1.event) = [.deviceJoined newRequestId newRecord .member] ∧
    (cfg.shared.1.keyEnvelopes sampleWorkspace systemKeyId newcomer.deviceId).isNone

theorem overtakenRun_leftWithout : overtakenRun.map leftWithout = some true := by decide +kernel

/-- The device is active under its own keys, and the first owner no owner. -/
def demoted (cfg : OwnersConfig) : Bool :=
  (List.finRange 3).all (fun i => isDone (cfg.thread i)) ∧
    (requireActiveIdentity (cfg.shared.1.accessState sampleWorkspace) newcomer).toBool ∧
    (cfg.shared.1.accessState sampleWorkspace).requirePermission firstOwner.deviceId .manageKeys ≠ .ok ()

theorem demotedRun_demoted : demotedRun.map demoted = some true := by decide +kernel

/-- **Approval alone is not enough.** All runs have finished, and a device that
was approved has no envelope; or it has one, and the first owner's later
demotion keeps it from opening. -/
theorem approved_without_key :
    (∃ cfg, ownersClients.Reachable (ownersServer, []) cfg ∧ (∀ i, isDone (cfg.thread i) = true) ∧
      (∃ x ∈ Log.eventsOf 1 cfg.shared.2, Joins x newcomer.deviceId) ∧
      cfg.shared.1.keyEnvelopes sampleWorkspace systemKeyId newcomer.deviceId = none) ∧
    ∃ cfg cfg' doc envelope, ownersClients.Reachable (ownersServer, []) cfg ∧ ownersClients.Steps cfg cfg' ∧
      (∀ i, isDone (cfg'.thread i) = true) ∧ (∃ x ∈ Log.eventsOf 1 cfg.shared.2, Joins x newcomer.deviceId) ∧
      cfg'.shared.1.keyEnvelopes sampleWorkspace systemKeyId newcomer.deviceId = some (renderDoc doc) ∧
      Codec.decodeKeyEnvelope doc = .ok envelope ∧
      requireActiveIdentity (cfg'.shared.1.accessState sampleWorkspace) newcomer = .ok () ∧
      ∀ key, bootstrapKey ownersEnv sampleWorkspace (cfg'.shared.1.accessState sampleWorkspace) newcomer
        envelope ≠ .ok key := by
  constructor
  · obtain ⟨cfg, hcfg, hleft⟩ := Option.map_eq_some_iff.mp overtakenRun_leftWithout
    obtain ⟨hdone, hevents, hnone⟩ := of_decide_eq_true hleft
    obtain ⟨x, hx, hevent⟩ := List.map_eq_singleton_iff.mp hevents
    refine ⟨cfg, overtakenRun_reachable hcfg, allDone hdone, ⟨x, ?_, ⟨_, _, _, hevent, rfl⟩⟩,
      Option.isNone_iff_eq_none.mp hnone⟩
    rw [hx]
    exact List.mem_singleton.mpr rfl
  · obtain ⟨cfg', hcfg', hdemoted⟩ := Option.map_eq_some_iff.mp demotedRun_demoted
    obtain ⟨hdone, hactive, hpermission⟩ := of_decide_eq_true hdemoted
    simp only [demotedRun, Option.bind_eq_bind, Option.bind_eq_some_iff] at hcfg'
    obtain ⟨cfg, hcfg, hdemote⟩ := hcfg'
    have honce := deliveredRun_approvedOnce
    rw [hcfg] at honce
    obtain ⟨hreachable, result, hfinished⟩ := deliveredRun_reachable hcfg
    obtain ⟨event, st, hlog, hevent, hrevision, hregistered⟩ := approvedOnce_iff (Option.some.inj honce)
    have hlimit : st.revision.toNat < ownersEnv.tomlLimit := by
      rw [hrevision]
      decide
    obtain ⟨record, role, doc, envelope, hdelivered⟩ := delivered_of_last ownersCrypto_ideal
      ownersServer_started hreachable hfinished hlog hregistered hlimit
    have hready : Ready firstWorkspace (event, st) record envelope doc :=
      ⟨hdelivered.envelope, hdelivered.written⟩
    have hrecord : record.deviceId = newcomer.deviceId := by
      have hjoin := hdelivered.approved.event
      rw [hevent] at hjoin
      cases hjoin
      rfl
    have hsteps : ownersClients.Steps cfg cfg' :=
      Machine.Steps.serve (fun _ _ _ _ _ => commits_of_answer) hdemote
    obtain ⟨hle, hwf, _⟩ := steps_later ownersCrypto_ideal ownersServer_started hreachable hsteps
    have hstored := hle.2 _ _ hdelivered.stored
    have hsender := (hready.names hdelivered.approved).2.2.2
    rw [hrecord] at hstored
    refine ⟨cfg, cfg', doc, envelope, hreachable, hsteps, allDone hdone,
      ⟨(event, st), ?_, ⟨_, _, _, hevent, rfl⟩⟩, hstored, hready.decodes, ?_, fun key hkey => ?_⟩
    · rw [Log.mem_eventsOf, hlog]
      exact List.mem_singleton.mpr rfl
    · cases hresult : requireActiveIdentity (cfg'.shared.1.accessState sampleWorkspace) newcomer with
      | ok _ => rfl
      | error e =>
        rw [hresult] at hactive
        cases hactive
    · have howner := bootstrapKey_owner hwf hkey
      rw [hsender] at howner
      exact hpermission ((requirePermission_manage rfl).mpr howner)

end Sample

end RustSync
