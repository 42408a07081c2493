/-
The queue of join requests

A workspace's pending join requests are at most 128, and what is stored under
a request id stays until it is removed, whatever handlers interleave. A
submission holds a lock between its checks and its insertion; the handlers
that remove requests do not take it.

A submission that finds its id pending skips the check that its device has no
other request. Where the id is removed before it stores, it is stored
unchecked, and the device has two requests. `Note` remembers, for each
handler, what its submission found, and which request it is due to remove.

Key definitions: `observedServer`, `Checked`, `orderlyServer`. Key theorems:
`join_queue_bounds`, `queued_twice`.
-/
import Mathlib.Data.List.Perm.Subperm
import RustSync.Lib.Calls
import RustSync.Lib.Crash
import RustSync.Lib.Ghost
import RustSync.Server.AccessHistory

namespace RustSync.JoinQueue

open Fallible

/-! ### Queues -/

abbrev Queue := BTreeMap JoinRequestId DeviceJoinRequest

/-- What is pending in `q'` was pending in `q`. -/
def Shrinks (q q' : Queue) : Prop := ∀ (id : JoinRequestId) (r : DeviceJoinRequest), q'[id]? = some r → q[id]? = some r

/-- Nothing of the device is pending. -/
def NoneOf (q : Queue) (device : DeviceId) : Prop :=
  ∀ (id : JoinRequestId) (r : DeviceJoinRequest), q[id]? = some r → r.device.deviceId ≠ device

/-- A device has one pending request at most. -/
def OnePerDevice (q : Queue) : Prop :=
  ∀ (id id' : JoinRequestId) (r r' : DeviceJoinRequest), q[id]? = some r → q[id']? = some r' →
    r.device.deviceId = r'.device.deviceId → id = id'

/-- A queue within its bounds; requests are filed under their ids. -/
structure Bounded (strict : Prop) (q : Queue) : Prop where
  filed : ∀ (id : JoinRequestId) (r : DeviceJoinRequest), q[id]? = some r → r.requestId = id
  length : q.toList.length ≤ maxPendingJoinRequestsPerWorkspace
  single : strict → OnePerDevice q

section Queues

variable {q q' : Queue} {id : JoinRequestId} {r : DeviceJoinRequest} {strict : Prop}

theorem Shrinks.refl (q : Queue) : Shrinks q q := fun _ _ h => h

theorem shrinks_erase : Shrinks q (q.erase id) := by
  intro id' r h
  rw [BTreeMap.lookup_erase] at h
  split at h
  · cases h
  · exact h

theorem length_le_of_subset {l l' : List (JoinRequestId × DeviceJoinRequest)} (hnodup : l.Nodup) (h : l ⊆ l') :
    l.length ≤ l'.length := (hnodup.subperm h).length_le

theorem Shrinks.length_le (h : Shrinks q q') : q'.toList.length ≤ q.toList.length := by
  refine length_le_of_subset BTreeMap.nodup_toList fun (id, r) hmem => ?_
  rw [BTreeMap.mem_toList] at hmem ⊢
  exact h id r hmem

/-- Where a request is gone, the queue is shorter. -/
theorem Shrinks.length_lt (h : Shrinks q q') (hpending : q[id]? = some r) (hgone : q'[id]? = none) :
    q'.toList.length < q.toList.length := by
  have hfresh : (id, r) ∉ q'.toList := by
    rw [BTreeMap.mem_toList, hgone]
    exact fun heq => nomatch heq
  have hnodup : ((id, r) :: q'.toList).Nodup := List.nodup_cons.mpr ⟨hfresh, BTreeMap.nodup_toList⟩
  have hsub : (id, r) :: q'.toList ⊆ q.toList := by
    rintro ⟨id', r'⟩ hmem
    rw [BTreeMap.mem_toList]
    rcases List.mem_cons.mp hmem with heq | hmem
    · cases heq
      exact hpending
    · exact h id' r' (BTreeMap.mem_toList.mp hmem)
  have hle := length_le_of_subset hnodup hsub
  rw [List.length_cons] at hle
  omega

theorem length_insert_le : (q.insert id r).toList.length ≤ q.toList.length + 1 := by
  have hsub : (q.insert id r).toList ⊆ (id, r) :: q.toList := by
    rintro ⟨id', r'⟩ hmem
    rw [BTreeMap.mem_toList, BTreeMap.lookup_insert] at hmem
    split at hmem
    · rename_i heq
      cases hmem
      subst heq
      exact List.mem_cons_self
    · exact List.mem_cons_of_mem _ (BTreeMap.mem_toList.mpr hmem)
  exact length_le_of_subset BTreeMap.nodup_toList hsub

theorem NoneOf.shrinks {device : DeviceId} (h : NoneOf q device) (hle : Shrinks q q') : NoneOf q' device :=
  fun id r hr => h id r (hle id r hr)

theorem Bounded.shrinks (h : Bounded strict q) (hle : Shrinks q q') : Bounded strict q' := by
  refine ⟨fun id r hr => h.filed id r (hle id r hr), Nat.le_trans hle.length_le h.length,
    fun hstrict id id' r r' hr hr' => ?_⟩
  exact h.single hstrict id id' r r' (hle id r hr) (hle id' r' hr')

/-- A request is stored in a queue that has room, when its device has none. -/
theorem Bounded.insert (h : Bounded strict q) (hroom : q.toList.length < maxPendingJoinRequestsPerWorkspace)
    (hnone : strict → NoneOf q r.device.deviceId) : Bounded strict (q.insert r.requestId r) := by
  refine ⟨fun id r' hr => ?_, Nat.le_trans length_insert_le hroom, fun hstrict id id' r₁ r₂ hr₁ hr₂ hdevice => ?_⟩
  · rw [BTreeMap.lookup_insert] at hr
    split at hr
    · rename_i heq
      cases hr
      exact heq
    · exact h.filed id r' hr
  · rw [BTreeMap.lookup_insert] at hr₁ hr₂
    split at hr₁ <;> split at hr₂
    · rename_i h₁ h₂
      exact h₁.symm.trans h₂
    · cases hr₁
      exact absurd hdevice.symm (hnone hstrict id' r₂ hr₂)
    · cases hr₂
      exact absurd hdevice (hnone hstrict id r₁ hr₁)
    · exact h.single hstrict id id' r₁ r₂ hr₁ hr₂ hdevice

end Queues

/-! ### Notes -/

/-- Whether the handler's submission found its id pending, and the request it
is to remove for the event it saved. -/
structure Note where
  found : Bool
  due : Option (WorkspaceId × JoinRequestId × DeviceId)

/-- The request a join event is for, and the device that joins. -/
def joins (event : SignedAccessEvent) : Option (JoinRequestId × DeviceId) :=
  match event.event with
  | .deviceJoined id device _ => some (id, device.deviceId)
  | _ => none

/-- What a call and its answer make of the note. -/
def note : (o : ServerOp) → ServerResult o.Val → Note → Note
  | .getJoinRequest _ _, .ok (found : Option DeviceJoinRequest), n => { n with found := found.isSome }
  | .saveAccessState w _ cause, .ok _, n => { n with due := (joins cause).map fun (id, device) => (w, id, device) }
  | .removeJoinRequest _ _, .ok _, n => { n with due := none }
  | _, _, n => n

abbrev Sig := Signature.fallible ServerOp.Val ServerError

abbrev Noted (ι : Type) := ServerState ι × (ι → Note)

/-- Before a handler has called anything. -/
def blank {ι : Type} : ι → Note := fun _ => ⟨false, none⟩

section Server

variable (ι : Type) [DecidableEq ι] (E : ServerEnv)

/-- The server, with a note for each handler. -/
def observedServer : Machine ι Sig (Noted ι) AccessRequest (ServerResult AccessResponse) :=
  (accessServer ι E).observed note

variable {ι}

/-- A submission that found its id pending, and whose id is not pending when it
stores, has no other request of its device pending. -/
def Checked (i : ι) (o : ServerOp) (s : Noted ι) : Prop :=
  ∀ w r, o = .submitJoinRequest w r → (s.2 i).found = true → (s.1.joinRequests w)[r.requestId]? = none →
    NoneOf (s.1.joinRequests w) r.device.deviceId

variable (ι)

/-- The server's runs whose every step is checked, where `strict`. -/
def queueServer (strict : Prop) : Machine ι Sig (Noted ι) AccessRequest (ServerResult AccessResponse) :=
  (observedServer ι E).restrict fun i o s _ _ => strict → Checked i o s

/-- The server's runs whose every step is checked. -/
def orderlyServer : Machine ι Sig (Noted ι) AccessRequest (ServerResult AccessResponse) :=
  queueServer ι E True

end Server

/-! ### The contract -/

section Contract

variable {ι : Type} [DecidableEq ι] (E : ServerEnv) (strict : Prop)

/-- Queues are within their bounds, and while a submission holds the lock, the
others only remove requests. -/
def queueContract : Contract ι (Noted ι) where
  inv s := ∀ w, Bounded strict (s.1.joinRequests w)
  guar i s s' := (∀ j, j ≠ i → s'.2 j = s.2 j) ∧ ∀ j, j ≠ i → s.1.joinRequestLock = some j →
    s'.1.joinRequestLock = some j ∧ ∀ w, Shrinks (s.1.joinRequests w) (s'.1.joinRequests w)
  idle _ _ := True

variable {E strict} {i : ι}

/-- The calls that neither store a request nor touch the lock of submissions. -/
def Passive : ServerOp → Prop
  | .submitJoinRequest .. | .lockJoinRequests | .unlockJoinRequests => False
  | _ => True

omit [DecidableEq ι] in
theorem passive_serves {o : ServerOp} {s s' : ServerState ι} {r : ServerResult o.Val} (ho : Passive o)
    (h : s.Serves E.crypto i o r s') : s'.joinRequestLock = s.joinRequestLock ∧
      ∀ w, Shrinks (s.joinRequests w) (s'.joinRequests w) := by
  obtain ⟨_, hperform | ⟨_, _, rfl⟩ | hother⟩ := h
  · have hs' : s' = (s.perform E.crypto i o).2 := congrArg Prod.snd hperform
    subst hs'
    cases o with
    | submitJoinRequest | lockJoinRequests | unlockJoinRequests => exact ho.elim
    | removeJoinRequest w id =>
      refine ⟨rfl, fun w' => ?_⟩
      by_cases hw : w' = w
      · subst hw
        simp only [ServerState.perform, Function.update_self]
        exact shrinks_erase
      · simp only [ServerState.perform, Function.update_of_ne hw]
        exact Shrinks.refl _
    | putKeyEnvelope w k d b =>
      simp only [ServerState.perform, ServerState.putKeyEnvelope]
      split <;> exact ⟨rfl, fun _ => Shrinks.refl _⟩
    | saveAccessState w st cause =>
      simp only [ServerState.perform, ServerState.saveAccessState]
      split <;> exact ⟨rfl, fun _ => Shrinks.refl _⟩
    | _ => exact ⟨rfl, fun _ => Shrinks.refl _⟩
  · exact ⟨rfl, fun _ => Shrinks.refl _⟩
  · split at hother
    · rw [hother.2]
      exact ⟨rfl, fun _ => Shrinks.refl _⟩
    · rw [hother.2]
      exact ⟨rfl, fun _ => Shrinks.refl _⟩
    · exact hother.elim

theorem passive_keeps {o : ServerOp} {s s' : Noted ι} {r : ServerResult o.Val} (ho : Passive o)
    (hinv : (queueContract (ι := ι) strict).inv s) (h : (queueServer ι E strict).sem i o s r s') :
    (queueContract strict).inv s' ∧ (queueContract strict).guar i s s' := by
  obtain ⟨⟨hserves, hnotes⟩, _⟩ := h
  obtain ⟨hlock, hshrinks⟩ := passive_serves ho hserves
  refine ⟨fun w => (hinv w).shrinks (hshrinks w), fun j hj => ?_, fun j _ hj => ⟨hlock.trans hj, hshrinks⟩⟩
  rw [hnotes, Function.update_of_ne hj]

/-! ### Handlers that submit nothing -/

/-- The calls that change neither the members nor the join requests, nor their
locks. -/
def Basic : ServerOp → Prop
  | .submitJoinRequest .. | .lockJoinRequests | .unlockJoinRequests => False
  | .saveAccessState .. | .removeJoinRequest .. | .lockAccessEvents | .unlockAccessEvents => False
  | _ => True

theorem Basic.passive {o : ServerOp} (ho : Basic o) : Passive o := by
  cases o <;> trivial

theorem authenticate_basic {w : WorkspaceId} {permission : WorkspacePermission} {http : HttpRequest} :
    Calls Basic (authenticate E w permission http) := by
  unfold authenticate
  refine Calls.check_bind fun _ => Calls.op_bind trivial fun _ => Calls.check_bind fun _ => ?_
  refine Calls.op_bind trivial fun _ => Calls.check_bind fun _ => Calls.check_bind fun _ => ?_
  exact Calls.op_bind trivial fun _ => Calls.check_bind fun _ => Calls.pure _

theorem signature_basic {w : WorkspaceId} {http : HttpRequest} {request : DeviceJoinRequest} :
    Calls Basic (verifyJoinRequestHttpSignature E w http request) := by
  unfold verifyJoinRequestHttpSignature
  refine Calls.check_bind fun _ => Calls.op_bind trivial fun _ => Calls.check_bind fun _ => ?_
  exact Calls.check_bind fun _ => Calls.check_bind fun _ => Calls.op trivial

theorem applyEvent_passive {w : WorkspaceId} {event : SignedAccessEvent} :
    Calls Passive (verifyAndApplyAccessEvent E.crypto w event) := by
  refine Calls.withLock trivial trivial ?_
  unfold applyLocked
  refine Calls.check_bind fun _ => Calls.op_bind trivial fun _ => Calls.check_bind fun _ => ?_
  refine Calls.check_bind fun _ => Calls.check_bind fun _ => ?_
  exact Calls.op_bind trivial fun _ => Calls.pure _

theorem applyJoinEvent_passive {w : WorkspaceId} {id : JoinRequestId} {event : SignedAccessEvent} :
    Calls Passive (applyJoinEvent E.crypto w id event) := by
  unfold applyJoinEvent
  refine Calls.op_bind trivial fun _ => Calls.check_bind fun _ => Calls.check_bind fun _ => ?_
  refine Calls.check_bind fun _ => applyEvent_passive.bind fun _ => ?_
  exact Calls.op_bind trivial fun _ => Calls.pure _

/-- The requests that only read, and those for key envelopes. -/
def Plain : AccessRequest → Prop
  | .submitJoinRequest .. | .approveJoinRequest .. | .applyAccessEvent .. => False
  | _ => True

theorem handle_basic {q : AccessRequest} (hq : Plain q) : Calls Basic (q.handle E) := by
  cases q with
  | submitJoinRequest | approveJoinRequest | applyAccessEvent => exact hq.elim
  | putKeyEnvelope w k d http =>
    refine Calls.map ?_
    unfold putKeyEnvelope putKeyEnvelopeAs
    refine Calls.check_bind fun _ => Calls.check_bind fun _ => authenticate_basic.bind fun _ => ?_
    refine Calls.check_bind fun _ => Calls.check_bind fun _ => Calls.op_bind trivial fun _ => ?_
    refine Calls.check_bind fun _ => Calls.check_bind fun _ => Calls.check_bind fun _ => ?_
    refine Calls.check_bind fun _ => Calls.op_bind trivial fun (result : PutResult) => ?_
    cases result with
    | created => exact Calls.pure _
    | alreadyExists => exact Calls.pure _
    | conflict => exact Calls.throw _
  | fetchKeyEnvelope w k d http =>
    refine Calls.map ?_
    unfold fetchKeyEnvelope fetchKeyEnvelopeAs
    refine authenticate_basic.bind fun _ => Calls.check_bind fun _ => ?_
    exact Calls.op_bind trivial fun _ => Calls.check _
  | listJoinRequests w http =>
    refine Calls.map ?_
    unfold listJoinRequests listJoinRequestsAs
    exact authenticate_basic.bind fun _ => Calls.op trivial
  | fetchAccessState w http =>
    refine Calls.map ?_
    unfold fetchAccessState fetchAccessStateAs
    exact authenticate_basic.bind fun _ => Calls.op trivial

/-- Only a submission stores requests. -/
theorem handle_passive {q : AccessRequest} (hq : ∀ w http, q ≠ .submitJoinRequest w http) :
    Calls Passive (q.handle E) := by
  cases q with
  | submitJoinRequest w http => exact absurd rfl (hq w http)
  | approveJoinRequest w id http =>
    refine Calls.map ?_
    unfold approveJoinRequest approveJoinRequestAs
    refine Calls.check_bind fun _ => Calls.check_bind fun _ => Calls.check_bind fun _ => ?_
    refine (authenticate_basic.mono fun _ => Basic.passive).bind fun _ => Calls.check_bind fun _ => ?_
    exact applyJoinEvent_passive
  | applyAccessEvent w http =>
    refine Calls.map ?_
    unfold applyAccessEvent applyAccessEventAs
    refine Calls.check_bind fun _ => Calls.check_bind fun _ => Calls.check_bind fun _ => ?_
    refine (authenticate_basic.mono fun _ => Basic.passive).bind fun _ => Calls.check_bind fun _ => ?_
    split
    · exact applyJoinEvent_passive
    · exact applyEvent_passive
  | putKeyEnvelope | fetchKeyEnvelope | listJoinRequests | fetchAccessState =>
    refine Calls.mono (fun _ => Basic.passive) (handle_basic ?_)
    trivial

theorem passive_outline {α : Type} {x : Handler α} (hx : Calls Passive x) :
    Outline (queueContract strict) (queueServer ι E strict).sem i (fun _ _ => True) (fun _ => True) x.run :=
  Prog.Calls.outline Contract.stable_true (fun _ _ _ _ ho hinv _ hsem =>
    ⟨(passive_keeps ho hinv hsem).1, (passive_keeps ho hinv hsem).2, trivial⟩) hx

/-! ### Submissions -/

/-- The lock of submissions is held. -/
def Locked (i : ι) (s : Noted ι) : Prop := s.1.joinRequestLock = some i

/-- The request is pending, or there is room for it, and its device has none or
was not checked. -/
def Ready (strict : Prop) (i : ι) (w : WorkspaceId) (r : DeviceJoinRequest) (s : Noted ι) : Prop :=
  ((s.2 i).found = true ∧ (s.1.joinRequests w)[r.requestId]? ≠ none) ∨
    ((s.1.joinRequests w).toList.length < maxPendingJoinRequestsPerWorkspace ∧
      (strict → (s.2 i).found = true ∨ NoneOf (s.1.joinRequests w) r.device.deviceId))

omit [DecidableEq ι] in
theorem stable_locked : (queueContract (ι := ι) strict).Stable i (Locked i) :=
  fun _ hj _ _ _ _ hguar h => (hguar.2 i (Ne.symm hj) h).1

omit [DecidableEq ι] in
/-- While the lock is held, others make room, and do not store. -/
theorem stable_ready {w : WorkspaceId} {r : DeviceJoinRequest} :
    (queueContract strict).Stable i fun s => Locked i s ∧ Ready strict i w r s := by
  intro j hj s s' hinv _ hguar h
  obtain ⟨hlock, hready⟩ := h
  obtain ⟨hlock', hshrinks⟩ := hguar.2 i (Ne.symm hj) hlock
  have hnote := hguar.1 i (Ne.symm hj)
  refine ⟨hlock', ?_⟩
  unfold Ready
  rw [hnote]
  rcases hready with ⟨hfound, hpending⟩ | ⟨hroom, hnone⟩
  · obtain ⟨r', hr'⟩ := Option.ne_none_iff_exists'.mp hpending
    by_cases hgone : (s'.1.joinRequests w)[r.requestId]? = none
    · refine .inr ⟨?_, fun _ => .inl hfound⟩
      exact Nat.lt_of_lt_of_le ((hshrinks w).length_lt hr' hgone) (hinv w).length
    · exact .inl ⟨hfound, hgone⟩
  · refine .inr ⟨Nat.lt_of_le_of_lt (hshrinks w).length_le hroom, fun hstrict => ?_⟩
    exact (hnone hstrict).imp_right fun h => h.shrinks (hshrinks w)

omit [DecidableEq ι] in
/-- Readiness that an answer tells of. -/
theorem stable_ready_of {w : WorkspaceId} {r : DeviceJoinRequest} {answered : Prop} :
    (queueContract strict).Stable i fun s => Locked i s ∧ (answered → Ready strict i w r s) := by
  intro j hj s s' hinv hinv' hguar h
  refine ⟨stable_locked j hj s s' hinv hinv' hguar h.1, fun hanswered => ?_⟩
  exact (stable_ready j hj s s' hinv hinv' hguar ⟨h.1, h.2 hanswered⟩).2

/-- A proof outline of a handler. -/
abbrev Proved {α : Type} (E : ServerEnv) (strict : Prop) (i : ι) (pre : Noted ι → Prop) (x : Handler α)
    (post : α → Noted ι → Prop) : Prop :=
  Outlined (queueContract strict) (queueServer ι E strict).sem i (Locked i) pre x post

/-- What a call under the lock that stores nothing leaves. -/
theorem passive_locked {o : ServerOp} {s s' : Noted ι} {r : ServerResult o.Val} (ho : Passive o)
    (hlock : Locked i s) (h : (queueServer ι E strict).sem i o s r s') : Locked i s' :=
  (passive_serves ho h.1.1).1.trans hlock

theorem getAccessState_proved {w : WorkspaceId} :
    Proved E strict i (Locked i) (call (.getAccessState w)) fun _ => Locked i := by
  refine Outlined.op stable_locked (fun s r s' hinv hlock hsem => ?_) (fun _ => stable_locked) stable_locked
  obtain ⟨hinv', hguar⟩ := passive_keeps (o := .getAccessState w) trivial hinv hsem
  have hlock' := passive_locked (o := .getAccessState w) trivial hlock hsem
  refine ⟨hinv', hguar, ?_⟩
  cases r <;> exact hlock'

theorem getJoinRequest_proved {w : WorkspaceId} {request : DeviceJoinRequest} :
    Proved E strict i (Locked i) (call (.getJoinRequest w request.requestId))
      fun (found : Option DeviceJoinRequest) s => Locked i s ∧ (found.isSome = true → Ready strict i w request s) := by
  refine Outlined.op stable_locked (fun s r s' hinv hlock hsem => ?_) (fun _ => stable_ready_of) stable_locked
  obtain ⟨hinv', hguar⟩ := passive_keeps (o := .getJoinRequest w request.requestId) trivial hinv hsem
  have hlock' := passive_locked (o := .getJoinRequest w request.requestId) trivial hlock hsem
  refine ⟨hinv', hguar, ?_⟩
  obtain ⟨⟨⟨_, hserves⟩, hnotes⟩, _⟩ := hsem
  rcases hserves with hperform | ⟨_, ⟨e, rfl⟩, _⟩ | hother
  · obtain ⟨rfl, hs'⟩ := Prod.mk.inj hperform
    refine ⟨hlock', fun hfound => .inl ⟨?_, ?_⟩⟩
    · rw [hnotes, Function.update_self]
      exact hfound
    · rw [hs']
      exact Option.isSome_iff_ne_none.mp hfound
  · exact hlock'
  · exact hother.elim

/-- The queue as it is listed, in any order. -/
theorem listJoinRequests_proved {w : WorkspaceId} (request : DeviceJoinRequest) :
    Proved E strict i (Locked i) (call (.listJoinRequests w)) fun (pending : List DeviceJoinRequest) s =>
      Locked i s ∧ (pending.find? (fun p => p.device.deviceId = request.device.deviceId) = none ∧
        pending.length < maxPendingJoinRequestsPerWorkspace → Ready strict i w request s) := by
  refine Outlined.op stable_locked (fun s r s' hinv hlock hsem => ?_) (fun _ => stable_ready_of) stable_locked
  obtain ⟨hinv', hguar⟩ := passive_keeps (o := .listJoinRequests w) trivial hinv hsem
  have hlock' := passive_locked (o := .listJoinRequests w) trivial hlock hsem
  refine ⟨hinv', hguar, ?_⟩
  obtain ⟨⟨⟨_, hserves⟩, _⟩, _⟩ := hsem
  have hlisted (pending : List DeviceJoinRequest) (hs' : s'.1 = s.1)
      (hperm : pending.Perm ((s.1.joinRequests w).toList.map Prod.snd))
      (hfits : pending.find? (fun p => p.device.deviceId = request.device.deviceId) = none ∧
        pending.length < maxPendingJoinRequestsPerWorkspace) : Ready strict i w request s' := by
    obtain ⟨hnone, hlength⟩ := hfits
    right
    rw [hs']
    refine ⟨?_, fun _ => .inr fun id r hr => ?_⟩
    · rw [hperm.length_eq, List.length_map] at hlength
      exact hlength
    · have hmem : r ∈ pending := hperm.mem_iff.mpr (List.mem_map.mpr ⟨(id, r), BTreeMap.mem_toList.mpr hr, rfl⟩)
      have hne := List.find?_eq_none.mp hnone r hmem
      simpa using hne
  rcases hserves with hperform | ⟨_, ⟨e, rfl⟩, _⟩ | ⟨⟨pending, rfl, hperm⟩, hs'⟩
  · obtain ⟨rfl, hs'⟩ := Prod.mk.inj hperform
    exact ⟨hlock', hlisted _ hs' (List.Perm.refl _)⟩
  · exact hlock'
  · exact ⟨hlock', hlisted pending hs' hperm⟩

/-- What a submission stores, it stores within the bounds. -/
theorem submitJoinRequest_proved {w : WorkspaceId} {request : DeviceJoinRequest} :
    Proved E strict i (fun s => Locked i s ∧ Ready strict i w request s) (call (.submitJoinRequest w request))
      fun _ => Locked i := by
  refine Outlined.op stable_ready (fun s r s' hinv hp hsem => ?_) (fun _ => stable_locked) stable_locked
  obtain ⟨hlock, hready⟩ := hp
  obtain ⟨⟨⟨_, hserves⟩, hnotes⟩, hchecked⟩ := hsem
  have hothers (j : ι) (hj : j ≠ i) : s'.2 j = s.2 j := by
    rw [hnotes, Function.update_of_ne hj]
  have hguar (hlock' : s'.1.joinRequestLock = some i) : (queueContract strict).guar i s s' := by
    refine ⟨hothers, fun j hj hheld => ?_⟩
    rw [hlock] at hheld
    exact absurd (Option.some.inj hheld).symm hj
  have hsame (h : s'.1 = s.1) : (queueContract strict).inv s' ∧ (queueContract strict).guar i s s' ∧
      Ends (Locked i) (fun _ => Locked i) r s' := by
    have hlock' : Locked i s' := by
      unfold Locked
      rw [h]
      exact hlock
    refine ⟨fun w' => ?_, hguar hlock', ?_⟩
    · rw [h]
      exact hinv w'
    · cases r <;> exact hlock'
  rcases hserves with hperform | ⟨_, _, hs'⟩ | hother
  · have hs' : s'.1 = (s.1.submitJoinRequest w request).2 := congrArg Prod.snd hperform
    unfold ServerState.submitJoinRequest at hs'
    split at hs'
    · exact hsame hs'
    · split at hs'
      · rename_i hgone
        rcases hready with ⟨_, hpending⟩ | ⟨hroom, hnone⟩
        · exact absurd hgone hpending
        · have hlock' : Locked i s' := by
            unfold Locked
            rw [hs']
            exact hlock
          refine ⟨fun w' => ?_, hguar hlock', ?_⟩
          · rw [hs']
            by_cases hw : w' = w
            · subst hw
              simp only [Function.update_self]
              refine (hinv w').insert hroom fun hstrict => ?_
              exact (hnone hstrict).elim (fun hfound => hchecked hstrict w' request rfl hfound hgone) id
            · simp only [Function.update_of_ne hw]
              exact hinv w'
          · cases r <;> exact hlock'
      · exact hsame hs'
  · exact hsame hs'
  · exact hother.elim

theorem submitLocked_proved {w : WorkspaceId} {request : DeviceJoinRequest} :
    Proved E strict i (Locked i) (submitLocked w request) fun _ => Locked i := by
  have hstore {P : Noted ι → Prop} (hP : (queueContract strict).Stable i P)
      (hready : ∀ s, P s → Locked i s ∧ Ready strict i w request s) :
      Proved E strict i P (call (.submitJoinRequest w request) >>= fun (result : JoinRequestPutResult) =>
        check (submissionResponse request.requestId result)) fun _ => Locked i := by
    refine Outlined.bind (submitJoinRequest_proved.weaken hP fun s _ h => hready s h) stable_locked fun _ => ?_
    exact Outlined.check stable_locked (fun _ _ h => h) fun _ _ _ _ h => h
  unfold submitLocked
  refine Outlined.bind getAccessState_proved stable_locked fun accessState => ?_
  refine Outlined.check_bind stable_locked (fun _ _ h => h) fun _ _ => ?_
  refine Outlined.check_bind stable_locked (fun _ _ h => h) fun _ _ => ?_
  refine Outlined.bind getJoinRequest_proved stable_locked fun (existing : Option DeviceJoinRequest) => ?_
  by_cases hexisting : existing.isSome = true
  · rw [if_pos hexisting]
    exact (hstore stable_ready fun _ h => h).weaken stable_ready_of fun s _ h => ⟨h.1, h.2 hexisting⟩
  · rw [if_neg hexisting]
    refine Outlined.weaken ?_ stable_ready_of fun s _ h => h.1
    refine Outlined.bind (listJoinRequests_proved request) stable_locked fun (pending : List DeviceJoinRequest) => ?_
    cases pending.find? fun p => p.device.deviceId = request.device.deviceId with
    | some existing => exact Outlined.pure stable_ready_of fun _ _ h => h.1
    | none =>
      refine Outlined.check_bind stable_ready_of (fun _ _ h => h.1) fun _ hlength => ?_
      exact hstore stable_ready_of fun s h => ⟨h.1, h.2 ⟨rfl, require_ok.mp hlength⟩⟩

theorem submitJoinRequest_handler_proved {w : WorkspaceId} {http : HttpRequest} :
    Outlined (queueContract strict) (queueServer ι E strict).sem i (fun _ => True) (fun _ => True)
      (submitJoinRequest E w http) fun _ _ => True := by
  have htrue : (queueContract (ι := ι) strict).Stable i fun _ => True := Contract.stable_true
  have hends {β : Type} (out : ServerResult β) (s : Noted ι) :
      Ends (fun _ : Noted ι => True) (fun _ _ => True) out s := by cases out <;> trivial
  have hheld (out : ServerResult JoinRequestSubmissionResponse) {s : Noted ι}
      (h : Ends (Locked i) (fun _ => Locked i) out s) : Locked i s := by
    cases out <;> exact h
  have hpassive {β : Type} {x : Handler β} (hx : Calls Passive x) :
      Outlined (queueContract strict) (queueServer ι E strict).sem i (fun _ => True) (fun _ => True) x
        fun _ _ => True := Outline.weaken_post (passive_outline hx) fun r s _ _ => hends r s
  have hsignature (request : DeviceJoinRequest) :
      Calls Passive (verifyJoinRequestHttpSignature E w http request) :=
    signature_basic.mono fun _ => Basic.passive
  unfold submitJoinRequest
  refine Outlined.check_bind htrue (fun _ _ _ => trivial) fun _ _ => ?_
  refine Outlined.check_bind htrue (fun _ _ _ => trivial) fun request _ => ?_
  refine Outlined.check_bind htrue (fun _ _ _ => trivial) fun _ _ => ?_
  refine Outlined.bind (hpassive (hsignature request)) htrue fun _ => ?_
  refine Outlined.withLock htrue htrue ?_ submitLocked_proved ?_ (fun out => ?_) fun out => ?_
  · intro s r s' hinv _ hsem
    obtain ⟨⟨⟨hfree, hserves⟩, hnotes⟩, _⟩ := hsem
    have hothers (j : ι) (hj : j ≠ i) : s'.2 j = s.2 j := by
      rw [hnotes, Function.update_of_ne hj]
    rcases hserves with hperform | ⟨hstores, _⟩ | hother
    · obtain ⟨rfl, hs'⟩ := Prod.mk.inj hperform
      refine ⟨fun w' => ?_, ⟨hothers, fun j _ hj => ?_⟩, ?_⟩
      · rw [hs']
        exact hinv w'
      · rw [hfree] at hj
        cases hj
      · change s'.1.joinRequestLock = some i
        rw [hs']
    · exact hstores.elim
    · exact hother.elim
  · intro out s r s' hinv hin hsem
    obtain ⟨⟨⟨_, hserves⟩, hnotes⟩, _⟩ := hsem
    have hlock := hheld out hin
    have hothers (j : ι) (hj : j ≠ i) : s'.2 j = s.2 j := by
      rw [hnotes, Function.update_of_ne hj]
    rcases hserves with hperform | ⟨hstores, _⟩ | hother
    · obtain ⟨rfl, hs'⟩ := Prod.mk.inj hperform
      refine ⟨fun w' => ?_, ⟨hothers, fun j hj hheld => ?_⟩, hends out s'⟩
      · rw [hs']
        exact hinv w'
      · rw [hlock] at hheld
        exact absurd (Option.some.inj hheld).symm hj
    · exact hstores.elim
    · exact hother.elim
  · cases out <;> exact stable_locked
  · cases out <;> exact htrue

/-- Every handler keeps the queues within their bounds. -/
theorem handle_proved (q : AccessRequest) :
    Outline (queueContract strict) (queueServer ι E strict).sem i (fun _ _ => True) (fun _ => True)
      (q.handle E).run := by
  by_cases hq : ∃ w http, q = .submitJoinRequest w http
  · obtain ⟨w, http, rfl⟩ := hq
    have hsubmit : Outlined (queueContract strict) (queueServer ι E strict).sem i (fun _ => True) (fun _ => True)
        (AccessResponse.submission <$> submitJoinRequest E w http) fun _ _ => True :=
      Outlined.map submitJoinRequest_handler_proved Contract.stable_true (fun _ => Contract.stable_true)
        fun _ _ _ _ => trivial
    exact Outline.weaken_post hsubmit fun _ _ _ _ => trivial
  · refine passive_outline (handle_passive fun w http heq => ?_)
    exact hq ⟨w, http, heq⟩

theorem queueServer_kept : (queueContract strict).Kept (queueServer ι E strict) fun _ _ _ _ => True :=
  ⟨fun _ => Contract.stable_true, fun q _ => handle_proved q⟩

end Contract

/-! ### Storing -/

section Storing

variable {ι : Type} {c : Crypto} {i : ι} {s s' : ServerState ι}

/-- A call leaves what is pending under an id, or removes it. -/
theorem kept_or_removed {o : ServerOp} {r : ServerResult o.Val} (h : s.Serves c i o r s') {w : WorkspaceId}
    {id : JoinRequestId} {stored : DeviceJoinRequest} (hstored : (s.joinRequests w)[id]? = some stored) :
    (s'.joinRequests w)[id]? = some stored ∨ (s'.joinRequests w)[id]? = none := by
  obtain ⟨_, hperform | ⟨_, _, rfl⟩ | hother⟩ := h
  · have hs' : s' = (s.perform c i o).2 := congrArg Prod.snd hperform
    subst hs'
    cases o with
    | submitJoinRequest w' request =>
      left
      simp only [ServerState.perform, ServerState.submitJoinRequest]
      split
      · exact hstored
      · split
        · rename_i hgone
          by_cases hw : w = w'
          · subst hw
            have hne : request.requestId ≠ id := by
              intro heq
              rw [heq, hstored] at hgone
              cases hgone
            simp only [Function.update_self, BTreeMap.lookup_insert, if_neg hne]
            exact hstored
          · simp only [Function.update_of_ne hw]
            exact hstored
        · exact hstored
    | removeJoinRequest w' id' =>
      by_cases hw : w = w'
      · subst hw
        simp only [ServerState.perform, Function.update_self, BTreeMap.lookup_erase]
        split
        · exact .inr rfl
        · exact .inl hstored
      · simp only [ServerState.perform, Function.update_of_ne hw]
        exact .inl hstored
    | putKeyEnvelope w' k d b =>
      simp only [ServerState.perform, ServerState.putKeyEnvelope]
      split <;> exact .inl hstored
    | saveAccessState w' st cause =>
      simp only [ServerState.perform, ServerState.saveAccessState]
      split <;> exact .inl hstored
    | _ => exact .inl hstored
  · exact .inl hstored
  · split at hother
    · rw [hother.2]
      exact .inl hstored
    · rw [hother.2]
      exact .inl hstored
    · exact hother.elim

/-- A request that is pending is not stored again. -/
theorem resubmitted {w : WorkspaceId} {request : DeviceJoinRequest} (hworkspace : request.workspaceId = w)
    (hpending : (s.joinRequests w)[request.requestId]? = some request) :
    s.submitJoinRequest w request = (.ok .alreadyPending, s) := by
  unfold ServerState.submitJoinRequest
  rw [if_neg (not_not.mpr hworkspace), hpending]
  simp

/-- A submission of a request that is pending finds it, and changes nothing. -/
theorem resubmission {w : WorkspaceId} {request : DeviceJoinRequest} (hworkspace : request.workspaceId = w)
    (hpending : (s.joinRequests w)[request.requestId]? = some request)
    (hrevision : (s.accessState w).revision ≠ 0)
    (hmember : (s.accessState w).isActiveMember request.device.deviceId = false) :
    exec (fun o s => s.attempt c i o) (submitLocked w request) s =
      some (.ok (.alreadyPending request.requestId), s) := by
  have hread : s.attempt c i (.getAccessState w) = some (.ok (s.accessState w), s) := rfl
  have hfound : s.attempt c i (.getJoinRequest w request.requestId) =
      some (.ok (s.joinRequests w)[request.requestId]?, s) := rfl
  have hstore : s.attempt c i (.submitJoinRequest w request) = some (.ok .alreadyPending, s) :=
    congrArg some (resubmitted hworkspace hpending)
  have hrequire {p : Prop} [Decidable p] {e : ServerError} (hp : p) : require p e = .ok () := if_pos hp
  unfold submitLocked
  refine (exec_op_bind hread).trans (exec_check_bind.trans ?_)
  rw [hrequire hrevision]
  refine exec_check_bind.trans ?_
  rw [hrequire hmember]
  refine (exec_op_bind hfound).trans ?_
  rw [hpending]
  exact exec_op_bind hstore

/-- A submission that is not checked files a second request of its device. -/
theorem unchecked_twice {w : WorkspaceId} {request other : DeviceJoinRequest} {id : JoinRequestId}
    {answer : JoinRequestPutResult} (hgone : (s.joinRequests w)[request.requestId]? = none)
    (hother : (s.joinRequests w)[id]? = some other) (hdevice : other.device.deviceId = request.device.deviceId)
    (h : s.Serves c i (.submitJoinRequest w request) (.ok answer) s') : ¬ OnePerDevice (s'.joinRequests w) := by
  intro hsingle
  obtain ⟨_, hperform | ⟨_, ⟨e, herror⟩, _⟩ | hfalse⟩ := h
  · simp only [ServerState.perform, ServerState.submitJoinRequest, hgone] at hperform
    split at hperform
    · cases (Prod.mk.inj hperform).1
    · obtain ⟨_, hs'⟩ := Prod.mk.inj hperform
      have hne : request.requestId ≠ id := by
        intro heq
        rw [heq, hother] at hgone
        cases hgone
      have hstored : (s'.joinRequests w)[request.requestId]? = some request := by
        rw [hs']
        simp
      have hkept : (s'.joinRequests w)[id]? = some other := by
        rw [hs']
        simp only [Function.update_self, BTreeMap.lookup_insert, if_neg hne]
        exact hother
      exact hne (hsingle _ _ _ _ hstored hkept hdevice.symm)
  · cases herror
  · exact hfalse.elim

end Storing

/-! ### The bounds -/

section Bounds

variable {ι : Type} [DecidableEq ι]

/-- A queue has at most 128 requests, what is pending is not replaced, and
submitting it again changes nothing. -/
structure Kept (E : ServerEnv) (cfg : Config ι Sig (ServerState ι) AccessRequest (ServerResult AccessResponse)) :
    Prop where
  length : ∀ w, (cfg.shared.joinRequests w).toList.length ≤ maxPendingJoinRequestsPerWorkspace
  stays : ∀ cfg', (accessServer ι E).Step cfg cfg' → ∀ (w : WorkspaceId) (id : JoinRequestId)
    (r r' : DeviceJoinRequest), (cfg.shared.joinRequests w)[id]? = some r →
      (cfg'.shared.joinRequests w)[id]? = some r' → r' = r
  again : ∀ (i : ι) (r : DeviceJoinRequest), (cfg.shared.joinRequests r.workspaceId)[r.requestId]? = some r →
    (∀ a s', cfg.shared.Serves E.crypto i (.submitJoinRequest r.workspaceId r) a s' →
      s' = cfg.shared ∧ (a = .ok (JoinRequestPutResult.alreadyPending) ∨ ∃ e, a = .error e)) ∧
    ((cfg.shared.accessState r.workspaceId).revision ≠ 0 →
      (cfg.shared.accessState r.workspaceId).isActiveMember r.device.deviceId = false →
      exec (fun o s => s.attempt E.crypto i o) (submitLocked r.workspaceId r) cfg.shared =
        some (.ok (.alreadyPending r.requestId), cfg.shared))

theorem empty_bounded {strict : Prop} : Bounded strict (∅ : Queue) := by
  have hempty (id : JoinRequestId) : (∅ : Queue)[id]? = none := Std.ExtTreeMap.getElem?_empty
  refine ⟨fun id r hr => ?_, by decide, fun _ id _ r _ hr => ?_⟩
  · rw [hempty] at hr
    cases hr
  · rw [hempty] at hr
    cases hr

theorem queueServer_bounded {E : ServerEnv} {strict : Prop} {s₀ : ServerState ι}
    (hs₀ : ∀ w, s₀.joinRequests w = ∅) {cfg : Config ι Sig (Noted ι) AccessRequest (ServerResult AccessResponse)}
    (h : (queueServer ι E strict).Reachable (s₀, blank) cfg) (w : WorkspaceId) :
    Bounded strict (cfg.shared.1.joinRequests w) := by
  have hinit : (queueContract (ι := ι) strict).inv (s₀, blank) := by
    intro w'
    rw [hs₀ w']
    exact empty_bounded
  exact (Contract.reachable hinit (fun _ => trivial) queueServer_kept h).1 w

theorem reachable_kept {E : ServerEnv} {s₀ : ServerState ι} (hs₀ : ∀ w, s₀.joinRequests w = ∅)
    {cfg : Config ι Sig (ServerState ι) AccessRequest (ServerResult AccessResponse)}
    (h : (accessServer ι E).Reachable s₀ cfg) : Kept E cfg := by
  refine ⟨fun w => ?_, fun cfg' hstep w id r r' hr hr' => ?_, fun i r hpending => ⟨fun a s' hserves => ?_, ?_⟩⟩
  · obtain ⟨g, hobserved⟩ := h.observed note blank
    have hreach : (queueServer ι E False).Reachable (s₀, blank) ⟨(cfg.shared, g), cfg.thread⟩ :=
      hobserved.restrict fun _ _ _ _ _ _ _ => False.elim
    exact (queueServer_bounded hs₀ hreach w).length
  · cases hstep with
    | start i q hidle =>
      rw [hr] at hr'
      exact (Option.some.inj hr').symm
    | call hat hsem =>
      rcases kept_or_removed hsem hr with hsame | hgone
      · rw [hsame] at hr'
        exact (Option.some.inj hr').symm
      · rw [hgone] at hr'
        cases hr'
  · obtain ⟨_, hperform | ⟨_, herror, rfl⟩ | hfalse⟩ := hserves
    · have hstored : (a, s') = (.ok .alreadyPending, cfg.shared) := hperform.trans (resubmitted rfl hpending)
      obtain ⟨rfl, rfl⟩ := Prod.mk.inj hstored
      exact ⟨rfl, .inl rfl⟩
    · exact ⟨rfl, .inr herror⟩
    · exact hfalse.elim
  · exact resubmission rfl hpending

/-- **The queue keeps its bounds**, and a device has one pending request, while
every step is checked; a submission that is stored unchecked gives its device
two. -/
theorem join_queue_bounds (E : ServerEnv) {s₀ : ServerState ι} (hs₀ : ∀ w, s₀.joinRequests w = ∅) :
    (∀ cfg, (accessServer ι E).Reachable s₀ cfg → Kept E cfg) ∧
    ∀ cfg, (orderlyServer ι E).Reachable (s₀, blank) cfg →
      (∀ w, OnePerDevice (cfg.shared.1.joinRequests w)) ∧
      ∀ i q w r k (a : JoinRequestPutResult) s', cfg.thread i = some (q, .call (.submitJoinRequest w r) k) →
        (observedServer ι E).sem i (.submitJoinRequest w r) cfg.shared (.ok a) s' →
        ((∀ w, OnePerDevice (s'.1.joinRequests w)) ↔ Checked i (.submitJoinRequest w r) cfg.shared) := by
  refine ⟨fun cfg h => reachable_kept hs₀ h, fun cfg h => ⟨fun w => ?_, fun i q w r k a s' hat hsem => ?_⟩⟩
  · exact (queueServer_bounded hs₀ h w).single trivial
  · constructor
    · intro hsingle w' r' ho _ hgone id other hother hdevice
      cases ho
      exact unchecked_twice hgone hother hdevice hsem.1 (hsingle w)
    · intro hchecked w'
      have hnext := h.tail (.call hat ⟨hsem, fun _ => hchecked⟩)
      exact (queueServer_bounded hs₀ hnext w').single trivial

end Bounds

/-! ### A submission that overtakes an approval

One device asks to join under an id, another under a second. The other device
asks again, under the first id, and finds it pending; the first device is
approved, and what the other asked is stored. -/

section Sample

open Codec

def otherDeviceId : DeviceId := ⟨"device_other", by decide⟩
def otherRequestId : JoinRequestId := ⟨"join_2", by decide⟩

def joinBody (requestId : JoinRequestId) (deviceId : DeviceId) : Bytes :=
  jsonObject [("request_id", jsonString requestId.asStr), ("workspace_id", jsonString "ws"),
    ("device", jsonObject [("device_id", jsonString deviceId.asStr), ("device_name", jsonString "laptop"),
      ("signing_public_key", jsonBytes sampleKey.val),
      ("exchange_public_key", jsonBytes (List.replicate 32 0)),
      ("fingerprint", jsonString "FQUR-NB-3-83DI-FG"), ("status", jsonString "pending")]),
    ("created_at", utf8 "1000"), ("signature", jsonBytes sampleSignature)]

def joinOf (requestId : JoinRequestId) (deviceId : DeviceId) : DeviceJoinRequest where
  requestId := requestId
  workspaceId := sampleWorkspace
  device := sampleDevice deviceId .pending
  createdAt := ⟨1000⟩
  signature := sampleSignature

/-- The primitives and decoders, as they are on what the requests below hold. -/
def queueEnv : ServerEnv :=
  { sampleEnv with
    crypto :=
      { sampleEnv.crypto with
        sha256 := fun bytes =>
          if bytes = joinBody otherRequestId otherDeviceId then
            [108, 223, 214, 163, 205, 118, 104, 166, 181, 208, 59, 145, 173, 151, 120, 107, 127, 89, 36, 214,
              191, 26, 8, 197, 28, 205, 237, 128, 241, 69, 240, 70]
          else if bytes = joinBody sampleRequestId otherDeviceId then
            [125, 174, 104, 32, 70, 255, 253, 46, 182, 20, 81, 175, 209, 127, 45, 68, 99, 93, 84, 36, 68, 128,
              130, 164, 211, 43, 85, 189, 99, 102, 158, 213]
          else if bytes = joinBody otherRequestId sampleDeviceId then
            [199, 184, 40, 174, 110, 22, 10, 84, 131, 225, 20, 135, 15, 25, 197, 153, 182, 224, 73, 53, 162,
              123, 157, 253, 129, 30, 204, 103, 175, 89, 33, 42]
          else sampleEnv.crypto.sha256 bytes }
    parseDeviceJoinRequest := fun body =>
      if body = joinBody otherRequestId otherDeviceId then .ok (joinOf otherRequestId otherDeviceId)
      else if body = joinBody sampleRequestId otherDeviceId then .ok (joinOf sampleRequestId otherDeviceId)
      else if body = joinBody otherRequestId sampleDeviceId then .ok (joinOf otherRequestId sampleDeviceId)
      else sampleEnv.parseDeviceJoinRequest body }

/-- A submission, signed with a nonce of its own. -/
def submission (requestId : JoinRequestId) (deviceId : DeviceId) (nonce : RequestNonce) : AccessRequest :=
  .submitJoinRequest sampleWorkspace
    { method := "POST"
      pathAndQuery := "/workspaces/ws/devices/join-requests"
      headers := .ok ⟨deviceId, ⟨1000⟩, nonce, sampleSignature⟩
      body := joinBody requestId deviceId }

def approval : AccessRequest :=
  .approveJoinRequest sampleWorkspace sampleRequestId
    (sampleHttp "/workspaces/ws/devices/join-requests/join_1/approval" sampleOwner sampleApprovalBody)

def otherNonce : RequestNonce := ⟨"nonce_2", by decide⟩

abbrev Cfg := Config ℕ Sig (ServerState ℕ) AccessRequest (ServerResult AccessResponse)

/-- Two devices ask to join. -/
def queuedRun : Option Cfg := do
  let server := accessServer ℕ queueEnv
  let run := ServerState.attempt queueEnv.crypto
  let first ← server.serve run 0 (submission sampleRequestId sampleDeviceId sampleNonce)
    ⟨sampleServer, fun _ => none⟩
  server.serve run 1 (submission otherRequestId otherDeviceId sampleNonce) first

def twiceRun : Option Cfg := do
  let server := accessServer ℕ queueEnv
  let run := ServerState.attempt queueEnv.crypto
  let queued ← queuedRun
  let started ← server.begin 2 (submission sampleRequestId otherDeviceId otherNonce) queued
  let found ← Machine.schedule run (List.replicate 5 2) started
  let approved ← server.serve run 3 approval found
  Machine.schedule run (List.replicate 2 2) approved

theorem runs_of_attempt {E : ServerEnv} (i : ℕ) (o : ServerOp) (s : ServerState ℕ) (r : ServerResult o.Val)
    (s' : ServerState ℕ) (h : s.attempt E.crypto i o = some (r, s')) : (accessServer ℕ E).sem i o s r s' :=
  ServerState.serves_of_attempt E.crypto h

theorem queuedRun_reachable {cfg : Cfg} (h : queuedRun = some cfg) :
    (accessServer ℕ queueEnv).Reachable sampleServer cfg := by
  simp only [queuedRun, Option.bind_eq_bind, Option.bind_eq_some_iff] at h
  obtain ⟨first, hfirst, hsecond⟩ := h
  exact (Machine.Reachable.serve runs_of_attempt .refl hfirst).serve runs_of_attempt hsecond

theorem twiceRun_reachable {cfg : Cfg} (h : twiceRun = some cfg) :
    (accessServer ℕ queueEnv).Reachable sampleServer cfg := by
  simp only [twiceRun, Option.bind_eq_bind, Option.bind_eq_some_iff] at h
  obtain ⟨queued, hqueued, started, hbegin, found, hfound, approved, happroved, hlast⟩ := h
  have hreach : (accessServer ℕ queueEnv).Reachable sampleServer found :=
    ((queuedRun_reachable hqueued).begin hbegin).schedule runs_of_attempt hfound
  exact (hreach.serve runs_of_attempt happroved).schedule runs_of_attempt hlast

/-- Both requests of the other device are pending. -/
def twiceOutcome (cfg : Cfg) : Bool :=
  (cfg.shared.joinRequests sampleWorkspace)[sampleRequestId]? = some (joinOf sampleRequestId otherDeviceId) ∧
    (cfg.shared.joinRequests sampleWorkspace)[otherRequestId]? = some (joinOf otherRequestId otherDeviceId)

theorem twiceRun_outcome : twiceRun.map twiceOutcome = some true := by
  decide +kernel

/-- A device has two pending requests, after a run without faults. -/
theorem queued_twice : ∃ cfg : Cfg, (accessServer ℕ queueEnv).Reachable sampleServer cfg ∧
    ¬ OnePerDevice (cfg.shared.joinRequests sampleWorkspace) := by
  obtain ⟨cfg, hcfg, hout⟩ := Option.map_eq_some_iff.mp twiceRun_outcome
  obtain ⟨hfirst, hsecond⟩ := of_decide_eq_true hout
  refine ⟨cfg, twiceRun_reachable hcfg, fun hsingle => ?_⟩
  exact absurd (hsingle _ _ _ _ hfirst hsecond rfl) (by decide)

/-! ### A run that is checked

The two devices ask to join; the first asks once more, finds its request
pending, and is about to store it. -/

/-- A call without faults, which stores nothing it has found pending before and
that is gone. -/
def orderlyRun (i : ℕ) (o : ServerOp) (s : Noted ℕ) : Option (ServerResult o.Val × Noted ℕ) :=
  let checked : Bool :=
    match o with
    | .submitJoinRequest w r => !(s.2 i).found || (s.1.joinRequests w)[r.requestId]?.isSome
    | _ => true
  if checked = true then
    (s.1.attempt queueEnv.crypto i o).map fun (r, s') => (r, s', Function.update s.2 i (note o r (s.2 i)))
  else none

theorem sem_orderlyRun (i : ℕ) (o : ServerOp) (s : Noted ℕ) (r : ServerResult o.Val) (s' : Noted ℕ)
    (h : orderlyRun i o s = some (r, s')) : (orderlyServer ℕ queueEnv).sem i o s r s' := by
  simp only [orderlyRun, Option.ite_none_right_eq_some, Option.map_eq_some_iff, Prod.exists, Prod.mk.injEq] at h
  obtain ⟨hchecked, r', next, hattempt, rfl, rfl⟩ := h
  refine ⟨⟨runs_of_attempt i o s.1 r' next hattempt, rfl⟩, fun _ w request ho hfound hgone => ?_⟩
  subst ho
  simp [hfound, hgone] at hchecked

abbrev NotedCfg := Config ℕ Sig (Noted ℕ) AccessRequest (ServerResult AccessResponse)

def checkedRun : Option NotedCfg := do
  let server := orderlyServer ℕ queueEnv
  let first ← server.serve orderlyRun 0 (submission sampleRequestId sampleDeviceId sampleNonce)
    ⟨(sampleServer, blank), fun _ => none⟩
  let second ← server.serve orderlyRun 1 (submission otherRequestId otherDeviceId sampleNonce) first
  let started ← server.begin 2 (submission sampleRequestId sampleDeviceId otherNonce) second
  Machine.schedule orderlyRun (List.replicate 5 2) started

theorem checkedRun_reachable {cfg : NotedCfg} (h : checkedRun = some cfg) :
    (orderlyServer ℕ queueEnv).Reachable (sampleServer, blank) cfg := by
  simp only [checkedRun, Option.bind_eq_bind, Option.bind_eq_some_iff] at h
  obtain ⟨first, hfirst, second, hsecond, started, hbegin, hlast⟩ := h
  have hreach : (orderlyServer ℕ queueEnv).Reachable (sampleServer, blank) second :=
    (Machine.Reachable.serve sem_orderlyRun .refl hfirst).serve sem_orderlyRun hsecond
  exact (hreach.begin hbegin).schedule sem_orderlyRun hlast

/-- Two requests are pending, and the first is about to be stored again. -/
def checkedOutcome (cfg : NotedCfg) : Bool :=
  match cfg.thread 2 with
  | some (_, .call (.submitJoinRequest w r) _) =>
    w = sampleWorkspace ∧ r = joinOf sampleRequestId sampleDeviceId ∧ (cfg.shared.2 2).found = true ∧
      (cfg.shared.1.joinRequests sampleWorkspace).toList.length = 2 ∧
      (cfg.shared.1.joinRequests sampleWorkspace)[sampleRequestId]? = some (joinOf sampleRequestId sampleDeviceId)
  | _ => false

theorem checkedRun_outcome : checkedRun.map checkedOutcome = some true := by
  decide +kernel

/-- Two requests are pending, of two devices, and one is stored again. -/
theorem queued_kept : ∃ (cfg : NotedCfg) (q : AccessRequest) (r : DeviceJoinRequest)
    (k : Sig.Resp (.submitJoinRequest sampleWorkspace r) → Prog Sig (ServerResult AccessResponse)) (s' : Noted ℕ),
    (orderlyServer ℕ queueEnv).Reachable (sampleServer, blank) cfg ∧
    (cfg.shared.1.joinRequests sampleWorkspace).toList.length = 2 ∧ Kept queueEnv cfg.bare ∧
    (∀ w, OnePerDevice (cfg.shared.1.joinRequests w)) ∧
    cfg.thread 2 = some (q, .call (.submitJoinRequest sampleWorkspace r) k) ∧ (cfg.shared.2 2).found = true ∧
    (observedServer ℕ queueEnv).sem 2 (.submitJoinRequest sampleWorkspace r) cfg.shared
      (.ok JoinRequestPutResult.alreadyPending) s' ∧
    Checked 2 (.submitJoinRequest sampleWorkspace r) cfg.shared ∧ ∀ w, OnePerDevice (s'.1.joinRequests w) := by
  obtain ⟨cfg, hcfg, hout⟩ := Option.map_eq_some_iff.mp checkedRun_outcome
  have hempty (w : WorkspaceId) : sampleServer.joinRequests w = ∅ := rfl
  have hreach := checkedRun_reachable hcfg
  obtain ⟨hkept, hchecked⟩ := join_queue_bounds queueEnv hempty
  obtain ⟨hsingle, hstores⟩ := hchecked cfg hreach
  unfold checkedOutcome at hout
  split at hout
  · rename_i q w r k hat
    obtain ⟨rfl, rfl, hfound, hlength, hpending⟩ := of_decide_eq_true hout
    have hanswer : (observedServer ℕ queueEnv).sem 2 (.submitJoinRequest sampleWorkspace
        (joinOf sampleRequestId sampleDeviceId)) cfg.shared (.ok JoinRequestPutResult.alreadyPending)
        (cfg.shared.1, Function.update cfg.shared.2 2 (cfg.shared.2 2)) :=
      ⟨runs_of_attempt 2 _ cfg.shared.1 _ cfg.shared.1 (congrArg some (resubmitted rfl hpending)), rfl⟩
    have hfine : Checked 2 (.submitJoinRequest sampleWorkspace (joinOf sampleRequestId sampleDeviceId)) cfg.shared := by
      intro w' r' ho _ hgone
      cases ho
      cases hpending.symm.trans hgone
    exact ⟨cfg, q, _, k, _, hreach, hlength, hkept cfg.bare hreach.of_restrict.of_observed, hsingle, hat,
      hfound, hanswer,
      hfine, (hstores 2 q _ _ k _ _ hat hanswer).mpr hfine⟩
  · cases hout

end Sample

end RustSync.JoinQueue
