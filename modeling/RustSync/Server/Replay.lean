/-
The replay cache of the server

`authenticate` checks a request's timestamp against the clock, waits for the
access state, and only then gives the request to
`ReplayCache::check_and_record`, so requests may reach the cache in another
order than they were validated in. The cache prunes with the timestamp of the
request it is given: it forgets every entry more than `max_age` seconds older
than that timestamp, and only then looks for the request's own key. So it may
forget an entry whose request can still come back: one that is in the window
by the clock (a timestamp may be up to 300 seconds ahead of it), or one that
was validated a while ago and has waited since. The captured request is then
accepted again.

A step is harmless exactly when it forgets no such entry but its own
(`KeepsReturning`): if every step of a run is, no request is accepted twice
(`accepted_nodup`), and from the first step that is not, one replay is
enough (`replay_accepted`).

Key definitions: `validateTimestamp`, `checkAndRecord`, `Authentication`,
`Authentication.step`, `KeepsReturning`.
-/
import RustSync.Server.Error
import Mathlib.Logic.Function.Basic
import Mathlib.Data.List.Nodup

namespace RustSync
namespace Replay

def maxTimestampSkewSeconds : ℕ := 5 * 60

structure ReplayKey where
  workspaceId : WorkspaceId
  deviceId : DeviceId
  nonce : RequestNonce
deriving DecidableEq

/-- `seen`, a hash map: the timestamp recorded for each key. -/
abbrev ReplayCache := ReplayKey → Option UnixTimestamp

def ReplayCache.default : ReplayCache := fun _ => none

/-- `u64::abs_diff`. -/
def absDiff (a b : ℕ) : ℕ := (a - b) + (b - a)

/-- The middleware's window: the timestamp is at most 300 seconds from the
clock, in either direction. -/
def validateTimestamp (now timestamp : UnixTimestamp) : ServerResult Unit :=
  if maxTimestampSkewSeconds < absDiff now.secs timestamp.secs then
    .error .authTimestampOutsideWindow
  else .ok ()

/-- `seen.retain`: the entries of `minTimestamp` on. -/
def ReplayCache.retain (seen : ReplayCache) (minTimestamp : ℕ) : ReplayCache :=
  fun k => (seen k).filter fun t => minTimestamp ≤ t.secs

def checkAndRecord (seen : ReplayCache) (workspaceId : WorkspaceId) (deviceId : DeviceId)
    (nonce : RequestNonce) (timestamp : UnixTimestamp) (maxAgeSeconds : ℕ) :
    ServerResult Unit × ReplayCache :=
  let minTimestamp := timestamp.secs - maxAgeSeconds
  let seen := seen.retain minTimestamp
  let key : ReplayKey := ⟨workspaceId, deviceId, nonce⟩
  if (seen key).isSome then (.error .replayDetected, seen)
  else (.ok (), Function.update seen key (some timestamp))

/-! ### Runs -/

/-- A signed request, by what it is validated and recorded with. -/
structure Arrival where
  workspaceId : WorkspaceId
  deviceId : DeviceId
  nonce : RequestNonce
  timestamp : UnixTimestamp
deriving DecidableEq

def Arrival.key (a : Arrival) : ReplayKey := ⟨a.workspaceId, a.deviceId, a.nonce⟩

/-- The call `authenticate` makes. -/
def Arrival.serve (a : Arrival) (seen : ReplayCache) : ServerResult Unit × ReplayCache :=
  checkAndRecord seen a.workspaceId a.deviceId a.nonce a.timestamp maxTimestampSkewSeconds

/-- The key and timestamp a request is accepted with, if it is. -/
def Arrival.acceptedBy (a : Arrival) (seen : ReplayCache) : List (ReplayKey × UnixTimestamp) :=
  match (a.serve seen).1 with
  | .ok () => [(a.key, a.timestamp)]
  | .error _ => []

/-- The server between two steps of its requests: the time, the requests that
have passed `validate_timestamp` and wait for the access state, the cache, and
what `check_and_record` has accepted so far. -/
structure Authentication where
  clock : UnixTimestamp
  awaiting : List Arrival
  seen : ReplayCache
  accepted : List (ReplayKey × UnixTimestamp)

def Authentication.initial : Authentication := ⟨⟨0⟩, [], ReplayCache.default, []⟩

/-- The two steps of `authenticate`, and the time of each. A request without an
active device record or with a bad signature makes the first one only. -/
inductive Event
  | validate (now : UnixTimestamp) (a : Arrival)
  | record (now : UnixTimestamp) (a : Arrival)

def Event.arrival : Event → Arrival
  | .validate _ a | .record _ a => a

/-- A step, where it can be taken: the clock never goes back, a request has to
pass `validate_timestamp`, and it is recorded once for each time it did. -/
def Authentication.step (s : Authentication) : Event → Option Authentication
  | .validate now a =>
    if s.clock.secs ≤ now.secs ∧ validateTimestamp now a.timestamp = .ok () then
      some { s with clock := now, awaiting := a :: s.awaiting }
    else none
  | .record now a =>
    if s.clock.secs ≤ now.secs ∧ a ∈ s.awaiting then
      some {
        clock := now
        awaiting := s.awaiting.erase a
        seen := (a.serve s.seen).2
        accepted := s.accepted ++ a.acceptedBy s.seen }
    else none

def Authentication.run (s : Authentication) (events : List Event) : Option Authentication :=
  events.foldlM Authentication.step s

/-- A request of this key and timestamp may reach the cache from `now` on: it
would pass `validate_timestamp` again, or it has passed and waits. -/
def Authentication.MayReturn (s : Authentication) (now : UnixTimestamp) (k : ReplayKey) (t : UnixTimestamp) : Prop :=
  now.secs ≤ t.secs + maxTimestampSkewSeconds ∨ ∃ b ∈ s.awaiting, b.key = k ∧ b.timestamp = t

/-- The step forgets no entry of another key of which an accepted request may
return. -/
def KeepsReturning (s : Authentication) : Event → Prop
  | .validate _ _ => True
  | .record now a => ∀ k t t', k ≠ a.key → (k, t) ∈ s.accepted → s.MayReturn now k t → s.seen k = some t' →
      a.timestamp.secs ≤ t'.secs + maxTimestampSkewSeconds

/-- Every step of the run does. -/
def RunKeeps : Authentication → List Event → Prop
  | _, [] => True
  | s, e :: events => KeepsReturning s e ∧ ∀ s', s.step e = some s' → RunKeeps s' events

theorem validateTimestamp_ok {now t : UnixTimestamp} :
    validateTimestamp now t = .ok () ↔
      now.secs ≤ t.secs + maxTimestampSkewSeconds ∧ t.secs ≤ now.secs + maxTimestampSkewSeconds := by
  unfold validateTimestamp absDiff
  split
  · constructor
    · intro h
      cases h
    · omega
  · simp only [true_iff]
    omega

/-! ### One step -/

/-- The pruned cache holds the entries that reach `minTimestamp`. -/
theorem retain_eq_some {seen : ReplayCache} {m : ℕ} {k : ReplayKey} {t : UnixTimestamp} :
    seen.retain m k = some t ↔ seen k = some t ∧ m ≤ t.secs := by
  simp [ReplayCache.retain, Option.filter_eq_some_iff]

/-- All a request does to the cache: it is rejected, its key being in the
pruned cache, or accepted and recorded there. -/
theorem serve_cases (a : Arrival) (seen : ReplayCache) :
    let kept := seen.retain (a.timestamp.secs - maxTimestampSkewSeconds)
    (∃ t, kept a.key = some t ∧ a.acceptedBy seen = [] ∧ (a.serve seen).2 = kept) ∨
      (kept a.key = none ∧ a.acceptedBy seen = [(a.key, a.timestamp)] ∧
        (a.serve seen).2 = Function.update kept a.key (some a.timestamp)) := by
  intro kept
  cases hk : kept a.key with
  | none =>
    right
    have hs : a.serve seen = (.ok (), Function.update kept a.key (some a.timestamp)) := by
      unfold Arrival.serve checkAndRecord
      exact if_neg (show ¬ (kept a.key).isSome = true by rw [hk]; simp)
    exact ⟨rfl, by simp [Arrival.acceptedBy, hs], by rw [hs]⟩
  | some t =>
    left
    have hs : a.serve seen = (.error .replayDetected, kept) := by
      unfold Arrival.serve checkAndRecord
      exact if_pos (show (kept a.key).isSome = true by rw [hk]; rfl)
    exact ⟨t, rfl, by simp [Arrival.acceptedBy, hs], by rw [hs]⟩

/-- A request is accepted by its own key and timestamp. -/
theorem eq_of_mem_acceptedBy {a : Arrival} {seen : ReplayCache} {k : ReplayKey} {t : UnixTimestamp}
    (h : (k, t) ∈ a.acceptedBy seen) : k = a.key ∧ t = a.timestamp := by
  rcases serve_cases a seen with ⟨_, _, hacc, _⟩ | ⟨_, hacc, _⟩
  · rw [hacc] at h
    cases h
  · rw [hacc, List.mem_singleton, Prod.mk.injEq] at h
    exact h

/-- The cache after the step, at another key, is the pruned cache. -/
theorem serve_of_ne {a : Arrival} {seen : ReplayCache} {k : ReplayKey} (h : k ≠ a.key) :
    (a.serve seen).2 k = seen.retain (a.timestamp.secs - maxTimestampSkewSeconds) k := by
  rcases serve_cases a seen with ⟨_, _, _, hs⟩ | ⟨_, _, hs⟩
  · rw [hs]
  · rw [hs, Function.update_of_ne h]

theorem step_validate {s s' : Authentication} {now : UnixTimestamp} {a : Arrival} :
    s.step (.validate now a) = some s' ↔
      (s.clock.secs ≤ now.secs ∧ validateTimestamp now a.timestamp = .ok ()) ∧
        ⟨now, a :: s.awaiting, s.seen, s.accepted⟩ = s' := by
  simp only [Authentication.step, Option.ite_none_right_eq_some, Option.some.injEq]

theorem step_record {s s' : Authentication} {now : UnixTimestamp} {a : Arrival} :
    s.step (.record now a) = some s' ↔
      (s.clock.secs ≤ now.secs ∧ a ∈ s.awaiting) ∧
        ⟨now, s.awaiting.erase a, (a.serve s.seen).2, s.accepted ++ a.acceptedBy s.seen⟩ = s' := by
  simp only [Authentication.step, Option.ite_none_right_eq_some, Option.some.injEq]

/-- What every run keeps: no request that waits or was accepted has a
timestamp far ahead of the clock. -/
structure Timestamped (s : Authentication) : Prop where
  awaiting : ∀ b ∈ s.awaiting, b.timestamp.secs ≤ s.clock.secs + maxTimestampSkewSeconds
  accepted : ∀ k t, (k, t) ∈ s.accepted → t.secs ≤ s.clock.secs + maxTimestampSkewSeconds

/-- What a run of harmless steps keeps besides: nothing was accepted twice,
and an accepted request that may return is covered by an entry at least as
late as it. -/
structure Covered (s : Authentication) : Prop where
  nodup : s.accepted.Nodup
  covers : ∀ k t, (k, t) ∈ s.accepted → s.MayReturn s.clock k t → ∃ t', s.seen k = some t' ∧ t.secs ≤ t'.secs

theorem timestamped_initial : Timestamped Authentication.initial := by
  constructor
  · intro b hb
    cases hb
  · intro k t hk
    cases hk

theorem covered_initial : Covered Authentication.initial := by
  refine ⟨List.nodup_nil, fun k t hk _ => ?_⟩
  cases hk

theorem Timestamped.step {s s' : Authentication} {e : Event} (hs : Timestamped s) (h : s.step e = some s') :
    Timestamped s' := by
  cases e with
  | validate now a =>
    obtain ⟨⟨hclock, hvalid⟩, rfl⟩ := step_validate.mp h
    have hwindow := validateTimestamp_ok.mp hvalid
    constructor
    · intro b hb
      rcases List.mem_cons.mp hb with rfl | hb
      · exact hwindow.2
      · have := hs.awaiting b hb
        show b.timestamp.secs ≤ now.secs + maxTimestampSkewSeconds
        omega
    · intro k t hk
      have := hs.accepted k t hk
      show t.secs ≤ now.secs + maxTimestampSkewSeconds
      omega
  | record now a =>
    obtain ⟨⟨hclock, hmem⟩, rfl⟩ := step_record.mp h
    constructor
    · intro b hb
      have := hs.awaiting b (List.mem_of_mem_erase hb)
      show b.timestamp.secs ≤ now.secs + maxTimestampSkewSeconds
      omega
    · intro k t hk
      show t.secs ≤ now.secs + maxTimestampSkewSeconds
      rcases List.mem_append.mp hk with hk | hk
      · have := hs.accepted k t hk
        omega
      · obtain ⟨_, rfl⟩ := eq_of_mem_acceptedBy hk
        have := hs.awaiting a hmem
        omega

/-- A request that may return later may return now. -/
theorem MayReturn.before {s : Authentication} {now : UnixTimestamp} {k : ReplayKey} {t : UnixTimestamp}
    {left : List Arrival} (hclock : s.clock.secs ≤ now.secs) (hleft : ∀ b ∈ left, b ∈ s.awaiting)
    (h : now.secs ≤ t.secs + maxTimestampSkewSeconds ∨ ∃ b ∈ left, b.key = k ∧ b.timestamp = t) :
    s.MayReturn s.clock k t := by
  rcases h with h | ⟨b, hb, heq⟩
  · exact .inl (by omega)
  · exact .inr ⟨b, hleft b hb, heq⟩

/-- Where the cache covers what was accepted, an accepted request is new. -/
theorem Covered.fresh {s : Authentication} (hs : Covered s) {a : Arrival} (ha : a ∈ s.awaiting) :
    List.Disjoint s.accepted (a.acceptedBy s.seen) := by
  intro x hx hx'
  rcases serve_cases a s.seen with ⟨_, _, hacc, _⟩ | ⟨hnone, hacc, _⟩
  · rw [hacc] at hx'
    cases hx'
  · rw [hacc, List.mem_singleton] at hx'
    subst hx'
    obtain ⟨t', ht', hle⟩ := hs.covers _ _ hx (.inr ⟨a, ha, rfl, rfl⟩)
    rw [retain_eq_some.mpr ⟨ht', by omega⟩] at hnone
    cases hnone

/-- The request's own key stays covered: its entry stays, or the later
timestamp takes its place. -/
theorem covers_own {a : Arrival} {seen : ReplayCache} {t t' : UnixTimestamp} (ht' : seen a.key = some t')
    (hle : t.secs ≤ t'.secs) : ∃ u, (a.serve seen).2 a.key = some u ∧ t.secs ≤ u.secs := by
  rcases serve_cases a seen with ⟨u, hu, _, hs⟩ | ⟨hnone, _, hs⟩
  · have hut := (retain_eq_some.mp hu).1
    rw [ht'] at hut
    cases hut
    exact ⟨t', by rw [hs, hu], hle⟩
  · refine ⟨a.timestamp, by rw [hs, Function.update_self], ?_⟩
    have hlt : t'.secs < a.timestamp.secs - maxTimestampSkewSeconds := by
      by_contra hge
      rw [retain_eq_some.mpr ⟨ht', by omega⟩] at hnone
      cases hnone
    omega

theorem Covered.step {s s' : Authentication} {e : Event} (hs : Covered s) (hkeep : KeepsReturning s e)
    (h : s.step e = some s') : Covered s' := by
  cases e with
  | validate now a =>
    obtain ⟨⟨hclock, hvalid⟩, rfl⟩ := step_validate.mp h
    have hwindow := validateTimestamp_ok.mp hvalid
    refine ⟨hs.nodup, fun k t hk hreturn => hs.covers k t hk ?_⟩
    rcases hreturn with hin | ⟨b, hb, hkey, htime⟩
    · exact .inl (Nat.le_trans hclock hin)
    · rcases List.mem_cons.mp hb with rfl | hb
      · exact .inl (by rw [← htime]; omega)
      · exact .inr ⟨b, hb, hkey, htime⟩
  | record now a =>
    obtain ⟨⟨hclock, hmem⟩, rfl⟩ := step_record.mp h
    constructor
    · have hone : (a.acceptedBy s.seen).Nodup := by
        rcases serve_cases a s.seen with ⟨_, _, hacc, _⟩ | ⟨_, hacc, _⟩ <;> simp [hacc]
      exact List.nodup_append'.mpr ⟨hs.nodup, hone, hs.fresh hmem⟩
    · intro k t hk hreturn
      show ∃ t', (a.serve s.seen).2 k = some t' ∧ t.secs ≤ t'.secs
      rcases List.mem_append.mp hk with hk | hk
      · obtain ⟨t', ht', hle⟩ := hs.covers k t hk
          (MayReturn.before hclock (fun b hb => List.mem_of_mem_erase hb) hreturn)
        by_cases hka : k = a.key
        · subst hka
          exact covers_own ht' hle
        · have hstill : s.MayReturn now k t :=
            hreturn.imp_right fun ⟨b, hb, heq⟩ => ⟨b, List.mem_of_mem_erase hb, heq⟩
          have hstay := hkeep k t t' hka hk hstill ht'
          refine ⟨t', ?_, hle⟩
          rw [serve_of_ne hka]
          exact retain_eq_some.mpr ⟨ht', by omega⟩
      · obtain ⟨rfl, rfl⟩ := eq_of_mem_acceptedBy hk
        rcases serve_cases a s.seen with ⟨_, _, hacc, _⟩ | ⟨_, _, hseen⟩
        · rw [hacc] at hk
          cases hk
        · exact ⟨a.timestamp, by rw [hseen, Function.update_self], (Nat.le_refl _)⟩

/-! ### Whole runs -/

theorem run_append {s s' : Authentication} {pre post : List Event} (h : s.run (pre ++ post) = some s') :
    ∃ mid, s.run pre = some mid ∧ mid.run post = some s' := by
  unfold Authentication.run at h
  rw [List.foldlM_append] at h
  exact Option.bind_eq_some_iff.mp h

theorem run_cons {s s' : Authentication} {e : Event} {events : List Event} (h : s.run (e :: events) = some s') :
    ∃ mid, s.step e = some mid ∧ mid.run events = some s' := by
  unfold Authentication.run at h
  rw [List.foldlM_cons] at h
  exact Option.bind_eq_some_iff.mp h

theorem run_nil (s : Authentication) : s.run [] = some s := rfl

theorem run_of_cons {s mid s' : Authentication} {e : Event} {events : List Event} (he : s.step e = some mid)
    (hrest : mid.run events = some s') : s.run (e :: events) = some s' := by
  unfold Authentication.run at *
  rw [List.foldlM_cons, he]
  exact hrest

theorem run_of_append {s mid s' : Authentication} {pre post : List Event} (hpre : s.run pre = some mid)
    (hpost : mid.run post = some s') : s.run (pre ++ post) = some s' := by
  unfold Authentication.run at *
  rw [List.foldlM_append, hpre]
  exact hpost

theorem timestamped_run : ∀ (events : List Event) (s s' : Authentication), Timestamped s →
    s.run events = some s' → Timestamped s'
  | [], _, _, hs, h => by
    cases h
    exact hs
  | _ :: events, _, _, hs, h => by
    obtain ⟨mid, hstep, hrest⟩ := run_cons h
    exact timestamped_run events mid _ (hs.step hstep) hrest

/-- A run of harmless steps accepts nothing twice. -/
theorem accepted_nodup : ∀ (events : List Event) (s s' : Authentication), Covered s → RunKeeps s events →
    s.run events = some s' → Covered s'
  | [], _, _, hs, _, h => by
    cases h
    exact hs
  | _ :: events, _, _, hs, hkeep, h => by
    obtain ⟨mid, hstep, hrest⟩ := run_cons h
    exact accepted_nodup events mid _ (hs.step hkeep.1 hstep) (hkeep.2 mid hstep) hrest

/-- The request of an entry `k` of timestamp `t`. -/
def replayOf (k : ReplayKey) (t : UnixTimestamp) : Arrival := ⟨k.workspaceId, k.deviceId, k.nonce, t⟩

/-- A request that the cache does not know is accepted when its turn comes,
also for the second time. -/
theorem accepted_again {s : Authentication} (now : UnixTimestamp) {b : Arrival} (hclock : s.clock.secs ≤ now.secs)
    (hb : b ∈ s.awaiting) (hgone : s.seen b.key = none) (hbefore : (b.key, b.timestamp) ∈ s.accepted) :
    ∃ s', s.step (.record now b) = some s' ∧ ¬ s'.accepted.Nodup := by
  have hacc : b.acceptedBy s.seen = [(b.key, b.timestamp)] := by
    rcases serve_cases b s.seen with ⟨u, hu, _, _⟩ | ⟨_, hacc, _⟩
    · have := (retain_eq_some.mp hu).1
      rw [hgone] at this
      cases this
    · exact hacc
  refine ⟨_, step_record.mpr ⟨⟨hclock, hb⟩, rfl⟩, fun hnodup => ?_⟩
  have hdisjoint := (List.nodup_append'.mp hnodup).2.2
  exact hdisjoint hbefore (by simp [hacc])

/-- A step that forgets an entry of another key, of which an accepted request
may return, lets that request be replayed at once. -/
theorem replay_accepted {s s' : Authentication} {e : Event} (hs : Timestamped s) (hstep : s.step e = some s')
    (hbad : ¬ KeepsReturning s e) :
    ∃ more s'', s'.run more = some s'' ∧ ¬ s''.accepted.Nodup := by
  cases e with
  | validate now a => exact absurd trivial hbad
  | record now a =>
    simp only [KeepsReturning, not_forall] at hbad
    obtain ⟨k, t, t', hka, hk, hreturn, ht', hold⟩ := hbad
    obtain ⟨⟨hclock, hmem⟩, rfl⟩ := step_record.mp hstep
    -- the step forgets the entry, so the replay finds no record of it
    have hgone : (a.serve s.seen).2 k = none := by
      rw [serve_of_ne hka]
      cases hr : s.seen.retain (a.timestamp.secs - maxTimestampSkewSeconds) k with
      | none => rfl
      | some u =>
        obtain ⟨hu, hle⟩ := retain_eq_some.mp hr
        rw [ht'] at hu
        cases hu
        omega
    rcases hreturn with hin | ⟨b, hb, rfl, rfl⟩
    · have htime := hs.accepted k t hk
      have hvalid : validateTimestamp now (replayOf k t).timestamp = .ok () :=
        validateTimestamp_ok.mpr ⟨hin, show t.secs ≤ _ by omega⟩
      obtain ⟨s'', hagain, hnodup⟩ := accepted_again now
        (s := ⟨now, replayOf k t :: s.awaiting.erase a, (a.serve s.seen).2, s.accepted ++ a.acceptedBy s.seen⟩)
        (Nat.le_refl _) List.mem_cons_self hgone (List.mem_append_left _ hk)
      exact ⟨_, s'', run_of_cons (step_validate.mpr ⟨⟨Nat.le_refl _, hvalid⟩, rfl⟩)
        (run_of_cons hagain (run_nil _)), hnodup⟩
    · have hstays : b ∈ s.awaiting.erase a := (List.mem_erase_of_ne (fun h => hka (by rw [h]))).mpr hb
      obtain ⟨s'', hagain, hnodup⟩ := accepted_again now
        (s := ⟨now, s.awaiting.erase a, (a.serve s.seen).2, s.accepted ++ a.acceptedBy s.seen⟩)
          (Nat.le_refl _) hstays hgone
        (List.mem_append_left _ hk)
      exact ⟨_, s'', run_of_cons hagain (run_nil _), hnodup⟩

/-- A run that does not keep them has a first step that does not. -/
theorem exists_of_not_runKeeps : ∀ (events : List Event) (s : Authentication), ¬ RunKeeps s events →
    ∃ pre e post mid, events = pre ++ e :: post ∧ s.run pre = some mid ∧ ¬ KeepsReturning mid e
  | [], _, h => absurd trivial h
  | e :: events, s, h => by
    by_cases he : KeepsReturning s e
    · simp only [RunKeeps, not_and, not_forall] at h
      obtain ⟨s', hstep, hrest⟩ := h he
      obtain ⟨pre, e', post, mid, rfl, hpre, hbad⟩ := exists_of_not_runKeeps events s' hrest
      exact ⟨e :: pre, e', post, mid, rfl, run_of_cons hstep hpre, hbad⟩
    · exact ⟨[], e, events, s, rfl, rfl, he⟩

/-- What an entry of the cache is after a request: what it was, or the
request's own. -/
theorem of_serve_eq_some {a : Arrival} {seen : ReplayCache} {k : ReplayKey} {t : UnixTimestamp}
    (h : (a.serve seen).2 k = some t) : seen k = some t ∨ t = a.timestamp := by
  by_cases hka : k = a.key
  · subst hka
    rcases serve_cases a seen with ⟨_, _, _, hs⟩ | ⟨_, _, hs⟩
    · rw [hs] at h
      exact .inl (retain_eq_some.mp h).1
    · rw [hs, Function.update_self] at h
      exact .inr (Option.some.inj h).symm
  · rw [serve_of_ne hka] at h
    exact .inl (retain_eq_some.mp h).1

/-- Requests that are signed within 300 seconds of one another are harmless,
in whatever order they are recorded. -/
theorem runKeeps_of_within (m : ℕ) : ∀ (events : List Event) (s : Authentication),
    (∀ e ∈ events, m ≤ e.arrival.timestamp.secs ∧ e.arrival.timestamp.secs ≤ m + maxTimestampSkewSeconds) →
    (∀ k t, s.seen k = some t → m ≤ t.secs) → RunKeeps s events
  | [], _, _, _ => trivial
  | e :: events, s, hwithin, hseen => by
    have hrest := fun e he => hwithin e (List.mem_cons_of_mem _ he)
    have he := hwithin e List.mem_cons_self
    cases e with
    | validate now a =>
      refine ⟨trivial, fun s' hstep => runKeeps_of_within m events s' hrest ?_⟩
      obtain ⟨_, rfl⟩ := step_validate.mp hstep
      exact hseen
    | record now a =>
      refine ⟨fun k t t' _ _ _ ht' => ?_, fun s' hstep => runKeeps_of_within m events s' hrest ?_⟩
      · have := hseen k t' ht'
        have : a.timestamp.secs ≤ m + maxTimestampSkewSeconds := he.2
        omega
      · obtain ⟨_, rfl⟩ := step_record.mp hstep
        intro k t ht
        rcases of_serve_eq_some ht with ht | rfl
        · exact hseen k t ht
        · exact he.1

/-! ### Replay safety -/

/-- No request has been accepted twice. -/
def ReplaySafe (s : Authentication) : Prop := s.accepted.Nodup

/-- **When the cache is replay safe.** A run whose steps forget no entry of
another key of which an accepted request may return accepts nothing twice; and
a run with a step that does has a beginning, up to that step, that one replay
turns into a run that accepts a request twice. -/
theorem replaySafe_of_runKeeps (events : List Event) (s : Authentication)
    (h : Authentication.initial.run events = some s) :
    (RunKeeps Authentication.initial events → ReplaySafe s) ∧
      (¬ RunKeeps Authentication.initial events →
        ∃ pre more s', pre <+: events ∧ Authentication.initial.run (pre ++ more) = some s' ∧ ¬ ReplaySafe s') := by
  constructor
  · intro hkeep
    exact (accepted_nodup events _ s covered_initial hkeep h).nodup
  · intro hbad
    obtain ⟨pre, e, post, mid, rfl, hpre, hstep⟩ := exists_of_not_runKeeps events _ hbad
    obtain ⟨mid', hmid', hrest⟩ := run_append h
    rw [hpre] at hmid'
    cases hmid'
    obtain ⟨after, he, _⟩ := run_cons hrest
    obtain ⟨more, s', hmore, hn⟩ := replay_accepted (timestamped_run pre _ mid timestamped_initial hpre) he hstep
    refine ⟨pre ++ [e], more, s', ⟨post, by simp⟩, ?_, hn⟩
    exact run_of_append (run_of_append hpre (run_of_cons he (run_nil _))) hmore

/-! ### A replay -/

theorem ws_valid : validateTextId workspaceIdKind "ws" = .ok () := by decide

/-- A request of some device of the workspace `ws`. -/
def arrivalOf (device : DeviceId) (nonce : RequestNonce) (timestamp : UInt64) : Arrival :=
  ⟨⟨"ws", ws_valid⟩, device, nonce, ⟨timestamp⟩⟩

def alice : DeviceId := ⟨"device_a", by decide⟩
def bob : DeviceId := ⟨"device_b", by decide⟩
def firstNonce : RequestNonce := ⟨"n1", by decide⟩
def secondNonce : RequestNonce := ⟨"n2", by decide⟩

/-- Bob's clock is 300 seconds ahead: his request makes the cache forget
Alice's, a second old, which is then accepted again. -/
def replayedRun : List Event :=
  [.validate ⟨1000⟩ (arrivalOf alice firstNonce 1000), .record ⟨1000⟩ (arrivalOf alice firstNonce 1000),
    .validate ⟨1001⟩ (arrivalOf bob secondNonce 1301), .record ⟨1001⟩ (arrivalOf bob secondNonce 1301),
    .validate ⟨1001⟩ (arrivalOf alice firstNonce 1000), .record ⟨1001⟩ (arrivalOf alice firstNonce 1000)]

theorem not_replaySafe : ¬ ∀ events s, Authentication.initial.run events = some s → ReplaySafe s := by
  intro h
  obtain ⟨s, hrun, hbad⟩ : ∃ s, Authentication.initial.run replayedRun = some s ∧ ¬ s.accepted.Nodup :=
    ⟨_, rfl, by decide⟩
  exact hbad (h replayedRun s hrun)

/-- Here no request is ahead of the clock. A copy of Alice's has passed
`validate_timestamp` and waits while the cache forgets the original. -/
def overtakenRun : List Event :=
  [.validate ⟨1000⟩ (arrivalOf alice firstNonce 1000), .record ⟨1000⟩ (arrivalOf alice firstNonce 1000),
    .validate ⟨1300⟩ (arrivalOf alice firstNonce 1000), .validate ⟨1301⟩ (arrivalOf bob secondNonce 1301),
    .record ⟨1301⟩ (arrivalOf bob secondNonce 1301), .record ⟨1301⟩ (arrivalOf alice firstNonce 1000)]

example : ∃ s, Authentication.initial.run overtakenRun = some s ∧ ¬ s.accepted.Nodup := ⟨_, rfl, by decide⟩

/-- Bob's clock agrees with the server's. A copy of Alice's request that waits
for its access state all the while is refused when its turn comes. -/
def refusedRun : List Event :=
  [.validate ⟨1000⟩ (arrivalOf alice firstNonce 1000), .validate ⟨1000⟩ (arrivalOf alice firstNonce 1000),
    .record ⟨1000⟩ (arrivalOf alice firstNonce 1000), .validate ⟨1001⟩ (arrivalOf bob secondNonce 1001),
    .record ⟨1002⟩ (arrivalOf bob secondNonce 1001), .record ⟨1002⟩ (arrivalOf alice firstNonce 1000)]

theorem refusedRun_keeps : RunKeeps Authentication.initial refusedRun :=
  runKeeps_of_within 1000 refusedRun _ (by decide) fun k t h => by cases h

theorem refusedRun_replaySafe : ∃ s, Authentication.initial.run refusedRun = some s ∧
    RunKeeps Authentication.initial refusedRun ∧ s.accepted.length = 2 ∧ ReplaySafe s := by
  obtain ⟨s, hrun, hlength⟩ : ∃ s, Authentication.initial.run refusedRun = some s ∧ s.accepted.length = 2 :=
    ⟨_, rfl, by decide⟩
  exact ⟨s, hrun, refusedRun_keeps, hlength, (replaySafe_of_runKeeps refusedRun s hrun).1 refusedRun_keeps⟩

end Replay
end RustSync
