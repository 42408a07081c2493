/-
One compare-and-swap register

A workspace's head is a register that counts its updates: an update of a
stored manifest succeeds exactly when it expects the current revision, and
moves on by one; otherwise the register stays and answers with what it holds,
or fails where the manifest is not stored (`HeadRegister.Step`). Both stores
implement it: in every interleaving each call takes effect at one moment
between its start and its end, and each can come to its end (`Refines`). For
SQLite the moment is the transaction, or the read that finds no manifest; for
the plain store it is the read or the replacement of the head file under the
lock. A manifest is stored from the moment a file of its digest is linked,
whether a manifest or a blob was put.

Key definitions: `HeadRegister.Step`, `IndexedFs.event`, `Fs.event`,
`Answers`, `Refines`.
-/
import Mathlib.Data.Set.Insert
import RustSync.Lib.Linearization
import RustSync.Server.HeadStore
import RustSync.Server.ObjectIntegrity

namespace RustSync

open Fallible

/-! ### The register -/

/-- What happens to the register. -/
inductive HeadEvent where
  | got (head : WorkspaceHead)
  | updated (update : HeadUpdate) (head : WorkspaceHead)
  | conflict (update : HeadUpdate) (head : WorkspaceHead)
  | failed (update : HeadUpdate)
  | stored (id : ManifestId)

structure HeadRegister where
  head : WorkspaceHead
  stored : Set ManifestId

namespace HeadRegister

variable (ws : WorkspaceId)

/-- The head an update installs. -/
def next (r : HeadRegister) (u : HeadUpdate) (now : UnixTimestamp) : WorkspaceHead :=
  ⟨ws, some u.manifestId, r.head.revision + 1, u.updatedBy, some now⟩

inductive Step : HeadRegister → HeadEvent → HeadRegister → Prop
  | got {r : HeadRegister} : Step r (.got r.head) r
  | updated {r : HeadRegister} {u : HeadUpdate} {now : UnixTimestamp} (hstored : u.manifestId ∈ r.stored)
      (hrev : u.expectedRevision = r.head.revision) :
      Step r (.updated u (r.next ws u now)) { r with head := r.next ws u now }
  | conflict {r : HeadRegister} {u : HeadUpdate} (hstored : u.manifestId ∈ r.stored)
      (hrev : u.expectedRevision ≠ r.head.revision) : Step r (.conflict u r.head) r
  | failed {r : HeadRegister} {u : HeadUpdate} (hmissing : u.manifestId ∉ r.stored) : Step r (.failed u) r
  | stored {r : HeadRegister} {id : ManifestId} :
      Step r (.stored id) { r with stored := insert id r.stored }

/-- The successful updates of a history, and what they installed. -/
def updates (log : List HeadEvent) : List (HeadUpdate × WorkspaceHead) :=
  log.filterMap fun e =>
    match e with
    | .updated u head => some (u, head)
    | _ => none

/-- What follows for a register that started empty: the successful updates
expected 0, 1, 2, ... and installed 1, 2, 3, ..., and the head names a stored
manifest unless nothing was installed yet. -/
structure Counts (log : List HeadEvent) (r : HeadRegister) : Prop where
  expected : (updates log).map (fun p => p.1.expectedRevision.toNat) = List.range r.head.revision.toNat
  installed : (updates log).map (fun p => p.2.revision.toNat) = (List.range r.head.revision.toNat).map (· + 1)
  named : r.head.manifestId = none ↔ r.head.revision = 0
  stored : ∀ id, r.head.manifestId = some id → id ∈ r.stored

variable {ws}

theorem counts {stored : Set ManifestId} {log : List HeadEvent} {r : HeadRegister}
    (h : Legal (Step ws) ⟨.empty ws, stored⟩ log r) : Counts log r := by
  induction h with
  | nil => exact ⟨rfl, rfl, ⟨fun _ => rfl, fun _ => rfl⟩, nofun⟩
  | @snoc log r r' e _ hstep ih =>
    cases hstep with
    | got => exact ⟨by simpa [updates] using ih.expected, by simpa [updates] using ih.installed, ih.named, ih.stored⟩
    | conflict => exact ⟨by simpa [updates] using ih.expected, by simpa [updates] using ih.installed,
        ih.named, ih.stored⟩
    | failed => exact ⟨by simpa [updates] using ih.expected, by simpa [updates] using ih.installed, ih.named, ih.stored⟩
    | stored =>
      refine ⟨by simpa [updates] using ih.expected, by simpa [updates] using ih.installed, ih.named, ?_⟩
      exact fun id hid => Set.mem_insert_of_mem _ (ih.stored id hid)
    | @updated u now hstored hrev =>
      have hbound := u.bound
      have hsum : (r.head.revision + 1).toNat = r.head.revision.toNat + 1 := by
        rw [UInt64.toNat_add, UInt64.toNat_one, Nat.mod_eq_of_lt (by rw [← hrev]; omega)]
      have hlog : updates (log ++ [.updated u (r.next ws u now)]) =
          updates log ++ [(u, r.next ws u now)] := by simp [updates]
      refine ⟨?_, ?_, ?_, ?_⟩
      · rw [hlog, List.map_append, ih.expected]
        show _ = List.range (r.head.revision + 1).toNat
        rw [hsum, List.range_succ, List.map_singleton, hrev]
      · rw [hlog, List.map_append, ih.installed]
        show _ = (List.range (r.head.revision + 1).toNat).map (· + 1)
        rw [hsum, List.range_succ, List.map_append, List.map_singleton, List.map_singleton]
        show _ ++ [(r.head.revision + 1).toNat] = _
        rw [hsum]
      · constructor
        · nofun
        · intro hzero
          have hne : (r.head.revision + 1).toNat ≠ 0 := by omega
          exact absurd (congrArg UInt64.toNat hzero) hne
      · intro id hid
        cases hid
        exact hstored

end HeadRegister

/-! ### What calls commit to -/

namespace Objects

/-- The manifest whose file the path is. -/
def manifestAt (w : WorkspaceId) (path : Path) : Option ManifestId :=
  let file := path.getLast?.getD ""
  let name := String.ofList (file.toList.take (file.length - ".enc".length))
  match ObjectId.parse manifestIdKind (manifestIdKind.requiredPrefix ++ name) with
  | .ok id => if pathOf w .manifest id.asStr = path then some id else none
  | .error _ => none

theorem manifestAt_eq_some {w : WorkspaceId} {path : Path} {id : ManifestId} :
    manifestAt w path = some id ↔ pathOf w .manifest id.asStr = path := by
  constructor
  · intro h
    unfold manifestAt at h
    dsimp only at h
    split at h
    · obtain ⟨hpath, heq⟩ := Option.ite_none_right_eq_some.mp h
      rw [← Option.some.inj heq]
      exact hpath
    · cases h
  · rintro rfl
    have hname : manifestIdKind.requiredPrefix ++ nameOf .manifest id.asStr = id.asStr :=
      @append_nameOf .manifest id
    have hlast : (pathOf w .manifest id.asStr).getLast?.getD "" = nameOf .manifest id.asStr ++ ".enc" := by
      rw [pathOf_eq]
      simp [objectPath]
    have hstem : String.ofList ((nameOf .manifest id.asStr ++ ".enc").toList.take
        ((nameOf .manifest id.asStr ++ ".enc").length - ".enc".length)) = nameOf .manifest id.asStr := by
      have hlength : (nameOf .manifest id.asStr ++ ".enc").length - ".enc".length =
          (nameOf .manifest id.asStr).toList.length := by
        rw [← String.length_toList, String.toList_append, List.length_append, ← String.length_toList (s := ".enc")]
        omega
      rw [hlength, String.toList_append, List.take_left, String.ofList_toList]
    unfold manifestAt
    simp only [hlast, hstem, hname, ObjectId.parse_asStr, if_pos]

/-- The manifests whose files there are. -/
def storedIn (w : WorkspaceId) (files : Path → Option Bytes) : Set ManifestId :=
  {id | files (pathOf w .manifest id.asStr) ≠ none}

/-- The manifest that is stored once a call has made the file at `target`. -/
def storedEvent (w : WorkspaceId) (target : Option Path) (files files' : Path → Option Bytes) : Option HeadEvent :=
  target.bind fun path =>
    if (files path).isNone ∧ (files' path).isSome then (manifestAt w path).map .stored else none

/-- A call that keeps the files of the objects, and changes no file but one,
stores what it is seen to store. -/
theorem storedEvent_commits {w : WorkspaceId} {target : Option Path} {files files' : Path → Option Bytes}
    (hkept : ∀ id, id ∈ storedIn w files → id ∈ storedIn w files')
    (hothers : ∀ path, target ≠ some path → files' path = files path) (head : WorkspaceHead) :
    Commits (HeadRegister.Step w) ⟨head, storedIn w files⟩ (storedEvent w target files files')
      ⟨head, storedIn w files'⟩ := by
  have hsame (hnone : storedEvent w target files files' = none) : storedIn w files' = storedIn w files := by
    ext id
    refine ⟨fun hid => ?_, hkept id⟩
    by_cases htarget : target = some (pathOf w .manifest id.asStr)
    · have hmanifest := manifestAt_eq_some.mpr (rfl : pathOf w .manifest id.asStr = _)
      subst htarget
      by_contra hold
      have hmade : (files (pathOf w .manifest id.asStr)).isNone ∧ (files' (pathOf w .manifest id.asStr)).isSome :=
        ⟨Option.isNone_iff_eq_none.mpr (not_not.mp hold), Option.isSome_iff_ne_none.mpr hid⟩
      unfold storedEvent at hnone
      rw [Option.bind_some, if_pos hmade, hmanifest] at hnone
      cases hnone
    · have hfile := hothers _ htarget
      intro hold
      exact hid (hfile.trans hold)
  cases hevent : storedEvent w target files files' with
  | none =>
    show (_ : HeadRegister) = _
    rw [hsame hevent]
  | some e =>
    unfold storedEvent at hevent
    obtain ⟨path, rfl, hmade⟩ := Option.bind_eq_some_iff.mp hevent
    obtain ⟨hnew, hmanifest⟩ := Option.ite_none_right_eq_some.mp hmade
    obtain ⟨id, hid, rfl⟩ := Option.map_eq_some_iff.mp hmanifest
    have hpath := manifestAt_eq_some.mp hid
    have hinsert : storedIn w files' = insert id (storedIn w files) := by
      ext other
      by_cases hother : pathOf w .manifest other.asStr = path
      · have heq : other = id := Option.some.inj ((manifestAt_eq_some.mpr hother).symm.trans hid)
        subst heq
        refine ⟨fun _ => Set.mem_insert _ _, fun _ => ?_⟩
        show files' (pathOf w .manifest other.asStr) ≠ none
        rw [hpath]
        exact Option.isSome_iff_ne_none.mp hnew.2
      · have hne : other ≠ id := by
          rintro rfl
          exact hother hpath
        have hfile : files' (pathOf w .manifest other.asStr) = files (pathOf w .manifest other.asStr) :=
          hothers _ fun heq => hother (Option.some.inj heq).symm
        rw [Set.mem_insert_iff, or_iff_right hne]
        show files' _ ≠ none ↔ files _ ≠ none
        rw [hfile]
    show HeadRegister.Step w _ (.stored id) _
    rw [hinsert]
    exact .stored

/-- The file a call may change. -/
def Op.target : Op → Option Path
  | .createNew path | .writeAll path _ | .hardLink _ path | .removeFile path => some path
  | _ => none

theorem files_of_runs {ι : Type} {i : ι} {o : Op} {s s' : State ι} {r : ServerResult o.Val}
    (h : State.Runs i o s r s') {path : Path} (hpath : o.target ≠ some path) : s'.files path = s.files path := by
  obtain ⟨now, hrun⟩ := h
  have hset {p : Path} {content : Option Bytes} (hp : o.target = some p) :
      (s.setFile p content).files path = s.files path := by
    refine Function.update_of_ne (fun heq => ?_) _ _
    rw [heq] at hpath
    exact hpath hp
  cases o with
  | createNew p =>
    simp only [State.run] at hrun
    split at hrun
    · cases hrun
      exact hset rfl
    · cases hrun
      rfl
  | hardLink temp p =>
    simp only [State.run] at hrun
    split at hrun
    · cases hrun
      rfl
    · cases hrun
      rfl
    · cases hrun
      exact hset rfl
  | writeAll p bytes =>
    cases hrun
    exact hset rfl
  | removeFile p =>
    cases hrun
    exact hset rfl
  | tempPathFor p | insertObject w kind id size | lockPut =>
    simp only [State.run] at hrun
    split at hrun <;> cases hrun <;> rfl
  | readFile p | objectRowsById w kind id | objectRowsByObjectId w id | unlockPut =>
    cases hrun
    rfl

end Objects

namespace IndexedFs

variable {ι : Type} (w : WorkspaceId)

/-- The register the store holds. -/
def register (s : State ι) : HeadRegister where
  head := (Indexed.headOf w (s.heads w)).toOption.getD (.empty w)
  stored := Objects.storedIn w s.objects.files

/-- What a call of a request commits to by its answer: the transaction and the
look at the head row, and for an update the read that finds no file. -/
def headEvent : HeadRequest → (o : Op) → ServerResult o.Val → Option HeadEvent
  | .getHead, .selectHead _, .ok head => some (.got head)
  | .updateHead u, .object (.readFile _), .ok none => some (.failed u)
  | .updateHead u, .updateHead .., .ok (rowsAffected, head) =>
    some (if rowsAffected = 1 then .updated u head else .conflict u head)
  | _, _, _ => none

def Op.target : Op → Option Objects.Path
  | .object o => o.target
  | _ => none

def event (q : HeadRequest) (o : Op) (s : State ι) (r : ServerResult o.Val) (s' : State ι) : Option HeadEvent :=
  (headEvent q o r).or (Objects.storedEvent w o.target s.objects.files s'.objects.files)

end IndexedFs

namespace Fs

variable {ι : Type} (w : WorkspaceId)

/-- The register the store holds. -/
def register (s : State ι) : HeadRegister where
  head := (headOf w s.head).toOption.getD (.empty w)
  stored := Objects.storedIn w s.files

/-- What reading a head commits an update to: another revision than the
expected one is a conflict. -/
def conflictEvent (u : HeadUpdate) (current : WorkspaceHead) : Option HeadEvent :=
  if current.revision = u.expectedRevision then none else some (.conflict u current)

/-- What a call of a request commits to by its answer. -/
def headEvent : HeadRequest → (o : Op) → ServerResult o.Val → Option HeadEvent
  | .getHead, .readHead, .ok file => (headOf w file).toOption.map .got
  | .updateHead u, .tryExists _, .ok false => some (.failed u)
  | .updateHead u, .readHead, .ok file => (headOf w file).toOption.bind (conflictEvent u)
  | .updateHead u, .writeReplace json, .ok _ => (headOf w (some json)).toOption.map (.updated u)
  | _, _, _ => none

/-- The file of an object that a call may change. -/
def Op.target : Op → Option Objects.Path
  | .writeNew path _ => some path
  | _ => none

def event (q : HeadRequest) (o : Op) (s : State ι) (r : ServerResult o.Val) (s' : State ι) : Option HeadEvent :=
  (headEvent w q o r).or (Objects.storedEvent w o.target s.files s'.files)

end Fs

/-! ### Implementing it -/

/-- A request was answered with what its thread committed to. -/
def Answers : HeadRequest → ServerResult HeadResponse → List HeadEvent → Prop
  | .getHead, .ok (.head head), events => events = [.got head]
  | .updateHead u, .ok (.update .updated head), events => events = [.updated u head]
  | .updateHead u, .ok (.update .conflict head), events => events = [.conflict u head]
  | .updateHead u, .error _, events => events = [.failed u]
  | .object _, _, _ => True
  | _, _, _ => False

/-- A program that serves `q` is answered with what it commits to, failed or
not. -/
theorem outline_answers {ι Op σ : Type} [DecidableEq ι] {Val : Op → Type} {C : Contract ι σ} {w : WorkspaceId}
    {register : σ → HeadRegister} {r₀ : HeadRegister} {sem : ι → (o : Op) → σ → ServerResult (Val o) → σ → Prop}
    {event : (o : Op) → σ → ServerResult (Val o) → σ → Option HeadEvent} {i : ι} {q : HeadRequest}
    {err : σ × Log ι HeadEvent → Prop} {x : Fallible Val ServerError HeadResponse}
    (hx : Outlined (committed C (HeadRegister.Step w) register r₀) (commits sem) i err (Own i [] fun _ => True)
      (Fallible.lift (committing event) x) fun response s => Answers q (.ok response) (Log.eventsOf i s.2))
    (herr : ∀ e s, err s → Answers q (.error e) (Log.eventsOf i s.2)) :
    Outline (committed C (HeadRegister.Step w) register r₀) (commits sem) i
      (fun res s => Answers q res (Log.eventsOf i s.2)) ((committed C (HeadRegister.Step w) register r₀).idle i)
      (x.run.lift (committing event)) := by
  refine Outline.weaken (Outline.weaken_post hx fun res s _ hends => ?_) stable_idle fun s _ hnone => ⟨trivial, hnone⟩
  cases res with
  | ok a => exact hends
  | error e => exact herr e s hends

/-- The requests the register serves. -/
def HeadRequest.OnHead : HeadRequest → Prop
  | .getHead | .updateHead _ => True
  | .object _ => False

/-- A store with a log of what its calls commit to, as a register. At a point of
a run: the log is a history the register allows and leads to what is stored, a
thread that has not started committed nothing, one that has finished was
answered with what it committed to, and the log only grows. So an answer takes
effect between the start and the end of its call. And whatever the others are
at, a call that has started can come to its end. -/
structure Refines {ι : Type} [DecidableEq ι] {S : Signature} {σ : Type}
    (M : Machine ι S (σ × Log ι HeadEvent) HeadRequest (ServerResult HeadResponse)) (w : WorkspaceId)
    (register : σ → HeadRegister) (s₀ : σ)
    (cfg : Config ι S (σ × Log ι HeadEvent) HeadRequest (ServerResult HeadResponse)) : Prop where
  legal : Legal (HeadRegister.Step w) (register s₀) (cfg.shared.2.map Prod.snd) (register cfg.shared.1)
  counts : HeadRegister.Counts (cfg.shared.2.map Prod.snd) (register cfg.shared.1)
  notStarted : ∀ i, cfg.thread i = none → Log.eventsOf i cfg.shared.2 = []
  answered : ∀ i q res, cfg.thread i = some (q, .done res) → Answers q res (Log.eventsOf i cfg.shared.2)
  grows : ∀ cfg', M.Steps cfg cfg' → cfg.shared.2 <+: cfg'.shared.2
  completes : ∀ i q p, q.OnHead → cfg.thread i = some (q, p) →
    ∃ cfg' res, M.Steps cfg cfg' ∧ cfg'.thread i = some (q, .done res)

/-- A store whose programs keep a contract of the register, and can come to
their ends, implements it. -/
theorem refines_of_kept {ι Op σ : Type} [DecidableEq ι] {Val : Op → Type}
    {M : Machine ι (Signature.fallible Val ServerError) σ HeadRequest (ServerResult HeadResponse)}
    {event : HeadRequest → (o : Op) → σ → ServerResult (Val o) → σ → Option HeadEvent} {w : WorkspaceId}
    {register : σ → HeadRegister} {s₀ : σ} {C : Contract ι σ} (hinit : C.inv s₀)
    (hempty : (register s₀).head = .empty w)
    (hkept : (committed C (HeadRegister.Step w) register (register s₀)).Kept (M.logged event)
      fun q i res s => Answers q res (Log.eventsOf i s.2))
    (hcompletes : ∀ cfg, M.Reachable s₀ cfg → ∀ i q p, HeadRequest.OnHead q → cfg.thread i = some (q, p) →
      ∃ cfg' res, M.Steps cfg cfg' ∧ cfg'.thread i = some (q, .done res))
    {cfg : Config ι (Signature.linearized σ Val ServerError HeadEvent) (σ × Log ι HeadEvent) HeadRequest
      (ServerResult HeadResponse)}
    (h : (M.logged event).Reachable (s₀, []) cfg) : Refines (M.logged event) w register s₀ cfg := by
  have hstart : (committed C (HeadRegister.Step w) register (register s₀)).inv (s₀, []) :=
    ⟨hinit, .nil⟩
  have hidle (i : ι) : (committed C (HeadRegister.Step w) register (register s₀)).idle i (s₀, []) := rfl
  obtain ⟨hinv, hnone, hdone⟩ := Contract.reachable hstart hidle hkept h
  refine ⟨hinv.2, ?_, hnone, hdone, fun cfg' hsteps => ?_, fun i q p hq hat => ?_⟩
  · have hregister : register s₀ = ⟨.empty w, (register s₀).stored⟩ := by rw [← hempty]
    have hlegal := hinv.2
    rw [hregister] at hlegal
    exact HeadRegister.counts hlegal
  · have hrefl (s : σ × Log ι HeadEvent) : s.2 <+: s.2 := List.prefix_rfl
    have htrans (s t u : σ × Log ι HeadEvent) (hst : s.2 <+: t.2) (htu : t.2 <+: u.2) : s.2 <+: u.2 :=
      hst.trans htu
    have hle (i : ι) (s s' : σ × Log ι HeadEvent)
        (hguar : (committed C (HeadRegister.Step w) register (register s₀)).guar i s s') : s.2 <+: s'.2 := by
      obtain ⟨_, new, hnew⟩ := hguar
      exact ⟨_, hnew.symm⟩
    exact Contract.monotone hrefl htrans hle hstart hidle hkept h hsteps
  · -- without the log the call comes to its end, and so it does with it
    obtain ⟨bare, log, hreach, rfl⟩ := h.unlogged
    obtain ⟨⟨q', p'⟩, hat', heq⟩ := Option.map_eq_some_iff.mp hat
    cases heq
    obtain ⟨cfg', res, hsteps, hend⟩ := hcompletes bare hreach i q p' hq hat'
    obtain ⟨log', hlogged⟩ := hsteps.logged event log
    refine ⟨_, res, hlogged, ?_⟩
    simp only [Config.withLog, hend, Option.map_some]
    rfl

end RustSync
