/-
Reports of corruption

`IndexedFsStorage` as clients use it: it puts and gets objects, tells whether
they exist, and updates heads. A get reads the canonical file and, when there
is none, looks for a catalog row; a row without a file is reported as
corruption. Readers take no lock. A put that comes between the two looks makes
the file and the row, and the report is of an object that is there.

Key definitions: `indexedFs`, `Between`, `QuietRun`. Key theorems:
`quiet_run_reports_none`, `raced_report`.
-/
import RustSync.Lib.Promise
import RustSync.Server.HeadStore
import RustSync.Server.ObjectIntegrity

namespace RustSync.IndexedFs

open Fallible
open Indexed (StoredObjectKind StoredObjectRow StoredObjectMetadata HeadRow headStatement headOf headOfRow
  resultOf toI64 toU64 corrupt matchesId idColumn timestampColumn)
open Objects (idKind)

/-! ### Requests -/

inductive Request where
  | object (q : Objects.Request)
  | updateHead (w : WorkspaceId) (expectedRevision : UInt64) (manifestId : ManifestId)
      (updatedBy : Option DeviceId)

inductive Response where
  | object (response : Objects.Response)
  | head (result : HeadUpdateResult) (head : WorkspaceHead)

def Request.handle (c : Crypto) : Request → Storage Response
  | .object q => .object <$> ofObjects (q.handle c)
  | .updateHead w expectedRevision manifestId updatedBy =>
    (fun (result, head) => .head result head) <$> IndexedFs.updateHead c w expectedRevision manifestId updatedBy

/-- The storage of a server, serving any number of requests. -/
def indexedFs (ι : Type) (c : Crypto) : Machine ι Calls (State ι) Request (ServerResult Response) where
  sem i o s r s' := State.Runs i o s r s'
  program q := ExceptT.run (q.handle c)

abbrev Cfg (ι : Type) := Config ι Calls (State ι) Request (ServerResult Response)

/-- The storage is said to be corrupt. -/
def Reports {α : Type} (r : ServerResult α) : Prop := ∃ reason, r = .error (.storageCorruption reason)

/-! ### Quiet runs -/

/-- The object a request is about. -/
def Request.about : Request → WorkspaceId × StoredObjectKind × String
  | .object (.put w kind id _) | .object (.get w kind id) | .object (.contains w kind id) => (w, kind, id.asStr)
  | .updateHead w _ manifestId _ => (w, .manifest, manifestId.asStr)

/-- What is left of a request that found no file, and has not seen all of the
catalog. -/
inductive Between (c : Crypto) (q : Request) : Prog Calls (ServerResult Response) → Prop
  | absent {path : Objects.Path} {k : Calls.Resp (.object (.readFile path)) → Prog Calls (ServerResult Response)}
      (hstart : ExceptT.run (q.handle c) = .call (.object (.readFile path)) k) :
      Between c q (k (.ok (none : Option Bytes)))
  | unlisted {w : WorkspaceId} {kind : StoredObjectKind} {id : String}
      {k : Calls.Resp (.object (.objectRowsById w kind id)) → Prog Calls (ServerResult Response)}
      (hlooks : Between c q (.call (.object (.objectRowsById w kind id)) k)) :
      Between c q (k (.ok ([] : List StoredObjectRow)))

variable {ι : Type}

/-- No row is added for an object that another request is between its looks
for. -/
def Undisturbed (c : Crypto) (cfg : Cfg ι) (i : ι) (o : Op) : Prop :=
  ∀ w kind id size, o = .object (.insertObject w kind id size) →
    ∀ j q p, j ≠ i → cfg.thread j = some (q, p) → Between c q p → q.about ≠ (w, kind, id)

/-- No file holds other bytes than were put, of the same digest. -/
def Distinct (c : Crypto) (cfg : Cfg ι) : Prop :=
  ∀ i w kind id object p b, cfg.thread i = some (.object (.put w kind id object), p) →
    cfg.shared.objects.files (Objects.pathOf w kind id.asStr) = some b →
    sha256Hex c b = sha256Hex c object.bytes → b = object.bytes

/-- A run whose every step is undisturbed, and where no digests collide. -/
inductive QuietRun [DecidableEq ι] (c : Crypto) (s₀ : State ι) : Cfg ι → Prop
  | begin : QuietRun c s₀ ⟨s₀, fun _ => none⟩
  | start {cfg : Cfg ι} (hrun : QuietRun c s₀ cfg) (i : ι) (q : Request) (hidle : cfg.thread i = none)
      (hdistinct : Distinct c { cfg with
        thread := Function.update cfg.thread i (some (q, (indexedFs ι c).program q)) }) :
      QuietRun c s₀ { cfg with thread := Function.update cfg.thread i (some (q, (indexedFs ι c).program q)) }
  | call {cfg : Cfg ι} (hrun : QuietRun c s₀ cfg) {i : ι} {q : Request} {o : Op}
      {k : Calls.Resp o → Prog Calls (ServerResult Response)} {r : Calls.Resp o} {s' : State ι}
      (hat : cfg.thread i = some (q, .call o k)) (hsem : State.Runs i o cfg.shared r s')
      (hquiet : Undisturbed c cfg i o)
      (hdistinct : Distinct c ⟨s', Function.update cfg.thread i (some (q, k r))⟩) :
      QuietRun c s₀ ⟨s', Function.update cfg.thread i (some (q, k r))⟩

/-! ### What calls change -/

section Programs

variable {c : Crypto} {i : ι} {s s' : State ι}

/-- The transaction of a head leaves the objects, and fails as a head that
does not parse. -/
theorem runs_updateHead {w : WorkspaceId} {expected next : ℤ} {manifestId : String} {updatedBy : Option String}
    {r : ServerResult (ℕ × WorkspaceHead)}
    (h : State.Runs i (.updateHead w expected next manifestId updatedBy) s r s') :
    s'.objects = s.objects ∧ ∀ e, r = .error e → ∃ row, headOf w row = .error e := by
  obtain ⟨nanos, now, hrun⟩ := h
  simp only [State.run] at hrun
  split at hrun
  · split at hrun
    · cases hrun
      exact ⟨rfl, fun e he => nomatch he⟩
    · rename_i e herror
      cases hrun
      exact ⟨rfl, fun e' he => ⟨_, by cases he; exact herror⟩⟩
  · cases hrun

/-- A row appears only by being inserted. -/
theorem row_of_run {nanos : ℕ} {o : Objects.Op} {u u' : Objects.State ι} {r : ServerResult o.Val}
    (h : u.run nanos i o = some (r, u')) (w : WorkspaceId) (kind : StoredObjectKind) (id : String) :
    u'.objects w kind id = u.objects w kind id ∨ ∃ size, o = .insertObject w kind id size := by
  cases o with
  | insertObject w' kind' id' size =>
    by_cases hsame : w = w' ∧ kind = kind' ∧ id = id'
    · obtain ⟨rfl, rfl, rfl⟩ := hsame
      exact .inr ⟨size, rfl⟩
    · simp only [Objects.State.run] at h
      split at h
      · cases h
        exact .inl (if_neg hsame)
      · cases h
        exact .inl rfl
  | createNew path | tempPathFor path | hardLink temp path | lockPut =>
    simp only [Objects.State.run] at h
    split at h <;> cases h <;> exact .inl rfl
  | readFile path | writeAll path bytes | removeFile path | objectRowsById w' kind' id'
    | objectRowsByObjectId w' id' | unlockPut =>
    cases h
    exact .inl rfl

theorem row_of_runs {o : Op} {r : ServerResult o.Val} (h : State.Runs i o s r s') (w : WorkspaceId)
    (kind : StoredObjectKind) (id : String) : s'.objects.objects w kind id = s.objects.objects w kind id ∨
      ∃ size, o = .object (.insertObject w kind id size) := by
  cases o with
  | selectHead w' =>
    obtain ⟨nanos, now, hrun⟩ := h
    cases hrun
    exact .inl rfl
  | updateHead w' expected next manifestId updatedBy => exact .inl (by rw [(runs_updateHead h).1])
  | object o =>
    obtain ⟨nanos, hrun⟩ := (State.runs_object h).1
    rcases row_of_run hrun w kind id with hsame | ⟨size, rfl⟩
    · exact .inl hsame
    · exact .inr ⟨size, rfl⟩

/-- There is no row for the object. -/
def Unlisted (object : WorkspaceId × StoredObjectKind × String) (s : State ι) : Prop :=
  s.objects.objects object.1 object.2.1 object.2.2 = none

/-- What a quiet run promises a request between its looks. -/
def Keeps (c : Crypto) (q : Request) (p : Prog Calls (ServerResult Response)) (s s' : State ι) : Prop :=
  Between c q p → Unlisted q.about s → Unlisted q.about s'

theorem Undisturbed.keeps {cfg : Cfg ι} {o : Op} {r : ServerResult o.Val} (h : Undisturbed c cfg i o)
    (hsem : State.Runs i o cfg.shared r s') {j : ι} {q : Request} {p : Prog Calls (ServerResult Response)}
    (hji : j ≠ i) (hat : cfg.thread j = some (q, p)) : Keeps c q p cfg.shared s' := by
  intro hbetween hnone
  rcases row_of_runs hsem q.about.1 q.about.2.1 q.about.2.2 with hsame | ⟨size, hinsert⟩
  · exact hsame.trans hnone
  · exact absurd rfl (h _ _ _ size hinsert j q p hji hat hbetween)

/-! ### Readers -/

/-- The contract of the store of objects, which the heads are not part of. -/
def contract (ι : Type) (c : Crypto) : Contract ι (State ι) := (Objects.storeContract c).on State.objects

theorem not_reports_ok {α : Type} {a : α} : ¬ Reports (.ok a) := by
  rintro ⟨reason, h⟩
  cases h

/-- A report is of bytes put that are not those of the file, whose digest they
have. -/
def Excused (c : Crypto) (q : Request) (r : ServerResult Response) (s : State ι) : Prop :=
  Reports r → ∃ w kind id object b, q = .object (.put w kind id object) ∧
    s.objects.files (Objects.pathOf w kind id.asStr) = some b ∧
    sha256Hex c b = sha256Hex c object.bytes ∧ b ≠ object.bytes

theorem Excused.of_clean {q : Request} {r : ServerResult Response} (h : ¬ Reports r) : Excused c q r s :=
  fun hreports => absurd hreports h

/-- A program of the store of objects, beside the heads. -/
theorem ofObjects_outline {err pre : Objects.State ι → Prop} {α : Type} {x : Objects.Storage α}
    {post : α → Objects.State ι → Prop} (h : Objects.Proved c i err pre x post) :
    Outline (contract ι c) (indexedFs ι c).sem i (fun r s => Ends err post r s.objects)
      (fun s => pre s.objects) (x.run.lift calls) :=
  Outline.lift (fun _ _ _ _ _ hrun => (State.runs_object hrun).1) h

/-- What has no file has no row. -/
theorem unlisted_of_absent {u : Objects.State ι} (hs : Objects.Sound c u) {w : WorkspaceId}
    {kind : StoredObjectKind} {id : String} (h : u.files (Objects.pathOf w kind id) = none) :
    u.objects w kind id = none := by
  by_contra hsome
  obtain ⟨row, hrow⟩ := Option.ne_none_iff_exists'.mp hsome
  obtain ⟨b, hb, _⟩ := hs.rows w kind id row hrow
  rw [h] at hb
  cases hb

/-- No row is of an identifier's other kind. -/
theorem unlisted_by_objectId {u : Objects.State ι} (hs : Objects.Sound c u) {w : WorkspaceId}
    {kind : StoredObjectKind} {id : ObjectId (idKind kind)} (h : u.objects w kind id.asStr = none) :
    (u.objects w .blob id.asStr).toList ++ (u.objects w .manifest id.asStr).toList = [] := by
  have hnone (kind' : StoredObjectKind) : u.objects w kind' id.asStr = none := by
    by_contra hsome
    obtain ⟨row, hrow⟩ := Option.ne_none_iff_exists'.mp hsome
    obtain ⟨b, _, hmatch, _⟩ := hs.rows w kind' id.asStr row hrow
    have hsame := (Objects.matchesId_iff.mp hmatch).trans (Objects.append_nameOf id).symm
    have hfirst := congrArg (fun text => text.toList.head?) hsame
    cases kind <;> cases kind' <;> first
      | exact hsome h
      | simp [idKind, blobIdKind, manifestIdKind] at hfirst
  rw [hnone .blob, hnone .manifest]
  rfl

/-- A request that reads a file, and looks for a row when there is none. -/
theorem reader_sheltered {q : Request} (w : WorkspaceId) (kind : StoredObjectKind)
    (id : ObjectId (idKind kind))
    {K : Calls.Resp (.object (.readFile (Objects.pathOf w kind id.asStr))) → Prog Calls (ServerResult Response)}
    {K' : Calls.Resp (.object (.objectRowsById w kind id.asStr)) → Prog Calls (ServerResult Response)}
    {K'' : Calls.Resp (.object (.objectRowsByObjectId w id.asStr)) → Prog Calls (ServerResult Response)}
    {r : ServerResult Response} (habout : q.about = (w, kind, id.asStr))
    (hstart : (indexedFs ι c).program q = .call (.object (.readFile (Objects.pathOf w kind id.asStr))) K)
    (hfirst : K (.ok (none : Option Bytes)) = .call (.object (.objectRowsById w kind id.asStr)) K')
    (hsecond : K' (.ok ([] : List StoredObjectRow)) = .call (.object (.objectRowsByObjectId w id.asStr)) K'')
    (hlast : K'' (.ok ([] : List StoredObjectRow)) = .done r) (hr : ¬ Reports r)
    (hpresent : ∀ b : Bytes, Outline (contract ι c) (indexedFs ι c).sem i (fun r _ => ¬ Reports r)
      (fun s => Objects.HasFile w kind id.asStr b s.objects) (K (.ok (some b)))) :
    Sheltered (contract ι c) (indexedFs ι c).sem i (Keeps c q) (Excused c q) (fun _ => True)
      ((indexedFs ι c).program q) := by
  have hfalse (p : Prog Calls (ServerResult Response)) : Sheltered (contract ι c) (indexedFs ι c).sem i
      (Keeps c q) (Excused c q) (fun _ => False) p := Sheltered.absurd fun _ => not_false
  -- while the request is between its looks, there is no row
  have hstable {p : Prog Calls (ServerResult Response)} (hbetween : Between c q p) :
      (contract ι c).StableUnder i (Keeps c q p) (Unlisted (w, kind, id.asStr)) := by
    intro j _ s s' _ _ _ hkeeps hnone
    rw [← habout] at hnone ⊢
    exact hkeeps hbetween hnone
  have hlooks : Between c q (K (.ok (none : Option Bytes))) := .absent hstart
  have hunlisted : Between c q (K' (.ok ([] : List StoredObjectRow))) := by
    rw [hfirst] at hlooks
    exact .unlisted hlooks
  have hsecondLook : Sheltered (contract ι c) (indexedFs ι c).sem i (Keeps c q) (Excused c q)
      (Unlisted (w, kind, id.asStr)) (K' (.ok ([] : List StoredObjectRow))) := by
    have hunder := hstable hunlisted
    rw [hsecond] at hunder ⊢
    refine .call (fun r' _ => r' = .ok ([] : List StoredObjectRow)) hunder (fun s r' s' hs hnone hrun => ?_)
      fun r' => ?_
    · obtain ⟨nanos, now, hcall⟩ := hrun
      cases hcall
      refine ⟨hs, Objects.Guarantees.refl _, ?_⟩
      rw [unlisted_by_objectId hs hnone]
      rfl
    · by_cases hempty : r' = .ok ([] : List StoredObjectRow)
      · rw [hempty, hlast]
        exact .done (fun _ _ _ _ _ _ _ _ _ => rfl) fun s _ _ => .of_clean hr
      · exact Sheltered.absurd fun _ => hempty
  have hfirstLook : Sheltered (contract ι c) (indexedFs ι c).sem i (Keeps c q) (Excused c q)
      (Unlisted (w, kind, id.asStr)) (K (.ok (none : Option Bytes))) := by
    have hunder := hstable hlooks
    rw [hfirst] at hunder ⊢
    refine .call (fun r' s => r' = .ok ([] : List StoredObjectRow) ∧ Unlisted (w, kind, id.asStr) s) hunder
      (fun s r' s' hs hnone hrun => ?_) fun r' => ?_
    · obtain ⟨nanos, now, hcall⟩ := hrun
      cases hcall
      refine ⟨hs, Objects.Guarantees.refl _, ?_, hnone⟩
      unfold Unlisted at hnone
      rw [hnone]
      rfl
    · by_cases hempty : r' = .ok ([] : List StoredObjectRow)
      · subst hempty
        exact hsecondLook.with_const rfl
      · exact Sheltered.absurd fun _ h => hempty h.1
  rw [hstart]
  refine .call (fun r' s => match r' with
    | .ok (none : Option Bytes) => Unlisted (w, kind, id.asStr) s
    | .ok (some (b : Bytes)) => Objects.HasFile w kind id.asStr b s.objects
    | .error _ => False) Contract.stable_true.under (fun s r' s' hs _ hrun => ?_) fun r' => ?_
  · obtain ⟨nanos, now, hcall⟩ := hrun
    cases hcall
    refine ⟨hs, Objects.Guarantees.refl _, ?_⟩
    cases hfile : s.objects.files (Objects.pathOf w kind id.asStr) with
    | none => exact unlisted_of_absent hs hfile
    | some b => exact hfile
  · match r' with
    | .ok none => exact hfirstLook
    | .ok (some b) =>
      exact ((hpresent b).weaken_post fun r s _ hclean => Excused.of_clean hclean).sheltered
    | .error _ => exact hfalse _

/-- What is done with the answer of a program of the store of objects that
does not fail. -/
theorem answered {α β : Type} {x : Objects.Storage α} {f : ServerResult α → Prog Calls (ServerResult β)}
    {pre : Objects.State ι → Prop} {a : α} (hx : Objects.Proved c i (fun _ => False) pre x fun a' _ => a' = a)
    (hf : Outline (contract ι c) (indexedFs ι c).sem i (fun r _ => ¬ Reports r) (fun _ => True) (f (.ok a))) :
    Outline (contract ι c) (indexedFs ι c).sem i (fun r _ => ¬ Reports r) (fun s => pre s.objects)
      ((x.run.lift calls) >>= f) := by
  refine Outline.bind (ofObjects_outline hx) fun r => ?_
  cases r with
  | error e => exact Outline.absurd (fun _ _ h => h) Contract.stable_const
  | ok a' =>
    refine Outline.assume Contract.stable_const (fun _ _ h => h) fun (h : a' = a) => ?_
    subst h
    exact hf.weaken Contract.stable_const fun _ _ _ => trivial

section Present

variable {α β : Type} {w : WorkspaceId} {kind : StoredObjectKind} {id : ObjectId (idKind kind)} {b : Bytes}

/-- A file that is read is verified, and nothing is reported. -/
theorem verified (a : α) : Objects.Proved (ι := ι) c i (fun _ => False) (Objects.HasFile w kind id.asStr b)
    (Objects.verifyBackfill c w kind id.asStr b >>= fun _ => pure a) fun a' _ => a' = a := by
  have hstable : (Objects.storeContract c).Stable i (Objects.HasFile (ι := ι) w kind id.asStr b) :=
    Objects.stable_hasFile
  have hnever : (Objects.storeContract (ι := ι) c).Stable i fun _ => False := Contract.stable_const
  refine Outlined.bind (Objects.verifyBackfill_proved hstable (fun _ _ h => h) (fun _ h => h) hnever) hnever
    fun _ => ?_
  exact Outlined.pure hstable fun _ _ _ => rfl

theorem verified_map (f : α → β) (a : α) :
    Objects.Proved (ι := ι) c i (fun _ => False) (Objects.HasFile w kind id.asStr b)
      (f <$> (Objects.verifyBackfill c w kind id.asStr b >>= fun _ => pure a)) fun b' _ => b' = f a :=
  Outlined.map (verified a) Contract.stable_const (fun _ => Contract.stable_const) fun _ _ _ h => congrArg f h

end Present

theorem done_clean {α : Type} {r : ServerResult α} (hr : ¬ Reports r) :
    Outline (contract ι c) (indexedFs ι c).sem i (fun r _ => ¬ Reports r) (fun _ => True) (.done r) :=
  .done Contract.stable_true fun _ _ _ => hr

theorem get_sheltered {w : WorkspaceId} {kind : StoredObjectKind} {id : ObjectId (idKind kind)} :
    Sheltered (contract ι c) (indexedFs ι c).sem i (Keeps c (.object (.get w kind id)))
      (Excused c (.object (.get w kind id))) (fun _ => True) ((indexedFs ι c).program (.object (.get w kind id))) := by
  refine reader_sheltered w kind id rfl rfl rfl rfl rfl ?_ fun b => ?_
  · rintro ⟨reason, h⟩
    cases kind <;> cases h
  · exact answered (verified_map Objects.Response.bytes b) (done_clean not_reports_ok)

theorem contains_sheltered {w : WorkspaceId} {kind : StoredObjectKind} {id : ObjectId (idKind kind)} :
    Sheltered (contract ι c) (indexedFs ι c).sem i (Keeps c (.object (.contains w kind id)))
      (Excused c (.object (.contains w kind id))) (fun _ => True)
      ((indexedFs ι c).program (.object (.contains w kind id))) := by
  refine reader_sheltered w kind id rfl rfl rfl rfl rfl not_reports_ok fun b => ?_
  exact answered (verified_map Objects.Response.found true) (done_clean not_reports_ok)

/-! ### Heads -/

theorem reports_error {α : Type} {e : ServerError} :
    Reports (.error e : ServerResult α) ↔ ∃ reason, e = .storageCorruption reason := by
  constructor
  · rintro ⟨reason, h⟩
    cases h
    exact ⟨reason, rfl⟩
  · rintro ⟨reason, rfl⟩
    exact ⟨reason, rfl⟩

theorem reports_retype {α β : Type} {e : ServerError} :
    Reports (.error e : ServerResult α) ↔ Reports (.error e : ServerResult β) :=
  reports_error.trans reports_error.symm

theorem not_reports_error {α : Type} {e : ServerError} (h : ∀ reason, e ≠ .storageCorruption reason) :
    ¬ Reports (.error e : ServerResult α) := by
  rw [reports_error]
  rintro ⟨reason, he⟩
  exact h reason he

theorem reports_map {α β : Type} {f : α → β} {r : ServerResult α} : Reports (r.map f) ↔ Reports r := by
  cases r with
  | ok a => exact ⟨fun h => absurd h not_reports_ok, fun h => absurd h not_reports_ok⟩
  | error e => exact reports_retype

theorem not_reports_bind {α β : Type} {r : ServerResult α} {f : α → ServerResult β} (hr : ¬ Reports r)
    (hf : ∀ a, ¬ Reports (f a)) : ¬ Reports (r >>= f) := by
  cases r with
  | ok a => exact hf a
  | error e => exact mt reports_retype.mp hr

theorem toU64_not_reports {value : ℤ} {field : String} : ¬ Reports (toU64 value field) := by
  unfold toU64
  split
  · exact not_reports_ok
  · exact not_reports_error fun _ h => nomatch h

theorem toI64_not_reports {value : ℕ} {field : String} : ¬ Reports (toI64 value field) := by
  unfold toI64
  split
  · exact not_reports_ok
  · exact not_reports_error fun _ h => nomatch h

theorem idColumn_not_reports {α : Type} {parse : String → Except InvalidIdentifier α} {column : Option String} :
    ¬ Reports (idColumn parse column) := by
  cases column with
  | none => exact not_reports_ok
  | some text =>
    unfold idColumn
    rw [reports_map]
    cases parse text with
    | ok a => exact not_reports_ok
    | error e => exact not_reports_error fun _ h => nomatch h

/-- A head that does not parse is not reported as corrupt storage. -/
theorem headOf_not_reports {w : WorkspaceId} {row : Option HeadRow} : ¬ Reports (headOf w row) := by
  cases row with
  | none => exact not_reports_ok
  | some row =>
    refine not_reports_bind idColumn_not_reports fun manifestId => ?_
    refine not_reports_bind toU64_not_reports fun revision => ?_
    refine not_reports_bind idColumn_not_reports fun updatedBy => ?_
    refine not_reports_bind ?_ fun updatedAt => not_reports_ok
    cases row.updatedAt with
    | none => exact not_reports_ok
    | some t =>
      unfold timestampColumn
      rw [reports_map]
      exact toU64_not_reports

/-- A check that reports nothing comes first. -/
theorem check_clean {α β : Type} {x : ServerResult α} {f : α → Storage β} (hx : ¬ Reports x)
    (hf : ∀ a, x = .ok a → Outline (contract ι c) (indexedFs ι c).sem i (fun r _ => ¬ Reports r)
      (fun _ => True) (f a).run) :
    Outline (contract ι c) (indexedFs ι c).sem i (fun r _ => ¬ Reports r) (fun _ => True)
      (check x >>= f : Storage β).run := by
  cases x with
  | ok a => exact hf a rfl
  | error e => exact done_clean (mt reports_retype.mp hx)

theorem updateHeadRow_clean {w : WorkspaceId} {expectedRevision : UInt64} {manifestId : ManifestId}
    {updatedBy : Option DeviceId} : Outline (contract ι c) (indexedFs ι c).sem i (fun r _ => ¬ Reports r)
      (fun _ => True) (updateHeadRow w expectedRevision manifestId updatedBy).run := by
  unfold updateHeadRow
  refine check_clean toI64_not_reports fun expected _ => ?_
  refine check_clean ?_ fun _ _ => ?_
  · unfold require
    split
    · exact not_reports_ok
    · exact not_reports_error fun _ h => nomatch h
  refine check_clean ?_ fun next _ => ?_
  · unfold toI64
    split
    · exact not_reports_ok
    · exact not_reports_error fun _ h => nomatch h
  refine .call (fun r _ => ¬ Reports r) Contract.stable_true (fun s r s' hs _ hrun => ?_) fun r => ?_
  · obtain ⟨hsame, herror⟩ := runs_updateHead hrun
    have hinv : Objects.Sound c s'.objects := by
      rw [hsame]
      exact hs
    have hguar : Objects.Guarantees i s.objects s'.objects := by
      rw [hsame]
      exact Objects.Guarantees.refl _
    refine ⟨hinv, hguar, ?_⟩
    rintro ⟨reason, hr⟩
    obtain ⟨row, hrow⟩ := herror _ hr
    exact headOf_not_reports ⟨reason, hrow⟩
  · cases r with
    | ok ran => exact done_clean not_reports_ok |>.weaken Contract.stable_const fun _ _ _ => trivial
    | error e =>
      exact .done Contract.stable_const fun _ _ hr => mt reports_retype.mp hr

theorem updateHead_sheltered {w : WorkspaceId} {expectedRevision : UInt64} {manifestId : ManifestId}
    {updatedBy : Option DeviceId} :
    Sheltered (contract ι c) (indexedFs ι c).sem i
      (Keeps c (.updateHead w expectedRevision manifestId updatedBy))
      (Excused c (.updateHead w expectedRevision manifestId updatedBy)) (fun _ => True)
      ((indexedFs ι c).program (.updateHead w expectedRevision manifestId updatedBy)) := by
  refine reader_sheltered w .manifest manifestId rfl rfl rfl rfl rfl ?_ fun b => ?_
  · rintro ⟨reason, h⟩
    cases h
  · refine Outline.bind (answered (verified true) updateHeadRow_clean) fun r => ?_
    cases r with
    | ok answer => exact (done_clean not_reports_ok).weaken Contract.stable_const fun _ _ _ => trivial
    | error e => exact .done Contract.stable_const fun _ _ hr => mt reports_retype.mp hr

/-! ### Puts -/

/-- A put fails for other bytes in the file, or was given the wrong
identifier. -/
theorem put_sheltered {w : WorkspaceId} {kind : StoredObjectKind} {id : ObjectId (idKind kind)}
    {object : ObjectBytes} : Outline (contract ι c) (indexedFs ι c).sem i
      (Excused c (.object (.put w kind id object))) (fun _ => True)
      ((indexedFs ι c).program (.object (.put w kind id object))) := by
  by_cases htext : ObjectId.textOf (idKind kind) c object.bytes = id.asStr
  · have hput : Outline (contract ι c) (indexedFs ι c).sem i (fun r s => Reports r →
        Objects.Collides w kind id.asStr object.bytes s.objects) (fun _ => True)
        (((Objects.Request.put w kind id object).handle c).run.lift calls) := by
      have hserved : Outline (contract ι c) (indexedFs ι c).sem i
          (fun r s => Objects.Served c (.put w kind id object) r s.objects) (fun _ => True)
          (((Objects.Request.put w kind id object).handle c).run.lift calls) :=
        Outline.lift (fun _ _ _ _ _ hrun => (State.runs_object hrun).1) (Objects.handle_proved _)
      refine hserved.weaken_post fun r s _ hserved hreports => ?_
      cases r with
      | ok response => exact absurd hreports not_reports_ok
      | error e => exact hserved.resolve_left fun hne => hne htext
    refine Outline.bind hput fun r => ?_
    have hstable : (contract ι c).Stable i fun s => Reports r →
        Objects.Collides w kind id.asStr object.bytes s.objects := by
      intro j hj s s' hs hs' hguar h hreports
      exact Objects.stable_collides j hj s.objects s'.objects hs hs' hguar (h hreports)
    cases r with
    | ok response => exact .done hstable fun _ _ _ => .of_clean not_reports_ok
    | error e =>
      refine .done hstable fun s hs h hreports => ?_
      obtain ⟨b, hfile, hne⟩ := h (reports_retype.mp hreports)
      have hdigest := Objects.nameOf_of_matchesId (hfile.matches hs).1
      exact ⟨w, kind, id, object, b, rfl, hfile, hdigest.symm.trans (Objects.nameOf_of_matchesId
        (Objects.textOf_matches htext)), hne⟩
  · have hrejected : (indexedFs ι c).program (.object (.put w kind id object)) =
        .done (.error .objectHashMismatch) := by
      have hcheck : require (ObjectId.textOf (idKind kind) c object.bytes = id.asStr)
          ServerError.objectHashMismatch = .error .objectHashMismatch := if_neg htext
      change (Response.object <$> ofObjects (check (require (ObjectId.textOf (idKind kind) c object.bytes =
        id.asStr) ServerError.objectHashMismatch) >>= fun _ => _)).run = _
      rw [hcheck]
      rfl
    rw [hrejected]
    exact .done Contract.stable_true fun _ _ _ => .of_clean (not_reports_error fun _ h => nomatch h)

theorem handle_sheltered (q : Request) : Sheltered (contract ι c) (indexedFs ι c).sem i (Keeps c q) (Excused c q)
    (fun _ => True) ((indexedFs ι c).program q) := by
  cases q with
  | updateHead w expectedRevision manifestId updatedBy => exact updateHead_sheltered
  | object q =>
    cases q with
    | put w kind id object => exact put_sheltered.sheltered
    | get w kind id => exact get_sheltered
    | contains w kind id => exact contains_sheltered

/-! ### Quiet runs report nothing -/

variable [DecidableEq ι] {s₀ : State ι} {cfg : Cfg ι}

theorem QuietRun.distinct (h : QuietRun c s₀ cfg) : Distinct c cfg := by
  cases h with
  | begin => exact fun _ _ _ _ _ _ _ hat => nomatch hat
  | start _ _ _ _ hdistinct => exact hdistinct
  | call _ _ _ _ hdistinct => exact hdistinct

theorem QuietRun.shelters (hs₀ : Objects.Sound c s₀.objects) (h : QuietRun c s₀ cfg) :
    (contract ι c).Shelters (indexedFs ι c) (Keeps c) (fun q _ => Excused c q) cfg := by
  have hprograms (q : Request) (i : ι) : Sheltered (contract ι c) (indexedFs ι c).sem i (Keeps c q)
      (Excused c q) (fun _ => True) ((indexedFs ι c).program q) := handle_sheltered q
  induction h with
  | begin => exact ⟨hs₀, fun _ _ _ hat => nomatch hat⟩
  | start _ i q hidle _ ih => exact ih.step hprograms (.start i q hidle)
  | call _ hat hsem hquiet _ ih =>
    exact ih.step hprograms (.call hat hsem fun j q p hji hj => hquiet.keeps hsem hji hj)

/-- **A quiet run reports no corruption.** -/
theorem quiet_run_reports_none (hs₀ : Objects.Sound c s₀.objects) (h : QuietRun c s₀ cfg) {i : ι} {q : Request}
    {r : ServerResult Response} (hdone : cfg.thread i = some (q, .done r)) : ¬ Reports r := by
  intro hreports
  obtain ⟨w, kind, id, object, b, rfl, hfile, hdigest, hne⟩ := (h.shelters hs₀).finished hdone hreports
  exact hne (h.distinct i w kind id object _ b hdone hfile hdigest)

end Programs

/-! ### A get and a put

The get finds no file. The put is served, and the get finds its row. -/

section Sample

open Codec Objects

def sampleStorage : State ℕ := ⟨sampleStore, fun _ => none⟩

def sampleGet : Request := .object (.get sampleWorkspace .blob sampleBlobId)

def sampleRun (nanos : ℕ) (i : ℕ) (o : Op) (s : State ℕ) : Option (ServerResult o.Val × State ℕ) :=
  s.run nanos 1000 i o

def racedRun : Option (Cfg ℕ) := do
  let storage := indexedFs ℕ sampleCrypto
  let started ← storage.begin 0 sampleGet ⟨sampleStorage, fun _ => none⟩
  let absent ← Machine.schedule (sampleRun 1000) [0] started
  let put ← storage.serve (sampleRun 2000) 1
    (.object (.put sampleWorkspace .blob sampleBlobId sampleBytes)) absent
  Machine.schedule (sampleRun 3000) [0] put

/-- The get reports a file that is missing, and the file is there. -/
def racedOutcome (cfg : Cfg ℕ) : Bool :=
  match cfg.thread 0 with
  | some (_, .done (.error e)) =>
    e = corrupt .blob sampleBlobId.asStr "exists but its canonical file is missing" ∧
      cfg.shared.objects.files (pathOf sampleWorkspace .blob sampleBlobId.asStr) = some sampleBytes.bytes
  | _ => false

theorem racedRun_outcome : racedRun.map racedOutcome = some true := by
  decide +kernel

theorem racedRun_reachable {cfg : Cfg ℕ} (h : racedRun = some cfg) :
    (indexedFs ℕ sampleCrypto).Reachable sampleStorage cfg := by
  have hruns (nanos i : ℕ) (o : Op) (s : State ℕ) (r : ServerResult o.Val) (s' : State ℕ)
      (hrun : sampleRun nanos i o s = some (r, s')) : (indexedFs ℕ sampleCrypto).sem i o s r s' :=
    ⟨nanos, 1000, hrun⟩
  simp only [racedRun, Option.bind_eq_bind, Option.bind_eq_some_iff] at h
  obtain ⟨started, hbegin, absent, habsent, put, hput, hlast⟩ := h
  have hreach : (indexedFs ℕ sampleCrypto).Reachable sampleStorage put :=
    ((Machine.Reachable.begin .refl hbegin).schedule (hruns 1000) habsent).serve (hruns 2000) hput
  exact hreach.schedule (hruns 3000) hlast

/-- A get that a put comes between reports corruption, of an object that is
there. -/
theorem raced_report : ∃ (cfg : Cfg ℕ) (q : Request) (r : ServerResult Response),
    (indexedFs ℕ sampleCrypto).Reachable sampleStorage cfg ∧ cfg.thread 0 = some (q, .done r) ∧ Reports r ∧
      cfg.shared.objects.files (pathOf sampleWorkspace .blob sampleBlobId.asStr) = some sampleBytes.bytes := by
  obtain ⟨cfg, hcfg, hout⟩ := Option.map_eq_some_iff.mp racedRun_outcome
  unfold racedOutcome at hout
  split at hout
  · rename_i q e hat
    obtain ⟨rfl, hfile⟩ := of_decide_eq_true hout
    exact ⟨cfg, q, _, racedRun_reachable hcfg, hat, ⟨_, rfl⟩, hfile⟩
  · cases hout

/-! ### A quiet run

Three requests of one object. A get finds no file; a put links the file while
the get has yet to look at the catalog, and adds the row when the get has
looked; another get finds the file before there is a row. -/

/-- What is next is a look at the catalog, or in a transaction of a head. -/
def looksNext : Option (Request × Prog Calls (ServerResult Response)) → Bool
  | some (.object _, .call (.object (.objectRowsById ..)) _)
  | some (.object _, .call (.object (.objectRowsByObjectId ..)) _) | some (.updateHead .., _) => true
  | _ => false

/-- A reader between its looks is about to look. -/
theorem Between.of_reader {c : Crypto} {q : Request} {p : Prog Calls (ServerResult Response)} {w : WorkspaceId}
    {kind : StoredObjectKind} {id : String}
    {K : Calls.Resp (.object (.readFile (pathOf w kind id))) → Prog Calls (ServerResult Response)}
    {K' : Calls.Resp (.object (.objectRowsById w kind id)) → Prog Calls (ServerResult Response)}
    {K'' : Calls.Resp (.object (.objectRowsByObjectId w id)) → Prog Calls (ServerResult Response)}
    (hstart : ExceptT.run (q.handle c) = .call (.object (.readFile (pathOf w kind id))) K)
    (hfirst : K (.ok (none : Option Bytes)) = .call (.object (.objectRowsById w kind id)) K')
    (hsecond : K' (.ok ([] : List StoredObjectRow)) = .call (.object (.objectRowsByObjectId w id)) K'')
    (h : Between c q p) : p = .call (.object (.objectRowsById w kind id)) K' ∨
      p = .call (.object (.objectRowsByObjectId w id)) K'' := by
  induction h with
  | absent hstart' =>
    rw [hstart] at hstart'
    cases hstart'
    exact .inl hfirst
  | unlisted _ ih =>
    rcases ih with h | h
    · cases h
      exact .inr hsecond
    · cases h

theorem Between.looksNext {c : Crypto} {q : Request} {p : Prog Calls (ServerResult Response)} (h : Between c q p) :
    looksNext (some (q, p)) = true := by
  cases q with
  | updateHead => rfl
  | object q =>
    cases q with
    | get w kind id => rcases h.of_reader rfl rfl rfl with rfl | rfl <;> rfl
    | contains w kind id => rcases h.of_reader rfl rfl rfl with rfl | rfl <;> rfl
    | put w kind id object =>
      -- a put begins with its lock
      exfalso
      have hfirst (path : Objects.Path) (k : Calls.Resp (.object (.readFile path)) →
        Prog Calls (ServerResult Response)) :
          ExceptT.run (Request.handle c (.object (.put w kind id object))) ≠ .call (.object (.readFile path)) k := by
        intro hstart
        change (Response.object <$> ofObjects (check (require (ObjectId.textOf (idKind kind) c object.bytes = id.asStr)
          ServerError.objectHashMismatch) >>= fun _ => _)).run = _ at hstart
        by_cases htext : ObjectId.textOf (idKind kind) c object.bytes = id.asStr
        · rw [require, if_pos htext] at hstart
          cases hstart
        · rw [require, if_neg htext] at hstart
          cases hstart
      induction h with
      | absent hstart => exact hfirst _ _ hstart
      | unlisted _ ih => exact ih

/-- No file holds other bytes than one of the first three requests puts. -/
def apart (cfg : Cfg ℕ) : Bool :=
  [0, 1, 2].all fun i =>
    match cfg.thread i with
    | some (.object (.put w kind id object), _) =>
      (cfg.shared.objects.files (pathOf w kind id.asStr)).all fun bytes => bytes = object.bytes
    | _ => true

/-- A quiet run of three requests. -/
structure Sampled (cfg : Cfg ℕ) : Prop where
  quiet : QuietRun sampleCrypto sampleStorage cfg
  few : ∀ i, 3 ≤ i → cfg.thread i = none

def quietStart (i : ℕ) (q : Request) (cfg : Cfg ℕ) : Option (Cfg ℕ) :=
  let next : Cfg ℕ := { cfg with
    thread := Function.update cfg.thread i (some (q, (indexedFs ℕ sampleCrypto).program q)) }
  if i < 3 ∧ (cfg.thread i).isNone = true ∧ apart next = true then some next else none

def addsRow : Op → Bool
  | .object (.insertObject ..) => true
  | _ => false

/-- A request makes its next call, and adds no row while another is about to
look. -/
def quietCall (cfg : Cfg ℕ) (i : ℕ) : Option (Cfg ℕ) :=
  match cfg.thread i with
  | some (q, .call o k) => (sampleRun (1000 + i) i o cfg.shared).bind fun (r, storage) =>
    let next : Cfg ℕ := ⟨storage, Function.update cfg.thread i (some (q, k r))⟩
    if i < 3 ∧ ([0, 1, 2].all fun j => !addsRow o || j = i || !looksNext (cfg.thread j)) = true ∧ apart next = true then
      some next
    else none
  | _ => none

theorem apart_distinct {cfg : Cfg ℕ} (hfew : ∀ i, 3 ≤ i → cfg.thread i = none) (h : apart cfg = true) :
    Distinct sampleCrypto cfg := by
  intro i w kind id object p b hat hfile _
  have hi : i ∈ [0, 1, 2] := by
    by_contra hnot
    rw [hfew i (by simp at hnot; omega)] at hat
    cases hat
  have hall := List.all_eq_true.mp h i hi
  rw [hat] at hall
  simp only [hfile, Option.all_some, decide_eq_true_eq] at hall
  exact hall

theorem few_update {cfg : Cfg ℕ} {i : ℕ} {t : Option (Request × Prog Calls (ServerResult Response))}
    (hfew : ∀ i, 3 ≤ i → cfg.thread i = none) (hi : i < 3) (j : ℕ) (hj : 3 ≤ j) :
    Function.update cfg.thread i t j = none := by
  rw [Function.update_of_ne (by omega)]
  exact hfew j hj

theorem Sampled.start {cfg cfg' : Cfg ℕ} {i : ℕ} {q : Request} (h : Sampled cfg)
    (hstart : quietStart i q cfg = some cfg') : Sampled cfg' := by
  simp only [quietStart, Option.ite_none_right_eq_some, Option.some.injEq] at hstart
  obtain ⟨⟨hi, hidle, hapart⟩, rfl⟩ := hstart
  have hfew := few_update (t := some (q, (indexedFs ℕ sampleCrypto).program q)) h.few hi
  exact ⟨h.quiet.start i q (Option.isNone_iff_eq_none.mp hidle) (apart_distinct hfew hapart), hfew⟩

theorem Sampled.call {cfg cfg' : Cfg ℕ} {i : ℕ} (h : Sampled cfg) (hcall : quietCall cfg i = some cfg') :
    Sampled cfg' := by
  unfold quietCall at hcall
  split at hcall
  · rename_i q o k hat
    obtain ⟨⟨r, storage⟩, hrun, hnext⟩ := Option.bind_eq_some_iff.mp hcall
    simp only [Option.ite_none_right_eq_some, Option.some.injEq] at hnext
    obtain ⟨⟨hi, hcalm, hapart⟩, rfl⟩ := hnext
    have hfew := few_update (t := some (q, k r)) h.few hi
    refine ⟨h.quiet.call hat ⟨_, _, hrun⟩ (fun w kind id size hinsert j q' p hji hj hbetween => ?_)
      (apart_distinct hfew hapart), hfew⟩
    subst hinsert
    have hj3 : j ∈ [0, 1, 2] := by
      by_contra hnot
      rw [h.few j (by simp at hnot; omega)] at hj
      cases hj
    have hnot := List.all_eq_true.mp hcalm j hj3
    rw [hj, hbetween.looksNext] at hnot
    simp [hji, addsRow] at hnot
  · cases hcall

theorem Sampled.calls {order : List ℕ} {cfg cfg' : Cfg ℕ} (h : Sampled cfg)
    (hcalls : order.foldlM quietCall cfg = some cfg') : Sampled cfg' := by
  induction order generalizing cfg with
  | nil =>
    cases hcalls
    exact h
  | cons i order ih =>
    simp only [List.foldlM_cons, Option.bind_eq_bind, Option.bind_eq_some_iff] at hcalls
    obtain ⟨mid, hcall, hrest⟩ := hcalls
    exact ih (h.call hcall) hrest

def samplePut : Request := .object (.put sampleWorkspace .blob sampleBlobId sampleBytes)

def quietRun : Option (Cfg ℕ) := do
  let gets ← quietStart 0 sampleGet ⟨sampleStorage, fun _ => none⟩
  let puts ← quietStart 1 samplePut gets
  let linked ← [1, 1, 1, 1, 1, 0, 1, 0, 0, 1, 1, 1, 1].foldlM quietCall puts
  let again ← quietStart 2 sampleGet linked
  [2, 2, 2, 1, 1, 1, 2, 2].foldlM quietCall again

def sampleAbout : WorkspaceId × StoredObjectKind × String := (sampleWorkspace, .blob, sampleBlobId.asStr)

/-- The first get found nothing, the put added the object, the second get found
it. -/
def quietOutcome (cfg : Cfg ℕ) : Bool :=
  match cfg.thread 0, cfg.thread 1, cfg.thread 2 with
  | some (q₀, .done (.error .blobNotFound)), some (q₁, .done (.ok (.object (.put .created)))),
    some (q₂, .done (.ok (.object (.bytes bytes)))) =>
    q₀.about = sampleAbout ∧ q₁.about = sampleAbout ∧ q₂.about = sampleAbout ∧ bytes = sampleBytes.bytes
  | _, _, _ => false

theorem quietRun_outcome : quietRun.map quietOutcome = some true := by
  decide +kernel

theorem quietRun_sampled {cfg : Cfg ℕ} (h : quietRun = some cfg) : Sampled cfg := by
  simp only [quietRun, Option.bind_eq_bind, Option.bind_eq_some_iff] at h
  obtain ⟨gets, hgets, puts, hputs, linked, hlinked, again, hagain, hlast⟩ := h
  have hempty : Sampled ⟨sampleStorage, fun _ => none⟩ := ⟨.begin, fun _ _ => rfl⟩
  exact ((((hempty.start hgets).start hputs).calls hlinked).start hagain).calls hlast

/-- A put and two gets of its object, none of which reports corruption. -/
theorem quiet_gets_report_none : ∃ (cfg : Cfg ℕ) (q₀ q₁ q₂ : Request) (r₀ r₁ r₂ : ServerResult Response),
    QuietRun sampleCrypto sampleStorage cfg ∧
    (q₀.about = sampleAbout ∧ cfg.thread 0 = some (q₀, .done r₀) ∧ r₀ = .error .blobNotFound ∧ ¬ Reports r₀) ∧
    (q₁.about = sampleAbout ∧ cfg.thread 1 = some (q₁, .done r₁) ∧ r₁ = .ok (.object (.put .created)) ∧
      ¬ Reports r₁) ∧
    (q₂.about = sampleAbout ∧ cfg.thread 2 = some (q₂, .done r₂) ∧ r₂ = .ok (.object (.bytes sampleBytes.bytes)) ∧
      ¬ Reports r₂) := by
  obtain ⟨cfg, hcfg, hout⟩ := Option.map_eq_some_iff.mp quietRun_outcome
  have hquiet := (quietRun_sampled hcfg).quiet
  unfold quietOutcome at hout
  split at hout
  · rename_i q₀ q₁ q₂ bytes hfirst hput hsecond
    obtain ⟨h₀, h₁, h₂, rfl⟩ := of_decide_eq_true hout
    exact ⟨cfg, q₀, q₁, q₂, _, _, _, hquiet,
      ⟨h₀, hfirst, rfl, quiet_run_reports_none sampleStore_empty.sound hquiet hfirst⟩,
      ⟨h₁, hput, rfl, quiet_run_reports_none sampleStore_empty.sound hquiet hput⟩,
      ⟨h₂, hsecond, rfl, quiet_run_reports_none sampleStore_empty.sound hquiet hsecond⟩⟩
  · cases hout

end Sample

end RustSync.IndexedFs
