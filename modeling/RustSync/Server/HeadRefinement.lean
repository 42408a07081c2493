/-
Both head stores are the register

The contract of the SQLite-backed store is that of the store of objects, and
that the head row names a stored manifest at a revision above 0. The contract
of the plain store: the head file holds a head, only the holder of the lock
replaces it, and files stay. Under them no check of the stores fails but the
one for the manifest, and each call commits to one event of the register. On
the SQLite-backed store the calls of the head wait for nobody; on the plain
store they wait for the lock, which whoever holds it gives back.

Key definitions: `IndexedFs.headContract`, `Fs.headContract`. Key theorem:
`heads_refine_register`.
-/
import RustSync.Lib.Lock
import RustSync.Server.HeadRegister

namespace RustSync

open Fallible

namespace IndexedFs

open Indexed (HeadRow headOf headOfRow headStatement insertHead updateHeadWhere toU64 toI64 idColumn
  timestampColumn resultOf)
open Objects (pathOf storedIn)

section Contract

variable {ι : Type} (c : Crypto) (w : WorkspaceId)

/-- The head row, where there is one, is a head at a revision above 0 and names
a stored manifest. -/
def Named (s : State ι) : Prop :=
  ∀ row, s.heads w = some row → ∃ h m, headOfRow w row = .ok h ∧ row.revision = h.revision.toNat ∧
    h.revision ≠ 0 ∧ h.manifestId = some m ∧ m ∈ storedIn w s.objects.files

def headContract : Contract ι (State ι) where
  inv s := Objects.Sound c s.objects ∧ Named w s
  guar i s s' := Objects.Guarantees i s.objects s'.objects
  idle _ _ := True

variable {c w} {i : ι} {s s' : State ι}

theorem headContract_covers : (headContract (ι := ι) c w).Covers (Objects.storeContract c) State.objects :=
  ⟨fun _ h => h.1, fun _ _ _ h => h⟩

def HasFile (w : WorkspaceId) (id : ManifestId) (b : Bytes) (s : State ι) : Prop :=
  Objects.HasFile w .manifest id.asStr b s.objects

def HasManifest (w : WorkspaceId) (id : ManifestId) (s : State ι) : Prop := ∃ b, HasFile w id b s

theorem hasManifest_iff {id : ManifestId} : HasManifest w id s ↔ id ∈ storedIn w s.objects.files :=
  Option.ne_none_iff_exists'.symm

theorem stable_hasFile {id : ManifestId} {b : Bytes} : (headContract c w).Stable i (HasFile (ι := ι) w id b) :=
  Objects.stable_hasFile.of_covers headContract_covers

theorem stable_hasManifest {id : ManifestId} : (headContract c w).Stable i (HasManifest (ι := ι) w id) := by
  intro j hj s s' hinv hinv' hguar h
  obtain ⟨b, hb⟩ := h
  exact ⟨b, stable_hasFile j hj s s' hinv hinv' hguar hb⟩

/-- Manifests that are stored stay so. -/
theorem storedIn_kept (hguar : Objects.Guarantees i s.objects s'.objects) {id : ManifestId}
    (h : id ∈ storedIn w s.objects.files) : id ∈ storedIn w s'.objects.files := by
  obtain ⟨b, hb⟩ := Option.ne_none_iff_exists'.mp h
  have hpath := Objects.pathOf_eq w .manifest id.asStr
  rw [hpath] at hb
  have hkept := hguar.files w _ b hb
  rw [← hpath] at hkept
  exact Option.ne_none_iff_exists'.mpr ⟨b, hkept⟩

theorem Named.kept (h : Named w s) (hguar : Objects.Guarantees i s.objects s'.objects)
    (hheads : s'.heads = s.heads) : Named w s' := by
  intro row hrow
  rw [hheads] at hrow
  obtain ⟨head, m, hok, hrev, hne, hm, hstored⟩ := h row hrow
  exact ⟨head, m, hok, hrev, hne, hm, storedIn_kept hguar hstored⟩

/-- The head an existing row stands for, or the empty one. -/
theorem Named.headOf_ok (h : Named w s) : ∃ head, headOf w (s.heads w) = .ok head ∧
    ∀ id, head.manifestId = some id → HasManifest w id s := by
  cases hrow : s.heads w with
  | none => exact ⟨_, rfl, fun id hid => nomatch hid⟩
  | some row =>
    obtain ⟨head, m, hok, _, _, hm, hstored⟩ := h row hrow
    refine ⟨head, hok, fun id hid => hasManifest_iff.mpr ?_⟩
    rw [Option.some.inj (hid.symm.trans hm)]
    exact hstored

theorem register_head {head : WorkspaceHead} (h : headOf w (s.heads w) = .ok head) :
    (register w s).head = head := by
  unfold register
  rw [h]
  rfl

theorem register_objects (hheads : s'.heads = s.heads) :
    register w s' = ⟨(register w s).head, storedIn w s'.objects.files⟩ := by
  unfold register
  rw [hheads]

end Contract

/-! ### Programs of the store of objects -/

section Programs

variable {ι : Type} [DecidableEq ι] {c : Crypto} {w : WorkspaceId} {i : ι} {r₀ : HeadRegister} {q : HeadRequest}
  {α : Type} {events : List HeadEvent} {err : State ι × Log ι HeadEvent → Prop}
  {post : α → State ι × Log ι HeadEvent → Prop}

/-- A proof outline of a program that serves `q`, beside the log. -/
abbrev Proved (c : Crypto) (w : WorkspaceId) (r₀ : HeadRegister) (q : HeadRequest) (i : ι)
    (err pre : State ι × Log ι HeadEvent → Prop) (x : Storage α)
    (post : α → State ι × Log ι HeadEvent → Prop) : Prop :=
  Outlined (committed (headContract c w) (HeadRegister.Step w) (register w) r₀)
    (commits fun i o s r s' => State.Runs i o s r s') i err pre (Fallible.lift (committing (event w q)) x) post

/-- The calls of a program of the store of objects. -/
def OfObjects (P : Objects.Op → Prop) (o : Op) : Prop := ∃ o', o = .object o' ∧ P o'

omit [DecidableEq ι] in
theorem ofObjects_calls {P : Objects.Op → Prop} {x : Objects.Storage α} (hx : Fallible.Calls P x) :
    Fallible.Calls (OfObjects P) (ofObjects x) := hx.lift fun o ho => ⟨o, rfl, ho⟩

omit [DecidableEq ι] in
/-- A program of the store of objects keeps the contract of the heads. -/
theorem ofObjects_headContract {err pre : Objects.State ι → Prop} {x : Objects.Storage α}
    {post : α → Objects.State ι → Prop} (hx : Objects.Proved c i err pre x post) :
    Outline (headContract c w) (fun i o s r s' => State.Runs i o s r s') i (fun r s => Ends err post r s.objects)
      (fun s => pre s.objects) (ofObjects x).run := by
  refine Outline.embed_calls (P := fun _ => True) headContract_covers (fun o s r s' _ hinv hrun => ?_)
    (Prog.calls_true _) hx
  obtain ⟨hobjects, hheads⟩ := State.runs_object hrun
  exact ⟨hobjects, fun hsound hguar => ⟨⟨hsound, hinv.2.kept hguar hheads⟩, hguar⟩⟩

/-- A program of the store of objects none of whose calls changes a file or
commits to anything. -/
theorem ofObjects_quiet {err pre : Objects.State ι → Prop} {x : Objects.Storage α}
    {post : α → Objects.State ι → Prop} {P : Objects.Op → Prop}
    (hP : ∀ o, P o → o.target = none ∧ ∀ r, headEvent q (.object o) r = none) (hcalls : Fallible.Calls P x)
    (hx : Objects.Proved c i err pre x post) :
    Proved c w r₀ q i (Own i events fun s => err s.objects) (Own i events fun s => pre s.objects) (ofObjects x)
      fun a => Own i events fun s => post a s.objects := by
  have hquiet : ∀ (o : Op) (s : State ι) (r : ServerResult o.Val) (s' : State ι), OfObjects P o →
      (headContract c w).inv s → State.Runs i o s r s' → event w q o s r s' = none ∧ register w s' = register w s := by
    intro o s r s' ho _ hrun
    obtain ⟨o', rfl, hcall⟩ := ho
    obtain ⟨htarget, hevent⟩ := hP o' hcall
    obtain ⟨hobjects, hheads⟩ := State.runs_object hrun
    have hfiles : s'.objects.files = s.objects.files := funext fun path => Objects.files_of_runs hobjects (by
      rw [htarget]
      exact nofun)
    refine ⟨?_, ?_⟩
    · unfold event
      rw [hevent, Option.none_or]
      show Objects.storedEvent w o'.target _ _ = none
      rw [htarget]
      rfl
    · unfold register
      rw [hheads, hfiles]
  refine Outline.weaken_post (Outline.quiet hquiet (ofObjects_calls hcalls) (ofObjects_headContract hx))
    fun r s _ hs => ?_
  cases r with
  | ok a => exact hs
  | error e => exact hs

/-- A request for an object stores what it is seen to store. -/
theorem object_proved {qo : Objects.Request} : Proved c w r₀ (.object qo) i (fun _ => True) (fun _ => True)
    (handle c w (.object qo)) fun _ _ => True := by
  have hcommits : ∀ (o : Op) (s : State ι) (r : ServerResult o.Val) (s' : State ι),
      OfObjects (fun _ => True) o → (headContract c w).inv s → (headContract c w).inv s' →
      (headContract c w).guar i s s' → State.Runs i o s r s' →
      Commits (HeadRegister.Step w) (register w s) (event w (.object qo) o s r s') (register w s') := by
    intro o s r s' ho _ _ hguar hrun
    obtain ⟨o', rfl, _⟩ := ho
    obtain ⟨hobjects, hheads⟩ := State.runs_object hrun
    have hkept (id : ManifestId) (hid : id ∈ storedIn w s.objects.files) : id ∈ storedIn w s'.objects.files :=
      storedIn_kept hguar hid
    rw [register_objects hheads]
    exact Objects.storedEvent_commits hkept (fun path hpath => Objects.files_of_runs hobjects hpath) _
  have hserved : Objects.Proved (ι := ι) c i (fun _ => True) (fun _ => True) (qo.handle c) fun _ _ => True := by
    refine Outline.weaken_post (Objects.handle_proved qo) fun r s _ _ => ?_
    cases r with
    | ok a => trivial
    | error e => trivial
  have hobject : Proved c w r₀ (.object qo) i (fun _ => True) (fun _ => True) (ofObjects (qo.handle c))
      fun _ _ => True := by
    refine Outline.weaken_post (Outline.logged hcommits (ofObjects_calls (Prog.calls_true _))
      (ofObjects_headContract hserved)) fun r s _ _ => ?_
    cases r with
    | ok a => trivial
    | error e => trivial
  show Proved c w r₀ (.object qo) i (fun _ => True) (fun _ => True) (HeadResponse.object <$> ofObjects (qo.handle c))
    fun _ _ => True
  unfold Proved
  rw [lift_map]
  exact Outlined.map hobject Contract.stable_true (fun _ => Contract.stable_true) fun _ _ _ _ => trivial

/-- A call of the store of objects that changes no file, and what it commits to
by its answer. -/
theorem commit_object {o : Objects.Op} (commit : o.Val → Option HeadEvent) (mid : o.Val → Objects.State ι → Prop)
    {P : Objects.State ι → Prop} {k : o.Val → Objects.Storage α} (hP : (Objects.storeContract c).Stable i P)
    (htarget : o.target = none)
    (hstep : ∀ s r s', Objects.Sound c s → P s → Objects.State.Runs i o s r s' → Objects.Sound c s' ∧
      Objects.Guarantees i s s' ∧ ∃ a, r = .ok a ∧ headEvent q (.object o) r = commit a ∧ mid a s')
    (hcommits : ∀ (s : State ι) a t, P s.objects → Objects.State.Runs i o s.objects (.ok a) t →
      Commits (HeadRegister.Step w) (register w s) (commit a) (register w s))
    (hk : ∀ a, Proved c w r₀ q i err (Own i (events ++ (commit a).toList) fun s => mid a s.objects)
      (ofObjects (k a)) post)
    (herr : (committed (headContract c w) (HeadRegister.Step w) (register w) r₀).Stable i err) :
    Proved c w r₀ q i err (Own i events fun s => P s.objects) (ofObjects (Objects.call o >>= k)) post := by
  unfold Proved ofObjects
  rw [Fallible.lift_bind (e := calls)]
  have hafter : ∀ a : (Op.object o).Val, Outlined (committed (headContract c w) (HeadRegister.Step w) (register w) r₀)
      (commits fun i o s r s' => State.Runs i o s r s') i err
      (Own i (events ++ (commit a).toList) fun s => mid a s.objects)
      (Fallible.lift (committing (event w q)) (Fallible.lift calls (k a))) post := hk
  refine Outlined.commit (o := Op.object o) commit (fun a s => mid a s.objects) (hP.of_covers headContract_covers)
    (fun s r s' hinv hp hrun => ?_) hafter herr
  obtain ⟨hobjects, hheads⟩ := State.runs_object hrun
  obtain ⟨hsound, hguar, a, rfl, hevent, hmid⟩ := hstep _ _ _ hinv.1 hp hobjects
  have hfiles : s'.objects.files = s.objects.files := funext fun path => Objects.files_of_runs hobjects (by
    rw [htarget]
    exact nofun)
  have hregister : register w s' = register w s := by
    unfold register
    rw [hheads, hfiles]
  refine ⟨⟨hsound, hinv.2.kept hguar hheads⟩, hguar, a, rfl, ?_, ?_, hmid⟩
  · have hnone : Objects.storedEvent w (Op.object o).target s.objects.files s'.objects.files = none := by
      show Objects.storedEvent w o.target _ _ = none
      rw [htarget]
      rfl
    unfold event
    rw [hnone, Option.or_none]
    exact hevent
  · rw [hregister]
    exact hcommits s a s'.objects hp hobjects

/-- An update that finds no manifest has failed then; one that does can rely
on it from then on. -/
theorem existsObject_proved {u : HeadUpdate} :
    Proved c w r₀ (.updateHead u) i (Own i [.failed u] fun _ => True) (Own i [] fun _ => True)
      (ofObjects (Objects.existsObject c w .manifest u.manifestId.asStr))
      fun found => if found then Own i [] (HasManifest w u.manifestId) else Own i [.failed u] fun _ => True := by
  have herr : (committed (headContract c w) (HeadRegister.Step w) (register w) r₀).Stable i
      (Own i [.failed u] fun _ : State ι => True) := stable_own Contract.stable_true
  have hquiet : ∀ o, Objects.Cataloguing o → o.target = none ∧ ∀ r, headEvent (.updateHead u) (.object o) r = none := by
    intro o ho
    cases o with
    | objectRowsById w kind id | objectRowsByObjectId w id | insertObject w kind id size => exact ⟨rfl, fun _ => rfl⟩
    | _ => exact ho.elim
  refine commit_object (o := .readFile (pathOf w .manifest u.manifestId.asStr))
    (fun (found : Option Bytes) => if found.isNone then some (.failed u) else none)
    (fun (found : Option Bytes) s => ∀ b, found = some b → Objects.HasFile w .manifest u.manifestId.asStr b s)
    Contract.stable_true rfl ?_ ?_ (fun found => ?_) herr
  · intro s r s' hsound _ hrun
    obtain ⟨now, hread⟩ := hrun
    cases hread
    refine ⟨hsound, Objects.Guarantees.refl _, _, rfl, ?_, fun b hb => hb⟩
    cases s.files (pathOf w .manifest u.manifestId.asStr) with
    | none => rfl
    | some b => rfl
  · intro s found t _ hrun
    obtain ⟨now, hread⟩ := hrun
    cases hread
    cases hfile : s.objects.files (pathOf w .manifest u.manifestId.asStr) with
    | none => exact .failed fun hstored => hstored hfile
    | some b => rfl
  · change Option Bytes at found
    cases found with
    | none =>
      have habsent : (Objects.storeContract c).Stable i fun s : Objects.State ι =>
          ∀ b, (none : Option Bytes) = some b → Objects.HasFile w .manifest u.manifestId.asStr b s :=
        fun _ _ _ _ _ _ _ _ _ h => nomatch h
      have hlook : Objects.Proved c i (fun _ => True) (fun s : Objects.State ι =>
          ∀ b, (none : Option Bytes) = some b → Objects.HasFile w .manifest u.manifestId.asStr b s)
          (Objects.reportMissingCatalogRow w .manifest u.manifestId.asStr >>= fun _ => pure false)
          fun found _ => found = false := by
        refine Outlined.bind (Objects.reportMissingCatalogRow_proved habsent Contract.stable_true fun _ _ => trivial)
          Contract.stable_true fun _ => ?_
        exact Outlined.pure habsent fun _ _ _ => rfl
      refine Outline.weaken_post (ofObjects_quiet hquiet
        (Objects.reportMissingCatalogRow_calls.bind fun _ => Calls.pure _) hlook) fun r s _ hs => ?_
      cases r with
      | error e => exact hs
      | ok found =>
        obtain ⟨rfl, hevents⟩ := hs
        exact ⟨trivial, hevents⟩
    | some b =>
      have hread : (Objects.storeContract c).Stable i fun s : Objects.State ι =>
          ∀ b', some b = some b' → Objects.HasFile w .manifest u.manifestId.asStr b' s :=
        fun j hj s s' hs hs' hguar h b' hb' => Objects.stable_hasFile j hj s s' hs hs' hguar (h b' hb')
      have hnever : (Objects.storeContract (ι := ι) c).Stable i fun _ => False := Contract.stable_const
      have hverify : Objects.Proved c i (fun _ => False) (fun s : Objects.State ι =>
          ∀ b', some b = some b' → Objects.HasFile w .manifest u.manifestId.asStr b' s)
          (Objects.verifyBackfill c w .manifest u.manifestId.asStr b >>= fun _ => pure true)
          fun found s => found = true ∧ Objects.HasFile w .manifest u.manifestId.asStr b s := by
        have hbackfill : Objects.Proved c i (fun _ => False) (fun s : Objects.State ι =>
            ∀ b', some b = some b' → Objects.HasFile w .manifest u.manifestId.asStr b' s)
            (Objects.verifyBackfill c w .manifest u.manifestId.asStr b) fun _ s =>
              ∀ b', some b = some b' → Objects.HasFile w .manifest u.manifestId.asStr b' s :=
          Objects.verifyBackfill_proved hread (fun _ _ h => h b rfl) (fun _ h => h) hnever
        refine Outlined.bind hbackfill hnever fun _ => ?_
        exact Outlined.pure hread fun _ _ h => ⟨rfl, h b rfl⟩
      refine Outline.weaken_post (ofObjects_quiet hquiet
        (Objects.verifyBackfill_calls.bind fun _ => Calls.pure _) hverify) fun r s _ hs => ?_
      cases r with
      | error e => exact hs.1.elim
      | ok found =>
        obtain ⟨⟨rfl, hfile⟩, hevents⟩ := hs
        exact ⟨⟨b, hfile⟩, hevents⟩

/-! ### Heads -/

/-- The row of an update, and the head it stands for. -/
def updateRow (u : HeadUpdate) (now : ℤ) : HeadRow :=
  ⟨some u.manifestId.asStr, (u.expectedRevision.toNat + 1 : ℕ), u.updatedBy.map TextId.asStr, some now⟩

theorem headOfRow_updateRow {u : HeadUpdate} {now : ℤ} (hnow : 0 ≤ now) :
    headOfRow w (updateRow u now) = .ok ⟨w, some u.manifestId, u.expectedRevision + 1, u.updatedBy,
      some ⟨UInt64.ofNat now.toNat⟩⟩ := by
  have hrev : UInt64.ofNat (u.expectedRevision.toNat + 1) = u.expectedRevision + 1 := by
    rw [UInt64.ofNat_add, UInt64.ofNat_toNat]
    rfl
  have hmanifest : idColumn (ObjectId.parse manifestIdKind) (some u.manifestId.asStr) =
      .ok (some u.manifestId) := by
    rw [idColumn, ObjectId.parse_asStr]
    rfl
  have hby : idColumn (TextId.parse deviceIdKind) (u.updatedBy.map TextId.asStr) = .ok u.updatedBy := by
    cases u.updatedBy with
    | none => rfl
    | some d =>
      rw [Option.map_some, idColumn, TextId.parse_asStr]
      rfl
  have hat : timestampColumn (some now) = .ok (some ⟨UInt64.ofNat now.toNat⟩) := by
    rw [timestampColumn, toU64, if_pos hnow]
    rfl
  have hrevision : toU64 (u.expectedRevision.toNat + 1 : ℕ) "workspace head revision" =
      .ok (u.expectedRevision + 1) := by
    rw [toU64, if_pos (Int.natCast_nonneg _), Int.toNat_natCast, hrev]
  simp only [headOfRow, updateRow, hmanifest, hby, hat, hrevision, bind, Except.bind, pure, Except.pure]

omit [DecidableEq ι] in
/-- The statement changes the row exactly when the expected revision is the
current one. -/
theorem headStatement_cases {s : State ι} (hinv : Named w s) {head : WorkspaceHead}
    (hhead : headOf w (s.heads w) = .ok head) (u : HeadUpdate) (row : HeadRow) :
    (u.expectedRevision = head.revision ∧
        headStatement u.expectedRevision.toNat row (s.heads w) = (1, some row)) ∨
      (u.expectedRevision ≠ head.revision ∧
        headStatement u.expectedRevision.toNat row (s.heads w) = (0, s.heads w)) := by
  have hzero : ((u.expectedRevision.toNat : ℤ) = 0) ↔ u.expectedRevision = 0 := by
    rw [Int.natCast_eq_zero, ← UInt64.toNat_inj]
    rfl
  unfold headStatement
  cases hrow : s.heads w with
  | none =>
    rw [hrow] at hhead
    cases hhead
    by_cases h : u.expectedRevision = 0
    · rw [if_pos (hzero.mpr h)]
      exact .inl ⟨h, rfl⟩
    · rw [if_neg (mt hzero.mp h)]
      exact .inr ⟨h, rfl⟩
  | some old =>
    obtain ⟨head', m, hok, hrev, hne, _⟩ := hinv old hrow
    have hsame : head' = head := by
      rw [hrow] at hhead
      exact Except.ok.inj (hok.symm.trans hhead)
    subst hsame
    have hiff : old.revision = u.expectedRevision.toNat ↔ u.expectedRevision = head'.revision := by
      rw [hrev, Int.natCast_inj, UInt64.toNat_inj]
      exact eq_comm
    by_cases h : u.expectedRevision = head'.revision
    · have hne' : ¬ ((u.expectedRevision.toNat : ℤ) = 0) := by
        rw [hzero, h]
        exact hne
      rw [if_neg hne', updateHeadWhere, if_pos (hiff.mpr h)]
      exact .inl ⟨h, rfl⟩
    · refine .inr ⟨h, ?_⟩
      by_cases h0 : (u.expectedRevision.toNat : ℤ) = 0
      · rw [if_pos h0]
        rfl
      · rw [if_neg h0, updateHeadWhere, if_neg (mt hiff.mp h)]

omit [DecidableEq ι] in
theorem run_updateHead {nanos n : ℕ} {now expected next : ℤ} {manifestId : String} {updatedBy : Option String}
    {s : State ι} {row : Option HeadRow} {head : WorkspaceHead} (hnow : 0 ≤ now ∧ now < 2 ^ 63)
    (hran : headStatement expected ⟨some manifestId, next, updatedBy, some now⟩ (s.heads w) = (n, row))
    (hhead : headOf w row = .ok head) : s.run nanos now i (.updateHead w expected next manifestId updatedBy) =
      some (.ok (n, head), { s with heads := Function.update s.heads w row }) := by
  simp only [State.run, hran, hhead, if_pos hnow]

/-- Where a stored manifest is published, the transaction is the register's
update. -/
theorem updateHeadRow_proved {u : HeadUpdate}
    (herr : (committed (headContract c w) (HeadRegister.Step w) (register w) r₀).Stable i err) :
    Proved c w r₀ (.updateHead u) i err (Own i [] (HasManifest w u.manifestId))
      (updateHeadRow w u.expectedRevision u.manifestId u.updatedBy) fun (result, head) =>
        Own i [match result with
          | .updated => .updated u head
          | .conflict => .conflict u head] fun _ => True := by
  have hbound := u.bound
  have hfirst : toI64 u.expectedRevision.toNat "workspace head revision" =
      .ok (u.expectedRevision.toNat : ℤ) := if_pos (by omega)
  have hsecond : ((toI64 (u.expectedRevision.toNat + 1) "workspace head revision").mapError fun _ =>
      ServerError.headRevisionOverflow) = .ok ((u.expectedRevision.toNat + 1 : ℕ) : ℤ) := by
    rw [toI64, if_pos (by omega)]
    rfl
  have hsize : u.expectedRevision.toNat + 1 < UInt64.size := by
    have : UInt64.size = 2 ^ 64 := rfl
    omega
  unfold updateHeadRow
  refine Outlined.lift_check_ok hfirst ?_
  refine Outlined.lift_check_ok (b := ()) (require_ok.mpr hsize) ?_
  refine Outlined.lift_check_ok hsecond ?_
  refine Outlined.commit (o := Op.updateHead w u.expectedRevision.toNat (u.expectedRevision.toNat + 1 : ℕ)
      u.manifestId.asStr (u.updatedBy.map TextId.asStr))
    (fun (ran : ℕ × WorkspaceHead) => some (if ran.1 = 1 then .updated u ran.2 else .conflict u ran.2))
    (fun _ _ => True) stable_hasManifest ?_ (fun ran => ?_) herr
  · intro s r s' hinv hp hrun
    obtain ⟨nanos, now, hrun⟩ := hrun
    have hnow := (Option.ite_none_right_eq_some.mp hrun).1
    obtain ⟨head, hhead, _⟩ := hinv.2.headOf_ok
    have hregister : (register w s).head = head := register_head hhead
    rcases headStatement_cases hinv.2 hhead u (updateRow u now) with ⟨hrev, hran⟩ | ⟨hrev, hran⟩
    · have hnew : headOf w (some (updateRow u now)) = .ok ((register w s).next w u ⟨UInt64.ofNat now.toNat⟩) := by
        rw [headOf, headOfRow_updateRow hnow.1, HeadRegister.next, hregister, hrev]
      have hne : u.expectedRevision + 1 ≠ 0 := by
        intro hzero
        have hval := congrArg UInt64.toNat hzero
        rw [UInt64.toNat_add, UInt64.toNat_one, Nat.mod_eq_of_lt (by omega)] at hval
        simp at hval
      let next := (register w s).next w u ⟨UInt64.ofNat now.toNat⟩
      have hafter : s' = { s with heads := Function.update s.heads w (some (updateRow u now)) } ∧
          r = .ok (1, next) := by
        rw [run_updateHead hnow hran hnew] at hrun
        cases hrun
        exact ⟨rfl, rfl⟩
      obtain ⟨rfl, rfl⟩ := hafter
      have hrow : Function.update s.heads w (some (updateRow u now)) w = some (updateRow u now) :=
        Function.update_self ..
      refine ⟨⟨hinv.1, fun row hsome => ?_⟩, Objects.Guarantees.refl _, _, rfl, rfl, ?_, trivial⟩
      · change Function.update s.heads w (some (updateRow u now)) w = some row at hsome
        rw [hrow] at hsome
        cases hsome
        refine ⟨_, u.manifestId, headOfRow_updateRow hnow.1, ?_, hne, rfl, hasManifest_iff.mp hp⟩
        show ((u.expectedRevision.toNat + 1 : ℕ) : ℤ) = (u.expectedRevision + 1).toNat
        rw [UInt64.toNat_add, UInt64.toNat_one, Nat.mod_eq_of_lt (by omega)]
      · have hregister' : register w { s with heads := Function.update s.heads w (some (updateRow u now)) } =
            { register w s with head := next } := by
          unfold register
          dsimp only
          rw [hrow, hnew]
          rfl
        show HeadRegister.Step w (register w s) (.updated u next) _
        rw [hregister']
        exact .updated (hasManifest_iff.mp hp) (hrev.trans (congrArg _ hregister.symm))
    · have hafter : s' = { s with heads := Function.update s.heads w (s.heads w) } ∧ r = .ok (0, head) := by
        rw [run_updateHead hnow hran hhead] at hrun
        cases hrun
        exact ⟨rfl, rfl⟩
      obtain ⟨rfl, rfl⟩ := hafter
      rw [Function.update_eq_self]
      refine ⟨hinv, Objects.Guarantees.refl _, _, rfl, rfl, ?_, trivial⟩
      show HeadRegister.Step w (register w s) (.conflict u head) (register w s)
      rw [← hregister]
      exact .conflict (hasManifest_iff.mp hp) (by rw [hregister]; exact hrev)
  · change ℕ × WorkspaceHead at ran
    refine Outlined.pure (stable_own Contract.stable_true) fun s _ h => ⟨trivial, ?_⟩
    rw [h.2]
    by_cases hran : ran.1 = 1
    · simp [resultOf, hran]
    · simp [resultOf, hran]

theorem updateHead_proved {u : HeadUpdate} :
    Proved c w r₀ (.updateHead u) i (Own i [.failed u] fun _ => True) (Own i [] fun _ => True)
      (updateHead c w u.expectedRevision u.manifestId u.updatedBy) fun (result, head) =>
        Own i [match result with
          | .updated => .updated u head
          | .conflict => .conflict u head] fun _ => True := by
  have herr : (committed (headContract c w) (HeadRegister.Step w) (register w) r₀).Stable i
      (Own i [.failed u] fun _ : State ι => True) := stable_own Contract.stable_true
  unfold updateHead
  refine Outlined.lift_bind existsObject_proved herr fun found => ?_
  cases found with
  | true =>
    refine Outlined.lift_check_ok (b := ()) (require_ok.mpr rfl) ?_
    exact updateHeadRow_proved herr
  | false =>
    refine Outlined.lift_check_bind herr (fun _ _ h => h) fun _ hfound => ?_
    cases require_ok.mp hfound

theorem getHead_proved :
    Proved c w r₀ .getHead i (fun _ => False) (Own i [] fun _ => True) (getHead c w)
      fun head => Own i [.got head] fun _ => True := by
  have herr : (committed (headContract c w) (HeadRegister.Step w) (register w) r₀).Stable i
      fun _ : State ι × Log ι HeadEvent => False := Contract.stable_const
  have hquiet : ∀ o, Objects.Looking o → o.target = none ∧ ∀ r, headEvent .getHead (.object o) r = none := by
    intro o ho
    cases o with
    | readFile path | objectRowsById w kind id | objectRowsByObjectId w id | insertObject w kind id size =>
      exact ⟨rfl, fun _ => rfl⟩
    | _ => exact ho.elim
  have hnamed (head : WorkspaceHead) : (headContract c w).Stable i fun s : State ι =>
      ∀ id, head.manifestId = some id → HasManifest w id s :=
    fun j hj s s' hinv hinv' hguar h id hid => stable_hasManifest j hj s s' hinv hinv' hguar (h id hid)
  unfold getHead
  refine Outlined.commit (o := Op.selectHead w) (fun (head : WorkspaceHead) => some (.got head))
    (fun (head : WorkspaceHead) s => ∀ id, head.manifestId = some id → HasManifest w id s)
    Contract.stable_true ?_ (fun head => ?_) herr
  · intro s r s' hinv _ hrun
    obtain ⟨nanos, now, hrun⟩ := hrun
    obtain ⟨head, hhead, hstored⟩ := hinv.2.headOf_ok
    have hafter : r = .ok head ∧ s' = s := by
      cases hrun
      exact ⟨hhead, rfl⟩
    obtain ⟨rfl, rfl⟩ := hafter
    refine ⟨hinv, Objects.Guarantees.refl _, head, rfl, rfl, ?_, hstored⟩
    show HeadRegister.Step w (register w s') (.got head) (register w s')
    rw [← register_head hhead]
    exact .got
  · change WorkspaceHead at head
    have hstable := hnamed head
    cases hid : head.manifestId with
    | none =>
      rw [hid] at hstable
      exact Outlined.pure (stable_own hstable) fun _ _ h => ⟨trivial, h.2⟩
    | some id =>
      rw [hid] at hstable
      have hread : Proved c w r₀ .getHead i (fun _ => False) (Own i [.got head] (HasManifest w id))
          (ofObjects (Objects.getObject c w .manifest id.asStr .manifestNotFound)) fun _ =>
            Own i [.got head] fun _ => True := by
        have hone (b : Bytes) : Proved c w r₀ .getHead i (fun _ => False) (Own i [.got head] (HasFile w id b))
            (ofObjects (Objects.getObject c w .manifest id.asStr .manifestNotFound)) fun _ =>
              Own i [.got head] fun _ => True := by
          have hknown : Objects.Proved c i (fun _ => False) (Objects.HasFile w .manifest id.asStr b)
              (Objects.getObject c w .manifest id.asStr .manifestNotFound) fun b' _ => b' = b :=
            Objects.getObject_known
          refine Outline.weaken_post (ofObjects_quiet hquiet Objects.getObject_calls hknown) fun r s _ hs => ?_
          cases r with
          | ok b' => exact ⟨trivial, hs.2⟩
          | error e => exact hs.1
        refine Outline.weaken (Outline.exists_pre hone) (stable_own stable_hasManifest) fun s _ hs => ?_
        obtain ⟨⟨b, hb⟩, hevents⟩ := hs
        exact ⟨b, hb, hevents⟩
      refine Outlined.lift_bind (hread.weaken (stable_own hstable) fun _ _ h => ⟨h.1 id rfl, h.2⟩) herr
        fun _ => ?_
      exact Outlined.pure (stable_own Contract.stable_true) fun _ _ h => h

/-- Every program of the store commits to what it answers. -/
theorem kept : (committed (headContract c w) (HeadRegister.Step w) (register w) r₀).Kept
    ((indexedStorage ι c w).logged (event w)) fun q i res s => Answers q res (Log.eventsOf i s.2) := by
  refine ⟨fun i => stable_idle, fun q i => ?_⟩
  have hown {events : List HeadEvent} : (committed (headContract c w) (HeadRegister.Step w) (register w) r₀).Stable i
      (Own i events fun _ : State ι => True) := stable_own Contract.stable_true
  cases q with
  | getHead =>
    have hget : Proved c w r₀ .getHead i (fun _ => False) (Own i [] fun _ => True) (handle c w .getHead)
        fun response s => Answers .getHead (.ok response) (Log.eventsOf i s.2) := by
      unfold Proved handle
      rw [lift_map]
      exact Outlined.map getHead_proved Contract.stable_const (fun _ => hown) fun head s _ h => h.2
    exact outline_answers hget fun _ _ => False.elim
  | updateHead u =>
    have hupdate : Proved c w r₀ (.updateHead u) i (Own i [.failed u] fun _ => True) (Own i [] fun _ => True)
        (handle c w (.updateHead u)) fun response s =>
          Answers (.updateHead u) (.ok response) (Log.eventsOf i s.2) := by
      unfold Proved handle
      rw [lift_map]
      refine Outlined.map updateHead_proved hown (fun _ => hown) fun answer s _ h => ?_
      obtain ⟨result, head⟩ := answer
      cases result with
      | updated => exact h.2
      | conflict => exact h.2
    exact outline_answers hupdate fun _ _ h => h.2
  | object qo => exact outline_answers (object_proved.weaken hown fun _ _ _ => trivial) fun _ _ _ => trivial

/-- Calls of the head, and looks at files and catalogs, wait for nobody. -/
def Unhindered (o : Op) : Prop := ∀ o', o = .object o' → Objects.NonBlocking o'

omit [DecidableEq ι] in
theorem handle_calls (hq : q.OnHead) : Fallible.Calls Unhindered (handle c w q) := by
  have hobjects {β : Type} {x : Objects.Storage β} (hx : Fallible.Calls Objects.Looking x) :
      Fallible.Calls Unhindered (ofObjects x) := by
    refine (ofObjects_calls hx).mono fun o ho o' heq => ?_
    obtain ⟨o'', rfl, hlook⟩ := ho
    cases heq
    exact hlook.nonBlocking
  cases q with
  | getHead =>
    refine Calls.map (Calls.op_bind (fun _ h => nomatch h) fun head => ?_)
    change WorkspaceHead at head
    cases head.manifestId with
    | none => exact Calls.pure _
    | some id => exact (hobjects Objects.getObject_calls).bind fun _ => Calls.pure _
  | updateHead u =>
    refine Calls.map ((hobjects Objects.existsObject_calls).bind fun found => Calls.check_bind fun _ => ?_)
    refine Calls.check_bind fun expected => Calls.check_bind fun _ => Calls.check_bind fun next => ?_
    exact Calls.op_bind (fun _ h => nomatch h) fun ran => Calls.pure _
  | object qo => exact hq.elim

omit [DecidableEq ι] in
theorem run_unhindered (o : Op) (s : State ι) (ho : Unhindered o) : (s.run 0 0 i o).isSome := by
  cases o with
  | object o =>
    simp only [State.run, Option.isSome_map]
    exact Objects.run_nonBlocking o s.objects (ho o rfl)
  | selectHead w => rfl
  | updateHead w expected next manifestId updatedBy =>
    have hnow : (0 : ℤ) ≤ 0 ∧ (0 : ℤ) < 2 ^ 63 := by decide
    simp only [State.run, if_pos hnow]
    split <;> rfl

/-- A call of the head can come to its end. -/
theorem completes {s₀ : State ι} {cfg : Config ι Calls (State ι) HeadRequest (ServerResult HeadResponse)}
    (h : (indexedStorage ι c w).Reachable s₀ cfg) {p : Prog Calls (ServerResult HeadResponse)} (hq : q.OnHead)
    (hat : cfg.thread i = some (q, p)) :
    ∃ cfg' res, (indexedStorage ι c w).Steps cfg cfg' ∧ cfg'.thread i = some (q, .done res) := by
  have hprograms (q : HeadRequest) (hq : q.OnHead) : ((indexedStorage ι c w).program q).Calls Unhindered :=
    handle_calls hq
  have hsound (o : Op) (s : State ι) (r : ServerResult o.Val) (s' : State ι) (hrun : s.run 0 0 i o = some (r, s')) :
      (indexedStorage ι c w).sem i o s r s' := ⟨0, 0, hrun⟩
  exact (h.calls hprograms i q p hq hat).completes hsound run_unhindered hat

end Programs

end IndexedFs

/-! ### The plain store -/

namespace Fs

open Objects (Path pathOf storedIn)

section Contract

variable {ι : Type} (w : WorkspaceId)

/-- The head file, where there is one, is a head. -/
def Consistent (s : State ι) : Prop :=
  ∀ json, s.head = some json → ∃ head, Codec.decodeWorkspaceHead json = .ok head

/-- Files stay, and the head is its lock holder's to replace. -/
def headContract : Contract ι (State ι) where
  inv := Consistent
  guar i s s' := (∀ path b, s.files path = some b → s'.files path = some b) ∧
    ∀ j, j ≠ i → s.headLock = some j → s'.headLock = some j ∧ s'.head = s.head
  idle _ _ := True

variable {w} {i : ι} {s s' : State ι}

theorem guar_refl (s : State ι) : (headContract (ι := ι)).guar i s s :=
  ⟨fun _ _ h => h, fun _ _ h => ⟨h, rfl⟩⟩

def HasManifest (w : WorkspaceId) (id : ManifestId) (s : State ι) : Prop := id ∈ storedIn w s.files

def Locked (i : ι) (s : State ι) : Prop := s.headLock = some i

/-- The lock is held, and the head file is `head`. -/
def Holding (w : WorkspaceId) (i : ι) (head : WorkspaceHead) (s : State ι) : Prop :=
  Locked i s ∧ headOf w s.head = .ok head

theorem storedIn_kept (hkept : ∀ path b, s.files path = some b → s'.files path = some b) {id : ManifestId}
    (h : id ∈ storedIn w s.files) : id ∈ storedIn w s'.files := by
  obtain ⟨b, hb⟩ := Option.ne_none_iff_exists'.mp h
  exact Option.ne_none_iff_exists'.mpr ⟨b, hkept _ b hb⟩

theorem stable_hasManifest {id : ManifestId} : headContract.Stable i (HasManifest (ι := ι) w id) :=
  fun _ _ _ _ _ _ hguar h => storedIn_kept hguar.1 h

theorem stable_locked : headContract.Stable i (Locked i) :=
  fun _ hj _ _ _ _ hguar h => (hguar.2 i (Ne.symm hj) h).1

theorem stable_holding {head : WorkspaceHead} : headContract.Stable i (Holding w i head) := by
  intro j hj s s' _ _ hguar h
  obtain ⟨hlock, hfile⟩ := hguar.2 i (Ne.symm hj) h.1
  exact ⟨hlock, by rw [hfile]; exact h.2⟩

theorem Consistent.headOf_ok (h : Consistent s) : ∃ head, headOf w s.head = .ok head := by
  cases hfile : s.head with
  | none => exact ⟨_, rfl⟩
  | some json =>
    obtain ⟨head, hhead⟩ := h json hfile
    exact ⟨head, Except.mapError_ok.mpr hhead⟩

theorem register_head {head : WorkspaceHead} (h : headOf w s.head = .ok head) :
    (register w s).head = head := by
  unfold register
  rw [h]
  rfl

end Contract

section Programs

variable {ι : Type} [DecidableEq ι] {c : Crypto} {w : WorkspaceId} {i : ι} {r₀ : HeadRegister} {q : HeadRequest}
  {α : Type} {err : State ι × Log ι HeadEvent → Prop}

abbrev Proved (w : WorkspaceId) (r₀ : HeadRegister) (q : HeadRequest) (i : ι)
    (err pre : State ι × Log ι HeadEvent → Prop) (x : Storage α)
    (post : α → State ι × Log ι HeadEvent → Prop) : Prop :=
  Outlined (committed headContract (HeadRegister.Step w) (register w) r₀)
    (commits fun i o s r s' => State.Runs i o s r s') i err pre (Fallible.lift (committing (event w q)) x) post

omit [DecidableEq ι] in
/-- A call that changes no file commits to what its answer says. -/
theorem event_of_answer {o : Op} (ho : o.target = none) (s : State ι) (r : ServerResult o.Val) (s' : State ι) :
    event w q o s r s' = headEvent w q o r := by
  unfold event
  rw [ho]
  exact Option.or_none

/-- Reading the head, where what the read commits to is the register's. -/
theorem getHead_reads {P : State ι → Prop} {Q : WorkspaceHead → State ι → Prop}
    {commit : WorkspaceHead → Option HeadEvent}
    (hcommit : ∀ file, headEvent w q .readHead (.ok file) = (headOf w file).toOption.bind commit)
    (hP : headContract.Stable i P) (hQ : ∀ head, headContract.Stable i (Q head))
    (hread : ∀ s head, P s → headOf w s.head = .ok head → Q head s ∧
      Commits (HeadRegister.Step w) (register w s) (commit head) (register w s))
    (herr : (committed headContract (HeadRegister.Step w) (register w) r₀).Stable i err) :
    Proved w r₀ q i err (Own i [] P) (getHead w) fun head => Own i (commit head).toList (Q head) := by
  have hmid (file : Option Serde.Doc) : headContract.Stable i fun s : State ι =>
      ∃ head, headOf w file = .ok head ∧ Q head s := by
    intro j hj s s' hs hs' hguar h
    obtain ⟨head, hhead, hq⟩ := h
    exact ⟨head, hhead, hQ head j hj s s' hs hs' hguar hq⟩
  unfold getHead
  refine Outlined.commit (o := Op.readHead) (fun (file : Option Serde.Doc) => (headOf w file).toOption.bind commit)
    (fun (file : Option Serde.Doc) s => ∃ head, headOf w file = .ok head ∧ Q head s) hP ?_ (fun file => ?_) herr
  · intro s r s' hinv hp hrun
    obtain ⟨now, hrun⟩ := hrun
    cases hrun
    have hstored : ∃ head, headOf w s.head = .ok head := Consistent.headOf_ok hinv
    obtain ⟨head, hhead⟩ := hstored
    obtain ⟨hq, hcommits⟩ := hread s head hp hhead
    refine ⟨hinv, guar_refl s, _, rfl, (event_of_answer rfl s _ s).trans (hcommit _), ?_, head, hhead, hq⟩
    rw [hhead]
    exact hcommits
  · change Option Serde.Doc at file
    refine Outlined.assume (φ := ∃ head, headOf w file = .ok head) (stable_own (hmid file)) (fun s _ h => ?_)
      fun hok => ?_
    · obtain ⟨⟨head, hhead, _⟩, _⟩ := h
      exact ⟨head, hhead⟩
    obtain ⟨head, hhead⟩ := hok
    have hcommitted : [] ++ ((headOf w file).toOption.bind commit).toList = (commit head).toList := by
      rw [hhead]
      rfl
    rw [hcommitted]
    refine Outlined.check_ok_last hhead (stable_own (hmid file)) fun s _ h => ?_
    obtain ⟨⟨head', hhead', hq⟩, hevents⟩ := h
    have hsame : head' = head := Except.ok.inj (hhead'.symm.trans hhead)
    subst hsame
    exact ⟨hq, hevents⟩

theorem getHead_proved :
    Proved w r₀ .getHead i (fun _ => False) (Own i [] fun _ => True) (getHead w)
      fun head => Own i [.got head] fun _ => True := by
  have hcommit (file : Option Serde.Doc) : headEvent w .getHead .readHead (.ok file) =
      (headOf w file).toOption.bind fun head => some (.got head) := Option.map_eq_bind ..
  refine getHead_reads hcommit Contract.stable_true (fun _ => Contract.stable_true) ?_ Contract.stable_const
  · intro s head _ hhead
    refine ⟨trivial, ?_⟩
    show HeadRegister.Step w (register w s) (.got head) (register w s)
    rw [← register_head hhead]
    exact .got

/-- Below the lock, an update does what the register does. -/
theorem updateLocked_proved {u : HeadUpdate} :
    Proved w r₀ (.updateHead u) i (Own i [.failed u] (Locked i)) (Own i [] (Locked i)) (updateLocked w u)
      fun (result, head) => Own i [match result with
        | .updated => .updated u head
        | .conflict => .conflict u head] (Locked i) := by
  have hbound := u.bound
  have herr : (committed headContract (HeadRegister.Step w) (register w) r₀).Stable i
      (Own i [.failed u] (Locked i)) := stable_own stable_locked
  have hheld : headContract.Stable i fun s : State ι => Locked i s ∧ HasManifest w u.manifestId s :=
    stable_locked.and stable_hasManifest
  have hfound (stored : Bool) : headContract.Stable i fun s : State ι =>
      Locked i s ∧ (stored = true → HasManifest w u.manifestId s) :=
    fun j hj s s' hs hs' hguar h => ⟨stable_locked j hj s s' hs hs' hguar h.1,
      fun hstored => stable_hasManifest j hj s s' hs hs' hguar (h.2 hstored)⟩
  have hread (head : WorkspaceHead) : headContract.Stable i fun s : State ι =>
      Holding w i head s ∧ HasManifest w u.manifestId s := stable_holding.and stable_hasManifest
  unfold updateLocked
  refine Outlined.commit (o := Op.tryExists (pathOf w .manifest u.manifestId.asStr))
    (fun (stored : Bool) => if stored then none else some (.failed u))
    (fun (stored : Bool) s => Locked i s ∧ (stored = true → HasManifest w u.manifestId s)) stable_locked ?_
    (fun stored => ?_) herr
  · intro s r s' hinv hp hrun
    obtain ⟨now, hrun⟩ := hrun
    cases hrun
    refine ⟨hinv, guar_refl s, _, rfl, ?_, ?_, hp, fun hstored => Option.isSome_iff_ne_none.mp hstored⟩
    · rw [event_of_answer rfl]
      cases s.files (pathOf w .manifest u.manifestId.asStr) with
      | none => rfl
      | some b => rfl
    · cases hfile : s.files (pathOf w .manifest u.manifestId.asStr) with
      | none => exact .failed fun hstored => hstored hfile
      | some b => rfl
  change Bool at stored
  cases stored with
  | false =>
    refine Outlined.lift_check_bind (stable_own (hfound false)) (fun _ _ h => ⟨h.1.1, h.2⟩) fun _ hstored => ?_
    cases require_ok.mp hstored
  | true =>
    refine Outlined.lift_check_ok (b := ()) (require_ok.mpr rfl) ?_
    have hcurrent : Proved w r₀ (.updateHead u) i (Own i [.failed u] (Locked i))
        (Own i [] fun s => Locked i s ∧ HasManifest w u.manifestId s) (getHead w) fun current =>
          Own i (conflictEvent u current).toList fun s => Holding w i current s ∧ HasManifest w u.manifestId s := by
      refine getHead_reads (fun file => rfl) hheld hread (fun s head hp hhead => ?_) herr
      refine ⟨⟨⟨hp.1, hhead⟩, hp.2⟩, ?_⟩
      unfold conflictEvent
      by_cases hrev : head.revision = u.expectedRevision
      · rw [if_pos hrev]
        rfl
      · rw [if_neg hrev]
        show HeadRegister.Step w (register w s) (.conflict u head) (register w s)
        rw [← register_head hhead]
        exact .conflict hp.2 (by rw [register_head hhead]; exact Ne.symm hrev)
    refine Outlined.lift_bind (hcurrent.weaken (stable_own (hfound true)) fun _ _ h => ⟨⟨h.1.1, h.1.2 rfl⟩, h.2⟩)
      herr fun current => ?_
    by_cases hrev : current.revision = u.expectedRevision
    · rw [if_neg (not_not_intro hrev), conflictEvent, if_pos hrev, Option.toList_none]
      have hsize : current.revision.toNat + 1 < UInt64.size := by
        have : UInt64.size = 2 ^ 64 := rfl
        rw [hrev]
        omega
      refine Outlined.lift_check_ok (b := ()) (require_ok.mpr hsize) ?_
      refine Outlined.silent (o := Op.now) (fun _ s => Holding w i current s ∧ HasManifest w u.manifestId s)
        (hread current) ?_ (fun now => ?_) herr
      · intro s r s' hinv hp hrun
        obtain ⟨now, hrun⟩ := hrun
        cases hrun
        exact ⟨hinv, guar_refl s, _, rfl, event_of_answer rfl s _ s, rfl, hp⟩
      obtain ⟨_, _, json, hwrite, hdecode⟩ := Codec.workspaceHead_roundTrips
        ⟨w, some u.manifestId, current.revision + 1, u.updatedBy, some now⟩
      refine Outlined.lift_check_ok (Except.mapError_ok.mpr hwrite) ?_
      have hnew : headOf w (some json) =
          .ok ⟨w, some u.manifestId, current.revision + 1, u.updatedBy, some now⟩ := by
        rw [headOf, hdecode]
        rfl
      refine Outlined.commit (o := Op.writeReplace json)
        (fun _ => some (.updated u ⟨w, some u.manifestId, current.revision + 1, u.updatedBy, some now⟩))
        (fun _ => Locked i) (hread current) ?_ (fun _ => ?_) herr
      · intro s r s' hinv hp hrun
        obtain ⟨now', hrun⟩ := hrun
        cases hrun
        have hnext : (register w s).next w u now =
            ⟨w, some u.manifestId, current.revision + 1, u.updatedBy, some now⟩ := by
          simp only [HeadRegister.next, register_head hp.1.2]
        have hafter : register w { s with head := some json } =
            { register w s with head := (register w s).next w u now } := by
          rw [hnext]
          unfold register
          rw [hnew]
          rfl
        refine ⟨fun json' hjson => ?_, ⟨fun _ _ h => h, fun j hj hlock => ?_⟩, _, rfl, ?_, ?_, hp.1.1⟩
        · cases hjson
          exact ⟨_, hdecode⟩
        · -- the lock is this thread's
          have hij : some i = some j := hp.1.1.symm.trans hlock
          exact absurd (Option.some.inj hij).symm hj
        · rw [event_of_answer rfl]
          show (headOf w (some json)).toOption.map _ = _
          rw [hnew]
          rfl
        · show HeadRegister.Step w (register w s) _ (register w { s with head := some json })
          rw [hafter, ← hnext]
          exact .updated hp.2 (by rw [register_head hp.1.2]; exact hrev.symm)
      · exact Outlined.pure (stable_own stable_locked) fun _ _ h => h
    · rw [if_pos hrev, conflictEvent, if_neg hrev]
      exact Outlined.pure (stable_own (hread current)) fun _ _ h => ⟨h.1.1.1, h.2⟩

/-- A call of the lock commits to nothing. -/
theorem lock_step {o : Op} (ho : o.target = none) (hevent : ∀ r, headEvent w q o r = none)
    {s s' : State ι × Log ι HeadEvent} {r : ServerResult o.Val} {events : List HeadEvent}
    (hinv : (committed headContract (HeadRegister.Step w) (register w) r₀).inv s)
    (hcall : commits (fun i o s r s' => State.Runs i o s r s') i (⟨o, event w q o⟩ : Committing _ _ _ _) s r s')
    (hsound : Consistent s'.1) (hguar : headContract.guar i s.1 s'.1) (hregister : register w s'.1 = register w s.1)
    (hevents : Log.eventsOf i s.2 = events) :
    (committed headContract (HeadRegister.Step w) (register w) r₀).inv s' ∧
      (committed headContract (HeadRegister.Step w) (register w) r₀).guar i s s' ∧
        Log.eventsOf i s'.2 = events := by
  have hnone : event w q o s.1 r s'.1 = none := (event_of_answer ho s.1 r s'.1).trans (hevent r)
  obtain ⟨hkept, hguar', hlog⟩ := committed_step hinv hcall hsound hguar (by
    show Commits _ _ (event w q o s.1 r s'.1) _
    rw [hnone]
    exact hregister)
  have hlog' : Log.eventsOf i s'.2 = Log.eventsOf i s.2 ++ (event w q o s.1 r s'.1).toList := hlog
  rw [hnone, Option.toList_none, List.append_nil] at hlog'
  exact ⟨hkept, hguar', hlog'.trans hevents⟩

theorem updateHead_proved {u : HeadUpdate} :
    Proved w r₀ (.updateHead u) i (Own i [.failed u] fun _ => True) (Own i [] fun _ => True) (updateHead w u)
      fun (result, head) => Own i [match result with
        | .updated => .updated u head
        | .conflict => .conflict u head] fun _ => True := by
  have hown {events : List HeadEvent} :
      (committed headContract (HeadRegister.Step w) (register w) r₀).Stable i
        (Own i events fun _ : State ι => True) := stable_own Contract.stable_true
  have hlocked {events : List HeadEvent} :
      (committed headContract (HeadRegister.Step w) (register w) r₀).Stable i
        (Own i events (Locked i)) := stable_own stable_locked
  unfold Proved updateHead
  rw [lift_withLock]
  refine Outlined.withLock hown hown ?_ updateLocked_proved ?_ ?_ ?_
  · intro s r s' hinv hpre hcall
    obtain ⟨now, hrun⟩ := hcall.1
    obtain ⟨hfree, hrun⟩ := Option.ite_none_right_eq_some.mp hrun
    have hnone : s.1.headLock = none := Option.isNone_iff_eq_none.mp hfree
    obtain ⟨hr, hs'⟩ := Prod.mk.inj (Option.some.inj hrun)
    have hguar : headContract.guar i s.1 s'.1 := by
      rw [← hs']
      refine ⟨fun _ _ h => h, fun j _ hj => ?_⟩
      rw [hnone] at hj
      cases hj
    obtain ⟨hkept, hguar', hevents⟩ := lock_step (o := Op.lockHead) rfl (fun _ => rfl) hinv hcall
      (by rw [← hs']; exact hinv.1) hguar (by rw [← hs']; rfl) hpre.2
    refine ⟨hkept, hguar', ?_⟩
    rw [← hr]
    refine ⟨?_, hevents⟩
    show s'.1.headLock = some i
    rw [← hs']
  · intro out s r s' hinv hpre hcall
    have hheld : Locked i s.1 ∧ Log.eventsOf i s.2 = Log.eventsOf i s.2 := by
      cases out with
      | ok a => exact ⟨hpre.1, rfl⟩
      | error e => exact ⟨hpre.1, rfl⟩
    obtain ⟨now, hrun⟩ := hcall.1
    obtain ⟨hr, hs'⟩ := Prod.mk.inj (Option.some.inj hrun)
    have hguar : headContract.guar i s.1 s'.1 := by
      rw [← hs']
      refine ⟨fun _ _ h => h, fun j hji hj => ?_⟩
      have hij : some i = some j := hheld.1.symm.trans hj
      exact absurd (Option.some.inj hij).symm hji
    obtain ⟨hkept, hguar', hevents⟩ := lock_step (o := Op.unlockHead) rfl (fun _ => rfl) hinv hcall
      (by rw [← hs']; exact hinv.1) hguar (by rw [← hs']; rfl) rfl
    refine ⟨hkept, hguar', ?_⟩
    cases out with
    | ok a => exact ⟨trivial, hevents.trans hpre.2⟩
    | error e => exact ⟨trivial, hevents.trans hpre.2⟩
  · intro out
    cases out with
    | ok a => exact hlocked
    | error e => exact hlocked
  · intro out
    cases out with
    | ok a => exact hown
    | error e => exact hown

/-! ### Objects -/

/-- Calls that touch only the files of objects. -/
def OnFiles : Op → Prop
  | .readFile _ | .tryExists _ | .writeNew .. => True
  | _ => False

omit [DecidableEq ι] in
theorem onFiles_runs {o : Op} (ho : OnFiles o) {s s' : State ι} {r : ServerResult o.Val}
    (h : State.Runs i o s r s') : s'.head = s.head ∧ s'.headLock = s.headLock ∧
      (∀ path b, s.files path = some b → s'.files path = some b) ∧
      ∀ path, o.target ≠ some path → s'.files path = s.files path := by
  obtain ⟨now, hrun⟩ := h
  cases o with
  | readFile path | tryExists path =>
    cases hrun
    exact ⟨rfl, rfl, fun _ _ h => h, fun _ _ => rfl⟩
  | writeNew path bytes =>
    simp only [State.run] at hrun
    split at hrun
    · rename_i hnew
      cases hrun
      refine ⟨rfl, rfl, fun p b hb => ?_, fun p hp => ?_⟩
      · refine (Function.update_of_ne (fun heq => ?_) _ _).trans hb
        rw [heq, Option.isNone_iff_eq_none.mp hnew] at hb
        cases hb
      · exact Function.update_of_ne (fun heq => hp (congrArg some heq.symm)) _ _
    · cases hrun
      exact ⟨rfl, rfl, fun _ _ h => h, fun _ _ => rfl⟩
  | _ => exact ho.elim

omit [DecidableEq ι] in
theorem handleObject_calls {qo : Objects.Request} : Fallible.Calls OnFiles (handleObject c qo) := by
  cases qo with
  | put w kind id object =>
    refine Calls.check_bind fun _ => Calls.map (Calls.op_bind trivial fun found => ?_)
    change Bool at found
    cases found with
    | true => exact Calls.pure _
    | false => exact Calls.op_bind trivial fun _ => Calls.pure _
  | get w kind id =>
    refine Calls.map (Calls.op_bind trivial fun found => ?_)
    change Option Bytes at found
    cases found with
    | some b => exact Calls.pure _
    | none => exact Calls.throw _
  | contains w kind id => exact Calls.map (Calls.op trivial)

/-- A request for an object stores what it is seen to store. -/
theorem object_proved {qo : Objects.Request} : Proved w r₀ (.object qo) i (fun _ => True) (fun _ => True)
    (handle c w (.object qo)) fun _ _ => True := by
  have hcalls : Fallible.Calls OnFiles (handle c w (.object qo)) := Calls.map handleObject_calls
  have houtline : Outline headContract (fun i o s r s' => State.Runs i o s r s') i (fun _ _ => True)
      (fun _ : State ι => True) (handle c w (.object qo)).run := by
    refine Prog.Calls.outline Contract.stable_true (fun o s r s' ho hinv _ hrun => ?_) hcalls
    obtain ⟨hhead, hlock, hkept, _⟩ := onFiles_runs ho hrun
    refine ⟨fun json hjson => hinv json ?_, ⟨hkept, fun j _ hj => ⟨?_, hhead⟩⟩, trivial⟩
    · rw [← hhead]
      exact hjson
    · rw [hlock]
      exact hj
  have hcommits : ∀ (o : Op) (s : State ι) (r : ServerResult o.Val) (s' : State ι), OnFiles o → Consistent s →
      Consistent s' → headContract.guar i s s' → State.Runs i o s r s' →
      Commits (HeadRegister.Step w) (register w s) (event w (.object qo) o s r s') (register w s') := by
    intro o s r s' ho _ _ _ hrun
    obtain ⟨hhead, _, hkept, hothers⟩ := onFiles_runs ho hrun
    have hregister : register w s' = ⟨(register w s).head, storedIn w s'.files⟩ := by
      unfold register
      rw [hhead]
    rw [hregister]
    exact Objects.storedEvent_commits (fun id hid => storedIn_kept hkept hid) hothers _
  refine Outline.weaken_post (Outline.logged hcommits hcalls houtline) fun r s _ _ => ?_
  cases r with
  | ok a => trivial
  | error e => trivial

/-- Every program of the store commits to what it answers. -/
theorem kept : (committed headContract (HeadRegister.Step w) (register w) r₀).Kept
    ((fsStorage ι c w).logged (event w)) fun q i res s => Answers q res (Log.eventsOf i s.2) := by
  refine ⟨fun i => stable_idle, fun q i => ?_⟩
  have hown {events : List HeadEvent} : (committed headContract (HeadRegister.Step w) (register w) r₀).Stable i
      (Own i events fun _ : State ι => True) := stable_own Contract.stable_true
  cases q with
  | getHead =>
    have hget : Proved w r₀ .getHead i (fun _ => False) (Own i [] fun _ => True) (handle c w .getHead)
        fun response s => Answers .getHead (.ok response) (Log.eventsOf i s.2) := by
      unfold Proved handle
      rw [lift_map]
      exact Outlined.map getHead_proved Contract.stable_const (fun _ => hown) fun head s _ h => h.2
    exact outline_answers hget fun _ _ => False.elim
  | updateHead u =>
    have hupdate : Proved w r₀ (.updateHead u) i (Own i [.failed u] fun _ => True) (Own i [] fun _ => True)
        (handle c w (.updateHead u)) fun response s =>
          Answers (.updateHead u) (.ok response) (Log.eventsOf i s.2) := by
      unfold Proved handle
      rw [lift_map]
      refine Outlined.map updateHead_proved hown (fun _ => hown) fun answer s _ h => ?_
      obtain ⟨result, head⟩ := answer
      cases result with
      | updated => exact h.2
      | conflict => exact h.2
    exact outline_answers hupdate fun _ _ h => h.2
  | object qo => exact outline_answers (object_proved.weaken hown fun _ _ _ => trivial) fun _ _ _ => trivial

/-! ### The lock -/

omit [DecidableEq ι] in
/-- Every program gives back the lock it takes. -/
theorem handle_bracketed (q : HeadRequest) :
    Bracketed Op.lockHead Op.unlockHead false ((fsStorage ι c w).program q) := by
  have hread : Fallible.Calls (fun o => o ≠ Op.lockHead ∧ o ≠ Op.unlockHead) (getHead w) :=
    Calls.op_bind ⟨by simp, by simp⟩ fun file => Calls.check _
  cases q with
  | getHead => exact Bracketed.map (Bracketed.of_calls hread)
  | updateHead u =>
    refine Bracketed.map (Bracketed.withLock ?_)
    refine Calls.op_bind ⟨by simp, by simp⟩ fun stored => Calls.check_bind fun _ => hread.bind fun current => ?_
    split
    · exact Calls.pure _
    · refine Calls.check_bind fun _ => Calls.op_bind ⟨by simp, by simp⟩ fun now => Calls.check_bind fun json => ?_
      exact Calls.op_bind ⟨by simp, by simp⟩ fun _ => Calls.pure _
  | object qo =>
    refine Bracketed.map (Bracketed.of_calls (handleObject_calls.mono fun o ho => ?_))
    cases o with
    | lockHead | unlockHead => exact ho.elim
    | _ => exact ⟨fun h => (by cases h), fun h => (by cases h)⟩

omit [DecidableEq ι] in
theorem lockedBy : (fsStorage ι c w).LockedBy Op.lockHead Op.unlockHead State.headLock := by
  refine ⟨by simp, fun i s a s' h => ?_, fun i s e s' h => ?_, fun i s r s' h => ?_, fun i o s r s' hl hu h => ?_⟩
  · obtain ⟨now, hrun⟩ := h
    obtain ⟨hfree, hrun⟩ := Option.ite_none_right_eq_some.mp hrun
    cases hrun
    exact ⟨Option.isNone_iff_eq_none.mp hfree, rfl⟩
  · obtain ⟨now, hrun⟩ := h
    obtain ⟨_, hrun⟩ := Option.ite_none_right_eq_some.mp hrun
    cases hrun
  · obtain ⟨now, hrun⟩ := h
    cases hrun
    rfl
  · obtain ⟨now, hrun⟩ := h
    cases o with
    | lockHead => exact absurd rfl hl
    | unlockHead => exact absurd rfl hu
    | writeNew path bytes =>
      simp only [State.run] at hrun
      split at hrun <;> cases hrun <;> rfl
    | readFile path | tryExists path | readHead | writeReplace head | now =>
      cases hrun
      rfl

omit [DecidableEq ι] in
theorem serving : (fsStorage ι c w).Serving Op.lockHead State.headLock fun i o s => State.run ⟨0⟩ i o s := by
  refine ⟨fun i o s r s' hrun => ⟨_, hrun⟩, fun i o s ho => ?_, fun i s hfree => ?_⟩
  · cases o with
    | lockHead => exact absurd rfl ho
    | writeNew path bytes =>
      simp only [State.run]
      split <;> rfl
    | _ => rfl
  · have hfree' : s.headLock.isNone = true := Option.isNone_iff_eq_none.mpr hfree
    simp only [State.run, if_pos hfree']
    rfl

/-- A call can come to its end, whoever holds the lock. -/
theorem completes {s₀ : State ι} (hfree : s₀.headLock = none)
    {cfg : Config ι Calls (State ι) HeadRequest (ServerResult HeadResponse)}
    (h : (fsStorage ι c w).Reachable s₀ cfg) {p : Prog Calls (ServerResult HeadResponse)}
    (hat : cfg.thread i = some (q, p)) :
    ∃ cfg' res, (fsStorage ι c w).Steps cfg cfg' ∧ cfg'.thread i = some (q, .done res) := by
  have hattended := (Attended.initial hfree).steps lockedBy handle_bracketed h
  exact lockedBy.completes handle_bracketed serving hattended hat

end Programs

end Fs

/-! ### The register -/

/-- A store of objects that no head was published in yet. -/
structure IndexedFs.Fresh {ι : Type} (c : Crypto) (w : WorkspaceId) (s : IndexedFs.State ι) : Prop where
  sound : Objects.Sound c s.objects
  head : s.heads w = none

/-- Both stores are compare-and-swap registers, from any state without a head
on. -/
theorem heads_refine_register {ι : Type} [DecidableEq ι] (c : Crypto) (w : WorkspaceId) :
    (∀ s₀ : IndexedFs.State ι, IndexedFs.Fresh c w s₀ →
      ∀ cfg, ((indexedStorage ι c w).logged (IndexedFs.event w)).Reachable (s₀, []) cfg →
        Refines ((indexedStorage ι c w).logged (IndexedFs.event w)) w (IndexedFs.register w) s₀ cfg) ∧
    ∀ s₀ : Fs.State ι, s₀.head = none → s₀.headLock = none →
      ∀ cfg, ((fsStorage ι c w).logged (Fs.event w)).Reachable (s₀, []) cfg →
        Refines ((fsStorage ι c w).logged (Fs.event w)) w (Fs.register w) s₀ cfg := by
  refine ⟨fun s₀ hfresh cfg h => ?_, fun s₀ hhead hfree cfg h => ?_⟩
  · have hinv : (IndexedFs.headContract c w (ι := ι)).inv s₀ := by
      refine ⟨hfresh.sound, fun row hrow => ?_⟩
      rw [hfresh.head] at hrow
      cases hrow
    have hempty : (IndexedFs.register w s₀).head = .empty w := by
      apply IndexedFs.register_head
      rw [hfresh.head]
      rfl
    exact refines_of_kept hinv hempty IndexedFs.kept
      (fun bare hbare i q p hq hat => IndexedFs.completes hbare hq hat) h
  · have hinv : (Fs.headContract (ι := ι)).inv s₀ := by
      intro json hjson
      rw [hhead] at hjson
      cases hjson
    have hempty : (Fs.register w s₀).head = .empty w := by
      apply Fs.register_head
      rw [hhead]
      rfl
    exact refines_of_kept hinv hempty Fs.kept
      (fun bare hbare i q p hq hat => Fs.completes hfree hbare hat) h

/-! ### A race

A blob is put. Two clients publish the manifest of the same bytes at revision
0, call by call in turns where the lock lets them; a third reads the head in
between. -/

section Sample

open Codec Objects

def sampleUpdate : HeadUpdate := ⟨0, sampleManifestId, some sampleOwner, by decide⟩

def race {S : Signature} {σ : Type} (server : Machine ℕ S σ HeadRequest (ServerResult HeadResponse))
    (run : ℕ → (o : S.Op) → σ → Option (S.Resp o × σ)) (order : List ℕ) (s₀ : σ) :
    Option (Config ℕ S σ HeadRequest (ServerResult HeadResponse)) := do
  let stored ← server.serve run 0 (.object (.put sampleWorkspace .blob sampleBlobId sampleBytes))
    ⟨s₀, fun _ => none⟩
  let first ← server.begin 1 (.updateHead sampleUpdate) stored
  let second ← server.begin 2 (.updateHead sampleUpdate) first
  let third ← server.begin 3 .getHead second
  Machine.schedule run order third

theorem race_reachable {S : Signature} {σ : Type}
    {server : Machine ℕ S σ HeadRequest (ServerResult HeadResponse)}
    {run : ℕ → (o : S.Op) → σ → Option (S.Resp o × σ)} {order : List ℕ} {s₀ : σ}
    (hrun : ∀ i o s r s', run i o s = some (r, s') → server.sem i o s r s')
    {cfg : Config ℕ S σ HeadRequest (ServerResult HeadResponse)} (h : race server run order s₀ = some cfg) :
    server.Reachable s₀ cfg := by
  simp only [race, Option.bind_eq_bind, Option.bind_eq_some_iff] at h
  obtain ⟨stored, hserve, first, hfirst, second, hsecond, third, hthird, hschedule⟩ := h
  have hstored : server.Reachable s₀ stored := Machine.Reachable.serve hrun .refl hserve
  exact Machine.Reachable.schedule hrun (((hstored.begin hfirst).begin hsecond).begin hthird) hschedule

def sampleIndexed : IndexedFs.State ℕ := ⟨sampleStore, fun _ => none⟩

def sampleFs : Fs.State ℕ := ⟨fun _ => none, none, none⟩

def indexedRace := race ((indexedStorage ℕ sampleCrypto sampleWorkspace).logged (IndexedFs.event sampleWorkspace))
  (commitsBy (IndexedFs.State.run 1000 1000)) [1, 2, 1, 2, 1, 2, 3, 1, 2, 1, 2, 1, 2] (sampleIndexed, [])

def fsRace := race ((fsStorage ℕ sampleCrypto sampleWorkspace).logged (Fs.event sampleWorkspace))
  (commitsBy (Fs.State.run ⟨1000⟩)) [1, 1, 1, 3, 1, 1, 1, 2, 2, 2, 2] (sampleFs, [])

/-- What the publishing clients were told. -/
def raceAnswers {S : Signature} {σ : Type} (cfg : Config ℕ S σ HeadRequest (ServerResult HeadResponse)) :
    List (HeadUpdateResult × ℕ) :=
  [1, 2].filterMap fun i =>
    match cfg.thread i with
    | some (_, .done (.ok (.update result head))) => some (result, head.revision.toNat)
    | _ => none

theorem indexedRace_answers : indexedRace.map raceAnswers = some [(.updated, 1), (.conflict, 1)] := by
  decide +kernel

theorem fsRace_answers : fsRace.map raceAnswers = some [(.updated, 1), (.conflict, 1)] := by
  decide +kernel

theorem sampleIndexed_fresh : IndexedFs.Fresh sampleCrypto sampleWorkspace sampleIndexed :=
  ⟨sampleStore_empty.sound, rfl⟩

/-- Both stores on the race: one client wins, the other is told of the head. -/
theorem race_refines_register :
    (∃ cfg, indexedRace = some cfg ∧ raceAnswers cfg = [(.updated, 1), (.conflict, 1)] ∧
      Refines ((indexedStorage ℕ sampleCrypto sampleWorkspace).logged (IndexedFs.event sampleWorkspace))
        sampleWorkspace (IndexedFs.register sampleWorkspace) sampleIndexed cfg) ∧
    ∃ cfg, fsRace = some cfg ∧ raceAnswers cfg = [(.updated, 1), (.conflict, 1)] ∧
      Refines ((fsStorage ℕ sampleCrypto sampleWorkspace).logged (Fs.event sampleWorkspace))
        sampleWorkspace (Fs.register sampleWorkspace) sampleFs cfg := by
  obtain ⟨hindexed, hfs⟩ := heads_refine_register (ι := ℕ) sampleCrypto sampleWorkspace
  obtain ⟨cfg, hcfg, hanswers⟩ := Option.map_eq_some_iff.mp indexedRace_answers
  obtain ⟨cfg', hcfg', hanswers'⟩ := Option.map_eq_some_iff.mp fsRace_answers
  have hreach := race_reachable (fun i o s r s' hrun => commits_of_commitsBy
    (fun _ _ _ _ _ hcall => ⟨1000, 1000, hcall⟩) hrun) hcfg
  have hreach' := race_reachable (fun i o s r s' hrun => commits_of_commitsBy
    (fun _ _ _ _ _ hcall => ⟨⟨1000⟩, hcall⟩) hrun) hcfg'
  exact ⟨⟨cfg, hcfg, hanswers, hindexed sampleIndexed sampleIndexed_fresh cfg hreach⟩,
    cfg', hcfg', hanswers', hfs sampleFs rfl rfl cfg' hreach'⟩

end Sample

end RustSync
