/-
Where a revision comes from

In a fleet in which nothing is hidden, however the syncs interleave: the base
that a device has recorded is what the head named at the revision recorded with
it, also in the midst of a sync (`fleet_bases`). And each revision is a merge of
the one before with what some device had in its tree when its sync began, over a
revision that is no later (`fleet_merges`): no revision drops what another
device has published.

Key definitions: `Fleet.basedTerms`, `Advance`. Key theorems: `fleet_bases`,
`fleet_merges`.
-/
import RustSync.Sync.Fleet
import RustSync.Sync.Records

namespace RustSync

section Lineage

variable {ι : Type} [DecidableEq ι] {ws : Workspace} {c c' c₁ c₂ : Fleet ι} {i : ι} {r r' : Remote} {n : ℕ}

/-! ### Bases -/

/-- A call that is faithful keeps the base what the head named. -/
theorem based_call {env : Setting} {o : Op} {tree : WorkingTree} {w t : World} {r : SyncResult o.Val}
    (hedits : ¬ env.edits)
    (ho : o.Faithful ws tree w) (hcall : semIntact env o w r t) (h : w.device.syncState.Based ws w.remote) :
    t.device.syncState.Based ws t.remote := by
  have hgrows : w.remote.Grows t.remote := grows_sem hcall.1
  have hsame (hstate : t.device.syncState = w.device.syncState) : t.device.syncState.Based ws t.remote := by
    rw [hstate]
    exact h.grows hgrows
  have hasks (hasks : o.Asks) : t.device.syncState.Based ws t.remote :=
    hsame (congrArg Device.syncState (device_of_asks hedits hasks hcall.1))
  have hfiles (hfiles : o.OnFiles) : t.device.syncState.Based ws t.remote :=
    hsame (filesOnly_call hfiles hcall.1).syncState
  cases o with
  | saveSyncState state =>
    rcases hcall.1 with ⟨_, heq⟩ | ⟨_, _, heq⟩
    · rw [heq]
      exact ho.records state rfl
    · rw [heq]
      exact h
  | fetchWorkspaceHead => exact hasks trivial
  | downloadManifest id => exact hasks trivial
  | downloadBlob id => exact hasks trivial
  | uploadBlob id bytes => exact hasks trivial
  | uploadManifest id bytes => exact hasks trivial
  | updateWorkspaceHead n id => exact hasks trivial
  | _ => exact hfiles trivial

variable (ws) in
/-- What each device of the fleet keeps of its base. -/
def Fleet.basedTerms : Terms (Signature.fallible Op.Val SyncError) World (SyncResult SyncReport) Device Remote :=
  { Fleet.terms ws with
    idle _ d r := PlainTree d.tree ∧ d.syncState.Based ws r }

theorem Fleet.basedTerms_run (hideal : ws.Ideal)
    {p : Prog (Signature.fallible Op.Val SyncError) (SyncResult SyncReport)}
    {w t : World} {out : Option (SyncResult SyncReport)} (hp : SyncIn ws (fun _ => True) p) (hw : PlainWorld ws w)
    (hbase : w.device.syncState.Based ws w.remote) (hrun : Prog.Reaches (semIntact (.among ws)) p w out t) :
    t.device.syncState.Based ws t.remote := by
  obtain ⟨mode, _, rfl⟩ := hp
  have hfaithful : FaithfulCalls (.among ws) ws w.device.tree (sync ws mode) w _ :=
    faithful_sync hideal id rfl mode hw hbase
  exact hfaithful.keeps (J := fun u => u.device.syncState.Based ws u.remote)
    (fun o u r u' ho hcall hu => based_call id ho hcall hu) hrun hbase

theorem Fleet.basedTerms_kept (hideal : ws.Ideal) :
    (Fleet.basedTerms ws).Kept (S := Signature.fallible Op.Val SyncError)
    callOf UserEdit (· ≠ none) (SyncIn ws fun _ => True) where
  refl := (Fleet.terms_kept hideal).refl
  trans := (Fleet.terms_kept hideal).trans
  good := (Fleet.terms_kept hideal).good
  view := (Fleet.terms_kept hideal).view
  call := (Fleet.terms_kept hideal).call
  later := (Fleet.terms_kept hideal).later
  forget h := h
  touched hedit h := by
    obtain ⟨tree, hplain, rfl⟩ := hedit
    exact ⟨hplain, h.2⟩
  stays hlater h := ⟨h.1, h.2.grows hlater.grows⟩
  run hp hgood hidle hrun := by
    obtain ⟨hafter, htree⟩ := (Fleet.terms_kept hideal).run hp hgood ⟨hidle.1, nofun⟩ hrun
    exact ⟨hafter, fun hsettled => ⟨(htree hsettled).1, Fleet.basedTerms_run hideal hp ⟨hidle.1, hgood⟩ hidle.2 hrun⟩⟩

omit [DecidableEq ι] in
theorem Fleet.Fresh.based (h : c.Fresh ws) (hbases : ∀ i, (c.own i).syncState.Based ws c.shared) :
    (Fleet.basedTerms ws).Holds (SyncIn ws fun _ => True) c := by
  refine ⟨h.heads, fun i => ?_⟩
  rw [h.idle i]
  exact ⟨h.trees i, hbases i⟩

/-- **Bases are what the head named.** However the syncs of the devices
interleave, and also in the midst of a sync. -/
theorem fleet_bases (ws : Workspace) (hideal : ws.Ideal) {c c' : Fleet ι} (hstart : c.Fresh ws)
    (hbases : ∀ i, (c.own i).syncState.Based ws c.shared)
    (hsteps : Relation.ReflTransGen (Fleet.Step ws) c c') (i : ι) :
    (c'.own i).syncState.Based ws c'.shared := by
  refine ((Fleet.basedTerms_kept hideal).steps (hstart.based hbases) hsteps).always
    (A := fun d r => d.syncState.Based ws r) (fun _ _ _ hidle => hidle.2) (fun _ _ _ hlater h => h.grows hlater.grows)
    (fun p w t hp hgood hidle hrun => ?_) i
  exact Fleet.basedTerms_run hideal hp ⟨hidle.1, hgood⟩ hidle.2 hrun

/-! ### Revisions -/

/-- A device that began a sync in `c₁` brought the head, in `c₂`, from a revision
to the next. -/
structure Advance (ws : Workspace) (c₁ c₂ : Fleet ι) (i : ι) (r : Remote) (n : ℕ) (loc m : Manifest) : Prop where
  idle : c₁.running i = none
  carries : Carries ws r (c₁.own i).tree loc
  merges : Merges ws r n loc (c₂.own i).syncState.conflicts m
  tree : Mirrors ws.digest (c₂.own i).tree m
  reached : n + 1 ≤ r.heads.length
  names : Names ws r (r.headAt (n + 1)) m

omit [DecidableEq ι] in
theorem Advance.grows {loc m : Manifest} (h : Advance ws c₁ c₂ i r n loc m) (hgrows : r.Grows r') :
    Advance ws c₁ c₂ i r' n loc m := by
  refine ⟨h.idle, h.carries.grows hgrows, h.merges.grows hgrows, h.tree, h.reached.trans hgrows.heads.length_le, ?_⟩
  rw [headAt_grows hgrows h.reached]
  exact h.names.grows hgrows

/-- What a device is about to publish. -/
theorem about_to_publish (hideal : ws.Ideal) (hstart : c.Fresh ws)
    (hbases : ∀ i, (c.own i).syncState.Based ws c.shared) (hsteps : Relation.ReflTransGen (Fleet.Step ws) c c₂)
    {published : ManifestId}
    {k : SyncResult RemoteHead → Prog (Signature.fallible Op.Val SyncError) (SyncResult SyncReport)}
    (hat : c₂.running i = some (.call (.updateWorkspaceHead n published) k)) :
    ∃ c₁ loc m, Relation.ReflTransGen (Fleet.Step ws) c c₁ ∧ Relation.ReflTransGen (Fleet.Step ws) c₁ c₂ ∧
      c₁.running i = none ∧ Carries ws c₂.shared (c₁.own i).tree loc ∧
      Merges ws c₂.shared n loc (c₂.own i).syncState.conflicts m ∧ Mirrors ws.digest (c₂.own i).tree m ∧
      Named ws c₂.shared published m := by
  obtain ⟨c₁, p, w₀, w, hbefore, hidle, hafter, hown, _, hparty⟩ :=
    (Fleet.basedTerms_kept hideal).started (hstart.based hbases) (hstart.idle i) hsteps hat
  obtain ⟨mode, _, rfl⟩ := hparty.program
  have hfaithful : FaithfulCalls (.among ws) ws w₀.device.tree (sync ws mode) w₀ _ :=
    faithful_sync hideal id rfl mode ⟨hparty.idle.1, hparty.good⟩ hparty.idle.2
  have hcomes : Fallible.Comes (semIntact (.among ws)) (sync ws mode) w₀ (.updateWorkspaceHead n published) w :=
    hparty.leads.comes (.now _ _ _)
  obtain ⟨loc, m, hcarries, hmerges, hnamed, htree⟩ := (hfaithful.comes hcomes).publishes n published rfl
  have hlater : w.remote.Grows c₂.shared := hparty.later.grows
  rw [← hparty.own]
  refine ⟨c₁, loc, m, hbefore, hafter, hidle, ?_, hmerges.grows hlater, htree, hnamed.grows hlater⟩
  rw [← hown]
  exact hcarries.grows hlater

/-- A step adds a revision only as a device publishes. -/
theorem heads_step (h : Fleet.Step ws c c') : c'.shared.heads = c.shared.heads ∨
    ∃ (i : ι) (now : Remote) (id : ManifestId) (k : SyncResult RemoteHead → Prog (Signature.fallible Op.Val SyncError)
      (SyncResult SyncReport)), c.running i = some (.call (.updateWorkspaceHead c.shared.heads.length id) k) ∧
      c.shared.Grows now ∧ now.heads = c.shared.heads ∧ c'.shared = now.addHead id := by
  cases h with
  | @call i o k r own' shared' hat hcall =>
    obtain ⟨now, hnow, hserves⟩ := serves_sem hcall.1
    have hsame : now.heads = c.shared.heads := hnow.heads.resolve_left id
    cases hserves with
    | head ho hrevision =>
      subst ho
      rw [← hrevision, hsame] at hat
      exact .inr ⟨i, now, _, k, hat, hnow.grows, hsame, rfl⟩
    | _ => exact .inl hsame
  | _ => exact .inl rfl

/-- **Each revision is a merge of the one before.** However the syncs of the
devices interleave: a revision that has come about was published by a device,
and brings together the revision before with what was in the tree of the device
when it began. -/
theorem fleet_merges (ws : Workspace) (hideal : ws.Ideal) {c c' : Fleet ι} (hstart : c.Fresh ws)
    (hbases : ∀ i, (c.own i).syncState.Based ws c.shared) (hsteps : Relation.ReflTransGen (Fleet.Step ws) c c') (n : ℕ)
    (hsince : c.shared.heads.length ≤ n) (hreached : n < c'.shared.heads.length) :
    ∃ c₁ c₂ i loc m, Relation.ReflTransGen (Fleet.Step ws) c c₁ ∧ Relation.ReflTransGen (Fleet.Step ws) c₁ c₂ ∧
      Relation.ReflTransGen (Fleet.Step ws) c₂ c' ∧ Advance ws c₁ c₂ i c'.shared n loc m := by
  have hkept := Fleet.basedTerms_kept hideal
  induction hsteps with
  | refl => omega
  | @tail d d' hsteps hstep ih =>
    have hd := hkept.steps (hstart.based hbases) hsteps
    have hgrows : d.shared.Grows d'.shared := (hkept.step_later hd hstep).grows
    have hold (hlt : n < d.shared.heads.length) : ∃ c₁ c₂ i loc m, Relation.ReflTransGen (Fleet.Step ws) c c₁ ∧
        Relation.ReflTransGen (Fleet.Step ws) c₁ c₂ ∧ Relation.ReflTransGen (Fleet.Step ws) c₂ d' ∧
        Advance ws c₁ c₂ i d'.shared n loc m := by
      obtain ⟨c₁, c₂, i, loc, m, hbefore, hbetween, hafter, hadvance⟩ := ih hlt
      exact ⟨c₁, c₂, i, loc, m, hbefore, hbetween, hafter.tail hstep, hadvance.grows hgrows⟩
    rcases heads_step hstep with hsame | ⟨i, now, published, k, hat, hnow, hsame, hshared⟩
    · rw [hsame] at hreached
      exact hold hreached
    · by_cases hlt : n < d.shared.heads.length
      · exact hold hlt
      · have hn : n = d.shared.heads.length := by
          rw [hshared] at hreached
          simp only [Remote.addHead, List.length_append, List.length_singleton, hsame] at hreached
          omega
        rw [← hn] at hat
        obtain ⟨c₁, loc, m, hbefore, hbetween, hidle, hcarries, hmerges, htree, hnamed⟩ :=
          about_to_publish hideal hstart hbases hsteps hat
        refine ⟨c₁, d, i, loc, m, hbefore, hbetween, .single hstep, hidle, hcarries.grows hgrows, hmerges.grows hgrows,
          htree, hreached, ?_⟩
        rw [hn, hshared, ← hsame, headAt_addHead]
        rw [hshared] at hgrows
        exact hnamed.grows hgrows

end Lineage

/-! ### Where the note comes from

Both devices have the note, and each changes a line of it. -/

section Sample

theorem noteFleet_based (i : Bool) : (noteFleet.own i).syncState.Based sampleSpace noteFleet.shared := by
  intro base hbase
  cases i <;> cases hbase

/-- The user of a device writes the note. -/
def Fleet.edited (c : Fleet Bool) (i : Bool) (text : String) : Fleet Bool :=
  { c with
    own := Function.update c.own i { c.own i with tree := noteTree text }
    last := Function.update c.last i none }

inductive NoteStep where
  | sync (i : Bool)
  | edit (i : Bool) (text : String)

def noteRun : List NoteStep → Fleet Bool → Option (Fleet Bool)
  | [], c => some c
  | .sync i :: steps, c => do
    let (report, d, r) ← noteTurn (c.own i) c.shared
    noteRun steps (c.turned i report d r)
  | .edit i text :: steps, c => noteRun steps (c.edited i text)

theorem noteTree_plain (text : String) : PlainTree (noteTree text) := by
  have hname (p : RelPath) (hp : (noteTree text).get p ≠ none) : p = "notes".toList := by
    unfold noteTree treeOf at hp
    simp only [List.foldl_cons, List.foldl_nil] at hp
    cases hput : (.empty : WorkingTree).put "notes".toList (sampleFile (utf8 text)) with
    | none =>
      rw [hput] at hp
      exact absurd rfl hp
    | some tree =>
      rw [hput, Option.getD_some, FileTree.get_put hput] at hp
      by_contra hne
      rw [if_neg (Ne.symm hne)] at hp
      exact hp rfl
  refine ⟨by_contra fun hrules => ?_, fun p hp => ?_⟩
  · exact absurd (hname _ hrules) (by decide +kernel)
  · rw [hname p hp]
    decide +kernel

theorem noteRun_steps {steps : List NoteStep} {c c' : Fleet Bool} (hidle : ∀ i, c.running i = none)
    (h : noteRun steps c = some c') : Relation.ReflTransGen (Fleet.Step sampleSpace) c c' := by
  induction steps generalizing c with
  | nil =>
    cases h
    exact .refl
  | cons step steps ih =>
    cases step with
    | sync i =>
      obtain ⟨⟨report, d, r⟩, hturn, hrest⟩ := Option.bind_eq_some_iff.mp h
      exact (noteTurn_steps (hidle i) hturn).trans (ih hidle hrest)
    | edit i text =>
      have hstep : Fleet.Step sampleSpace c (c.edited i text) := .touch (hidle i) ⟨_, noteTree_plain text, rfl⟩
      exact (Relation.ReflTransGen.single hstep).trans (ih hidle h)

/-- One device publishes its change, the other merges it with its own. -/
def noteChanges : List NoteStep :=
  [.sync true, .sync false, .edit true "ONE\ntwo\n", .edit false "one\nTWO\n", .sync true, .sync false]

theorem noteChanges_merged : ∃ c', noteRun noteChanges noteFleet = some c' ∧ c'.shared.heads.length = 3 ∧
    (∀ i, (c'.own i).syncState.lastSyncedRevision = some (if i then 2 else 3) ∧
      (c'.own i).syncState.lastSyncedManifest.isSome = true) ∧
    entriesAt c'.shared 2 = some (noteManifest "ONE\ntwo\n").entries.toList ∧
    entriesAt c'.shared 3 = some (noteManifest "ONE\nTWO\n").entries.toList := by
  have hdone : (noteRun noteChanges noteFleet).map (fun c' => decide (c'.shared.heads.length = 3 ∧
      (∀ i, (c'.own i).syncState.lastSyncedRevision = some (if i then 2 else 3) ∧
        (c'.own i).syncState.lastSyncedManifest.isSome = true) ∧
      entriesAt c'.shared 2 = some (noteManifest "ONE\ntwo\n").entries.toList ∧
      entriesAt c'.shared 3 = some (noteManifest "ONE\nTWO\n").entries.toList)) = some true := by decide +kernel
  obtain ⟨c', hrun, hends⟩ := Option.map_eq_some_iff.mp hdone
  exact ⟨c', hrun, of_decide_eq_true hends⟩

/-- Each device knows as its base what it has synced last. -/
theorem note_based : ∃ c' : Fleet Bool, Relation.ReflTransGen (Fleet.Step sampleSpace) noteFleet c' ∧
    (∀ i, (c'.own i).syncState.lastSyncedRevision = some (if i then 2 else 3) ∧
      (c'.own i).syncState.lastSyncedManifest.isSome = true) ∧
      ∀ i, (c'.own i).syncState.Based sampleSpace c'.shared := by
  obtain ⟨c', hrun, _, hbases, _⟩ := noteChanges_merged
  have hsteps : Relation.ReflTransGen (Fleet.Step sampleSpace) noteFleet c' := noteRun_steps (fun _ => rfl) hrun
  exact ⟨c', hsteps, hbases, fun i =>
    fleet_bases sampleSpace sampleSpace_ideal noteFleet_fresh noteFleet_based hsteps i⟩

/-- The third revision has the change of each device. -/
theorem note_merged : ∃ (c₁ c₂ c' : Fleet Bool) (i : Bool) (loc m : Manifest), noteRun noteChanges noteFleet = some c' ∧
    c'.shared.heads.length = 3 ∧ entriesAt c'.shared 2 = some (noteManifest "ONE\ntwo\n").entries.toList ∧
    m.entries.toList = (noteManifest "ONE\nTWO\n").entries.toList ∧
    Relation.ReflTransGen (Fleet.Step sampleSpace) noteFleet c₁ ∧ Relation.ReflTransGen (Fleet.Step sampleSpace) c₁ c₂ ∧
      Relation.ReflTransGen (Fleet.Step sampleSpace) c₂ c' ∧ Advance sampleSpace c₁ c₂ i c'.shared 2 loc m := by
  obtain ⟨c', hrun, hlength, _, hearlier, hmerged⟩ := noteChanges_merged
  have hsteps : Relation.ReflTransGen (Fleet.Step sampleSpace) noteFleet c' := noteRun_steps (fun _ => rfl) hrun
  have hreached : 2 < c'.shared.heads.length := by omega
  obtain ⟨c₁, c₂, i, loc, m, hbefore, hbetween, hafter, hadvance⟩ :=
    fleet_merges sampleSpace sampleSpace_ideal noteFleet_fresh noteFleet_based hsteps 2 (Nat.zero_le _) hreached
  exact ⟨c₁, c₂, c', i, loc, m, hrun, hlength, hearlier, entriesAt_names hmerged hadvance.names, hbefore,
    hbetween, hafter,
    hadvance⟩

end Sample

end RustSync
