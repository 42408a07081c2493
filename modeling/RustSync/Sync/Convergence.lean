/-
What a sync leaves

Where nothing is hidden (`PlainWorld`), a sync that succeeds leaves the tree
as the head has named it at the revision that is reported (`MirrorsHead`),
whatever other devices publish meanwhile. What is hidden on no device is hidden
at no revision: what a device publishes is plain again.

Key definitions: `PlainWorld`, `MirrorsHead`, `PlainDone`. Key theorem:
`plainOutcomes_sync`.
-/
import RustSync.Sync.Attempts
import RustSync.Sync.Mirror
import RustSync.Sync.Publishing
import RustSync.Sync.Quiet

namespace RustSync

/-! ### The head at a revision -/

/-- The head as it was at a revision. -/
def Remote.headAt (r : Remote) (revision : ℕ) : RemoteHead := ⟨revision, (r.heads.take revision).getLast?⟩

section Revisions

variable {ws : Workspace} {r r' : Remote} {d : Device} {id : ManifestId} {n : ℕ}

theorem headAt_grows (h : r.Grows r') (hn : n ≤ r.heads.length) : r'.headAt n = r.headAt n := by
  obtain ⟨more, hmore⟩ := h.heads
  unfold Remote.headAt
  rw [← hmore, List.take_append_of_le_length hn]

theorem headAt_head (h : r.Grows r') : r'.headAt r.head.revision = r.head := by
  rw [headAt_grows h (show r.head.revision ≤ r.heads.length from Nat.le_refl _)]
  unfold Remote.headAt
  rw [show r.head.revision = r.heads.length from rfl, List.take_length]
  rfl

theorem headAt_addHead : (r.addHead id).headAt (r.heads.length + 1) = ⟨r.heads.length + 1, some id⟩ := by
  have hlength : r.heads.length + 1 = (r.addHead id).heads.length := by simp [Remote.addHead]
  unfold Remote.headAt
  rw [hlength, List.take_length]
  simp [Remote.addHead]

/-- The tree is what the head has named at the revision. -/
structure MirrorsHead (ws : Workspace) (d : Device) (r : Remote) (revision : ℕ) : Prop where
  reached : revision ≤ r.heads.length
  mirrors : ∃ m, Names ws r (r.headAt revision) m ∧ Mirrors ws.digest d.tree m

theorem MirrorsHead.grows (h : MirrorsHead ws d r n) (hgrows : r.Grows r') : MirrorsHead ws d r' n := by
  obtain ⟨hreached, m, hnames, hmirrors⟩ := h
  refine ⟨hreached.trans hgrows.heads.length_le, m, ?_, hmirrors⟩
  rw [headAt_grows hgrows hreached]
  exact hnames.grows hgrows

end Revisions

/-! ### Worlds in which nothing is hidden -/

section Plain

variable {env : Setting} {ws : Workspace} {w t u : World} {p : Planned} {m : Manifest} {r r' : Remote}

variable (ws) in
/-- Nothing is hidden on the device, nor in what the head has named. -/
structure PlainWorld (w : World) : Prop where
  tree : PlainTree w.device.tree
  heads : HeadsAre ws PlainManifest w.remote

theorem plain_new (workspaceId : WorkspaceId) : PlainManifest (.new workspaceId) := by
  refine ⟨fun p e hp => ?_, Manifest.get_new, fun p hp => absurd Manifest.get_new hp,
    fun p hp => absurd Manifest.get_new hp⟩
  rw [Manifest.get_new] at hp
  cases hp

theorem PlainManifest.withRemoteRefs (h : PlainManifest m) (ids : BTreeMap String (List BlobId)) :
    PlainManifest (m.withRemoteRefs ids) := by
  have hsome {p : RelPath} (hp : (m.withRemoteRefs ids).get p ≠ none) : m.get p ≠ none := by
    rw [get_withRemoteRefs] at hp
    exact fun hnone => hp (by rw [hnone]; rfl)
  refine ⟨fun p e hp q hq => ?_, ?_, fun p hp => h.names p (hsome hp), fun p hp => h.valid p (hsome hp)⟩
  · rw [get_withRemoteRefs] at hp ⊢
    obtain ⟨e', he', _⟩ := Option.map_eq_some_iff.mp hp
    rw [h.shaped p e' he' q hq]
    rfl
  · rw [get_withRemoteRefs, h.rules]
    rfl

theorem HeadsAre.later (hserver : env.server = HeadsAre ws PlainManifest) (h : HeadsAre ws PlainManifest r)
    (hlater : Remote.Later env r r') : HeadsAre ws PlainManifest r' := by
  have hkept := hlater.server
  rw [hserver] at hkept
  exact hkept h

theorem PlainWorld.meanwhile (hedits : ¬ env.edits) (hserver : env.server = HeadsAre ws PlainManifest)
    (h : PlainWorld ws w) (ht : Meanwhile env w t) : PlainWorld ws t := by
  refine ⟨?_, h.heads.later hserver ht.remote⟩
  rw [ht.device hedits]
  exact h.tree

/-- What is planned between sides without anything hidden. -/
structure PlainPlan (ws : Workspace) (w : World) (p : Planned) (t : World) : Prop where
  loc : PlainManifest p.loc
  scanned : Mirrors ws.digest w.device.tree p.loc
  remote : PlainManifest p.remote
  since : w.remote.heads.length ≤ p.head.revision
  reached : p.head.revision ≤ t.remote.heads.length
  head : t.remote.headAt p.head.revision = p.head
  names : Names ws t.remote p.head p.remote

theorem PlannedFrom.plain (hedits : ¬ env.edits) (hserver : env.server = HeadsAre ws PlainManifest)
    (hw : PlainWorld ws w) (h : PlannedFrom env ws w p t) : PlainPlan ws w p t := by
  obtain ⟨hscanned, hloc⟩ := scan_mirrors (h.loc hedits) hw.tree
  obtain ⟨now, hnow, hlast, hhead⟩ := h.head
  have hnames := h.remote
  refine ⟨hloc, hscanned, ?_, ?_, ?_, ?_, hnames⟩
  · rw [hhead] at hnames
    rcases ((hw.heads.later hserver hnow).later hserver hlast).names hlast.grows hnames with hplain | hnew
    · exact hplain
    · rw [hnew]
      exact plain_new _
  · rw [hhead]
    exact hnow.grows.heads.length_le
  · rw [hhead]
    exact hlast.grows.heads.length_le
  · rw [hhead]
    exact headAt_head hlast.grows

/-- A tree that is what was planned against is what the head named. -/
theorem PlainPlan.mirrorsHead {d : Device} (h : PlainPlan ws w p t) (hgrows : t.remote.Grows r)
    (hmirrors : Mirrors ws.digest d.tree p.remote) : MirrorsHead ws d r p.head.revision := by
  have hhere : MirrorsHead ws d t.remote p.head.revision := by
    refine ⟨h.reached, p.remote, ?_, hmirrors⟩
    rw [h.head]
    exact h.names
  exact hhere.grows hgrows

/-! ### Bringing everything together -/

variable (env ws) in
/-- Where a sync has failed nothing is hidden, unless the disk has failed. -/
structure PlainFailure (t : World) : Prop where
  heads : HeadsAre ws PlainManifest t.remote
  tree : ¬ env.diskFails → PlainTree t.device.tree

theorem PlainWorld.failure (h : PlainWorld ws w) : PlainFailure env ws w := ⟨h.heads, fun _ => h.tree⟩

/-- The outcomes of a sync where nothing is hidden. -/
abbrev PlainOutcomes (env : Setting) (ws : Workspace) {α : Type} (x : Sync α) (w : World) (Q : α → World → Prop) :
    Prop :=
  Fallible.Outcomes (semIntact env) (fun t => HeadsAre ws PlainManifest t.remote) (PlainFailure env ws) x w Q

theorem plainOutcomes_of_runs {α : Type} {x : Sync α} {Q : α → World → Prop}
    (h : Fallible.Runs (semIntact env) (PlainWorld ws) x w Q) : PlainOutcomes env ws x w Q :=
  h.outcomes.weaken (fun _ h => h.heads) (fun _ _ h => h.failure) fun _ _ _ h => h

theorem plainOutcomes_apply {blobSource : String → Except String Bytes} (hedits : ¬ env.edits) (hw : PlainWorld ws w)
    (hnames : NoBackslash w.device.tree) (hm : PlainManifest m) :
    PlainOutcomes env ws (applyPulledManifest ws m blobSource) w fun _ t =>
      Mirrors ws.digest t.device.tree m ∧ PlainTree t.device.tree ∧ t.remote = w.remote ∧ t.device.staged = some m := by
  have hguarded : Fallible.Guarded (sem env) (fun _ _ => True) (fun t => ¬ env.diskFails → PlainTree t.device.tree)
      (applyPulledManifest ws m blobSource) w fun _ _ => True := by
    refine (guarded_applyPulledManifest hedits (fun _ _ _ => .of_treeShaped hm.shaped hnames) (fun _ => hw.tree)
      fun rules hhindered _ hdisk => ?_).weaken (fun _ h => h) fun _ _ _ => trivial
    exact absurd (hhindered.fails hm.shaped hnames) hdisk
  refine (((hguarded.outcomes (fileCalls_applyPulledManifest.runs w)).and_runs
    (runs_applyPulledManifest (I := fun _ => True) hm.shaped fun _ _ => trivial)).mono
    fun _ _ _ _ hcall => hcall.1).weaken (fun t h => ?_) (fun t h htree => ⟨?_, htree⟩) fun _ t _ h => ?_
  · rw [h.remote]
    exact hw.heads
  · rw [h.remote]
    exact hw.heads
  · obtain ⟨_, rules, start, happlied⟩ := h
    obtain rfl : start = w.device.tree := happlied.begun.edited.resolve_right hedits
    obtain ⟨hmirrors, hplain⟩ := happlied.mirrors hm hw.tree hnames
    exact ⟨hmirrors, hplain, happlied.remote, happlied.staged⟩

/-- Each content has the hash that it is listed under. -/
structure Blobs.Genuine (c : Crypto) (blobs : Blobs) : Prop where
  base : ∀ (h : String) (b : Bytes), blobs.base[h]? = some b → sha256Hex c b = h
  loc : ∀ (h : String) (b : Bytes), blobs.loc[h]? = some b → sha256Hex c b = h
  remote : ∀ (h : String) (b : Bytes), blobs.remote[h]? = some b → sha256Hex c b = h

theorem GatheredFrom.genuine {g : Gathered} (h : GatheredFrom env ws p w g t) : g.blobs.Genuine ws.digest :=
  ⟨fun hash b hb => (h.baseBlobs.sound hash b hb).2, fun hash b hb => (h.locBlobs.sound hash b hb).2,
    fun hash b hb => (h.remoteBlobs.sound hash b hb).1⟩

/-- Everything is brought together, and nothing is hidden. -/
structure PlainReconciled (env : Setting) (ws : Workspace) (w : World) (p : Planned) (r : Reconciliation) (t : World) :
    Prop where
  world : PlainWorld ws t
  remote : Remote.Later env w.remote t.remote
  combined : Mirrors ws.digest t.device.tree r.out.combined
  staged : t.device.staged = some r.published
  published : Mirrors ws.digest t.device.tree r.published
  plain : PlainManifest r.published
  publishable : Publishable ws r.published
  combine : ∃ blobs : Blobs, blobs.Genuine ws.digest ∧
    combine ws.digest blobs p.base p.loc p.remote p.head.revision p.state.conflicts p.plan = .ok r.out

theorem CombinedFrom.plain {g : Gathered} {out : Combining} {v : World} (hedits : ¬ env.edits)
    (hscan : scanDevice ws w.device = .ok p.loc) (hloc : PlainManifest p.loc) (hremote : PlainManifest p.remote)
    (hplan : planReconciliation p.base p.loc p.remote = .ok p.plan) (h : CombinedFrom env ws p w g out u v) :
    combine ws.digest g.blobs p.base p.loc p.remote p.head.revision p.state.conflicts p.plan = .ok out ∧
      PlainManifest out.combined := by
  have hsame : g.staged = p.loc := Except.ok.inj ((h.gathered.scan hedits).2.symm.trans hscan)
  have hcombine := Except.mapError_ok.mp h.combined
  rw [hsame] at hcombine
  exact ⟨hcombine, combined_plain hloc hremote hplan hcombine⟩

theorem Rebuilt.plain {r : Reconciliation} {g : Gathered} {v x y : World} {rules : IgnoreRules} {start : WorkingTree}
    (hedits : ¬ env.edits) (hserver : env.server = HeadsAre ws PlainManifest) (hw : PlainWorld ws w)
    (hscan : scanDevice ws w.device = .ok p.loc) (hloc : PlainManifest p.loc) (hremote : PlainManifest p.remote)
    (hplan : planReconciliation p.base p.loc p.remote = .ok p.plan) (h : Rebuilt env ws p w r g u v x y rules start) :
    PlainReconciled env ws w p r y := by
  obtain ⟨hcombine, hplain⟩ := h.combined.plain hedits hscan hloc hremote hplan
  have htree : start = w.device.tree :=
    (h.applied.begun.edited.resolve_right hedits).trans (h.combined.tree.resolve_right hedits)
  have hstart : PlainTree start := by
    rw [htree]
    exact hw.tree
  have hnames : NoBackslash start := by
    rw [htree]
    exact noBackslash_of_scan hscan hw.tree
  obtain ⟨hmirrors, htreePlain⟩ := h.applied.mirrors hplain hstart hnames
  obtain ⟨tree, hsame, hscanned⟩ := h.scanned
  rw [hsame.resolve_right hedits] at hscanned
  obtain ⟨hpublished, hpublishedPlain⟩ := scan_mirrors hscanned htreePlain
  have hlater : Remote.Later env w.remote y.remote := by
    rw [h.staging.remote, h.applied.remote]
    exact h.combined.remote
  rw [← h.staging.tree.resolve_right hedits] at hmirrors htreePlain hpublished
  exact ⟨⟨htreePlain, hw.heads.later hserver hlater⟩, hlater, hmirrors, h.staged, hpublished, hpublishedPlain,
    scan_publishable hscanned, _, h.combined.gathered.genuine, hcombine⟩

theorem PlainReconciled.setSyncState {r : Reconciliation} (h : PlainReconciled env ws w p r t) (state : SyncState) :
    PlainReconciled env ws w p r (t.setSyncState state) :=
  ⟨⟨h.world.tree, h.world.heads⟩, h.remote, h.combined, h.staged, h.published, h.plain, h.publishable, h.combine⟩

/-- **Bringing plain sides together leaves nothing hidden.** -/
theorem plainOutcomes_reconcile (hedits : ¬ env.edits) (hserver : env.server = HeadsAre ws PlainManifest)
    (hw : PlainWorld ws w) (hscan : scanDevice ws w.device = .ok p.loc) (hloc : PlainManifest p.loc)
    (hremote : PlainManifest p.remote) (hplan : planReconciliation p.base p.loc p.remote = .ok p.plan) :
    PlainOutcomes env ws (reconcile ws p) w fun r t => PlainReconciled env ws w p r t := by
  have hcombined {g : Gathered} {out : Combining} {u v : World} (h : CombinedFrom env ws p w g out u v) :
      PlainManifest out.combined := (h.plain hedits hscan hloc hremote hplan).2
  have hrebuilt : Fallible.Runs (semIntact env) (fun _ => True) (reconcile ws p) w fun r t =>
      PlainReconciled env ws w p r t := by
    refine (runs_intact (runs_reconcile (fun _ _ _ _ h => (hcombined h).shaped) fun _ _ => trivial)).weaken
      (fun _ h => h) fun r t _ h => ?_
    obtain ⟨g, u, v, x, y, rules, start, hy, rfl⟩ := h
    exact (hy.plain hedits hserver hw hscan hloc hremote hplan).setSyncState _
  refine (Fallible.Outcomes.and_runs (Q := fun _ _ => True) ?_ hrebuilt).weaken (fun _ h => h) (fun _ _ h => h)
    fun _ _ _ h => h.2
  -- a device that has looked and staged is as it was
  have hgathering {t : World} (h : Gathering env ws p w t) : PlainWorld ws t := by
    refine ⟨?_, hw.heads.later hserver h.remote⟩
    rw [h.tree.resolve_right hedits]
    exact hw.tree
  refine Fallible.Outcomes.bind (plainOutcomes_of_runs (runs_intact (runs_gather fun t ht => hgathering ht)))
    fun g u hIu hg => ?_
  have hu : PlainWorld ws u := hgathering hg.gathering
  refine Fallible.Outcomes.check_bind hIu hu.failure fun out hout => ?_
  refine Fallible.Outcomes.bind (P := fun _ t => PlainWorld ws t) ?_ fun _ x _ hx => ?_
  · have hlook {t : World} (h : Edited env u t) : PlainWorld ws t := hu.meanwhile hedits hserver h.meanwhile
    refine Fallible.Outcomes.bind (plainOutcomes_of_runs (runs_intact (runs_workingTreeStatus fun t ht => hlook ht)))
      fun a t hIt h => ?_
    obtain ⟨hlooked, hcurrent⟩ := h
    have ht : PlainWorld ws t := hlook hlooked
    refine Fallible.Outcomes.check_bind hIt ht.failure fun _ hsame => ?_
    rw [ensureUnchanged_ok] at hsame
    have hsaved : PlainWorld ws (t.setSyncState (p.downloadState out)) := ⟨ht.tree, ht.heads⟩
    have hv : CombinedFrom env ws p w g out u (t.setSyncState (p.downloadState out)) := by
      obtain ⟨tree, htree, rfl⟩ := hlooked
      exact ⟨hg, hout, ⟨tree, htree, rfl⟩, _, hcurrent, hsame⟩
    refine Fallible.Outcomes.bind (plainOutcomes_of_runs (runs_intact (runs_saveSyncState ht hsaved)))
      fun _ v hIv h => ?_
    subst h
    refine (plainOutcomes_apply hedits hsaved (noBackslash_of_scan hcurrent ht.tree) (hcombined hv)).weaken
      (fun _ h => h) (fun _ _ h => h) fun _ x hheads htree => ⟨htree.2.1, hheads⟩
  · have hstaging {y : World} (h : Staging env ws x y) : PlainWorld ws y := by
      refine ⟨?_, ?_⟩
      · rw [h.tree.resolve_right hedits]
        exact hx.tree
      · rw [h.remote]
        exact hx.heads
    refine Fallible.Outcomes.bind (plainOutcomes_of_runs (runs_intact (runs_stagedTree fun y hy => hstaging hy)))
      fun published y _ h => ?_
    have hy : PlainWorld ws y := hstaging h.1
    refine Fallible.Outcomes.bind (plainOutcomes_of_runs (runs_intact (runs_saveSyncState hy ⟨hy.tree, hy.heads⟩)))
      fun _ z hIz _ => Fallible.Outcomes.pure hIz trivial

/-- What is combined without publishing is what the head names. -/
theorem PlainReconciled.unpublished {r : Reconciliation} (h : PlainReconciled env ws w p r t)
    (hplan : planReconciliation p.base p.loc p.remote = .ok p.plan) (hpublish : ¬ p.requiresPublication = true) :
    Mirrors ws.digest t.device.tree p.remote := by
  have htaken : ∀ item ∈ p.plan.paths, item.action = .unchanged ∨ item.action = .download := by
    intro item hitem
    unfold Planned.requiresPublication at hpublish
    rw [List.any_eq_true] at hpublish
    have hnot := fun hany => hpublish ⟨item, hitem, hany⟩
    cases haction : item.action <;> simp [haction] at hnot ⊢
  have hplain : Plain p.base p.loc p.remote := plain_of_plan hplan fun item hitem => by
    rcases htaken item hitem with haction | haction <;> simp [haction]
  obtain ⟨blobs, _, hcombine⟩ := h.combine
  obtain ⟨_, _, _, _, hget⟩ := combine_plain hplain hplan hcombine
  refine h.combined.agree fun q => ?_
  rw [hget]
  unfold chosen
  have hdone : actionOf p.base p.loc p.remote q = .unchanged ∨ actionOf p.base p.loc p.remote q = .download := by
    by_cases hmem : q ∈ unionPaths [p.base, p.loc, p.remote]
    · exact htaken ⟨q, _⟩ ((mem_plan hplan).mpr ⟨hmem, hplain.not_hidden q, rfl⟩)
    · rw [mem_unionPaths_three] at hmem
      push Not at hmem
      left
      rw [actionOf_unchanged, hmem.2.1, hmem.2.2]
      rfl
  rcases hdone with haction | haction
  · rw [haction]
    exact actionOf_unchanged.mp haction
  · rw [haction]
    exact entriesEqual_self _

/-! ### Attempts -/

/-- A sync that has started at a revision is done, where nothing is hidden. -/
structure PlainDone (ws : Workspace) (mode : SyncMode) (started : ℕ) (report : SyncReport) (t : World) : Prop where
  world : PlainWorld ws t
  mode : report.mode = mode
  since : started ≤ report.syncedRevision
  mirrors : MirrorsHead ws t.device t.remote report.syncedRevision

theorem plainOutcomes_push {r : Reconciliation} (hideal : ws.Ideal) (hedits : ¬ env.edits)
    (hserver : env.server = HeadsAre ws PlainManifest) (hr : PlainReconciled env ws u p r w) :
    Fallible.Runs (semIntact env) (fun t => PlainWorld ws t ∧ w.remote.Grows t.remote)
      (pushWithExpectedHead ws p.head p.remote) w fun report t => PlainWorld ws t ∧
        report.updatedHeadRevision = p.head.revision + 1 ∧
        MirrorsHead ws t.device t.remote report.updatedHeadRevision := by
  have hmoved {id : ManifestId} {ids : BTreeMap String (List BlobId)} {v t : World}
      (h : Moved env ws w p.head r.published id ids v t) : PlainWorld ws t ∧ w.remote.Grows t.remote := by
    have hv : PlainWorld ws v := hr.world.meanwhile hedits hserver h.meanwhile
    refine ⟨⟨?_, ?_⟩, ?_⟩
    · rw [h.device]
      exact hv.tree
    · rw [h.moved]
      exact hv.heads.addHead h.named (hr.plain.withRemoteRefs ids)
    · rw [h.moved]
      exact h.meanwhile.remote.grows.trans grows_addHead
  refine (runs_push hideal (HeadsAre.admits hserver) hr.staged hr.publishable fun t ht => ?_).weaken (fun _ h => h)
    fun report t _ h => ?_
  · cases ht with
    | waiting hwaiting => exact ⟨hr.world.meanwhile hedits hserver hwaiting, hwaiting.remote.grows⟩
    | moved h => exact hmoved h
  · obtain ⟨id, ids, v, h, rfl⟩ := h
    refine ⟨(hmoved h).1, rfl, ?_, r.published.withRemoteRefs ids, ?_, ?_⟩
    · rw [h.moved, ← h.revision]
      simp [World.setRemote, Remote.addHead]
    · rw [h.moved, ← h.revision]
      change Names ws (v.remote.addHead id) ((v.remote.addHead id).headAt (v.remote.heads.length + 1)) _
      rw [headAt_addHead]
      exact h.named
    · rw [h.device, h.meanwhile.device hedits]
      exact hr.published.agree (agree_withRemoteRefs _ _)

theorem plainOutcomes_attemptOnce (hideal : ws.Ideal) (hedits : ¬ env.edits)
    (hserver : env.server = HeadsAre ws PlainManifest) {again : Option (ℕ → Sync SyncReport)}
    {initialRevision : Option ℕ} {retryCount : ℕ} (hagain : ∀ next, again = some next → ∀ revision u, PlainWorld ws u →
      PlainOutcomes env ws (next revision) u (PlainDone ws .reconcile u.remote.heads.length)) (hw : PlainWorld ws w) :
    PlainOutcomes env ws (attemptOnce ws again .reconcile initialRevision retryCount) w
      (PlainDone ws .reconcile w.remote.heads.length) := by
  unfold attemptOnce
  rw [if_neg (by decide)]
  refine Fallible.Outcomes.bind (plainOutcomes_of_runs (runs_intact (runs_planSync fun t ht =>
    hw.meanwhile hedits hserver ht))) fun p t _ hp => ?_
  have hplan := hp.plain hedits hserver hw
  have ht : PlainWorld ws t := hw.meanwhile hedits hserver hp.meanwhile
  have hscan : scanDevice ws t.device = .ok p.loc := by
    rw [hp.meanwhile.device hedits]
    exact hp.loc hedits
  have hsave {u : World} (hu : PlainWorld ws u) (state : SyncState) :
    PlainOutcomes env ws (perform (.saveSyncState state)) u
      fun _ v => v = u.setSyncState state :=
    plainOutcomes_of_runs (runs_intact (runs_saveSyncState hu ⟨hu.tree, hu.heads⟩))
  rw [if_neg (by decide)]
  by_cases hchanges : (!p.plan.hasChanges) = true
  · -- nothing to do: the tree is already what the head names
    rw [if_pos hchanges]
    have hagree : p.loc.Agree p.remote := (hasChanges_iff_agree hp.plan).mp (by simpa using hchanges)
    have hstaging {u : World} (h : Staging env ws t u) : PlainWorld ws u := by
      refine ⟨?_, ?_⟩
      · rw [h.tree.resolve_right hedits]
        exact ht.tree
      · rw [h.remote]
        exact ht.heads
    refine Fallible.Outcomes.bind (P := fun _ u => Staging env ws t (u.setSyncState t.device.syncState)) ?_
      fun _ u hIu hu => Fallible.Outcomes.pure hIu ?_
    · refine Fallible.Outcomes.bind (plainOutcomes_of_runs (runs_intact (runs_stageAll fun u hu => hstaging hu)))
        fun staged u hIu h => ?_
      refine Fallible.Outcomes.check_bind hIu (hstaging h.1).failure fun _ _ => ?_
      refine (hsave (hstaging h.1) _).weaken (fun _ h => h) (fun _ _ h => h) fun _ v _ hv => ?_
      rw [hv]
      exact ⟨h.1.tree, h.1.remote, rfl, h.1.cache, h.1.staged⟩
    · have hworld := hstaging hu
      refine ⟨⟨hworld.tree, hworld.heads⟩, rfl, hplan.since, hplan.mirrorsHead ?_ ?_⟩
      · rw [← hu.remote]
        exact .refl _
      · have htree : u.device.tree = w.device.tree := by
          rw [← hp.meanwhile.tree.resolve_right hedits]
          exact hu.tree.resolve_right hedits
        rw [htree]
        exact hplan.scanned.agree hagree
  · rw [if_neg hchanges]
    refine Fallible.Outcomes.bind (plainOutcomes_reconcile hedits hserver ht hscan hplan.loc hplan.remote hp.plan)
      fun r u _ hr => ?_
    by_cases hpublish : p.requiresPublication = true
    · rw [if_pos hpublish]
      refine Fallible.Outcomes.bind (P := fun _ u => PlainReconciled env ws t p r u) ?_ fun _ v _ hv => ?_
      · refine Fallible.Outcomes.bind (hsave hr.world _) fun _ v _ hv => ?_
        have hr' : PlainReconciled env ws t p r v := by
          rw [hv]
          exact hr.setSyncState _
        refine (hsave hr'.world _).weaken (fun _ h => h) (fun _ _ h => h) fun _ x _ hx => ?_
        rw [hx]
        exact hr'.setSyncState _
      · have hpush := (plainOutcomes_push hideal hedits hserver hv).outcomes.attempt (F := PlainFailure env ws)
        refine Fallible.Outcomes.bind (hpush.weaken (fun _ h => h.1.heads) (fun _ _ h => h) fun _ _ _ h => h)
          fun pushed x hIx hx => ?_
        obtain ⟨⟨hworld, hgrows⟩, hx⟩ := hx
        cases pushed with
        | ok report =>
          refine Fallible.Outcomes.bind (hsave hworld _) fun _ y hIy hy => Fallible.Outcomes.pure hIy ?_
          rw [hy]
          refine ⟨⟨hworld.tree, hworld.heads⟩, rfl, ?_, hx.2.2.reached, hx.2.2.mirrors⟩
          exact hplan.since.trans ((Nat.le_succ _).trans hx.2.1.ge)
        | error error =>
          dsimp only
          split
          · cases hnext : again with
            | some next =>
              refine (hagain next hnext _ x hworld).weaken (fun _ h => h) (fun _ _ h => h) fun report y _ hy => ?_
              have hlater : w.remote.Grows x.remote :=
                (hp.meanwhile.remote.grows.trans hv.remote.grows).trans hgrows
              exact ⟨hy.world, hy.mode, hlater.heads.length_le.trans hy.since, hy.mirrors⟩
            | none =>
              refine Fallible.Outcomes.bind (plainOutcomes_of_runs (runs_intact (runs_fetchWorkspaceHead
                fun now hnow => hworld.meanwhile hedits hserver ((Meanwhile.refl x).setRemote hnow))))
                  fun _ y hIy hy => ?_
              obtain ⟨now, hnow, rfl, _⟩ := hy
              have hy : PlainWorld ws (x.setRemote now) :=
                hworld.meanwhile hedits hserver ((Meanwhile.refl x).setRemote hnow)
              exact Fallible.Outcomes.throw hIy hy.failure
          · exact Fallible.Outcomes.throw hIx hworld.failure
    · rw [if_neg hpublish]
      refine Fallible.Outcomes.bind (hsave hr.world _) fun _ x hIx hx => Fallible.Outcomes.pure hIx ?_
      have hmirrors := hr.unpublished hp.plan hpublish
      rw [hx]
      exact ⟨⟨hr.world.tree, hr.world.heads⟩, rfl, hplan.since, hplan.mirrorsHead hr.remote.grows hmirrors⟩

theorem plainOutcomes_syncAttempt (hideal : ws.Ideal) (hedits : ¬ env.edits)
    (hserver : env.server = HeadsAre ws PlainManifest) : ∀ (retries : ℕ) (initialRevision : Option ℕ) (retryCount : ℕ)
      {w : World}, PlainWorld ws w →
        PlainOutcomes env ws (syncAttempt ws .reconcile initialRevision retryCount retries) w
        (PlainDone ws .reconcile w.remote.heads.length)
  | 0, _, _, _, hw => plainOutcomes_attemptOnce hideal hedits hserver nofun hw
  | retries + 1, _, retryCount, _, hw => by
    refine plainOutcomes_attemptOnce hideal hedits hserver (fun next hnext revision u hu => ?_) hw
    obtain rfl := Option.some.inj hnext
    exact plainOutcomes_syncAttempt hideal hedits hserver retries (some revision) (retryCount + 1) hu

/-! ### Discarding the local side -/

/-- The tree and what is staged are as the head named them at the revision. -/
structure PulledHead (ws : Workspace) (d : Device) (r : Remote) (revision : ℕ) : Prop where
  mirrors : MirrorsHead ws d r revision
  staged : ∃ m, Names ws r (r.headAt revision) m ∧ d.staged = some m

theorem plainOutcomes_pull (hedits : ¬ env.edits) (hserver : env.server = HeadsAre ws PlainManifest)
    (hw : PlainWorld ws w) : PlainOutcomes env ws (pullWithMode ws .force) w fun report t => PlainWorld ws t ∧
      w.remote.heads.length ≤ report.remoteHeadRevision ∧
        PulledHead ws t.device t.remote report.remoteHeadRevision := by
  unfold pullWithMode
  rw [if_neg (by decide)]
  refine Fallible.Outcomes.bind (plainOutcomes_of_runs (runs_intact (runs_workingTreeStatus fun t ht =>
    hw.meanwhile hedits hserver ht.meanwhile))) fun a t hIt h => ?_
  obtain ⟨hlooked, hscan⟩ := h
  obtain rfl : t = w := hlooked.eq hedits
  obtain ⟨loc, baseline⟩ := a
  refine Fallible.Outcomes.bind (plainOutcomes_of_runs (runs_intact (runs_fetchWorkspaceHead fun now hnow =>
    hw.meanwhile hedits hserver ((Meanwhile.refl t).setRemote hnow)))) fun head u hIu h => ?_
  obtain ⟨now, hnow, rfl, rfl⟩ := h
  have hfetched : Meanwhile env t (t.setRemote now) := (Meanwhile.refl t).setRemote hnow
  have hnames : NoBackslash t.device.tree := noBackslash_of_scan hscan hw.tree
  -- what is applied is what the head named
  have happly {m : Manifest} {blobSource : String → Except String Bytes} {u : World} (hu : Meanwhile env t u)
      (hgrows : now.Grows u.remote) (hm : Names ws u.remote now.head m) :
      PlainOutcomes env ws (applyPulledManifest ws m blobSource) u fun _ x => PlainWorld ws x ∧
        PulledHead ws x.device x.remote now.head.revision := by
    have hworld : PlainWorld ws u := hw.meanwhile hedits hserver hu
    have hplain : PlainManifest m := by
      rcases hworld.heads.names hgrows hm with hplain | hnew
      · exact hplain
      · rw [hnew]
        exact plain_new _
    have hnames' : NoBackslash u.device.tree := by
      rw [hu.device hedits]
      exact hnames
    refine (plainOutcomes_apply hedits hworld hnames' hplain).weaken (fun _ h => h) (fun _ _ h => h)
      fun _ x hheads h => ?_
    obtain ⟨hmirrors, htree, hremote, hstaged⟩ := h
    have hnamed : Names ws x.remote (x.remote.headAt now.head.revision) m := by
      rw [hremote, headAt_head hgrows]
      exact hm
    refine ⟨⟨htree, hheads⟩, ⟨?_, m, hnamed, hmirrors⟩, m, hnamed, hstaged⟩
    rw [hremote]
    exact hgrows.heads.length_le
  dsimp only
  split
  · rename_i hnone
    have hm : Names ws now now.head (.new ws.workspaceId) := by
      unfold Names
      rw [hnone]
    refine Fallible.Outcomes.bind (happly hfetched (.refl _) hm) fun _ x hIx hx => Fallible.Outcomes.pure hIx ?_
    exact ⟨hx.1, hnow.grows.heads.length_le, hx.2⟩
  · rename_i id hsome
    refine Fallible.Outcomes.bind (plainOutcomes_of_runs (runs_intact (runs_loadRemoteManifest fun v hv =>
      hw.meanwhile hedits hserver (hfetched.trans hv)))) fun m v hIv h => ?_
    obtain ⟨hv, hm⟩ := h
    have hloaded : Meanwhile env t v := hfetched.trans hv
    refine Fallible.Outcomes.bind (plainOutcomes_of_runs (runs_intact (runs_downloadManifestBlobs fun x hx =>
      hw.meanwhile hedits hserver (hloaded.trans hx)))) fun blobs x hIx h => ?_
    have hx : Meanwhile env t x := hloaded.trans h.1
    have hgrows : v.remote.Grows x.remote := h.1.remote.grows
    refine Fallible.Outcomes.bind (plainOutcomes_of_runs (runs_intact (runs_workingTreeStatus fun y hy =>
      hw.meanwhile hedits hserver (hx.trans hy.meanwhile)))) fun a y hIy h => ?_
    obtain rfl : y = x := h.1.eq hedits
    refine Fallible.Outcomes.check_bind hIy (hw.meanwhile hedits hserver hx).failure fun _ _ => ?_
    refine Fallible.Outcomes.bind (happly hx (hv.remote.grows.trans hgrows) (hm.grows hgrows)) fun _ z hIz hz =>
      Fallible.Outcomes.pure hIz ⟨hz.1, hnow.grows.heads.length_le, hz.2⟩

theorem plainOutcomes_discardLocal (hedits : ¬ env.edits) (hserver : env.server = HeadsAre ws PlainManifest)
    (hw : PlainWorld ws w) :
    PlainOutcomes env ws (discardLocal ws) w (PlainDone ws .discardLocal w.remote.heads.length) := by
  refine Fallible.Outcomes.bind (plainOutcomes_pull hedits hserver hw) fun pulled t _ h => ?_
  obtain ⟨hworld, hsince, hmirrors⟩ := h
  have hlook {u : World} (hu : Edited env t u) : PlainWorld ws u := hworld.meanwhile hedits hserver hu.meanwhile
  refine Fallible.Outcomes.bind (plainOutcomes_of_runs (runs_intact (runs_loadSyncState fun u hu => hlook hu)))
    fun state u _ h => ?_
  obtain rfl : u = t := h.1.eq hedits
  refine Fallible.Outcomes.bind (plainOutcomes_of_runs (runs_intact (runs_loadStagedManifest fun v hv => hlook hv)))
    fun staged v _ h => ?_
  obtain rfl : v = u := h.1.eq hedits
  refine Fallible.Outcomes.bind (plainOutcomes_of_runs (runs_intact (runs_saveSyncState hworld
    ⟨hworld.tree, hworld.heads⟩))) fun _ x hIx hx => Fallible.Outcomes.pure hIx ?_
  rw [hx]
  exact ⟨⟨hworld.tree, hworld.heads⟩, rfl, hsince, hmirrors.mirrors.reached, hmirrors.mirrors.mirrors⟩

theorem sync_eq (mode : SyncMode) : sync ws mode = attemptOnce ws
    (some fun revision => syncAttempt ws .reconcile (some revision) 1 0) mode none 0 := rfl

/-- **What a sync leaves.** Unless it only plans, a sync that succeeds leaves the
tree as the head named it at the revision reported, which is not before the one
at its start; nothing is hidden, also where it fails. -/
theorem plainOutcomes_sync (hideal : ws.Ideal) (hedits : ¬ env.edits)
    (hserver : env.server = HeadsAre ws PlainManifest) (mode : SyncMode) (hw : PlainWorld ws w) :
    PlainOutcomes env ws (sync ws mode) w fun report t => PlainWorld ws t ∧ report.mode = mode ∧
      (mode ≠ .dryRun → PlainDone ws mode w.remote.heads.length report t) := by
  cases mode with
  | reconcile =>
    exact (plainOutcomes_syncAttempt hideal hedits hserver 1 none 0 hw).weaken (fun _ h => h) (fun _ _ h => h)
      fun report t _ h => ⟨h.world, h.mode, fun _ => h⟩
  | discardLocal =>
    rw [sync_eq]
    unfold attemptOnce
    rw [if_pos rfl]
    exact (plainOutcomes_discardLocal hedits hserver hw).weaken (fun _ h => h) (fun _ _ h => h)
      fun report t _ h => ⟨h.world, h.mode, fun _ => h⟩
  | dryRun =>
    rw [sync_eq]
    unfold attemptOnce
    rw [if_neg (by decide)]
    refine Fallible.Outcomes.bind (plainOutcomes_of_runs (runs_intact (runs_planSync fun t ht =>
      hw.meanwhile hedits hserver ht))) fun p t hIt hp => ?_
    rw [if_pos rfl]
    refine Fallible.Outcomes.pure hIt ?_
    exact ⟨hw.meanwhile hedits hserver hp.meanwhile, rfl, fun hnot => absurd rfl hnot⟩

end Plain

end RustSync
