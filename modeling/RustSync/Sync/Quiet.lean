/-
Devices at rest

A sync that succeeds leaves the device at rest: what it has recorded as the
base is staged, and is what the next scan lists (`AtRest`). From a device at
rest nothing is published and no conflict arises, whatever others publish: the
next plan only downloads. So a device whose user does nothing stays quiet.

Key definitions: `AtRest`, `OnlyDownloads`. Key theorem: `quiet_at_rest`.
-/
import RustSync.Lib.Guarded
import RustSync.Sync.Alone
import RustSync.Sync.Plans
import RustSync.Sync.Steps

namespace RustSync

section Quiet

variable {env : Setting} {ws : Workspace} {w t : World} {p : Planned} {loc remote base : Manifest}

/-- The base is staged, and is what a scan lists. -/
def AtRest (ws : Workspace) (d : Device) : Prop :=
  ∃ m, d.syncState.lastSyncedManifest = some m ∧ d.staged = some m ∧
    buildManifest ws.digest ws.ignore ws.workspaceId d.tree (some m) = .ok m

/-! ### A sync that succeeds -/

theorem runs_keepUnchanged : Fallible.Runs (sem env) (fun _ => True) (keepUnchanged ws p) w fun _ t =>
    AtRest ws t.device := by
  refine Fallible.Runs.bind (runs_stageAll fun _ _ => trivial) fun staged t _ h => ?_
  obtain ⟨_, hstaged, hscan, _⟩ := h
  refine Fallible.Runs.check_bind trivial fun _ _ => ?_
  refine (runs_saveSyncState trivial trivial).weaken (fun _ h => h) fun _ u _ hu => ?_
  subst hu
  exact ⟨staged, rfl, hstaged, scan_staged hscan⟩

/-- What is staged is what a scan lists. -/
def StagedAs (ws : Workspace) (d : Device) (m : Manifest) : Prop :=
  d.staged = some m ∧ buildManifest ws.digest ws.ignore ws.workspaceId d.tree (some m) = .ok m

theorem runs_reconcile_staged : Fallible.Runs (sem env) (fun _ => True) (reconcile ws p) w fun r t =>
    StagedAs ws t.device r.published := by
  refine Fallible.Runs.bind (P := fun _ _ => True) Fallible.Runs.any fun g t _ _ => ?_
  refine Fallible.Runs.check_bind trivial fun out _ => ?_
  refine Fallible.Runs.bind (P := fun _ _ => True) Fallible.Runs.any fun _ t _ _ => ?_
  refine Fallible.Runs.bind (runs_stageAll fun _ _ => trivial) fun published t _ h => ?_
  obtain ⟨_, hstaged, hscan, _⟩ := h
  refine Fallible.Runs.bind (runs_saveSyncState trivial trivial) fun _ u _ hu => ?_
  subst hu
  exact Fallible.Runs.pure trivial ⟨hstaged, scan_staged hscan⟩

theorem runs_finish {r : Reconciliation} {pushed : Option PushReport} {retryCount : ℕ}
    (h : StagedAs ws w.device r.published) :
    Fallible.Runs (sem env) (fun _ => True) (finish p r pushed retryCount) w fun _ t => AtRest ws t.device := by
  refine Fallible.Runs.bind (runs_saveSyncState trivial trivial) fun _ u _ hu => ?_
  subst hu
  exact Fallible.Runs.pure trivial ⟨r.published, rfl, h⟩

theorem runs_attemptOnce (hedits : ¬ env.edits) {again : Option (ℕ → Sync SyncReport)} {initialRevision : Option ℕ}
    {retryCount : ℕ} (hagain : ∀ next, again = some next → ∀ revision u,
      Fallible.Runs (sem env) (fun _ => True) (next revision) u fun _ t => AtRest ws t.device) :
    Fallible.Runs (sem env) (fun _ => True) (attemptOnce ws again .reconcile initialRevision retryCount) w
      fun _ t => AtRest ws t.device := by
  unfold attemptOnce
  rw [if_neg (by decide)]
  refine Fallible.Runs.bind (P := fun _ _ => True) Fallible.Runs.any fun p t _ _ => ?_
  rw [if_neg (by decide)]
  by_cases hchanges : (!p.plan.hasChanges) = true
  · rw [if_pos hchanges]
    refine Fallible.Runs.bind runs_keepUnchanged fun _ u _ hu => ?_
    exact Fallible.Runs.pure trivial hu
  · rw [if_neg hchanges]
    refine Fallible.Runs.bind runs_reconcile_staged fun r u _ hstaged => ?_
    by_cases hpublish : p.requiresPublication = true
    · rw [if_pos hpublish]
      -- the announcements only save the state
      refine Fallible.Runs.bind (P := fun _ t => StagedAs ws t.device r.published) ?_ fun _ v _ hstaged => ?_
      · refine Fallible.Runs.bind (runs_saveSyncState trivial trivial) fun _ v _ hv => ?_
        subst hv
        refine (runs_saveSyncState trivial trivial).weaken (fun _ h => h) fun _ x _ hx => ?_
        subst hx
        exact hstaged
      · refine Fallible.Runs.bind (P := fun _ t => t.device = v.device) ?_ fun pushed x _ hx => ?_
        · refine (askCalls_push.runs hedits v).attempt.weaken (fun _ _ => trivial) fun r t _ h => ?_
          exact h.1
        · rw [← hx] at hstaged
          cases pushed with
          | ok report => exact runs_finish hstaged
          | error error =>
            dsimp only
            split
            · cases hnext : again with
              | some next => exact hagain next hnext _ x
              | none =>
                refine Fallible.Runs.bind (P := fun _ _ => True) Fallible.Runs.any fun _ y _ _ => ?_
                exact Fallible.Runs.throw trivial
            · exact Fallible.Runs.throw trivial
    · rw [if_neg hpublish]
      exact runs_finish hstaged

theorem runs_syncAttempt (hedits : ¬ env.edits) : ∀ (retries : ℕ) (initialRevision : Option ℕ)
    (retryCount : ℕ) (w : World),
    Fallible.Runs (sem env) (fun _ => True) (syncAttempt ws .reconcile initialRevision retryCount retries) w
      fun _ t => AtRest ws t.device
  | 0, _, _, _ => runs_attemptOnce hedits nofun
  | retries + 1, _, retryCount, _ => by
    refine runs_attemptOnce hedits fun next hnext revision u => ?_
    obtain rfl := Option.some.inj hnext
    exact runs_syncAttempt hedits retries (some revision) (retryCount + 1) u

/-! ### A device at rest -/

/-- Where the local side is the base, a path is left alone or downloaded. -/
theorem actionOf_at_base (base remote : Manifest) (q : RelPath) :
    actionOf base base remote q = .unchanged ∨ actionOf base base remote q = .download := by
  have hsame : subtreesEqual base base q = true := subtreesEqual_iff.mpr fun r _ => entriesEqual_self _
  unfold actionOf reconcileEntry
  by_cases hstructural : isDirectory (base.get q) ≠ isDirectory (remote.get q)
  · rw [if_pos hstructural, if_pos hsame]
    exact .inr rfl
  · rw [if_neg hstructural]
    by_cases hequal : entriesEqual (base.get q) (remote.get q) = true
    · rw [if_pos hequal]
      exact .inl rfl
    · rw [if_neg hequal, if_pos (entriesEqual_self _)]
      exact .inr rfl

/-- A plan that only downloads. -/
def OnlyDownloads (plan : ReconciliationPlan) : Prop :=
  ∀ item ∈ plan.paths, item.action = .unchanged ∨ item.action = .download

theorem onlyDownloads_at_base {plan : ReconciliationPlan} (h : planReconciliation base base remote = .ok plan) :
    OnlyDownloads plan := by
  intro item hitem
  obtain ⟨_, _, haction⟩ := (mem_plan h).mp hitem
  rw [haction]
  exact actionOf_at_base base remote item.path

/-- What is planned from a device at rest. -/
structure RestPlan (p : Planned) : Prop where
  base : p.base = p.loc
  plan : planReconciliation p.loc p.loc p.remote = .ok p.plan

theorem AtRest.planned (hedits : ¬ env.edits) (h : AtRest ws w.device) (hp : PlannedFrom env ws w p t) :
    RestPlan p := by
  obtain ⟨m, hbase, hstaged, hscan⟩ := h
  have hloc := hp.loc hedits
  unfold scanDevice at hloc
  rw [hstaged, hscan] at hloc
  have hsame : p.base = p.loc := by
    rw [hp.base, hp.state, hbase]
    exact Except.ok.inj hloc
  refine ⟨hsame, ?_⟩
  have hplan := hp.plan
  rw [hsame] at hplan
  exact hplan

theorem RestPlan.onlyDownloads (h : RestPlan p) : OnlyDownloads p.plan := onlyDownloads_at_base h.plan

theorem RestPlan.not_publishing (h : RestPlan p) : p.requiresPublication = false := by
  unfold Planned.requiresPublication
  rw [List.any_eq_false]
  intro item hitem
  rcases h.onlyDownloads item hitem with haction | haction <;> simp [haction]

/-- Nothing conflicts where nothing differs from the base. -/
theorem RestPlan.conflicts {g : Gathered} {out : Combining} {u : World} (h : RestPlan p) (hedits : ¬ env.edits)
    (hstate : scanDevice ws w.device = .ok p.loc) (hg : GatheredFrom env ws p w g u)
    (hout : combinePlanned ws p g = .ok out) : out.conflicts = p.state.conflicts := by
  have hloc : g.staged = p.loc := Except.ok.inj ((hg.scan hedits).2.symm.trans hstate)
  have hcombine := Except.mapError_ok.mp hout
  rw [hloc, h.base] at hcombine
  have hplain : Plain p.loc p.loc p.remote := fun q => (actionOf_at_base p.loc p.remote q).imp_right .inr
  exact (combine_plain hplain h.plan hcombine).2.1

/-- The registry of a device at rest stays as it is, wherever its sync is cut
short. -/
theorem runs_registry_at_rest (hedits : ¬ env.edits) {again : Option (ℕ → Sync SyncReport)} {initialRevision : Option ℕ}
    {retryCount : ℕ} (hrest : AtRest ws w.device) :
    Fallible.Runs (sem env) (fun t => t.device.syncState.conflicts = w.device.syncState.conflicts)
      (attemptOnce ws again .reconcile initialRevision retryCount) w
      fun _ t => t.device.syncState.conflicts = w.device.syncState.conflicts := by
  unfold attemptOnce
  rw [if_neg (by decide)]
  refine Fallible.Runs.bind (runs_planSync fun t ht => by rw [ht.syncState]) fun p t hIt hp => ?_
  have hplan := hrest.planned hedits hp
  have hconflicts : p.state.conflicts = w.device.syncState.conflicts := by rw [hp.state]
  rw [if_neg (by decide)]
  by_cases hchanges : (!p.plan.hasChanges) = true
  · rw [if_pos hchanges]
    refine Fallible.Runs.bind (P := fun _ t => t.device.syncState.conflicts = w.device.syncState.conflicts) ?_
      fun _ u hIu hu => Fallible.Runs.pure hIu hu
    refine Fallible.Runs.bind (runs_stageAll fun u hu => by rw [hu.syncState]; exact hIt) fun staged u hIu _ => ?_
    refine Fallible.Runs.check_bind hIu fun _ _ => ?_
    refine (runs_saveSyncState hIu hconflicts).weaken (fun _ h => h) fun _ v hIv _ => hIv
  · rw [if_neg hchanges, hplan.not_publishing]
    have hscan : scanDevice ws t.device = .ok p.loc := by
      rw [hp.meanwhile.device hedits]
      exact hp.loc hedits
    refine Fallible.Runs.bind (runs_reconcile_state (fun u hu => ?_) fun g u out v hg hout hv => ?_)
      fun r u hIu hu => ?_
    · rcases hu.syncState with heq | heq
      · rw [heq]
        exact hIt
      · rw [heq]
        exact hconflicts
    · have hsame := hplan.conflicts hedits hscan hg hout
      rcases hv with heq | heq
      · rw [heq]
        exact hsame.trans hconflicts
      · rw [heq]
        exact hsame.trans hconflicts
    · obtain ⟨_, g, v, hg, hout⟩ := hu
      have hsame := (hplan.conflicts hedits hscan hg hout).trans hconflicts
      have hfinal : (u.setSyncState (finalState p r none)).device.syncState.conflicts = w.device.syncState.conflicts :=
        hsame
      refine Fallible.Runs.bind (runs_saveSyncState hIu hfinal) fun _ x hIx _ => ?_
      exact Fallible.Runs.pure hIx hIx

/-- A device at rest does not move the head. -/
theorem not_publishes_at_rest (hedits : ¬ env.edits) {again : Option (ℕ → Sync SyncReport)} {initialRevision : Option ℕ}
    {retryCount : ℕ} (hrest : AtRest ws w.device) :
    Fallible.Guarded (sem env) (fun o _ => ¬ Op.Publishes o) (fun _ => True)
      (attemptOnce ws again .reconcile initialRevision retryCount) w fun _ _ => True := by
  unfold attemptOnce
  rw [if_neg (by decide)]
  have hquiet : QuietCalls (planSync ws) := silentCalls_planSync.quiet
  have hplans : Fallible.Guarded (sem env) (fun o _ => ¬ Op.Publishes o) (fun _ => True) (planSync ws) w fun p t =>
      True ∧ PlannedFrom env ws w p t := (hquiet.guarded w).and_runs (runs_planSync fun _ _ => trivial)
  refine Fallible.Guarded.bind hplans fun p t hp => ?_
  have hplan := hrest.planned hedits hp.2
  rw [if_neg (by decide)]
  by_cases hchanges : (!p.plan.hasChanges) = true
  · rw [if_pos hchanges]
    exact (silentCalls_keepUnchanged.quiet.bind fun _ => Fallible.Calls.pure _).guarded t
  · rw [if_neg hchanges, hplan.not_publishing]
    exact (silentCalls_reconcile.quiet.bind fun _ => silentCalls_finish.quiet).guarded t

/-- **No phantom local changes.** After a sync that succeeds, while the user
edits nothing: whatever others publish, the next plan only downloads; the next
sync does not move the head, and changes no record of a conflict. -/
theorem quiet_at_rest (env env' : Setting) (ws : Workspace) (hedits : ¬ env.edits)
    (hedits' : ¬ env'.edits) {w t : World}
    {report : SyncReport} (hrun : Fallible.Reaches (sem env) (sync ws .reconcile) w (some (.ok report)) t)
    (later : Remote) :
    (∀ p u, Fallible.Reaches (sem env') (planSync ws) (t.setRemote later) (some (.ok p)) u → OnlyDownloads p.plan) ∧
      (∀ o u, Fallible.Comes (sem env') (sync ws .reconcile) (t.setRemote later) o u → ¬ Op.Publishes o) ∧
      ∀ out u, Fallible.Reaches (sem env') (sync ws .reconcile) (t.setRemote later) out u →
        u.device.syncState.conflicts = t.device.syncState.conflicts := by
  have hrest : AtRest ws t.device := (runs_syncAttempt hedits 1 none 0 w).ok hrun
  have hsame : (t.setRemote later).device = t.device := rfl
  rw [← hsame] at hrest
  have hsync : sync ws .reconcile = attemptOnce ws (some fun revision => syncAttempt ws .reconcile (some revision) 1 0)
      .reconcile none 0 := rfl
  rw [hsync]
  refine ⟨fun p u hplan => ?_, fun o u hcomes => ?_, fun out u hnext => ?_⟩
  · have hp : PlannedFrom env' ws (t.setRemote later) p u :=
      (runs_planSync (I := fun _ => True) fun _ _ => trivial).ok hplan
    have hplanned : RestPlan p := hrest.planned hedits' hp
    exact hplanned.onlyDownloads
  · exact (not_publishes_at_rest hedits' hrest).comes hcomes
  · exact (runs_registry_at_rest hedits' hrest).anywhere hnext

/-- A device with a note that nobody has seen yet. -/
def notesWorld : World := worldOf (noteTree "one\ntwo\n")

/-- Once the note is published the device stays quiet. -/
theorem notes_quiet : ∃ t report, Fallible.Reaches (sem .alone) (sync sampleSpace .reconcile) notesWorld
    (some (.ok report)) t ∧ ∀ later,
      (∀ p u, Fallible.Reaches (sem .alone) (planSync sampleSpace) (t.setRemote later) (some (.ok p)) u →
        OnlyDownloads p.plan) ∧
      (∀ o u, Fallible.Comes (sem .alone) (sync sampleSpace .reconcile) (t.setRemote later) o u → ¬ Op.Publishes o) ∧
      ∀ out u, Fallible.Reaches (sem .alone) (sync sampleSpace .reconcile) (t.setRemote later) out u →
        u.device.syncState.conflicts = t.device.syncState.conflicts := by
  have hdone : ((Fallible.exec (fun o w => some (World.alone o w)) (sync sampleSpace .reconcile) notesWorld).map
      fun a => a.1.isOk) = some true := by decide +kernel
  obtain ⟨⟨r, t⟩, hexec, hok⟩ := Option.map_eq_some_iff.mp hdone
  cases r with
  | error error => cases hok
  | ok report =>
    have hrun : Fallible.Reaches (sem .alone) (sync sampleSpace .reconcile) notesWorld (some (.ok report)) t :=
      reaches_alone hexec
    exact ⟨t, report, hrun, quiet_at_rest .alone .alone sampleSpace id id hrun⟩

end Quiet

end RustSync
