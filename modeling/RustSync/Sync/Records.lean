/-
What a sync records and publishes

Where nothing is hidden, a sync saves as base only what the head named at the
revision that it saves with it (`SyncState.Based`), and moves the head only to a
merge (`Merges`) of what it carries from the tree it started with (`Carries`)
with what the head named before, with a record of each copy. So it is at each of
its calls, on every attempt, whatever other devices publish meanwhile
(`faithful_sync`).

Key definitions: `SyncState.Based`, `Merge`, `Carries`, `Op.Faithful`. Key
theorem: `faithful_sync`.
-/
import RustSync.Sync.Convergence
import RustSync.Sync.NoLostUpdate
import RustSync.Sync.Pullable

namespace RustSync

section Records

variable {env : Setting} {ws : Workspace} {w t u : World} {p : Planned} {m m' loc : Manifest} {r r' : Remote}
  {state : SyncState} {n : ℕ} {tree tree' : WorkingTree} {conflicts : BTreeMap RelPath ConflictRecord}

/-! ### Bases -/

variable (ws) in
/-- The base is what the head named at the revision recorded with it. -/
def SyncState.Based (state : SyncState) (r : Remote) : Prop :=
  ∀ base, state.lastSyncedManifest = some base → ∃ n, state.lastSyncedRevision = some n ∧ n ≤ r.heads.length ∧
    ∃ m, Names ws r (r.headAt n) m ∧ base.Agree m

theorem SyncState.Based.grows (h : state.Based ws r) (hgrows : r.Grows r') : state.Based ws r' := by
  intro base hbase
  obtain ⟨n, hrevision, hreached, m, hnames, hagree⟩ := h base hbase
  refine ⟨n, hrevision, hreached.trans hgrows.heads.length_le, m, ?_, hagree⟩
  rw [headAt_grows hgrows hreached]
  exact hnames.grows hgrows

/-- The states have one base. -/
structure SameBase (state state' : SyncState) : Prop where
  revision : state.lastSyncedRevision = state'.lastSyncedRevision
  manifest : state.lastSyncedManifest = state'.lastSyncedManifest

theorem SyncState.Based.of_same {state' : SyncState} (h : state.Based ws r) (hsame : SameBase state' state) :
    state'.Based ws r := by
  intro base hbase
  rw [hsame.manifest] at hbase
  rw [hsame.revision]
  exact h base hbase

theorem based_of_names (hreached : n ≤ r.heads.length) (hnames : Names ws r (r.headAt n) m) (hagree : m'.Agree m)
    (hrevision : state.lastSyncedRevision = some n) (hbase : state.lastSyncedManifest = some m') :
      state.Based ws r := by
  intro base hbase'
  rw [hbase] at hbase'
  cases hbase'
  exact ⟨n, hrevision, hreached, m, hnames, hagree⟩

/-- Manifests that one tree mirrors agree. -/
theorem Mirrors.agree_both {c : Crypto} (h : Mirrors c tree m) (h' : Mirrors c tree m') : m.Agree m' := by
  intro q
  cases hm : m.get q with
  | none =>
    cases hm' : m'.get q with
    | none => rfl
    | some e' =>
      have hmatches := h'.listed q e' hm'
      unfold Matches at hmatches
      rw [h.unlisted q hm] at hmatches
      cases e' <;> cases hmatches
  | some e =>
    have hmatches := h.listed q e hm
    unfold Matches at hmatches
    cases hm' : m'.get q with
    | none =>
      rw [h'.unlisted q hm'] at hmatches
      cases e <;> cases hmatches
    | some e' =>
      have hmatches' := h'.listed q e' hm'
      unfold Matches at hmatches'
      rw [entriesEqual_comm] at hmatches
      exact entriesEqual_trans hmatches hmatches'

/-! ### What is published -/

/-- `m` is a merge of `loc` with what the head named at a revision, over what it
named then or before; `conflicts` has a record of each copy. -/
structure Merge (ws : Workspace) (r : Remote) (n : ℕ) (loc : Manifest) (conflicts : BTreeMap RelPath ConflictRecord)
    (m base previous : Manifest) (blobs : Blobs) (conflicts₀ : BTreeMap RelPath ConflictRecord)
    (copyOf : RelPath → Option RelPath) : Prop where
  reached : n ≤ r.heads.length
  earlier : ∃ k ≤ n, ∃ m, Names ws r (r.headAt k) m ∧ base.Agree m
  latest : Names ws r (r.headAt n) previous
  genuine : blobs.Genuine ws.digest
  reconciled : ∃ combined, m.Agree combined ∧
    Reconciled ws.digest blobs base loc previous conflicts₀ conflicts combined copyOf

variable (ws) in
def Merges (r : Remote) (n : ℕ) (loc : Manifest) (conflicts : BTreeMap RelPath ConflictRecord) (m : Manifest) : Prop :=
  ∃ base previous blobs conflicts₀ copyOf, Merge ws r n loc conflicts m base previous blobs conflicts₀ copyOf

theorem Merges.grows (h : Merges ws r n loc conflicts m) (hgrows : r.Grows r') : Merges ws r' n loc conflicts m := by
  obtain ⟨base, previous, blobs, conflicts₀, copyOf, h⟩ := h
  obtain ⟨k, hk, m₀, hnames, hagree⟩ := h.earlier
  refine ⟨base, previous, blobs, conflicts₀, copyOf, h.reached.trans hgrows.heads.length_le, ⟨k, hk, m₀, ?_, hagree⟩,
    ?_, h.genuine, h.reconciled⟩
  · rw [headAt_grows hgrows (hk.trans h.reached)]
    exact hnames.grows hgrows
  · rw [headAt_grows hgrows h.reached]
    exact h.latest.grows hgrows

theorem Merges.agree (h : Merges ws r n loc conflicts m) (hagree : m'.Agree m) : Merges ws r n loc conflicts m' := by
  obtain ⟨base, previous, blobs, conflicts₀, copyOf, h⟩ := h
  obtain ⟨combined, hsame, hreconciled⟩ := h.reconciled
  exact ⟨base, previous, blobs, conflicts₀, copyOf, h.reached, h.earlier, h.latest, h.genuine, combined,
    hagree.trans hsame, hreconciled⟩

variable (ws) in
/-- The manifest has what is in the tree, alone or merged with what the head
named. -/
inductive Carries (r : Remote) (tree : WorkingTree) : Manifest → Prop
  | scanned {loc : Manifest} (h : Mirrors ws.digest tree loc) : Carries r tree loc
  | merged {n : ℕ} {loc m : Manifest} {conflicts : BTreeMap RelPath ConflictRecord} (h : Carries r tree loc)
      (hmerge : Merges ws r n loc conflicts m) : Carries r tree m

theorem Carries.grows (h : Carries ws r tree m) (hgrows : r.Grows r') : Carries ws r' tree m := by
  induction h with
  | scanned h => exact .scanned h
  | merged _ hmerge ih => exact .merged ih (hmerge.grows hgrows)

variable (ws) in
/-- What is scanned of the tree has what was in the one before. -/
def CarriedTo (r : Remote) (tree tree' : WorkingTree) : Prop :=
  ∀ loc, Mirrors ws.digest tree' loc → Carries ws r tree loc

variable (ws) in
/-- A state is saved only with a base that the head named, and the head is moved
only to a merge of what was in the tree, which is in the tree now, and with what
is recorded now. -/
structure Op.Faithful (tree : WorkingTree) (o : Op) (t : World) : Prop where
  records : ∀ state, o = .saveSyncState state → state.Based ws t.remote
  publishes : ∀ n id, o = .updateWorkspaceHead n id → ∃ loc m, Carries ws t.remote tree loc ∧
    Merges ws t.remote n loc t.device.syncState.conflicts m ∧ Named ws t.remote id m ∧ Mirrors ws.digest t.device.tree m

/-! ### Calls that save a base -/

/-- A call that saves no state and does not move the head. -/
def Op.SavesNothing (o : Op) : Prop := (∀ state, o ≠ .saveSyncState state) ∧ ¬ o.Publishes

/-- A call that moves no head, and saves the base there was or the manifest that
was planned against. -/
def Op.SavesFor (p : Planned) (o : Op) : Prop :=
  ¬ o.Publishes ∧ ∀ state, o = .saveSyncState state → SameBase state p.state ∨
    (state.lastSyncedRevision = some p.head.revision ∧ state.lastSyncedManifest = some p.remote)

theorem Op.SavesNothing.faithful {o : Op} (h : o.SavesNothing) (t : World) : o.Faithful ws tree t :=
  ⟨fun state heq => absurd heq (h.1 state), fun n id heq => absurd ⟨n, id, heq⟩ h.2⟩

theorem Op.SavesNothing.savesFor {o : Op} (h : o.SavesNothing) : o.SavesFor p :=
  ⟨h.2, fun state heq => absurd heq (h.1 state)⟩

theorem savesNothing_onFiles {o : Op} (h : o.OnFiles) : o.SavesNothing := by
  refine ⟨fun state heq => ?_, fun ⟨_, _, heq⟩ => ?_⟩
  · rw [heq] at h
    exact h
  · rw [heq] at h
    exact h

theorem FileCalls.savesNothing {α : Type} {x : Sync α} (h : FileCalls x) : Fallible.Calls Op.SavesNothing x :=
  h.mono fun _ => savesNothing_onFiles

theorem savesNothing_loadRemoteManifest {head : RemoteHead} :
    Fallible.Calls Op.SavesNothing (loadRemoteManifest ws head) := by
  unfold loadRemoteManifest
  split
  · exact Fallible.Calls.pure _
  · exact Fallible.Calls.op_bind ⟨by rintro _ ⟨⟩, by rintro ⟨_, _, ⟨⟩⟩⟩ fun _ => Fallible.Calls.check _

theorem savesNothing_planSync : Fallible.Calls Op.SavesNothing (planSync ws) := by
  refine fileCalls_workingTreeStatus.savesNothing.bind fun a => Fallible.Calls.bind ?_ fun state => ?_
  · exact Fallible.Calls.op_bind ⟨by rintro _ ⟨⟩, by rintro ⟨_, _, ⟨⟩⟩⟩ fun _ => Fallible.Calls.pure _
  · refine Fallible.Calls.op_bind ⟨by rintro _ ⟨⟩, by rintro ⟨_, _, ⟨⟩⟩⟩ fun head => ?_
    exact savesNothing_loadRemoteManifest.bind fun remote => Fallible.Calls.check_bind fun _ => Fallible.Calls.pure _

theorem savesNothing_downloadManifestBlobs {available : BTreeSet String} :
    Fallible.Calls Op.SavesNothing (downloadManifestBlobs ws m available) := by
  refine Fallible.Calls.check_bind fun files => Fallible.Calls.foldlM fun blobs file _ => ?_
  unfold downloadFile
  split
  · exact Fallible.Calls.pure _
  · refine Fallible.Calls.bind (Fallible.Calls.foldlM fun contents id _ => ?_) fun contents =>
      Fallible.Calls.check_bind fun _ => Fallible.Calls.pure _
    refine Fallible.Calls.op_bind ⟨by rintro _ ⟨⟩, by rintro ⟨_, _, ⟨⟩⟩⟩
      fun bytes => Fallible.Calls.check_bind fun _ => ?_
    exact Fallible.Calls.check_bind fun _ => Fallible.Calls.check_bind fun _ => Fallible.Calls.pure _

theorem savesFor_saveSyncState {state : SyncState} (h : SameBase state p.state ∨
    (state.lastSyncedRevision = some p.head.revision ∧ state.lastSyncedManifest = some p.remote)) :
    Fallible.Calls (Op.SavesFor p) (perform (.saveSyncState state)) := by
  refine Fallible.Calls.op ⟨by rintro ⟨_, _, ⟨⟩⟩, fun state' heq => ?_⟩
  cases heq
  exact h

/-- Bringing everything together saves no other base. -/
theorem savesFor_reconcile : Fallible.Calls (Op.SavesFor p) (reconcile ws p) := by
  have hquiet {α : Type} {x : Sync α} (h : Fallible.Calls Op.SavesNothing x) : Fallible.Calls (Op.SavesFor p) x :=
    h.mono fun _ => Op.SavesNothing.savesFor
  refine Fallible.Calls.bind ?_ fun g => Fallible.Calls.check_bind fun out => Fallible.Calls.bind ?_ fun _ => ?_
  · refine Fallible.Calls.bind (savesFor_saveSyncState (.inl ⟨rfl, rfl⟩)) fun _ => ?_
    refine (hquiet fileCalls_stageAll.savesNothing).bind fun staged => Fallible.Calls.check_bind fun _ => ?_
    refine (hquiet fileCalls_localBlobBytes.savesNothing).bind fun locBlobs => ?_
    refine (hquiet fileCalls_localBlobBytes.savesNothing).bind fun baseBlobs => ?_
    exact (hquiet savesNothing_downloadManifestBlobs).bind fun _ => Fallible.Calls.pure _
  · refine (hquiet fileCalls_workingTreeStatus.savesNothing).bind fun a => Fallible.Calls.check_bind fun _ => ?_
    refine Fallible.Calls.bind (savesFor_saveSyncState (.inl ⟨rfl, rfl⟩)) fun _ => ?_
    exact hquiet fileCalls_applyPulledManifest.savesNothing
  · refine (hquiet fileCalls_stageAll.savesNothing).bind fun published => ?_
    exact Fallible.Calls.bind (savesFor_saveSyncState (.inr ⟨rfl, rfl⟩)) fun _ => Fallible.Calls.pure _

theorem savesFor_announce {result : Reconciliation} : Fallible.Calls (Op.SavesFor p) (announce p result) :=
  (savesFor_saveSyncState (.inr ⟨rfl, rfl⟩)).bind fun _ => savesFor_saveSyncState (.inr ⟨rfl, rfl⟩)

/-! ### Programs whose calls are faithful -/

variable (ws p) in
/-- What an attempt has planned from is what the server knows. -/
structure Grounded (r : Remote) : Prop where
  state : p.state.Based ws r
  base : ∃ k ≤ p.head.revision, ∃ m, Names ws r (r.headAt k) m ∧ p.base.Agree m
  reached : p.head.revision ≤ r.heads.length
  head : r.headAt p.head.revision = p.head
  names : Names ws r p.head p.remote

theorem Grounded.grows (h : Grounded ws p r) (hgrows : r.Grows r') : Grounded ws p r' := by
  obtain ⟨k, hk, m, hnames, hagree⟩ := h.base
  refine ⟨h.state.grows hgrows, ⟨k, hk, m, ?_, hagree⟩, h.reached.trans hgrows.heads.length_le, ?_,
    h.names.grows hgrows⟩
  · rw [headAt_grows hgrows (hk.trans h.reached)]
    exact hnames.grows hgrows
  · rw [headAt_grows hgrows h.reached]
    exact h.head

/-- What a sync has planned from has a base. -/
theorem PlannedFrom.grounded (h : PlannedFrom env ws w p t) (hplan : PlainPlan ws w p t)
    (hbase : w.device.syncState.Based ws w.remote) : Grounded ws p t.remote := by
  have hstate : p.state.Based ws w.remote := by
    rw [h.state]
    exact hbase
  refine ⟨hstate.grows h.meanwhile.remote.grows, ?_, hplan.reached, hplan.head, hplan.names⟩
  rw [h.base]
  cases hsynced : p.state.lastSyncedManifest with
  | none =>
    refine ⟨0, Nat.zero_le _, .new ws.workspaceId, ?_, .refl _⟩
    unfold Names Remote.headAt
    rw [List.take_zero]
    rfl
  | some base =>
    obtain ⟨k, _, hreached, m, hnames, hagree⟩ := hstate base hsynced
    refine ⟨k, hreached.trans hplan.since, m, ?_, hagree⟩
    rw [headAt_grows h.meanwhile.remote.grows hreached]
    exact hnames.grows h.meanwhile.remote.grows

/-- The manifest planned against, or one that agrees with it, is a base. -/
theorem Grounded.based (h : Grounded ws p r) (hagree : m.Agree p.remote)
    (hrevision : state.lastSyncedRevision = some p.head.revision) (hbase : state.lastSyncedManifest = some m) :
    state.Based ws r := by
  refine based_of_names h.reached ?_ hagree hrevision hbase
  rw [h.head]
  exact h.names

variable (env ws tree) in
/-- A program whose calls are faithful. -/
abbrev FaithfulCalls {α : Type} (x : Sync α) (w : World) (Q : α → World → Prop) : Prop :=
  Fallible.Guarded (semIntact env) (Op.Faithful ws tree) (fun _ => True) x w Q

theorem faithful_of_savesNothing {α : Type} {x : Sync α} {Q : α → World → Prop} (hx : Fallible.Calls Op.SavesNothing x)
    (h : Fallible.Runs (semIntact env) (fun _ => True) x w Q) : FaithfulCalls env ws tree x w Q :=
  guarded_of_calls (fun _ _ _ _ hcall => hcall) hx (fun _ t ho => ho.faithful t) h

theorem faithful_of_savesFor {α : Type} {x : Sync α} {Q : α → World → Prop} (hx : Fallible.Calls (Op.SavesFor p) x)
    (hgrounded : Grounded ws p w.remote) (h : Fallible.Runs (semIntact env) (fun _ => True) x w Q) :
    FaithfulCalls env ws tree x w fun a t => Q a t ∧ Grounded ws p t.remote := by
  have hcalls : Fallible.Guarded (semIntact env) (fun o _ => o.SavesFor p) (fun _ => True) x w Q :=
    guarded_of_calls (fun _ _ _ _ hcall => hcall) hx (fun _ _ ho => ho) h
  refine (hcalls.and_inv (J := fun t => Grounded ws p t.remote) (fun _ _ _ _ _ hcall h => h.grows (grows_sem hcall.1))
    hgrounded).mono_may fun o t ho => ?_
  obtain ⟨⟨hquiet, hsaves⟩, ht⟩ := ho
  refine ⟨fun state heq => ?_, fun expectedRevision id heq => absurd ⟨expectedRevision, id, heq⟩ hquiet⟩
  rcases hsaves state heq with hsame | ⟨hrevision, hbase⟩
  · exact ht.state.of_same hsame
  · exact ht.based (.refl _) hrevision hbase

theorem faithful_saveSyncState {P : World → Prop} (hbased : state.Based ws w.remote) (hP : P (w.setSyncState state)) :
    FaithfulCalls env ws tree (perform (.saveSyncState state)) w fun _ t => P t := by
  have hsave : Fallible.Runs (semIntact env) (fun _ => True) (perform (.saveSyncState state)) w fun _ t => P t := by
    refine (runs_intact (runs_saveSyncState trivial trivial)).weaken (fun _ h => h) fun _ t _ ht => ?_
    rw [ht]
    exact hP
  refine (Fallible.Guarded.and_runs (Q := fun _ _ => True) (Fallible.Guarded.op ?_ fun r x _ => by cases r <;> trivial)
    hsave).weaken (fun _ h => h) fun _ _ h => h.2
  refine ⟨fun state' heq => ?_, fun expectedRevision id heq => ?_⟩
  · cases heq
    exact hbased
  · cases heq

/-! ### Attempts -/

/-- What is published is a merge of what was scanned. -/
theorem PlainReconciled.merges {result : Reconciliation} (h : PlainReconciled env ws u p result w)
    (hplan : planReconciliation p.base p.loc p.remote = .ok p.plan) (hloc : p.loc.TreeShaped)
    (hremote : p.remote.TreeShaped) (hgrounded : Grounded ws p w.remote) :
    Merges ws w.remote p.head.revision p.loc result.out.conflicts result.published := by
  obtain ⟨blobs, hgenuine, hcombine⟩ := h.combine
  obtain ⟨copyOf, hcombined⟩ := combine_combined hloc hremote hplan hcombine
  refine ⟨p.base, p.remote, blobs, p.state.conflicts, copyOf, hgrounded.reached, hgrounded.base, ?_, hgenuine, _,
    h.published.agree_both h.combined, hcombined.reconciled⟩
  rw [hgrounded.head]
  exact hgrounded.names

theorem faithful_push {result : Reconciliation} (hideal : ws.Ideal) (hedits : ¬ env.edits)
    (hserver : env.server = HeadsAre ws PlainManifest) (hr : PlainReconciled env ws u p result w)
    (hcarries : Carries ws w.remote tree p.loc)
    (hmerges : Merges ws w.remote p.head.revision p.loc w.device.syncState.conflicts result.published) :
    FaithfulCalls env ws tree (pushWithExpectedHead ws p.head p.remote) w fun _ _ => True := by
  have hpush : Fallible.Guarded (semIntact env)
    (Op.PushesStaged env ws (fun _ => True) w p.head result.published p.remote)
      (fun _ => True) (pushWithExpectedHead ws p.head p.remote) w fun _ _ => True :=
    guarded_push (fun _ _ _ _ hcall => ⟨hcall, trivial⟩) hideal (HeadsAre.admits hserver) hr.staged hr.publishable
  refine (hpush.and_calls askCalls_push).mono_may fun o t ho => ⟨fun state heq => ?_, fun n id heq => ?_⟩
  · have hasks : o.Asks := ho.2
    rw [heq] at hasks
    exact hasks.elim
  · obtain ⟨rfl, _, hwaited, refs, hnamed, _⟩ := ho.1 n id heq
    have hgrows : w.remote.Grows t.remote := hwaited.remote.grows
    refine ⟨p.loc, _, hcarries.grows hgrows, ?_, hnamed, ?_⟩
    · rw [hwaited.syncState]
      exact (hmerges.grows hgrows).agree (agree_withRemoteRefs _ _).symm
    · rw [hwaited.device hedits]
      exact hr.published.agree (agree_withRemoteRefs _ _)

/-- The base that a sync records at its end. -/
theorem finalState_based {result : Reconciliation} {pushed : Option PushReport} {r : Remote} {n : ℕ}
    (hn : (pushed.map PushReport.updatedHeadRevision).getD p.head.revision = n) (hreached : n ≤ r.heads.length)
    (hnames : Names ws r (r.headAt n) m) (hagree : result.published.Agree m) :
    (finalState p result pushed).Based ws r :=
  based_of_names hreached hnames hagree (congrArg some hn) rfl

theorem faithful_finish {result : Reconciliation} {pushed : Option PushReport} {retryCount : ℕ}
    (hbased : (finalState p result pushed).Based ws w.remote) :
    FaithfulCalls env ws tree (finish p result pushed retryCount) w fun _ t =>
      t = w.setSyncState (finalState p result pushed) :=
  Fallible.Guarded.bind
    (faithful_saveSyncState (P := fun t => t = w.setSyncState (finalState p result pushed)) hbased rfl)
    fun _ _ h => Fallible.Guarded.pure h

theorem faithful_keepUnchanged (hgrounded : Grounded ws p w.remote)
    (hplan : planReconciliation p.base p.loc p.remote = .ok p.plan) (hchanges : (!p.plan.hasChanges) = true) :
    FaithfulCalls env ws tree (keepUnchanged ws p) w fun _ t => t.device.syncState.Based ws t.remote := by
  have hagree : p.loc.Agree p.remote := (hasChanges_iff_agree hplan).mp (by simpa using hchanges)
  refine Fallible.Guarded.bind (faithful_of_savesNothing fileCalls_stageAll.savesNothing
    (runs_intact (runs_stageAll (I := fun _ => True) fun _ _ => trivial))) fun staged t h => ?_
  refine Fallible.Guarded.check_bind (fun _ _ => trivial) fun _ hsame => ?_
  rw [ensureUnchanged_ok] at hsame
  have hbased {state : SyncState} (hrevision : state.lastSyncedRevision = some p.head.revision)
      (hbase : state.lastSyncedManifest = some staged) : state.Based ws t.remote := by
    rw [h.1.remote]
    exact hgrounded.based (hsame.symm.trans hagree) hrevision hbase
  exact faithful_saveSyncState (P := fun u => u.device.syncState.Based ws u.remote) (hbased rfl rfl) (hbased rfl rfl)

theorem faithful_attemptOnce (hideal : ws.Ideal) (hedits : ¬ env.edits)
    (hserver : env.server = HeadsAre ws PlainManifest) {again : Option (ℕ → Sync SyncReport)}
    {initialRevision : Option ℕ} {retryCount : ℕ} (hagain : ∀ next, again = some next → ∀ revision u, PlainWorld ws u →
      u.device.syncState.Based ws u.remote → CarriedTo ws u.remote tree u.device.tree →
        FaithfulCalls env ws tree (next revision) u fun _ t => t.device.syncState.Based ws t.remote)
    (hw : PlainWorld ws w) (hbase : w.device.syncState.Based ws w.remote)
    (hcarried : CarriedTo ws w.remote tree w.device.tree) :
    FaithfulCalls env ws tree (attemptOnce ws again .reconcile initialRevision retryCount) w fun _ t =>
      t.device.syncState.Based ws t.remote := by
  unfold attemptOnce
  rw [if_neg (by decide)]
  refine Fallible.Guarded.bind (faithful_of_savesNothing savesNothing_planSync
    (runs_intact (runs_planSync (I := fun _ => True) fun _ _ => trivial))) fun p t hp => ?_
  have hplan : PlainPlan ws w p t := hp.plain hedits hserver hw
  have ht : PlainWorld ws t := hw.meanwhile hedits hserver hp.meanwhile
  have hscan : scanDevice ws t.device = .ok p.loc := by
    rw [hp.meanwhile.device hedits]
    exact hp.loc hedits
  have hgrounded : Grounded ws p t.remote := hp.grounded hplan hbase
  have hcarries : Carries ws t.remote tree p.loc := (hcarried p.loc hplan.scanned).grows hp.meanwhile.remote.grows
  rw [if_neg (by decide)]
  by_cases hchanges : (!p.plan.hasChanges) = true
  · rw [if_pos hchanges]
    exact Fallible.Guarded.bind (faithful_keepUnchanged hgrounded hp.plan hchanges) fun _ _ h =>
      Fallible.Guarded.pure h
  rw [if_neg hchanges]
  refine Fallible.Guarded.bind (faithful_of_savesFor savesFor_reconcile hgrounded
    (plainOutcomes_reconcile hedits hserver ht hscan hplan.loc hplan.remote hp.plan).runs) fun result u h => ?_
  obtain ⟨hr, hu⟩ := h
  by_cases hpublish : p.requiresPublication = true
  · rw [if_pos hpublish]
    have hannounce : Fallible.Runs (semIntact env) (fun _ => True) (announce p result) u fun _ v =>
        PlainReconciled env ws t p result v ∧ SameBase v.device.syncState (p.withBase result.out) ∧
          v.device.syncState.conflicts = result.out.conflicts := by
      refine runs_intact (Fallible.Runs.bind (runs_saveSyncState trivial trivial) fun _ v _ hv => ?_)
      refine (runs_saveSyncState trivial trivial).weaken (fun _ h => h) fun _ x _ hx => ?_
      rw [hx, hv]
      exact ⟨(hr.setSyncState _).setSyncState _, ⟨rfl, rfl⟩, rfl⟩
    refine Fallible.Guarded.bind (faithful_of_savesFor savesFor_announce hu hannounce) fun _ v h => ?_
    obtain ⟨⟨hr, hsame, hconflicts⟩, hv⟩ := h
    have hlater : Carries ws v.remote tree p.loc := hcarries.grows hr.remote.grows
    have hmerges : Merges ws v.remote p.head.revision p.loc result.out.conflicts result.published :=
      hr.merges hp.plan hplan.loc.shaped hplan.remote.shaped hv
    have hpush : FaithfulCalls env ws tree (pushWithExpectedHead ws p.head p.remote) v fun report x =>
        (PlainWorld ws x ∧ report.updatedHeadRevision = p.head.revision + 1 ∧
          MirrorsHead ws x.device x.remote report.updatedHeadRevision) :=
      ((faithful_push hideal hedits hserver hr hlater (by rw [hconflicts]; exact hmerges)).and_runs
        (plainOutcomes_push hideal hedits hserver hr)).weaken
        (fun _ h => h) fun _ _ h => h.2
    have hruns : Fallible.Runs (semIntact env) (fun x => PlainWorld ws x ∧ v.remote.Grows x.remote)
        (pushWithExpectedHead ws p.head p.remote).attempt v fun _ x => PlainWorld ws x ∧ v.remote.Grows x.remote :=
      (plainOutcomes_push hideal hedits hserver hr).attempt.weaken (fun _ h => h) fun _ _ _ h => h.1
    have hdevice : Fallible.Runs (semIntact env) (fun x => x.device = v.device)
        (pushWithExpectedHead ws p.head p.remote).attempt v fun _ x => x.device = v.device :=
      (runs_intact (askCalls_push.runs hedits v)).attempt.weaken (fun _ h => h) fun _ _ _ h => h.1
    refine Fallible.Guarded.bind ((hpush.attempt.and_runs hruns).and_runs hdevice) fun pushed x h => ?_
    obtain ⟨⟨hend, hworld, hgrows⟩, hdevice⟩ := h
    have hx : Grounded ws p x.remote := hv.grows hgrows
    cases pushed with
    | ok report =>
      obtain ⟨_, hrevision, hreached, m, hnames, hmirrors⟩ := hend
      have hagree : result.published.Agree m := by
        rw [hdevice] at hmirrors
        exact hr.published.agree_both hmirrors
      have hbased : (finalState p result (some report)).Based ws x.remote := finalState_based rfl hreached hnames hagree
      refine (faithful_finish hbased).weaken (fun _ h => h) fun _ y hy => ?_
      rw [hy]
      exact hbased
    | error error =>
      dsimp only
      split
      · cases hnext : again with
        | some next =>
          refine hagain next hnext _ x hworld ?_ fun loc hloc => ?_
          · rw [hdevice]
            exact (hx.based (.refl _) rfl rfl).of_same hsame
          · rw [hdevice] at hloc
            exact .merged (hlater.grows hgrows) ((hmerges.grows hgrows).agree (hloc.agree_both hr.published))
        | none =>
          refine Fallible.Guarded.bind (P := fun _ _ => True) ?_ fun _ _ _ => Fallible.Guarded.throw trivial
          exact faithful_of_savesNothing (Fallible.Calls.op ⟨by rintro _ ⟨⟩, by rintro ⟨_, _, ⟨⟩⟩⟩) Fallible.Runs.any
      · exact Fallible.Guarded.throw trivial
  · rw [if_neg hpublish]
    have hagree : result.published.Agree p.remote :=
      hr.published.agree_both (hr.unpublished hp.plan hpublish)
    have hbased : (finalState p result none).Based ws u.remote := hu.based hagree rfl rfl
    refine (faithful_finish hbased).weaken (fun _ h => h) fun _ x hx => ?_
    rw [hx]
    exact hbased

theorem faithful_syncAttempt (hideal : ws.Ideal) (hedits : ¬ env.edits)
    (hserver : env.server = HeadsAre ws PlainManifest) : ∀ (retries : ℕ) (initialRevision : Option ℕ) (retryCount : ℕ)
      {w : World}, PlainWorld ws w → w.device.syncState.Based ws w.remote → CarriedTo ws w.remote tree w.device.tree →
      FaithfulCalls env ws tree (syncAttempt ws .reconcile initialRevision retryCount retries) w fun _ t =>
        t.device.syncState.Based ws t.remote
  | 0, _, _, _, hw, hbase, hcarried => faithful_attemptOnce hideal hedits hserver nofun hw hbase hcarried
  | retries + 1, _, retryCount, _, hw, hbase, hcarried => by
    refine faithful_attemptOnce hideal hedits hserver
      (fun next hnext revision u hu hubase hucarried => ?_) hw hbase hcarried
    obtain rfl := Option.some.inj hnext
    exact faithful_syncAttempt hideal hedits hserver retries (some revision) (retryCount + 1) hu hubase hucarried

theorem savesNothing_pull : Fallible.Calls Op.SavesNothing (pullWithMode ws .force) := by
  unfold pullWithMode
  rw [if_neg (by decide)]
  refine fileCalls_workingTreeStatus.savesNothing.bind fun _ =>
    Fallible.Calls.op_bind ⟨by rintro _ ⟨⟩, by rintro ⟨_, _, ⟨⟩⟩⟩ fun head => ?_
  split
  · exact fileCalls_applyPulledManifest.savesNothing.bind fun _ => Fallible.Calls.pure _
  · refine savesNothing_loadRemoteManifest.bind fun m => savesNothing_downloadManifestBlobs.bind fun blobs => ?_
    refine fileCalls_workingTreeStatus.savesNothing.bind fun _ => Fallible.Calls.check_bind fun _ => ?_
    exact fileCalls_applyPulledManifest.savesNothing.bind fun _ => Fallible.Calls.pure _

theorem faithful_discardLocal (hedits : ¬ env.edits) (hserver : env.server = HeadsAre ws PlainManifest)
    (hw : PlainWorld ws w) : FaithfulCalls env ws tree (discardLocal ws) w fun _ t =>
      t.device.syncState.Based ws t.remote := by
  refine Fallible.Guarded.bind (faithful_of_savesNothing savesNothing_pull (plainOutcomes_pull hedits hserver hw).runs)
    fun pulled t h => ?_
  obtain ⟨_, _, ⟨hreached, _⟩, m, hnames, hstaged⟩ := h
  refine Fallible.Guarded.bind (faithful_of_savesNothing ?_ (runs_intact (runs_loadSyncState (I := fun _ => True)
    fun _ _ => trivial))) fun state u h => ?_
  · exact Fallible.Calls.op_bind ⟨by rintro _ ⟨⟩, by rintro ⟨_, _, ⟨⟩⟩⟩ fun _ => Fallible.Calls.pure _
  obtain rfl : u = t := h.1.eq hedits
  refine Fallible.Guarded.bind (faithful_of_savesNothing ?_ (runs_intact (runs_loadStagedManifest (I := fun _ => True)
    fun _ _ => trivial))) fun staged v h => ?_
  · exact Fallible.Calls.op_bind ⟨by rintro _ ⟨⟩, by rintro ⟨_, _, ⟨⟩⟩⟩ fun _ => Fallible.Calls.check_bind fun _ =>
      Fallible.Calls.check _
  obtain ⟨hlooked, hsame, _⟩ := h
  obtain rfl : v = u := hlooked.eq hedits
  obtain rfl : m = staged := Option.some.inj (hstaged.symm.trans hsame)
  have hbased {state : SyncState} (hrevision : state.lastSyncedRevision = some pulled.remoteHeadRevision)
      (hbase : state.lastSyncedManifest = some m) : state.Based ws v.remote :=
    based_of_names hreached hnames (.refl m) hrevision hbase
  exact Fallible.Guarded.bind
    (faithful_saveSyncState (P := fun x => x.device.syncState.Based ws x.remote) (hbased rfl rfl)
    (hbased rfl rfl)) fun _ _ h => Fallible.Guarded.pure h

/-- **What a sync records and publishes.** At every call: a base that is saved is
what the head named at the revision saved with it, and the head is moved only to
a merge of what was in the tree as the sync started with what it replaces. -/
theorem faithful_sync (hideal : ws.Ideal) (hedits : ¬ env.edits) (hserver : env.server = HeadsAre ws PlainManifest)
    (mode : SyncMode) (hw : PlainWorld ws w) (hbase : w.device.syncState.Based ws w.remote) :
    FaithfulCalls env ws w.device.tree (sync ws mode) w fun _ t => t.device.syncState.Based ws t.remote := by
  cases mode with
  | reconcile => exact faithful_syncAttempt hideal hedits hserver 1 none 0 hw hbase fun _ hloc => .scanned hloc
  | discardLocal =>
    rw [sync_eq]
    unfold attemptOnce
    rw [if_pos rfl]
    exact faithful_discardLocal hedits hserver hw
  | dryRun =>
    rw [sync_eq]
    unfold attemptOnce
    rw [if_neg (by decide)]
    refine Fallible.Guarded.bind (faithful_of_savesNothing savesNothing_planSync
      (runs_intact (runs_planSync (I := fun _ => True) fun _ _ => trivial))) fun p t hp => ?_
    rw [if_pos rfl]
    refine Fallible.Guarded.pure ?_
    rw [hp.meanwhile.syncState]
    exact hbase.grows hp.meanwhile.remote.grows

end Records

end RustSync
