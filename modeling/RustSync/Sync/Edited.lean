/-
Edits while a device syncs

The user may edit the tree of a device before any call that a sync makes, so at
every moment but while a scan reads the tree (`semEdited`). A part of a sync
that does not work on single files of the tree cannot tell: but for the tree it
does what it does where edits are seen by scans only (`Fallible.Guarded.edited`).
So a sync keeps what the head has named pullable whatever is edited meanwhile
(`editedPullable_syncAttempt`), and no object that it uploads is longer than objects may
be (`sizedCalls_syncAttempt`).

Key definitions: `Op.OffTree`, `semEdited`, `Op.Sized`. Key theorems:
`editedPullable_syncAttempt`, `sizedCalls_syncAttempt`.
-/
import RustSync.Sync.Pullable

namespace RustSync

section Edited

variable {env : Setting} {ws : Workspace} {α : Type} {x : Sync α} {w t : World} {tree : WorkingTree}
  {may : Op → World → Prop} {Q : α → World → Prop} {m : Manifest} {head : RemoteHead}

/-! ### Calls beside edits -/

/-- A call that is not on single files of the tree. -/
def Op.OffTree : Op → Prop
  | .metadata _ | .list _ | .createDir _ | .remove _ | .writeTemp .. | .rename .. | .discardTemp _ => False
  | _ => True

variable (env ws) in
/-- The user may have edited the tree before the call, and does not during it. -/
def semEdited (o : Op) (w : World) (r : SyncResult o.Val) (w' : World) : Prop :=
  ∃ tree, semDistinct env ws o (w.setTree tree) r w'

/-- Off the tree a call does what it does where only scans see edits. -/
theorem sem_offTree {o : Op} {r : SyncResult o.Val} (hedits : env.edits) (ho : o.OffTree)
    (h : sem env o (w.setTree tree) r t) : ∃ t', sem env o w r t' ∧ ∃ tree', t = t'.setTree tree' := by
  have hdisk {r : SyncResult o.Val} {s : Prop} {step : World → Prop} (h : onDisk env (w.setTree tree) r t s)
      (hstep : s → ∃ t', step t' ∧ ∃ tree', t = t'.setTree tree') :
      ∃ t', onDisk env w r t' (step t') ∧ ∃ tree', t = t'.setTree tree' := by
    rcases h with h | ⟨hfails, hr, rfl⟩
    · obtain ⟨t', ht', hsame⟩ := hstep h
      exact ⟨t', .inl ht', hsame⟩
    · exact ⟨w, .inr ⟨hfails, hr, rfl⟩, tree, rfl⟩
  have hserver {r : SyncResult o.Val} (serve : Remote → SyncResult o.Val → Remote → Prop)
      (h : atServer env (w.setTree tree) r t serve) :
      ∃ t', atServer env w r t' serve ∧ ∃ tree', t = t'.setTree tree' := by
    obtain ⟨now, hnow, hdevice, hserves⟩ := h
    refine ⟨w.setRemote t.remote, ⟨now, hnow, rfl, hserves⟩, tree, ?_⟩
    cases t
    cases hdevice
    rfl
  cases o with
  | read =>
    refine hdisk h fun hstep => ?_
    obtain ⟨tree', listing, _, hperm, rfl, rfl⟩ := hstep
    exact ⟨_, ⟨tree', listing, .inr hedits, hperm, rfl, rfl⟩, tree', rfl⟩
  | cachedBlob contentHash =>
    refine hdisk h fun hstep => ?_
    exact ⟨w, ⟨hstep.1, rfl⟩, tree, hstep.2⟩
  | writeBlob contentHash bytes =>
    refine hdisk h fun hstep => ?_
    exact ⟨_, ⟨hstep.1, rfl⟩, tree, hstep.2⟩
  | saveManifest manifest =>
    refine hdisk h fun hstep => ?_
    exact ⟨_, ⟨hstep.1, rfl⟩, tree, hstep.2⟩
  | saveSyncState state =>
    refine hdisk h fun hstep => ?_
    exact ⟨_, ⟨hstep.1, rfl⟩, tree, hstep.2⟩
  | nonce => exact ⟨w, ⟨h.1, rfl⟩, tree, h.2⟩
  | fetchWorkspaceHead => exact hserver (fun now r now' => r = .ok now.head ∧ now' = now) h
  | downloadManifest id => exact hserver _ h
  | downloadBlob id => exact hserver _ h
  | uploadBlob id bytes => exact hserver _ h
  | uploadManifest id bytes => exact hserver _ h
  | updateWorkspaceHead expectedRevision id => exact hserver _ h
  | _ => exact ho.elim

/-- A program off the tree does what it does where only scans see edits, but for
the tree. -/
theorem guarded_edited (hedits : env.edits) (hx : Fallible.Calls Op.OffTree x)
    (h : Fallible.Guarded (semDistinct env ws) may (fun _ => True) x w Q) :
    Fallible.Guarded (semEdited env ws) (fun o t => ∃ tree, may o (t.setTree tree)) (fun _ => True) x w
      fun a t => ∃ tree, Q a (t.setTree tree) := by
  have hview (o : Op) (u v : World) (r : SyncResult o.Val) (v' : World) (ho : o.OffTree)
      (huv : ∃ tree, v = u.setTree tree) (hcall : semEdited env ws o v r v') :
      ∃ u', semDistinct env ws o u r u' ∧ ∃ tree, v' = u'.setTree tree := by
    obtain ⟨_, rfl⟩ := huv
    obtain ⟨tree, ⟨hsem, hintact⟩, hdistinct⟩ := hcall
    obtain ⟨u', hsem', tree', rfl⟩ := sem_offTree (w := u) hedits ho hsem
    exact ⟨u', ⟨⟨hsem', hintact⟩, hdistinct⟩, tree', rfl⟩
  have hthrough := Prog.Guarded.through (S := Signature.fallible Op.Val SyncError) hview hx h
    (⟨w.device.tree, rfl⟩ : ∃ tree, w = w.setTree tree)
  refine Prog.Guarded.weaken (Prog.Guarded.mono_may hthrough fun o t ht => ?_) fun r t ht => ?_
  · obtain ⟨u, ⟨tree, rfl⟩, hmay⟩ := ht
    exact ⟨u.device.tree, hmay⟩
  · obtain ⟨u, ⟨tree, rfl⟩, hQ⟩ := ht
    cases r with
    | ok a => exact ⟨u.device.tree, hQ⟩
    | error e => trivial

/-! ### Programs off the tree -/

theorem offTree_stageAll : Fallible.Calls Op.OffTree (stageAll ws) := by
  refine Fallible.Calls.op_bind trivial fun a => Fallible.Calls.check_bind
    fun _ => Fallible.Calls.check_bind fun next => ?_
  refine Fallible.Calls.bind (Fallible.Calls.forM fun item _ => ?_) fun _ =>
    Fallible.Calls.op_bind trivial fun _ => Fallible.Calls.pure _
  obtain ⟨path, entry⟩ := item
  cases entry with
  | directory => exact Fallible.Calls.pure _
  | file file =>
    refine Fallible.Calls.bind (Fallible.Calls.op_bind trivial fun _ => Fallible.Calls.pure _) fun cached => ?_
    split
    · exact Fallible.Calls.pure _
    · split
      · exact Fallible.Calls.op trivial
      · exact Fallible.Calls.throw _

theorem offTree_planSync : Fallible.Calls Op.OffTree (planSync ws) := by
  refine Fallible.Calls.bind ?_ fun a => Fallible.Calls.bind ?_ fun state => ?_
  · exact Fallible.Calls.op_bind trivial fun _ => Fallible.Calls.check_bind fun _ => Fallible.Calls.check_bind
      fun _ => Fallible.Calls.pure _
  · exact Fallible.Calls.op_bind trivial fun _ => Fallible.Calls.pure _
  · refine Fallible.Calls.op_bind trivial fun head => Fallible.Calls.bind ?_ fun remote =>
      Fallible.Calls.check_bind fun _ => Fallible.Calls.pure _
    unfold loadRemoteManifest
    split
    · exact Fallible.Calls.pure _
    · exact Fallible.Calls.op_bind trivial fun _ => Fallible.Calls.check _

/-! ### What is uploaded -/

/-- What the call uploads is no longer than objects may be. -/
def Op.Sized : Op → Prop
  | .uploadBlob _ bytes | .uploadManifest _ bytes => bytes.length ≤ maxEncryptedObjectBytes
  | _ => True

theorem SilentCalls.sized (h : SilentCalls x) : Fallible.Calls Op.Sized x := by
  refine Fallible.Calls.mono (fun o ho => ?_) h
  cases o with
  | uploadBlob | uploadManifest => exact ho.elim
  | _ => trivial

theorem sealed_sized {nonce plaintext bytes : Bytes}
    (h : (ws.sealing.sealBytes nonce plaintext).mapError SyncError.sealing = .ok bytes) :
    bytes.length ≤ maxEncryptedObjectBytes := by
  obtain ⟨object, _, hframe⟩ := Except.bind_ok.mp (Except.mapError_ok.mp h)
  exact (toBinaryBytes_ok.mp (Except.mapError_ok.mp hframe)).size

theorem pushCalls_uploadStaged {chunkSize : ℕ} {refs : BTreeMap String (List BlobId)} {blob : StagedBlob} :
    Fallible.Calls (fun o => o.OffTree ∧ o.Sized) (uploadStaged ws chunkSize refs blob) := by
  unfold uploadStaged
  split
  · exact Fallible.Calls.pure _
  · refine Fallible.Calls.bind (Fallible.Calls.foldlM fun ids chunk _ => ?_) fun ids => Fallible.Calls.pure _
    refine Fallible.Calls.op_bind ⟨trivial, trivial⟩ fun nonce => Fallible.Calls.checked_bind fun bytes hseal => ?_
    refine Fallible.Calls.check_bind fun id => Fallible.Calls.op_bind ⟨trivial, ?_⟩ fun _ => Fallible.Calls.pure _
    exact sealed_sized hseal

theorem pushCalls_push {previous : Manifest} :
    Fallible.Calls (fun o => o.OffTree ∧ o.Sized) (pushWithExpectedHead ws head previous) := by
  refine Fallible.Calls.bind ?_ fun manifest => Fallible.Calls.check_bind fun previous => ?_
  · exact Fallible.Calls.op_bind ⟨trivial, trivial⟩ fun _ => Fallible.Calls.check_bind fun _ => Fallible.Calls.check _
  · refine Fallible.Calls.op_bind ⟨trivial, trivial⟩ fun nonce => Fallible.Calls.check_bind fun frame => ?_
    refine Fallible.Calls.check_bind fun chunkSize => Fallible.Calls.bind ?_ fun blobs => ?_
    · exact Fallible.Calls.op_bind ⟨trivial, trivial⟩ fun _ => Fallible.Calls.check _
    · refine Fallible.Calls.bind (Fallible.Calls.foldlM fun _ _ _ => pushCalls_uploadStaged) fun remoteBlobIds => ?_
      refine Fallible.Calls.check_bind fun bytes => Fallible.Calls.op_bind ⟨trivial, trivial⟩ fun nonce => ?_
      refine Fallible.Calls.checked_bind fun sealed hseal => Fallible.Calls.check_bind fun manifestId => ?_
      refine Fallible.Calls.op_bind ⟨trivial, sealed_sized hseal⟩ fun _ => ?_
      exact Fallible.Calls.op_bind ⟨trivial, trivial⟩ fun _ => Fallible.Calls.pure _

theorem sizedCalls_attemptOnce {again : Option (ℕ → Sync SyncReport)} {mode : SyncMode} {initialRevision : Option ℕ}
    {retryCount : ℕ} (hagain : ∀ next, again = some next → ∀ revision, Fallible.Calls Op.Sized (next revision)) :
    Fallible.Calls Op.Sized (attemptOnce ws again mode initialRevision retryCount) := by
  unfold attemptOnce
  split
  · exact silentCalls_discardLocal.sized
  · refine silentCalls_planSync.sized.bind fun p => ?_
    split
    · exact Fallible.Calls.pure _
    · split
      · exact silentCalls_keepUnchanged.sized.bind fun _ => Fallible.Calls.pure _
      · refine silentCalls_reconcile.sized.bind fun r => ?_
        split
        · refine silentCalls_announce.sized.bind fun _ => ?_
          refine Fallible.Calls.bind (pushCalls_push.mono fun o ho => ho.2).attempt fun pushed => ?_
          split
          · exact silentCalls_finish.sized
          · split
            · split
              · exact hagain _ rfl _
              · exact Fallible.Calls.op_bind trivial fun _ => Fallible.Calls.throw _
            · exact Fallible.Calls.throw _
        · exact silentCalls_finish.sized

/-- **No upload of a sync is too long.** -/
theorem sizedCalls_syncAttempt : ∀ (retries : ℕ) (mode : SyncMode) (initialRevision : Option ℕ) (retryCount : ℕ),
    Fallible.Calls Op.Sized (syncAttempt ws mode initialRevision retryCount retries)
  | 0, _, _, _ => sizedCalls_attemptOnce fun next hnext => by cases hnext
  | retries + 1, _, _, retryCount => by
    refine sizedCalls_attemptOnce fun next hnext revision => ?_
    obtain rfl := Option.some.inj hnext
    exact sizedCalls_syncAttempt retries .reconcile (some revision) (retryCount + 1)

/-! ### What is published -/

variable (env ws) in
/-- A program that keeps what the head has named pullable, whatever is edited. -/
abbrev EditedPullable (x : Sync α) (w : World) (Q : α → World → Prop) : Prop :=
  Fallible.Guarded (semEdited env ws) (Op.NamesPullable ws) (fun _ => True) x w Q

theorem PublishesPullable.edited (hedits : env.edits) (hx : Fallible.Calls Op.OffTree x)
    (h : PublishesPullable env ws x w Q) : EditedPullable env ws x w fun a t => ∃ tree, Q a (t.setTree tree) :=
  (guarded_edited hedits hx h).mono_may fun _ _ hmay => hmay.elim fun _ hmay => hmay

theorem SilentCalls.editedPullable (h : SilentCalls x) : EditedPullable env ws x w fun _ _ => True :=
  (Fallible.Calls.guarded h w).mono_may fun o _ ho expectedRevision id heq => by
    subst heq
    exact ho.elim

/-- Wherever such a program is, what the head has named can be pulled. -/
theorem EditedPullable.kept (hserver : env.server = HeadsPullable ws) (h : EditedPullable env ws x w Q)
    (hw : HeadsPullable ws w.remote) :
    Fallible.Runs (semEdited env ws) (fun t => HeadsPullable ws t.remote ∧ w.remote.Grows t.remote) x w
      fun _ t => HeadsPullable ws t.remote ∧ w.remote.Grows t.remote := by
  refine h.runs (fun o u r u' hmay hcall hu => ?_) ⟨hw, .refl _⟩
  obtain ⟨tree, ⟨hsem, _⟩, _⟩ := hcall
  have hmay' : o.NamesPullable ws (u.setTree tree) := hmay
  have hgrows : (u.setTree tree).remote.Grows u'.remote := grows_sem hsem
  exact ⟨headsPullable_call hserver hmay' hsem hu.1, hu.2.trans hgrows⟩

theorem editedPullable_save {state : SyncState} : EditedPullable env ws (perform (.saveSyncState state)) w
    fun _ t => t.device.staged = w.device.staged ∧ t.remote = w.remote := by
  refine Fallible.Guarded.op (by rintro _ _ ⟨⟩) fun r t hcall => ?_
  obtain ⟨tree, ⟨hsem, _⟩, _⟩ := hcall
  cases r with
  | error e => trivial
  | ok a =>
    rcases hsem with ⟨_, rfl⟩ | ⟨_, _, rfl⟩
    · exact ⟨rfl, rfl⟩
    · exact ⟨rfl, rfl⟩

/-- What is staged last is what is pushed. -/
theorem editedPullable_reconcile (hedits : env.edits) {p : Planned} :
    EditedPullable env ws (reconcile ws p) w fun r t =>
      t.device.staged = some r.published ∧ Publishable ws r.published := by
  refine Fallible.Guarded.bind silentCalls_gather.editedPullable fun g _ _ => ?_
  refine Fallible.Guarded.check_bind (fun _ _ => trivial) fun out _ => ?_
  refine Fallible.Guarded.bind silentCalls_applyCombined.editedPullable fun _ t _ => ?_
  have hstages : PublishesPullable env ws (stageAll ws) t fun published u =>
      u.device.staged = some published ∧ Publishable ws published := by
    refine QuietCalls.publishesPullable (FileCalls.silent fileCalls_stageAll).quiet (runs_intact ?_)
    exact (runs_stageAll fun _ _ => trivial).weaken (fun _ h => h) fun _ _ _ h => ⟨h.2.1, scan_publishable h.2.2.1⟩
  refine Fallible.Guarded.bind (hstages.edited hedits offTree_stageAll) fun published u h => ?_
  obtain ⟨_, hstaged, hpublishable⟩ := h
  refine Fallible.Guarded.bind editedPullable_save fun _ v hv => Fallible.Guarded.pure ⟨?_, hpublishable⟩
  exact hv.1.trans hstaged

theorem editedPullable_attemptOnce (hideal : ws.Ideal) (hedits : env.edits) (hserver : env.server = HeadsPullable ws)
    {again : Option (ℕ → Sync SyncReport)} {mode : SyncMode} {initialRevision : Option ℕ} {retryCount : ℕ}
    (hagain : ∀ next, again = some next → ∀ revision u, HeadsPullable ws u.remote →
      EditedPullable env ws (next revision) u fun _ _ => True) (hw : HeadsPullable ws w.remote) :
    EditedPullable env ws (attemptOnce ws again mode initialRevision retryCount) w fun _ _ => True := by
  unfold attemptOnce
  by_cases hdiscard : mode = .discardLocal
  · rw [if_pos hdiscard]
    exact silentCalls_discardLocal.editedPullable
  rw [if_neg hdiscard]
  have hplans : EditedPullable env ws (planSync ws) w fun p t => ∃ tree, PlannedFrom env ws w p (t.setTree tree) :=
    (silentCalls_planSync.quiet.publishesPullable (runs_intact (runs_planSync (I := fun _ => True)
      fun _ _ => trivial))).edited hedits offTree_planSync
  refine Fallible.Guarded.bind (hplans.and_runs (hplans.kept hserver hw)) fun p t h => ?_
  obtain ⟨⟨_, hp⟩, ht, _⟩ := h
  by_cases hdry : mode = .dryRun
  · rw [if_pos hdry]
    exact Fallible.Guarded.pure trivial
  rw [if_neg hdry]
  by_cases hchanges : (!p.plan.hasChanges) = true
  · rw [if_pos hchanges]
    exact SilentCalls.editedPullable (Fallible.Calls.bind silentCalls_keepUnchanged fun _ => Fallible.Calls.pure _)
  rw [if_neg hchanges]
  have hreconciles : EditedPullable env ws (reconcile ws p) t fun r u =>
      u.device.staged = some r.published ∧ Publishable ws r.published := editedPullable_reconcile hedits
  refine Fallible.Guarded.bind (hreconciles.and_runs (hreconciles.kept hserver ht)) fun r u h => ?_
  obtain ⟨⟨hstaged, hpublishable⟩, hu, hgrows⟩ := h
  by_cases hpublish : p.requiresPublication = true
  · rw [if_pos hpublish]
    refine Fallible.Guarded.bind (P := fun _ v => v.device.staged = u.device.staged ∧ v.remote = u.remote) ?_
      fun _ v h => ?_
    · refine Fallible.Guarded.bind editedPullable_save fun _ v hv => ?_
      refine editedPullable_save.weaken (fun _ h => h) fun _ x hx => ?_
      exact ⟨hx.1.trans hv.1, hx.2.trans hv.2⟩
    obtain ⟨hsame, hremote⟩ := h
    rw [← hremote] at hu hgrows
    obtain ⟨now, hnow, hlast, hhead⟩ := hp.head
    have hpushes : EditedPullable env ws (pushWithExpectedHead ws p.head p.remote) v fun _ _ => True :=
      ((publishesPullable_push hideal hserver (hsame.trans hstaged) hpublishable
        (hu.referred (hlast.grows.trans hgrows) hhead (hp.remote.grows hgrows))).edited hedits
          (pushCalls_push.mono fun o ho => ho.1)).weaken (fun _ h => h) fun _ _ _ => trivial
    refine Fallible.Guarded.bind (hpushes.attempt.and_runs (hpushes.kept hserver hu).attempt) fun pushed x h => ?_
    have hx : HeadsPullable ws x.remote := h.2.1.1
    cases pushed with
    | ok report => exact silentCalls_finish.editedPullable
    | error error =>
      dsimp only
      split
      · cases hnext : again with
        | some next => exact hagain next hnext _ x hx
        | none =>
          have hsilent : Op.Silent .fetchWorkspaceHead := trivial
          exact SilentCalls.editedPullable (Fallible.Calls.op_bind hsilent fun _ => Fallible.Calls.throw _)
      · exact Fallible.Guarded.throw trivial
  · rw [if_neg hpublish]
    exact silentCalls_finish.editedPullable

/-- **A sync keeps what the head has named pullable**, whatever is edited. -/
theorem editedPullable_syncAttempt (hideal : ws.Ideal) (hedits : env.edits) (hserver : env.server = HeadsPullable ws) :
    ∀ (retries : ℕ) (mode : SyncMode) (initialRevision : Option ℕ) (retryCount : ℕ) {w : World},
      HeadsPullable ws w.remote →
        EditedPullable env ws (syncAttempt ws mode initialRevision retryCount retries) w fun _ _ => True
  | 0, _, _, _, _, hw => editedPullable_attemptOnce hideal hedits hserver (fun next hnext => by cases hnext) hw
  | retries + 1, _, _, retryCount, _, hw => by
    refine editedPullable_attemptOnce hideal hedits hserver (fun next hnext revision u hu => ?_) hw
    obtain rfl := Option.some.inj hnext
    exact editedPullable_syncAttempt hideal hedits hserver retries .reconcile (some revision) (retryCount + 1) hu

end Edited

end RustSync
