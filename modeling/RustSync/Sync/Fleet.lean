/-
A fleet of devices

Any number of devices sync with one server, in any mode; their calls
interleave, requests may fail, and a user may edit the tree of a device that
does not sync (`Fleet.Step`). What holds of every run of a device alone holds of
each device in every interleaving: an idle device whose last sync succeeded has
the tree that the head named at the revision it reported (`fleet_agrees`), and
where all have reconciled the head stays, and each that reconciles again follows
it (`fleet_converges`).

Key definitions: `Fleet`, `Fleet.Step`. Key theorems: `fleet_agrees`,
`fleet_converges`.
-/
import RustSync.Lib.Parties
import RustSync.Sync.Convergence

namespace RustSync

/-! ### Calls, seen from an earlier moment of the server -/

section Earlier

variable {env env' : Setting} {d d' : Device} {s s' s₀ : Remote}

/-- What a setting allows another allows as well, from an earlier moment of the
server. -/
structure Setting.Within (env env' : Setting) (s s₀ : Remote) : Prop where
  edits : env.edits → env'.edits
  diskFails : env.diskFails → env'.diskFails
  remoteFails : env.remoteFails → env'.remoteFails
  later : ∀ now, Remote.Later env s now → Remote.Later env' s₀ now

theorem onDisk_earlier {α : Type} {r : SyncResult α} {step step' : Prop} (h : env.Within env' s s₀)
    (hcall : onDisk env ⟨d, s⟩ r ⟨d', s'⟩ step) (hstep : step → step' ∧ s' = s) :
    onDisk env' ⟨d, s₀⟩ r ⟨d', s₀⟩ step' ∧ s' = s := by
  rcases hcall with hdone | ⟨hfails, herror, heq⟩
  · exact ⟨.inl (hstep hdone).1, (hstep hdone).2⟩
  · cases heq
    exact ⟨.inr ⟨h.diskFails hfails, herror, rfl⟩, rfl⟩

theorem changesTree_earlier {r : SyncResult Unit} {f : WorkingTree → Option WorkingTree} (h : env.Within env' s s₀)
    (hcall : changesTree env ⟨d, s⟩ r ⟨d', s'⟩ f) : changesTree env' ⟨d, s₀⟩ r ⟨d', s₀⟩ f ∧ s' = s := by
  refine onDisk_earlier h hcall fun hdone => ?_
  dsimp only at hdone ⊢
  cases htree : f d.tree with
  | none =>
    rw [htree] at hdone
    obtain ⟨herror, heq⟩ := hdone
    cases heq
    exact ⟨⟨herror, rfl⟩, rfl⟩
  | some tree =>
    rw [htree] at hdone
    obtain ⟨hok, heq⟩ := hdone
    cases heq
    exact ⟨⟨hok, rfl⟩, rfl⟩

theorem atServer_earlier {α : Type} {r : SyncResult α} {f : Remote → SyncResult α → Remote → Prop}
    (h : env.Within env' s s₀) (hcall : atServer env ⟨d, s⟩ r ⟨d', s'⟩ f) : atServer env' ⟨d, s₀⟩ r ⟨d', s'⟩ f := by
  obtain ⟨now, hnow, hdevice, hserved⟩ := hcall
  refine ⟨now, h.later now hnow, hdevice, hserved.imp id ?_⟩
  rintro ⟨hfails, herror, hafter⟩
  exact ⟨h.remoteFails hfails, herror, hafter⟩

/-- A call seen from an earlier moment: what it leaves of the server is either
what is seen or, for a call on the device, not looked at. -/
theorem sem_earlier {o : Op} {r : SyncResult o.Val} (h : env.Within env' s s₀)
    (hcall : sem env o ⟨d, s⟩ r ⟨d', s'⟩) : ∃ seen, sem env' o ⟨d, s₀⟩ r ⟨d', seen⟩ ∧
      (seen = s' ∨ (seen = s₀ ∧ s' = s ∧ ∀ r : Remote, o.Intact r)) := by
  have hlocal (hdone : sem env' o ⟨d, s₀⟩ r ⟨d', s₀⟩ ∧ s' = s) (hintact : ∀ r : Remote, o.Intact r) :
      ∃ seen, sem env' o ⟨d, s₀⟩ r ⟨d', seen⟩ ∧ (seen = s' ∨ (seen = s₀ ∧ s' = s ∧ ∀ r : Remote, o.Intact r)) :=
    ⟨s₀, hdone.1, .inr ⟨rfl, hdone.2, hintact⟩⟩
  cases o with
  | read =>
    refine hlocal (onDisk_earlier h hcall ?_) fun _ => trivial
    rintro ⟨tree, listing, htree, hperm, heq, hr⟩
    cases heq
    exact ⟨⟨tree, listing, htree.imp id h.edits, hperm, rfl, hr⟩, rfl⟩
  | metadata path =>
    refine hlocal (onDisk_earlier h hcall ?_) fun _ => trivial
    rintro ⟨hr, heq⟩
    cases heq
    exact ⟨⟨hr, rfl⟩, rfl⟩
  | cachedBlob contentHash =>
    refine hlocal (onDisk_earlier h hcall ?_) fun _ => trivial
    rintro ⟨hr, heq⟩
    cases heq
    exact ⟨⟨hr, rfl⟩, rfl⟩
  | list path =>
    refine hlocal (onDisk_earlier h hcall ?_) fun _ => trivial
    rintro ⟨listing, ⟨hmem, horder⟩, hr, heq⟩
    cases heq
    exact ⟨⟨listing, ⟨hmem, horder⟩, hr, rfl⟩, rfl⟩
  | createDir path =>
    exact hlocal (changesTree_earlier (f := fun tree => createDirIn tree path) h hcall) fun _ => trivial
  | remove path =>
    refine hlocal (onDisk_earlier h hcall fun hdone => ?_) fun _ => trivial
    unfold removeStep at hdone ⊢
    dsimp only at hdone ⊢
    split at hdone
    · obtain ⟨herror, heq⟩ := hdone
      cases heq
      exact ⟨⟨herror, rfl⟩, rfl⟩
    · obtain ⟨hr, heq⟩ := hdone
      cases heq
      exact ⟨⟨hr, rfl⟩, rfl⟩
    · obtain ⟨hr, heq⟩ := hdone
      cases heq
      exact ⟨⟨hr, rfl⟩, rfl⟩
  | writeTemp parent bytes =>
    refine hlocal (onDisk_earlier h hcall fun hdone => ?_) fun _ => trivial
    unfold writeTempStep at hdone ⊢
    split at hdone
    · rename_i hno
      obtain ⟨herror, heq⟩ := hdone
      cases heq
      rw [if_pos hno]
      exact ⟨⟨herror, rfl⟩, rfl⟩
    · rename_i hno
      obtain ⟨temp, tree, ⟨hnamed, hfresh, hwritten⟩, hr, heq⟩ := hdone
      cases heq
      rw [if_neg hno]
      exact ⟨⟨temp, tree, ⟨hnamed, hfresh, hwritten⟩, hr, rfl⟩, rfl⟩
  | rename temp path =>
    exact hlocal (changesTree_earlier (f := fun tree => renameIn tree temp path) h hcall) fun _ => trivial
  | discardTemp temp =>
    refine hlocal ?_ fun _ => trivial
    obtain ⟨hr, heq | ⟨tree, htree, heq⟩⟩ := hcall
    · cases heq
      exact ⟨⟨hr, .inl rfl⟩, rfl⟩
    · cases heq
      exact ⟨⟨hr, .inr ⟨tree, htree, rfl⟩⟩, rfl⟩
  | writeBlob contentHash bytes =>
    refine hlocal (onDisk_earlier h hcall ?_) fun _ => trivial
    rintro ⟨hr, heq⟩
    cases heq
    exact ⟨⟨hr, rfl⟩, rfl⟩
  | saveManifest manifest =>
    refine hlocal (onDisk_earlier h hcall ?_) fun _ => trivial
    rintro ⟨hr, heq⟩
    cases heq
    exact ⟨⟨hr, rfl⟩, rfl⟩
  | saveSyncState state =>
    refine hlocal (onDisk_earlier h hcall ?_) fun _ => trivial
    rintro ⟨hr, heq⟩
    cases heq
    exact ⟨⟨hr, rfl⟩, rfl⟩
  | nonce =>
    refine hlocal ?_ fun _ => trivial
    obtain ⟨hr, heq⟩ := hcall
    cases heq
    exact ⟨⟨hr, rfl⟩, rfl⟩
  | fetchWorkspaceHead =>
    exact ⟨s', atServer_earlier (f := fun now r now' => r = .ok now.head ∧ now' = now) h hcall, .inl rfl⟩
  | downloadManifest id => exact ⟨s', atServer_earlier h hcall, .inl rfl⟩
  | downloadBlob id => exact ⟨s', atServer_earlier h hcall, .inl rfl⟩
  | uploadBlob id bytes => exact ⟨s', atServer_earlier h hcall, .inl rfl⟩
  | uploadManifest id bytes => exact ⟨s', atServer_earlier h hcall, .inl rfl⟩
  | updateWorkspaceHead expectedRevision id => exact ⟨s', atServer_earlier h hcall, .inl rfl⟩

theorem semIntact_earlier {o : Op} {r : SyncResult o.Val} (h : env.Within env' s s₀)
    (hcall : semIntact env o ⟨d, s⟩ r ⟨d', s'⟩) : ∃ seen, semIntact env' o ⟨d, s₀⟩ r ⟨d', seen⟩ ∧
      (seen = s' ∨ (seen = s₀ ∧ s' = s)) := by
  obtain ⟨hsem, hintact⟩ := hcall
  obtain ⟨seen, hseen, rfl | ⟨rfl, hsame, htrivial⟩⟩ := sem_earlier h hsem
  · exact ⟨seen, ⟨hseen, hintact⟩, .inl rfl⟩
  · exact ⟨seen, ⟨hseen, htrivial _⟩, .inr ⟨rfl, hsame⟩⟩

end Earlier

/-! ### The fleet -/

/-- One call of one device: nobody else does anything; a request may fail. -/
def Setting.single : Setting := ⟨False, False, False, True, fun _ => True⟩

/-- A call of a device of the fleet. -/
def callOf (o : Op) (d : Device) (s : Remote) (r : SyncResult o.Val) (d' : Device) (s' : Remote) : Prop :=
  semIntact .single o ⟨d, s⟩ r ⟨d', s'⟩

/-- The user edits files, and hides nothing. -/
def UserEdit (d d' : Device) : Prop := ∃ tree, PlainTree tree ∧ d' = { d with tree := tree }

/-- The devices, the server, what each has still to run, and what its last sync
came to. -/
abbrev Fleet (ι : Type) : Type :=
  Parties ι (Signature.fallible Op.Val SyncError) (SyncResult SyncReport) Device Remote

section Fleet

variable {ι : Type} [DecidableEq ι] {ws : Workspace} {c c' : Fleet ι} {r r' : Remote} {d d' : Device}

variable (ws) in
/-- A sync in one of the modes. -/
def SyncIn (modes : SyncMode → Prop) (p : Prog (Signature.fallible Op.Val SyncError) (SyncResult SyncReport)) : Prop :=
  ∃ mode, modes mode ∧ p = (sync ws mode).run

variable (ws) in
/-- A device starts a sync, makes a call of it, or is through; or its user edits
files between two syncs. -/
def Fleet.Step : Fleet ι → Fleet ι → Prop :=
  Parties.Step (S := Signature.fallible Op.Val SyncError) callOf UserEdit (· ≠ none) (SyncIn ws fun _ => True)

variable (ws) in
/-- Devices reconcile; nobody edits, and a device whose sync fails stays there. -/
def Fleet.RestStep : Fleet ι → Fleet ι → Prop :=
  Parties.Step (S := Signature.fallible Op.Val SyncError) callOf (fun _ _ => False)
    (fun out => ∃ report, out = some (.ok report))
    (SyncIn ws (· = .reconcile))

variable (ws) in
/-- What a device of the fleet goes by: others publish, and hide nothing. -/
def Setting.among : Setting := ⟨False, True, False, True, HeadsAre ws PlainManifest⟩

/-- A device that has synced is as the head named it, and at rest where it has
reconciled. -/
structure Synced (ws : Workspace) (d : Device) (r : Remote) (report : SyncReport) : Prop where
  rest : report.mode = .reconcile → AtRest ws d
  mirrors : report.mode ≠ .dryRun → MirrorsHead ws d r report.syncedRevision

variable (ws) in
/-- What each device of the fleet relies on and keeps. -/
def Fleet.terms : Terms (Signature.fallible Op.Val SyncError) World (SyncResult SyncReport) Device Remote where
  own := World.device
  seen := World.remote
  env := semIntact (.among ws)
  good := HeadsAre ws PlainManifest
  Later := Remote.Later (.among ws)
  idle last d r := PlainTree d.tree ∧ ∀ report, last = some (.ok report) → Synced ws d r report

/-- What one call does of the server others may have done before. -/
theorem within_among (hgood : HeadsAre ws PlainManifest r) (hlater : Remote.Later (.among ws) r' r) :
    Setting.single.Within (.among ws) r r' := by
  refine ⟨id, id, id, fun now hnow => ⟨hlater.grows.trans hnow.grows, .inl trivial, fun _ => ?_⟩⟩
  exact hgood.grows hnow.grows (hnow.heads.resolve_left id)

/-- **Each sync keeps the terms.** -/
theorem Fleet.terms_kept (hideal : ws.Ideal) : (Fleet.terms ws).Kept (S := Signature.fallible Op.Val SyncError) callOf
    UserEdit (· ≠ none) (SyncIn ws fun _ => True) where
  refl r := .refl r
  trans h h' := h.trans h'
  good h hr := hr.later rfl h
  view d r := ⟨⟨d, r⟩, rfl, rfl⟩
  call hgood hlater hcall := by
    obtain ⟨seen, hseen, heq⟩ := semIntact_earlier (within_among hgood hlater) hcall
    refine ⟨⟨_, seen⟩, hseen, rfl, ?_⟩
    rcases heq with rfl | ⟨rfl, rfl⟩
    · exact .refl _
    · exact hlater
  later hcall _ hgood := ⟨grows_sem hcall.1, .inl trivial, fun _ => hgood⟩
  forget h := ⟨h.1, nofun⟩
  touched hedit _ := by
    obtain ⟨tree, hplain, rfl⟩ := hedit
    exact ⟨hplain, nofun⟩
  stays hlater h := ⟨h.1, fun report hlast => ⟨(h.2 report hlast).rest, fun hmode =>
    ((h.2 report hlast).mirrors hmode).grows hlater.grows⟩⟩
  run {p w out t} hp hgood hidle hrun := by
    obtain ⟨mode, _, rfl⟩ := hp
    have hw : PlainWorld ws w := ⟨hidle.1, hgood⟩
    have houtcomes : PlainOutcomes (.among ws) ws (sync ws mode) w _ := plainOutcomes_sync hideal id rfl mode hw
    refine ⟨houtcomes.cut hrun.cut_short, fun hsettled => ?_⟩
    match out with
    | none => exact absurd rfl hsettled
    | some (.error e) => exact ⟨(houtcomes.error hrun).tree id, nofun⟩
    | some (.ok report) =>
      obtain ⟨hworld, hmode, hdone⟩ := houtcomes.ok hrun
      refine ⟨hworld.tree, fun report' hreport => ?_⟩
      cases hreport
      rw [← hmode] at hdone hrun
      refine ⟨fun hreconcile => ?_, fun hmode' => (hdone hmode').mirrors⟩
      rw [hreconcile] at hrun
      have hrest : Fallible.Runs (sem (.among ws)) (fun _ => True) (sync ws .reconcile) w
          fun _ t => AtRest ws t.device :=
        runs_syncAttempt id 1 none 0 w
      exact hrest.ok (reaches_intact hrun)

/-! ### A fleet at rest -/

variable (ws) in
/-- What a device at rest goes by: the head stays. -/
def Setting.still : Setting := ⟨False, False, False, True, HeadsAre ws PlainManifest⟩

variable (ws) in
/-- What each device of a fleet at rest relies on and keeps. -/
def Fleet.restTerms (heads : List ManifestId) :
    Terms (Signature.fallible Op.Val SyncError) World (SyncResult SyncReport) Device Remote where
  own := World.device
  seen := World.remote
  env := semIntact (.still ws)
  good r := HeadsAre ws PlainManifest r ∧ r.heads = heads
  Later := Remote.Later (.still ws)
  idle last d r := (PlainTree d.tree ∧ AtRest ws d) ∧ ∀ report, last = some (.ok report) →
    report.syncedRevision = heads.length ∧ MirrorsHead ws d r report.syncedRevision

theorem within_still (hgood : HeadsAre ws PlainManifest r) (hlater : Remote.Later (.still ws) r' r) :
    Setting.single.Within (.still ws) r r' := by
  refine ⟨id, id, id, fun now hnow => ⟨hlater.grows.trans hnow.grows, .inr ?_, fun _ => ?_⟩⟩
  · exact (hnow.heads.resolve_left id).trans (hlater.heads.resolve_left id)
  · exact hgood.grows hnow.grows (hnow.heads.resolve_left id)

/-- A device at rest leaves the head where it is. -/
theorem heads_at_rest {env : Setting} {w t : World} {out : Option (SyncResult SyncReport)} (hedits : ¬ env.edits)
    (hothers : ¬ env.others) (hrest : AtRest ws w.device)
    (hrun : Fallible.Reaches (sem env) (sync ws .reconcile) w out t) :
    t.remote.heads = w.remote.heads := by
  have hsync : sync ws .reconcile = attemptOnce ws (some fun revision => syncAttempt ws .reconcile (some revision) 1 0)
      .reconcile none 0 := rfl
  rw [hsync] at hrun
  refine (not_publishes_at_rest hedits hrest).keeps (J := fun u => u.remote.heads = w.remote.heads)
    (fun o u r u' ho hcall hu => ?_) hrun rfl
  exact (heads_sem hothers ho hcall).trans hu

/-- **Each sync keeps a fleet at rest.** -/
theorem Fleet.restTerms_kept (hideal : ws.Ideal) (heads : List ManifestId) :
    (Fleet.restTerms ws heads).Kept (S := Signature.fallible Op.Val SyncError) callOf (fun _ _ => False)
      (fun out => ∃ report, out = some (.ok report)) (SyncIn ws (· = .reconcile)) where
  refl r := .refl r
  trans h h' := h.trans h'
  good h hr := ⟨hr.1.later rfl h, (h.heads.resolve_left id).trans hr.2⟩
  view d r := ⟨⟨d, r⟩, rfl, rfl⟩
  call hgood hlater hcall := by
    obtain ⟨seen, hseen, heq⟩ := semIntact_earlier (within_still hgood.1 hlater) hcall
    refine ⟨⟨_, seen⟩, hseen, rfl, ?_⟩
    rcases heq with rfl | ⟨rfl, rfl⟩
    · exact .refl _
    · exact hlater
  later hcall hgood hgood' := ⟨grows_sem hcall.1, .inr (hgood'.2.trans hgood.2.symm), fun _ => hgood'.1⟩
  forget h := ⟨h.1, nofun⟩
  touched hedit := hedit.elim
  stays hlater h := ⟨h.1, fun report hlast => ⟨(h.2 report hlast).1, (h.2 report hlast).2.grows hlater.grows⟩⟩
  run {p w out t} hp hgood hidle hrun := by
    obtain ⟨mode, rfl, rfl⟩ := hp
    obtain ⟨⟨htree, hrest⟩, _⟩ := hidle
    have hw : PlainWorld ws w := ⟨htree, hgood.1⟩
    have houtcomes : PlainOutcomes (.still ws) ws (syncAttempt ws .reconcile none 0 1) w
        (PlainDone ws .reconcile w.remote.heads.length) := plainOutcomes_syncAttempt hideal id rfl 1 none 0 hw
    have hstart : w.remote.heads = heads := hgood.2
    have hstill : Fallible.Reaches (sem (.still ws)) (sync ws .reconcile) w out t := reaches_intact hrun
    have hheads : t.remote.heads = heads := (heads_at_rest id id hrest hstill).trans hstart
    refine ⟨⟨houtcomes.cut hrun.cut_short, hheads⟩, fun hsettled => ?_⟩
    obtain ⟨report, rfl⟩ := hsettled
    have hdone := houtcomes.ok hrun
    have hruns : Fallible.Runs (sem (.still ws)) (fun _ => True) (syncAttempt ws .reconcile none 0 1) w
        fun _ u => AtRest ws u.device := runs_syncAttempt id 1 none 0 w
    have hrested := hruns.ok hstill
    refine ⟨⟨hdone.world.tree, hrested⟩, fun report' hreport => ?_⟩
    cases hreport
    refine ⟨Nat.le_antisymm ?_ ?_, hdone.mirrors⟩
    · rw [← hheads]
      exact hdone.mirrors.reached
    · have hsince := hdone.since
      rw [hstart] at hsince
      exact hsince

/-! ### What holds of every interleaving -/

/-- Nobody syncs or has synced, and nothing is hidden. -/
structure Fleet.Fresh (ws : Workspace) (c : Fleet ι) : Prop where
  idle : ∀ i, c.running i = none
  last : ∀ i, c.last i = none
  trees : ∀ i, PlainTree (c.own i).tree
  heads : HeadsAre ws PlainManifest c.shared

/-- The trees hold the same, as far as manifests tell. -/
def Alike (c : Crypto) (tree tree' : WorkingTree) : Prop :=
  ∀ p, entriesEqual ((tree.get p).bind (entryOf c)) ((tree'.get p).bind (entryOf c)) = true

theorem Mirrors.alike {c : Crypto} {tree tree' : WorkingTree} {m : Manifest} (h : Mirrors c tree m)
    (h' : Mirrors c tree' m) : Alike c tree tree' := by
  intro p
  cases hp : m.get p with
  | none =>
    rw [h.unlisted p hp, h'.unlisted p hp]
    rfl
  | some e =>
    have hright := h'.listed p e hp
    unfold Matches at hright
    rw [entriesEqual_comm] at hright
    exact entriesEqual_trans (h.listed p e hp) hright

/-- Devices that mirror the same revision hold the same. -/
theorem MirrorsHead.alike {revision : ℕ} (h : MirrorsHead ws d r revision) (h' : MirrorsHead ws d' r revision) :
    Alike ws.digest d.tree d'.tree := by
  obtain ⟨_, m, hnames, hmirrors⟩ := h
  obtain ⟨_, m', hnames', hmirrors'⟩ := h'
  have hsame : m = m' := by
    unfold Names at hnames hnames'
    cases hid : (r.headAt revision).manifestId with
    | none =>
      rw [hid] at hnames hnames'
      exact hnames.trans hnames'.symm
    | some id =>
      rw [hid] at hnames hnames'
      exact Named.unique hnames hnames'
  subst hsame
  exact hmirrors.alike hmirrors'

omit [DecidableEq ι] in
theorem Fleet.Fresh.holds (h : c.Fresh ws) : (Fleet.terms ws).Holds (SyncIn ws fun _ => True) c := by
  refine ⟨h.heads, fun i => ?_⟩
  rw [h.idle i, h.last i]
  exact ⟨h.trees i, nofun⟩

/-- What a device that does not sync has come to. -/
theorem Fleet.Fresh.idle_later (hideal : ws.Ideal) (hstart : c.Fresh ws)
    (hsteps : Relation.ReflTransGen (Fleet.Step ws) c c') {i : ι} (hidle : c'.running i = none) :
    PlainTree (c'.own i).tree ∧ ∀ report, c'.last i = some (.ok report) → Synced ws (c'.own i) c'.shared report := by
  have hparty := ((Fleet.terms_kept hideal).steps hstart.holds hsteps).party i
  rw [hidle] at hparty
  exact hparty

/-- **Devices agree by revision.** However the syncs of the devices interleave,
with requests that fail, publications that come too late and edits in between:
a device whose last sync succeeded, and was not a dry run, has the tree that the
head named at the revision it reported; those that reported the same revision
hold the same. -/
theorem fleet_agrees (ws : Workspace) (hideal : ws.Ideal) {c c' : Fleet ι} (hstart : c.Fresh ws)
    (hsteps : Relation.ReflTransGen (Fleet.Step ws) c c') {i j : ι} {report report' : SyncReport}
    (hidle : c'.running i = none) (hidle' : c'.running j = none) (hlast : c'.last i = some (.ok report))
    (hlast' : c'.last j = some (.ok report')) (hmode : report.mode ≠ .dryRun) (hmode' : report'.mode ≠ .dryRun)
    (hrevision : report.syncedRevision = report'.syncedRevision) :
    MirrorsHead ws (c'.own i) c'.shared report.syncedRevision ∧ Alike ws.digest (c'.own i).tree (c'.own j).tree := by
  have hi := ((hstart.idle_later hideal hsteps hidle).2 report hlast).mirrors hmode
  have hj := ((hstart.idle_later hideal hsteps hidle').2 report' hlast').mirrors hmode'
  rw [← hrevision] at hj
  exact ⟨hi, hi.alike hj⟩

/-- **A fleet converges.** When every device has reconciled, the head stays where
it is for as long as nobody edits, and each device that reconciles again ends at
it, with the tree it names. -/
theorem fleet_converges (ws : Workspace) (hideal : ws.Ideal) {c c' c'' : Fleet ι} (hstart : c.Fresh ws)
    (hsteps : Relation.ReflTransGen (Fleet.Step ws) c c')
    (hsynced : ∀ i, c'.running i = none ∧ ∃ report, c'.last i = some (.ok report) ∧ report.mode = .reconcile)
    (hagain : Relation.ReflTransGen (Fleet.RestStep ws) { c' with last := fun _ => none } c'') :
    c''.shared.heads = c'.shared.heads ∧ ∀ i report, c''.running i = none → c''.last i = some (.ok report) →
      report.syncedRevision = c'.shared.heads.length ∧ MirrorsHead ws (c''.own i) c''.shared report.syncedRevision := by
  have hgood : HeadsAre ws PlainManifest c'.shared := ((Fleet.terms_kept hideal).steps hstart.holds hsteps).good
  have hholds : (Fleet.restTerms ws c'.shared.heads).Holds (SyncIn ws (· = .reconcile))
      { c' with last := fun _ => none } := by
    refine ⟨⟨hgood, rfl⟩, fun i => ?_⟩
    obtain ⟨hidle, report, hlast, hmode⟩ := hsynced i
    obtain ⟨htree, hdone⟩ := hstart.idle_later hideal hsteps hidle
    rw [hidle]
    exact ⟨⟨htree, (hdone report hlast).rest hmode⟩, nofun⟩
  have hafter := (Fleet.restTerms_kept hideal c'.shared.heads).steps hholds hagain
  refine ⟨hafter.good.2, fun i report hidle hlast => ?_⟩
  have hparty := hafter.party i
  rw [hidle] at hparty
  exact hparty.2 report hlast

end Fleet

/-! ### Two devices and a note -/

section Sample

open Codec

theorem noteSeals_opened {plaintext ciphertext : Bytes} (h : noteSeals.lookup plaintext = some ciphertext) :
    (noteSeals.map Prod.swap).lookup ciphertext = some plaintext := by
  have hall : ∀ row ∈ noteSeals, (noteSeals.map Prod.swap).lookup row.2 = some row.1 := by decide +kernel
  obtain ⟨before, after, hrows, _⟩ := List.lookup_eq_some_iff.mp h
  have hmem : (plaintext, ciphertext) ∈ noteSeals := by
    rw [hrows]
    simp
  exact hall _ hmem

theorem sampleSpace_ideal : sampleSpace.Ideal where
  cipher := by
    refine ⟨fun key nonce plaintext ciphertext h => ?_⟩
    obtain ⟨hkey, hsealed⟩ := Option.ite_none_right_eq_some.mp h
    exact (if_pos hkey).trans (noteSeals_opened hsealed)
  json m bytes h := by
    have hall : ∀ note ∈ noteTexts, noteTexts.find? (fun other => other.2 = note.2) = some note := by decide +kernel
    simp only [sampleSpace] at h ⊢
    split at h
    · rename_i note hfound
      have hnote : m.workspaceId = sampleWorkspace ∧ m.entries.toList = (noteManifest note.1).entries.toList := by
        simpa using List.find?_some hfound
      obtain rfl : note.2 = bytes := Except.ok.inj h
      rw [hall note (List.mem_of_find?_eq_some hfound)]
      obtain ⟨workspaceId, entries⟩ := m
      obtain ⟨rfl, hentries⟩ := hnote
      exact congrArg (fun entries => Except.ok (Manifest.mk sampleWorkspace entries))
        (Std.ExtTreeMap.ext_toList (.of_eq hentries)).symm
    · cases h

instance (o : Op) (r : Remote) : Decidable (o.Intact r) :=
  match o with
  | .uploadBlob id bytes => inferInstanceAs (Decidable (∀ stored ∈ r.blobs id, stored = bytes))
  | .uploadManifest id bytes => inferInstanceAs (Decidable (∀ stored ∈ r.manifests id, stored = bytes))
  | .read | .metadata _ | .cachedBlob _ | .list _ | .createDir _ | .remove _ | .writeTemp .. | .rename ..
      | .discardTemp _
  | .writeBlob .. | .saveManifest _ | .saveSyncState _ | .nonce | .fetchWorkspaceHead | .downloadManifest _
  | .downloadBlob _ | .updateWorkspaceHead .. => inferInstanceAs (Decidable True)

/-- What a call does alone, if no hashes collide. -/
def aloneIntact (o : Op) (w : Device × Remote) : Option (SyncResult o.Val × (Device × Remote)) :=
  let (r, w') := World.alone o ⟨w.1, w.2⟩
  if o.Intact w'.remote then some (r, (w'.device, w'.remote)) else none

theorem callOf_alone {o : Op} {d d' : Device} {s s' : Remote} {r : SyncResult o.Val}
    (h : aloneIntact o (d, s) = some (r, (d', s'))) : callOf o d s r d' s' := by
  unfold aloneIntact at h
  dsimp only at h
  split at h
  · rename_i hintact
    have hsem := sem_alone .single o ⟨d, s⟩
    cases h
    exact ⟨hsem, hintact⟩
  · cases h

/-- A sync of one device, with no other in between. -/
def noteTurn (d : Device) (r : Remote) : Option (SyncReport × Device × Remote) :=
  match Fallible.exec aloneIntact (sync sampleSpace .reconcile) (d, r) with
  | some (.ok report, w) => some (report, w)
  | _ => none

/-- One device has synced. -/
def Fleet.turned {ι : Type} [DecidableEq ι] (c : Fleet ι) (i : ι) (report : SyncReport) (d : Device) (r : Remote) :
    Fleet ι :=
  { c with
    own := Function.update c.own i d
    shared := r
    last := Function.update c.last i (some (.ok report)) }

theorem noteTurn_steps {c : Fleet Bool} {i : Bool} {report : SyncReport} {d' : Device} {r' : Remote}
    (hidle : c.running i = none) (h : noteTurn (c.own i) c.shared = some (report, d', r')) :
    Relation.ReflTransGen (Fleet.Step sampleSpace) c (c.turned i report d' r') := by
  unfold noteTurn at h
  split at h
  · rename_i hexec
    cases h
    exact Parties.runs_alone (fun _ _ _ _ _ _ hcall => callOf_alone hcall) hidle ⟨_, trivial, rfl⟩ hexec nofun
  · cases h

theorem noteTurn_restSteps {c : Fleet Bool} {i : Bool} {report : SyncReport} {d' : Device} {r' : Remote}
    (hidle : c.running i = none) (h : noteTurn (c.own i) c.shared = some (report, d', r')) :
    Relation.ReflTransGen (Fleet.RestStep sampleSpace) c (c.turned i report d' r') := by
  unfold noteTurn at h
  split at h
  · rename_i hexec
    cases h
    exact Parties.runs_alone (fun _ _ _ _ _ _ hcall => callOf_alone hcall) hidle ⟨_, rfl, rfl⟩ hexec ⟨_, rfl⟩
  · cases h

section Rounds

variable {c : Fleet Bool} {a b : SyncReport} {d d' : Device} {r r' : Remote} (hidle : ∀ i, c.running i = none)
  (h : noteTurn (c.own true) c.shared = some (a, d, r)) (h' : noteTurn (c.own false) r = some (b, d', r'))
include hidle h h'

theorem noteRound_steps :
    Relation.ReflTransGen (Fleet.Step sampleSpace) c ((c.turned true a d r).turned false b d' r') := by
  refine (noteTurn_steps (hidle true) h).trans (noteTurn_steps (hidle false) ?_)
  rw [← h']
  rfl

theorem noteRound_restSteps :
    Relation.ReflTransGen (Fleet.RestStep sampleSpace) c ((c.turned true a d r).turned false b d' r') := by
  refine (noteTurn_restSteps (hidle true) h).trans (noteTurn_restSteps (hidle false) ?_)
  rw [← h']
  rfl

end Rounds

/-- Two devices; one has a note. -/
def noteFleet : Fleet Bool where
  own i := if i then notesWorld.device else (worldOf .empty).device
  shared := notesWorld.remote
  running _ := none
  last _ := none

theorem noteFleet_fresh : noteFleet.Fresh sampleSpace where
  idle _ := rfl
  last _ := rfl
  trees i := by
    have hnames : ∀ i, ∀ p ∈ (noteFleet.own i).tree.nodes.keys, isInternal p = false := by decide +kernel
    have hrules : ∀ i, (noteFleet.own i).tree.get ignoreFile = none := by decide +kernel
    exact ⟨hrules i, fun p hp => hnames i p (FileTree.mem_keys.mpr hp)⟩
  heads id hid := absurd hid List.not_mem_nil

/-- The entries of the manifest that a head names. -/
def entriesAt (r : Remote) (n : ℕ) : Option (List (RelPath × ManifestEntry)) := do
  let id ← (r.headAt n).manifestId
  let bytes ← r.manifests id
  let m ← (openManifest sampleSpace id bytes).toOption
  return m.entries.toList

theorem entriesAt_names {r : Remote} {n : ℕ} {m : Manifest} {entries : List (RelPath × ManifestEntry)}
    (h : entriesAt r n = some entries) (hm : Names sampleSpace r (r.headAt n) m) : m.entries.toList = entries := by
  unfold entriesAt at h
  unfold Names at hm
  cases hid : (r.headAt n).manifestId with
  | none =>
    rw [hid] at h
    cases h
  | some id =>
    rw [hid] at h hm
    obtain ⟨bytes, hbytes, hopen⟩ := hm
    simpa [hbytes, hopen, Except.toOption] using h

/-- What two rounds of syncs end in. -/
def noteRounds : Option ((ℕ × SyncMode) × ℕ × SyncMode) := do
  let (a, d, r) ← noteTurn notesWorld.device notesWorld.remote
  let (b, d', r) ← noteTurn (worldOf .empty).device r
  let (_, _, r) ← noteTurn d r
  let _ ← noteTurn d' r
  return ((a.syncedRevision, a.mode), b.syncedRevision, b.mode)

theorem noteRounds_done : ∃ a d r b d' r', noteTurn notesWorld.device notesWorld.remote = some (a, d, r) ∧
    noteTurn (worldOf .empty).device r = some (b, d', r') ∧ (a.syncedRevision = 1 ∧ a.mode = .reconcile) ∧
      (b.syncedRevision = 1 ∧ b.mode = .reconcile) ∧
      ∃ a' d₂ r₂ b' d₂' r₂', noteTurn d r' = some (a', d₂, r₂) ∧ noteTurn d' r₂ = some (b', d₂', r₂') := by
  have hrounds : noteRounds = some ((1, .reconcile), 1, .reconcile) := by decide +kernel
  simp only [noteRounds, Option.bind_eq_bind, Option.bind_eq_some_iff, Prod.exists, Option.pure_def,
    Option.some.injEq, Prod.mk.injEq] at hrounds
  obtain ⟨a, d, r, hfirst, b, d', r', hsecond, a', d₂, r₂, hthird, b', d₂', r₂', hfourth, ha, hb⟩ := hrounds
  exact ⟨a, d, r, b, d', r', hfirst, hsecond, ha, hb, a', d₂, r₂, b', d₂', r₂', hthird, hfourth⟩

/-- The two devices agree once both have synced. -/
theorem notes_agree : ∃ c' : Fleet Bool, Relation.ReflTransGen (Fleet.Step sampleSpace) noteFleet c' ∧
    MirrorsHead sampleSpace (c'.own true) c'.shared 1 ∧
      Alike sampleSpace.digest (c'.own true).tree (c'.own false).tree := by
  obtain ⟨a, d, r, b, d', r', hfirst, hsecond, ⟨ha, hmode⟩, ⟨hb, hmode'⟩, _⟩ := noteRounds_done
  have hsteps : Relation.ReflTransGen (Fleet.Step sampleSpace) noteFleet
      ((noteFleet.turned true a d r).turned false b d' r') :=
    noteRound_steps (fun _ => rfl) hfirst hsecond
  have hagree := fleet_agrees sampleSpace sampleSpace_ideal noteFleet_fresh hsteps (i := true)
    (j := false) rfl rfl rfl rfl
    (by rw [hmode]; decide) (by rw [hmode']; decide) (ha.trans hb.symm)
  rw [ha] at hagree
  exact ⟨_, hsteps, hagree⟩

/-- A second round leaves the head, and ends at it. -/
theorem notes_converge : ∃ c' c'' : Fleet Bool, Relation.ReflTransGen (Fleet.Step sampleSpace) noteFleet c' ∧
    Relation.ReflTransGen (Fleet.RestStep sampleSpace) { c' with last := fun _ => none } c'' ∧
    c''.shared.heads = c'.shared.heads ∧ ∀ i, ∃ report, c''.last i = some (.ok report) ∧
      report.syncedRevision = c'.shared.heads.length ∧
      MirrorsHead sampleSpace (c''.own i) c''.shared report.syncedRevision := by
  obtain ⟨a, d, r, b, d', r', hfirst, hsecond, ⟨_, hmode⟩, ⟨_, hmode'⟩, a', d₂, r₂, b', d₂', r₂', hthird, hfourth⟩ :=
    noteRounds_done
  have hsteps : Relation.ReflTransGen (Fleet.Step sampleSpace) noteFleet
      ((noteFleet.turned true a d r).turned false b d' r') :=
    noteRound_steps (fun _ => rfl) hfirst hsecond
  have hagain := noteRound_restSteps
    (c := { (noteFleet.turned true a d r).turned false b d' r' with last := fun _ => none })
    (fun _ => rfl) hthird hfourth
  have hsynced (i : Bool) : ((noteFleet.turned true a d r).turned false b d' r').running i = none ∧ ∃ report,
      ((noteFleet.turned true a d r).turned false b d' r').last i = some (.ok report) ∧ report.mode = .reconcile := by
    cases i with
    | false => exact ⟨rfl, b, rfl, hmode'⟩
    | true => exact ⟨rfl, a, rfl, hmode⟩
  obtain ⟨hheads, hends⟩ := fleet_converges sampleSpace sampleSpace_ideal noteFleet_fresh hsteps hsynced hagain
  refine ⟨_, _, hsteps, hagain, hheads, fun i => ?_⟩
  cases i with
  | false => exact ⟨b', rfl, hends false b' rfl rfl⟩
  | true => exact ⟨a', rfl, hends true a' rfl rfl⟩

end Sample

end RustSync
