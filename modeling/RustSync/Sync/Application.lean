/-
Applications that succeed

Once everything has been checked, an application fails only if the disk does,
or something stands in its way: an internal name is never removed, so one that
is not a directory and is above an entry blocks it (`Blocks`). Of all other
nodes that are in the way of an entry, those that the manifest does not list
are removed first, and those it lists are put in place first (`Cleared`).

Key definitions: `Blocks`, `Obstacles`. Key theorem:
`guarded_applyPulledManifest`.
-/
import RustSync.Sync.Removals

namespace RustSync

section Application

variable {env : Setting} {ws : Workspace} {E : World → Prop} {w t : World} {m : Manifest} {rules : IgnoreRules}
  {start : WorkingTree} {p q : RelPath}

/-- A listed path is valid, and no file is listed above it. -/
theorem listed_valid (hvalid : validateManifestPaths m = .ok ()) (hp : m.get p ≠ none) :
    validateLocalPath p = .ok () ∧ ∀ q file, Beneath q p → m.get q ≠ some (.file file) := by
  obtain ⟨e, he⟩ := Option.ne_none_iff_exists'.mp hp
  obtain ⟨hpath, habove⟩ := Except.bind_unit_ok.mp (forM_ok.mp hvalid (p, e) (BTreeMap.mem_toList.mpr he))
  refine ⟨hpath, fun q file hq hfile => ?_⟩
  have hnone := require_ok.mp habove
  rw [List.any_eq_false] at hnone
  have hthis := hnone q (mem_ancestors.mpr hq)
  rw [hfile] at hthis
  exact hthis rfl

/-! ### Putting entries in place -/

variable (m start) in
/-- An internal name that is in the way of the path, and stays. -/
structure Blocks (q p : RelPath) (n : Node FileContent) : Prop where
  above : Beneath q p
  node : start.get q = some n
  notDir : n ≠ .directory
  internal : isInternal q = true
  unlisted : m.get q = none

variable (m rules start) in
/-- What may be in the way when the entries of `done` have been put in place in
the tree `emptied`. -/
structure Obstacles (emptied : WorkingTree) (done : List (RelPath × ManifestEntry)) (tree : WorkingTree) : Prop where
  known : ∀ q n, tree.get q = some n → n ≠ .directory → (∃ file, (q, .file file) ∈ done) ∨
    ((start.get q = some n ∧ emptied.get q = some n) ∧ (∀ e, (q, e) ∉ done) ∧ ¬ (Met rules start q ∧ m.get q = none))
  blocks : ∀ q p n, m.get p ≠ none → Blocks m start q p n → emptied.get q = some n → tree.get q = some n
  passed : ∀ item ∈ done, ∀ q n, Blocks m start q item.1 n → emptied.get q ≠ some n

theorem Obstacles.push {c : Crypto} {done : List (RelPath × ManifestEntry)} {e : ManifestEntry}
    {emptied tree tree' : WorkingTree} (hvalid : validateManifestPaths m = .ok ())
    (h : Obstacles m rules start emptied done tree) (hp : m.get p = some e) (hopen : Open tree p)
    (hdir : e = .directory → tree'.get p = some .directory) (hsteps : ∀ q, EntryStep c p e tree tree' q) :
    Obstacles m rules start emptied (done ++ [(p, e)]) tree' := by
  refine ⟨fun q n hq hnot => ?_, fun q r n hr hblocks hemptied => ?_, fun item hitem q n hblocks => ?_⟩
  · by_cases hqp : q = p
    · subst hqp
      cases e with
      | directory =>
        rw [hdir rfl] at hq
        exact absurd (Option.some.inj hq).symm hnot
      | file file => exact .inl ⟨file, by simp⟩
    · have hsame : tree.get q = some n := by
        rcases hsteps q with heq | ⟨_, _, hmade⟩ | ⟨heq, _⟩ | ⟨_, _, _, _, hnone⟩
        · rw [← heq]
          exact hq
        · rw [hmade] at hq
          exact absurd (Option.some.inj hq).symm hnot
        · exact absurd heq hqp
        · rw [hnone] at hq
          cases hq
      rcases h.known q n hsame hnot with ⟨file, hfile⟩ | ⟨hstart, hdone, hseen⟩
      · exact .inl ⟨file, List.mem_append_left _ hfile⟩
      · refine .inr ⟨hstart, fun e' he' => ?_, hseen⟩
        rcases List.mem_append.mp he' with he' | he'
        · exact hdone e' he'
        · exact hqp (Prod.mk.inj (List.mem_singleton.mp he')).1
  · have hbefore := h.blocks q r n hr hblocks hemptied
    rcases hsteps q with heq | ⟨_, hnone, _⟩ | ⟨heq, _⟩ | ⟨file, rfl, hbeneath, _, _⟩
    · rw [heq]
      exact hbefore
    · rw [hnone] at hbefore
      cases hbefore
    · have hnone := hblocks.unlisted
      rw [heq, hp] at hnone
      cases hnone
    · -- no file is listed above a listed path
      exact absurd hp ((listed_valid hvalid hr).2 p file (hbeneath.trans hblocks.above))
  · rcases List.mem_append.mp hitem with hitem | hitem
    · exact h.passed item hitem q n hblocks
    · rw [List.mem_singleton.mp hitem] at hblocks
      intro hemptied
      have hthere := h.blocks q p n (by rw [hp]; simp) hblocks hemptied
      rcases hopen q hblocks.above with hdir' | hnone
      · rw [hthere] at hdir'
        exact hblocks.notDir (Option.some.inj hdir')
      · rw [hthere] at hnone
        cases hnone

/-- Entries are put in place in the order of their paths. -/
theorem mem_before {done rest : List (RelPath × ManifestEntry)} {item : RelPath × ManifestEntry}
    (hl : m.entries.toList = done ++ item :: rest) (hp : m.get p ≠ none) (hlt : compare p item.1 = .lt) :
    ∃ e, (p, e) ∈ done := by
  obtain ⟨e, he⟩ := Option.ne_none_iff_exists'.mp hp
  have hsorted : m.entries.toList.Pairwise fun a b => compare a.1 b.1 = .lt := Std.ExtTreeMap.ordered_keys_toList
  have hmem : (p, e) ∈ done ++ item :: rest := by
    rw [← hl]
    exact BTreeMap.mem_toList.mpr he
  rw [hl, List.pairwise_append, List.pairwise_cons] at hsorted
  rcases List.mem_append.mp hmem with hmem | hmem
  · exact ⟨e, hmem⟩
  · exfalso
    rcases List.mem_cons.mp hmem with rfl | hmem
    · simp at hlt
    · have hgt : compare item.1 p = .lt := hsorted.2.1.1 (p, e) hmem
      rw [Std.OrientedCmp.gt_of_lt hlt] at hgt
      cases hgt

/-- The way to the next entry is open, or blocked by an internal name. -/
theorem Obstacles.way {done rest : List (RelPath × ManifestEntry)} {e : ManifestEntry} {emptied tree : WorkingTree}
    (hvalid : validateManifestPaths m = .ok ()) (hl : m.entries.toList = done ++ (p, e) :: rest)
    (hexcluded : ∀ q, start.get q ≠ none → '\\' ∉ q → isInternal q = false → ¬ Visible rules start q →
      ∀ p, Within q p → m.get p = none)
    (h : Obstacles m rules start emptied done tree) :
    Open tree p ∨ ∃ q n, Blocks m start q p n ∧ emptied.get q = some n ∧ tree.get q = some n := by
  have hp : m.get p = some e := BTreeMap.mem_toList.mp (by rw [hl]; simp)
  by_cases hway : Open tree p
  · exact .inl hway
  · right
    unfold Open at hway
    push Not at hway
    obtain ⟨q, hq, hdir, hsome⟩ := hway
    obtain ⟨n, hn⟩ := Option.ne_none_iff_exists'.mp hsome
    have hnot : n ≠ .directory := by
      rintro rfl
      exact hdir hn
    have hlisted := listed_valid hvalid (p := p) (by rw [hp]; simp)
    have hslash : '\\' ∉ q := not_mem_above (validateLocalPath_ok.mp hlisted.1).2.2.2.1 hq.within
    rcases h.known q n hn hnot with ⟨file, hfile⟩ | ⟨⟨hstart, hemptied⟩, hdone, hseen⟩
    · have hin : m.get q = some (.file file) := BTreeMap.mem_toList.mp (by rw [hl]; exact List.mem_append_left _ hfile)
      exact absurd hin (hlisted.2 q file hq)
    · have hunlisted : m.get q = none := by
        by_contra hqlisted
        -- what is above comes first
        obtain ⟨e', he'⟩ := mem_before hl hqlisted hq.lt
        exact hdone e' he'
      have hnotVisible : ¬ Visible rules start q := fun hvisible => hseen ⟨hvisible.met hslash, hunlisted⟩
      refine ⟨q, n, ⟨hq, hstart, hnot, ?_, hunlisted⟩, hemptied, hn⟩
      by_contra hinternal
      have hnone := hexcluded q (by rw [hstart]; simp) hslash (by simpa using hinternal) hnotVisible p hq.within
      rw [hp] at hnone
      cases hnone

/-- Putting one entry in place, the way being open. -/
theorem guarded_applyEntry {e : ManifestEntry} {fetched : BTreeMap String Bytes}
    (hvalid : validateManifestPaths m = .ok ()) (hfetched : AtHand ws.digest m fetched) (hp : m.get p = some e)
    (hopen : Open t.device.tree p) (hE : env.diskFails → ∀ u, E u) :
    Fallible.Guarded (sem env) (Op.Inside ws.digest) E
      (applyEntry ws (isUnchanged ws start) fetched (p, e)) t fun _ t' =>
      (e = .directory → t'.device.tree.get p = some .directory) ∧
        ∀ q, EntryStep ws.digest p e t.device.tree t'.device.tree q := by
  have hinside : InWorkspace p := .of_valid (listed_valid hvalid (by rw [hp]; simp)).1
  cases e with
  | directory =>
    refine (guarded_prepareDirectoryPath hinside hopen fun hfails tree => hE hfails _).weaken (fun _ h => h)
      fun _ t' h => ?_
    obtain ⟨tree, rfl, hdir, hsteps⟩ := h
    exact ⟨fun _ => hdir, hsteps⟩
  | file file =>
    obtain ⟨bytes, hbytes, hlength, hhash⟩ := hfetched p file hp
    unfold applyEntry isUnchanged
    simp only [hbytes]
    refine Fallible.Guarded.bind (guarded_cacheBlob hhash fun hfails => hE hfails t) fun _ t' h => ?_
    obtain ⟨cache, _, rfl, _⟩ := h
    by_cases hlocal : (matchingLocalFile ws start p file).isSome = true
    · rw [if_pos hlocal]
      exact Fallible.Guarded.pure ⟨nofun, fun q => .same rfl⟩
    · rw [if_neg hlocal]
      refine (guarded_replaceFile (t := t.setCache cache) hlength hhash hinside hopen
        fun hfails tree => hE hfails _).weaken (fun _ h => h) fun _ u h => ?_
      obtain ⟨tree, rfl, _, hsteps⟩ := h
      exact ⟨nofun, hsteps⟩

/-- An entry with a file in its way is looked at. -/
theorem guarded_applyEntry_blocked {e : ManifestEntry} {fetched : BTreeMap String Bytes} {Q : PUnit → World → Prop}
    {content : FileContent} (hvalid : validateManifestPaths m = .ok ()) (hfetched : AtHand ws.digest m fetched)
    (hp : m.get p = some e) (hblocks : Blocks m start q p (.file content))
    (hq : t.device.tree.get q = some (.file content)) (hE : ∀ u, E u) :
    Fallible.Guarded (sem env) (Op.Inside ws.digest) E (applyEntry ws (isUnchanged ws start) fetched (p, e)) t Q := by
  have hinside : InWorkspace p := .of_valid (listed_valid hvalid (by rw [hp]; simp)).1
  cases e with
  | directory => exact guarded_stat_file hinside hblocks.above hq (hE t)
  | file file =>
    obtain ⟨bytes, hbytes, _, hhash⟩ := hfetched p file hp
    unfold applyEntry
    simp only [hbytes]
    refine Fallible.Guarded.bind (guarded_cacheBlob hhash fun _ => hE t) fun _ t' h => ?_
    obtain ⟨cache, _, rfl, _⟩ := h
    have hnone : start.get p = none := FileTree.get_beneath (by rw [hblocks.node]; simp) hblocks.above
    rw [if_neg (by rw [isUnchanged_of_none ws hnone]; simp)]
    exact guarded_stat_file (w := t.setCache cache) hinside hblocks.above hq (hE _)

/-- The entries of a part of the manifest from its beginning. -/
theorem guarded_entries {before after : List (RelPath × ManifestEntry)} {fetched : BTreeMap String Bytes}
    {emptied : WorkingTree} (hl : m.entries.toList = before ++ after) (hvalid : validateManifestPaths m = .ok ())
    (hfetched : AtHand ws.digest m fetched)
    (hexcluded : ∀ q, start.get q ≠ none → '\\' ∉ q → isInternal q = false → ¬ Visible rules start q →
      ∀ p, Within q p → m.get p = none)
    (hblocked : ∀ done item rest, before = done ++ item :: rest → ∀ q n, Blocks m start q item.1 n →
      emptied.get q = some n → ((∃ content, n = .file content) ∧ ∀ u, E u) ∨
        ∃ item' ∈ done, ∃ q' n', Blocks m start q' item'.1 n' ∧ emptied.get q' = some n')
    (hE : env.diskFails → ∀ u, E u) (ht : Obstacles m rules start emptied [] t.device.tree) :
    Fallible.Guarded (sem env) (Op.Inside ws.digest) E
      (before.forM (applyEntry ws (isUnchanged ws start) fetched)) t fun _ t' =>
      Obstacles m rules start emptied before t'.device.tree := by
  refine Fallible.Guarded.forM (fun done (u : World) => Obstacles m rules start emptied done u.device.tree) ht
    fun done item rest u hbefore hu => ?_
  obtain ⟨p, e⟩ := item
  have hsplit : m.entries.toList = done ++ (p, e) :: (rest ++ after) := by
    rw [hl, hbefore]
    simp
  have hp : m.get p = some e := BTreeMap.mem_toList.mp (by rw [hsplit]; simp)
  rcases hu.way hvalid hsplit hexcluded with hopen | ⟨q, n, hblocks, hemptied, hq⟩
  · refine (guarded_applyEntry hvalid hfetched hp hopen hE).weaken (fun _ h => h) fun _ u' h => ?_
    exact hu.push hvalid hp hopen h.1 h.2
  · rcases hblocked done (p, e) rest hbefore q n hblocks hemptied with ⟨⟨content, rfl⟩, hall⟩ | ⟨item', hitem', q', n',
      hblocks', hemptied'⟩
    · exact guarded_applyEntry_blocked hvalid hfetched hp hblocks hq hall
    · exact absurd hemptied' (hu.passed item' hitem' q' n' hblocks')

/-! ### The whole application -/

variable (env rules m start) in
/-- What may make an application fail once it has begun. -/
inductive Hindered : Prop
  | disk (h : env.diskFails)
  | removal (p : RelPath) (hmet : Met rules start p) (hp : m.get p = none) (h : Hinders start p)
  | blocked (p q : RelPath) (content : FileContent) (hp : m.get p ≠ none) (h : Blocks m start q p (.file content))

variable (env rules m start) in
/-- No link is followed: where one is above a path that is removed or put in
place, the application has failed before. -/
structure Unlinked : Prop where
  removals : ∀ p q, Met rules start p → m.get p = none → validateLocalPath p = .ok () → Beneath q p →
    start.get q = some .other → ∃ r, Met rules start r ∧ m.get r = none ∧ depth p < depth r ∧ Hinders start r
  entries : ∀ p q, m.get p ≠ none → Blocks m start q p .other →
    (∃ r, Met rules start r ∧ m.get r = none ∧ Hinders start r) ∨
      ∃ p' q' content, m.get p' ≠ none ∧ compare p' p = .lt ∧ Blocks m start q' p' (.file content) ∧
        (env.diskFails → ∀ r, Met rules start r → m.get r = none → Beneath r q' → Beneath r q)

variable (ws) in
/-- What is known when everything has been checked. -/
structure Admitted (m : Manifest) (blobSource : String → Except String Bytes) (device : Device) (rules : IgnoreRules)
    (fetched : BTreeMap String Bytes) : Prop where
  valid : validatePulledManifest ws m = .ok ()
  loaded : IgnoreRules.load ws.ignore device.tree device.staged = .ok rules
  checked : ∀ listing : List RelPath, listing.Perm device.tree.nodes.keys →
    checkProtected m (collectWorkspacePaths rules device.tree listing).2 = .ok ()
  fetched : fetchBlobs ws device.tree m blobSource = .ok fetched

theorem checkProtected_perm {listing listing' : List RelPath} (hperm : listing.Perm listing')
    (h : checkProtected m (collectWorkspacePaths rules start listing).2 = .ok ()) :
    checkProtected m (collectWorkspacePaths rules start listing').2 = .ok () := by
  refine forM_ok.mpr fun p hp => forM_ok.mp h p ?_
  unfold collectWorkspacePaths at hp ⊢
  simp only [List.mem_map, List.mem_filter] at hp ⊢
  obtain ⟨path, ⟨⟨hmem, hmet⟩, hexcluded⟩, rfl⟩ := hp
  exact ⟨path, ⟨⟨hperm.mem_iff.mpr hmem, hmet⟩, hexcluded⟩, rfl⟩

/-- Before it is through the checks, an application has done nothing. -/
theorem guarded_checks {blobSource : String → Except String Bytes} {R : Unit → World → Prop}
    (hedits : ¬ env.edits) (hrefused : E w)
    (h : ∀ rules fetched listing, listing.Perm w.device.tree.nodes.keys →
      Admitted ws m blobSource w.device rules fetched → Fallible.Guarded (sem env) (fun _ _ => True) E
        (applyChanges ws m (isUnchanged ws w.device.tree) fetched
          (collectWorkspacePaths rules w.device.tree listing).1) w R) :
    Fallible.Guarded (sem env) (fun _ _ => True) E (applyPulledManifest ws m blobSource) w R := by
  refine Fallible.Guarded.check_bind (fun _ _ => hrefused) fun _ hvalid => ?_
  refine Fallible.Guarded.bind (guarded_read fun _ => hrefused) fun a t ha => ?_
  obtain ⟨tree, hedit, hlisting, rfl, hdevice⟩ := ha
  obtain ⟨device, listing⟩ := a
  obtain rfl : tree = w.device.tree := hedit.resolve_right hedits
  obtain rfl : device = w.device := hdevice
  refine Fallible.Guarded.check_bind (fun _ _ => hrefused) fun rules hrules => ?_
  refine Fallible.Guarded.check_bind (fun _ _ => hrefused) fun _ hcheck => ?_
  refine Fallible.Guarded.check_bind (fun _ _ => hrefused) fun fetched hfetch => ?_
  exact h rules fetched listing hlisting ⟨engine_ok.mp hvalid, engine_ok.mp hrules,
    fun listing' hlisting' => checkProtected_perm (hlisting.trans hlisting'.symm) (engine_ok.mp hcheck),
    engine_ok.mp hfetch⟩

theorem Admitted.paths {blobSource : String → Except String Bytes} {device : Device}
    {fetched : BTreeMap String Bytes} (h : Admitted ws m blobSource device rules fetched) :
    validateManifestPaths m = .ok () := (Except.bind_unit_ok.mp h.valid).2

theorem Admitted.excluded {blobSource : String → Except String Bytes} {device : Device}
    {fetched : BTreeMap String Bytes} (h : Admitted ws m blobSource device rules fetched) (q : RelPath)
    (hq : device.tree.get q ≠ none) (hslash : '\\' ∉ q) (hinternal : isInternal q = false)
    (hnot : ¬ Visible rules device.tree q) (p : RelPath) (hp : Within q p) : m.get p = none :=
  unlisted_of_checked (List.Perm.refl _) (h.checked _ (List.Perm.refl _)) q hq hslash hinternal hnot p hp

/-- When what is not listed has been removed, only what is seen to is in the
way. -/
theorem Emptied.obstacles {tree : WorkingTree} {listing : List RelPath} (hlisting : listing.Perm start.nodes.keys)
    (h : Emptied env start m (collectWorkspacePaths rules start listing).1 tree) :
    Obstacles m rules start tree [] tree := by
  refine ⟨fun q n hq hnot => .inr ⟨⟨?_, hq⟩, by simp, ?_⟩, fun _ _ _ _ _ h => h, by simp⟩
  · rcases h.paths q with heq | hnone
    · rw [← heq]
      exact hq
    · rw [hnone] at hq
      cases hq
  · rintro ⟨hmet, hunlisted⟩
    have hdir : start.get q ≠ some .directory := by
      intro hdir
      rcases h.paths q with heq | hnone
      · rw [heq, hdir] at hq
        exact hnot (Option.some.inj hq).symm
      · rw [hnone] at hq
        cases hq
    rw [h.gone q ((mem_localPaths hlisting).mpr hmet) hunlisted hdir] at hq
    cases hq

/-- An internal name stays, unless a directory above it went with all that was
in it. -/
theorem Emptied.blocks {tree : WorkingTree} {listing : List RelPath} {n : Node FileContent}
    (hlisting : listing.Perm start.nodes.keys)
    (h : Emptied env start m (collectWorkspacePaths rules start listing).1 tree) (hblocks : Blocks m start q p n) :
    tree.get q = some n ∨ (env.diskFails ∧ ∃ r, Met rules start r ∧ m.get r = none ∧ Beneath r q ∧
      ∀ x, Within r x → tree.get x = none) := by
  have hnot : q ∉ (collectWorkspacePaths rules start listing).1 := by
    intro hin
    have hinternal := ((mem_localPaths hlisting).mp hin).not_internal
    rw [hblocks.internal] at hinternal
    cases hinternal
  rcases h.lost q hnot with heq | ⟨hfails, r, hr, hlost⟩
  · exact .inl (heq.trans hblocks.node)
  · exact .inr ⟨hfails, r, (mem_localPaths hlisting).mp hr, hlost⟩

theorem mem_removals {listing : List RelPath} (hlisting : listing.Perm start.nodes.keys) :
    p ∈ (collectWorkspacePaths rules start listing).1.insertionSort DeeperFirst ↔ Met rules start p :=
  (List.mem_insertionSort DeeperFirst).trans (mem_localPaths hlisting)

theorem Emptied.of_perm {done done' : List RelPath} {tree : WorkingTree} (hperm : ∀ q, q ∈ done ↔ q ∈ done')
    (h : Emptied env start m done tree) : Emptied env start m done' tree := by
  refine ⟨h.paths, fun q hq => h.gone q ((hperm q).mpr hq), fun q hq => h.shallow q fun r hr => hq r ((hperm r).mp hr),
    fun q hq => ?_⟩
  rcases h.lost q fun hin => hq ((hperm q).mp hin) with heq | ⟨hfails, r, hr, hlost⟩
  · exact .inl heq
  · exact .inr ⟨hfails, r, (hperm r).mp hr, hlost⟩

theorem guarded_removeEntriesMissingFromRemote {c : Crypto} {listing : List RelPath}
    (hlisting : listing.Perm start.nodes.keys) (hunlinked : Unlinked env m rules start)
    (hE : Hindered env m rules start → ∀ u, E u) (hstart : t.device.tree = start) :
    Fallible.Guarded (sem env) (Op.Inside c) E
      (removeEntriesMissingFromRemote m (collectWorkspacePaths rules start listing).1) t fun _ t' => ∃ tree,
        t' = t.setTree tree ∧ Emptied env start m (collectWorkspacePaths rules start listing).1 tree ∧
          ∀ p, Met rules start p → m.get p = none → ¬ Hinders start p := by
  have hsorted : ((collectWorkspacePaths rules start listing).1.insertionSort DeeperFirst).Pairwise DeeperFirst :=
    List.pairwise_insertionSort _ _
  unfold removeEntriesMissingFromRemote
  refine (guarded_removals hsorted (fun done p rest hl hp hvalid q hq hlink => ?_) (fun p hp hunlisted hhinders tree =>
    hE (.removal p ((mem_removals hlisting).mp hp) hunlisted hhinders) _) (fun hfails tree => hE (.disk hfails) _)
    hstart).weaken (fun _ h => h) fun _ t' h => ?_
  · have hpmet : Met rules start p := by
      rw [← mem_removals hlisting, hl]
      simp
    obtain ⟨r, hrmet, hrunlisted, hdepth, hhinders⟩ := hunlinked.removals p q hpmet hp hvalid hq hlink
    refine ⟨r, ?_, hrunlisted, hhinders⟩
    -- what is deeper goes first
    have hr := (mem_removals hlisting).mpr hrmet
    rw [hl] at hr hsorted
    rcases List.mem_append.mp hr with hr | hr
    · exact hr
    · have hdeeper : DeeperFirst p r := by
        rcases List.mem_cons.mp hr with rfl | hr
        · exact Nat.le_refl _
        · exact (List.pairwise_cons.mp (List.pairwise_append.mp hsorted).2.1).1 r hr
      unfold DeeperFirst at hdeeper
      omega
  · obtain ⟨tree, rfl, hemptied, hfree⟩ := h
    exact ⟨tree, rfl, hemptied.of_perm fun q => List.mem_insertionSort DeeperFirst,
      fun p hp => hfree p ((mem_removals hlisting).mpr hp)⟩

/-- What follows the checks fails only if it is hindered. -/
theorem guarded_applyChanges {blobSource : String → Except String Bytes} {fetched : BTreeMap String Bytes}
    {listing : List RelPath} (hlisting : listing.Perm w.device.tree.nodes.keys)
    (hadmitted : Admitted ws m blobSource w.device rules fetched) (hunlinked : Unlinked env m rules w.device.tree)
    (hE : Hindered env m rules w.device.tree → ∀ u, E u) :
    Fallible.Guarded (sem env) (Op.Inside ws.digest) E
      (applyChanges ws m (isUnchanged ws w.device.tree) fetched (collectWorkspacePaths rules w.device.tree listing).1) w
      fun _ _ => ∀ p, Met rules w.device.tree p → m.get p = none → ¬ Hinders w.device.tree p := by
  refine Fallible.Guarded.bind (guarded_removeEntriesMissingFromRemote hlisting hunlinked hE rfl) fun _ t h => ?_
  obtain ⟨tree, rfl, hemptied, hfree⟩ := h
  refine Fallible.Guarded.bind
    (guarded_entries (List.append_nil _).symm hadmitted.paths (fetchBlobs_ok hadmitted.fetched)
    hadmitted.excluded (fun done item rest hl q n hblocks hthere => ?_) (fun hfails => hE (.disk hfails))
    (hemptied.obstacles hlisting)) fun _ t _ => ?_
  · have hlisted : m.get item.1 ≠ none := by
      have hin : m.get item.1 = some item.2 := BTreeMap.mem_toList.mp (by rw [hl]; simp)
      rw [hin]
      simp
    cases n with
    | file content => exact .inl ⟨⟨content, rfl⟩, hE (.blocked item.1 q content hlisted hblocks)⟩
    | directory => exact absurd rfl hblocks.notDir
    | other =>
      have hthere : tree.get q = some .other := hthere
      suffices hstill : ∃ item' ∈ done, ∃ q' n', Blocks m w.device.tree q' item'.1 n' ∧ tree.get q' = some n' from
        .inr hstill
      rcases hunlinked.entries item.1 q hlisted hblocks with ⟨r, hr, hrunlisted, hhinders⟩ | ⟨p', q', content, hp', hlt,
        hblocks', hstays⟩
      · exact absurd hhinders (hfree r hr hrunlisted)
      · obtain ⟨e', he'⟩ := mem_before hl hp' hlt
        refine ⟨(p', e'), he', q', _, hblocks', ?_⟩
        -- had it gone with a directory, so had the link
        rcases hemptied.blocks hlisting hblocks' with hkept | ⟨hfails, r, hr, hrunlisted, hbeneath, hgone⟩
        · exact hkept
        · rw [hgone q (hstays hfails r hr hrunlisted hbeneath).within] at hthere
          cases hthere
  · exact (guarded_saveManifest fun hfails => hE (.disk hfails) t).weaken (fun _ h => h) fun _ _ _ => hfree

/-- **An application fails when it has begun only if it is hindered.** -/
theorem guarded_applyPulledManifest {blobSource : String → Except String Bytes} (hedits : ¬ env.edits)
    (hunlinked : ∀ rules fetched, Admitted ws m blobSource w.device rules fetched → Unlinked env m rules w.device.tree)
    (hrefused : E w) (hE : ∀ rules, Hindered env m rules w.device.tree → ∀ u, E u) :
    Fallible.Guarded (sem env) (fun _ _ => True) E (applyPulledManifest ws m blobSource) w fun _ _ =>
      ∃ rules fetched, Admitted ws m blobSource w.device rules fetched ∧
        ∀ p, Met rules w.device.tree p → m.get p = none → ¬ Hinders w.device.tree p :=
  guarded_checks hedits hrefused fun rules fetched _ hlisting hadmitted =>
    ((guarded_applyChanges hlisting hadmitted (hunlinked rules fetched hadmitted) (hE rules)).mono_may
      fun _ _ _ => trivial).weaken (fun _ h => h) fun _ _ h => ⟨rules, fetched, hadmitted, h⟩

/-! ### Runs -/

/-- Where everything is admitted, the changes follow. -/
theorem Admitted.reaches {blobSource : String → Except String Bytes} {fetched : BTreeMap String Bytes}
    {out : Option (SyncResult Unit)} {listing : List RelPath} (h : Admitted ws m blobSource w.device rules fetched)
    (hlisting : listing.Perm w.device.tree.nodes.keys)
    (hrun : Fallible.Reaches (sem env) (applyChanges ws m (isUnchanged ws w.device.tree) fetched
      (collectWorkspacePaths rules w.device.tree listing).1) w out t) :
    Fallible.Reaches (sem env) (applyPulledManifest ws m blobSource) w out t := by
  have hcheck {α β : Type} {a : LocalResult α} {b : α} {f : α → Sync β} {out : Option (SyncResult β)} {u u' : World}
      (ha : a = .ok b) (hf : Fallible.Reaches (sem env) (f b) u out u') :
      Fallible.Reaches (sem env) (engine a >>= f) u out u' := by
    subst ha
    exact hf
  have hread : sem env .read w (.ok (w.device, listing)) w := .inl ⟨w.device.tree, _, .inl rfl, hlisting, rfl, rfl⟩
  refine hcheck h.valid (Prog.Reaches.call hread ?_)
  exact hcheck h.loaded (hcheck (h.checked _ hlisting) (hcheck h.fetched hrun))

/-- A part of the entries from the beginning can be put in place where nothing
blocks them. -/
theorem Admitted.places {blobSource : String → Except String Bytes} {fetched : BTreeMap String Bytes}
    {before after : List (RelPath × ManifestEntry)} {listing : List RelPath} {tree : WorkingTree}
    (h : Admitted ws m blobSource w.device rules fetched) (hlisting : listing.Perm w.device.tree.nodes.keys)
    (hl : m.entries.toList = before ++ after)
    (hemptied : Emptied env w.device.tree m (collectWorkspacePaths rules w.device.tree listing).1 tree)
    (hfree : ∀ item ∈ before, ∀ q n, Blocks m w.device.tree q item.1 n → tree.get q ≠ some n) :
    ∃ t, Fallible.Reaches (sem env) (before.forM (applyEntry ws (isUnchanged ws w.device.tree) fetched))
      (w.setTree tree)
      (some (.ok ())) t ∧ Obstacles m rules w.device.tree tree before t.device.tree := by
  have hguarded : Fallible.Guarded (sem env.reliable) (Op.Inside ws.digest) (fun _ => False)
      (before.forM (applyEntry ws (isUnchanged ws w.device.tree) fetched)) (w.setTree tree) fun _ t =>
        Obstacles m rules w.device.tree tree before t.device.tree :=
    guarded_entries hl h.paths (fetchBlobs_ok h.fetched) h.excluded (fun done item rest hbefore q n hblocks hthere =>
      absurd hthere (hfree item (by rw [hbefore]; simp) q n hblocks)) (fun hnever => hnever.elim)
      (hemptied.obstacles hlisting)
  obtain ⟨_, t, hrun, hobstacles⟩ := succeeds_reliable hguarded
  exact ⟨t, hrun, hobstacles⟩

/-- Nothing blocks an entry of a tree. -/
theorem not_blocks {n : Node FileContent} (hm : m.TreeShaped) (hp : m.get p ≠ none) : ¬ Blocks m start q p n := by
  intro hblocks
  obtain ⟨e, he⟩ := Option.ne_none_iff_exists'.mp hp
  have hlisted := hm p e he q hblocks.above
  rw [hblocks.unlisted] at hlisted
  cases hlisted

/-- Without backslashes, what the walk meets can be removed. -/
theorem Met.open (h : Met rules start p) (hnames : NoBackslash start) : validateLocalPath p = .ok () ∧
    Open start p := by
  have hsome := (h.visible hnames).1
  exact ⟨validateLocalPath_of_inside (.of_local hsome h.not_internal) (hnames p hsome), open_of_some hsome⟩

theorem Met.not_hinders (h : Met rules start p) (hnames : NoBackslash start) : ¬ Hinders start p := by
  obtain ⟨hvalid, hopen⟩ := h.open hnames
  rintro (hinvalid | ⟨q, content, hq, hfile⟩)
  · exact hinvalid hvalid
  · rcases hopen q hq with hdir | hnone
    · rw [hfile] at hdir
      cases hdir
    · rw [hfile] at hnone
      cases hnone

theorem Unlinked.of_treeShaped (hm : m.TreeShaped) (hnames : NoBackslash start) : Unlinked env m rules start :=
  ⟨fun _ _ hp _ _ hq hlink => absurd hlink ((hp.open hnames).2.unlinked hq),
    fun _ _ hp hblocks => absurd hblocks (not_blocks hm hp)⟩

/-- An application of a tree is hindered only by the disk. -/
theorem Hindered.fails (h : Hindered env m rules start) (hm : m.TreeShaped) (hnames : NoBackslash start) :
    env.diskFails := by
  rcases h with hfails | ⟨p, hmet, _, hhinders⟩ | ⟨p, q, content, hp, hblocks⟩
  · exact hfails
  · exact absurd hhinders (hmet.not_hinders hnames)
  · exact absurd hblocks (not_blocks hm hp)

/-- What is admitted can be applied where all removals can be made, and any
directory that is removed may not have been looked at. -/
theorem Admitted.applies {blobSource : String → Except String Bytes} {fetched : BTreeMap String Bytes}
    (h : Admitted ws m blobSource w.device rules fetched) (hm : m.TreeShaped)
    (hopen : ∀ p, Met rules w.device.tree p → m.get p = none → validateLocalPath p = .ok () ∧ Open w.device.tree p)
    (unseen : RelPath → Prop) (hunseen : ∀ p, unseen p → env.diskFails) :
    ∃ t, Fallible.Reaches (sem env) (applyPulledManifest ws m blobSource) w (some (.ok ())) t ∧
      ∀ p, Met rules w.device.tree p → m.get p = none → unseen p → w.device.tree.get p = some .directory →
        ∀ q, Within p q → t.device.tree.get q = none := by
  have hlisting : w.device.tree.nodes.keys.Perm w.device.tree.nodes.keys := List.Perm.refl _
  have hsorted : ((collectWorkspacePaths rules w.device.tree w.device.tree.nodes.keys).1.insertionSort
      DeeperFirst).Pairwise DeeperFirst := List.pairwise_insertionSort _ _
  obtain ⟨tree, hremoved, hemptied, hgone, _⟩ := removals_run ws.digest unseen hunseen hsorted
    fun p hp => hopen p ((mem_removals hlisting).mp hp)
  have hemptied := hemptied.of_perm fun q => List.mem_insertionSort DeeperFirst
  obtain ⟨t, hplaced, _⟩ := h.places hlisting (List.append_nil _).symm hemptied fun item hitem q n hblocks =>
    absurd hblocks (not_blocks hm (by
      have hin : m.get item.1 = some item.2 := BTreeMap.mem_toList.mp hitem
      rw [hin]
      simp))
  have hsaved : Fallible.Reaches (sem env) (perform (.saveManifest m)) t (some (.ok ())) (t.setStaged m) :=
    Prog.Reaches.call (.inl ⟨rfl, rfl⟩) (.done _ _)
  refine ⟨_, h.reaches hlisting (hremoved.bind (hplaced.bind hsaved)), fun p hp hunlisted hmiss hdir q hq => ?_⟩
  -- what is not listed is not put back
  have hstart : Removing env ws w rules m w.device.tree w := ⟨.refl w, fun _ => .inl rfl⟩
  have hremoving := (runs_removeEntriesMissingFromRemote hm (fun r hr => (mem_localPaths hlisting).mp hr) hstart).ok
    hremoved
  have hroot : m.get [] = none := by
    by_contra hsome
    exact absurd (InWorkspace.of_valid (listed_valid h.paths hsome).1).ne_nil (by simp)
  have hentries := (runs_applyEntries hm (fetchBlobs_ok h.fetched) hroot hremoving.1.placed).ok hplaced
  have hqunlisted : m.get q = none := by
    rcases hq with rfl | hq
    · exact hunlisted
    · exact hm.none_beneath (by rw [hunlisted]; simp) hq
  rcases hentries.unlisted q hqunlisted with heq | ⟨hnone, _⟩
  · exact heq.trans (hgone p ((mem_removals hlisting).mpr hp) hunlisted hmiss hdir q hq)
  · exact hnone

theorem Admitted.succeeds {blobSource : String → Except String Bytes} {fetched : BTreeMap String Bytes}
    (h : Admitted ws m blobSource w.device rules fetched) (hm : m.TreeShaped) (hnames : NoBackslash w.device.tree) :
    ∃ t, Fallible.Reaches (sem env) (applyPulledManifest ws m blobSource) w (some (.ok ())) t := by
  obtain ⟨t, hrun, _⟩ : ∃ t, Fallible.Reaches (sem env) (applyPulledManifest ws m blobSource) w (some (.ok ())) t ∧ _ :=
    h.applies hm (fun p hp _ => hp.open hnames) (fun _ => False) fun _ h => h.elim
  exact ⟨t, hrun⟩

theorem admitted_loaded {blobSource : String → Except String Bytes} {tree : WorkingTree}
    (hloaded : IgnoreRules.load ws.ignore tree none = .ok rules) (hvalid : validatePulledManifest ws m = .ok ())
    (hchecked : checkProtected m (collectWorkspacePaths rules tree tree.nodes.keys).2 = .ok ())
    (hfetched : (fetchBlobs ws tree m blobSource).isOk = true) :
    ∃ fetched, Admitted ws m blobSource (worldOf tree).device rules fetched := by
  obtain ⟨fetched, hfetched⟩ := Except.isOk_iff.mp hfetched
  exact ⟨fetched, hvalid, hloaded, fun listing hlisting => checkProtected_perm hlisting.symm hchecked, hfetched⟩

/-- The first application to a tree without an ignore file. -/
theorem admitted_first {blobSource : String → Except String Bytes} {tree : WorkingTree}
    (hvalid : validatePulledManifest ws m = .ok ()) (hignore : tree.get ignoreFile = none)
    (hchecked : checkProtected m (collectWorkspacePaths ⟨fun _ _ => false, ∅⟩ tree tree.nodes.keys).2 = .ok ())
    (hfetched : (fetchBlobs ws tree m blobSource).isOk = true) :
    ∃ rules fetched, Admitted ws m blobSource (worldOf tree).device rules fetched := by
  refine ⟨_, admitted_loaded ?_ hvalid hchecked hfetched⟩
  unfold IgnoreRules.load loadMatcher
  rw [hignore]
  rfl

end Application

end RustSync
