/-
Trees without ignore rules

Where there is no ignore file and no internal name, nothing is hidden. A scan
then lists exactly the tree (`scan_mirrors`), an application makes the tree
exactly the manifest (`Applied.mirrors`), and what is combined from two plain
sides is plain (`combined_plain`).

Key definitions: `PlainTree`, `PlainManifest`, `Mirrors`.
-/
import RustSync.Sync.AllOrNothing
import RustSync.Sync.Applicable

namespace RustSync

section Plain

variable {c : Crypto} {ignore : IgnoreSyntax} {workspaceId : WorkspaceId} {tree : WorkingTree}
  {staged : Option Manifest} {rules : IgnoreRules} {m m' : Manifest} {p q : RelPath}

/-- No ignore file, and no internal name. -/
structure PlainTree (tree : WorkingTree) : Prop where
  rules : tree.get ignoreFile = none
  names : ∀ p, tree.get p ≠ none → isInternal p = false

/-- A tree of valid paths, no ignore file, and no internal name. -/
structure PlainManifest (m : Manifest) : Prop where
  shaped : m.TreeShaped
  rules : m.get ignoreFile = none
  names : ∀ p, m.get p ≠ none → isInternal p = false
  valid : PathsValid m

/-- The tree is what the manifest lists. -/
structure Mirrors (c : Crypto) (tree : WorkingTree) (m : Manifest) : Prop where
  listed : ∀ p e, m.get p = some e → Matches c (tree.get p) e
  unlisted : ∀ p, m.get p = none → tree.get p = none

theorem Mirrors.agree (h : Mirrors c tree m) (hagree : m.Agree m') : Mirrors c tree m' := by
  refine ⟨fun p e he => ?_, fun p hp => ?_⟩
  · have hequal := hagree p
    rw [he] at hequal
    cases hm : m.get p with
    | none =>
      rw [hm] at hequal
      cases e <;> cases hequal
    | some e' =>
      rw [hm] at hequal
      exact entriesEqual_trans (h.listed p e' hm) hequal
  · have hequal := hagree p
    rw [hp, entriesEqual_none] at hequal
    exact h.unlisted p hequal

/-- Without an ignore file only internal names are excluded. -/
theorem excludes_plain (hload : IgnoreRules.load ignore tree staged = .ok rules) (h : tree.get ignoreFile = none)
    (d : Bool) : rules.excludes q d = isInternal q := by
  obtain ⟨matcher, hmatcher, hrules⟩ := Except.bind_ok.mp hload
  cases hrules
  unfold loadMatcher at hmatcher
  rw [h] at hmatcher
  cases hmatcher
  simp [IgnoreRules.excludes]

theorem not_internal_above (hpq : Within p q) (hq : isInternal q = false) : isInternal p = false := by
  by_contra hp
  rw [isInternal_within hpq (by simpa using hp)] at hq
  cases hq

theorem visible_plain (hload : IgnoreRules.load ignore tree staged = .ok rules) (h : PlainTree tree) :
    Visible rules tree p ↔ tree.get p ≠ none := by
  refine ⟨fun hp => hp.1, fun hp => ⟨hp, fun q hq => ?_⟩⟩
  rw [excludes_plain hload h.rules]
  exact not_internal_above hq (h.names p hp)

/-- The lowest of what is in a directory has nothing in it. -/
theorem exists_anchor (hp : tree.get p ≠ none) : ∃ q, Within p q ∧ Anchor tree q := by
  have hmem {q : RelPath} : q ∈ tree.nodes.keys.toFinset.filter (Within p ·) ↔ Within p q ∧ tree.get q ≠ none := by
    rw [Finset.mem_filter, List.mem_toFinset, and_comm]
    exact and_congr_right fun _ => FileTree.mem_keys
  obtain ⟨q, hq, hmax⟩ := Finset.exists_max_image _ List.length ⟨p, hmem.mpr ⟨within_self p, hp⟩⟩
  obtain ⟨hpq, hsome⟩ := hmem.mp hq
  refine ⟨q, hpq, hsome, fun _ => ?_⟩
  by_contra hoccupied
  obtain ⟨r, hr, hrsome⟩ := FileTree.occupied_iff.mp (by simpa using hoccupied)
  have hle := hmax r (hmem.mpr ⟨hpq.trans hr.within, hrsome⟩)
  have hlt := hr.length_lt
  omega

theorem scanned_plain (hload : IgnoreRules.load ignore tree staged = .ok rules) (h : PlainTree tree) :
    Scanned rules tree p ↔ tree.get p ≠ none := by
  refine ⟨fun hp => hp.visible.1, fun hp => ?_⟩
  obtain ⟨q, hpq, hanchor⟩ := exists_anchor hp
  exact ⟨q, hpq, (visible_plain hload h).mpr hanchor.1, hanchor⟩

theorem noBackslash_of_scan (h : buildManifest c ignore workspaceId tree staged = .ok m) (hplain : PlainTree tree) :
    NoBackslash tree := by
  obtain ⟨rules, hrules, _, hfine, _⟩ := scan_get h
  intro p hp
  exact (validateManifestPath_ok.mp (hfine p ((visible_plain hrules hplain).mpr hp)).1).2.2.1

/-- **A scan lists exactly a plain tree.** -/
theorem scan_mirrors (h : buildManifest c ignore workspaceId tree staged = .ok m) (hplain : PlainTree tree) :
    Mirrors c tree m ∧ PlainManifest m := by
  obtain ⟨rules, hrules, _, _, hget⟩ := scan_get h
  have hlists {p : RelPath} : m.get p ≠ none ↔ tree.get p ≠ none :=
    (scan_lists h hrules).trans (scanned_plain hrules hplain)
  refine ⟨⟨fun p e he => ?_, fun p hp => ?_⟩, scan_treeShaped h, ?_, fun p hp => ?_, fun p hp => ?_⟩
  · have hsome : tree.get p ≠ none := hlists.mp (by rw [he]; simp)
    have hentry := (hget p).1 ((scanned_plain hrules hplain).mpr hsome)
    unfold Matches
    rw [← hentry, he]
    exact entriesEqual_self _
  · by_contra hsome
    exact hlists.mpr hsome hp
  · by_contra hsome
    exact hlists.mp hsome hplain.rules
  · exact hplain.names p (hlists.mp hp)
  · have hsome := hlists.mp hp
    exact validateLocalPath_of_inside (.of_local hsome (hplain.names p hsome)) (noBackslash_of_scan h hplain p hsome)

end Plain

/-! ### Applications -/

section Applied

variable {env : Setting} {ws : Workspace} {w t : World} {m : Manifest} {rules : IgnoreRules} {start : WorkingTree}

/-- **An application makes a plain tree exactly the manifest.** -/
theorem Applied.mirrors (h : Applied env ws w rules m start t) (hm : PlainManifest m) (hstart : PlainTree start)
    (hnames : NoBackslash start) : Mirrors ws.digest t.device.tree m ∧ PlainTree t.device.tree := by
  have hexact := h.exact hm.shaped hnames
  have hvisible {p : RelPath} (hp : m.get p = none) (hsome : t.device.tree.get p ≠ none) :
      Visible rules t.device.tree p := by
    refine (h.visible hp).mpr ⟨(visible_plain h.begun.loaded hstart).mpr ?_, hsome⟩
    rw [← h.same hp hsome]
    exact hsome
  have hunlisted (p : RelPath) (hp : m.get p = none) : t.device.tree.get p = none := by
    by_contra hsome
    obtain ⟨_, q, _, hq, hqsome, hnot⟩ := hexact.retained p hp (hvisible hp hsome)
    exact hnot (hvisible hq hqsome)
  refine ⟨⟨hexact.listed, hunlisted⟩, hunlisted _ hm.rules, fun p hp => hm.names p fun hnone => ?_⟩
  exact hp (hunlisted p hnone)

end Applied

/-! ### Combining -/

section Combined

variable {c : Crypto} {blobs : Blobs} {base loc remote : Manifest} {conflicts₀ : BTreeMap RelPath ConflictRecord}
  {revision : ℕ} {plan : ReconciliationPlan} {out : Combining} {p q : RelPath} {tail name : List Char}

theorem isInternalName_copy (htail : CopyTail tail) (h : isInternalName name = false) :
    isInternalName (name ++ tail) = false := by
  have hlength := htail.length
  obtain ⟨more, rfl, _⟩ := htail
  unfold isInternalName at h ⊢
  rw [decide_eq_false_iff_not, not_or] at h ⊢
  refine ⟨fun heq => ?_, fun hstart => ?_⟩
  · have hlen := congrArg List.length heq
    rw [List.length_append, show ".rustsync".toList.length = 9 from rfl] at hlen
    omega
  · obtain ⟨after, hafter⟩ := hstart
    by_cases hlong : 14 ≤ name.length
    · exact h.2 (List.prefix_of_prefix_length_le ⟨after, hafter⟩ (List.prefix_append name _) hlong)
    · -- where the tail begins there is a dot, and in the name of a temporary file only in front
      have hleft (k : ℕ) (hk : k < 14) :
          (".rustsync-tmp-".toList ++ after)[k]? = ".rustsync-tmp-".toList[k]? :=
        List.getElem?_append_left (by rw [show ".rustsync-tmp-".toList.length = 14 from rfl]; omega)
      have hright (k : ℕ) : (name ++ (".rustsync-conflict-remote-r".toList ++ more))[name.length + k]? =
          (".rustsync-conflict-remote-r".toList ++ more)[k]? := by
        rw [List.getElem?_append_right (by omega), Nat.add_sub_cancel_left]
      have hdot : ∀ k < 14, 0 < k → ".rustsync-tmp-".toList[k]? ≠ some '.' := by decide
      by_cases hzero : name.length = 0
      · have htenth := hright 10
        rw [← hafter, hzero, Nat.zero_add, hleft 10 (by omega),
          List.getElem?_append_left (by rw [show ".rustsync-conflict-remote-r".toList.length = 27 from rfl]; omega)]
          at htenth
        exact absurd htenth (by decide)
      · have hfirst := hright 0
        rw [← hafter, Nat.add_zero, hleft _ (by omega)] at hfirst
        exact hdot _ (by omega) (by omega) hfirst

/-- A copy has an internal name only where an original has. -/
theorem isInternal_copy (htail : CopyTail tail) (hp : isInternal p = false) (hpq : Within p q)
    (hq : isInternal q = false) : isInternal (reroot p (p ++ tail) q) = false := by
  obtain ⟨rest, rfl, hrest⟩ := within_iff.mp hpq
  obtain ⟨init, last, hinit, hlast⟩ := components_append_noSlash htail.noSlash p
  unfold isInternal at hp hq ⊢
  have hcopy : (components (p ++ tail)).any isInternalName = false := by
    rw [hinit, List.any_append, Bool.or_eq_false_iff, List.any_cons, List.any_nil, Bool.or_false] at hp
    rw [hlast, List.any_append, hp.1, Bool.false_or, List.any_cons, List.any_nil, Bool.or_false]
    exact isInternalName_copy htail hp.2
  unfold reroot
  rw [List.drop_left]
  rcases hrest with rfl | ⟨after, rfl⟩
  · rw [List.append_nil]
    exact hcopy
  · rw [components_append_slash, List.any_append, Bool.or_eq_false_iff] at hq ⊢
    exact ⟨hcopy, hq.2⟩

/-- A path that may be in a plain manifest. -/
structure PlainPath (p : RelPath) : Prop where
  rules : p ≠ ignoreFile
  names : isInternal p = false
  valid : validateLocalPath p = .ok ()

theorem PlainManifest.path (h : PlainManifest loc) (hp : loc.get p ≠ none) : PlainPath p := by
  refine ⟨?_, h.names p hp, h.valid p hp⟩
  rintro rfl
  exact hp h.rules

theorem PlainPath.copy (htail : CopyTail tail) (hp : PlainPath p) (hpq : Within p q) (hq : PlainPath q) :
    PlainPath (reroot p (p ++ tail) q) := by
  refine ⟨fun heq => ?_, isInternal_copy htail hp.names hpq hq.names,
    validateLocalPath_copy htail hp.valid hpq hq.valid⟩
  have hlength := htail.length
  have hlen := congrArg List.length heq
  unfold reroot at hlen
  rw [List.length_append, List.length_append, show ignoreFile.length = 15 from rfl] at hlen
  omega

variable (c blobs base revision) in
theorem insertsOf_plain (hloc : PlainManifest loc) (hremote : PlainManifest remote) (s : Combining)
    (item : ReconciliationPath) : ∀ x ∈ insertsOf c blobs base loc remote revision s item, PlainPath x.1 := by
  have hsided {p : RelPath} (hp : Sided loc remote p) : PlainPath p := by
    rcases hp with hp | hp
    · exact hloc.path hp
    · exact hremote.path hp
  have hitem (h : resolve c blobs base loc remote item.path ≠ .entry none) : Sided loc remote item.path := by
    by_contra hnot
    exact h (resolve_unsided hnot)
  intro x hx
  unfold insertsOf at hx
  cases hresolve : resolve c blobs base loc remote item.path with
  | entry e =>
    rw [hresolve] at hx
    cases e with
    | none => simp at hx
    | some e =>
      simp only [Option.map_some, Option.toList_some, List.mem_singleton] at hx
      subst hx
      exact hsided (hitem (by rw [hresolve]; simp))
  | conflict =>
    rw [hresolve] at hx
    rcases List.mem_append.mp hx with hx | hx
    · exact hsided (.inl (by rw [(mem_subtree.mp hx).2]; simp))
    · obtain ⟨⟨q, e⟩, hq, rfl⟩ := List.mem_map.mp hx
      obtain ⟨hwithin, he⟩ := mem_subtree.mp hq
      obtain ⟨tail, hcopy, htail⟩ := copyTail_free s.reservedPaths item.path revision
      simp only [hcopy]
      exact .copy htail (hsided (hitem (by rw [hresolve]; simp))) hwithin (hsided (.inr (by rw [he]; simp)))

/-- **What is combined from plain sides is plain.** -/
theorem combined_plain (hloc : PlainManifest loc) (hremote : PlainManifest remote)
    (hplan : planReconciliation base loc remote = .ok plan)
    (hcombine : combine c blobs base loc remote revision conflicts₀ plan = .ok out) : PlainManifest out.combined := by
  have hpaths : ∀ p, out.combined.get p ≠ none → PlainPath p := by
    refine foldlM_inv (fun _ (s : Combining) => ∀ p, s.combined.get p ≠ none → PlainPath p)
      (fun p hp => absurd Manifest.get_new hp) ?_ hcombine
    intro done item rest s s' hsplit hs hstep p hp
    have hinserted := insertsOf_plain c blobs base revision hloc hremote s item
    obtain ⟨m, hm⟩ := insertAll_succeeds (m := s.combined) fun x hx => validateManifestPath_of_local
      (hinserted x hx).valid
    obtain ⟨s'', hs'', rfl⟩ := combinePath_inserts (planned_spec hplan hsplit).2.1 hm
    obtain rfl : s' = s'' := Except.ok.inj (hstep.symm.trans hs'')
    by_cases hin : ∃ e, (p, e) ∈ insertsOf c blobs base loc remote revision s item
    · obtain ⟨e, he⟩ := hin
      exact hinserted (p, e) he
    · push Not at hin
      rw [get_insertAll_of_not_mem hm hin] at hp
      exact hs p hp
  refine ⟨combined_treeShaped hloc.shaped hremote.shaped hplan hcombine, ?_, fun p hp => (hpaths p hp).names,
    fun p hp => (hpaths p hp).valid⟩
  by_contra hsome
  exact (hpaths _ hsome).rules rfl

end Combined

end RustSync
