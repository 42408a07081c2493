/-
The combined manifest

What the combining loop makes of trees, whatever the base is. Above a planned
path either both sides have directories, or the subtree is taken from one
side; so the combined manifest is a tree (`combined_treeShaped`). Where
nothing is merged and nothing conflicts, it has the local entries but for the
downloads (`combine_plain`).

Key definitions: `Plain`. Key theorems: `combined_treeShaped`,
`combine_plain`.
-/
import RustSync.Sync.NoLostUpdate

namespace RustSync

section Resolutions

variable {c : Crypto} {blobs : Blobs} {base loc remote : Manifest} {p q : RelPath}

theorem subtreesEqual_within {left right : Manifest} (h : subtreesEqual left right q = true) (hp : Within q p) :
    subtreesEqual left right p = true :=
  subtreesEqual_iff.mpr fun r hr => subtreesEqual_iff.mp h r (hp.trans hr)

theorem not_structural_iff : ¬ Structural loc remote p ↔ isDirectory (loc.get p) = isDirectory (remote.get p) :=
  not_not

variable (c blobs remote) in
/-- Where the local subtree is that of the base, the remote one is taken. -/
theorem resolve_download (h : subtreesEqual base loc p = true) :
    ∃ x, resolve c blobs base loc remote p = .entry x ∧ entriesEqual x (remote.get p) = true := by
  have hself : entriesEqual (base.get p) (loc.get p) = true := subtreesEqual_iff.mp h p (within_self p)
  unfold resolve actionOf
  by_cases hstructural : isDirectory (loc.get p) ≠ isDirectory (remote.get p)
  · rw [if_pos hstructural, if_pos h]
    exact ⟨_, rfl, entriesEqual_self _⟩
  · rw [if_neg hstructural]
    unfold reconcileEntry
    by_cases hsame : entriesEqual (loc.get p) (remote.get p) = true
    · rw [if_pos hsame]
      exact ⟨_, rfl, hsame⟩
    · rw [if_neg hsame, if_pos hself]
      exact ⟨_, rfl, entriesEqual_self _⟩

/-- Where the remote subtree is that of the base, the local one is kept. -/
theorem resolve_upload (h : subtreesEqual base remote p = true) :
    resolve c blobs base loc remote p = .entry (loc.get p) := by
  have hself : entriesEqual (base.get p) (remote.get p) = true := subtreesEqual_iff.mp h p (within_self p)
  have hsame (hloc : entriesEqual (base.get p) (loc.get p) = true) :
      entriesEqual (loc.get p) (remote.get p) = true := by
    rw [← entriesEqual_congr hloc]
    exact hself
  unfold resolve actionOf
  by_cases hstructural : isDirectory (loc.get p) ≠ isDirectory (remote.get p)
  · have hdown : ¬ subtreesEqual base loc p = true := fun hdown =>
      hstructural (isDirectory_congr (hsame (subtreesEqual_iff.mp hdown p (within_self p))))
    rw [if_pos hstructural, if_neg hdown, if_pos h]
  · rw [if_neg hstructural]
    unfold reconcileEntry
    by_cases heq : entriesEqual (loc.get p) (remote.get p) = true
    · rw [if_pos heq]
    · rw [if_neg heq, if_neg fun hloc => heq (hsame hloc), if_pos hself]

/-- What is above a planned path: directories on both sides, or a subtree that
is taken from one. -/
theorem above_planned (hloc : loc.TreeShaped) (hremote : remote.TreeShaped) (hsided : Sided loc remote p)
    (hhidden : ¬ Hidden base loc remote p) (hq : Beneath q p) :
    (loc.get q = some .directory ∧ remote.get q = some .directory) ∨ subtreesEqual base loc q = true ∨
      subtreesEqual base remote q = true := by
  have hdir : loc.get q = some .directory ∨ remote.get q = some .directory := by
    rcases hsided with hsome | hsome
    · obtain ⟨e, he⟩ := Option.ne_none_iff_exists'.mp hsome
      exact .inl (hloc p e he q hq)
    · obtain ⟨e, he⟩ := Option.ne_none_iff_exists'.mp hsome
      exact .inr (hremote p e he q hq)
  by_cases hstructural : Structural loc remote q
  · right
    by_contra hnone
    push Not at hnone
    refine hhidden (hidden_iff.mpr ⟨q, hq, hstructural, ?_, ?_⟩)
    · exact Bool.not_eq_true _ ▸ hnone.1
    · exact Bool.not_eq_true _ ▸ hnone.2
  · left
    have hsame := not_structural_iff.mp hstructural
    rw [Bool.eq_iff_iff, isDirectory_iff, isDirectory_iff] at hsame
    rcases hdir with hdir | hdir
    · exact ⟨hdir, hsame.mp hdir⟩
    · exact ⟨hsame.mpr hdir, hdir⟩

theorem resolve_directories (hloc : loc.get q = some .directory) (hremote : remote.get q = some .directory) :
    resolve c blobs base loc remote q = .entry (some .directory) := by
  unfold resolve actionOf
  simp [hloc, hremote, reconcileEntry, entriesEqual]

/-- Above a conflict both sides have directories. -/
theorem above_conflict (hloc : loc.TreeShaped) (hremote : remote.TreeShaped) (hsided : Sided loc remote p)
    (hhidden : ¬ Hidden base loc remote p) (hconflict : resolve c blobs base loc remote p = .conflict)
    (hq : Beneath q p) : loc.get q = some .directory ∧ remote.get q = some .directory := by
  rcases above_planned hloc hremote hsided hhidden hq with hdirs | hdown | hup
  · exact hdirs
  · obtain ⟨x, hx, _⟩ := resolve_download c blobs remote (subtreesEqual_within hdown hq.within)
    rw [hx] at hconflict
    cases hconflict
  · rw [resolve_upload (subtreesEqual_within hup hq.within)] at hconflict
    cases hconflict

/-- Above a path that resolves to an entry there is a directory. -/
theorem resolve_above {e : ManifestEntry} (hloc : loc.TreeShaped) (hremote : remote.TreeShaped)
    (hsided : Sided loc remote p) (hhidden : ¬ Hidden base loc remote p)
    (he : resolve c blobs base loc remote p = .entry (some e)) (hq : Beneath q p) :
    resolve c blobs base loc remote q = .entry (some .directory) := by
  rcases above_planned hloc hremote hsided hhidden hq with ⟨hl, hr⟩ | hdown | hup
  · exact resolve_directories hl hr
  · obtain ⟨x, hx, hequal⟩ := resolve_download c blobs remote (subtreesEqual_within hdown hq.within)
    rw [he] at hx
    cases hx
    have hdir : remote.get q = some .directory := by
      cases hr : remote.get p with
      | none =>
        rw [hr] at hequal
        cases entriesEqual_none.mp hequal
      | some e' => exact hremote p e' hr q hq
    obtain ⟨y, hy, hequal'⟩ := resolve_download c blobs remote hdown
    have hydir : isDirectory y = true := by
      rw [isDirectory_congr hequal', hdir]
      rfl
    rw [hy, isDirectory_iff.mp hydir]
  · rw [resolve_upload (subtreesEqual_within hup hq.within)] at he
    have hp : loc.get p = some e := Resolution.entry.inj he
    rw [resolve_upload hup, hloc p e hp q hq]

end Resolutions

/-! ### The combined manifest is a tree -/

section Trees

variable {c : Crypto} {blobs : Blobs} {base loc remote : Manifest} {conflicts₀ : BTreeMap RelPath ConflictRecord}
  {revision : ℕ} {plan : ReconciliationPlan} {out : Combining}

theorem Combined.treeShaped {copyOf : RelPath → Option RelPath} (hloc : loc.TreeShaped) (hremote : remote.TreeShaped)
    (h : Combined c blobs base loc remote conflicts₀ (sidedPaths base loc remote) out copyOf) :
    out.combined.TreeShaped := by
  -- above a conflict
  have habove {r copy q : RelPath} (hr : copyOf r = some copy) (hq : Beneath q r) :
      out.combined.get q = some .directory := by
    obtain ⟨hmem, hconflict⟩ := (h.domain r).mp ⟨copy, hr⟩
    obtain ⟨hsided, hhidden⟩ := mem_sidedPaths.mp hmem
    obtain ⟨hl, hrem⟩ := above_conflict hloc hremote hsided hhidden hconflict hq
    refine h.entries q _ (mem_sidedPaths.mpr ⟨hsided.above hloc hremote hq.within, fun hh => ?_⟩)
      (resolve_directories hl hrem)
    exact hhidden (hh.beneath hq.within)
  intro p e he q hq
  by_cases hcopied : ∃ r copy, copyOf r = some copy ∧ Within copy p
  · obtain ⟨r, copy, hr, hwithin⟩ := hcopied
    rcases Within.linear hq.within hwithin with hqc | hcq
    · rcases hqc with rfl | hqc
      · rw [h.copies r copy p hr hwithin] at he
        rw [h.copies r copy copy hr (within_self _)]
        exact hremote _ e he _ (beneath_reroot (within_self _) hq)
      · obtain ⟨_, _, _, tail, htail, hslash⟩ := h.fresh r copy hr
        rw [htail] at hqc
        exact habove hr (beneath_append_of_noSlash hslash hqc)
    · rw [h.copies r copy p hr hwithin] at he
      rw [h.copies r copy q hr hcq]
      exact hremote _ e he _ (beneath_reroot hcq hq)
  · by_cases hkept : ∃ r copy, copyOf r = some copy ∧ Within r p
    · obtain ⟨r, copy, hr, hwithin⟩ := hkept
      rcases Within.linear hq.within hwithin with hqr | hrq
      · rcases hqr with rfl | hqr
        · rw [h.kept r copy p hr hwithin] at he
          rw [h.kept r copy r hr (within_self _)]
          exact hloc p e he r hq
        · exact habove hr hqr
      · rw [h.kept r copy p hr hwithin] at he
        rw [h.kept r copy q hr hrq]
        exact hloc p e he q hq
    · push Not at hcopied hkept
      have hmem : p ∈ sidedPaths base loc remote := by
        by_contra hnot
        rw [h.rest p hnot fun r copy hr => ⟨hcopied r copy hr, hkept r copy hr⟩] at he
        cases he
      obtain ⟨hsided, hhidden⟩ := mem_sidedPaths.mp hmem
      have hmemq : q ∈ sidedPaths base loc remote :=
        mem_sidedPaths.mpr ⟨hsided.above hloc hremote hq.within, fun hh => hhidden (hh.beneath hq.within)⟩
      cases hresolve : resolve c blobs base loc remote p with
      | conflict =>
        obtain ⟨copy, hcopy⟩ := (h.domain p).mpr ⟨hmem, hresolve⟩
        exact absurd (within_self p) (hkept p copy hcopy)
      | entry x =>
        rw [h.entries p x hmem hresolve] at he
        subst he
        exact h.entries q _ hmemq (resolve_above hloc hremote hsided hhidden hresolve hq)

/-- **What trees are combined to is a tree.** -/
theorem combined_treeShaped (hloc : loc.TreeShaped) (hremote : remote.TreeShaped)
    (hplan : planReconciliation base loc remote = .ok plan)
    (hcombine : combine c blobs base loc remote revision conflicts₀ plan = .ok out) : out.combined.TreeShaped := by
  obtain ⟨copyOf, h⟩ := combine_combined hloc hremote hplan hcombine
  exact h.treeShaped hloc hremote

end Trees

/-! ### Plans without merges and conflicts -/

section Plain

variable {c : Crypto} {blobs : Blobs} {base loc remote : Manifest} {conflicts₀ : BTreeMap RelPath ConflictRecord}
  {revision : ℕ} {plan : ReconciliationPlan} {out : Combining}

/-- Every path is taken from one side. -/
def Plain (base loc remote : Manifest) : Prop :=
  ∀ p, actionOf base loc remote p = .unchanged ∨ actionOf base loc remote p = .upload ∨
    actionOf base loc remote p = .download

/-- The entry a path is taken from. -/
def chosen (base loc remote : Manifest) (p : RelPath) : Option ManifestEntry :=
  match actionOf base loc remote p with
  | .download => remote.get p
  | _ => loc.get p

theorem Plain.not_hidden (h : Plain base loc remote) (p : RelPath) : ¬ Hidden base loc remote p := by
  intro hhidden
  obtain ⟨q, _, hstructural, hdown, hup⟩ := hidden_iff.mp hhidden
  have hconflict : actionOf base loc remote q = .conflict := by
    unfold Structural at hstructural
    simp [actionOf, hstructural, hdown, hup]
  rcases h q with ha | ha | ha <;> rw [hconflict] at ha <;> cases ha

/-- A plan without merges and conflicts is for such manifests. -/
theorem plain_of_plan (hplan : planReconciliation base loc remote = .ok plan)
    (h : ∀ item ∈ plan.paths, item.action ≠ .merge ∧ item.action ≠ .conflict) : Plain base loc remote := by
  intro p
  have hnot_hidden (q : RelPath) : ¬ Hidden base loc remote q := by
    intro hhidden
    obtain ⟨r, _, hconflict, hnot⟩ := hhidden.root
    have haction : actionOf base loc remote r = .conflict := by
      obtain ⟨hstructural, hdown, hup⟩ := hconflict
      unfold Structural at hstructural
      simp [actionOf, hstructural, hdown, hup]
    exact (h ⟨r, .conflict⟩ ((mem_plan hplan).mpr ⟨hconflict.mem, hnot, haction.symm⟩)).2 rfl
  by_cases hmem : p ∈ unionPaths [base, loc, remote]
  · have hitem := h ⟨p, actionOf base loc remote p⟩ ((mem_plan hplan).mpr ⟨hmem, hnot_hidden p, rfl⟩)
    cases haction : actionOf base loc remote p with
    | unchanged => exact .inl rfl
    | upload => exact .inr (.inl rfl)
    | download => exact .inr (.inr rfl)
    | merge => exact absurd haction hitem.1
    | conflict => exact absurd haction hitem.2
  · rw [← listed_iff] at hmem
    unfold Listed at hmem
    push Not at hmem
    left
    simp [actionOf, hmem.2.1, hmem.2.2, reconcileEntry, entriesEqual]

/-- **What a plan without merges and conflicts comes to.** -/
theorem combine_plain (hplain : Plain base loc remote) (hplan : planReconciliation base loc remote = .ok plan)
    (hcombine : combine c blobs base loc remote revision conflicts₀ plan = .ok out) :
    out.combined.workspaceId = base.workspaceId ∧ out.conflicts = conflicts₀ ∧ out.reported = conflicts₀.keys ∧
      out.mergedBytes = ∅ ∧ ∀ p, out.combined.get p = chosen base loc remote p := by
  unfold combine at hcombine
  have hpaths := planReconciliation_eq hplan
  have hnodup : (plan.paths.map ReconciliationPath.path).Nodup := by
    rw [hpaths, List.map_map]
    exact (List.map_id _).symm ▸ nodup_planned
  have hinv := foldlM_inv (fun done s => s.combined.workspaceId = base.workspaceId ∧ s.conflicts = conflicts₀ ∧
      s.reported = conflicts₀.keys ∧ s.mergedBytes = ∅ ∧
      ∀ p, s.combined.get p = if p ∈ done.map ReconciliationPath.path then chosen base loc remote p else none)
    (l := plan.paths) ⟨rfl, rfl, rfl, rfl, fun p => by simp [Combining.start]⟩ ?_ hcombine
  · obtain ⟨hworkspace, hconflicts, hreported, hmerged, hget⟩ := hinv
    refine ⟨hworkspace, hconflicts, hreported, hmerged, fun p => ?_⟩
    rw [hget]
    by_cases hmem : p ∈ plan.paths.map ReconciliationPath.path
    · rw [if_pos hmem]
    · -- a path that is not planned is in no manifest
      rw [if_neg hmem]
      have hlisted : ¬ Listed base loc remote p := by
        intro hlisted
        exact hmem (List.mem_map.mpr ⟨⟨p, actionOf base loc remote p⟩,
          (mem_plan hplan).mpr ⟨listed_iff.mp hlisted, hplain.not_hidden p, rfl⟩, rfl⟩)
      unfold Listed at hlisted
      push Not at hlisted
      unfold chosen
      split
      · exact hlisted.2.2.symm
      · exact hlisted.2.1.symm
  · rintro done item rest s s' hl ⟨hworkspace, hconflicts, hreported, hmerged, hget⟩ hstep
    have hitem : item ∈ plan.paths := by simp [hl]
    obtain ⟨_, _, haction⟩ := (mem_plan hplan).mp hitem
    have hnew : s.combined.get item.path = none := by
      rw [hget, if_neg]
      intro hmem
      rw [hl, List.map_append, List.map_cons] at hnodup
      exact (List.nodup_append.mp hnodup).2.2 _ hmem _ List.mem_cons_self rfl
    have hentry (h : combineEntry item.path (chosen base loc remote item.path) s = .ok s') :
        s'.combined.workspaceId = base.workspaceId ∧ s'.conflicts = conflicts₀ ∧ s'.reported = conflicts₀.keys ∧
          s'.mergedBytes = ∅ ∧ ∀ p, s'.combined.get p =
            if p ∈ (done ++ [item]).map ReconciliationPath.path then chosen base loc remote p else none := by
      have hboth (p : RelPath) : (if p ∈ (done ++ [item]).map ReconciliationPath.path then
          chosen base loc remote p else none) =
          if item.path = p then chosen base loc remote p else s.combined.get p := by
        rw [hget, List.map_append, List.map_singleton]
        by_cases heq : item.path = p
        · simp [heq]
        · simp [heq, Ne.symm heq]
      unfold combineEntry at h
      cases hchosen : chosen base loc remote item.path with
      | none =>
        rw [hchosen] at h
        cases h
        refine ⟨hworkspace, hconflicts, hreported, hmerged, fun p => ?_⟩
        rw [hboth]
        by_cases heq : item.path = p
        · rw [if_pos heq, ← heq, hchosen]
          exact hnew
        · rw [if_neg heq]
      | some e =>
        rw [hchosen] at h
        obtain ⟨combined, hinsert, hs'⟩ := Except.bind_ok.mp h
        cases hs'
        refine ⟨(Manifest.workspaceId_insert hinsert).trans hworkspace, hconflicts, hreported, hmerged, fun p => ?_⟩
        rw [hboth, Manifest.get_insert hinsert]
        by_cases heq : item.path = p
        · rw [if_pos heq, if_pos heq, ← heq, hchosen]
        · rw [if_neg heq, if_neg heq]
    unfold combinePath at hstep
    rw [haction] at hstep
    unfold chosen at hentry
    rcases hplain item.path with ha | ha | ha
    · rw [ha] at hstep hentry
      exact hentry hstep
    · rw [ha] at hstep hentry
      exact hentry hstep
    · rw [ha] at hstep hentry
      exact hentry hstep

end Plain

end RustSync
