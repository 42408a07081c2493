/-
No lost update

What the combining loop makes of the three manifests. Each planned path has a
resolution of its own (`resolve`): an entry, or a conflict. What the loop has
built after any of its steps is what the resolutions so far say
(`Combined`), since no two of them touch one path.

Key definitions: `Resolution`, `Combined`, `Reconciled`. Key theorem:
`no_lost_update`.
-/
import RustSync.Sync.Combine
import RustSync.Sync.TextMerge

namespace RustSync

/-- What becomes of a planned path. -/
inductive Resolution where
  | entry (entry : Option ManifestEntry)
  | conflict
deriving DecidableEq

section Resolve

variable (c : Crypto) (blobs : Blobs) (base loc remote : Manifest)

def resolve (p : RelPath) : Resolution :=
  match actionOf base loc remote p with
  | .unchanged | .upload => .entry (loc.get p)
  | .download => .entry (remote.get p)
  | .merge =>
    match mergedFile c blobs base loc remote p with
    | some (file, _) => .entry (some (.file file))
    | none => .conflict
  | .conflict => .conflict

variable {c blobs base loc remote} {revision : ℕ} {conflicts₀ : BTreeMap RelPath ConflictRecord}
  {p q r copy : RelPath} {s s' : Combining} {item : ReconciliationPath}

/-- A path that resolves to an entry changes the combined manifest there. -/
theorem combinePath_entry {e : Option ManifestEntry} (haction : item.action = actionOf base loc remote item.path)
    (he : resolve c blobs base loc remote item.path = .entry e)
    (h : combinePath c blobs base loc remote revision s item = .ok s') :
    (∀ q, s'.combined.get q = if item.path = q then e.or (s.combined.get q) else s.combined.get q) ∧
      s'.combined.workspaceId = s.combined.workspaceId ∧ s'.conflicts = s.conflicts ∧
      s'.reservedPaths = s.reservedPaths := by
  have hentry {x : Option ManifestEntry} (hx : x = e) (h : combineEntry item.path x s = .ok s') :
      (∀ q, s'.combined.get q = if item.path = q then e.or (s.combined.get q) else s.combined.get q) ∧
        s'.combined.workspaceId = s.combined.workspaceId ∧ s'.conflicts = s.conflicts ∧
        s'.reservedPaths = s.reservedPaths := by
    subst hx
    unfold combineEntry at h
    cases x with
    | none =>
      cases h
      simp
    | some e =>
      obtain ⟨combined, hinsert, hs'⟩ := Except.bind_ok.mp h
      cases hs'
      refine ⟨fun q => ?_, Manifest.workspaceId_insert hinsert, rfl, rfl⟩
      rw [Manifest.get_insert hinsert]
      rfl
  unfold combinePath at h
  unfold resolve at he
  rw [haction] at h
  cases hact : actionOf base loc remote item.path with
  | unchanged =>
    rw [hact] at h he
    exact hentry (Resolution.entry.inj he) h
  | upload =>
    rw [hact] at h he
    exact hentry (Resolution.entry.inj he) h
  | download =>
    rw [hact] at h he
    exact hentry (Resolution.entry.inj he) h
  | merge =>
    rw [hact] at h he
    cases hmerged : mergedFile c blobs base loc remote item.path with
    | none =>
      simp only [hmerged] at he
      cases he
    | some merged =>
      simp only [hmerged] at h he
      cases he
      obtain ⟨combined, hinsert, hs'⟩ := Except.bind_ok.mp h
      cases hs'
      refine ⟨fun q => ?_, Manifest.workspaceId_insert hinsert, rfl, rfl⟩
      rw [Manifest.get_insert hinsert]
      rfl
  | conflict =>
    rw [hact] at he
    cases he

theorem combinePath_conflict (haction : item.action = actionOf base loc remote item.path)
    (hconflict : resolve c blobs base loc remote item.path = .conflict)
    (h : combinePath c blobs base loc remote revision s item = .ok s') :
    addConflict item.path loc remote revision s = .ok s' := by
  unfold combinePath at h
  unfold resolve at hconflict
  rw [haction] at h
  cases hact : actionOf base loc remote item.path with
  | merge =>
    rw [hact] at h hconflict
    cases hmerged : mergedFile c blobs base loc remote item.path with
    | none => simpa only [hmerged] using h
    | some merged =>
      simp only [hmerged] at hconflict
      cases hconflict
  | conflict =>
    rw [hact] at h
    exact h
  | _ =>
    rw [hact] at hconflict
    cases hconflict

/-- What a conflict adds. -/
theorem addConflict_spec (h : addConflict p loc remote revision s = .ok s') : ∃ copy,
    (copy ∉ s.reservedPaths ∧ ∃ tail, copy = p ++ tail ∧ '/' ∉ tail) ∧
    (∀ q, s'.combined.get q =
      if Within copy q ∧ remote.get (reroot copy p q) ≠ none then remote.get (reroot copy p q)
      else if Within p q ∧ loc.get q ≠ none then loc.get q else s.combined.get q) ∧
    s'.combined.workspaceId = s.combined.workspaceId ∧
    s'.conflicts = s.conflicts.insert p ⟨p, copy, !remote.containsPath p⟩ ∧
    copy ∈ s'.reservedPaths ∧ ∀ q ∈ s.reservedPaths, q ∈ s'.reservedPaths := by
  obtain ⟨withLocal, hlocal, h⟩ := Except.bind_ok.mp h
  obtain ⟨withCopies, hcopies, h⟩ := Except.bind_ok.mp h
  cases h
  obtain ⟨hfresh, _⟩ := freeCopyPath_spec s.reservedPaths (conflictCopyPath p revision)
  have hworkspace {m m' : Manifest} {l : List (RelPath × ManifestEntry)} (h : m.insertAll l = .ok m') :
      m'.workspaceId = m.workspaceId :=
    foldlM_inv (fun _ m' => m'.workspaceId = m.workspaceId) rfl
      (fun _ _ _ _ _ _ hs hinsert => (Manifest.workspaceId_insert hinsert).trans hs) h
  refine ⟨_, ⟨hfresh, freeCopyPath_beside _ p revision⟩, fun q => ?_,
    (hworkspace hcopies).trans (hworkspace hlocal), rfl, ?_, fun q hq => ?_⟩
  · rw [get_insertSubtree hcopies, get_insertSubtree_self hlocal]
  · exact BTreeSet.mem_foldl.mpr (.inr (BTreeSet.mem_insert.mpr (.inl rfl)))
  · exact BTreeSet.mem_foldl.mpr (.inr (BTreeSet.mem_insert.mpr (.inr hq)))

/-! ### Conflicts -/

/-- Where a conflict is not structural, neither side has a directory. -/
theorem structural_or_files (h : resolve c blobs base loc remote p = .conflict) :
    StructuralConflict base loc remote p ∨ (loc.get p ≠ some .directory ∧ remote.get p ≠ some .directory) := by
  by_cases hstructural : isDirectory (loc.get p) ≠ isDirectory (remote.get p)
  · left
    by_cases hdown : subtreesEqual base loc p = true
    · simp [resolve, actionOf, hstructural, hdown] at h
    · by_cases hup : subtreesEqual base remote p = true
      · simp [resolve, actionOf, hstructural, hdown, hup] at h
      · exact ⟨hstructural, by simpa using hdown, by simpa using hup⟩
  · right
    unfold resolve actionOf at h
    rw [if_neg hstructural] at h
    have hboth : ¬ (loc.get p = some .directory ∧ remote.get p = some .directory) := by
      rintro ⟨hl, hr⟩
      rw [hl, hr] at h
      simp [reconcileEntry, entriesEqual] at h
    have hsame : loc.get p = some .directory ↔ remote.get p = some .directory := by
      have heq := not_not.mp hstructural
      rw [Bool.eq_iff_iff, isDirectory_iff, isDirectory_iff] at heq
      exact heq
    exact ⟨fun hl => hboth ⟨hl, hsame.mp hl⟩, fun hr => hboth ⟨hsame.mpr hr, hr⟩⟩

/-- Nothing is planned for what is beneath a conflict. -/
theorem resolve_beneath (hloc : loc.TreeShaped) (hremote : remote.TreeShaped)
    (h : resolve c blobs base loc remote p = .conflict) (hpq : Beneath p q)
    (hq : ¬ Hidden base loc remote q) : loc.get q = none ∧ resolve c blobs base loc remote q = .entry none := by
  rcases structural_or_files h with hstructural | ⟨hl, hr⟩
  · exact absurd (hidden_iff.mpr ⟨p, hpq, hstructural⟩) hq
  · have hlq := hloc.none_beneath hl hpq
    have hrq := hremote.none_beneath hr hpq
    refine ⟨hlq, ?_⟩
    unfold resolve actionOf
    simp [hlq, hrq, reconcileEntry, entriesEqual]

/-! ### The loop -/

/-- The paths of the manifests. -/
def Listed (base loc remote : Manifest) (p : RelPath) : Prop :=
  base.get p ≠ none ∨ loc.get p ≠ none ∨ remote.get p ≠ none

theorem listed_iff : Listed base loc remote p ↔ p ∈ unionPaths [base, loc, remote] := by
  simp [mem_unionPaths, Listed]

/-- What is above a path of a tree is a path of the tree. -/
theorem Listed.above (hbase : base.TreeShaped) (hloc : loc.TreeShaped) (hremote : remote.TreeShaped)
    (h : Listed base loc remote q) (hpq : Within p q) : Listed base loc remote p := by
  rcases hpq with rfl | hpq
  · exact h
  · exact h.imp (hbase.some_above · hpq) (Or.imp (hloc.some_above · hpq) (hremote.some_above · hpq))

/-- A path that a side has. -/
def Sided (loc remote : Manifest) (p : RelPath) : Prop := loc.get p ≠ none ∨ remote.get p ≠ none

instance : Decidable (Sided loc remote p) := inferInstanceAs (Decidable (_ ∨ _))

theorem Sided.listed (h : Sided loc remote p) : Listed base loc remote p := .inr h

theorem Sided.above (hloc : loc.TreeShaped) (hremote : remote.TreeShaped) (h : Sided loc remote q)
    (hpq : Within p q) : Sided loc remote p := by
  rcases hpq with rfl | hpq
  · exact h
  · exact h.imp (hloc.some_above · hpq) (hremote.some_above · hpq)

/-- A path that only the base has comes to nothing. -/
theorem resolve_unsided (h : ¬ Sided loc remote p) : resolve c blobs base loc remote p = .entry none := by
  unfold Sided at h
  push Not at h
  unfold resolve actionOf
  simp [h.1, h.2, reconcileEntry, entriesEqual]

variable (c blobs base loc remote conflicts₀) in
/-- What the loop has built from the paths `done`. `copyOf` is where the remote
side of a conflict went. -/
structure Combined (done : List RelPath) (s : Combining) (copyOf : RelPath → Option RelPath) : Prop where
  workspace : s.combined.workspaceId = base.workspaceId
  domain : ∀ p, (∃ copy, copyOf p = some copy) ↔
    p ∈ done ∧ resolve c blobs base loc remote p = .conflict
  fresh : ∀ p copy, copyOf p = some copy → ¬ Listed base loc remote copy ∧
    (∀ record ∈ conflicts₀.toList, record.2.remoteCopyPath ≠ copy) ∧ copy ∈ s.reservedPaths ∧
    ∃ tail, copy = p ++ tail ∧ '/' ∉ tail
  injective : ∀ p p' copy, copyOf p = some copy → copyOf p' = some copy → p = p'
  copies : ∀ p copy q, copyOf p = some copy → Within copy q →
    s.combined.get q = remote.get (reroot copy p q)
  kept : ∀ p copy q, copyOf p = some copy → Within p q → s.combined.get q = loc.get q
  entries : ∀ p e, p ∈ done → resolve c blobs base loc remote p = .entry e → s.combined.get p = e
  rest : ∀ q, q ∉ done → (∀ p copy, copyOf p = some copy → ¬ Within copy q ∧ ¬ Within p q) →
    s.combined.get q = none
  records : ∀ p, s.conflicts[p]? = match copyOf p with
    | some copy => some ⟨p, copy, !remote.containsPath p⟩
    | none => conflicts₀[p]?
  reserved : (∀ p, Listed base loc remote p → p ∈ s.reservedPaths) ∧
    ∀ record ∈ conflicts₀.toList, record.2.remoteCopyPath ∈ s.reservedPaths

theorem combined_start : Combined c blobs base loc remote conflicts₀ [] (.start base loc remote conflicts₀)
    fun _ => none := by
  refine ⟨rfl, by simp, nofun, nofun, nofun, nofun, by simp, fun q _ _ => Manifest.get_new, fun _ => rfl,
    fun p hp => ?_, fun record hrecord => ?_⟩
  · apply BTreeSet.mem_ofList.mpr
    rw [List.mem_append, mem_unionPaths]
    left
    rcases hp with h | h | h
    · exact ⟨base, by simp, h⟩
    · exact ⟨loc, by simp, h⟩
    · exact ⟨remote, by simp, h⟩
  · apply BTreeSet.mem_ofList.mpr
    rw [List.mem_append]
    exact .inr (List.mem_map.mpr ⟨record, hrecord, rfl⟩)

/-- A copy shares no path with the sides. -/
theorem Combined.not_sided {done : List RelPath} {copyOf : RelPath → Option RelPath} (hloc : loc.TreeShaped)
    (hremote : remote.TreeShaped) (h : Combined c blobs base loc remote conflicts₀ done s copyOf)
    (hcopy : copyOf p = some copy) (hq : Within copy q) : ¬ Sided loc remote q :=
  fun hsided => (h.fresh p copy hcopy).1 (hsided.above hloc hremote hq).listed

/-- A step that changes nothing. -/
theorem Combined.same {done : List RelPath} {copyOf : RelPath → Option RelPath}
    (h : Combined c blobs base loc remote conflicts₀ done s copyOf) (hget : ∀ q, s'.combined.get q = s.combined.get q)
    (hworkspace : s'.combined.workspaceId = s.combined.workspaceId) (hconflicts : s'.conflicts = s.conflicts)
    (hreserved : s'.reservedPaths = s.reservedPaths) :
    Combined c blobs base loc remote conflicts₀ done s' copyOf where
  workspace := hworkspace.trans h.workspace
  domain := h.domain
  fresh := by
    rw [hreserved]
    exact h.fresh
  injective := h.injective
  copies p copy q hp hq := (hget q).trans (h.copies p copy q hp hq)
  kept p copy q hp hq := (hget q).trans (h.kept p copy q hp hq)
  entries p e hp he := (hget p).trans (h.entries p e hp he)
  rest q hq hfar := (hget q).trans (h.rest q hq hfar)
  records := by
    rw [hconflicts]
    exact h.records
  reserved := by
    rw [hreserved]
    exact h.reserved

/-- A path that resolves to an entry. -/
theorem Combined.push_entry {done : List RelPath} {copyOf : RelPath → Option RelPath} {e : Option ManifestEntry}
    (hloc : loc.TreeShaped) (hremote : remote.TreeShaped)
    (h : Combined c blobs base loc remote conflicts₀ done s copyOf) (hsided : Sided loc remote p)
    (hhidden : ¬ Hidden base loc remote p) (hnew : p ∉ done)
    (he : resolve c blobs base loc remote p = .entry e)
    (hget : ∀ q, s'.combined.get q = if p = q then e.or (s.combined.get q) else s.combined.get q)
    (hworkspace : s'.combined.workspaceId = s.combined.workspaceId) (hconflicts : s'.conflicts = s.conflicts)
    (hreserved : s'.reservedPaths = s.reservedPaths) :
    Combined c blobs base loc remote conflicts₀ (done ++ [p]) s' copyOf := by
  have hcopy {p' copy q : RelPath} (hp' : copyOf p' = some copy) (hq : Within copy q) : p ≠ q := by
    rintro rfl
    exact h.not_sided hloc hremote hp' hq hsided
  have hnotcopied {p' copy : RelPath} (hp' : copyOf p' = some copy) : p' ≠ p := by
    rintro rfl
    exact hnew ((h.domain _).mp ⟨copy, hp'⟩).1
  -- beneath a conflict nothing was planned
  have hbeneath {p' copy : RelPath} (hp' : copyOf p' = some copy) (hq : Within p' p) :
      e = none ∧ loc.get p = none := by
    rcases hq with rfl | hq
    · exact absurd rfl (hnotcopied hp')
    · obtain ⟨hl, hnone⟩ := resolve_beneath hloc hremote ((h.domain p').mp ⟨copy, hp'⟩).2 hq hhidden
      rw [he] at hnone
      exact ⟨Resolution.entry.inj hnone, hl⟩
  refine ⟨hworkspace.trans h.workspace, fun p' => ?_, fun p' copy hp' => ?_, h.injective,
    fun p' copy q hp' hq => ?_, fun p' copy q hp' hq => ?_, fun p' e' hp' he' => ?_, fun q hq hfar => ?_,
    fun p' => ?_, ?_⟩
  · rw [h.domain, List.mem_append, List.mem_singleton]
    constructor
    · exact fun h => ⟨.inl h.1, h.2⟩
    · rintro ⟨hp' | rfl, hconflict⟩
      · exact ⟨hp', hconflict⟩
      · rw [he] at hconflict
        cases hconflict
  · rw [hreserved]
    exact h.fresh p' copy hp'
  · rw [hget, if_neg (hcopy hp' hq)]
    exact h.copies p' copy q hp' hq
  · rw [hget]
    by_cases heq : p = q
    · subst heq
      obtain ⟨rfl, _⟩ := hbeneath hp' hq
      rw [if_pos rfl, Option.none_or]
      exact h.kept p' copy p hp' hq
    · rw [if_neg heq]
      exact h.kept p' copy q hp' hq
  · rw [hget]
    rcases List.mem_append.mp hp' with hp' | hp'
    · have hne : p ≠ p' := by
        rintro rfl
        exact hnew hp'
      rw [if_neg hne]
      exact h.entries p' e' hp' he'
    · rw [List.mem_singleton] at hp'
      subst hp'
      rw [he] at he'
      cases he'
      rw [if_pos rfl]
      -- nothing was at the path before
      have hbefore : s.combined.get p' = none := by
        by_cases hfar : ∀ r copy, copyOf r = some copy → ¬ Within copy p' ∧ ¬ Within r p'
        · exact h.rest p' hnew hfar
        · push Not at hfar
          obtain ⟨r, copy, hr, hwithin⟩ := hfar
          have hnotcopy : ¬ Within copy p' := fun hq => hcopy hr hq rfl
          rw [h.kept r copy p' hr (hwithin hnotcopy)]
          exact (hbeneath hr (hwithin hnotcopy)).2
      rw [hbefore, Option.or_none]
  · have hne : p ≠ q := by
      rintro rfl
      simp at hq
    rw [hget, if_neg hne]
    exact h.rest q (fun hmem => hq (List.mem_append_left _ hmem)) hfar
  · rw [hconflicts]
    exact h.records p'
  · rw [hreserved]
    exact h.reserved

/-- A path that resolves to a conflict. -/
theorem Combined.push_conflict {done : List RelPath} {copyOf : RelPath → Option RelPath}
    (hloc : loc.TreeShaped) (hremote : remote.TreeShaped)
    (h : Combined c blobs base loc remote conflicts₀ done s copyOf) (hsided : Sided loc remote p)
    (hdone : ∀ q ∈ done, Sided loc remote q ∧ ¬ Hidden base loc remote q)
    (hhidden : ¬ Hidden base loc remote p) (hnew : p ∉ done)
    (hconflict : resolve c blobs base loc remote p = .conflict)
    (hadd : addConflict p loc remote revision s = .ok s') :
    ∃ copy, Combined c blobs base loc remote conflicts₀ (done ++ [p]) s' (Function.update copyOf p (some copy)) := by
  obtain ⟨copy, ⟨hfresh, tail, htail, hslash⟩, hget, hworkspace, hrecords, hcopyReserved, hkept⟩ :=
    addConflict_spec hadd
  have hcopyNew : ¬ Listed base loc remote copy := fun hl => hfresh (h.reserved.1 copy hl)
  have hnotSided {q : RelPath} (hq : Within copy q) : ¬ Sided loc remote q :=
    fun hl => hcopyNew (hl.above hloc hremote hq).listed
  have hold {p' copy' : RelPath} (hp' : copyOf p' = some copy') : p' ≠ p := by
    rintro rfl
    exact hnew ((h.domain _).mp ⟨copy', hp'⟩).1
  have holdSided {p' copy' : RelPath} (hp' : copyOf p' = some copy') : Sided loc remote p' :=
    (hdone p' ((h.domain p').mp ⟨copy', hp'⟩).1).1
  -- copies do not meet
  have hapart {p' copy' q : RelPath} (hp' : copyOf p' = some copy') (hq' : Within copy' q) :
      ¬ Within copy q := by
    intro hq
    obtain ⟨hfresh', _, hreserved', tail', htail', hslash'⟩ := h.fresh p' copy' hp'
    rcases hq.linear hq' with hwithin | hwithin
    · rcases hwithin with heq | hbeneath
      · rw [heq] at hreserved'
        exact hfresh hreserved'
      · rw [htail'] at hbeneath
        exact hnotSided (beneath_append_of_noSlash hslash' hbeneath).within (holdSided hp')
    · rcases hwithin with heq | hbeneath
      · rw [← heq] at hreserved'
        exact hfresh hreserved'
      · rw [htail] at hbeneath
        exact h.not_sided hloc hremote hp' (beneath_append_of_noSlash hslash hbeneath).within hsided
  -- neither do conflicts
  have hpaths {p' copy' q : RelPath} (hp' : copyOf p' = some copy') (hq' : Within p' q) : ¬ Within p q := by
    intro hq
    obtain ⟨hmem, hconflict'⟩ := (h.domain p').mp ⟨copy', hp'⟩
    rcases hq.linear hq' with hwithin | hwithin
    · rcases hwithin with heq | hbeneath
      · exact hold hp' heq
      · have hnone := (resolve_beneath hloc hremote hconflict hbeneath (hdone p' hmem).2).2
        rw [hconflict'] at hnone
        cases hnone
    · rcases hwithin with heq | hbeneath
      · exact hold hp' heq.symm
      · have hnone := (resolve_beneath hloc hremote hconflict' hbeneath hhidden).2
        rw [hconflict] at hnone
        cases hnone
  -- a copy is not beneath a conflict
  have hbeside {p' copy' q : RelPath} (hp' : copyOf p' = some copy') (hq' : Within p' q) : ¬ Within copy q := by
    intro hq
    rcases hq.linear hq' with hwithin | hwithin
    · exact hnotSided hwithin (holdSided hp')
    · rcases hwithin with heq | hbeneath
      · rw [heq] at hcopyNew
        exact hcopyNew (holdSided hp').listed
      · rw [htail] at hbeneath
        exact hpaths hp' (beneath_append_of_noSlash hslash hbeneath).within (within_self p)
  have hlocCopy {q : RelPath} (hq : Within copy q) : loc.get q = none := by
    by_contra hsome
    exact hnotSided hq (.inl hsome)
  refine ⟨copy, hworkspace.trans h.workspace, fun p' => ?_, fun p' copy' hp' => ?_, fun p' r copy' hp' hr => ?_,
    fun p' copy' q hp' hq => ?_, fun p' copy' q hp' hq => ?_, fun p' e he hp' => ?_, fun q hq hfar => ?_,
    fun p' => ?_, fun q hq => hkept q (h.reserved.1 q hq), fun record hrecord =>
      hkept _ (h.reserved.2 record hrecord)⟩
  · rw [List.mem_append, List.mem_singleton]
    by_cases heq : p' = p
    · subst heq
      simp [hconflict]
    · rw [Function.update_of_ne heq, h.domain]
      simp [heq]
  · by_cases heq : p' = p
    · subst heq
      rw [Function.update_self, Option.some.injEq] at hp'
      subst hp'
      refine ⟨hcopyNew, fun record hrecord hsame => hfresh ?_, hcopyReserved, tail, htail, hslash⟩
      rw [← hsame]
      exact h.reserved.2 record hrecord
    · rw [Function.update_of_ne heq] at hp'
      obtain ⟨hn, hr, hres, htail'⟩ := h.fresh p' copy' hp'
      exact ⟨hn, hr, hkept _ hres, htail'⟩
  · by_cases hp : p' = p <;> by_cases hr' : r = p
    · rw [hp, hr']
    · subst hp
      rw [Function.update_self, Option.some.injEq] at hp'
      rw [Function.update_of_ne hr'] at hr
      subst hp'
      exact absurd (h.fresh r copy hr).2.2.1 hfresh
    · subst hr'
      rw [Function.update_self, Option.some.injEq] at hr
      rw [Function.update_of_ne hp] at hp'
      subst hr
      exact absurd (h.fresh p' copy hp').2.2.1 hfresh
    · rw [Function.update_of_ne hp] at hp'
      rw [Function.update_of_ne hr'] at hr
      exact h.injective p' r copy' hp' hr
  · rw [hget]
    by_cases heq : p' = p
    · subst heq
      rw [Function.update_self, Option.some.injEq] at hp'
      subst hp'
      by_cases hsome : remote.get (reroot copy p' q) ≠ none
      · rw [if_pos ⟨hq, hsome⟩]
      · rw [if_neg fun h => hsome h.2, hlocCopy hq, if_neg (by simp)]
        rw [not_not] at hsome
        rw [hsome]
        -- nothing was there before
        have hfar : ∀ r copy', copyOf r = some copy' → ¬ Within copy' q ∧ ¬ Within r q :=
          fun r copy' hr => ⟨fun hq' => hapart hr hq' hq, fun hq' => hbeside hr hq' hq⟩
        exact h.rest q (fun hmem => hnotSided hq (hdone q hmem).1) hfar
    · rw [Function.update_of_ne heq] at hp'
      have hnone : loc.get q = none := by
        by_contra hsome
        exact h.not_sided hloc hremote hp' hq (.inl hsome)
      rw [if_neg fun h => hapart hp' hq h.1, hnone, if_neg (by simp)]
      exact h.copies p' copy' q hp' hq
  · rw [hget]
    by_cases heq : p' = p
    · subst heq
      have hnotcopy : ¬ Within copy q := by
        intro hcopy
        rcases hcopy.linear hq with hwithin | hwithin
        · exact hnotSided hwithin hsided
        · rcases hwithin with heq | hbeneath
          · rw [heq] at hcopyNew
            exact hcopyNew hsided.listed
          · rw [htail] at hbeneath
            exact not_beneath_self _ (beneath_append_of_noSlash hslash hbeneath)
      rw [if_neg fun h => hnotcopy h.1]
      by_cases hsome : loc.get q ≠ none
      · rw [if_pos ⟨hq, hsome⟩]
      · rw [if_neg fun h => hsome h.2]
        rw [not_not] at hsome
        rw [hsome]
        -- nothing was planned beneath the conflict
        by_cases hmem : q ∈ done
        · rcases hq with rfl | hbeneath
          · exact absurd hmem hnew
          · exact h.entries q none hmem
              (resolve_beneath hloc hremote hconflict hbeneath (hdone q hmem).2).2
        · by_cases hfar : ∀ r copy', copyOf r = some copy' → ¬ Within copy' q ∧ ¬ Within r q
          · exact h.rest q hmem hfar
          · push Not at hfar
            obtain ⟨r, copy', hr, hwithin⟩ := hfar
            by_cases hcopy' : Within copy' q
            · -- a copy beneath the conflict would be beneath a conflict before it
              rcases hcopy'.linear hq with hwithin' | hwithin'
              · exact absurd hsided (h.not_sided hloc hremote hr hwithin')
              · obtain ⟨_, _, _, tail', htail', hslash'⟩ := h.fresh r copy' hr
                rcases hwithin' with heq | hbeneath
                · exact absurd hsided (h.not_sided hloc hremote hr (heq ▸ within_self copy'))
                · rw [htail'] at hbeneath
                  exact absurd (beneath_append_of_noSlash hslash' hbeneath).within
                    (hpaths hr (within_self r))
            · exact absurd hq (hpaths hr (hwithin hcopy'))
    · rw [Function.update_of_ne heq] at hp'
      rw [if_neg fun h => hbeside hp' hq h.1, if_neg fun h => hpaths hp' hq h.1]
      exact h.kept p' copy' q hp' hq
  · rcases List.mem_append.mp he with hmem | hmem
    · have hne : ¬ Within copy p' := fun hq => hnotSided hq (hdone p' hmem).1
      have hne' : ¬ (Within p p' ∧ loc.get p' ≠ none) := by
        rintro ⟨hwithin, hsome⟩
        rcases hwithin with rfl | hbeneath
        · exact hnew hmem
        · exact hsome (resolve_beneath hloc hremote hconflict hbeneath (hdone p' hmem).2).1
      rw [hget, if_neg fun h => hne h.1, if_neg hne']
      exact h.entries p' e hmem hp'
    · rw [List.mem_singleton] at hmem
      rw [hmem, hconflict] at hp'
      cases hp'
  · have hself := hfar p copy (Function.update_self ..)
    rw [hget, if_neg fun h => hself.1 h.1, if_neg fun h => hself.2 h.1]
    refine h.rest q (fun hmem => hq (List.mem_append_left _ hmem)) fun r copy' hr => ?_
    apply hfar r copy'
    rw [Function.update_of_ne (hold hr)]
    exact hr
  · rw [hrecords, BTreeMap.lookup_insert]
    by_cases heq : p' = p
    · subst heq
      simp
    · rw [Function.update_of_ne heq, if_neg (Ne.symm heq)]
      exact h.records p'

theorem nodup_planned : ((unionPaths [base, loc, remote]).filter fun p => ¬ Hidden base loc remote p).Nodup := by
  have hsorted := unionPaths_sorted [base, loc, remote]
  refine List.Nodup.filter _ (hsorted.imp fun {a b} hlt heq => ?_)
  rw [heq, Std.LawfulEqOrd.compare_eq_iff_eq.mpr rfl] at hlt
  cases hlt

/-- The paths the loop goes over, but for those that only the base has. -/
def sidedPaths (base loc remote : Manifest) : List RelPath :=
  ((unionPaths [base, loc, remote]).filter fun p => ¬ Hidden base loc remote p).filter fun p => Sided loc remote p

theorem mem_sidedPaths : p ∈ sidedPaths base loc remote ↔ Sided loc remote p ∧ ¬ Hidden base loc remote p := by
  unfold sidedPaths
  rw [List.mem_filter, List.mem_filter, decide_eq_true_iff, decide_eq_true_iff]
  constructor
  · exact fun h => ⟨h.2, h.1.2⟩
  · exact fun h => ⟨⟨listed_iff.mp h.1.listed, h.2⟩, h.1⟩

/-- The planned paths so far that a side has. -/
def sidedBefore (loc remote : Manifest) (before : List ReconciliationPath) : List RelPath :=
  (before.map ReconciliationPath.path).filter fun p => Sided loc remote p

theorem sidedPaths_eq {plan : ReconciliationPlan} (hplan : planReconciliation base loc remote = .ok plan) :
    sidedPaths base loc remote = sidedBefore loc remote plan.paths := by
  unfold sidedPaths sidedBefore
  rw [planReconciliation_eq hplan, List.map_map]
  congr 1
  exact (List.map_id _).symm

/-- What is known of a planned path when the loop comes to it. -/
theorem planned_spec {plan : ReconciliationPlan} {before after : List ReconciliationPath}
    (hplan : planReconciliation base loc remote = .ok plan) (hsplit : plan.paths = before ++ item :: after) :
    ¬ Hidden base loc remote item.path ∧ item.action = actionOf base loc remote item.path ∧
      item.path ∉ sidedBefore loc remote before ∧
      ∀ q ∈ sidedBefore loc remote before, Sided loc remote q ∧ ¬ Hidden base loc remote q := by
  have hplanned {x : ReconciliationPath} (hx : x ∈ plan.paths) : ¬ Hidden base loc remote x.path ∧
      x.action = actionOf base loc remote x.path := ((mem_plan hplan).mp hx).2
  have hnodup : (plan.paths.map ReconciliationPath.path).Nodup := by
    rw [planReconciliation_eq hplan, List.map_map]
    exact (List.map_id _).symm ▸ nodup_planned
  obtain ⟨hhidden, haction⟩ := hplanned (x := item) (by simp [hsplit])
  refine ⟨hhidden, haction, fun hmem => ?_, fun q hq => ?_⟩
  · rw [hsplit, List.map_append, List.map_cons] at hnodup
    exact (List.nodup_append.mp hnodup).2.2 _ (List.mem_filter.mp hmem).1 _ List.mem_cons_self rfl
  · obtain ⟨hmem, hsided⟩ := List.mem_filter.mp hq
    obtain ⟨x, hx, rfl⟩ := List.mem_map.mp hmem
    exact ⟨of_decide_eq_true hsided, (hplanned (x := x) (by simp [hsplit, hx])).1⟩

/-- One step of the loop. -/
theorem Combined.step {copyOf : RelPath → Option RelPath} {plan : ReconciliationPlan}
    {before after : List ReconciliationPath} (hloc : loc.TreeShaped) (hremote : remote.TreeShaped)
    (hplan : planReconciliation base loc remote = .ok plan) (hsplit : plan.paths = before ++ item :: after)
    (h : Combined c blobs base loc remote conflicts₀ (sidedBefore loc remote before) s copyOf)
    (hstep : combinePath c blobs base loc remote revision s item = .ok s') :
    ∃ copyOf', Combined c blobs base loc remote conflicts₀ (sidedBefore loc remote (before ++ [item])) s' copyOf' := by
  obtain ⟨hhidden, haction, hnew, hdone⟩ := planned_spec hplan hsplit
  have happend : sidedBefore loc remote (before ++ [item]) = sidedBefore loc remote before ++
      if Sided loc remote item.path then [item.path] else [] := by
    unfold sidedBefore
    rw [List.map_append, List.map_singleton, List.filter_append, List.filter_singleton]
    by_cases hsided : Sided loc remote item.path <;> simp [hsided]
  rw [happend]
  by_cases hsided : Sided loc remote item.path
  · rw [if_pos hsided]
    cases hresolve : resolve c blobs base loc remote item.path with
    | entry e =>
      obtain ⟨hget, hworkspace, hconflicts, hreserved⟩ := combinePath_entry haction hresolve hstep
      exact ⟨copyOf, h.push_entry hloc hremote hsided hhidden hnew hresolve hget hworkspace hconflicts hreserved⟩
    | conflict =>
      obtain ⟨copy, h'⟩ := h.push_conflict hloc hremote hsided hdone hhidden hnew hresolve
        (combinePath_conflict haction hresolve hstep)
      exact ⟨_, h'⟩
  · -- a path of the base alone changes nothing
    rw [if_neg hsided, List.append_nil]
    obtain ⟨hget, hworkspace, hconflicts, hreserved⟩ := combinePath_entry haction (resolve_unsided hsided) hstep
    exact ⟨copyOf, h.same (fun q => by rw [hget]; simp) hworkspace hconflicts hreserved⟩

/-- What the loop has built in the end. -/
theorem combine_combined (hloc : loc.TreeShaped) (hremote : remote.TreeShaped) {plan : ReconciliationPlan}
    (hplan : planReconciliation base loc remote = .ok plan)
    (hcombine : combine c blobs base loc remote revision conflicts₀ plan = .ok s) :
    ∃ copyOf, Combined c blobs base loc remote conflicts₀ (sidedPaths base loc remote) s copyOf := by
  rw [sidedPaths_eq hplan]
  refine foldlM_inv (fun done s => ∃ copyOf, Combined c blobs base loc remote conflicts₀
    (sidedBefore loc remote done) s copyOf) ⟨_, combined_start⟩ ?_ hcombine
  rintro done item rest s s' hsplit ⟨copyOf, h⟩ hstep
  exact h.step hloc hremote hplan hsplit hstep

end Resolve

/-! ### The three-way law -/

section Law

variable (c : Crypto) (blobs : Blobs) (base loc remote : Manifest)

/-- At a structural conflict, or beneath one. -/
def InStructuralConflict (p : RelPath) : Prop :=
  ∃ q, Within q p ∧ StructuralConflict base loc remote q

/-- The entry is a text that merges line by line what all sides have. -/
def MergedText (p : RelPath) (entry : Option ManifestEntry) : Prop :=
  ∃ baseFile localFile remoteFile baseBytes localBytes remoteBytes bytes,
    base.get p = some (.file baseFile) ∧ loc.get p = some (.file localFile) ∧
    remote.get p = some (.file remoteFile) ∧ blobs.base[baseFile.contentHash]? = some baseBytes ∧
    blobs.loc[localFile.contentHash]? = some localBytes ∧
    blobs.ofRemote remoteFile.contentHash = some remoteBytes ∧
    MergesLines baseBytes localBytes remoteBytes bytes ∧
    entry = some (.ofFile bytes.length (sha256Hex c bytes) localFile.modifiedAt)

/-- A combined manifest in which no side's update is lost. `copyOf` is where
the remote side of a conflict was put. -/
structure Reconciled (conflicts₀ conflicts : BTreeMap RelPath ConflictRecord) (combined : Manifest)
    (copyOf : RelPath → Option RelPath) : Prop where
  /-- Away from structural conflicts and copies, the three-way rule holds. -/
  rule : ∀ p, ¬ InStructuralConflict base loc remote p →
    (∀ q copy, copyOf q = some copy → ¬ Within copy p) →
    (entriesEqual (base.get p) (remote.get p) = true → entriesEqual (base.get p) (loc.get p) = false →
      combined.get p = loc.get p) ∧
    (entriesEqual (base.get p) (loc.get p) = true → entriesEqual (base.get p) (remote.get p) = false →
      combined.get p = remote.get p) ∧
    (entriesEqual (loc.get p) (remote.get p) = true → combined.get p = loc.get p) ∧
    (entriesEqual (base.get p) (loc.get p) = false → entriesEqual (base.get p) (remote.get p) = false →
      entriesEqual (loc.get p) (remote.get p) = false →
      MergedText c blobs base loc remote p (combined.get p) ∨
        (∀ e, ¬ MergedText c blobs base loc remote p e) ∧ combined.get p = loc.get p ∧ ∃ copy, copyOf p = some copy)
  /-- A structural conflict keeps the local subtree. -/
  structural : ∀ p, StructuralConflict base loc remote p → ¬ Hidden base loc remote p →
    (∃ copy, copyOf p = some copy) ∧ ∀ q, Within p q → combined.get q = loc.get q
  /-- A copy has the remote subtree under a new name, and a record. -/
  copies : ∀ p copy, copyOf p = some copy →
    ¬ Listed base loc remote copy ∧ (∀ record ∈ conflicts₀.toList, record.2.remoteCopyPath ≠ copy) ∧
    (∀ q, copyOf q = some copy → q = p) ∧
    (∀ q, Within p q → combined.get (reroot p copy q) = remote.get q) ∧
    conflicts[p]? = some ⟨p, copy, !remote.containsPath p⟩
  /-- Other records stay. -/
  records : ∀ p, copyOf p = none → conflicts[p]? = conflicts₀[p]?

variable {c blobs base loc remote} {p : RelPath} {revision : ℕ}
  {conflicts₀ : BTreeMap RelPath ConflictRecord} {s : Combining}

theorem mergedText_of_mergedFile {file : FileEntry} {bytes : Bytes}
    (h : mergedFile c blobs base loc remote p = some (file, bytes)) :
    MergedText c blobs base loc remote p (some (.file file)) := by
  unfold mergedFile at h
  cases hbase : base.get p with
  | none => simp [hbase] at h
  | some baseEntry =>
    cases hloc : loc.get p with
    | none =>
      simp only [hbase, hloc] at h
      cases baseEntry <;> simp at h
    | some localEntry =>
      cases hremote : remote.get p with
      | none =>
        simp only [hbase, hloc, hremote] at h
        cases baseEntry <;> cases localEntry <;> simp at h
      | some remoteEntry =>
        simp only [hbase, hloc, hremote] at h
        cases baseEntry with
        | directory => simp at h
        | file baseFile =>
          cases localEntry with
          | directory => simp at h
          | file localFile =>
            cases remoteEntry with
            | directory => simp at h
            | file remoteFile =>
              simp only [Option.bind_eq_bind, Option.bind_eq_some_iff, Option.pure_def, Option.some.injEq,
                Prod.mk.injEq] at h
              obtain ⟨baseBytes, hb, localBytes, hl, remoteBytes, hr, merged, hm, rfl, rfl⟩ := h
              exact ⟨baseFile, localFile, remoteFile, baseBytes, localBytes, remoteBytes, merged, hbase, hloc,
                hremote, hb, hl, hr, mergeTextThreeWay_eq_some.mp hm, rfl⟩

/-- Where lines can be merged they are, and both sides have files. -/
theorem mergedFile_of_mergedText {e : Option ManifestEntry} (h : MergedText c blobs base loc remote p e) :
    (∃ merged, mergedFile c blobs base loc remote p = some merged) ∧
      ∃ localFile remoteFile, loc.get p = some (.file localFile) ∧ remote.get p = some (.file remoteFile) := by
  obtain ⟨baseFile, localFile, remoteFile, baseBytes, localBytes, remoteBytes, bytes, hbase, hloc, hremote, hb, hl, hr,
    hm, _⟩ := h
  refine ⟨⟨(⟨bytes.length, sha256Hex c bytes, localFile.modifiedAt, none, []⟩, bytes), ?_⟩, localFile, remoteFile,
    hloc, hremote⟩
  unfold mergedFile
  simp only [hbase, hloc, hremote, hb, hl, hr, mergeTextThreeWay_eq_some.mpr hm, Option.bind_eq_bind, Option.bind_some,
    Option.pure_def]

variable (c blobs) in
/-- A path where no subtrees are compared resolves by the three-way rule. -/
theorem resolve_rule (h : ¬ StructuralConflict base loc remote p) :
    (entriesEqual (base.get p) (remote.get p) = true → entriesEqual (base.get p) (loc.get p) = false →
      resolve c blobs base loc remote p = .entry (loc.get p)) ∧
    (entriesEqual (base.get p) (loc.get p) = true → entriesEqual (base.get p) (remote.get p) = false →
      resolve c blobs base loc remote p = .entry (remote.get p)) ∧
    (entriesEqual (loc.get p) (remote.get p) = true →
      resolve c blobs base loc remote p = .entry (loc.get p)) ∧
    (entriesEqual (base.get p) (loc.get p) = false → entriesEqual (base.get p) (remote.get p) = false →
      entriesEqual (loc.get p) (remote.get p) = false →
      (∃ e, MergedText c blobs base loc remote p e ∧ resolve c blobs base loc remote p = .entry e) ∨
        (∀ e, ¬ MergedText c blobs base loc remote p e) ∧ resolve c blobs base loc remote p = .conflict) := by
  have hsubtrees {m m' : Manifest} (hall : subtreesEqual m m' p = true) :
      entriesEqual (m.get p) (m'.get p) = true := subtreesEqual_iff.mp hall p (within_self p)
  by_cases hstructural : isDirectory (loc.get p) ≠ isDirectory (remote.get p)
  · have hdiffer : entriesEqual (loc.get p) (remote.get p) = false := by
      by_contra heq
      exact hstructural (isDirectory_congr (by simpa using heq))
    by_cases hdown : subtreesEqual base loc p = true
    · have hresolve : resolve c blobs base loc remote p = .entry (remote.get p) := by
        simp [resolve, actionOf, hstructural, hdown]
      have hsame := hsubtrees hdown
      refine ⟨fun _ hne => ?_, fun _ _ => hresolve, fun heq => ?_, fun hne => ?_⟩
      · rw [hsame] at hne
        cases hne
      · rw [hdiffer] at heq
        cases heq
      · rw [hsame] at hne
        cases hne
    · by_cases hup : subtreesEqual base remote p = true
      · have hresolve : resolve c blobs base loc remote p = .entry (loc.get p) := by
          simp [resolve, actionOf, hstructural, hdown, hup]
        have hsame := hsubtrees hup
        refine ⟨fun _ _ => hresolve, fun _ hne => ?_, fun _ => hresolve, fun _ hne => ?_⟩
        · rw [hsame] at hne
          cases hne
        · rw [hsame] at hne
          cases hne
      · exact absurd ⟨hstructural, by simpa using hdown, by simpa using hup⟩ h
  · have haction : actionOf base loc remote p = reconcileEntry (base.get p) (loc.get p) (remote.get p) :=
      if_neg hstructural
    refine ⟨fun hremote hloc => ?_, fun hloc hremote => ?_, fun hsame => ?_, fun hloc hremote hdiffer => ?_⟩
    · have hdiffer : entriesEqual (loc.get p) (remote.get p) = false := by
        rw [entriesEqual_comm, ← entriesEqual_congr hremote]
        exact hloc
      simp [resolve, haction, reconcileEntry, hdiffer, hloc, hremote]
    · have hdiffer : entriesEqual (loc.get p) (remote.get p) = false := by
        rw [← entriesEqual_congr hloc]
        exact hremote
      simp [resolve, haction, reconcileEntry, hdiffer, hloc]
    · simp [resolve, haction, reconcileEntry, hsame]
    · have hlocal : ¬entriesEqual (base.get p) (loc.get p) = true := by simp [hloc]
      have hother : ¬entriesEqual (base.get p) (remote.get p) = true := by simp [hremote]
      have hneither : ¬entriesEqual (loc.get p) (remote.get p) = true := by simp [hdiffer]
      unfold reconcileEntry at haction
      rw [if_neg hneither, if_neg hlocal, if_neg hother] at haction
      unfold resolve
      by_cases hfiles : ∃ localFile remoteFile, loc.get p = some (.file localFile) ∧
        remote.get p = some (.file remoteFile)
      · obtain ⟨localFile, remoteFile, hl, hr⟩ := hfiles
        have hmerge : actionOf base loc remote p = .merge := by rw [haction, hl, hr]
        rw [hmerge]
        cases hmerged : mergedFile c blobs base loc remote p with
        | none =>
          refine .inr ⟨fun e htext => ?_, rfl⟩
          obtain ⟨⟨_, hsome⟩, _⟩ := mergedFile_of_mergedText htext
          rw [hmerged] at hsome
          cases hsome
        | some merged => exact .inl ⟨_, mergedText_of_mergedFile hmerged, rfl⟩
      · have hconflict : actionOf base loc remote p = .conflict := by
          rw [haction]
          split
          · rename_i localFile remoteFile hl hr
            exact absurd ⟨localFile, remoteFile, hl, hr⟩ hfiles
          · rfl
        rw [hconflict]
        exact .inr ⟨fun e htext => hfiles (mergedFile_of_mergedText htext).2, rfl⟩

/-- What the loop has built in the end is reconciled. -/
theorem Combined.reconciled {copyOf : RelPath → Option RelPath}
    (h : Combined c blobs base loc remote conflicts₀ (sidedPaths base loc remote) s copyOf) :
    Reconciled c blobs base loc remote conflicts₀ s.conflicts s.combined copyOf := by
  refine ⟨fun p hout hcopies => ?_, fun p hp hhidden => ?_, fun p copy hcopy => ?_, fun p hp => ?_⟩
  · have hnot : ¬ StructuralConflict base loc remote p := fun hp => hout ⟨p, within_self p, hp⟩
    have hhidden : ¬ Hidden base loc remote p := by
      intro hh
      obtain ⟨q, hq, hconflict⟩ := hidden_iff.mp hh
      exact hout ⟨q, hq.within, hconflict⟩
    by_cases hsided : Sided loc remote p
    · have hmem := mem_sidedPaths.mpr ⟨hsided, hhidden⟩
      obtain ⟨h₁, h₂, h₃, h₄⟩ := resolve_rule c blobs hnot
      refine ⟨fun ha hb => h.entries p _ hmem (h₁ ha hb), fun ha hb => h.entries p _ hmem (h₂ ha hb),
        fun ha => h.entries p _ hmem (h₃ ha), fun ha hb hd => ?_⟩
      rcases h₄ ha hb hd with ⟨e, htext, hresolve⟩ | ⟨hnone, hconflict⟩
      · left
        rw [h.entries p e hmem hresolve]
        exact htext
      · obtain ⟨copy, hcopy⟩ := (h.domain p).mpr ⟨hmem, hconflict⟩
        exact .inr ⟨hnone, h.kept p copy p hcopy (within_self p), copy, hcopy⟩
    · -- a path that neither side has
      have hnone : s.combined.get p = none := by
        have hnotmem : p ∉ sidedPaths base loc remote := fun hmem => hsided (mem_sidedPaths.mp hmem).1
        by_cases hfar : ∀ q copy, copyOf q = some copy → ¬ Within copy p ∧ ¬ Within q p
        · exact h.rest p hnotmem hfar
        · push Not at hfar
          obtain ⟨q, copy, hq, hwithin⟩ := hfar
          rw [h.kept q copy p hq (hwithin (hcopies q copy hq))]
          exact not_not.mp fun hsome => hsided (.inl hsome)
      unfold Sided at hsided
      push Not at hsided
      rw [hsided.1, hsided.2, hnone]
      exact ⟨fun _ _ => rfl, fun _ _ => rfl, fun _ => rfl, fun _ _ hd => nomatch hd⟩
  · have hsided : Sided loc remote p := by
      by_contra hnot
      have hstructural := hp.1
      unfold Sided at hnot
      push Not at hnot
      unfold Structural at hstructural
      rw [hnot.1, hnot.2] at hstructural
      exact hstructural rfl
    have hresolve : resolve c blobs base loc remote p = .conflict := by
      obtain ⟨hstructural, hdown, hup⟩ := hp
      unfold Structural at hstructural
      simp [resolve, actionOf, hstructural, hdown, hup]
    obtain ⟨copy, hcopy⟩ := (h.domain p).mpr ⟨mem_sidedPaths.mpr ⟨hsided, hhidden⟩, hresolve⟩
    exact ⟨⟨copy, hcopy⟩, fun q hq => h.kept p copy q hcopy hq⟩
  · obtain ⟨hnot, hrecord, _⟩ := h.fresh p copy hcopy
    refine ⟨hnot, hrecord, fun q hq => h.injective q p copy hq hcopy, fun q hq => ?_, ?_⟩
    · rw [h.copies p copy _ hcopy (within_reroot hq), reroot_reroot hq]
    · rw [h.records, hcopy]
  · rw [h.records, hp]

/-- **No update is lost.** The plan of trees and the loop that combines them
give a reconciled manifest. -/
theorem no_lost_update (c : Crypto) (blobs : Blobs) {base loc remote : Manifest} (hloc : loc.TreeShaped)
    (hremote : remote.TreeShaped) (revision : ℕ) (conflicts : BTreeMap RelPath ConflictRecord)
    {plan : ReconciliationPlan} {out : Combining} (hplan : planReconciliation base loc remote = .ok plan)
    (hcombine : combine c blobs base loc remote revision conflicts plan = .ok out) :
    ∃ copyOf, Reconciled c blobs base loc remote conflicts out.conflicts out.combined copyOf := by
  obtain ⟨copyOf, h⟩ := combine_combined hloc hremote hplan hcombine
  exact ⟨copyOf, h.reconciled⟩

end Law

/-! ### A directory that became a file

One side added to the directory that the other made a file, and each changed a
line of a text. -/

section Sample

open Codec

def sampleEntry (size : ℕ) (contentHash : String) : ManifestEntry := .ofFile size contentHash ⟨0⟩

def textHashes : List (Bytes × Bytes) := [
  (utf8 "one\ntwo\n",
    [195, 249, 200, 194, 131, 162, 177, 242, 241, 137, 111, 39, 160, 28, 190, 60, 221, 192, 201, 217,
    63, 117, 46, 70, 57, 3, 90, 15, 91, 54, 246, 232]),
  (utf8 "ONE\ntwo\n",
    [199, 138, 94, 194, 194, 139, 232, 147, 175, 182, 34, 94, 240, 92, 85, 110, 242, 137, 187, 75, 107,
    118, 231, 252, 53, 140, 41, 231, 145, 23, 145, 35]),
  (utf8 "one\nTWO\n",
    [255, 75, 235, 174, 91, 145, 142, 234, 233, 173, 37, 233, 153, 81, 224, 105, 12, 119, 211, 168, 118,
    78, 223, 143, 128, 92, 49, 243, 45, 144, 71, 83]),
  (utf8 "ONE\nTWO\n",
    [65, 233, 109, 125, 77, 225, 87, 51, 227, 45, 177, 82, 7, 58, 199, 185, 6, 194, 141, 133, 166, 209,
    90, 247, 222, 121, 136, 66, 105, 194, 43, 130]),
  (utf8 "a",
    [202, 151, 129, 18, 202, 27, 189, 202, 250, 194, 49, 179, 154, 35, 220, 77, 167, 134, 239, 248, 20,
    124, 78, 114, 185, 128, 119, 133, 175, 238, 72, 187]),
  (utf8 "b",
    [62, 35, 232, 22, 0, 57, 89, 74, 51, 137, 79, 101, 100, 225, 177, 52, 139, 189, 122, 0, 136, 212,
    44, 74, 203, 115, 238, 174, 213, 156, 0, 157]),
  (utf8 "docs\n",
    [13, 171, 13, 0, 180, 46, 207, 58, 67, 16, 242, 91, 244, 238, 20, 204, 78, 66, 142, 186, 103, 55,
    23, 181, 28, 234, 211, 52, 229, 7, 230, 27]),
  (utf8 "/d/\n!/d/x\n",
    [99, 245, 201, 194, 43, 183, 227, 96, 189, 152, 133, 66, 201, 185, 52, 80, 121, 180, 166, 135, 181,
    155, 246, 52, 247, 167, 175, 133, 93, 194, 153, 202])]

/-- SHA-256, as it is on the sample texts. -/
def textCrypto : Crypto := sampleCrypto.withHashes textHashes

def textEntry (text : String) : ManifestEntry :=
  sampleEntry (utf8 text).length (sha256Hex textCrypto (utf8 text))

def contentsOf (texts : List String) : BTreeMap String Bytes :=
  texts.foldl (fun m text => m.insert (sha256Hex textCrypto (utf8 text)) (utf8 text)) ∅

def forkedBase : Manifest :=
  manifestOf [("docs", .directory), ("docs/a", textEntry "a"), ("notes", textEntry "one\ntwo\n")]

def forkedLocal : Manifest :=
  manifestOf [("docs", .directory), ("docs/a", textEntry "a"), ("docs/b", textEntry "b"),
    ("notes", textEntry "ONE\ntwo\n")]

def forkedRemote : Manifest := manifestOf [("docs", textEntry "docs\n"), ("notes", textEntry "one\nTWO\n")]

def forkedBlobs : Blobs :=
  ⟨contentsOf ["one\ntwo\n"], contentsOf ["ONE\ntwo\n"], contentsOf ["one\nTWO\n"]⟩

def forkedOutcome : Option Combining := do
  let plan ← (planReconciliation forkedBase forkedLocal forkedRemote).toOption
  (combine textCrypto forkedBlobs forkedBase forkedLocal forkedRemote 7 ∅ plan).toOption

theorem forkedOutcome_entries : forkedOutcome.map (fun out => out.combined.entries.toList) =
    some (manifestOf [("docs", .directory), ("docs.rustsync-conflict-remote-r7", textEntry "docs\n"),
      ("docs/a", textEntry "a"), ("docs/b", textEntry "b"), ("notes", textEntry "ONE\nTWO\n")]).entries.toList := by
  decide +kernel

/-- Both changes of the text are in the combined manifest. -/
theorem fork_reconciled : ∃ out copyOf, forkedOutcome = some out ∧
    out.combined.get "notes".toList = some (textEntry "ONE\nTWO\n") ∧
    Reconciled textCrypto forkedBlobs forkedBase forkedLocal forkedRemote ∅ out.conflicts out.combined copyOf := by
  obtain ⟨out, hout, hentries⟩ := Option.map_eq_some_iff.mp forkedOutcome_entries
  have hnotes : ("notes".toList, textEntry "ONE\nTWO\n") ∈ out.combined.entries.toList := by
    rw [hentries]
    decide +kernel
  have hsteps := hout
  simp only [forkedOutcome, Option.bind_eq_bind, Option.bind_eq_some_iff] at hsteps
  obtain ⟨plan, hplan, hcombine⟩ := hsteps
  have hok {ε α : Type} {x : Except ε α} {a : α} (h : x.toOption = some a) : x = .ok a := by
    cases x with
    | error e => cases h
    | ok b =>
      cases h
      rfl
  obtain ⟨copyOf, h⟩ := no_lost_update textCrypto forkedBlobs (by decide +kernel) (by decide +kernel) 7 ∅ (hok hplan)
    (hok hcombine)
  exact ⟨out, copyOf, hout, BTreeMap.mem_toList.mp hnotes, h⟩

end Sample

end RustSync
