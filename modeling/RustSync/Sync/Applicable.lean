/-
The combined manifest is applicable

The combining loop never fails on trees: a copy's name is that of its path
with a tail that has no `/`, so the paths it inserts are valid where the
sides' are; and nothing is at a path it inserts, so no entry is overwritten.

Key definitions: `insertsOf`, `PathsAccepted`, `Applicable`. Key theorem:
`combined_applicable`.
-/
import RustSync.Sync.Combined
import RustSync.Sync.Engine

namespace RustSync

/-! ### Valid paths -/

section Paths

variable {p q tail rest : RelPath}

theorem components_append_noSlash (htail : '/' ∉ tail) : ∀ p : RelPath, ∃ init last,
    components p = init ++ [last] ∧ components (p ++ tail) = init ++ [last ++ tail]
  | [] => ⟨[], [], rfl, by rw [List.nil_append, components_of_noSlash htail]; rfl⟩
  | ch :: p => by
    obtain ⟨init, last, hp, hptail⟩ := components_append_noSlash htail p
    rw [List.cons_append, components, components]
    by_cases hslash : ch = '/'
    · refine ⟨[] :: init, last, ?_, ?_⟩
      · rw [if_pos hslash, hp, List.cons_append]
      · rw [if_pos hslash, hptail, List.cons_append]
    · rw [if_neg hslash, if_neg hslash, hp, hptail]
      cases init with
      | nil => exact ⟨[], ch :: last, rfl, rfl⟩
      | cons first init => exact ⟨(ch :: first) :: init, last, rfl, rfl⟩

theorem validateManifestPath_ok : validateManifestPath p = .ok () ↔
    p ≠ [] ∧ p.head? ≠ some '/' ∧ '\\' ∉ p ∧ (components p).any badComponent = false := by
  unfold validateManifestPath
  simp only [Except.bind_unit_ok, require_ok]

/-! ### Names of copies -/

/-- What the name of a copy adds to that of its path. -/
def CopyTail (tail : List Char) : Prop :=
  ∃ more : List Char, tail = ".rustsync-conflict-remote-r".toList ++ more ∧ ∀ ch ∈ more, ch.isDigit = true ∨ ch = '-'

theorem isDigit_decimal (n : ℕ) : ∀ ch ∈ (toString n).toList, ch.isDigit = true := by
  intro ch hch
  have hdigits : ch ∈ Nat.toDigits 10 n := by
    simpa [toString, Nat.repr] using hch
  exact Nat.isDigit_of_mem_toDigits (by decide) (by decide) hdigits

theorem copyTail_free (reserved : BTreeSet RelPath) (path : RelPath) (revision : ℕ) :
    ∃ tail, freeCopyPath reserved (conflictCopyPath path revision) = path ++ tail ∧ CopyTail tail := by
  have hname : s!".rustsync-conflict-remote-r{revision}".toList =
      ".rustsync-conflict-remote-r".toList ++ (toString revision).toList := by
    rw [String.toList_append]
    rfl
  obtain ⟨_, n, hn⟩ := freeCopyPath_spec reserved (conflictCopyPath path revision)
  rw [hn]
  cases n with
  | zero =>
    refine ⟨_, rfl, (toString revision).toList, hname, fun ch hch => .inl (isDigit_decimal revision ch hch)⟩
  | succ n =>
    have hsuffix : s!"-{n + 1}".toList = '-' :: (toString (n + 1)).toList := by
      have hhead : (toString "-").toList = ['-'] := by decide
      rw [String.toList_append, hhead, List.singleton_append]
    refine ⟨s!".rustsync-conflict-remote-r{revision}".toList ++ s!"-{n + 1}".toList, ?_,
      (toString revision).toList ++ '-' :: (toString (n + 1)).toList, ?_, ?_⟩
    · rw [copyCandidate, conflictCopyPath, List.append_assoc]
    · rw [hname, hsuffix, List.append_assoc]
    · intro ch hch
      rcases List.mem_append.mp hch with hch | hch
      · exact .inl (isDigit_decimal revision ch hch)
      · rcases List.mem_cons.mp hch with rfl | hch
        · exact .inr rfl
        · exact .inl (isDigit_decimal (n + 1) ch hch)

theorem CopyTail.not_mem {ch : Char} (h : CopyTail tail) (hword : ch ∉ ".rustsync-conflict-remote-r".toList)
    (hdigit : ch.isDigit = false) (hdash : ch ≠ '-') : ch ∉ tail := by
  obtain ⟨more, rfl, hmore⟩ := h
  rw [List.mem_append, not_or]
  refine ⟨hword, fun hch => ?_⟩
  rcases hmore ch hch with hyes | heq
  · rw [hdigit] at hyes
    cases hyes
  · exact hdash heq

theorem CopyTail.noSlash (h : CopyTail tail) : '/' ∉ tail := h.not_mem (by decide) (by decide) (by decide)

theorem CopyTail.length (h : CopyTail tail) : 27 ≤ tail.length := by
  obtain ⟨more, rfl, _⟩ := h
  rw [List.length_append]
  exact Nat.le_add_right 27 _

/-- A copy of a path has no bad component where the path has none. -/
theorem CopyTail.components (h : CopyTail tail) (hp : (RustSync.components p).any badComponent = false)
    (hrest : rest = [] ∨ ∃ after, rest = '/' :: after)
    (hq : (RustSync.components (p ++ rest)).any badComponent = false) :
    (RustSync.components (p ++ tail ++ rest)).any badComponent = false := by
  have hcopy : (RustSync.components (p ++ tail)).any badComponent = false := by
    obtain ⟨init, last, hinit, hlast⟩ := components_append_noSlash h.noSlash p
    rw [hinit, List.any_append, Bool.or_eq_false_iff] at hp
    rw [hlast, List.any_append, hp.1, Bool.false_or, List.any_cons, List.any_nil, Bool.or_false]
    have hlength := h.length
    unfold badComponent
    rw [decide_eq_false_iff_not]
    rintro (heq | heq | heq)
    · have hlen := congrArg List.length heq
      simp only [List.length_append, List.length_nil] at hlen
      omega
    · have hlen := congrArg List.length heq
      simp only [List.length_append, List.length_cons, List.length_nil] at hlen
      omega
    · have hlen := congrArg List.length heq
      simp only [List.length_append, List.length_cons, List.length_nil] at hlen
      omega
  rcases hrest with rfl | ⟨after, rfl⟩
  · rw [List.append_nil]
    exact hcopy
  · rw [components_append_slash, List.any_append, Bool.or_eq_false_iff] at hq ⊢
    exact ⟨hcopy, hq.2⟩

/-- The path of a copied entry is valid where the entry's is. -/
theorem validateManifestPath_copy (htail : CopyTail tail) (hp : validateManifestPath p = .ok ()) (hq : Within p q)
    (hvalid : validateManifestPath q = .ok ()) : validateManifestPath (reroot p (p ++ tail) q) = .ok () := by
  obtain ⟨rest, rfl, hrest⟩ := within_iff.mp hq
  rw [validateManifestPath_ok] at hp hvalid ⊢
  unfold reroot
  rw [List.drop_left]
  obtain ⟨hne, hhead, hback, hbad⟩ := hp
  obtain ⟨_, _, hback', hbad'⟩ := hvalid
  refine ⟨fun heq => hne (List.append_eq_nil_iff.mp (List.append_eq_nil_iff.mp heq).1).1, ?_, ?_,
    htail.components hbad hrest hbad'⟩
  · cases p with
    | nil => exact absurd rfl hne
    | cons ch p => exact hhead
  · rw [List.mem_append, List.mem_append, not_or, not_or]
    rw [List.mem_append, not_or] at hback'
    exact ⟨⟨hback, htail.not_mem (by decide) (by decide) (by decide)⟩, hback'.2⟩

theorem validateLocalPath_copy (htail : CopyTail tail) (hp : validateLocalPath p = .ok ()) (hq : Within p q)
    (hvalid : validateLocalPath q = .ok ()) : validateLocalPath (reroot p (p ++ tail) q) = .ok () := by
  obtain ⟨rest, rfl, hrest⟩ := within_iff.mp hq
  rw [validateLocalPath_ok] at hp hvalid ⊢
  unfold reroot
  rw [List.drop_left]
  obtain ⟨hne, _, hfolder, _, _, hbad⟩ := hp
  obtain ⟨_, _, _, hback, hnul, hbad'⟩ := hvalid
  rw [List.mem_append, not_or] at hback hnul
  have hlength := htail.length
  refine ⟨fun heq => hne (List.append_eq_nil_iff.mp (List.append_eq_nil_iff.mp heq).1).1, fun heq => ?_,
    fun hprefix => ?_, ?_, ?_, htail.components hbad hrest hbad'⟩
  · -- the tail alone is longer
    have hlen := congrArg List.length heq
    simp only [List.length_append, show ".rustsync".toList.length = 9 from rfl] at hlen
    omega
  · obtain ⟨more, rfl, _⟩ := htail
    rw [List.append_assoc, List.append_assoc] at hprefix
    -- the folder's name has its dot in front only
    have hcases : ∀ (n : ℕ), p.length = n → False := by
      intro n hn
      obtain ⟨after, hafter⟩ := hprefix
      by_cases hlong : 10 ≤ n
      · refine hfolder (List.prefix_of_prefix_length_le ⟨after, hafter⟩ (List.prefix_append p _) ?_)
        rw [show ".rustsync/".toList.length = 10 from rfl, hn]
        exact hlong
      · have hleft : (".rustsync/".toList ++ after)[n]? = ".rustsync/".toList[n]? :=
          List.getElem?_append_left (by rw [show ".rustsync/".toList.length = 10 from rfl]; omega)
        have hright : (p ++ (".rustsync-conflict-remote-r".toList ++ (more ++ rest)))[n]? = some '.' := by
          rw [List.getElem?_append_right (by omega), hn, Nat.sub_self]
          rfl
        rw [hafter, hright] at hleft
        have hpos : 0 < n := by
          rw [← hn]
          exact List.length_pos_of_ne_nil hne
        have hdot : ∀ k < 10, 0 < k → ".rustsync/".toList[k]? ≠ some '.' := by decide
        exact hdot n (by omega) hpos hleft.symm
    exact hcases p.length rfl
  · rw [List.mem_append, List.mem_append, not_or, not_or]
    exact ⟨⟨hback.1, htail.not_mem (by decide) (by decide) (by decide)⟩, hback.2⟩
  · rw [List.mem_append, List.mem_append, not_or, not_or]
    exact ⟨⟨hnul.1, htail.not_mem (by decide) (by decide) (by decide)⟩, hnul.2⟩

end Paths

/-! ### The entries the loop inserts -/

section Loop

variable {c : Crypto} {blobs : Blobs} {base loc remote : Manifest} {conflicts₀ : BTreeMap RelPath ConflictRecord}
  {revision : ℕ} {plan : ReconciliationPlan} {s s' out : Combining} {p q copy : RelPath}
  {item : ReconciliationPath} {done : List RelPath} {copyOf : RelPath → Option RelPath}

variable (c blobs base loc remote revision) in
/-- The entries a planned path inserts, in their order. -/
def insertsOf (s : Combining) (item : ReconciliationPath) : List (RelPath × ManifestEntry) :=
  match resolve c blobs base loc remote item.path with
  | .entry entry => (entry.map fun e => (item.path, e)).toList
  | .conflict =>
    let copy := freeCopyPath s.reservedPaths (conflictCopyPath item.path revision)
    loc.subtree item.path ++
      (remote.subtree item.path).map fun entry => (reroot item.path copy entry.1, entry.2)

theorem insertAll_append {m : Manifest} {l l' : List (RelPath × ManifestEntry)} :
    m.insertAll (l ++ l') = (m.insertAll l).bind fun m => m.insertAll l' := by
  unfold Manifest.insertAll
  exact List.foldlM_append

theorem insertAll_succeeds : ∀ {l : List (RelPath × ManifestEntry)} {m : Manifest},
    (∀ x ∈ l, validateManifestPath x.1 = .ok ()) → ∃ m', m.insertAll l = .ok m'
  | [], m, _ => ⟨m, rfl⟩
  | x :: l, m, h => by
    have hinsert : m.insert x.1 x.2 = .ok { m with entries := m.entries.insert x.1 x.2 } := by
      unfold Manifest.insert
      rw [h x List.mem_cons_self]
      rfl
    obtain ⟨m', hm'⟩ := insertAll_succeeds (m := { m with entries := m.entries.insert x.1 x.2 })
      fun y hy => h y (List.mem_cons_of_mem _ hy)
    refine ⟨m', ?_⟩
    unfold Manifest.insertAll at hm' ⊢
    rw [List.foldlM_cons, hinsert]
    exact hm'

/-- A step inserts these entries, if they can be inserted. -/
theorem combinePath_inserts (haction : item.action = actionOf base loc remote item.path) {m : Manifest}
    (h : s.combined.insertAll (insertsOf c blobs base loc remote revision s item) = .ok m) :
    ∃ s', combinePath c blobs base loc remote revision s item = .ok s' ∧ s'.combined = m := by
  have hentry {x : Option ManifestEntry} (h : s.combined.insertAll (x.map fun e => (item.path, e)).toList = .ok m) :
      ∃ s', combineEntry item.path x s = .ok s' ∧ s'.combined = m := by
    cases x with
    | none =>
      cases h
      exact ⟨s, rfl, rfl⟩
    | some e =>
      have hinsert : s.combined.insert item.path e = .ok m := by
        have hone : s.combined.insertAll [(item.path, e)] = (s.combined.insert item.path e).bind .ok := rfl
        rw [Option.map_some, Option.toList_some, hone] at h
        obtain ⟨m', hm', heq⟩ := Except.bind_ok.mp h
        cases heq
        exact hm'
      refine ⟨{ s with combined := m }, ?_, rfl⟩
      simp only [combineEntry, Except.bind_ok]
      exact ⟨m, hinsert, rfl⟩
  have hconflict (h : s.combined.insertAll (loc.subtree item.path ++ (remote.subtree item.path).map fun entry =>
        (reroot item.path (freeCopyPath s.reservedPaths (conflictCopyPath item.path revision)) entry.1, entry.2)) =
          .ok m) : ∃ s', addConflict item.path loc remote revision s = .ok s' ∧ s'.combined = m := by
    rw [insertAll_append] at h
    obtain ⟨withLocal, hlocal, hcopies⟩ := Except.bind_ok.mp h
    simp only [addConflict, Except.bind_ok]
    exact ⟨_, ⟨withLocal, hlocal, m, hcopies, rfl⟩, rfl⟩
  unfold insertsOf resolve at h
  unfold combinePath
  rw [haction]
  cases hact : actionOf base loc remote item.path with
  | unchanged =>
    rw [hact] at h
    exact hentry h
  | upload =>
    rw [hact] at h
    exact hentry h
  | download =>
    rw [hact] at h
    exact hentry h
  | merge =>
    rw [hact] at h
    cases hmerged : mergedFile c blobs base loc remote item.path with
    | none =>
      simp only [hmerged] at h ⊢
      exact hconflict h
    | some merged =>
      simp only [hmerged] at h ⊢
      obtain ⟨s', hs', hm⟩ := hentry (x := some (.file merged.1)) h
      obtain ⟨m', hinsert, heq⟩ := Except.bind_ok.mp hs'
      cases heq
      simp only [Except.bind_ok]
      exact ⟨_, ⟨m', hinsert, rfl⟩, hm⟩
  | conflict =>
    rw [hact] at h
    exact hconflict h

/-- Nothing is at the path of an entry yet. -/
theorem Combined.free_entry {e : ManifestEntry} (hloc : loc.TreeShaped) (hremote : remote.TreeShaped)
    (h : Combined c blobs base loc remote conflicts₀ done s copyOf) (hsided : Sided loc remote p)
    (hhidden : ¬ Hidden base loc remote p) (hnew : p ∉ done)
    (he : resolve c blobs base loc remote p = .entry (some e)) : s.combined.get p = none := by
  refine h.rest p hnew fun r copy hr => ⟨fun hwithin => h.not_sided hloc hremote hr hwithin hsided, fun hwithin => ?_⟩
  obtain ⟨hmem, hconflict⟩ := (h.domain r).mp ⟨copy, hr⟩
  rcases hwithin with rfl | hbeneath
  · exact hnew hmem
  · rw [(resolve_beneath hloc hremote hconflict hbeneath hhidden).2] at he
    cases he

/-- Nothing is within a conflict yet. -/
theorem Combined.free_conflict (hloc : loc.TreeShaped) (hremote : remote.TreeShaped)
    (h : Combined c blobs base loc remote conflicts₀ done s copyOf) (hsided : Sided loc remote p)
    (hdone : ∀ q ∈ done, Sided loc remote q ∧ ¬ Hidden base loc remote q) (hhidden : ¬ Hidden base loc remote p)
    (hnew : p ∉ done) (hconflict : resolve c blobs base loc remote p = .conflict) (hq : Within p q) :
    s.combined.get q = none := by
  -- nothing planned so far is within the conflict
  have hnone {r : RelPath} (hr : r ∈ done) : ¬ Within p r := by
    rintro (rfl | hbeneath)
    · exact hnew hr
    · obtain ⟨hsided', hhidden'⟩ := hdone r hr
      rcases structural_or_files hconflict with hstructural | ⟨hl, hrem⟩
      · exact hhidden' (hidden_iff.mpr ⟨p, hbeneath, hstructural⟩)
      · rcases hsided' with hsome | hsome
        · exact hsome (hloc.none_beneath hl hbeneath)
        · exact hsome (hremote.none_beneath hrem hbeneath)
  refine h.rest q (fun hmem => hnone hmem hq) fun r copy hr => ⟨fun hwithin => ?_, fun hwithin => ?_⟩
  · obtain ⟨_, _, _, tail, htail, hslash⟩ := h.fresh r copy hr
    rcases Within.linear hwithin hq with hcp | hpc
    · exact h.not_sided hloc hremote hr hcp hsided
    · rcases hpc with rfl | hbeneath
      · exact h.not_sided hloc hremote hr (within_self _) hsided
      · rw [htail] at hbeneath
        exact hnone ((h.domain r).mp ⟨copy, hr⟩).1 (beneath_append_of_noSlash hslash hbeneath).within
  · obtain ⟨hmem, hconflict'⟩ := (h.domain r).mp ⟨copy, hr⟩
    rcases Within.linear hwithin hq with hrp | hpr
    · rcases hrp with rfl | hbeneath
      · exact hnew hmem
      · rw [(resolve_beneath hloc hremote hconflict' hbeneath hhidden).2] at hconflict
        cases hconflict
    · exact hnone hmem hpr

/-- Nothing is within a free name beside a conflict. -/
theorem Combined.free_copy (hloc : loc.TreeShaped) (hremote : remote.TreeShaped)
    (h : Combined c blobs base loc remote conflicts₀ done s copyOf) (hsided : Sided loc remote p)
    (hdone : ∀ q ∈ done, Sided loc remote q ∧ ¬ Hidden base loc remote q) (hhidden : ¬ Hidden base loc remote p)
    (hconflict : resolve c blobs base loc remote p = .conflict) (hfresh : copy ∉ s.reservedPaths)
    (hbeside : ∃ tail, copy = p ++ tail ∧ '/' ∉ tail) (hq : Within copy q) : s.combined.get q = none := by
  have hnotSided {r : RelPath} (hr : Within copy r) : ¬ Sided loc remote r := fun hsided' =>
    hfresh (h.reserved.1 copy (hsided'.above hloc hremote hr).listed)
  obtain ⟨tail, htail, hslash⟩ := hbeside
  refine h.rest q (fun hmem => hnotSided hq (hdone q hmem).1) fun r copy' hr => ⟨fun hwithin => ?_, fun hwithin => ?_⟩
  · obtain ⟨_, _, hreserved, tail', htail', hslash'⟩ := h.fresh r copy' hr
    have hrsided := (hdone r ((h.domain r).mp ⟨copy', hr⟩).1).1
    rcases Within.linear hwithin hq with hcc | hcc
    · rcases hcc with rfl | hbeneath
      · exact hfresh hreserved
      · rw [htail] at hbeneath
        exact h.not_sided hloc hremote hr (beneath_append_of_noSlash hslash hbeneath).within hsided
    · rcases hcc with rfl | hbeneath
      · exact hfresh hreserved
      · rw [htail'] at hbeneath
        exact hnotSided (beneath_append_of_noSlash hslash' hbeneath).within hrsided
  · obtain ⟨hmem, hconflict'⟩ := (h.domain r).mp ⟨copy', hr⟩
    rcases Within.linear hwithin hq with hrc | hcr
    · rcases hrc with rfl | hbeneath
      · exact hnotSided (within_self _) (hdone _ hmem).1
      · rw [htail] at hbeneath
        rw [(resolve_beneath hloc hremote hconflict'
          (beneath_append_of_noSlash hslash hbeneath) hhidden).2] at hconflict
        cases hconflict
    · exact hnotSided hcr (hdone r hmem).1

/-! ### The law -/

/-- The paths are those that `Manifest::insert` and `validate_manifest_paths`
accept. -/
structure PathsAccepted (m : Manifest) : Prop where
  inserted : ∀ p, m.get p ≠ none → validateManifestPath p = .ok ()
  valid : validateManifestPaths m = .ok ()

theorem validateManifestPaths_ok {m : Manifest} (hm : m.TreeShaped) :
    validateManifestPaths m = .ok () ↔ ∀ p, m.get p ≠ none → validateLocalPath p = .ok () := by
  have hmem {p : RelPath} {e : ManifestEntry} : (p, e) ∈ m.entries.toList ↔ m.get p = some e := BTreeMap.mem_toList
  unfold validateManifestPaths
  constructor
  · intro h p hp
    obtain ⟨e, he⟩ := Option.ne_none_iff_exists'.mp hp
    exact (Except.bind_unit_ok.mp (forM_ok.mp h (p, e) (hmem.mpr he))).1
  · refine fun h => forM_ok.mpr ?_
    rintro ⟨p, e⟩ he
    have hp := hmem.mp he
    refine Except.bind_unit_ok.mpr ⟨h p (by rw [hp]; simp), require_ok.mpr ?_⟩
    rw [List.any_eq_false]
    intro q hq
    rw [hm p e hp q (mem_ancestors.mp hq)]
    simp [isFileEntry]

variable (c blobs base revision s item) in
/-- The entries that a planned path inserts are accepted, and of the sides. -/
theorem insertsOf_accepted (hloc : PathsAccepted loc) (hremote : PathsAccepted remote) (hlocTree : loc.TreeShaped)
    (hremoteTree : remote.TreeShaped) : ∀ x ∈ insertsOf c blobs base loc remote revision s item,
      validateManifestPath x.1 = .ok () ∧ validateLocalPath x.1 = .ok () := by
  have haccepted {p : RelPath} (hp : Sided loc remote p) :
      validateManifestPath p = .ok () ∧ validateLocalPath p = .ok () := by
    rcases hp with hp | hp
    · exact ⟨hloc.inserted p hp, (validateManifestPaths_ok hlocTree).mp hloc.valid p hp⟩
    · exact ⟨hremote.inserted p hp, (validateManifestPaths_ok hremoteTree).mp hremote.valid p hp⟩
  have hsided (h : resolve c blobs base loc remote item.path ≠ .entry none) : Sided loc remote item.path := by
    by_contra hnot
    exact h (resolve_unsided hnot)
  intro x hx
  unfold insertsOf at hx
  cases hresolve : resolve c blobs base loc remote item.path with
  | entry e =>
    rw [hresolve] at hx
    cases e with
    | none => simp at hx
    | some e =>
      simp only [Option.map_some, Option.toList_some, List.mem_singleton] at hx
      subst hx
      exact haccepted (hsided (by rw [hresolve]; simp))
  | conflict =>
    rw [hresolve] at hx
    rcases List.mem_append.mp hx with hx | hx
    · exact haccepted (.inl (by rw [(mem_subtree.mp hx).2]; simp))
    · obtain ⟨⟨q, e⟩, hq, rfl⟩ := List.mem_map.mp hx
      obtain ⟨hwithin, he⟩ := mem_subtree.mp hq
      obtain ⟨tail, hcopy, htail⟩ := copyTail_free s.reservedPaths item.path revision
      obtain ⟨hp, hp'⟩ := haccepted (hsided (by rw [hresolve]; simp))
      obtain ⟨hq, hq'⟩ := haccepted (p := q) (.inr (by rw [he]; simp))
      simp only [hcopy]
      exact ⟨validateManifestPath_copy htail hp hwithin hq, validateLocalPath_copy htail hp' hwithin hq'⟩

/-- What is inserted is new, and no path is inserted twice. -/
theorem Combined.inserts_new (hloc : loc.TreeShaped) (hremote : remote.TreeShaped)
    {before after : List ReconciliationPath} (hplan : planReconciliation base loc remote = .ok plan)
    (hsplit : plan.paths = before ++ item :: after)
    (h : Combined c blobs base loc remote conflicts₀ (sidedBefore loc remote before) s copyOf) :
    ((insertsOf c blobs base loc remote revision s item).map Prod.fst).Nodup ∧
      ∀ x ∈ insertsOf c blobs base loc remote revision s item, s.combined.get x.1 = none := by
  obtain ⟨hhidden, _, hnew, hdone⟩ := planned_spec hplan hsplit
  have hsided (h : resolve c blobs base loc remote item.path ≠ .entry none) : Sided loc remote item.path := by
    by_contra hnot
    exact h (resolve_unsided hnot)
  unfold insertsOf
  cases hresolve : resolve c blobs base loc remote item.path with
  | entry e =>
    cases e with
    | none => simp
    | some e =>
      have hfree := h.free_entry hloc hremote (hsided (by rw [hresolve]; simp)) hhidden hnew hresolve
      simpa using hfree
  | conflict =>
    have hside := hsided (by rw [hresolve]; simp)
    obtain ⟨hfresh, _⟩ := freeCopyPath_spec s.reservedPaths (conflictCopyPath item.path revision)
    have hbeside := freeCopyPath_beside s.reservedPaths item.path revision
    have hcopySided {q : RelPath} (hq : Within (freeCopyPath s.reservedPaths (conflictCopyPath item.path revision)) q) :
        ¬ Sided loc remote q := fun hsided' => hfresh (h.reserved.1 _ (hsided'.above hloc hremote hq).listed)
    have hcopied {x : RelPath × ManifestEntry} (hx : x ∈ (remote.subtree item.path).map fun entry =>
        (reroot item.path (freeCopyPath s.reservedPaths (conflictCopyPath item.path revision)) entry.1, entry.2)) :
        Within (freeCopyPath s.reservedPaths (conflictCopyPath item.path revision)) x.1 := by
      obtain ⟨y, hy, rfl⟩ := List.mem_map.mp hx
      exact within_reroot (mem_subtree.mp hy).1
    constructor
    · rw [List.map_append, List.nodup_append]
      refine ⟨subtree_nodup loc item.path, ?_, fun p hp q hq heq => ?_⟩
      · rw [List.map_map, List.Nodup, List.pairwise_map]
        have hkeys := subtree_nodup remote item.path
        rw [List.Nodup, List.pairwise_map] at hkeys
        refine hkeys.imp_of_mem fun {a b} ha hb hne heq => hne ?_
        exact reroot_inj (mem_subtree.mp ha).1 (mem_subtree.mp hb).1 heq
      · -- a copy is not a local path
        obtain ⟨x, hx, rfl⟩ := List.mem_map.mp hp
        obtain ⟨y, hy, rfl⟩ := List.mem_map.mp hq
        refine hcopySided (hcopied hy) (.inl ?_)
        rw [← heq, (mem_subtree.mp hx).2]
        simp
    · intro x hx
      rcases List.mem_append.mp hx with hx | hx
      · exact h.free_conflict hloc hremote hside hdone hhidden hnew hresolve (mem_subtree.mp hx).1
      · exact h.free_copy hloc hremote hside hdone hhidden hresolve hfresh hbeside (hcopied hx)

variable (c blobs base loc remote conflicts₀ revision plan) in
/-- The combined manifest can be applied, and copies collide with nothing.
`copyOf` is the copy that `add_conflict` chose for a path. -/
structure Applicable (out : Combining) (copyOf : RelPath → Option RelPath) : Prop where
  treeShaped : out.combined.TreeShaped
  valid : validateManifestPaths out.combined = .ok ()
  recorded : ∀ p copy, copyOf p = some copy → out.conflicts[p]? = some ⟨p, copy, !remote.containsPath p⟩
  chosen : ∀ p, (∃ copy, copyOf p = some copy) ↔
    (∃ item ∈ plan.paths, item.path = p) ∧ resolve c blobs base loc remote p = .conflict
  unregistered : ∀ p copy, copyOf p = some copy → ∀ record ∈ conflicts₀.toList, record.2.remoteCopyPath ≠ copy
  unlisted : ∀ p copy, copyOf p = some copy → ∀ q, Within copy q →
    base.get q = none ∧ loc.get q = none ∧ remote.get q = none
  apart : ∀ p copy p' copy', copyOf p = some copy → copyOf p' = some copy' → p ≠ p' → ¬ Within copy copy'
  /-- At every step, the path's entries are accepted, and go where there is
  nothing yet. -/
  inserts : ∀ before item after s, plan.paths = before ++ item :: after →
    before.foldlM (combinePath c blobs base loc remote revision) (.start base loc remote conflicts₀) = .ok s →
    ∃ s', combinePath c blobs base loc remote revision s item = .ok s' ∧
      s.combined.insertAll (insertsOf c blobs base loc remote revision s item) = .ok s'.combined ∧
      ((insertsOf c blobs base loc remote revision s item).map Prod.fst).Nodup ∧
      ∀ x ∈ insertsOf c blobs base loc remote revision s item, s.combined.get x.1 = none

/-- The loop that looks for a name ends with the first that is free. -/
theorem freeCopyPath_first (reserved : BTreeSet RelPath) (start : RelPath) : ∃ n,
    freeCopyPath reserved start = copyCandidate start n ∧ copyCandidate start n ∉ reserved ∧
      ∀ k < n, copyCandidate start k ∈ reserved := by
  classical
  obtain ⟨hfree, n, hn⟩ := freeCopyPath_spec reserved start
  refine ⟨n, hn, hn ▸ hfree, fun k hk => ?_⟩
  by_contra hnot
  -- the search would have stopped there
  have hsearch : ((List.range (reserved.size + 1)).map (copyCandidate start)).find?
      (fun path => decide (path ∉ reserved)) = some (copyCandidate start n) := by
    have hsome : (((List.range (reserved.size + 1)).map (copyCandidate start)).find?
        fun path => decide (path ∉ reserved)).isSome := freeCopyPath_found reserved start
    obtain ⟨path, hpath⟩ := Option.isSome_iff_exists.mp hsome
    have heq : freeCopyPath reserved start = path := by
      unfold freeCopyPath
      rw [hpath]
      rfl
    rw [hpath, ← heq, hn]
  rw [List.find?_map, Option.map_eq_some_iff] at hsearch
  obtain ⟨i, hi, heq⟩ := hsearch
  have hin : i = n := copyCandidate_injective start heq
  subst hin
  rw [List.find?_range_eq_some] at hi
  have hk' := hi.2.2 k hk
  simp only [Function.comp_apply, Bool.not_eq_true', decide_eq_false_iff_not, not_not] at hk'
  exact hnot hk'

/-- What is inserted so far has accepted paths. -/
def PathsValid (m : Manifest) : Prop := ∀ p, m.get p ≠ none → validateLocalPath p = .ok ()

variable (c blobs revision) in
/-- A step of the loop is never refused. -/
theorem Combined.step_succeeds (hloc : PathsAccepted loc) (hremote : PathsAccepted remote)
    (hlocTree : loc.TreeShaped) (hremoteTree : remote.TreeShaped) {before after : List ReconciliationPath}
    (hplan : planReconciliation base loc remote = .ok plan) (hsplit : plan.paths = before ++ item :: after)
    (haccepted : PathsValid s.combined) : ∃ s', combinePath c blobs base loc remote revision s item = .ok s' ∧
      s.combined.insertAll (insertsOf c blobs base loc remote revision s item) = .ok s'.combined ∧
      PathsValid s'.combined := by
  have hvalid := insertsOf_accepted c blobs base revision s item hloc hremote hlocTree hremoteTree
  obtain ⟨m, hm⟩ := insertAll_succeeds (m := s.combined) fun x hx => (hvalid x hx).1
  obtain ⟨s', hs', rfl⟩ := combinePath_inserts (planned_spec hplan hsplit).2.1 hm
  refine ⟨s', hs', hm, fun p hp => ?_⟩
  by_cases hin : ∃ e, (p, e) ∈ insertsOf c blobs base loc remote revision s item
  · obtain ⟨e, he⟩ := hin
    exact (hvalid (p, e) he).2
  · push Not at hin
    rw [get_insertAll_of_not_mem hm hin] at hp
    exact haccepted p hp

variable (c blobs revision conflicts₀) in
/-- The loop comes to every planned path. -/
theorem combine_before (hloc : PathsAccepted loc) (hremote : PathsAccepted remote) (hlocTree : loc.TreeShaped)
    (hremoteTree : remote.TreeShaped) (hplan : planReconciliation base loc remote = .ok plan) :
    ∀ before after : List ReconciliationPath, plan.paths = before ++ after →
      ∃ s, before.foldlM (combinePath c blobs base loc remote revision) (.start base loc remote conflicts₀) = .ok s ∧
        PathsValid s.combined ∧
        ∃ copyOf, Combined c blobs base loc remote conflicts₀ (sidedBefore loc remote before) s copyOf := by
  intro before
  induction before using List.reverseRecOn with
  | nil =>
    refine fun _ _ => ⟨_, rfl, fun p hp => ?_, _, combined_start⟩
    exact absurd Manifest.get_new hp
  | append_singleton before item ih =>
    intro after hsplit
    rw [List.append_assoc] at hsplit
    obtain ⟨s, hs, haccepted, copyOf, h⟩ := ih _ hsplit
    obtain ⟨s', hs', _, haccepted'⟩ := Combined.step_succeeds c blobs revision hloc hremote hlocTree hremoteTree
      hplan hsplit haccepted
    refine ⟨s', ?_, haccepted', h.step hlocTree hremoteTree hplan hsplit hs'⟩
    rw [List.foldlM_append, hs]
    simp only [bind, Except.bind, List.foldlM_cons, List.foldlM_nil]
    rw [hs']
    rfl

/-- **The combined manifest is always applicable, and conflict copies never
collide.** -/
theorem combined_applicable (c : Crypto) (blobs : Blobs) {base loc remote : Manifest}
    (hbaseTree : base.TreeShaped) (hlocTree : loc.TreeShaped) (hremoteTree : remote.TreeShaped)
    (hloc : PathsAccepted loc) (hremote : PathsAccepted remote) (revision : ℕ)
    (conflicts : BTreeMap RelPath ConflictRecord) {plan : ReconciliationPlan}
    (hplan : planReconciliation base loc remote = .ok plan) :
    ∃ out copyOf, combine c blobs base loc remote revision conflicts plan = .ok out ∧
      Applicable c blobs base loc remote conflicts revision plan out copyOf ∧
      ∀ reserved start, ∃ n, freeCopyPath reserved start = copyCandidate start n ∧
        copyCandidate start n ∉ reserved ∧ ∀ k < n, copyCandidate start k ∈ reserved := by
  obtain ⟨out, hout, haccepted, copyOf, h⟩ := combine_before c blobs conflicts revision hloc hremote hlocTree
    hremoteTree hplan plan.paths [] (List.append_nil _).symm
  have hsided : sidedBefore loc remote plan.paths = sidedPaths base loc remote := (sidedPaths_eq hplan).symm
  have htree : out.combined.TreeShaped := by
    rw [hsided] at h
    exact h.treeShaped hlocTree hremoteTree
  have hsidedOf {p copy : RelPath} (hcopy : copyOf p = some copy) : Sided loc remote p := by
    have hmem := ((h.domain p).mp ⟨copy, hcopy⟩).1
    exact of_decide_eq_true (List.mem_filter.mp hmem).2
  refine ⟨out, copyOf, hout, ?_, freeCopyPath_first⟩
  refine ⟨htree, (validateManifestPaths_ok htree).mpr haccepted, fun p copy hcopy => ?_, fun p => ?_,
    fun p copy hcopy => (h.fresh p copy hcopy).2.1, fun p copy hcopy q hq => ?_,
    fun p copy p' copy' hp hp' hne hwithin => ?_, fun before item after s hsplit hs => ?_⟩
  · rw [h.records, hcopy]
  · rw [h.domain]
    constructor
    · rintro ⟨hmem, hconflict⟩
      obtain ⟨item, hitem, heq⟩ := List.mem_map.mp (List.mem_filter.mp hmem).1
      exact ⟨⟨item, hitem, heq⟩, hconflict⟩
    · rintro ⟨⟨item, hitem, rfl⟩, hconflict⟩
      refine ⟨List.mem_filter.mpr ⟨List.mem_map.mpr ⟨item, hitem, rfl⟩, decide_eq_true ?_⟩, hconflict⟩
      by_contra hnot
      rw [resolve_unsided hnot] at hconflict
      cases hconflict
  · have hnone : ¬ Listed base loc remote q := fun hlisted =>
      (h.fresh p copy hcopy).1 (hlisted.above hbaseTree hlocTree hremoteTree hq)
    unfold Listed at hnone
    push Not at hnone
    exact hnone
  · -- the other copy lies next to a path of the sides
    rcases hwithin with heq | hbeneath
    · exact hne (h.injective p p' copy hp (heq ▸ hp'))
    · obtain ⟨_, _, _, tail, htail, hslash⟩ := h.fresh p' copy' hp'
      rw [htail] at hbeneath
      exact h.not_sided hlocTree hremoteTree hp (beneath_append_of_noSlash hslash hbeneath).within (hsidedOf hp')
  · obtain ⟨s₀, hs₀, haccepted₀, copyOf₀, h₀⟩ := combine_before c blobs conflicts revision hloc hremote hlocTree
      hremoteTree hplan before (item :: after) hsplit
    rw [hs] at hs₀
    cases hs₀
    obtain ⟨s', hs', hinsert, _⟩ := Combined.step_succeeds c blobs revision hloc hremote hlocTree hremoteTree
      hplan hsplit haccepted₀
    exact ⟨s', hs', hinsert, h₀.inserts_new hlocTree hremoteTree hplan hsplit⟩

/-- The directory that became a file, with a change on both sides. -/
theorem fork_applicable : ∃ plan out copyOf, planReconciliation forkedBase forkedLocal forkedRemote = .ok plan ∧
    combine textCrypto forkedBlobs forkedBase forkedLocal forkedRemote 7 ∅ plan = .ok out ∧
    Applicable textCrypto forkedBlobs forkedBase forkedLocal forkedRemote ∅ 7 plan out copyOf := by
  have haccepted (m : Manifest) (h : (m.entries.toList.all fun x => decide (validateManifestPath x.1 = .ok ())) = true)
      (hvalid : validateManifestPaths m = .ok ()) : PathsAccepted m := by
    refine ⟨fun p hp => ?_, hvalid⟩
    obtain ⟨e, he⟩ := Option.ne_none_iff_exists'.mp hp
    exact of_decide_eq_true (List.all_eq_true.mp h (p, e) (BTreeMap.mem_toList.mpr he))
  have hplan : planReconciliation forkedBase forkedLocal forkedRemote = .ok
      ⟨((unionPaths [forkedBase, forkedLocal, forkedRemote]).foldl
        (planPath forkedBase forkedLocal forkedRemote) ⟨[], []⟩).planned⟩ := rfl
  obtain ⟨out, copyOf, hout, happlicable, _⟩ := combined_applicable textCrypto forkedBlobs (by decide +kernel)
    (by decide +kernel) (by decide +kernel) (haccepted forkedLocal (by decide +kernel) (by decide +kernel))
    (haccepted forkedRemote (by decide +kernel) (by decide +kernel)) 7 ∅ hplan
  exact ⟨_, out, copyOf, hplan, hout, happlicable⟩

end Loop

end RustSync
