/-
What is examined before an application

With the walk and the looks at single files, all that an application finds out
before its first change is what one look at the whole tree gives
(`guarded_examine`). So an application that looks about step by step is one
that looks once (`reaches_applyPulledManifest`), what is known of the one is
known of the other, and it stays in the workspace if its changes do
(`guarded_applyPulledManifest`).

Key definition: `Looking.Examined`. Key theorems: `guarded_examine`,
`reaches_applyPulledManifest`.
-/
import RustSync.Sync.Walk

namespace RustSync

namespace Looking

section Examination

variable {env : Setting} {ws : Workspace} {E : World → Prop} {w : World} {tree : WorkingTree} {m : Manifest}
  {blobSource : String → Except String Bytes} {levels : ℕ}

theorem guarded_checked {α β : Type} {x : LocalResult α} {f : α → Look β} {Q : β → World → Prop}
    (hE : (∀ a, x ≠ .ok a) → E w)
    (hf : ∀ a, x = .ok a → Fallible.Guarded (sem env) Op.Looks E (f a) w Q) :
    Fallible.Guarded (sem env) Op.Looks E (checked x >>= f) w Q := by
  refine Fallible.Guarded.check_bind (fun e he => hE fun a ha => ?_) fun a ha => hf a (Except.mapError_ok.mp ha)
  rw [Except.mapError_ok.mpr ha] at he
  cases he

variable (ws w) in
/-- What is known when everything has been examined. -/
structure Examined (m : Manifest) (blobSource : String → Except String Bytes) (rules : IgnoreRules)
    (listing localPaths : List RelPath) (unchangedPaths : BTreeSet RelPath)
    (fetched : BTreeMap String Bytes) : Prop where
  perm : listing.Perm w.device.tree.nodes.keys
  admitted : Admitted ws m blobSource w.device rules fetched
  paths : localPaths = (RustSync.collectWorkspacePaths rules w.device.tree listing).1
  unchanged : ∀ item ∈ m.entries.toList, decide (item.1 ∈ unchangedPaths) = isUnchanged ws w.device.tree item

theorem found_unchanged {found : BTreeSet RelPath} (h : ∀ p, p ∈ found ↔ ∃ item ∈ m.entries.toList, item.1 = p ∧
    isUnchanged ws tree item = true) (item : RelPath × ManifestEntry) (hitem : item ∈ m.entries.toList) :
    decide (item.1 ∈ found) = isUnchanged ws tree item := by
  obtain ⟨path, e⟩ := item
  have hiff : path ∈ found ↔ isUnchanged ws tree (path, e) = true := by
    rw [h]
    constructor
    · rintro ⟨⟨path', e'⟩, hitem', rfl, hunchanged⟩
      have hsame : some e' = some e :=
        (BTreeMap.mem_toList.mp hitem').symm.trans (BTreeMap.mem_toList.mp hitem)
      rw [Option.some.inj hsame] at hunchanged
      exact hunchanged
    · exact fun hunchanged => ⟨_, hitem, rfl, hunchanged⟩
  cases hunchanged : isUnchanged ws tree (path, e) with
  | true => exact decide_eq_true (hiff.mpr hunchanged)
  | false =>
    refine decide_eq_false fun hmem => ?_
    rw [hiff.mp hmem] at hunchanged
    cases hunchanged

/-- **Examining the tree looks at nothing outside, and finds what it is to
find.** -/
theorem guarded_examine (hE : E w) :
    Fallible.Guarded (sem env) Op.Looks E (examine ws levels m blobSource) w fun a t =>
      t = w ∧ ∃ rules listing, Examined ws w m blobSource rules listing a.1 a.2.1 a.2.2 := by
  refine guarded_checked (fun _ => hE) fun _ hvalid => ?_
  refine Fallible.Guarded.bind (guarded_loadIgnoreRules fun _ => hE) fun rules t h => ?_
  obtain ⟨rfl, hrules⟩ := h
  refine Fallible.Guarded.bind (guarded_collectWorkspacePaths ([], []) enters_root fun _ => hE) fun paths u h => ?_
  obtain ⟨rfl, hadds⟩ := h
  obtain ⟨listing, hlisting, rfl⟩ := hadds.listing
  refine guarded_checked (fun _ => hE) fun _ hcheck => ?_
  have hinside (item : RelPath × ManifestEntry) (hitem : item ∈ m.entries.toList) : InWorkspace item.1 := by
    have hget : m.get item.1 = some item.2 := BTreeMap.mem_toList.mp hitem
    exact .of_valid (listed_valid (Except.bind_unit_ok.mp hvalid).2 (by rw [hget]; simp)).1
  refine Fallible.Guarded.bind (guarded_addLocal hinside fun _ => hE) fun found v h => ?_
  obtain ⟨rfl, hfound, hunchanged⟩ := h
  refine guarded_checked (fun _ => hE) fun fetched hfetched => ?_
  rw [hfound] at hfetched
  exact Fallible.Guarded.pure ⟨rfl, rules, listing, hlisting, ⟨hvalid, hrules,
    fun listing' hlisting' => checkProtected_perm (hlisting.trans hlisting'.symm) hcheck, hfetched⟩, rfl,
    found_unchanged hunchanged⟩

theorem forM_congr {α : Type} {f g : α → Sync PUnit} : ∀ {l : List α}, (∀ a ∈ l, f a = g a) → l.forM f = l.forM g
  | [], _ => rfl
  | a :: l, h => by
    have hforM (k : α → Sync PUnit) : (a :: l).forM k = k a >>= fun _ => l.forM k := rfl
    rw [hforM, hforM, h a List.mem_cons_self, forM_congr fun b hb => h b (List.mem_cons_of_mem _ hb)]

theorem applyChanges_congr {unchanged unchanged' : RelPath × ManifestEntry → Bool} {fetched : BTreeMap String Bytes}
    {localPaths : List RelPath} (h : ∀ item ∈ m.entries.toList, unchanged item = unchanged' item) :
    applyChanges ws m unchanged fetched localPaths = applyChanges ws m unchanged' fetched localPaths := by
  unfold applyChanges
  rw [forM_congr fun item hitem => ?_]
  obtain ⟨path, entry⟩ := item
  cases entry with
  | directory => rfl
  | file file =>
    unfold applyEntry
    simp only [h _ hitem]

/-- **An application stays inside where its changes do.** -/
theorem guarded_applyPulledManifest {R : Unit → World → Prop} (hE : E w)
    (h : ∀ rules fetched listing, listing.Perm w.device.tree.nodes.keys →
      Admitted ws m blobSource w.device rules fetched →
      Fallible.Guarded (RustSync.sem env) (RustSync.Op.Inside ws.digest) E (applyChanges ws m
        (isUnchanged ws w.device.tree) fetched (RustSync.collectWorkspacePaths rules w.device.tree listing).1) w R) :
    Fallible.Guarded (sem env) (Op.Inside ws.digest) E (applyPulledManifest ws levels m blobSource) w R := by
  have hlooks (o : Op) (t : World) (ho : o.Looks t) : o.Inside ws.digest t := by
    cases o with
    | readManifest | symlinkMetadata | readDir | readFile => exact ho
    | engine => exact ho.elim
  refine Fallible.Guarded.bind ((guarded_examine hE).mono_may hlooks) fun a t ht => ?_
  obtain ⟨localPaths, unchangedPaths, fetched⟩ := a
  obtain ⟨rfl, rules, listing, hexamined⟩ := ht
  dsimp only at hexamined ⊢
  rw [applyChanges_congr hexamined.unchanged, hexamined.paths]
  exact (h rules fetched listing hexamined.perm hexamined.admitted).lift (fun _ _ _ _ h => h) fun _ _ h => h

/-- **A run of an application that looks about step by step is one of an
application that looks once, or it has done nothing yet.** -/
theorem reaches_applyPulledManifest {out : Option (SyncResult Unit)} {t : World}
    (h : Fallible.Reaches (sem env) (applyPulledManifest ws levels m blobSource) w out t) :
    (t = w ∧ ∀ a, out ≠ some (.ok a)) ∨
      Fallible.Reaches (RustSync.sem env) (RustSync.applyPulledManifest ws m blobSource) w out t := by
  have hexamine : Fallible.Guarded (sem env) Op.Looks (fun _ => True) (examine ws levels m blobSource) w _ :=
    guarded_examine trivial
  rcases hexamine.of_bind (J := (· = w)) (fun _ _ _ _ ho hcall hu => ho.keeps hcall hu) rfl h with
    hstays | ⟨a, u, rfl, ⟨_, rules, listing, hexamined⟩, hrest⟩
  · exact .inl hstays
  · right
    obtain ⟨localPaths, unchangedPaths, fetched⟩ := a
    dsimp only at hrest hexamined
    rw [applyChanges_congr hexamined.unchanged, hexamined.paths] at hrest
    exact hexamined.admitted.reaches hexamined.perm (Fallible.Reaches.of_lift (fun _ _ _ _ h => h) hrest)

end Examination

end Looking

end RustSync
