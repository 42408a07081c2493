/-
All or nothing

An application that fails on a disk that works leaves the device as it was,
and one that succeeds leaves exactly the manifest where nothing is ignored:
what is left besides are directories that hold something ignored (`Exact`).

Key definition: `Exact`. Key theorem: `apply_all_or_nothing`.
-/
import Mathlib.Data.Finset.Max
import RustSync.Sync.Application

namespace RustSync

section Exact

variable {env : Setting} {ws : Workspace} {w t : World} {m : Manifest} {rules : IgnoreRules} {start : WorkingTree}
  {p q : RelPath}

/-- Where the rules exclude nothing, the tree is what the manifest lists, but
for directories that hold something excluded; the contents are cached. -/
structure Exact (c : Crypto) (rules : IgnoreRules) (m : Manifest) (device : Device) : Prop where
  listed : ∀ p e, m.get p = some e → Matches c (device.tree.get p) e
  retained : ∀ p, m.get p = none → Visible rules device.tree p → device.tree.get p = some .directory ∧
    ∃ q, Beneath p q ∧ m.get q = none ∧ device.tree.get q ≠ none ∧ ¬ Visible rules device.tree q
  cached : ∀ p file, m.get p = some (.file file) → HoldsHash c device.cache file.contentHash
  staged : device.staged = some m

/-- What is not listed and still there was there before. -/
theorem Applied.same (h : Applied env ws w rules m start t) (hp : m.get p = none) (hsome : t.device.tree.get p ≠ none) :
    t.device.tree.get p = start.get p := by
  rcases (h.paths p).unlisted hp with heq | ⟨hnone, _⟩
  · exact heq
  · exact absurd hnone hsome

theorem Applied.visible (h : Applied env ws w rules m start t) (hp : m.get p = none) :
    Visible rules t.device.tree p ↔ Visible rules start p ∧ t.device.tree.get p ≠ none := by
  have hdirs (hsome : t.device.tree.get p ≠ none) (q : RelPath) (hq : Within q p) :
      t.device.tree.isDirectory q = start.isDirectory q := by
    have hsame := h.same hp hsome
    rcases hq with rfl | hq
    · unfold FileTree.isDirectory
      rw [hsame]
    · obtain ⟨n, hn⟩ := Option.ne_none_iff_exists'.mp hsome
      have habove := t.device.tree.get_above hn hq
      rw [hn] at hsame
      rw [FileTree.isDirectory_iff.mpr habove, FileTree.isDirectory_iff.mpr (start.get_above hsame.symm hq)]
  constructor
  · intro hvisible
    refine ⟨⟨?_, fun q hq => ?_⟩, hvisible.1⟩
    · rw [← h.same hp hvisible.1]
      exact hvisible.1
    · rw [← hdirs hvisible.1 q hq]
      exact hvisible.2 q hq
  · rintro ⟨hvisible, hsome⟩
    refine ⟨hsome, fun q hq => ?_⟩
    rw [hdirs hsome q hq]
    exact hvisible.2 q hq

/-- The lowest of what is left in a directory is excluded. -/
theorem Applied.holds_excluded (hm : m.TreeShaped) (hnames : NoBackslash start) (h : Applied env ws w rules m start t)
    (hp : m.get p = none)
    (hbeneath : ∃ q, Beneath p q ∧ t.device.tree.get q ≠ none) :
    ∃ q, Beneath p q ∧ m.get q = none ∧ t.device.tree.get q ≠ none ∧ ¬ Visible rules t.device.tree q := by
  have hmem {q : RelPath} : q ∈ t.device.tree.nodes.keys.toFinset.filter (Beneath p ·) ↔
      Beneath p q ∧ t.device.tree.get q ≠ none := by
    rw [Finset.mem_filter, List.mem_toFinset, and_comm]
    exact and_congr_right fun _ => FileTree.mem_keys
  obtain ⟨q₀, hq₀⟩ := hbeneath
  obtain ⟨q, hq, hmax⟩ := Finset.exists_max_image _ List.length ⟨q₀, hmem.mpr hq₀⟩
  obtain ⟨hpq, hsome⟩ := hmem.mp hq
  have hunlisted : m.get q = none := hm.none_beneath (by rw [hp]; simp) hpq
  refine ⟨q, hpq, hunlisted, hsome, fun hvisible => ?_⟩
  have hq' := ((h.visible hunlisted).mp hvisible).1
  rcases h.unlisted q (hq'.met (hnames q hq'.1)) hunlisted with hnone | ⟨r, hr, hrsome⟩
  · exact hsome hnone
  · have hle := hmax r (hmem.mpr ⟨hpq.trans hr, hrsome⟩)
    have hlt := hr.length_lt
    omega

theorem Applied.exact (hm : m.TreeShaped) (hnames : NoBackslash start) (h : Applied env ws w rules m start t) :
    Exact ws.digest rules m t.device := by
  refine ⟨h.listed, fun p hp hvisible => ?_, h.cached, h.staged⟩
  have hstart := ((h.visible hp).mp hvisible).1
  rcases h.unlisted p (hstart.met (hnames p hstart.1)) hp with hnone | hbeneath
  · exact absurd hnone hvisible.1
  · refine ⟨?_, h.holds_excluded hm hnames hp hbeneath⟩
    obtain ⟨q, hq, hsome⟩ := hbeneath
    obtain ⟨n, hn⟩ := Option.ne_none_iff_exists'.mp hsome
    exact t.device.tree.get_above hn hq

/-- **An application is all or nothing, and exact.** -/
theorem apply_all_or_nothing (env : Setting) (ws : Workspace) (m : Manifest) (blobSource : String → Except String Bytes)
    (w : World) (hedits : ¬ env.edits) (hdisk : ¬ env.diskFails) (hm : m.TreeShaped)
    (hnames : ∀ p, w.device.tree.get p ≠ none → '\\' ∉ p) {r : SyncResult Unit} {t : World}
    (h : Fallible.Reaches (sem env) (applyPulledManifest ws m blobSource) w (some r) t) :
    match r with
    | .error _ => t.device = w.device
    | .ok _ => ∃ rules, IgnoreRules.load ws.ignore w.device.tree w.device.staged = .ok rules ∧
        Exact ws.digest rules m t.device := by
  cases r with
  | error e =>
    have hguarded : Fallible.Guarded (sem env) (fun _ _ => True) (fun u => u.device = w.device)
        (applyPulledManifest ws m blobSource) w fun _ _ => True := by
      refine (guarded_applyPulledManifest hedits (fun _ _ _ => .of_treeShaped hm hnames) ?_
        fun rules hhindered => absurd (hhindered.fails hm hnames) hdisk).weaken (fun _ h => h) fun _ _ _ => trivial
      rfl
    exact hguarded.error h
  | ok a =>
    obtain ⟨rules, start, happlied⟩ := (runs_applyPulledManifest (I := fun _ => True) hm fun _ _ => trivial).ok h
    obtain rfl : start = w.device.tree := happlied.begun.edited.resolve_right hedits
    exact ⟨rules, happlied.begun.loaded, happlied.exact hm hnames⟩

/-- The device has a file where the manifest has a directory. -/
def docsWorld : World := worldOf (treeOf [("docs", sampleFile (utf8 "docs\n"))])

def docsManifest : Manifest :=
  manifestOf [("docs", .directory), ("docs/a", textEntry "a")]

theorem docs_applied : ∃ t, Fallible.Reaches (sem .alone) (applyPulledManifest sampleSpace docsManifest
    fun _ => .ok (utf8 "a")) docsWorld (some (.ok ())) t ∧ ∃ rules,
      IgnoreRules.load sampleSpace.ignore docsWorld.device.tree docsWorld.device.staged = .ok rules ∧
        Exact noteCrypto rules docsManifest t.device := by
  have htree : docsManifest.TreeShaped := by decide +kernel
  have hnames (p : RelPath) (hp : docsWorld.device.tree.get p ≠ none) : '\\' ∉ p := by
    have hall : ∀ p ∈ docsWorld.device.tree.nodes.keys, '\\' ∉ p := by decide +kernel
    exact hall p (FileTree.mem_keys.mpr hp)
  obtain ⟨rules, fetched, hadmitted⟩ : ∃ rules fetched,
      Admitted sampleSpace docsManifest (fun _ => .ok (utf8 "a")) docsWorld.device rules fetched :=
    admitted_first (by decide +kernel) (by decide +kernel) (by decide +kernel) (by decide +kernel)
  obtain ⟨t, hrun⟩ := hadmitted.succeeds htree hnames
  exact ⟨t, hrun, apply_all_or_nothing .alone sampleSpace docsManifest
    (fun _ => .ok (utf8 "a")) docsWorld id id htree hnames
    hrun⟩

end Exact

end RustSync
