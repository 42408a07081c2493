/-
Bringing everything together, step by step

What `reconcile` leaves when it is through (`Rebuilt`), and all that it may
leave where it is cut short (`Reconciling`). Between them they name each thing
that the step has read and written, for whatever is to be shown of an attempt.

Key definitions: `CombinedFrom`, `Reconciling`, `Rebuilt`. Key theorem:
`runs_reconcile`.
-/
import RustSync.Sync.Steps

namespace RustSync

section Attempts

variable {env : Setting} {ws : Workspace} {I : World → Prop} {w t u v x y : World} {p : Planned} {g : Gathered}
  {out : Combining} {r : Reconciliation}

variable (env ws p) in
/-- Everything is combined and the state is saved; the manifest is about to be
applied. -/
structure CombinedFrom (w : World) (g : Gathered) (out : Combining) (u v : World) : Prop where
  gathered : GatheredFrom env ws p w g u
  combined : combinePlanned ws p g = .ok out
  saved : ∃ tree, (tree = u.device.tree ∨ env.edits) ∧ v = (u.setTree tree).setSyncState (p.downloadState out)
  same : ∃ current, scanDevice ws v.device = .ok current ∧ g.staged.Agree current

theorem CombinedFrom.remote (h : CombinedFrom env ws p w g out u v) : Remote.Later env w.remote v.remote := by
  obtain ⟨tree, _, rfl⟩ := h.saved
  exact h.gathered.remote

theorem CombinedFrom.tree (h : CombinedFrom env ws p w g out u v) :
    v.device.tree = w.device.tree ∨ env.edits := by
  obtain ⟨tree, htree, rfl⟩ := h.saved
  rcases htree with rfl | hedits
  · exact h.gathered.tree
  · exact .inr hedits

variable (env ws p) in
/-- Everything is in place and staged; the base is about to be saved. -/
structure Rebuilt (w : World) (r : Reconciliation) (g : Gathered) (u v x y : World) (rules : IgnoreRules)
    (start : WorkingTree) : Prop where
  combined : CombinedFrom env ws p w g r.out u v
  applied : Applied env ws v rules r.out.combined start x
  staging : Staging env ws x y
  staged : y.device.staged = some r.published
  scanned : ∃ tree, (tree = x.device.tree ∨ env.edits) ∧
    buildManifest ws.digest ws.ignore ws.workspaceId tree (some r.out.combined) = .ok r.published
  cached : Cached ws.digest y.device.cache r.published

variable (env ws p) in
/-- Where bringing everything together may be cut short. -/
inductive Reconciling (w t : World) : Prop
  | gathering (h : Gathering env ws p w t)
  | applying {g : Gathered} {out : Combining} {u v : World} (h : CombinedFrom env ws p w g out u v)
      (happlying : Applying env ws v out.combined t)
  | staging {g : Gathered} {out : Combining} {u v x : World} {rules : IgnoreRules} {start : WorkingTree}
      (h : CombinedFrom env ws p w g out u v) (happlied : Applied env ws v rules out.combined start x)
      (hstaging : Staging env ws x t)
  | based {r : Reconciliation} {g : Gathered} {u v x y : World} {rules : IgnoreRules} {start : WorkingTree}
      (h : Rebuilt env ws p w r g u v x y rules start) (hsaved : t = y.setSyncState (p.baseState r.out))

/-- **What bringing everything together comes to**, wherever the combined
manifest is a tree. -/
theorem runs_reconcile (hshaped : ∀ g u v out, CombinedFrom env ws p w g out u v → out.combined.TreeShaped)
    (hI : ∀ t, Reconciling env ws p w t → I t) :
    Fallible.Runs (sem env) I (reconcile ws p) w fun r t => ∃ g u v x y rules start,
      Rebuilt env ws p w r g u v x y rules start ∧ t = y.setSyncState (p.baseState r.out) := by
  refine Fallible.Runs.bind (runs_gather fun t ht => hI t (.gathering ht)) fun g u hIu hg => ?_
  refine Fallible.Runs.check_bind hIu fun out hout => ?_
  refine Fallible.Runs.bind (P := fun _ t => ∃ v rules start, CombinedFrom env ws p w g out u v ∧
    Applied env ws v rules out.combined start t) ?_ fun _ x _ h => ?_
  · -- looking at the tree again
    have hlook {t : World} (ht : Edited env u t) : I t := hI t (.gathering (hg.gathering.meanwhile ht.meanwhile))
    refine Fallible.Runs.bind (runs_workingTreeStatus fun t ht => hlook ht) fun a t _ h => ?_
    obtain ⟨hlooked, hscan⟩ := h
    obtain ⟨current, baseline⟩ := a
    refine Fallible.Runs.check_bind (hlook hlooked) fun _ hsame => ?_
    rw [ensureUnchanged_ok] at hsame
    have hv : CombinedFrom env ws p w g out u (t.setSyncState (p.downloadState out)) := by
      obtain ⟨tree, htree, rfl⟩ := hlooked
      exact ⟨hg, hout, ⟨tree, htree, rfl⟩, current, hscan, hsame⟩
    have happlying {t' : World} (h : Applying env ws (t.setSyncState (p.downloadState out)) out.combined t') : I t' :=
      hI t' (.applying hv h)
    refine Fallible.Runs.bind (runs_saveSyncState (hlook hlooked) (happlying (.looked (.refl _)))) fun _ v _ h => ?_
    subst h
    refine (runs_applyPulledManifest (hshaped g u _ out hv) fun t' ht' => happlying ht').weaken (fun _ h => h)
      fun _ t' _ h => ?_
    obtain ⟨rules, start, happlied⟩ := h
    exact ⟨_, rules, start, hv, happlied⟩
  · obtain ⟨v, rules, start, hv, happlied⟩ := h
    refine Fallible.Runs.bind (runs_stagedTree fun y hy => hI y (.staging hv happlied hy)) fun published y hIy h => ?_
    obtain ⟨hstaging, hstaged, hscan, hcached⟩ := h
    rw [happlied.staged] at hscan
    have hrebuilt : Rebuilt env ws p w ⟨out, published⟩ g u v x y rules start :=
      ⟨hv, happlied, hstaging, hstaged, hscan, hcached⟩
    refine Fallible.Runs.bind (runs_saveSyncState hIy (hI _ (.based hrebuilt rfl))) fun _ t hIt h => ?_
    subst h
    exact Fallible.Runs.pure hIt ⟨g, u, v, x, y, rules, start, hrebuilt, rfl⟩

end Attempts

end RustSync
