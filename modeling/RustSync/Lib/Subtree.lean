/-
Subtrees

What is within a path of a file tree can be taken away, or moved to a path
where nothing is, below directories. A subtree keeps its shape when it is
moved: what was at a path within the source is at the path that stands to the
target as it did to the source.

Key definitions: `FileTree.clear`, `FileTree.move`. Key theorems: `get_clear`,
`get_move`.
-/
import RustSync.Lib.FileTree

namespace RustSync.FileTree

variable {φ : Type} {t t' : FileTree φ} {p q src dst : RelPath} {n : Node φ}

theorem lookup_clear {nodes : BTreeMap RelPath (Node φ)} :
    (nodes.filter fun q _ => ¬ Within p q)[q]? = if Within p q then none else nodes[q]? := by
  rw [Std.ExtTreeMap.getElem?_filter']
  by_cases hq : Within p q
  · rw [if_pos hq]
    cases nodes[q]? <;> simp [hq]
  · rw [if_neg hq]
    cases nodes[q]? <;> simp [hq]

/-- Remove what is within a path. -/
def clear (t : FileTree φ) (p : RelPath) : FileTree φ where
  nodes := t.nodes.filter fun q _ => ¬ Within p q
  closed := by
    intro r m hr q hq
    rw [lookup_clear] at hr ⊢
    by_cases hpr : Within p r
    · rw [if_pos hpr] at hr
      cases hr
    · rw [if_neg hpr] at hr
      have hpq : ¬ Within p q := fun h => hpr (h.trans hq.within)
      rw [if_neg hpq]
      exact t.closed r m hr q hq
  proper := by
    intro r m hr
    rw [lookup_clear] at hr
    by_cases hpr : Within p r
    · rw [if_pos hpr] at hr
      cases hr
    · rw [if_neg hpr] at hr
      exact t.proper r m hr

theorem get_clear : (t.clear p).get q = if Within p q then none else t.get q := lookup_clear

/-- What is within a path, under another root. -/
def movedNodes (t : FileTree φ) (src dst : RelPath) : List (RelPath × Node φ) :=
  (t.nodes.toList.filter fun entry => Within src entry.1).map fun entry => (reroot src dst entry.1, entry.2)

theorem mem_movedNodes : (q, n) ∈ t.movedNodes src dst ↔ Within dst q ∧ t.get (reroot dst src q) = some n := by
  unfold movedNodes
  rw [List.mem_map]
  constructor
  · rintro ⟨⟨r, m⟩, hmem, heq⟩
    obtain ⟨hr, hwithin⟩ := List.mem_filter.mp hmem
    have hin : Within src r := of_decide_eq_true hwithin
    cases heq
    refine ⟨within_reroot hin, ?_⟩
    rw [reroot_reroot hin]
    exact BTreeMap.mem_toList.mp hr
  · rintro ⟨hq, hn⟩
    refine ⟨(reroot dst src q, n), List.mem_filter.mpr ⟨BTreeMap.mem_toList.mpr hn, ?_⟩, ?_⟩
    · exact decide_eq_true (within_reroot hq)
    · rw [reroot_reroot hq]

theorem movedNodes_distinct : (t.movedNodes src dst).Pairwise fun a b => ¬ compare a.1 b.1 = .eq := by
  unfold movedNodes
  rw [List.pairwise_map]
  have hkeys : t.nodes.toList.Pairwise fun a b => ¬ compare a.1 b.1 = .eq := Std.ExtTreeMap.distinct_keys_toList
  refine List.Pairwise.imp_of_mem ?_ (hkeys.filter _)
  intro a b ha hb hne heq
  have ha' : Within src a.1 := of_decide_eq_true (List.mem_filter.mp ha).2
  have hb' : Within src b.1 := of_decide_eq_true (List.mem_filter.mp hb).2
  have hsame : a.1 = b.1 := reroot_inj ha' hb' (Std.LawfulEqOrd.eq_of_compare heq)
  rw [hsame] at hne
  exact hne Std.ReflCmp.compare_self

theorem lookup_moved (hfree : t.get dst = none) : ((t.clear src).nodes.insertMany (t.movedNodes src dst))[q]? =
    if Within dst q then t.get (reroot dst src q) else if Within src q then none else t.get q := by
  have hnot (hq : ∀ n, (q, n) ∉ t.movedNodes src dst) :
      ((t.clear src).nodes.insertMany (t.movedNodes src dst))[q]? = (t.clear src).get q := by
    apply Std.ExtTreeMap.getElem?_insertMany_list_of_contains_eq_false
    rw [← Bool.not_eq_true, List.contains_iff_mem, List.mem_map]
    rintro ⟨⟨_, n⟩, hmem, rfl⟩
    exact hq n hmem
  by_cases hq : Within dst q
  · rw [if_pos hq]
    cases hn : t.get (reroot dst src q) with
    | some n =>
      exact Std.ExtTreeMap.getElem?_insertMany_list_of_mem Std.ReflCmp.compare_self movedNodes_distinct
        (mem_movedNodes.mpr ⟨hq, hn⟩)
    | none =>
      have hunmoved : ∀ n, (q, n) ∉ t.movedNodes src dst := by
        intro n hmem
        rw [(mem_movedNodes.mp hmem).2] at hn
        cases hn
      -- nothing was where the subtree goes
      have hnone : t.get q = none := by
        rcases hq with rfl | hq
        · exact hfree
        · exact t.get_beneath (by rw [hfree]; simp) hq
      rw [hnot hunmoved, get_clear, hnone, ite_self]
  · rw [if_neg hq, hnot fun n hmem => hq (mem_movedNodes.mp hmem).1, get_clear]

/-- Where a subtree may be moved. -/
def Movable (t : FileTree φ) (src dst : RelPath) : Prop :=
  Proper dst ∧ (∀ q ∈ ancestors dst, t.isDirectory q = true) ∧ t.get dst = none ∧ ¬ Within src dst

instance : Decidable (t.Movable src dst) := inferInstanceAs (Decidable (_ ∧ _))

theorem proper_reroot (hdst : Proper dst) (hq : Within dst q) (h : Proper (reroot dst src q)) : Proper q := by
  obtain ⟨rest, rfl, hrest⟩ := within_iff.mp hq
  rcases hrest with rfl | ⟨tail, rfl⟩
  · rwa [List.append_nil]
  · unfold reroot Proper at h
    rw [List.drop_left, components_append_slash, List.all_append, Bool.and_eq_true] at h
    unfold Proper at hdst ⊢
    rw [components_append_slash, List.all_append, hdst, h.2]
    rfl

/-- Move what is within a path to where nothing is. -/
def move (t : FileTree φ) (src dst : RelPath) : Option (FileTree φ) :=
  if h : t.Movable src dst ∧ t.get src ≠ none then
    some {
      nodes := (t.clear src).nodes.insertMany (t.movedNodes src dst)
      closed := by
        obtain ⟨⟨_, habove, hfree, happart⟩, _⟩ := h
        intro r m hr q hq
        rw [lookup_moved hfree] at hr ⊢
        by_cases hdr : Within dst r
        · rw [if_pos hdr] at hr
          by_cases hdq : Within dst q
          · rw [if_pos hdq]
            exact t.closed _ m hr _ (beneath_reroot hdq hq)
          · -- it is above the target
            have hup : Beneath q dst := by
              rcases hdr.linear hq.within with h | h
              · exact absurd h hdq
              · rcases h with rfl | h
                · exact absurd (within_self _) hdq
                · exact h
            have hsrc : ¬ Within src q := fun h => happart (h.trans hup.within)
            rw [if_neg hdq, if_neg hsrc]
            exact isDirectory_iff.mp (habove q (mem_ancestors.mpr hup))
        · rw [if_neg hdr] at hr
          by_cases hsr : Within src r
          · rw [if_pos hsr] at hr
            cases hr
          · rw [if_neg hsr] at hr
            have hdq : ¬ Within dst q := fun h => hdr (h.trans hq.within)
            have hsq : ¬ Within src q := fun h => hsr (h.trans hq.within)
            rw [if_neg hdq, if_neg hsq]
            exact t.closed r m hr q hq
      proper := by
        obtain ⟨⟨hproper, _, hfree, _⟩, _⟩ := h
        intro r m hr
        rw [lookup_moved hfree] at hr
        by_cases hdr : Within dst r
        · rw [if_pos hdr] at hr
          exact proper_reroot hproper hdr (t.proper _ m hr)
        · rw [if_neg hdr] at hr
          by_cases hsr : Within src r
          · rw [if_pos hsr] at hr
            cases hr
          · rw [if_neg hsr] at hr
            exact t.proper r m hr }
  else none

theorem movable_of_move (h : t.move src dst = some t') : t.Movable src dst := by
  unfold move at h
  split at h
  · rename_i hmovable
    exact hmovable.1
  · cases h

theorem get_move (h : t.move src dst = some t') :
    t'.get q = if Within dst q then t.get (reroot dst src q) else if Within src q then none else t.get q := by
  unfold move at h
  split at h
  · rename_i hmovable
    cases h
    exact lookup_moved hmovable.1.2.2.1
  · cases h

theorem move_isSome (hmovable : t.Movable src dst) (hsrc : t.get src ≠ none) : ∃ t', t.move src dst = some t' := by
  unfold move
  rw [dif_pos ⟨hmovable, hsrc⟩]
  exact ⟨_, rfl⟩

end RustSync.FileTree
