/-
Removing what a manifest does not list

A path that the walk has met is removed, deepest first, unless it cannot be
(`Hinders`) or leads through a link. What is above a path is as it was when it
is the path's turn, and what goes besides the paths goes with a directory that
could not be looked at (`Emptied`). Which directories those are is up to the
disk, so there is a run for each choice (`removals_run`).

Key definitions: `Hinders`, `Emptied`. Key theorems: `guarded_removals`,
`removals_run`.
-/
import RustSync.Sync.Alone

namespace RustSync

section Removals

variable {env : Setting} {E : World → Prop} {w t : World} {m : Manifest} {rules : IgnoreRules}
  {start : WorkingTree} {p q : RelPath}

/-- A local path that is not internal. -/
theorem InWorkspace.of_local (hp : start.get p ≠ none) (hinternal : isInternal p = false) : InWorkspace p := by
  obtain ⟨n, hn⟩ := Option.ne_none_iff_exists'.mp hp
  refine ⟨start.proper p n hn, fun hwithin => ?_⟩
  rw [isInternal_within hwithin (by decide)] at hinternal
  cases hinternal

/-! ### Removing -/

/-- What the walk has met cannot be removed: the path is not valid, or there
is a file above it. -/
def Hinders (tree : WorkingTree) (p : RelPath) : Prop :=
  validateLocalPath p ≠ .ok () ∨ ∃ q content, Beneath q p ∧ tree.get q = some (.file content)

/-- Whatever is above the path, it cannot be removed, it is reached through a
link, or the way is open. -/
theorem way_of (tree : WorkingTree) (p : RelPath) :
    Hinders tree p ∨ (validateLocalPath p = .ok () ∧
    ((∃ q, Beneath q p ∧ tree.get q = some .other) ∨ Open tree p)) := by
  by_cases hvalid : validateLocalPath p = .ok ()
  · by_cases hopen : Open tree p
    · exact .inr ⟨hvalid, .inr hopen⟩
    · unfold Open at hopen
      push Not at hopen
      obtain ⟨q, hq, hdir, hsome⟩ := hopen
      obtain ⟨n, hn⟩ := Option.ne_none_iff_exists'.mp hsome
      cases n with
      | file content => exact .inl (.inr ⟨q, content, hq, hn⟩)
      | directory => exact absurd hn hdir
      | other => exact .inr ⟨hvalid, .inl ⟨q, hq, hn⟩⟩
  · exact .inl (.inl hvalid)

variable (env start) in
/-- What is left when the entries of `done` that the manifest does not list
were removed. -/
structure Emptied (m : Manifest) (done : List RelPath) (tree : WorkingTree) : Prop where
  paths : ∀ q, tree.get q = start.get q ∨ tree.get q = none
  gone : ∀ q ∈ done, m.get q = none → start.get q ≠ some .directory → tree.get q = none
  shallow : ∀ q, (∀ r ∈ done, depth q < depth r) → tree.get q = start.get q
  /-- A directory that could not be looked at goes with all that is in it. -/
  lost : ∀ q, q ∉ done → tree.get q = start.get q ∨ (env.diskFails ∧ ∃ r ∈ done, m.get r = none ∧ Beneath r q ∧
    ∀ x, Within r x → tree.get x = none)

theorem Emptied.begin (m : Manifest) (start : WorkingTree) : Emptied env start m [] start :=
  ⟨fun _ => .inl rfl, by simp, fun _ _ => rfl, fun _ _ => .inl rfl⟩

theorem depth_le (h : Within p q) : depth p ≤ depth q := by
  rcases h with rfl | h
  · exact Nat.le_refl _
  · exact (depth_lt h).le

theorem Emptied.push {done : List RelPath} {tree tree' : WorkingTree} (h : Emptied env start m done tree)
    (hp : Removal env p m tree tree') : Emptied env start m (done ++ [p]) tree' := by
  refine ⟨fun q => ?_, fun q hq hnone hdir => ?_, fun q hq => ?_, fun q hq => ?_⟩
  · rcases hp.cleared q with heq | ⟨_, hgone⟩
    · rw [heq]
      exact h.paths q
    · exact .inr hgone
  · have hleft (htree : tree.get q = none) : tree'.get q = none := by
      rcases hp.cleared q with heq | ⟨_, hgone⟩
      · exact heq.trans htree
      · exact hgone
    rcases List.mem_append.mp hq with hq | hq
    · exact hleft (h.gone q hq hnone hdir)
    · rw [List.mem_singleton] at hq
      subst hq
      rcases h.paths q with heq | htree
      · exact hp.gone hnone (by rw [heq]; exact hdir)
      · exact hleft htree
  · rcases hp.cleared q with heq | ⟨hwithin, _⟩
    · rw [heq]
      exact h.shallow q fun r hr => hq r (List.mem_append_left _ hr)
    · have hlt := hq p (by simp)
      have hle := depth_le hwithin
      omega
  · rw [List.mem_append, List.mem_singleton, not_or] at hq
    rcases hp.lost q hq.2 with hsame | ⟨hfails, hbeneath, hgone⟩
    · rw [hsame]
      rcases h.lost q hq.1 with heq | ⟨hfails, r, hr, hunlisted, hbeneath, hgone⟩
      · exact .inl heq
      · refine .inr ⟨hfails, r, List.mem_append_left _ hr, hunlisted, hbeneath, fun x hx => ?_⟩
        rcases hp.cleared x with heq | ⟨_, hnone⟩
        · exact heq.trans (hgone x hx)
        · exact hnone
    · by_cases hunlisted : m.get p = none
      · exact .inr ⟨hfails, p, by simp, hunlisted, hbeneath, hgone⟩
      · rw [hp.kept hunlisted]
        rcases h.lost q hq.1 with heq | ⟨hfails, r, hr, hlost⟩
        · exact .inl heq
        · exact .inr ⟨hfails, r, List.mem_append_left _ hr, hlost⟩

/-- What is above a path is as it was when it is the path's turn. -/
theorem Emptied.above {done rest : List RelPath} {tree : WorkingTree} (h : Emptied env start m done tree)
    (hsorted : (done ++ p :: rest).Pairwise DeeperFirst) (hq : Beneath q p) : tree.get q = start.get q := by
  refine h.shallow q fun r hr => ?_
  have hdeeper : DeeperFirst r p := (List.pairwise_append.mp hsorted).2.2 r hr p List.mem_cons_self
  have hlt := depth_lt hq
  unfold DeeperFirst at hdeeper
  omega

/-- A path that cannot be removed is refused, or looked at. -/
theorem guarded_removeEntry_hindered {c : Crypto} {Q : PUnit → World → Prop} (hp : m.get p = none)
    (h : Hinders t.device.tree p) (hE : E t) :
    Fallible.Guarded (sem env) (Op.Inside c) E (removeEntry m p) t Q := by
  unfold removeEntry
  have hlisted : ¬ m.containsPath p = true := by
    unfold Manifest.containsPath
    rw [hp]
    simp
  rw [if_neg hlisted]
  refine Fallible.Guarded.check_bind (fun _ _ => hE) fun _ hvalid => ?_
  rcases h with hinvalid | ⟨q, content, hq, hfile⟩
  · exact absurd (engine_ok.mp hvalid) hinvalid
  · have hinside : InWorkspace p := .of_valid (engine_ok.mp hvalid)
    refine Fallible.Guarded.bind (Fallible.Guarded.attempt_op (Q := fun r t' => t' = t ∧ ∃ e, r = .error e)
      (site_of_file hinside hq hfile) fun r t' hcall => ?_) fun r t' hr => ?_
    · rcases hcall with ⟨hr, rfl⟩ | ⟨_, ⟨text, hr⟩, rfl⟩
      · rw [stat_of_file hq hfile] at hr
        exact ⟨rfl, _, hr⟩
      · exact ⟨rfl, _, hr⟩
    · obtain ⟨rfl, e, rfl⟩ := hr
      exact guarded_stat_file hinside hq hfile hE

theorem guarded_removals {c : Crypto} {paths : List RelPath} (hsorted : paths.Pairwise DeeperFirst)
    (hlinks : ∀ done p rest, paths = done ++ p :: rest → m.get p = none → validateLocalPath p = .ok () →
      ∀ q, Beneath q p → start.get q = some .other → ∃ r ∈ done, m.get r = none ∧ Hinders start r)
    (hrefused : ∀ p ∈ paths, m.get p = none → Hinders start p → ∀ tree, E (t.setTree tree))
    (hE : env.diskFails → ∀ tree, E (t.setTree tree)) (hstart : t.device.tree = start) :
    Fallible.Guarded (sem env) (Op.Inside c) E (paths.forM (removeEntry m)) t fun _ t' => ∃ tree,
      t' = t.setTree tree ∧ Emptied env start m paths tree ∧ ∀ p ∈ paths, m.get p = none → ¬ Hinders start p := by
  refine Fallible.Guarded.forM (fun done u => ∃ tree, u = t.setTree tree ∧ Emptied env start m done tree ∧
    ∀ p ∈ done, m.get p = none → ¬ Hinders start p) ⟨start, by rw [← hstart]; rfl, .begin m start, by simp⟩
    fun done p rest u hl hu => ?_
  obtain ⟨tree, rfl, hdone, hfree⟩ := hu
  have hp : p ∈ paths := by
    rw [hl]
    simp
  have habove {q : RelPath} (hq : Beneath q p) : tree.get q = start.get q :=
    hdone.above (by rw [← hl]; exact hsorted) hq
  by_cases hlisted : m.get p = none
  · rcases way_of start p with hhinders | ⟨hvalid, ⟨q, hq, hlink⟩ | hopen⟩
    · refine guarded_removeEntry_hindered hlisted ?_ (hrefused p hp hlisted hhinders tree)
      rcases hhinders with hinvalid | ⟨q, content, hq, hfile⟩
      · exact .inl hinvalid
      · exact .inr ⟨q, content, hq, (habove hq).trans hfile⟩
    · obtain ⟨r, hr, hrlisted, hhinders⟩ := hlinks done p rest hl hlisted hvalid q hq hlink
      exact absurd hhinders (hfree r hr hrlisted)
    · have hopen' : Open tree p := by
        intro q hq
        rw [habove hq]
        exact hopen q hq
      have hnot : ¬ Hinders start p := by
        rintro (hinvalid | ⟨q, content, hq, hfile⟩)
        · exact hinvalid hvalid
        · rcases hopen q hq with hdir | hnone
          · rw [hfile] at hdir
            cases hdir
          · rw [hfile] at hnone
            cases hnone
      refine (guarded_removeEntry (t := t.setTree tree) (.of_valid hvalid) hopen'
        (fun hinvalid => absurd hvalid hinvalid)
        fun hfails tree' => hE hfails tree').weaken (fun _ h => h) fun _ u hu => ?_
      obtain ⟨tree', rfl, hremoval⟩ := hu
      refine ⟨tree', rfl, hdone.push hremoval, fun r hr hrlisted => ?_⟩
      rcases List.mem_append.mp hr with hr | hr
      · exact hfree r hr hrlisted
      · rw [List.mem_singleton.mp hr]
        exact hnot
  · have hcontains : m.containsPath p = true := Option.isSome_iff_ne_none.mpr hlisted
    unfold removeEntry
    rw [if_pos hcontains]
    refine Fallible.Guarded.pure ⟨tree, rfl, hdone.push ⟨.refl _ _, fun hnone => absurd hnone hlisted, fun _ => rfl,
      fun _ _ => .inl rfl⟩, fun r hr hrlisted => ?_⟩
    rcases List.mem_append.mp hr with hr | hr
    · exact hfree r hr hrlisted
    · rw [List.mem_singleton.mp hr] at hrlisted
      exact absurd hrlisted hlisted

/-! ### Runs -/

variable (t) in
/-- A directory that could not be looked at goes with all that is in it. -/
theorem removes_unseen (c : Crypto) (hfails : env.diskFails) (hinside : InWorkspace q)
    (hvalid : validateLocalPath q = .ok ())
    (hq : m.get q = none) (hdir : t.device.tree.get q = some .directory) :
    ∃ tree, Fallible.Reaches (sem env) (removeEntry m q) t (some (.ok ())) (t.setTree tree) ∧
      Cleared q t.device.tree tree ∧ ∀ r, Within q r → tree.get r = none := by
  have hremove : Fallible.Guarded (sem env.reliable) (Op.Inside c) (fun _ => False) (removeDirAll q) t
      fun _ t' => ∃ tree, Cleared q t.device.tree tree ∧ t' = t.setTree tree ∧ ∀ r, Within q r → tree.get r = none :=
    guarded_removeDirAll hinside hdir fun hnever _ _ => hnever
  obtain ⟨_, _, hrun, tree, hcleared, rfl, hgone⟩ := succeeds_reliable hremove
  refine ⟨tree, ?_, hcleared, hgone⟩
  have hlook : sem env (.metadata q) t (.ok (some .directory)) t := by
    refine .inl ⟨?_, rfl⟩
    rw [(open_of_some (by rw [hdir]; simp) : Open t.device.tree q).stat, hdir]
    rfl
  have hpath : Fallible.Reaches (sem env) (removePathIfExists q) t (some (.ok ())) (t.setTree tree) :=
    Prog.Reaches.call hlook hrun
  have hmiss : sem env (.metadata q) t (.error (.loc (.io "interrupted"))) t := .inr ⟨hfails, ⟨_, rfl⟩, rfl⟩
  unfold removeEntry
  have hlisted : ¬ m.containsPath q = true := by
    unfold Manifest.containsPath
    rw [hq]
    simp
  rw [if_neg hlisted, hvalid]
  exact Prog.Reaches.call hmiss hpath

theorem Removal.of_reliable {tree tree' : WorkingTree} (h : Removal env.reliable p m tree tree') :
    Removal env p m tree tree' :=
  ⟨h.cleared, h.gone, h.kept, fun q hq => (h.lost q hq).imp id fun hlost => hlost.1.elim⟩

/-- There is a run of the removals in which just the directories of `unseen`
could not be looked at. -/
theorem removals_run (c : Crypto) {paths : List RelPath} (unseen : RelPath → Prop)
    (hunseen : ∀ p, unseen p → env.diskFails) (hsorted : paths.Pairwise DeeperFirst)
    (hopen : ∀ p ∈ paths, m.get p = none → validateLocalPath p = .ok () ∧ Open w.device.tree p) :
    ∃ tree, Fallible.Reaches (sem env) (paths.forM (removeEntry m)) w (some (.ok ())) (w.setTree tree) ∧
      Emptied env w.device.tree m paths tree ∧
      (∀ p ∈ paths, m.get p = none → unseen p → w.device.tree.get p = some .directory →
        ∀ q, Within p q → tree.get q = none) ∧
      ∀ q, q ∉ paths → (∀ r ∈ paths, m.get r = none → unseen r → ¬ Beneath r q) →
        tree.get q = w.device.tree.get q := by
  let J (done : List RelPath) (u : World) : Prop := ∃ tree, u = w.setTree tree ∧
    Emptied env w.device.tree m done tree ∧
    (∀ p ∈ done, m.get p = none → unseen p → w.device.tree.get p = some .directory →
      ∀ q, Within p q → tree.get q = none) ∧
    ∀ q, q ∉ done → (∀ r ∈ done, m.get r = none → unseen r → ¬ Beneath r q) → tree.get q = w.device.tree.get q
  obtain ⟨_, hrun, tree, rfl, hemptied, hgone, hkept⟩ : ∃ t, Fallible.Reaches (sem env) (paths.forM (removeEntry m)) w
      (some (.ok ())) t ∧ J paths t := by
    refine Fallible.Reaches.forM J ⟨w.device.tree, rfl, .begin m _, by simp, fun _ _ _ => rfl⟩
      fun done p rest t hl ht => ?_
    obtain ⟨tree, rfl, hemptied, hgone, hkept⟩ := ht
    have hp : p ∈ paths := by
      rw [hl]
      simp
    -- what the run of one removal has to come to
    suffices hone : ∃ tree', Fallible.Reaches (sem env) (removeEntry m p) (w.setTree tree) (some (.ok ()))
        (w.setTree tree') ∧ Removal env p m tree tree' ∧
        (m.get p = none → unseen p → tree.get p = some .directory → ∀ q, Within p q → tree'.get q = none) ∧
        ((m.get p = none → ¬ unseen p) → ∀ q, q ≠ p → tree'.get q = tree.get q) by
      obtain ⟨tree', hrun, hremoval, hclear, hrest⟩ := hone
      have hleft {q : RelPath} (hnone : tree.get q = none) : tree'.get q = none := by
        rcases hremoval.cleared q with heq | ⟨_, hnone'⟩
        · exact heq.trans hnone
        · exact hnone'
      refine ⟨_, hrun, tree', rfl, hemptied.push hremoval, fun r hr hunlisted hr' hdir q hq => ?_, fun q hq hfree => ?_⟩
      · rcases List.mem_append.mp hr with hr | hr
        · exact hleft (hgone r hr hunlisted hr' hdir q hq)
        · obtain rfl := List.mem_singleton.mp hr
          rcases hemptied.paths r with heq | hnone
          · exact hclear hunlisted hr' (heq.trans hdir) q hq
          · apply hleft
            rcases hq with rfl | hq
            · exact hnone
            · exact FileTree.get_beneath (by rw [hnone]; simp) hq
      · rw [List.mem_append, List.mem_singleton, not_or] at hq
        rw [← hkept q hq.1 fun r hr => hfree r (List.mem_append_left _ hr)]
        by_cases hmiss : m.get p = none ∧ unseen p
        · rcases hremoval.cleared q with heq | ⟨hwithin, _⟩
          · exact heq
          · exact absurd (hwithin.resolve_left hq.2) (hfree p (by simp) hmiss.1 hmiss.2)
        · exact hrest (fun hnone hyes => hmiss ⟨hnone, hyes⟩) q hq.2
    by_cases hunlisted : m.get p = none
    · obtain ⟨hvalid, hstart⟩ := hopen p hp hunlisted
      have hinside : InWorkspace p := .of_valid hvalid
      have hway : Open tree p := by
        intro q hq
        rw [hemptied.above (by rw [← hl]; exact hsorted) hq]
        exact hstart q hq
      by_cases hmiss : unseen p ∧ tree.get p = some .directory
      · obtain ⟨tree', hrun, hcleared, hclear⟩ :=
          removes_unseen (w.setTree tree) c (hunseen p hmiss.1) hinside hvalid hunlisted hmiss.2
        refine ⟨tree', hrun, ⟨hcleared, fun _ _ => hclear p (within_self p), fun h => absurd hunlisted h,
          fun q hq => ?_⟩, fun _ _ _ => hclear, fun hseen => absurd hmiss.1 (hseen hunlisted)⟩
        rcases hcleared q with heq | ⟨hwithin, _⟩
        · exact .inl heq
        · exact .inr ⟨hunseen p hmiss.1, hwithin.resolve_left hq, hclear⟩
      · have hguarded : Fallible.Guarded (sem env.reliable) (Op.Inside c) (fun _ => False) (removeEntry m p)
            (w.setTree tree) fun _ t' => ∃ tree', t' = (w.setTree tree).setTree tree' ∧
              Removal env.reliable p m tree tree' :=
          guarded_removeEntry hinside hway (fun hinvalid => absurd hvalid hinvalid) fun hnever => hnever.elim
        obtain ⟨_, _, hrun, tree', rfl, hremoval⟩ := succeeds_reliable hguarded
        refine ⟨tree', hrun, hremoval.of_reliable, fun _ hyes hdir => absurd ⟨hyes, hdir⟩ hmiss, fun _ q hq => ?_⟩
        exact (hremoval.lost q hq).resolve_right fun hlost => hlost.1
    · have hcontains : m.containsPath p = true := Option.isSome_iff_ne_none.mpr hunlisted
      refine ⟨tree, ?_, ⟨.refl _ _, fun hnone => absurd hnone hunlisted, fun _ => rfl, fun _ _ => .inl rfl⟩,
        fun hnone => absurd hnone hunlisted, fun _ _ _ => rfl⟩
      unfold removeEntry
      rw [if_pos hcontains]
      exact .done _ _
  exact ⟨tree, hrun, hemptied, hgone, hkept⟩

end Removals

end RustSync
