/-
File systems whose calls fail

The calls by which a program works on a file tree, one after the other. A call
that fails may have done a part of its work: a directory above was made, a
file holds some other content, a part of a folder was removed; renaming is
done or not done. A node that is neither a file nor a directory is never gone
through.

A call spares a path (`FsOp.Spares`) that it has no part in: what is there is
there afterwards, whether the call fails or not. A folder that is renamed can
be put back, and nothing has changed (`FileTree.Renamed.back`).

Key definitions: `FsOp`, `FsOp.Does`, `FsOp.Spares`, `FsOp.Inside`, `FsOp.run`.
-/
import RustSync.Lib.Calls
import RustSync.Lib.Guarded
import RustSync.Lib.Subtree

namespace RustSync

variable {φ ε : Type}

/-! ### Calls -/

inductive FsOp (φ : Type) where
  | lookup (path : RelPath)
  | readDir (path : RelPath)
  | read (path : RelPath)
  | createDirAll (path : RelPath)
  | createNew (path : RelPath) (content : φ)
  | write (path : RelPath) (content : φ)
  | rename (source target : RelPath)
  | removeFile (path : RelPath)
  | removeDirAll (path : RelPath)

/-- What a call returns; an entry of a directory may be unreadable. -/
def FsOp.Val : FsOp φ → Type
  | .lookup _ => Bool
  | .readDir _ => List (Option RelPath)
  | .read _ => φ
  | .createDirAll _ | .createNew .. | .write .. | .rename .. | .removeFile _ | .removeDirAll _ => Unit

/-- Right below a path. -/
def Child (path child : RelPath) : Prop := ∃ name, '/' ∉ name ∧ child = path ++ '/' :: name

namespace FileTree

/-- Some of the directories of a path were made. -/
def Made (path : RelPath) (t t' : FileTree φ) : Prop :=
  ∀ q, t'.get q = t.get q ∨ (Within q path ∧ t.get q = none ∧ t'.get q = some .directory)

/-- Some of what is within a path was removed. -/
def Thinned (path : RelPath) (t t' : FileTree φ) : Prop :=
  ∀ q, t'.get q = t.get q ∨ (Within path q ∧ t'.get q = none)

/-- A file is written where there is one, or nothing. -/
def Written (path : RelPath) (content : φ) (t t' : FileTree φ) : Prop :=
  t.get path ≠ some .directory ∧ t.get path ≠ some .other ∧ t.put path (.file content) = some t'

/-- A new file is written. -/
def Created (path : RelPath) (content : φ) (t t' : FileTree φ) : Prop :=
  t.get path = none ∧ t.put path (.file content) = some t'

/-- The target of a renaming makes way: nothing is there, or an empty folder
for a folder, or no folder for what is none. -/
def Renamed (source target : RelPath) (t t' : FileTree φ) : Prop :=
  (t.get target = none ∨ (t.isDirectory source = t.isDirectory target)) ∧
    ∃ u, t.remove target = some u ∧ u.move source target = some t'

end FileTree

open FileTree

/-- What a call that succeeds does. -/
def FsOp.Succeeds : (o : FsOp φ) → FileTree φ → o.Val → FileTree φ → Prop
  | .lookup p, t, there, t' =>
    t' = t ∧ (t.get p = none → there = false) ∧ ∀ n, t.get p = some n → n ≠ .other → there = true
  | .readDir p, t, (entries : List (Option RelPath)), t' =>
    t' = t ∧ t.get p = some .directory ∧ (∀ q, some q ∈ entries → Child p q ∧ t.get q ≠ none) ∧
      (none ∉ entries → ∀ q, Child p q → t.get q ≠ none → some q ∈ entries)
  | .read p, t, content, t' => t' = t ∧ t.get p = some (.file content)
  | .createDirAll p, t, _, t' => Made p t t' ∧ t'.get p = some .directory
  | .createNew p content, t, _, t' => Created p content t t'
  | .write p content, t, _, t' => Written p content t t'
  | .rename source target, t, _, t' => Renamed source target t t'
  | .removeFile p, t, _, t' => t.get p ≠ none ∧ t.get p ≠ some .directory ∧ t.remove p = some t'
  | .removeDirAll p, t, _, t' => t.get p = some .directory ∧ t' = t.clear p

/-- What a call that fails may have done. -/
def FsOp.Breaks : FsOp φ → FileTree φ → FileTree φ → Prop
  | .lookup _, t, t' | .readDir _, t, t' | .read _, t, t' | .rename .., t, t' | .removeFile _, t, t' => t' = t
  | .createDirAll p, t, t' => Made p t t'
  | .createNew p _, t, t' => t' = t ∨ ∃ content, Created p content t t'
  | .write p _, t, t' => t' = t ∨ ∃ content, Written p content t t'
  | .removeDirAll p, t, t' => Thinned p t t'

/-- A call, and the errors of failing ones. -/
def FsOp.Does (io : ε → Prop) (o : FsOp φ) (t : FileTree φ) (r : Except ε o.Val) (t' : FileTree φ) : Prop :=
  match r with
  | .ok a => o.Succeeds t a t'
  | .error e => io e ∧ o.Breaks t t'

/-- A program that works on files. -/
abbrev OnFiles (φ ε : Type) := @Fallible (FsOp φ) FsOp.Val ε

/-! ### What a call leaves alone -/

/-- The call has no part in a path. -/
def FsOp.Spares (q : RelPath) : FsOp φ → Prop
  | .lookup _ | .readDir _ | .read _ => True
  | .createDirAll p => ¬ Within q p
  | .createNew p _ | .write p _ | .removeFile p => p ≠ q
  | .removeDirAll p => ¬ Within p q
  | .rename source target => ¬ Within source q ∧ ¬ Within target q

/-- The calls that work on a folder, and on nothing else. -/
def FsOp.Inside (folder : RelPath) : FsOp φ → Prop
  | .lookup _ | .readDir _ | .read _ => True
  | .createDirAll p | .createNew p _ | .write p _ | .removeFile p | .removeDirAll p => Within folder p
  | .rename source target => Within folder source ∧ Within folder target

section Spares

variable {t t' : FileTree φ} {p q folder source target : RelPath} {content : φ} {io : ε → Prop}

theorem FileTree.Renamed.get (h : Renamed source target t t') (hs : ¬ Within source q) (ht : ¬ Within target q) :
    t'.get q = t.get q := by
  obtain ⟨_, u, hremoved, hmoved⟩ := h
  have hne : target ≠ q := by
    rintro rfl
    exact ht (within_self _)
  rw [get_move hmoved, if_neg ht, if_neg hs, get_remove hremoved, if_neg hne]

theorem FileTree.Made.get (h : Made p t t') (hq : ¬ Within q p) : t'.get q = t.get q := by
  rcases h q with hsame | ⟨hw, _⟩
  · exact hsame
  · exact absurd hw hq

theorem FileTree.Thinned.get (h : Thinned p t t') (hq : ¬ Within p q) : t'.get q = t.get q := by
  rcases h q with hsame | ⟨hw, _⟩
  · exact hsame
  · exact absurd hw hq

/-- **What a call spares is as it was.** -/
theorem FsOp.Spares.get_eq {o : FsOp φ} {r : Except ε o.Val} (ho : o.Spares q) (h : o.Does io t r t') :
    t'.get q = t.get q := by
  cases o with
  | lookup | readDir | read =>
    cases r with
    | ok => rw [h.1]
    | error => rw [h.2]
  | createDirAll p =>
    cases r with
    | ok => exact h.1.get ho
    | error => exact h.2.get ho
  | createNew p content =>
    cases r with
    | ok => rw [get_put h.2, if_neg ho]
    | error =>
      rcases h.2 with rfl | ⟨content, hcreated⟩
      · rfl
      · rw [get_put hcreated.2, if_neg ho]
  | write p content =>
    cases r with
    | ok => rw [get_put h.2.2, if_neg ho]
    | error =>
      rcases h.2 with rfl | ⟨content, hwritten⟩
      · rfl
      · rw [get_put hwritten.2.2, if_neg ho]
  | rename source target =>
    cases r with
    | ok => exact FileTree.Renamed.get h ho.1 ho.2
    | error => rw [h.2]
  | removeFile p =>
    cases r with
    | ok => rw [get_remove h.2.2, if_neg ho]
    | error => rw [h.2]
  | removeDirAll p =>
    cases r with
    | ok => rw [h.2, get_clear, if_neg ho]
    | error => exact h.2.get ho

/-- A call on a folder right below the root spares what is outside of it. -/
theorem FsOp.Inside.spares (hroot : '/' ∉ folder) {o : FsOp φ} (ho : o.Inside folder) (hq : ¬ Within folder q) :
    o.Spares q := by
  have hne {p : RelPath} (hp : Within folder p) : p ≠ q := by
    rintro rfl
    exact hq hp
  have hbelow {p : RelPath} (hp : Within folder p) : ¬ Within p q := fun h => hq (hp.trans h)
  have habove {p : RelPath} (hp : Within folder p) : ¬ Within q p := by
    intro h
    rcases hp.linear h with hin | rfl | hbeneath
    · exact hq hin
    · exact hq (within_self _)
    · obtain ⟨rest, rfl⟩ := beneath_iff.mp hbeneath
      exact hroot (List.mem_append_right _ List.mem_cons_self)
  cases o with
  | lookup | readDir | read => trivial
  | createDirAll p => exact habove ho
  | createNew p | write p | removeFile p => exact hne ho
  | removeDirAll p => exact hbelow ho
  | rename source target => exact ⟨hbelow ho.1, hbelow ho.2⟩

end Spares

/-! ### Where calls come to -/

namespace Fallible.Outcomes

variable {Op σ α : Type} {Val : Op → Type} {sem : (o : Op) → σ → Except ε (Val o) → σ → Prop} {I E : σ → Prop} {s : σ}

theorem op {o : Op} {Q : Val o → σ → Prop} (hI : I s) (hok : ∀ a t, sem o s (.ok a) t → I t ∧ Q a t)
    (herror : ∀ e t, sem o s (.error e) t → I t ∧ E t) :
    Outcomes sem I E (Fallible.op o : Fallible Val ε (Val o)) s Q := by
  intro out t hx
  cases hx with
  | cut => exact hI
  | @call _ _ _ mid _ r _ hcall hrest =>
    cases r with
    | ok a =>
      cases hrest with
      | cut => exact (hok a _ hcall).1
      | done => exact (hok a _ hcall).2
    | error e =>
      cases hrest with
      | cut => exact (herror e _ hcall).1
      | done => exact (herror e _ hcall).2

/-- Errors put into other words. -/
theorem adapt {x : Fallible Val ε α} {Q : α → σ → Prop} (g : ε → ε) (hx : Outcomes sem I E x s Q) :
    Outcomes sem I E (ExceptT.adapt g x : Fallible Val ε α) s Q := by
  intro out t hrun
  rcases Prog.Reaches.of_bind hrun with ⟨rfl, hcut⟩ | ⟨r, mid, hfirst, hrest⟩
  · exact hx.cut hcut
  · have hmid : I mid := hx.cut (Prog.Reaches.cut_short hfirst)
    cases r with
    | ok a =>
      cases hrest with
      | cut => exact hmid
      | done => exact hx.ok hfirst
    | error e =>
      cases hrest with
      | cut => exact hmid
      | done => exact hx.error hfirst

end Fallible.Outcomes

/-! ### What calls change -/

/-- The trees agree but on some paths. -/
def FileTree.AgreeBut (touched : List RelPath) (t t' : FileTree φ) : Prop := ∀ q, q ∉ touched → t'.get q = t.get q

section Changes

variable {t t' u : FileTree φ} {p q source target : RelPath} {content : φ} {touched others : List RelPath}

theorem FileTree.AgreeBut.trans (h : AgreeBut touched t u) (h' : AgreeBut others u t') :
    AgreeBut (touched ++ others) t t' := by
  intro q hq
  rw [List.mem_append, not_or] at hq
  rw [h' q hq.2, h q hq.1]

theorem FileTree.agreeBut_put {n : Node φ} (h : t.put p n = some t') : AgreeBut [p] t t' := by
  intro q hq
  rw [get_put h, if_neg (List.ne_of_not_mem_cons hq).symm]

theorem FileTree.Made.agreeBut (h : Made p t t') : AgreeBut (p :: ancestors p) t t' := by
  intro q hq
  rw [List.mem_cons, mem_ancestors, not_or] at hq
  rcases h q with hsame | ⟨hw, _⟩
  · exact hsame
  · rcases hw with rfl | hbeneath
    · exact absurd rfl hq.1
    · exact absurd hbeneath hq.2

/-- A file that is moved. -/
theorem FileTree.get_move_file (h : t.move source target = some t') (hfile : t.get source = some (.file content)) :
    t'.get q = if q = target then some (.file content) else if q = source then none else t.get q := by
  have hnone {q : RelPath} (hq : Beneath source q) : t.get q = none := by
    refine t.get_beneath ?_ hq
    rw [hfile]
    simp
  have hfree : t.get target = none := by
    unfold FileTree.move at h
    split at h
    · rename_i hmovable
      exact hmovable.1.2.2.1
    · cases h
  rw [get_move h]
  by_cases htarget : q = target
  · rw [if_pos htarget, htarget, if_pos (within_self _), reroot_self, hfile]
  · rw [if_neg htarget]
    by_cases hwithin : Within target q
    · -- beneath the target there is what was beneath the file
      have hbeneath : Beneath target q := hwithin.resolve_left htarget
      have hmoved : Beneath source (reroot target source q) := by
        have hreroot := beneath_reroot (b := source) (within_self target) hbeneath
        rwa [reroot_self] at hreroot
      have hq : t.get q = none := t.get_beneath (by rw [hfree]; simp) hbeneath
      rw [if_pos hwithin, hnone hmoved, hq, ite_self]
    · rw [if_neg hwithin]
      by_cases hsource : q = source
      · rw [if_pos hsource, hsource, if_pos (within_self _)]
      · rw [if_neg hsource]
        by_cases hbelow : Within source q
        · rw [if_pos hbelow, hnone (hbelow.resolve_left hsource)]
        · rw [if_neg hbelow]

/-- A file that is renamed. -/
theorem FileTree.Renamed.file (hne : source ≠ target) (hfile : t.get source = some (.file content))
    (h : Renamed source target t t') :
    t'.get target = some (.file content) ∧ AgreeBut [source, target] t t' := by
  obtain ⟨_, u, hremoved, hmoved⟩ := h
  have hsource : u.get source = some (.file content) := by
    rw [get_remove hremoved, if_neg hne.symm, hfile]
  constructor
  · rw [get_move_file hmoved hsource, if_pos rfl]
  · intro q hq
    simp only [List.mem_cons, List.not_mem_nil, or_false, not_or] at hq
    rw [get_move_file hmoved hsource, if_neg hq.2, if_neg hq.1, get_remove hremoved, if_neg (Ne.symm hq.2)]

/-- A folder that is renamed to where no folder is. -/
theorem FileTree.Renamed.folder (hsource : t.get source = some .directory) (htarget : t.get target ≠ some .directory)
    (h : Renamed source target t t') : t.get target = none ∧ t'.get q =
      if Within target q then t.get (reroot target source q) else if Within source q then none else t.get q := by
  obtain ⟨hway, u, hremoved, hmoved⟩ := h
  have hfree : t.get target = none := by
    rcases hway with hfree | hsame
    · exact hfree
    · have hdirectory : t.isDirectory target = true := by
        rw [← hsame]
        exact isDirectory_iff.mpr hsource
      exact absurd (isDirectory_iff.mp hdirectory) htarget
  have hsame (p : RelPath) : u.get p = t.get p := by
    rw [get_remove hremoved]
    split
    · rename_i heq
      rw [← heq, hfree]
    · rfl
  refine ⟨hfree, ?_⟩
  rw [get_move hmoved, hsame, hsame]

/-- A folder that is renamed, and renamed back after what was made in its place
was removed. -/
theorem FileTree.Renamed.back {t₁ t₂ t₃ : FileTree φ} (hsource : t.get source = some .directory)
    (htarget : t.get target ≠ some .directory) (h : Renamed source target t t₁)
    (hagree : ∀ q, ¬ Within source q → t₂.get q = t₁.get q) (hgone : t₂.get source ≠ some .directory)
    (happart : ¬ Within source target) (hback : Renamed target source t₂ t₃) : t₃ = t := by
  have hmoved (q : RelPath) := (h.folder (q := q) hsource htarget).2
  have hfree := (h.folder (q := target) hsource htarget).1
  have hroot : t₂.get target = some .directory := by
    rw [hagree target happart, hmoved, if_pos (within_self _), reroot_self, hsource]
  apply ext_get
  intro q
  rw [(hback.folder (q := q) hroot hgone).2]
  by_cases hq : Within source q
  · -- it was renamed and renamed back
    have hin : Within target (reroot source target q) := within_reroot hq
    have hout : ¬ Within source (reroot source target q) := by
      intro hw
      rcases hin.linear hw with (rfl | habove) | hbelow
      · exact htarget hsource
      · exact htarget (t.get_above hsource habove)
      · exact happart hbelow
    rw [if_pos hq, hagree _ hout, hmoved, if_pos hin, reroot_reroot hq]
  · rw [if_neg hq]
    by_cases hin : Within target q
    · rw [if_pos hin]
      rcases hin with rfl | hbeneath
      · exact hfree.symm
      · exact (t.get_beneath (by rw [hfree]; simp) hbeneath).symm
    · rw [if_neg hin, hagree q hq, hmoved, if_neg hin, if_neg hq]

end Changes

/-! ### Without faults -/

section Run

/-- Right below a path, as a test. -/
def isChild (path child : RelPath) : Bool := decide (Beneath path child) && decide ('/' ∉ child.drop (path.length + 1))

theorem isChild_iff {path child : RelPath} : isChild path child = true ↔ Child path child := by
  simp only [isChild, Bool.and_eq_true, decide_eq_true_eq]
  constructor
  · rintro ⟨hbeneath, hname⟩
    obtain ⟨name, rfl⟩ := beneath_iff.mp hbeneath
    exact ⟨name, by simpa using hname, rfl⟩
  · rintro ⟨name, hname, rfl⟩
    exact ⟨beneath_iff.mpr ⟨name, rfl⟩, by simpa using hname⟩

/-- The directories of a path are made, from the root on. -/
def FileTree.makeAll : List RelPath → FileTree φ → Option (FileTree φ)
  | [], t => some t
  | p :: ps, t =>
    if t.isDirectory p then makeAll ps t
    else if (t.get p).isNone then (t.put p .directory).bind (makeAll ps)
    else none

/-- A call that meets no fault, where it can succeed. -/
def FsOp.run : (o : FsOp φ) → FileTree φ → Option (Except ε o.Val × FileTree φ)
  | .lookup p, t => some (.ok (t.get p).isSome, t)
  | .readDir p, t =>
    if t.isDirectory p then some (.ok ((t.nodes.keys.filter (isChild p)).map some), t) else none
  | .read p, t =>
    match t.get p with
    | some (.file content) => some (.ok content, t)
    | _ => none
  | .createDirAll p, t => (FileTree.makeAll (ancestors p ++ [p]) t).map fun t' => (.ok (), t')
  | .createNew p content, t =>
    if (t.get p).isNone then (t.put p (.file content)).map fun t' => (.ok (), t') else none
  | .write p content, t =>
    match t.get p with
    | none | some (.file _) => (t.put p (.file content)).map fun t' => (.ok (), t')
    | _ => none
  | .rename source target, t =>
    if (t.get target).isNone then
      ((t.remove target).bind fun u => u.move source target).map fun t' => (.ok (), t')
    else none
  | .removeFile p, t =>
    match t.get p with
    | some (.file _) => (t.remove p).map fun t' => (.ok (), t')
    | _ => none
  | .removeDirAll p, t => if t.isDirectory p then some (.ok (), t.clear p) else none

variable {t t' : FileTree φ}

theorem FileTree.makeAll_get {ps : List RelPath} : ∀ {t : FileTree φ}, makeAll ps t = some t' → ∀ q,
    (t'.get q = t.get q ∨ (q ∈ ps ∧ t.get q = none ∧ t'.get q = some .directory)) ∧
      (q ∈ ps → t'.get q = some .directory) := by
  induction ps with
  | nil =>
    intro t h q
    cases h
    exact ⟨.inl rfl, fun hq => absurd hq List.not_mem_nil⟩
  | cons p ps ih =>
    intro t h q
    unfold makeAll at h
    -- the tree once `p` is a directory
    obtain ⟨u, hrest, hdirectory, hother⟩ : ∃ u, makeAll ps u = some t' ∧ u.get p = some .directory ∧
        ∀ q, u.get q = t.get q ∨ (q = p ∧ t.get q = none) := by
      split at h
      · rename_i hdirectory
        exact ⟨t, h, isDirectory_iff.mp hdirectory, fun q => .inl rfl⟩
      · split at h
        · rename_i hnone
          obtain ⟨u, hput, hrest⟩ := Option.bind_eq_some_iff.mp h
          refine ⟨u, hrest, by rw [get_put hput, if_pos rfl], fun q => ?_⟩
          rw [get_put hput]
          split
          · rename_i heq
            subst heq
            exact .inr ⟨rfl, Option.isNone_iff_eq_none.mp hnone⟩
          · exact .inl rfl
        · cases h
    obtain ⟨hsame, hmade⟩ := ih hrest q
    by_cases hq : q = p
    · subst hq
      have hnow : t'.get q = some .directory := by
        rcases hsame with heq | ⟨_, _, hnow⟩
        · rw [heq, hdirectory]
        · exact hnow
      refine ⟨?_, fun _ => hnow⟩
      rcases hother q with heq | ⟨_, hnone⟩
      · exact .inl (by rw [hnow, ← heq, hdirectory])
      · exact .inr ⟨List.mem_cons_self, hnone, hnow⟩
    · have hu : u.get q = t.get q := (hother q).resolve_right fun h => hq h.1
      rw [← hu, List.mem_cons, or_iff_right hq]
      exact ⟨hsame, hmade⟩

/-- A call that meets no fault is one of the calls. -/
theorem FsOp.run_does {io : ε → Prop} {o : FsOp φ} {r : Except ε o.Val} (h : o.run t = some (r, t')) :
    o.Does io t r t' := by
  cases o with
  | lookup p =>
    cases h
    refine ⟨rfl, fun hnone => by rw [hnone]; rfl, fun n hn _ => by rw [hn]; rfl⟩
  | readDir p =>
    simp only [FsOp.run] at h
    split at h
    · rename_i hdirectory
      cases h
      refine ⟨rfl, isDirectory_iff.mp hdirectory, fun q hq => ?_, fun _ q hq hthere => ?_⟩
      · obtain ⟨q', hmem, heq⟩ := List.mem_map.mp hq
        cases heq
        obtain ⟨hkey, hchild⟩ := List.mem_filter.mp hmem
        exact ⟨isChild_iff.mp hchild, mem_keys.mp hkey⟩
      · exact List.mem_map.mpr ⟨q, List.mem_filter.mpr ⟨mem_keys.mpr hthere, isChild_iff.mpr hq⟩, rfl⟩
    · cases h
  | read p =>
    simp only [FsOp.run] at h
    split at h
    · rename_i content hfile
      cases h
      exact ⟨rfl, hfile⟩
    · cases h
  | createDirAll p =>
    obtain ⟨u, hmake, heq⟩ := Option.map_eq_some_iff.mp h
    cases heq
    have hmem (q : RelPath) : q ∈ ancestors p ++ [p] ↔ Within q p := by
      rw [List.mem_append, mem_ancestors, List.mem_singleton]
      constructor
      · rintro (hbeneath | rfl)
        · exact hbeneath.within
        · exact within_self _
      · rintro (rfl | hbeneath)
        · exact .inr rfl
        · exact .inl hbeneath
    refine ⟨fun q => ?_, (makeAll_get hmake p).2 ((hmem p).mpr (within_self _))⟩
    have hget := (makeAll_get hmake q).1
    rwa [hmem] at hget
  | createNew p content =>
    simp only [FsOp.run] at h
    split at h
    · rename_i hnone
      obtain ⟨u, hput, heq⟩ := Option.map_eq_some_iff.mp h
      cases heq
      exact ⟨Option.isNone_iff_eq_none.mp hnone, hput⟩
    · cases h
  | write p content =>
    simp only [FsOp.run] at h
    split at h
    · rename_i hnone
      obtain ⟨u, hput, heq⟩ := Option.map_eq_some_iff.mp h
      cases heq
      exact ⟨by simp [hnone], by simp [hnone], hput⟩
    · rename_i old hfile
      obtain ⟨u, hput, heq⟩ := Option.map_eq_some_iff.mp h
      cases heq
      exact ⟨by simp [hfile], by simp [hfile], hput⟩
    · cases h
  | rename source target =>
    simp only [FsOp.run] at h
    split at h
    · rename_i hnone
      obtain ⟨u, hmoved, heq⟩ := Option.map_eq_some_iff.mp h
      cases heq
      obtain ⟨v, hremoved, hmove⟩ := Option.bind_eq_some_iff.mp hmoved
      exact ⟨.inl (Option.isNone_iff_eq_none.mp hnone), v, hremoved, hmove⟩
    · cases h
  | removeFile p =>
    simp only [FsOp.run] at h
    split at h
    · rename_i content hfile
      obtain ⟨u, hremoved, heq⟩ := Option.map_eq_some_iff.mp h
      cases heq
      exact ⟨by simp [hfile], by simp [hfile], hremoved⟩
    · cases h
  | removeDirAll p =>
    simp only [FsOp.run] at h
    split at h
    · rename_i hdirectory
      cases h
      exact ⟨isDirectory_iff.mp hdirectory, rfl⟩
    · cases h

/-- The first calls of a program that meets no fault. -/
theorem OnFiles.reaches_execFor {α : Type} {io : ε → Prop} {x : OnFiles φ ε α} {n : ℕ} {out : Option (Except ε α)}
    (h : Prog.execFor (S := Signature.fallible FsOp.Val ε) FsOp.run n x.run t = some (out, t')) :
    Fallible.Reaches (FsOp.Does io) x t out t' := by
  have hrun : ∀ (o : FsOp φ) (u : FileTree φ) (r : Except ε o.Val) (u' : FileTree φ), o.run u = some (r, u') →
      o.Does io (id u) r (id u') := fun _ _ _ _ hcall => FsOp.run_does hcall
  exact Prog.Reaches.of_execFor (S := Signature.fallible FsOp.Val ε) hrun h

/-- A program that meets no fault. -/
theorem OnFiles.reaches_exec {α : Type} {io : ε → Prop} {x : OnFiles φ ε α} {r : Except ε α}
    (h : Fallible.exec FsOp.run x t = some (r, t')) : Fallible.Reaches (FsOp.Does io) x t (some r) t' :=
  Fallible.Reaches.of_exec id (fun _ _ _ _ hcall => FsOp.run_does hcall) h

end Run

end RustSync
