/-
Rounds of syncs

The devices of a workspace sync one after the other, and no call fails. In a
first round a device merges what it has with what those before it have
published. Then each is at rest: in a second round nothing is published, and
every device ends with the tree that the head names (`rounds_settle`). In what
order the devices have their turns, what they have in their trees and what they
have recorded as their bases makes no difference.

Key definitions: `Turn`, `Round`. Key theorem: `rounds_settle`.
-/
import RustSync.Sync.Lineage

namespace RustSync

/-- The devices, and the server. -/
structure Devices (ι : Type) where
  own : ι → Device
  shared : Remote

section Rounds

variable {ι : Type} [DecidableEq ι] {ws : Workspace} {c c' c'' : Devices ι} {i : ι} {order : List ι}

/-! ### Turns -/

variable (ws) in
/-- A device completes a sync; nobody else does anything, and no call fails. -/
def Turn (i : ι) (c c' : Devices ι) : Prop :=
  ∃ report d r, Fallible.Reaches (semIntact .alone) (sync ws .reconcile) ⟨c.own i, c.shared⟩ (some (.ok report)) ⟨d, r⟩ ∧
    c' = ⟨Function.update c.own i d, r⟩

variable (ws) in
/-- Turns, one after the other. -/
inductive Turns : List ι → Devices ι → Devices ι → Prop
  | nil {c : Devices ι} : Turns [] c c
  | cons {i : ι} {order : List ι} {c c' c'' : Devices ι} (hturn : Turn ws i c c') (hturns : Turns order c' c'') :
      Turns (i :: order) c c''

variable (ws) in
/-- Every device has its turn. -/
def Round (c c' : Devices ι) : Prop := ∃ order : List ι, (∀ i, i ∈ order) ∧ Turns ws order c c'

variable (ws) in
omit [DecidableEq ι] in
/-- Nothing is hidden on any device, nor in what the head has named. -/
structure Devices.Plain (c : Devices ι) : Prop where
  trees : ∀ i, PlainTree (c.own i).tree
  heads : HeadsAre ws PlainManifest c.shared

/-- What is done alone may be done beside others that leave the head. -/
theorem reaches_still {α : Type} {x : Sync α} {w t : World} {out : Option (SyncResult α)}
    (h : Fallible.Reaches (semIntact .alone) x w out t) : Fallible.Reaches (semIntact (.still ws)) x w out t := by
  refine Prog.Reaches.mono (S := Signature.fallible Op.Val SyncError) (fun o u r u' hcall => ?_) h
  have hwithin : Setting.alone.Within (.still ws) u.remote u.remote :=
    ⟨id, id, False.elim, fun now hnow => ⟨hnow.grows, hnow.heads, fun hheads =>
      hheads.grows hnow.grows (hnow.heads.resolve_left id)⟩⟩
  obtain ⟨seen, hseen, heq⟩ := semIntact_earlier hwithin hcall
  have hsame : seen = u'.remote := heq.elim id fun h => h.1.trans h.2.symm
  rw [hsame] at hseen
  exact hseen

theorem grows_reaches {env : Setting} {α : Type} {x : Sync α} {w t : World} {out : Option (SyncResult α)}
    (h : Fallible.Reaches (sem env) x w out t) : w.remote.Grows t.remote := by
  unfold Fallible.Reaches at h
  generalize x.run = p at h
  induction h with
  | cut p s => exact .refl _
  | done a s => exact .refl _
  | call hcall _ ih => exact (grows_sem hcall).trans ih

/-- A turn leaves its device at rest, and the tree as the head names it. -/
structure AtHead (ws : Workspace) (i : ι) (c c' : Devices ι) : Prop where
  plain : c'.Plain ws
  rest : AtRest ws (c'.own i)
  others : ∀ j, j ≠ i → c'.own j = c.own j
  grows : c.shared.Grows c'.shared
  mirrors : ∃ n, c.shared.heads.length ≤ n ∧ MirrorsHead ws (c'.own i) c'.shared n
  heads : AtRest ws (c.own i) → c'.shared.heads = c.shared.heads

theorem Turn.atHead (hideal : ws.Ideal) (hplain : c.Plain ws) (h : Turn ws i c c') : AtHead ws i c c' := by
  obtain ⟨report, d, r, hrun, rfl⟩ := h
  have hsync : Fallible.Reaches (semIntact (.still ws)) (sync ws .reconcile) _ _ _ := reaches_still hrun
  have hstill : Fallible.Reaches (sem (.still ws)) (sync ws .reconcile) _ _ _ := reaches_intact hsync
  have houtcomes : PlainOutcomes (.still ws) ws (syncAttempt ws .reconcile none 0 1) ⟨c.own i, c.shared⟩
      (PlainDone ws .reconcile c.shared.heads.length) :=
    plainOutcomes_syncAttempt hideal id rfl 1 none 0 ⟨hplain.trees i, hplain.heads⟩
  have hdone := houtcomes.ok hsync
  have hrests : Fallible.Runs (sem (.still ws)) (fun _ => True) (sync ws .reconcile) ⟨c.own i, c.shared⟩
      fun _ t => AtRest ws t.device := runs_syncAttempt id 1 none 0 _
  have hself : Function.update c.own i d i = d := Function.update_self ..
  refine ⟨⟨fun j => ?_, hdone.world.heads⟩, ?_, fun j hj => Function.update_of_ne hj .., grows_reaches hstill, ?_,
    fun hrest => heads_at_rest id id hrest hstill⟩
  · dsimp only
    by_cases hj : j = i
    · rw [hj, hself]
      exact hdone.world.tree
    · rw [Function.update_of_ne hj]
      exact hplain.trees j
  · dsimp only
    rw [hself]
    exact hrests.ok hstill
  · dsimp only
    rw [hself]
    exact ⟨report.syncedRevision, hdone.since, hdone.mirrors⟩

/-! ### Rounds -/

/-- Whoever has had a turn is at rest, as long as only others have theirs. -/
theorem Turns.rest (hideal : ws.Ideal) (h : Turns ws order c c') (hplain : c.Plain ws) :
    c'.Plain ws ∧ ∀ j, j ∈ order ∨ AtRest ws (c.own j) → AtRest ws (c'.own j) := by
  induction h with
  | nil => exact ⟨hplain, fun j hj => hj.resolve_left List.not_mem_nil⟩
  | @cons i order c c' c'' hturn _ ih =>
    have hturned := hturn.atHead hideal hplain
    obtain ⟨hplain', hrest⟩ := ih hturned.plain
    refine ⟨hplain', fun j hj => hrest j ?_⟩
    by_cases hji : j = i
    · rw [hji]
      exact .inr hturned.rest
    · rw [List.mem_cons, or_iff_right hji] at hj
      rw [hturned.others j hji]
      exact hj

/-- Where all are at rest, a device that has its turn ends with what the head names. -/
theorem Turns.mirrors (hideal : ws.Ideal) (h : Turns ws order c c') (hplain : c.Plain ws)
    (hrest : ∀ j, AtRest ws (c.own j)) : c'.shared.heads = c.shared.heads ∧
      ∀ j, j ∈ order ∨ MirrorsHead ws (c.own j) c.shared c.shared.heads.length →
        MirrorsHead ws (c'.own j) c'.shared c.shared.heads.length := by
  induction h with
  | nil => exact ⟨rfl, fun j hj => hj.resolve_left List.not_mem_nil⟩
  | @cons i order c c' c'' hturn hturns ih =>
    have hturned := hturn.atHead hideal hplain
    have hheads : c'.shared.heads = c.shared.heads := hturned.heads (hrest i)
    have hrest' (j : ι) : AtRest ws (c'.own j) := by
      by_cases hji : j = i
      · rw [hji]
        exact hturned.rest
      · rw [hturned.others j hji]
        exact hrest j
    obtain ⟨hlast, hmirrors⟩ := ih hturned.plain hrest'
    refine ⟨hlast.trans hheads, fun j hj => ?_⟩
    rw [← hheads]
    refine hmirrors j ?_
    rw [hheads]
    by_cases hji : j = i
    · -- the revision it ends at is that of the head
      obtain ⟨n, hsince, hreached⟩ := hturned.mirrors
      have hn : n = c.shared.heads.length := by
        refine Nat.le_antisymm ?_ hsince
        rw [← hheads]
        exact hreached.reached
      rw [hji, ← hn]
      exact .inr hreached
    · rw [List.mem_cons, or_iff_right hji] at hj
      rw [hturned.others j hji]
      exact hj.imp id fun hbefore => hbefore.grows hturned.grows

/-- **After a second round all is settled.** Whatever the devices have in their
trees and have recorded: when each has synced, and then each syncs once more,
nothing is published in the second round, and every tree is what the head
names. -/
theorem rounds_settle (ws : Workspace) (hideal : ws.Ideal) {c c' c'' : Devices ι} (hplain : c.Plain ws)
    (hfirst : Round ws c c') (hsecond : Round ws c' c'') : c''.shared.heads = c'.shared.heads ∧
      ∀ i, MirrorsHead ws (c''.own i) c''.shared c''.shared.heads.length := by
  obtain ⟨order, hall, hturns⟩ := hfirst
  obtain ⟨order', hall', hturns'⟩ := hsecond
  obtain ⟨hplain', hrest⟩ := hturns.rest hideal hplain
  obtain ⟨hheads, hmirrors⟩ := hturns'.mirrors hideal hplain' fun j => hrest j (.inl (hall j))
  refine ⟨hheads, fun i => ?_⟩
  rw [hheads]
  exact hmirrors i (.inl (hall' i))

end Rounds

/-! ### Two devices with changes of their own -/

section Sample

def noteTurns : List Bool → Devices Bool → Option (Devices Bool)
  | [], c => some c
  | i :: order, c => do
    let (_, d, r) ← noteTurn (c.own i) c.shared
    noteTurns order ⟨Function.update c.own i d, r⟩

theorem noteTurns_turns {order : List Bool} {c c' : Devices Bool} (h : noteTurns order c = some c') :
    Turns sampleSpace order c c' := by
  induction order generalizing c with
  | nil =>
    cases h
    exact .nil
  | cons i order ih =>
    obtain ⟨⟨report, d, r⟩, hturn, hrest⟩ := Option.bind_eq_some_iff.mp h
    refine .cons ⟨report, d, r, ?_, rfl⟩ (ih hrest)
    unfold noteTurn at hturn
    split at hturn
    · rename_i hexec
      cases hturn
      refine Fallible.Reaches.of_exec (fun w : Device × Remote => (⟨w.1, w.2⟩ : World)) (fun o u r u' hcall => ?_) hexec
      unfold aloneIntact at hcall
      dsimp only at hcall
      split at hcall
      · rename_i hintact
        have hsem := sem_alone .alone o ⟨u.1, u.2⟩
        cases hcall
        exact ⟨hsem, hintact⟩
      · cases hcall
    · cases hturn

theorem noteRun_idle {steps : List NoteStep} {c c' : Fleet Bool} (hidle : ∀ i, c.running i = none)
    (h : noteRun steps c = some c') (i : Bool) : c'.running i = none := by
  induction steps generalizing c with
  | nil =>
    cases h
    exact hidle i
  | cons step steps ih =>
    cases step with
    | sync j =>
      obtain ⟨⟨report, d, r⟩, _, hrest⟩ := Option.bind_eq_some_iff.mp h
      exact ih (c := c.turned j report d r) hidle hrest
    | edit j text => exact ih (c := c.edited j text) hidle h

/-- Both have synced the note, and each has changed a line of it. -/
def noteEdits : List NoteStep :=
  [.sync true, .sync false, .edit true "ONE\ntwo\n", .edit false "one\nTWO\n"]

theorem noteRounds_run : ∃ c c' c'', noteRun noteEdits noteFleet = some c ∧
    noteTurns [true, false] ⟨c.own, c.shared⟩ = some c' ∧ noteTurns [true, false] c' = some c'' ∧
    c.shared.heads.length = 1 ∧ c''.shared.heads.length = 3 ∧
    entriesAt c''.shared 3 = some (noteManifest "ONE\nTWO\n").entries.toList := by
  have hdone : (do
      let c ← noteRun noteEdits noteFleet
      let c' ← noteTurns [true, false] ⟨c.own, c.shared⟩
      let c'' ← noteTurns [true, false] c'
      return decide (c.shared.heads.length = 1 ∧ c''.shared.heads.length = 3 ∧
        entriesAt c''.shared 3 = some (noteManifest "ONE\nTWO\n").entries.toList)) = some true := by decide +kernel
  simp only [Option.bind_eq_bind, Option.bind_eq_some_iff, Option.pure_def, Option.some.injEq,
    decide_eq_true_eq] at hdone
  obtain ⟨c, hedits, c', hfirst, c'', hsecond, hends⟩ := hdone
  exact ⟨c, c', c'', hedits, hfirst, hsecond, hends⟩

/-- In the first round the changes are merged, and in the second both devices
have them. -/
theorem notes_settle : ∃ c c' c'' : Devices Bool, c.Plain sampleSpace ∧ Round sampleSpace c c' ∧
    Round sampleSpace c' c'' ∧ c.shared.heads.length = 1 ∧ c''.shared.heads.length = 3 ∧
    entriesAt c''.shared 3 = some (noteManifest "ONE\nTWO\n").entries.toList ∧
    c''.shared.heads = c'.shared.heads ∧ ∀ i, MirrorsHead sampleSpace (c''.own i) c''.shared c''.shared.heads.length := by
  obtain ⟨c, c', c'', hedits, hfirst, hsecond, hstart, hends, hmerged⟩ := noteRounds_run
  have hsteps : Relation.ReflTransGen (Fleet.Step sampleSpace) noteFleet c := noteRun_steps (fun _ => rfl) hedits
  have hheads : HeadsAre sampleSpace PlainManifest c.shared :=
    ((Fleet.terms_kept sampleSpace_ideal).steps noteFleet_fresh.holds hsteps).good
  have hidle (i : Bool) : c.running i = none := noteRun_idle (fun _ => rfl) hedits i
  have hplain : Devices.Plain sampleSpace ⟨c.own, c.shared⟩ :=
    ⟨fun i => (noteFleet_fresh.idle_later sampleSpace_ideal hsteps (hidle i)).1, hheads⟩
  have hall (i : Bool) : i ∈ [true, false] := by cases i <;> simp
  have hround : Round sampleSpace ⟨c.own, c.shared⟩ c' := ⟨_, hall, noteTurns_turns hfirst⟩
  have hround' : Round sampleSpace c' c'' := ⟨_, hall, noteTurns_turns hsecond⟩
  exact ⟨_, c', c'', hplain, hround, hround', hstart, hends, hmerged,
    rounds_settle sampleSpace sampleSpace_ideal hplain hround hround'⟩

end Sample

end RustSync
