/-
Crashes

A machine whose process may die between any two steps: every thread is gone,
and the shared state is what a crash leaves of it. Where a crash keeps the
invariant of a contract, and leaves every thread idle, the contract holds
across crashes (`Contract.Holds.crashes`). From a point where a fact holds
that no thread and no crash breaks, what starts later may rely on it
(`Contract.Holds.conserve`).

Key definitions: `Machine.CrashStep`, `Contract.Survives`,
`Contract.conserving`.
-/
import RustSync.Lib.Interleaving

namespace RustSync

section Crash

variable {ι : Type} [DecidableEq ι] {S : Signature} {σ Req Res : Type}

/-- A step of a thread, or a crash. -/
inductive Machine.CrashStep (M : Machine ι S σ Req Res) (crash : σ → σ → Prop) :
    Config ι S σ Req Res → Config ι S σ Req Res → Prop
  | run {cfg cfg' : Config ι S σ Req Res} (hstep : M.Step cfg cfg') : CrashStep M crash cfg cfg'
  | crash {cfg : Config ι S σ Req Res} {s' : σ} (hcrash : crash cfg.shared s') :
      CrashStep M crash cfg ⟨s', fun _ => none⟩

/-- The configurations some interleaving with crashes leads to. -/
def Machine.CrashSteps (M : Machine ι S σ Req Res) (crash : σ → σ → Prop) :
    Config ι S σ Req Res → Config ι S σ Req Res → Prop := Relation.ReflTransGen (M.CrashStep crash)

theorem Machine.CrashSteps.of_steps {M : Machine ι S σ Req Res} {crash : σ → σ → Prop}
    {cfg cfg' : Config ι S σ Req Res} (h : M.Steps cfg cfg') : M.CrashSteps crash cfg cfg' :=
  h.lift id fun _ _ => .run

/-- A crash keeps the invariant, and leaves every thread as before it was
started. -/
def Contract.Survives (C : Contract ι σ) (crash : σ → σ → Prop) : Prop :=
  ∀ s s', C.inv s → crash s s' → C.inv s' ∧ ∀ i, C.idle i s'

variable {M : Machine ι S σ Req Res} {C : Contract ι σ} {post : Req → ι → Res → σ → Prop}
  {crash : σ → σ → Prop} {cfg cfg' : Config ι S σ Req Res}

omit [DecidableEq ι] in
theorem Contract.Holds.crashed (hsurvives : C.Survives crash) {s' : σ} (h : C.Holds M post cfg)
    (hcrash : crash cfg.shared s') : C.Holds M post ⟨s', fun _ => none⟩ := by
  obtain ⟨hinv, hidle⟩ := hsurvives _ _ h.inv hcrash
  exact ⟨hinv, fun i _ => hidle i, fun i q p hp => by cases hp⟩

/-- **Rely-guarantee across crashes.** -/
theorem Contract.Holds.crashes (hkept : C.Kept M post) (hsurvives : C.Survives crash)
    (h : C.Holds M post cfg) (hsteps : M.CrashSteps crash cfg cfg') : C.Holds M post cfg' := by
  induction hsteps with
  | refl => exact h
  | tail _ hlast ih =>
    rcases hlast with hstep | hcrash
    · exact ih.step hkept hstep
    · exact ih.crashed hsurvives hcrash

omit [DecidableEq ι] in
/-- What a finished thread has come to. -/
theorem Contract.Holds.finished (h : C.Holds M post cfg) {i : ι} {q : Req} {a : Res}
    (hdone : cfg.thread i = some (q, .done a)) : post q i a cfg.shared := by
  obtain ⟨pre, hout, hpre⟩ := h.started i q _ hdone
  cases hout with
  | done _ hpost => exact hpost _ h.inv hpre

/-- What every thread and every crash keeps holds between any two points. -/
theorem Contract.Holds.monotone {le : σ → σ → Prop} (hrefl : ∀ s, le s s)
    (htrans : ∀ s t u, le s t → le t u → le s u) (hle : ∀ i s s', C.guar i s s' → le s s')
    (hcrash : ∀ s s', crash s s' → le s s') (hkept : C.Kept M post) (hsurvives : C.Survives crash)
    (h : C.Holds M post cfg) (hsteps : M.CrashSteps crash cfg cfg') : le cfg.shared cfg'.shared := by
  induction hsteps with
  | refl => exact hrefl _
  | tail hmid hlast ih =>
    apply htrans _ _ _ ih
    rcases hlast with hstep | hdied
    · rcases hstep with _ | ⟨hat, hsem⟩
      · exact hrefl _
      · have hholds := h.crashes hkept hsurvives hmid
        obtain ⟨pre, hout, hpre⟩ := hholds.started _ _ _ hat
        cases hout with
        | call _ _ hcall _ => exact hle _ _ _ (hcall _ _ _ hholds.inv hpre hsem).2.1
    · exact hcrash _ _ hdied

/-! ### Facts that last -/

/-- The contract with one more invariant. -/
def Contract.conserving (C : Contract ι σ) (F : σ → Prop) : Contract ι σ :=
  { C with inv := fun s => C.inv s ∧ F s }

omit [DecidableEq ι] in
theorem Contract.Stable.conserve {F P : σ → Prop} {i : ι} (h : C.Stable i P) :
    (C.conserving F).Stable i P :=
  fun j hj s s' hinv hinv' hguar hp => h j hj s s' hinv.1 hinv'.1 hguar hp

omit [DecidableEq ι] in
/-- An outline stands with a fact that the guarantees keep. -/
theorem Outline.conserve {F : σ → Prop} (hF : ∀ i s s', C.guar i s s' → F s → F s') {i : ι}
    {sem : ι → (o : S.Op) → σ → S.Resp o → σ → Prop} {α : Type} {post : α → σ → Prop} {pre : σ → Prop}
    {p : Prog S α} (h : Outline C sem i post pre p) : Outline (C.conserving F) sem i post pre p := by
  induction h with
  | done hstable hpost => exact .done hstable.conserve fun s hinv hp => hpost s hinv.1 hp
  | call mid hstable hstep _ ih =>
    refine .call mid hstable.conserve (fun s r s' hinv hp hsem => ?_) ih
    obtain ⟨hinv', hguar, hmid⟩ := hstep s r s' hinv.1 hp hsem
    exact ⟨⟨hinv', hF i s s' hguar hinv.2⟩, hguar, hmid⟩

omit [DecidableEq ι] in
theorem Contract.Survives.conserve {F : σ → Prop} (h : C.Survives crash)
    (hF : ∀ s s', crash s s' → F s → F s') : (C.conserving F).Survives crash := by
  intro s s' hinv hcrash
  obtain ⟨hinv', hidle⟩ := h s s' hinv.1 hcrash
  exact ⟨⟨hinv', hF s s' hcrash hinv.2⟩, hidle⟩

/-- **What starts later may rely on a fact that lasts.** From a configuration
where `F` holds and thread `j` has not started, `j` comes to what its programs
come to where `F` is an invariant. -/
theorem Contract.Holds.conserve {F : σ → Prop} {strong : Req → Res → Prop}
    (hF : ∀ i s s', C.guar i s s' → F s → F s') (hFcrash : ∀ s s', crash s s' → F s → F s')
    (hkept : C.Kept M post) (hsurvives : C.Survives crash) {j : ι}
    (hstrong : ∀ q, Outline (C.conserving F) M.sem j (fun a _ => strong q a) (C.idle j) (M.program q))
    (h : C.Holds M post cfg) (hfact : F cfg.shared) (hidle : cfg.thread j = none)
    (hsteps : M.CrashSteps crash cfg cfg') {q : Req} {a : Res}
    (hdone : cfg'.thread j = some (q, .done a)) : strong q a := by
  -- the contract with the fact, and what it says of the threads
  have hkept' : (C.conserving F).Kept M fun q i a _ => i = j → strong q a := by
    refine ⟨fun i => (hkept.stable i).conserve, fun q i => ?_⟩
    by_cases hij : i = j
    · subst hij
      exact (hstrong q).weaken_post fun a s _ hs _ => hs
    · exact ((hkept.outline q i).conserve hF).weaken_post fun a s _ _ heq => absurd heq hij
  have hnow : (C.conserving F).Holds M (fun q i a _ => i = j → strong q a) cfg := by
    refine ⟨⟨h.inv, hfact⟩, h.idle, fun i q p hp => ?_⟩
    obtain ⟨pre, hout, hpre⟩ := h.started i q p hp
    have hij : i ≠ j := by
      intro heq
      rw [heq, hidle] at hp
      cases hp
    exact ⟨pre, (hout.conserve hF).weaken_post fun a s _ _ heq => absurd heq hij, hpre⟩
  have hlater := hnow.crashes hkept' (hsurvives.conserve hFcrash) hsteps
  exact hlater.finished hdone rfl

end Crash

end RustSync
