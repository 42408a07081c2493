/-
Interleavings that keep a promise

Some programs are right only when the others keep out of the way at certain of
their points. A promise says, for a thread at a point of its program, what the
steps of others may change. A `Sheltered` program has a proof outline whose
assertions no other thread breaks as long as its promise is kept, and every
`Outline` is one. Where each step keeps what is promised to the threads that
do not make it, finished programs meet their postconditions
(`Contract.Shelters.steps`).

Key definitions: `Sheltered`, `Machine.Considerate`, `Contract.Shelters`.
-/
import RustSync.Lib.Interleaving

namespace RustSync

/-! ### Outlines under a promise -/

section Promises

variable {ι : Type} {S : Signature} {σ : Type}

/-- No other thread breaks the assertion while the promise is kept. -/
def Contract.StableUnder (C : Contract ι σ) (i : ι) (R : σ → σ → Prop) (P : σ → Prop) : Prop :=
  ∀ j, j ≠ i → ∀ s s', C.inv s → C.inv s' → C.guar j s s' → R s s' → P s → P s'

/-- A proof outline of a program to which `R` is promised at its points. -/
inductive Sheltered (C : Contract ι σ) (sem : ι → (o : S.Op) → σ → S.Resp o → σ → Prop) (i : ι) {α : Type}
    (R : Prog S α → σ → σ → Prop) (post : α → σ → Prop) : (σ → Prop) → Prog S α → Prop
  | done {pre : σ → Prop} {a : α} (hstable : C.StableUnder i (R (.done a)) pre)
      (hpost : ∀ s, C.inv s → pre s → post a s) : Sheltered C sem i R post pre (.done a)
  | call {pre : σ → Prop} {o : S.Op} {k : S.Resp o → Prog S α} (mid : S.Resp o → σ → Prop)
      (hstable : C.StableUnder i (R (.call o k)) pre)
      (hstep : ∀ s r s', C.inv s → pre s → sem i o s r s' → C.inv s' ∧ C.guar i s s' ∧ mid r s')
      (hnext : ∀ r, Sheltered C sem i R post (mid r) (k r)) : Sheltered C sem i R post pre (.call o k)

variable {C : Contract ι σ} {sem : ι → (o : S.Op) → σ → S.Resp o → σ → Prop} {i : ι} {α : Type}
  {R : Prog S α → σ → σ → Prop} {post : α → σ → Prop} {pre : σ → Prop} {p : Prog S α}

theorem Contract.Stable.under {R : σ → σ → Prop} {P : σ → Prop} (h : C.Stable i P) : C.StableUnder i R P :=
  fun j hj s s' hinv hinv' hguar _ hp => h j hj s s' hinv hinv' hguar hp

/-- A program that needs no promise. -/
theorem Outline.sheltered (h : Outline C sem i post pre p) : Sheltered C sem i R post pre p := by
  induction h with
  | done hstable hpost => exact .done hstable.under hpost
  | call mid hstable hstep _ ih => exact .call mid hstable.under hstep ih

theorem Sheltered.stable (h : Sheltered C sem i R post pre p) : C.StableUnder i (R p) pre := by
  cases h with
  | done hstable _ => exact hstable
  | call _ hstable _ _ => exact hstable

/-- What is known regardless of the state need not be carried on. -/
theorem Sheltered.with_const {φ : Prop} (hφ : φ) (h : Sheltered C sem i R post pre p) :
    Sheltered C sem i R post (fun s => φ ∧ pre s) p := by
  have hstable : C.StableUnder i (R p) fun s => φ ∧ pre s :=
    fun j hj s s' hinv hinv' hguar hkept hp => ⟨hφ, h.stable j hj s s' hinv hinv' hguar hkept hp.2⟩
  cases h with
  | done _ hpost => exact .done hstable fun s hinv hp => hpost s hinv hp.2
  | call mid _ hstep hnext => exact .call mid hstable (fun s r s' hinv hp => hstep s r s' hinv hp.2) hnext

/-- No program is ever at an assertion that does not hold. -/
theorem Sheltered.absurd (hpre : ∀ s, ¬ pre s) : Sheltered C sem i R post pre p :=
  Outline.sheltered (Outline.absurd (fun s _ => hpre s) fun _ _ s _ _ _ _ hp => (hpre s hp).elim)

end Promises

/-! ### Considerate runs -/

section Considerate

variable {ι : Type} [DecidableEq ι] {S : Signature} {σ Req Res : Type}

/-- A step that keeps what is promised to the threads that do not make it. -/
inductive Machine.Considerate (M : Machine ι S σ Req Res) (R : Req → Prog S Res → σ → σ → Prop) :
    Config ι S σ Req Res → Config ι S σ Req Res → Prop
  | start {cfg : Config ι S σ Req Res} (i : ι) (q : Req) (hidle : cfg.thread i = none) :
      Considerate M R cfg { cfg with thread := Function.update cfg.thread i (some (q, M.program q)) }
  | call {cfg : Config ι S σ Req Res} {i : ι} {q : Req} {o : S.Op} {k : S.Resp o → Prog S Res}
      {r : S.Resp o} {s' : σ} (hat : cfg.thread i = some (q, .call o k))
      (hsem : M.sem i o cfg.shared r s')
      (hkeeps : ∀ j q' p, j ≠ i → cfg.thread j = some (q', p) → R q' p cfg.shared s') :
      Considerate M R cfg ⟨s', Function.update cfg.thread i (some (q, k r))⟩

/-- The invariant holds, and every started thread is at a point of a sheltered
outline whose assertion holds. -/
structure Contract.Shelters (C : Contract ι σ) (M : Machine ι S σ Req Res)
    (R : Req → Prog S Res → σ → σ → Prop) (post : Req → ι → Res → σ → Prop)
    (cfg : Config ι S σ Req Res) : Prop where
  inv : C.inv cfg.shared
  started : ∀ i q p, cfg.thread i = some (q, p) →
    ∃ pre, Sheltered C M.sem i (R q) (post q i) pre p ∧ pre cfg.shared

variable {M : Machine ι S σ Req Res} {C : Contract ι σ} {R : Req → Prog S Res → σ → σ → Prop}
  {post : Req → ι → Res → σ → Prop} {cfg cfg' : Config ι S σ Req Res}

theorem Contract.Shelters.step (hprograms : ∀ q i, Sheltered C M.sem i (R q) (post q i) (fun _ => True)
    (M.program q)) (h : C.Shelters M R post cfg) (hstep : M.Considerate R cfg cfg') :
    C.Shelters M R post cfg' := by
  obtain ⟨hinv, hstarted⟩ := h
  cases hstep with
  | start i q hidle =>
    refine ⟨hinv, fun j q' p hj => ?_⟩
    by_cases hji : j = i
    · subst hji
      simp only [Function.update_self, Option.some.injEq, Prod.mk.injEq] at hj
      obtain ⟨rfl, rfl⟩ := hj
      exact ⟨_, hprograms q j, trivial⟩
    · simp only [Function.update_of_ne hji] at hj
      exact hstarted j q' p hj
  | @call i q o k r s' hat hsem hkeeps =>
    obtain ⟨pre, hout, hpre⟩ := hstarted i q _ hat
    cases hout with
    | call mid _ hcall hnext =>
      obtain ⟨hinv', hguar, hmid⟩ := hcall _ r s' hinv hpre hsem
      refine ⟨hinv', fun j q' p hj => ?_⟩
      by_cases hji : j = i
      · subst hji
        simp only [Function.update_self, Option.some.injEq, Prod.mk.injEq] at hj
        obtain ⟨rfl, rfl⟩ := hj
        exact ⟨mid r, hnext r, hmid⟩
      · -- the others' assertions stand, as what was promised to them is kept
        simp only [Function.update_of_ne hji] at hj
        obtain ⟨pre', hout', hpre'⟩ := hstarted j q' p hj
        have hkept := hkeeps j q' p hji hj
        exact ⟨pre', hout', hout'.stable i (Ne.symm hji) _ _ hinv hinv' hguar hkept hpre'⟩

omit [DecidableEq ι] in
/-- What a finished thread has come to. -/
theorem Contract.Shelters.finished (h : C.Shelters M R post cfg) {i : ι} {q : Req} {a : Res}
    (hdone : cfg.thread i = some (q, .done a)) : post q i a cfg.shared := by
  obtain ⟨pre, hout, hpre⟩ := h.started i q _ hdone
  cases hout with
  | done _ hpost => exact hpost _ h.inv hpre

end Considerate

end RustSync
