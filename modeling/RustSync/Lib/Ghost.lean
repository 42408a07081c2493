/-
Ghost notes

What a thread learnt may matter to a proof when its program no longer tells.
An observed machine keeps a note for each thread, which the thread's calls and
their answers change and which no program reads: its runs are those of the
machine (`Machine.Reachable.observed`, `Machine.Reachable.of_observed`). A
restricted machine makes only the calls a condition allows, so that its runs
are the runs whose steps all meet the condition.

Key definitions: `Machine.observed`, `Machine.restrict`.
-/
import RustSync.Lib.Interleaving

namespace RustSync

variable {ι : Type} {S : Signature} {σ γ Req Res : Type}

/-- The machine with a note for each thread, and what a call makes of it. -/
def Machine.observed [DecidableEq ι] (M : Machine ι S σ Req Res) (note : (o : S.Op) → S.Resp o → γ → γ) :
    Machine ι S (σ × (ι → γ)) Req Res where
  sem i o s r s' := M.sem i o s.1 r s'.1 ∧ s'.2 = Function.update s.2 i (note o r (s.2 i))
  program := M.program

/-- The machine whose calls all meet a condition. -/
def Machine.restrict (M : Machine ι S σ Req Res) (meets : ι → (o : S.Op) → σ → S.Resp o → σ → Prop) :
    Machine ι S σ Req Res where
  sem i o s r s' := M.sem i o s r s' ∧ meets i o s r s'
  program := M.program

/-- Forgetting the notes. -/
def Config.bare (cfg : Config ι S (σ × (ι → γ)) Req Res) : Config ι S σ Req Res := ⟨cfg.shared.1, cfg.thread⟩

variable [DecidableEq ι] {M : Machine ι S σ Req Res}

namespace Machine

/-- Every run can be observed. -/
theorem Reachable.observed {s₀ : σ} {cfg : Config ι S σ Req Res} (h : M.Reachable s₀ cfg)
    (note : (o : S.Op) → S.Resp o → γ → γ) (g₀ : ι → γ) :
    ∃ g, (M.observed note).Reachable (s₀, g₀) ⟨(cfg.shared, g), cfg.thread⟩ := by
  induction h with
  | refl => exact ⟨g₀, .refl⟩
  | tail _ hstep ih =>
    obtain ⟨g, hreach⟩ := ih
    cases hstep with
    | start i q hidle => exact ⟨g, hreach.tail (.start i q hidle)⟩
    | @call i q o k r s' hat hsem =>
      have hnoted : (M.observed note).sem i o (_, g) r (s', Function.update g i (note o r (g i))) := ⟨hsem, rfl⟩
      exact ⟨Function.update g i (note o r (g i)), hreach.tail (.call hat hnoted)⟩

/-- An observed run is a run. -/
theorem Reachable.of_observed {note : (o : S.Op) → S.Resp o → γ → γ} {s₀ : σ} {g₀ : ι → γ}
    {cfg : Config ι S (σ × (ι → γ)) Req Res} (h : (M.observed note).Reachable (s₀, g₀) cfg) :
    M.Reachable s₀ cfg.bare := by
  induction h with
  | refl => exact .refl
  | tail _ hstep ih =>
    cases hstep with
    | start i q hidle => exact ih.tail (.start i q hidle)
    | call hat hsem => exact ih.tail (.call hat hsem.1)

/-- The calls of a restricted run are calls of the machine. -/
theorem Reachable.of_restrict {meets : ι → (o : S.Op) → σ → S.Resp o → σ → Prop} {s₀ : σ}
    {cfg : Config ι S σ Req Res} (h : (M.restrict meets).Reachable s₀ cfg) : M.Reachable s₀ cfg := by
  induction h with
  | refl => exact .refl
  | tail _ hstep ih =>
    cases hstep with
    | start i q hidle => exact ih.tail (.start i q hidle)
    | call hat hsem => exact ih.tail (.call hat hsem.1)

/-- What holds in every reachable state may be made a condition. -/
theorem Reachable.restrict {meets : ι → (o : S.Op) → σ → S.Resp o → σ → Prop} {s₀ : σ}
    (hmeets : ∀ cfg, M.Reachable s₀ cfg → ∀ i o r s', M.sem i o cfg.shared r s' → meets i o cfg.shared r s')
    {cfg : Config ι S σ Req Res} (h : M.Reachable s₀ cfg) : (M.restrict meets).Reachable s₀ cfg := by
  induction h with
  | refl => exact .refl
  | tail hmid hstep ih =>
    cases hstep with
    | start i q hidle => exact ih.tail (.start i q hidle)
    | call hat hsem => exact ih.tail (.call hat ⟨hsem, hmeets _ hmid _ _ _ _ hsem⟩)

end Machine

end RustSync
