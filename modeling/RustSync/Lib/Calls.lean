/-
Programs of allowed calls

A program all of whose calls satisfy a predicate: what each such call can do,
keeps or may rely on, the program can, keeps and may rely on.

Key definitions: `Prog.Calls`, `Fallible.Calls`.
-/
import RustSync.Lib.Interleaving

namespace RustSync

section Total

variable {S : Signature} {σ α β : Type}

/-- Every call of the program satisfies `P`. -/
inductive Prog.Calls (P : S.Op → Prop) : Prog S α → Prop
  | done (a : α) : Calls P (.done a)
  | call {o : S.Op} {k : S.Resp o → Prog S α} (ho : P o) (hk : ∀ r, Calls P (k r)) : Calls P (.call o k)

theorem Prog.Calls.bind {P : S.Op → Prop} {p : Prog S α} {f : α → Prog S β} (hp : p.Calls P)
    (hf : ∀ a, (f a).Calls P) : (p >>= f).Calls P := by
  induction hp with
  | done a => exact hf a
  | call ho _ ih => exact .call ho ih

theorem Prog.Calls.mono {P Q : S.Op → Prop} (hPQ : ∀ o, P o → Q o) {p : Prog S α} (hp : p.Calls P) :
    p.Calls Q := by
  induction hp with
  | done a => exact .done a
  | call ho _ ih => exact .call (hPQ _ ho) ih

theorem Prog.calls_true : ∀ p : Prog S α, p.Calls fun _ => True
  | .done a => .done a
  | .call _ k => .call trivial fun r => (k r).calls_true

/-- A program of calls that can all be made runs to its end. -/
theorem Prog.Calls.exec {P : S.Op → Prop} {run : (o : S.Op) → σ → Option (S.Resp o × σ)}
    (hrun : ∀ o s, P o → (run o s).isSome) {p : Prog S α} (hp : p.Calls P) :
    ∀ s, (p.exec run s).isSome := by
  induction hp with
  | done a => exact fun s => rfl
  | @call o k ho _ ih =>
    intro s
    obtain ⟨⟨r, t⟩, hcall⟩ := Option.isSome_iff_exists.mp (hrun o s ho)
    rw [Prog.exec, hcall]
    exact ih r t

/-- A program of calls that each keep the contract, and an assertion. -/
theorem Prog.Calls.outline {ι : Type} {C : Contract ι σ} {sem : ι → (o : S.Op) → σ → S.Resp o → σ → Prop} {i : ι}
    {P : S.Op → Prop} {Q : σ → Prop} (hQ : C.Stable i Q)
    (hP : ∀ o s r s', P o → C.inv s → Q s → sem i o s r s' → C.inv s' ∧ C.guar i s s' ∧ Q s') {p : Prog S α}
    (hp : p.Calls P) : Outline C sem i (fun _ => Q) Q p := by
  induction hp with
  | done a => exact .done hQ fun _ _ h => h
  | call ho _ ih =>
    exact .call (fun _ => Q) hQ (fun s r s' hinv hq hsem => hP _ s r s' ho hinv hq hsem) ih

/-- What every program of some requests calls, what is left of one calls too. -/
theorem Machine.Reachable.calls {ι Req Res : Type} [DecidableEq ι] {M : Machine ι S σ Req Res} {P : S.Op → Prop}
    {H : Req → Prop} (hprogram : ∀ q, H q → (M.program q).Calls P) {s₀ : σ} {cfg : Config ι S σ Req Res}
    (h : M.Reachable s₀ cfg) : ∀ i q p, H q → cfg.thread i = some (q, p) → p.Calls P := by
  induction h with
  | refl => exact fun i q p _ hat => nomatch hat
  | tail _ hstep ih =>
    intro j q p hq hat
    cases hstep with
    | start i q' _ =>
      by_cases hji : j = i
      · subst hji
        simp only [Function.update_self, Option.some.injEq, Prod.mk.injEq] at hat
        obtain ⟨rfl, rfl⟩ := hat
        exact hprogram q' hq
      · simp only [Function.update_of_ne hji] at hat
        exact ih j q p hq hat
    | @call i q' o k r s' hat' _ =>
      by_cases hji : j = i
      · subst hji
        simp only [Function.update_self, Option.some.injEq, Prod.mk.injEq] at hat
        obtain ⟨rfl, rfl⟩ := hat
        cases ih j q' _ hq hat' with
        | call _ hk => exact hk r
      · simp only [Function.update_of_ne hji] at hat
        exact ih j q p hq hat

/-- A thread whose calls can all be made can come to its end. -/
theorem Prog.Calls.completes {ι Req Res : Type} [DecidableEq ι] {M : Machine ι S σ Req Res} {P : S.Op → Prop}
    {run : (o : S.Op) → σ → Option (S.Resp o × σ)} {i : ι}
    (hsound : ∀ o s r s', run o s = some (r, s') → M.sem i o s r s') (hrun : ∀ o s, P o → (run o s).isSome)
    {p : Prog S Res} (hp : p.Calls P) {q : Req} {cfg : Config ι S σ Req Res} (hat : cfg.thread i = some (q, p)) :
    ∃ cfg' a, M.Steps cfg cfg' ∧ cfg'.thread i = some (q, .done a) := by
  obtain ⟨⟨a, s'⟩, hexec⟩ := Option.isSome_iff_exists.mp (hp.exec hrun cfg.shared)
  exact ⟨_, a, Machine.Steps.exec hsound cfg hat hexec, Function.update_self ..⟩

end Total

namespace Fallible

variable {Op σ ε α β : Type} {Val : Op → Type} {P : Op → Prop}

/-- Every call of the program satisfies `P`. -/
def Calls (P : Op → Prop) (x : Fallible Val ε α) : Prop :=
  Prog.Calls (S := Signature.fallible Val ε) P x.run

namespace Calls

theorem pure (a : α) : Calls P (Pure.pure a : Fallible Val ε α) := .done _

theorem throw (e : ε) : Calls P (MonadExcept.throw e : Fallible Val ε α) := .done _

theorem check (x : Except ε α) : Calls P (Fallible.check x : Fallible Val ε α) := .done _

theorem op {o : Op} (ho : P o) : Calls P (Fallible.op o : Fallible Val ε (Val o)) := .call ho fun _ => .done _

theorem bind {x : Fallible Val ε α} {f : α → Fallible Val ε β} (hx : Calls P x) (hf : ∀ a, Calls P (f a)) :
    Calls P (x >>= f) := by
  unfold Calls
  rw [run_bind]
  apply Prog.Calls.bind hx
  intro r
  cases r with
  | ok a => exact hf a
  | error e => exact .done _

theorem map {x : Fallible Val ε α} {f : α → β} (hx : Calls P x) : Calls P (f <$> x) := by
  refine Prog.Calls.bind (p := x.run) hx fun r => ?_
  cases r with
  | ok a => exact .done _
  | error e => exact .done _

theorem op_bind {o : Op} {f : Val o → Fallible Val ε β} (ho : P o) (hf : ∀ a, Calls P (f a)) :
    Calls P (Fallible.op o >>= f) := (op ho).bind hf

theorem mono {Q : Op → Prop} {x : Fallible Val ε α} (hPQ : ∀ o, P o → Q o) (hx : Calls P x) : Calls Q x :=
  Prog.Calls.mono hPQ hx

theorem check_bind {x : Except ε α} {f : α → Fallible Val ε β} (hf : ∀ a, Calls P (f a)) :
    Calls P (Fallible.check x >>= f) := (check x).bind hf

/-- What follows a check may rely on it. -/
theorem checked_bind {x : Except ε α} {f : α → Fallible Val ε β} (hf : ∀ a, x = .ok a → Calls P (f a)) :
    Calls P (Fallible.check x >>= f) := by
  cases x with
  | ok a => exact hf a rfl
  | error e => exact .done _

theorem withLock {lock unlock : Op} {body : Fallible Val ε α} (hlock : P lock) (hunlock : P unlock)
    (hbody : Calls P body) : Calls P (Fallible.withLock lock unlock body) := by
  refine op_bind hlock fun _ => ?_
  exact Prog.Calls.bind hbody fun r => .call hunlock fun _ => .done r

/-- Each item of a list is worked off by allowed calls. -/
theorem forM {γ : Type} {g : γ → Fallible Val ε PUnit} : ∀ {l : List γ}, (∀ a ∈ l, Calls P (g a)) → Calls P (l.forM g)
  | [], _ => pure _
  | a :: l, h => by
    have hrest : Calls P (l.forM g) := forM fun b hb => h b (List.mem_cons_of_mem _ hb)
    exact (h a List.mem_cons_self).bind fun _ => hrest

theorem foldlM {γ : Type} {g : β → γ → Fallible Val ε β} : ∀ {l : List γ} {b : β},
    (∀ b, ∀ a ∈ l, Calls P (g b a)) → Calls P (l.foldlM g b)
  | [], _, _ => pure _
  | a :: l, b, h => by
    rw [List.foldlM_cons]
    exact (h b a List.mem_cons_self).bind fun b => foldlM fun b a ha => h b a (List.mem_cons_of_mem _ ha)

/-- A program of calls that can all be made runs to its end. -/
theorem exec {run : (o : Op) → σ → Option (Except ε (Val o) × σ)} (hrun : ∀ o s, P o → (run o s).isSome)
    {x : Fallible Val ε α} (hx : Calls P x) (s : σ) : (Fallible.exec run x s).isSome :=
  Prog.Calls.exec (S := Signature.fallible Val ε) hrun hx s

end Calls

end Fallible

end RustSync
