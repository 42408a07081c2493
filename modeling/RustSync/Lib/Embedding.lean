/-
Programs as parts of a system

A program of a component runs in a system by an embedding of the component's
calls among the system's (`Prog.lift`), and its proof outline with it: where a
call does to the component what it did, and what the component guarantees of
it is enough for the system, the outline is one of the system
(`Outline.embed`).

Key definitions: `Signature.Embedding`, `Prog.lift`, `Fallible.lift`,
`Contract.on`.
-/
import RustSync.Lib.Calls

namespace RustSync

/-- Calls of one component among those of a system. -/
structure Signature.Embedding (S T : Signature) where
  op : S.Op → T.Op
  resp : ∀ o, T.Resp (op o) → S.Resp o

section Lift

variable {S T : Signature} {ι σ τ α β : Type}

/-- A program of the component, as one of the system. -/
def Prog.lift (e : S.Embedding T) : Prog S α → Prog T α
  | .done a => .done a
  | .call o k => .call (e.op o) fun r => (k (e.resp o r)).lift e

theorem Prog.lift_bind {e : S.Embedding T} {p : Prog S α} {f : α → Prog S β} :
    (p >>= f).lift e = p.lift e >>= fun a => (f a).lift e := by
  induction p with
  | done a => rfl
  | call o k ih =>
    rw [Prog.call_bind, Prog.lift, Prog.lift, Prog.call_bind]
    congr 1
    funext r
    exact ih (e.resp o r)

theorem Prog.Calls.lift {e : S.Embedding T} {P : S.Op → Prop} {Q : T.Op → Prop} (hPQ : ∀ o, P o → Q (e.op o))
    {p : Prog S α} (hp : p.Calls P) : (p.lift e).Calls Q := by
  induction hp with
  | done a => exact .done a
  | call ho _ ih => exact .call (hPQ _ ho) fun r => ih (e.resp _ r)

/-- The contract of a component, of the system's state. -/
def Contract.on (C : Contract ι σ) (view : τ → σ) : Contract ι τ where
  inv s := C.inv (view s)
  guar i s s' := C.guar i (view s) (view s')
  idle i s := C.idle i (view s)

/-- The system's contract says of the component at least what its own says. -/
structure Contract.Covers (D : Contract ι τ) (C : Contract ι σ) (view : τ → σ) : Prop where
  inv : ∀ s, D.inv s → C.inv (view s)
  guar : ∀ i s s', D.guar i s s' → C.guar i (view s) (view s')

theorem Contract.on_covers {C : Contract ι σ} {view : τ → σ} : (C.on view).Covers C view :=
  ⟨fun _ h => h, fun _ _ _ h => h⟩

variable {C : Contract ι σ} {D : Contract ι τ} {view : τ → σ} {i : ι}

theorem Contract.Stable.of_covers {P : σ → Prop} (h : C.Stable i P) (hcovers : D.Covers C view) :
    D.Stable i fun s => P (view s) :=
  fun j hj s s' hinv hinv' hguar hp =>
    h j hj (view s) (view s') (hcovers.inv s hinv) (hcovers.inv s' hinv') (hcovers.guar j s s' hguar) hp

variable {sem : ι → (o : S.Op) → σ → S.Resp o → σ → Prop} {sem' : ι → (o : T.Op) → τ → T.Resp o → τ → Prop}
  {e : S.Embedding T} {post : α → σ → Prop} {pre : σ → Prop} {p : Prog S α}

/-- A component's outline in the system, beside an assertion `Q` of the
system's own, where its calls are of the kind `P`. -/
theorem Outline.embed {P : S.Op → Prop} {Q : τ → Prop} (hcovers : D.Covers C view) (hQ : D.Stable i Q)
    (hstep : ∀ o s r s', P o → D.inv s → Q s → sem' i (e.op o) s r s' → sem i o (view s) (e.resp o r) (view s') ∧
      (C.inv (view s') → C.guar i (view s) (view s') → D.inv s' ∧ D.guar i s s' ∧ Q s'))
    (hp : p.Calls P) (h : Outline C sem i post pre p) :
    Outline D sem' i (fun a s => post a (view s) ∧ Q s) (fun s => pre (view s) ∧ Q s) (p.lift e) := by
  induction h with
  | done hstable hpost =>
    exact .done ((hstable.of_covers hcovers).and hQ) fun s hinv hs => ⟨hpost (view s) (hcovers.inv s hinv) hs.1, hs.2⟩
  | @call pre o k mid hstable hcall _ ih =>
    cases hp with
    | call ho hk =>
      refine .call (fun r s => mid (e.resp _ r) (view s) ∧ Q s) ((hstable.of_covers hcovers).and hQ)
        (fun s r s' hinv hs hrun => ?_) fun r => ih (e.resp _ r) (hk _)
      obtain ⟨hsem, hsystem⟩ := hstep _ s r s' ho hinv hs.2 hrun
      obtain ⟨hinv', hguar, hmid⟩ := hcall _ _ _ (hcovers.inv s hinv) hs.1 hsem
      obtain ⟨hsound, hguar', hq⟩ := hsystem hinv' hguar
      exact ⟨hsound, hguar', hmid, hq⟩

/-- The same without an assertion of the system. -/
theorem Outline.embed_calls {P : S.Op → Prop} (hcovers : D.Covers C view)
    (hstep : ∀ o s r s', P o → D.inv s → sem' i (e.op o) s r s' → sem i o (view s) (e.resp o r) (view s') ∧
      (C.inv (view s') → C.guar i (view s) (view s') → D.inv s' ∧ D.guar i s s'))
    (hp : p.Calls P) (h : Outline C sem i post pre p) :
    Outline D sem' i (fun a s => post a (view s)) (fun s => pre (view s)) (p.lift e) := by
  have hboth := Outline.embed (Q := fun _ => True) (e := e) hcovers Contract.stable_true
    (fun o s r s' ho hinv _ hrun => ⟨(hstep o s r s' ho hinv hrun).1, fun hinv' hguar => by
      obtain ⟨hsound, hguar'⟩ := (hstep o s r s' ho hinv hrun).2 hinv' hguar
      exact ⟨hsound, hguar', trivial⟩⟩) hp h
  exact (hboth.weaken (h.stable.of_covers hcovers) fun s _ hs => ⟨hs, trivial⟩).weaken_post fun a s _ hs => hs.1

/-- The component's outlines are the system's, where its calls do to the
component what they did. -/
theorem Outline.lift (hsem : ∀ i o s r s', sem' i (e.op o) s r s' → sem i o (view s) (e.resp o r) (view s'))
    (h : Outline C sem i post pre p) :
    Outline (C.on view) sem' i (fun a s => post a (view s)) (fun s => pre (view s)) (p.lift e) :=
  Outline.embed_calls Contract.on_covers
    (fun o s r s' _ _ hrun => ⟨hsem i o s r s' hrun, fun hinv hguar => ⟨hinv, hguar⟩⟩) p.calls_true h

end Lift

/-! ### Fallible programs -/

namespace Fallible

variable {Op Op' ε α β : Type} {Val : Op → Type} {Val' : Op' → Type}
  {e : (Signature.fallible Val ε).Embedding (Signature.fallible Val' ε)}

def lift (e : (Signature.fallible Val ε).Embedding (Signature.fallible Val' ε)) (x : Fallible Val ε α) :
    Fallible Val' ε α := ExceptT.mk (Prog.lift e x.run)

@[simp] theorem lift_bind {x : Fallible Val ε α} {f : α → Fallible Val ε β} :
    lift e (x >>= f) = lift e x >>= fun a => lift e (f a) := by
  apply ExceptT.ext
  have hleft := congrArg (Prog.lift e) (run_bind x f)
  refine (hleft.trans Prog.lift_bind).trans (Eq.trans ?_ (run_bind (lift e x) fun a => lift e (f a)).symm)
  refine congrArg (Prog.lift e x.run >>= ·) (funext fun r => ?_)
  cases r with
  | ok a => rfl
  | error e => rfl

@[simp] theorem lift_map {x : Fallible Val ε α} {f : α → β} : lift e (f <$> x) = f <$> lift e x := by
  have hpure : f <$> x = x >>= fun a => pure (f a) := (bind_pure_comp f x).symm
  rw [hpure, lift_bind]
  exact bind_pure_comp f (lift e x)

namespace Outlined

variable {ι σ : Type} {C : Contract ι σ} {sem : ι → (o : Op') → σ → Except ε (Val' o) → σ → Prop} {i : ι}
  {err pre : σ → Prop} {post : α → σ → Prop} {f : β → Fallible Val ε α}

theorem lift_bind {x : Fallible Val ε β} {mid : β → σ → Prop} (hx : Outlined C sem i err pre (lift e x) mid)
    (herr : C.Stable i err) (hf : ∀ b, Outlined C sem i err (mid b) (lift e (f b)) post) :
    Outlined C sem i err pre (lift e (x >>= f)) post := by
  rw [Fallible.lift_bind]
  exact bind hx herr hf

theorem lift_check_ok {x : Except ε β} {b : β} (hx : x = .ok b)
    (h : Outlined C sem i err pre (lift e (f b)) post) :
    Outlined C sem i err pre (lift e (Fallible.check x >>= f)) post := by
  rw [Fallible.lift_bind]
  exact check_ok hx h

theorem lift_check_bind {x : Except ε β} (hstable : C.Stable i pre) (herr : ∀ s, C.inv s → pre s → err s)
    (h : ∀ b, x = .ok b → Outlined C sem i err pre (lift e (f b)) post) :
    Outlined C sem i err pre (lift e (Fallible.check x >>= f)) post := by
  rw [Fallible.lift_bind]
  exact check_bind hstable herr h

theorem lift_check_cases {x : Except ε β} (hstable : C.Stable i pre)
    (herr : ∀ e, x = .error e → ∀ s, C.inv s → pre s → err s)
    (h : ∀ b, x = .ok b → Outlined C sem i err pre (lift e (f b)) post) :
    Outlined C sem i err pre (lift e (Fallible.check x >>= f)) post := by
  rw [Fallible.lift_bind]
  exact check_cases hstable herr h

theorem lift_map {x : Fallible Val ε β} {g : β → α} {mid : β → σ → Prop}
    (hx : Outlined C sem i err pre (lift e x) mid) (herr : C.Stable i err) (hpost : ∀ b, C.Stable i (mid b))
    (h : ∀ b s, C.inv s → mid b s → post (g b) s) :
    Outlined C sem i err pre (lift e (g <$> x)) post := by
  rw [Fallible.lift_map]
  exact map hx herr hpost h

end Outlined

theorem Calls.lift {P : Op → Prop} {Q : Op' → Prop} (hPQ : ∀ o, P o → Q (e.op o)) {x : Fallible Val ε α}
    (hx : Calls P x) : Calls Q (lift e x) := Prog.Calls.lift hPQ hx

end Fallible

end RustSync
