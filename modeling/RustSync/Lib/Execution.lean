/-
Runs of one program

A program whose calls do what a relation allows, with whatever the rest of the
world does in between. A run is cut short at some point, or returns. `Runs`
says that a program stays within `I` wherever it is cut short, and when it
fails, and that it ends as `Q` says when it succeeds.

Key definitions: `Fallible.Reaches`, `Fallible.Runs`, `Fallible.attempt`,
`Fallible.onError`.
-/
import Mathlib.Data.Nat.Notation
import RustSync.Lib.Calls

namespace RustSync

section Programs

variable {S : Signature} {σ α β : Type}

/-- A run of the program to `t`: cut short, or returning a value. -/
inductive Prog.Reaches (sem : (o : S.Op) → σ → S.Resp o → σ → Prop) :
    Prog S α → σ → Option α → σ → Prop
  | cut (p : Prog S α) (s : σ) : Reaches sem p s none s
  | done (a : α) (s : σ) : Reaches sem (.done a) s (some a) s
  | call {o : S.Op} {k : S.Resp o → Prog S α} {s s' t : σ} {r : S.Resp o} {out : Option α}
      (hcall : sem o s r s') (hrest : Reaches sem (k r) s' out t) : Reaches sem (.call o k) s out t

namespace Prog.Reaches

variable {sem sem' : (o : S.Op) → σ → S.Resp o → σ → Prop} {p : Prog S α} {s t : σ}

/-- A run of a program and what follows it. -/
theorem of_bind {f : α → Prog S β} {out : Option β} (h : Reaches sem (p >>= f) s out t) :
    (out = none ∧ Reaches sem p s none t) ∨
      ∃ a s', Reaches sem p s (some a) s' ∧ Reaches sem (f a) s' out t := by
  induction p generalizing s with
  | done a => exact .inr ⟨a, s, .done a s, h⟩
  | call o k ih =>
    rw [Prog.call_bind] at h
    cases h with
    | cut => exact .inl ⟨rfl, .cut _ _⟩
    | call hcall hrest =>
      rcases ih _ hrest with ⟨hout, hcut⟩ | ⟨a, s', hfirst, hsecond⟩
      · exact .inl ⟨hout, .call hcall hcut⟩
      · exact .inr ⟨a, s', .call hcall hfirst, hsecond⟩

/-- A run that returned may have been cut short where it did. -/
theorem cut_short {out : Option α} (h : Reaches sem p s out t) : Reaches sem p s none t := by
  induction h with
  | cut p s => exact .cut p s
  | done a s => exact .cut _ s
  | call hcall _ ih => exact .call hcall ih

theorem mono (hsem : ∀ o s r s', sem o s r s' → sem' o s r s') {out : Option α}
    (h : Reaches sem p s out t) : Reaches sem' p s out t := by
  induction h with
  | cut p s => exact .cut p s
  | done a s => exact .done a s
  | call hcall _ ih => exact .call (hsem _ _ _ _ hcall) ih

/-- What the program comes to when it runs alone, seen from a part of the
state, is one of its runs. -/
theorem of_exec {τ : Type} {view : τ → σ} {run : (o : S.Op) → τ → Option (S.Resp o × τ)}
    (hrun : ∀ o u r u', run o u = some (r, u') → sem o (view u) r (view u')) {a : α} {u' : τ} :
    ∀ {p : Prog S α} {u : τ}, p.exec run u = some (a, u') → Reaches sem p (view u) (some a) (view u')
  | .done _, _, h => by
    cases h
    exact .done a _
  | .call o k, u, h => by
    rw [Prog.exec, Option.bind_eq_some_iff] at h
    obtain ⟨⟨r, mid⟩, hcall, hrest⟩ := h
    exact .call (hrun o u r mid hcall) (of_exec hrun hrest)

end Prog.Reaches

/-- What every allowed call keeps, the program keeps. -/
theorem Prog.Calls.keep {P : S.Op → Prop} {sem : (o : S.Op) → σ → S.Resp o → σ → Prop} {I : σ → Prop}
    (hP : ∀ o s r t, P o → sem o s r t → I s → I t) {p : Prog S α} (hp : p.Calls P) {s t : σ} {out : Option α}
    (hrun : Prog.Reaches sem p s out t) (hI : I s) : I t := by
  induction hrun with
  | cut => exact hI
  | done => exact hI
  | call hcall _ ih =>
    cases hp with
    | call ho hk => exact ih (hk _) (hP _ _ _ _ ho hcall hI)

/-- The first calls of a program run alone. -/
def Prog.execFor (run : (o : S.Op) → σ → Option (S.Resp o × σ)) : ℕ → Prog S α → σ → Option (Option α × σ)
  | _, .done a, s => some (some a, s)
  | 0, .call _ _, s => some (none, s)
  | n + 1, .call o k, s => (run o s).bind fun (r, s') => (k r).execFor run n s'

theorem Prog.Reaches.of_execFor {τ : Type} {sem : (o : S.Op) → σ → S.Resp o → σ → Prop} {view : τ → σ}
    {run : (o : S.Op) → τ → Option (S.Resp o × τ)}
    (hrun : ∀ o u r u', run o u = some (r, u') → sem o (view u) r (view u')) {out : Option α} {u' : τ} :
    ∀ {n : ℕ} {p : Prog S α} {u : τ}, p.execFor run n u = some (out, u') →
      Prog.Reaches sem p (view u) out (view u')
  | n, .done a, _, h => by
    cases n <;> cases h <;> exact .done a _
  | 0, .call o k, _, h => by
    cases h
    exact .cut _ _
  | n + 1, .call o k, u, h => by
    rw [Prog.execFor, Option.bind_eq_some_iff] at h
    obtain ⟨⟨r, mid⟩, hcall, hrest⟩ := h
    exact .call (hrun o u r mid hcall) (of_execFor hrun hrest)

end Programs

namespace Fallible

variable {Op σ ε α β : Type} {Val : Op → Type}

/-- A run of a fallible program. -/
def Reaches (sem : (o : Op) → σ → Except ε (Val o) → σ → Prop) (x : Fallible Val ε α) (s : σ)
    (out : Option (Except ε α)) (t : σ) : Prop :=
  Prog.Reaches (S := Signature.fallible Val ε) sem x.run s out t

/-- What the program returns, as a value. -/
def attempt (x : Fallible Val ε α) : Fallible Val ε (Except ε α) :=
  ExceptT.mk (x.run >>= fun r => .done (.ok r))

/-- `cleanup` before the error of `x` is returned, whatever comes of it. -/
def onError (cleanup : Fallible Val ε Unit) (x : Fallible Val ε α) : Fallible Val ε α :=
  ExceptT.mk (x.run >>= fun r =>
    match r with
    | .ok a => .done (.ok a)
    | .error e => cleanup.run >>= fun _ => .done (.error e))

/-- Every run of `x` from `s` is within `I` where it is cut short or fails, and
ends as `Q` says where it succeeds. -/
def Runs (sem : (o : Op) → σ → Except ε (Val o) → σ → Prop) (I : σ → Prop) (x : Fallible Val ε α) (s : σ)
    (Q : α → σ → Prop) : Prop :=
  ∀ out t, Reaches sem x s out t →
    match out with
    | some (.ok a) => Q a t
    | _ => I t

namespace Runs

variable {sem : (o : Op) → σ → Except ε (Val o) → σ → Prop} {I I' : σ → Prop} {x : Fallible Val ε α} {s : σ}
  {Q Q' : α → σ → Prop} {R : β → σ → Prop} {f : α → Fallible Val ε β}

theorem ok (h : Runs sem I x s Q) {a : α} {t : σ} (hx : Reaches sem x s (some (.ok a)) t) : Q a t := h _ _ hx

theorem anywhere (h : Runs sem I x s Q) {out : Option (Except ε α)} {t : σ} (hx : Reaches sem x s out t) : I t :=
  h none t hx.cut_short

theorem weaken (h : Runs sem I x s Q) (hI : ∀ t, I t → I' t) (hQ : ∀ a t, I t → Q a t → Q' a t) :
    Runs sem I' x s Q' := by
  intro out t hx
  have hcut := h.anywhere hx
  have hout := h out t hx
  rcases out with _ | _ | a
  · exact hI t hcut
  · exact hI t hcut
  · exact hQ a t hcut hout

theorem pure {a : α} (hI : I s) (hQ : Q a s) : Runs sem I (Pure.pure a : Fallible Val ε α) s Q := by
  intro out t hx
  cases hx with
  | cut => exact hI
  | done => exact hQ

theorem throw {e : ε} (hI : I s) : Runs sem I (MonadExcept.throw e : Fallible Val ε α) s Q := by
  intro out t hx
  cases hx with
  | cut => exact hI
  | done => exact hI

theorem check {a : Except ε α} (hI : I s) (hQ : ∀ b, a = .ok b → Q b s) :
    Runs sem I (Fallible.check a : Fallible Val ε α) s Q := by
  intro out t hx
  cases hx with
  | cut => exact hI
  | done =>
    cases a with
    | ok b => exact hQ b rfl
    | error e => exact hI

theorem op {o : Op} {Q : Val o → σ → Prop} (hI : I s)
    (hstep : ∀ r t, sem o s r t → I t ∧ ∀ a, r = .ok a → Q a t) :
    Runs sem I (Fallible.op o : Fallible Val ε (Val o)) s Q := by
  intro out t hx
  cases hx with
  | cut => exact hI
  | @call _ _ _ mid _ r _ hcall hrest =>
    obtain ⟨hmid, hQ⟩ := hstep r mid hcall
    cases hrest with
    | cut => exact hmid
    | done =>
      cases r with
      | ok a => exact hQ a rfl
      | error e => exact hmid

theorem bind {P : α → σ → Prop} (hx : Runs sem I x s P) (hf : ∀ a t, I t → P a t → Runs sem I (f a) t R) :
    Runs sem I (x >>= f) s R := by
  intro out t hrun
  have hprog := congrArg (fun p => Prog.Reaches (S := Signature.fallible Val ε) sem p s out t) (run_bind x f)
  rcases (hprog.mp hrun).of_bind with ⟨rfl, hcut⟩ | ⟨r, mid, hfirst, hrest⟩
  · exact hx none t hcut
  · cases r with
    | ok a => exact hf a mid (hx.anywhere hfirst) (hx _ mid hfirst) out t hrest
    | error e =>
      cases hrest with
      | cut => exact hx.anywhere hfirst
      | done => exact hx _ _ hfirst

theorem check_bind {a : Except ε α} (hI : I s) (hf : ∀ b, a = .ok b → Runs sem I (f b) s R) :
    Runs sem I (Fallible.check a >>= f) s R := by
  refine bind (P := fun b t => a = .ok b ∧ t = s) (check hI fun b hb => ⟨hb, rfl⟩) fun b t _ h => ?_
  obtain ⟨hb, rfl⟩ := h
  exact hf b hb

/-- Each item keeps `J` of the items before it. -/
theorem forM {γ : Type} {g : γ → Fallible Val ε PUnit} {l : List γ} (J : List γ → σ → Prop)
    (hI : ∀ done rest t, l = done ++ rest → J done t → I t) (hstart : J [] s)
    (hstep : ∀ done a rest t, l = done ++ a :: rest → J done t → Runs sem I (g a) t fun _ => J (done ++ [a])) :
    Runs sem I (l.forM g) s fun _ => J l := by
  have hrest : ∀ (rest done : List γ) (t : σ), l = done ++ rest → J done t →
      Runs sem I (rest.forM g) t fun _ => J l := by
    intro rest
    induction rest with
    | nil =>
      intro done t hl hJ
      rw [List.append_nil] at hl
      have hall : J l t := by
        rw [hl]
        exact hJ
      exact pure (hI done [] t (by rw [hl, List.append_nil]) hJ) hall
    | cons a rest ih =>
      intro done t hl hJ
      have hforM : (a :: rest).forM g = g a >>= fun _ => rest.forM g := rfl
      rw [hforM]
      refine bind (hstep done a rest t hl hJ) fun _ t' _ hJ' => ?_
      exact ih (done ++ [a]) t' (by simp [hl]) hJ'
  exact hrest l [] s rfl hstart

/-- Each item keeps `J` of the items before it and of what they came to. -/
theorem foldlM {γ : Type} {g : β → γ → Fallible Val ε β} {l : List γ} {b : β} (J : List γ → β → σ → Prop)
    (hI : ∀ done rest b t, l = done ++ rest → J done b t → I t) (hstart : J [] b s)
    (hstep : ∀ done a rest b t, l = done ++ a :: rest → J done b t →
      Runs sem I (g b a) t fun b' => J (done ++ [a]) b') : Runs sem I (l.foldlM g b) s fun b' => J l b' := by
  have hrest : ∀ (rest done : List γ) (b : β) (t : σ), l = done ++ rest → J done b t →
      Runs sem I (rest.foldlM g b) t fun b' => J l b' := by
    intro rest
    induction rest with
    | nil =>
      intro done b t hl hJ
      rw [List.append_nil] at hl
      have hall : J l b t := by
        rw [hl]
        exact hJ
      exact pure (hI done [] b t (by rw [hl, List.append_nil]) hJ) hall
    | cons a rest ih =>
      intro done b t hl hJ
      rw [List.foldlM_cons]
      refine bind (hstep done a rest b t hl hJ) fun b' t' _ hJ' => ?_
      exact ih (done ++ [a]) b' t' (by simp [hl]) hJ'
  exact hrest l [] b s rfl hstart

/-- Nothing is asked. -/
theorem any : Runs sem (fun _ => True) x s fun _ _ => True := by
  intro out t _
  rcases out with _ | _ | _ <;> trivial

/-- A program whose outcome is looked at. -/
theorem attempt (h : Runs sem I x s Q) : Runs sem I x.attempt s fun r t => I t ∧ ∀ a, r = .ok a → Q a t := by
  intro out t hx
  rcases Prog.Reaches.of_bind hx with ⟨rfl, hcut⟩ | ⟨r, mid, hfirst, hrest⟩
  · exact h none t hcut
  · have hmid := h.anywhere hfirst
    cases hrest with
    | cut => exact hmid
    | done =>
      refine ⟨hmid, fun a hr => ?_⟩
      cases hr
      exact h _ _ hfirst

/-- A call whose outcome is looked at. -/
theorem attempt_op {o : Op} {Q : Except ε (Val o) → σ → Prop} (hI : I s)
    (hstep : ∀ r t, sem o s r t → I t ∧ Q r t) :
    Runs sem I (Fallible.attempt (Fallible.op o : Fallible Val ε (Val o))) s Q := by
  intro out t hx
  cases hx with
  | cut => exact hI
  | @call _ _ _ mid _ r _ hcall hrest =>
    obtain ⟨hmid, hQ⟩ := hstep r mid hcall
    cases hrest with
    | cut => exact hmid
    | done => exact hQ

theorem onError {cleanup : Fallible Val ε Unit} (h : Runs sem I x s Q)
    (hcleanup : ∀ t, I t → Runs sem I cleanup t fun _ => I) : Runs sem I (Fallible.onError cleanup x) s Q := by
  intro out t hx
  rcases Prog.Reaches.of_bind hx with ⟨rfl, hcut⟩ | ⟨r, mid, hfirst, hrest⟩
  · exact h none t hcut
  · cases r with
    | ok a =>
      cases hrest with
      | cut => exact h.anywhere hfirst
      | done => exact h _ _ hfirst
    | error e =>
      have hmid := h.anywhere hfirst
      rcases Prog.Reaches.of_bind hrest with ⟨rfl, hcut⟩ | ⟨_, last, hclean, hend⟩
      · exact hcleanup mid hmid none t hcut
      · have hlast := (hcleanup mid hmid).anywhere hclean
        cases hend with
        | cut => exact hlast
        | done => exact hlast

end Runs

namespace Calls

variable {P : Op → Prop} {x : Fallible Val ε α}

theorem attempt (h : Calls P x) : Calls P x.attempt := Prog.Calls.bind (p := x.run) h fun _ => .done _

theorem onError {cleanup : Fallible Val ε Unit} (hcleanup : Calls P cleanup) (h : Calls P x) :
    Calls P (Fallible.onError cleanup x) := by
  refine Prog.Calls.bind (p := x.run) h fun r => ?_
  cases r with
  | ok a => exact .done _
  | error e => exact Prog.Calls.bind (p := cleanup.run) hcleanup fun _ => .done _

/-- What every allowed call keeps, the program keeps. -/
theorem runs {sem : (o : Op) → σ → Except ε (Val o) → σ → Prop} {I : σ → Prop}
    (hP : ∀ o s r t, P o → sem o s r t → I s → I t) {s : σ} (hx : Calls P x) (hI : I s) :
    Runs sem I x s fun _ => I := by
  intro out t hrun
  have hkept : I t := Prog.Calls.keep (S := Signature.fallible Val ε) hP hx hrun hI
  rcases out with _ | _ | _
  · exact hkept
  · exact hkept
  · exact hkept

end Calls

/-- What the program comes to when it runs alone is one of its runs. -/
theorem Reaches.of_exec {τ : Type} {sem : (o : Op) → σ → Except ε (Val o) → σ → Prop} (view : τ → σ)
    {run : (o : Op) → τ → Option (Except ε (Val o) × τ)}
    (hrun : ∀ o u r u', run o u = some (r, u') → sem o (view u) r (view u')) {x : Fallible Val ε α} {u u' : τ}
    {r : Except ε α} (h : exec run x u = some (r, u')) : Reaches sem x (view u) (some r) (view u') :=
  Prog.Reaches.of_exec (S := Signature.fallible Val ε) hrun h

end Fallible

end RustSync
