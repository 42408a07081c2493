/-
Guarded programs

What has to hold of a state so that every call that a run of a program makes
from it is one that may be made there, and so that the run ends as asked
(`Prog.Guarded`): the weakest precondition of the program, by recursion on its
calls. A run that has started can come to its end where every call can be
served (`Prog.runs_on`).

For a fallible program what is asked of a failure is apart from what is asked
of a success; a program that is not to fail is guarded with `False`.

Key definitions: `Prog.Comes`, `Prog.Guarded`, `Fallible.Guarded`,
`Fallible.Outcomes`.
-/
import RustSync.Lib.Embedding
import RustSync.Lib.Execution

namespace RustSync

namespace Prog

variable {S : Signature} {σ α β : Type} {sem : (o : S.Op) → σ → S.Resp o → σ → Prop}

/-- A run of the program comes to the call `o` in the state `t`. -/
inductive Comes (sem : (o : S.Op) → σ → S.Resp o → σ → Prop) : Prog S α → σ → S.Op → σ → Prop
  | now (o : S.Op) (k : S.Resp o → Prog S α) (s : σ) : Comes sem (.call o k) s o s
  | later {o o' : S.Op} {k : S.Resp o → Prog S α} {s s' t : σ} {r : S.Resp o} (hcall : sem o s r s')
      (hrest : Comes sem (k r) s' o' t) : Comes sem (.call o k) s o' t

/-- Every call may be made where it is, and what is returned is as `Q` says. -/
def Guarded (sem : (o : S.Op) → σ → S.Resp o → σ → Prop) (may : S.Op → σ → Prop) :
    Prog S α → (α → σ → Prop) → σ → Prop
  | .done a, Q, s => Q a s
  | .call o k, Q, s => may o s ∧ ∀ r s', sem o s r s' → (k r).Guarded sem may Q s'

variable {may : S.Op → σ → Prop} {p : Prog S α} {f : α → Prog S β} {Q Q' : α → σ → Prop} {R : β → σ → Prop} {s t : σ}

theorem Guarded.weaken (h : p.Guarded sem may Q s) (hQ : ∀ a t, Q a t → Q' a t) : p.Guarded sem may Q' s := by
  induction p generalizing s with
  | done a => exact hQ a s h
  | call o k ih => exact ⟨h.1, fun r s' hcall => ih r (h.2 r s' hcall)⟩

theorem Guarded.mono_may {may' : S.Op → σ → Prop} (h : p.Guarded sem may Q s) (hmay : ∀ o t, may o t → may' o t) :
    p.Guarded sem may' Q s := by
  induction p generalizing s with
  | done a => exact h
  | call o k ih => exact ⟨hmay o s h.1, fun r s' hcall => ih r (h.2 r s' hcall)⟩

theorem Guarded.bind (h : p.Guarded sem may Q s) (hf : ∀ a t, Q a t → (f a).Guarded sem may R t) :
    (p >>= f).Guarded sem may R s := by
  induction p generalizing s with
  | done a => exact hf a s h
  | call o k ih => exact ⟨h.1, fun r s' hcall => ih r (h.2 r s' hcall)⟩

theorem Guarded.comes {o : S.Op} (h : p.Guarded sem may Q s) (hp : Comes sem p s o t) : may o t := by
  induction hp with
  | now => exact h.1
  | later hcall _ ih => exact ih (h.2 _ _ hcall)

theorem Guarded.ends {a : α} (h : p.Guarded sem may Q s) (hp : Reaches sem p s (some a) t) : Q a t := by
  induction p generalizing s with
  | done b =>
    cases hp
    exact h
  | call o k ih =>
    cases hp with
    | call hcall hrest => exact ih _ (h.2 _ _ hcall) hrest

/-- What all runs end in may be asked as well. -/
theorem Guarded.and_ends (h : p.Guarded sem may Q s) (hp : ∀ a t, Reaches sem p s (some a) t → Q' a t) :
    p.Guarded sem may (fun a t => Q a t ∧ Q' a t) s := by
  induction p generalizing s with
  | done a => exact ⟨h, hp a s (.done a s)⟩
  | call o k ih => exact ⟨h.1, fun r s' hcall => ih r (h.2 r s' hcall) fun a t hrest => hp a t (.call hcall hrest)⟩

/-- What every call keeps where it may be made, the program keeps. -/
theorem Guarded.keeps {J : σ → Prop} (hJ : ∀ o u r u', may o u → sem o u r u' → J u → J u') {out : Option α}
    (h : p.Guarded sem may Q s) (hp : Reaches sem p s out t) (hs : J s) : J t := by
  induction hp with
  | cut => exact hs
  | done => exact hs
  | call hcall _ ih => exact ih (h.2 _ _ hcall) (hJ _ _ _ _ h.1 hcall hs)

/-- What every call keeps where it may be made holds wherever one is made. -/
theorem Guarded.and_inv {J : σ → Prop} (hJ : ∀ o u r u', may o u → sem o u r u' → J u → J u')
    (h : p.Guarded sem may Q s) (hs : J s) : p.Guarded sem (fun o t => may o t ∧ J t) (fun a t => Q a t ∧ J t) s := by
  induction p generalizing s with
  | done a => exact ⟨h, hs⟩
  | call o k ih => exact ⟨⟨h.1, hs⟩, fun r s' hcall => ih r (h.2 r s' hcall) (hJ o s r s' h.1 hcall hs)⟩

/-- What all calls satisfy they satisfy where they may be made. -/
theorem Guarded.and_calls {C : S.Op → Prop} (h : p.Guarded sem may Q s) (hp : p.Calls C) :
    p.Guarded sem (fun o t => may o t ∧ C o) Q s := by
  induction hp generalizing s with
  | done a => exact h
  | call ho _ ih => exact ⟨⟨h.1, ho⟩, fun r s' hcall => ih r (h.2 r s' hcall)⟩

/-- What holds of a program holds of it where the calls that it makes do what they
may do there, seen through `View`. -/
theorem Guarded.through {τ : Type} {sem' : (o : S.Op) → τ → S.Resp o → τ → Prop} {View : σ → τ → Prop} {C : S.Op → Prop}
    (hview : ∀ o s u r u', C o → View s u → sem' o u r u' → ∃ s', sem o s r s' ∧ View s' u') {u : τ} (hp : p.Calls C)
    (h : p.Guarded sem may Q s) (hsu : View s u) :
    p.Guarded sem' (fun o u => ∃ s, View s u ∧ may o s) (fun a u => ∃ s, View s u ∧ Q a s) u := by
  induction hp generalizing s u with
  | done a => exact ⟨s, hsu, h⟩
  | call ho _ ih =>
    refine ⟨⟨s, hsu, h.1⟩, fun r u' hcall => ?_⟩
    obtain ⟨s', hsem, hview'⟩ := hview _ s u r u' ho hsu hcall
    exact ih r (h.2 r s' hsem) hview'

/-- Where every call can be served, a run comes to its end. -/
theorem runs_on (htotal : ∀ o s, ∃ r s', sem o s r s') : ∀ (p : Prog S α) (s : σ), ∃ a t, Reaches sem p s (some a) t
  | .done a, s => ⟨a, s, .done a s⟩
  | .call o k, s => by
    obtain ⟨r, s', hcall⟩ := htotal o s
    obtain ⟨a, t, hrest⟩ := runs_on htotal (k r) s'
    exact ⟨a, t, .call hcall hrest⟩

theorem Reaches.bind {a : α} {out : Option β} {u : σ} (hp : Reaches sem p s (some a) t)
    (hf : Reaches sem (f a) t out u) : Reaches sem (p >>= f) s out u := by
  induction p generalizing s with
  | done b =>
    cases hp
    exact hf
  | call o k ih =>
    cases hp with
    | call hcall hrest => exact .call hcall (ih _ hrest)

theorem Comes.bind {o : S.Op} {u : σ} (hp : Comes sem p s o u) : Comes sem (p >>= f) s o u := by
  induction hp with
  | now o k s => exact .now o _ s
  | later hcall _ ih => exact .later hcall ih

section Lift

variable {S T : Signature} {σ α : Type} {sem : (o : S.Op) → σ → S.Resp o → σ → Prop}
  {sem' : (o : T.Op) → σ → T.Resp o → σ → Prop} {e : S.Embedding T} {may : S.Op → σ → Prop} {may' : T.Op → σ → Prop}
  {p : Prog S α} {Q : α → σ → Prop} {s t : σ}

/-- A part of a system is guarded where its calls do there what they did. -/
theorem Guarded.lift (hsem : ∀ o s r s', sem' (e.op o) s r s' → sem o s (e.resp o r) s')
    (hmay : ∀ o s, may o s → may' (e.op o) s) (h : p.Guarded sem may Q s) : (p.lift e).Guarded sem' may' Q s := by
  induction p generalizing s with
  | done a => exact h
  | call o k ih => exact ⟨hmay o s h.1, fun r s' hcall => ih _ (h.2 _ s' (hsem o s r s' hcall))⟩

theorem Comes.lift (hsem : ∀ o s r s', sem o s r s' → ∃ r', e.resp o r' = r ∧ sem' (e.op o) s r' s') {o : S.Op}
    (h : Comes sem p s o t) : Comes sem' (p.lift e) s (e.op o) t := by
  induction h with
  | now o k s => exact .now _ _ _
  | later hcall _ ih =>
    obtain ⟨r', rfl, hcall'⟩ := hsem _ _ _ _ hcall
    exact .later hcall' ih

theorem Reaches.of_lift (hsem : ∀ o s r s', sem' (e.op o) s r s' → sem o s (e.resp o r) s') {out : Option α}
    (h : Reaches sem' (p.lift e) s out t) : Reaches sem p s out t := by
  induction p generalizing s with
  | done a =>
    cases h with
    | cut => exact .cut _ _
    | done => exact .done a _
  | call o k ih =>
    cases h with
    | cut => exact .cut _ _
    | call hcall hrest => exact .call (hsem _ _ _ _ hcall) (ih _ hrest)

end Lift

end Prog

namespace Fallible

variable {Op σ ε α β : Type} {Val : Op → Type}

/-- A run of the program comes to the call `o` in the state `t`. -/
def Comes (sem : (o : Op) → σ → Except ε (Val o) → σ → Prop) (x : Fallible Val ε α) (s : σ) (o : Op) (t : σ) : Prop :=
  Prog.Comes (S := Signature.fallible Val ε) sem x.run s o t

/-- Every call may be made where it is; `x` fails as `E` says and succeeds as
`Q` says. -/
def Guarded (sem : (o : Op) → σ → Except ε (Val o) → σ → Prop) (may : Op → σ → Prop) (E : σ → Prop)
    (x : Fallible Val ε α) (s : σ) (Q : α → σ → Prop) : Prop :=
  Prog.Guarded (S := Signature.fallible Val ε) sem may x.run
    (fun r t => match r with
      | .ok a => Q a t
      | .error _ => E t) s

section Rules

variable {sem : (o : Op) → σ → Except ε (Val o) → σ → Prop} {may : Op → σ → Prop} {I E F : σ → Prop}
  {x : Fallible Val ε α} {s t : σ} {Q Q' : α → σ → Prop} {R : β → σ → Prop} {f : α → Fallible Val ε β}

namespace Guarded

theorem comes {o : Op} (h : Guarded sem may E x s Q) (hx : Comes sem x s o t) : may o t := Prog.Guarded.comes h hx

theorem ok {a : α} (h : Guarded sem may E x s Q) (hx : Reaches sem x s (some (.ok a)) t) : Q a t :=
  Prog.Guarded.ends (S := Signature.fallible Val ε) (a := (.ok a : Except ε α)) h hx

theorem error {e : ε} (h : Guarded sem may E x s Q) (hx : Reaches sem x s (some (.error e)) t) : E t :=
  Prog.Guarded.ends (S := Signature.fallible Val ε) (a := (.error e : Except ε α)) h hx

theorem keeps {J : σ → Prop} (hJ : ∀ o u r u', may o u → sem o u r u' → J u → J u') {out : Option (Except ε α)}
    (h : Guarded sem may E x s Q) (hx : Reaches sem x s out t) (hs : J s) : J t :=
  Prog.Guarded.keeps (S := Signature.fallible Val ε) hJ h hx hs

theorem weaken (h : Guarded sem may E x s Q) (hE : ∀ t, E t → F t) (hQ : ∀ a t, Q a t → Q' a t) :
    Guarded sem may F x s Q' := by
  apply Prog.Guarded.weaken h
  intro r t hr
  cases r with
  | ok a => exact hQ a t hr
  | error e => exact hE t hr

theorem mono_may {may' : Op → σ → Prop} (h : Guarded sem may E x s Q) (hmay : ∀ o t, may o t → may' o t) :
    Guarded sem may' E x s Q := Prog.Guarded.mono_may h hmay

theorem and_inv {J : σ → Prop} (hJ : ∀ o u r u', may o u → sem o u r u' → J u → J u') (h : Guarded sem may E x s Q)
    (hs : J s) : Guarded sem (fun o t => may o t ∧ J t) E x s fun a t => Q a t ∧ J t := by
  refine Prog.Guarded.weaken (Prog.Guarded.and_inv hJ h hs) fun r t hr => ?_
  cases r with
  | ok a => exact hr
  | error e => exact hr.1

theorem and_calls {C : Op → Prop} (h : Guarded sem may E x s Q) (hx : Calls C x) :
    Guarded sem (fun o t => may o t ∧ C o) E x s Q := Prog.Guarded.and_calls h hx

/-- Every run is within what each call keeps where it may be made. -/
theorem runs {J : σ → Prop} (hJ : ∀ o u r u', may o u → sem o u r u' → J u → J u') (h : Guarded sem may E x s Q)
    (hs : J s) : Runs sem J x s fun _ => J := by
  intro out t hx
  have ht : J t := h.keeps hJ hx hs
  rcases out with _ | _ | a
  · exact ht
  · exact ht
  · exact ht

/-- What the runs of a program end in may be asked as well. -/
theorem and_runs (h : Guarded sem may E x s Q) (hx : Runs sem I x s Q') :
    Guarded sem may E x s fun a t => Q a t ∧ Q' a t := by
  refine Prog.Guarded.weaken (Prog.Guarded.and_ends h fun r t hr => hx (some r) t hr) fun r t hr => ?_
  cases r with
  | ok a => exact hr
  | error e => exact hr.1

theorem pure {a : α} (hQ : Q a s) : Guarded sem may E (Pure.pure a : Fallible Val ε α) s Q := hQ

theorem throw {e : ε} (hE : E s) : Guarded sem may E (MonadExcept.throw e : Fallible Val ε α) s Q := hE

theorem check {a : Except ε α} (hE : ∀ e, a = .error e → E s) (hQ : ∀ b, a = .ok b → Q b s) :
    Guarded sem may E (Fallible.check a : Fallible Val ε α) s Q := by
  cases a with
  | ok b => exact hQ b rfl
  | error e => exact hE e rfl

theorem op {o : Op} {Q : Val o → σ → Prop} (hmay : may o s)
    (hstep : ∀ r t, sem o s r t → match r with
      | .ok a => Q a t
      | .error _ => E t) : Guarded sem may E (Fallible.op o : Fallible Val ε (Val o)) s Q := by
  refine ⟨hmay, fun r t hcall => ?_⟩
  have hr := hstep r t hcall
  cases r with
  | ok a => exact hr
  | error e => exact hr

theorem bind {P : α → σ → Prop} (hx : Guarded sem may E x s P) (hf : ∀ a t, P a t → Guarded sem may E (f a) t R) :
    Guarded sem may E (x >>= f) s R := by
  have hprog := congrArg (fun p => Prog.Guarded (S := Signature.fallible Val ε) sem may p
    (fun r t => match r with
      | .ok a => R a t
      | .error _ => E t) s) (run_bind x f)
  apply hprog.mpr
  apply Prog.Guarded.bind hx
  intro r t hr
  cases r with
  | ok a => exact hf a t hr
  | error e => exact hr

theorem check_bind {a : Except ε α} (hE : ∀ e, a = .error e → E s)
    (hf : ∀ b, a = .ok b → Guarded sem may E (f b) s R) : Guarded sem may E (Fallible.check a >>= f) s R := by
  refine bind (P := fun b t => a = .ok b ∧ t = s) (check hE fun b hb => ⟨hb, rfl⟩) fun b t h => ?_
  obtain ⟨hb, rfl⟩ := h
  exact hf b hb

/-- Each item keeps `J` of the items before it. -/
theorem forM {γ : Type} {g : γ → Fallible Val ε PUnit} {l : List γ} (J : List γ → σ → Prop) (hstart : J [] s)
    (hstep : ∀ done a rest t, l = done ++ a :: rest → J done t →
      Guarded sem may E (g a) t fun _ => J (done ++ [a])) : Guarded sem may E (l.forM g) s fun _ => J l := by
  have hrest : ∀ (rest done : List γ) (t : σ), l = done ++ rest → J done t →
      Guarded sem may E (rest.forM g) t fun _ => J l := by
    intro rest
    induction rest with
    | nil =>
      intro done t hl hJ
      rw [List.append_nil] at hl
      have hall : J l t := by
        rw [hl]
        exact hJ
      exact pure hall
    | cons a rest ih =>
      intro done t hl hJ
      have hforM : (a :: rest).forM g = g a >>= fun _ => rest.forM g := rfl
      rw [hforM]
      refine bind (hstep done a rest t hl hJ) fun _ t' hJ' => ?_
      exact ih (done ++ [a]) t' (by simp [hl]) hJ'
  exact hrest l [] s rfl hstart

/-- Each item keeps `J` of the items before it and what they have come to. -/
theorem foldlM {γ : Type} {g : β → γ → Fallible Val ε β} {l : List γ} {b : β} (J : List γ → β → σ → Prop)
    (hstart : J [] b s) (hstep : ∀ done a rest b t, l = done ++ a :: rest → J done b t →
      Guarded sem may E (g b a) t (J (done ++ [a]))) : Guarded sem may E (l.foldlM g b) s (J l) := by
  have hrest : ∀ (rest done : List γ) (b : β) (t : σ), l = done ++ rest → J done b t →
      Guarded sem may E (rest.foldlM g b) t (J l) := by
    intro rest
    induction rest with
    | nil =>
      intro done b t hl hJ
      rw [List.append_nil] at hl
      rw [hl]
      exact pure hJ
    | cons a rest ih =>
      intro done b t hl hJ
      rw [List.foldlM_cons]
      refine bind (hstep done a rest b t hl hJ) fun b' t' hJ' => ?_
      exact ih (done ++ [a]) b' t' (by simp [hl]) hJ'
  exact hrest l [] b s rfl hstart

/-- A call whose outcome is looked at. -/
theorem attempt_op {o : Op} {Q : Except ε (Val o) → σ → Prop} (hmay : may o s) (hstep : ∀ r t, sem o s r t → Q r t) :
    Guarded sem may E (Fallible.attempt (Fallible.op o : Fallible Val ε (Val o))) s Q :=
  ⟨hmay, fun r t hcall => hstep r t hcall⟩

/-- A program whose outcome is looked at. -/
theorem attempt (h : Guarded sem may E x s Q) : Guarded sem may F x.attempt s fun r t =>
    match r with
    | .ok a => Q a t
    | .error _ => E t := by
  apply Prog.Guarded.bind h
  intro r t hr
  exact hr

/-- Where `x` fails, the cleanup fails or succeeds as a failure. -/
theorem onError {cleanup : Fallible Val ε Unit} (h : Guarded sem may F x s Q)
    (hcleanup : ∀ t, F t → Guarded sem may E cleanup t fun _ => E) :
    Guarded sem may E (Fallible.onError cleanup x) s Q := by
  apply Prog.Guarded.bind h
  intro r t hr
  cases r with
  | ok a => exact hr
  | error e =>
    apply Prog.Guarded.bind (hcleanup t hr)
    intro r' u hu
    cases r' with
    | ok _ => exact hu
    | error _ => exact hu

/-- A run of a program that every call it may make leaves in place: it has not
come to its end, or what follows runs on from there. -/
theorem of_bind {J : σ → Prop} {out : Option (Except ε β)} (hJ : ∀ o u r u', may o u → sem o u r u' → J u → J u')
    (h : Guarded sem may E x s Q) (hs : J s) (hx : Reaches sem (x >>= f) s out t) :
    (J t ∧ ∀ b, out ≠ some (.ok b)) ∨ ∃ a u, J u ∧ Q a u ∧ Reaches sem (f a) u out t := by
  have hprog := congrArg (fun p => Prog.Reaches (S := Signature.fallible Val ε) sem p s out t) (run_bind x f)
  rcases Prog.Reaches.of_bind (hprog.mp hx) with ⟨rfl, hcut⟩ | ⟨r, u, hfirst, hrest⟩
  · exact .inl ⟨h.keeps hJ hcut hs, fun b hb => nomatch hb⟩
  · have hu : J u := h.keeps hJ hfirst hs
    cases r with
    | ok a => exact .inr ⟨a, u, hu, h.ok hfirst, hrest⟩
    | error e =>
      cases hrest with
      | cut => exact .inl ⟨hu, fun b hb => nomatch hb⟩
      | done => exact .inl ⟨hu, fun b hb => nomatch hb⟩

end Guarded

theorem Reaches.bind {a : α} {out : Option (Except ε β)} {u : σ} (hx : Reaches sem x s (some (.ok a)) t)
    (hf : Reaches sem (f a) t out u) : Reaches sem (x >>= f) s out u := by
  have hprog := congrArg (fun p => Prog.Reaches (S := Signature.fallible Val ε) sem p s out u) (run_bind x f)
  exact hprog.mpr (Prog.Reaches.bind hx hf)

theorem Comes.bind {o : Op} {u : σ} (hx : Comes sem x s o u) : Comes sem (x >>= f) s o u := by
  have hprog := congrArg (fun p => Prog.Comes (S := Signature.fallible Val ε) sem p s o u) (run_bind x f)
  exact hprog.mpr (Prog.Comes.bind hx)

/-- A run through a list, where each item has one that keeps `J`. -/
theorem Reaches.forM {γ : Type} {g : γ → Fallible Val ε PUnit} {l : List γ} (J : List γ → σ → Prop) (hstart : J [] s)
    (hstep : ∀ done a rest t, l = done ++ a :: rest → J done t →
      ∃ t', Reaches sem (g a) t (some (.ok ())) t' ∧ J (done ++ [a]) t') :
    ∃ t', Reaches sem (l.forM g) s (some (.ok ())) t' ∧ J l t' := by
  have hrest : ∀ (rest done : List γ) (t : σ), l = done ++ rest → J done t →
      ∃ t', Reaches sem (rest.forM g) t (some (.ok ())) t' ∧ J l t' := by
    intro rest
    induction rest with
    | nil =>
      intro done t hl hJ
      rw [List.append_nil] at hl
      refine ⟨t, Prog.Reaches.done _ _, ?_⟩
      rw [hl]
      exact hJ
    | cons a rest ih =>
      intro done t hl hJ
      obtain ⟨t₁, hrun, hJ₁⟩ := hstep done a rest t hl hJ
      obtain ⟨t₂, hrest, hJ₂⟩ := ih (done ++ [a]) t₁ (by simp [hl]) hJ₁
      exact ⟨t₂, Reaches.bind hrun hrest, hJ₂⟩
  exact hrest l [] s rfl hstart

/-- A program of allowed calls comes only to allowed calls. -/
theorem Calls.guarded {P : Op → Prop} (h : Calls P x) (s : σ) :
    Guarded sem (fun o _ => P o) (fun _ => True) x s fun _ _ => True := by
  unfold Calls at h
  unfold Guarded
  generalize x.run = p at h
  induction h generalizing s with
  | done r => cases r <;> trivial
  | call ho _ ih => exact ⟨ho, fun r t _ => ih r t⟩

/-- A program that does not fail has a run that succeeds. -/
theorem Guarded.succeeds (h : Guarded sem may (fun _ => False) x s Q) (htotal : ∀ o s, ∃ r t, sem o s r t) :
    ∃ a t, Reaches sem x s (some (.ok a)) t ∧ Q a t := by
  obtain ⟨r, t, hr⟩ := Prog.runs_on (S := Signature.fallible Val ε) htotal x.run s
  cases r with
  | ok a => exact ⟨a, t, hr, h.ok hr⟩
  | error e => exact (h.error hr).elim

/-! ### Where a run that fails is apart from one that is cut short -/

/-- Every run of `x` from `s` is within `I` where it is cut short, fails as `E`
says, and succeeds as `Q` says. -/
def Outcomes (sem : (o : Op) → σ → Except ε (Val o) → σ → Prop) (I E : σ → Prop) (x : Fallible Val ε α) (s : σ)
    (Q : α → σ → Prop) : Prop :=
  ∀ out t, Reaches sem x s out t →
    match out with
    | none => I t
    | some (.ok a) => Q a t
    | some (.error _) => E t

theorem Runs.outcomes (h : Runs sem I x s Q) : Outcomes sem I I x s Q := by
  intro out t hx
  have hout := h out t hx
  rcases out with _ | _ | a
  · exact hout
  · exact hout
  · exact hout

/-- How a program that is guarded fails. -/
theorem Guarded.outcomes (h : Guarded sem may E x s Q) (hx : Runs sem I x s Q') : Outcomes sem I E x s Q' := by
  intro out t hrun
  have hout := hx out t hrun
  rcases out with _ | _ | a
  · exact hout
  · exact h.error hrun
  · exact hout

namespace Outcomes

theorem cut (h : Outcomes sem I E x s Q) (hx : Reaches sem x s none t) : I t := h none t hx

theorem ok (h : Outcomes sem I E x s Q) {a : α} (hx : Reaches sem x s (some (.ok a)) t) : Q a t := h _ t hx

theorem error (h : Outcomes sem I E x s Q) {e : ε} (hx : Reaches sem x s (some (.error e)) t) : E t := h _ t hx

theorem runs (h : Outcomes sem I E x s Q) : Runs sem (fun _ => True) x s Q := by
  intro out t hx
  have hout := h out t hx
  rcases out with _ | _ | a
  · trivial
  · trivial
  · exact hout

theorem mono {sem' : (o : Op) → σ → Except ε (Val o) → σ → Prop} (hsem : ∀ o u r u', sem' o u r u' → sem o u r u')
    (h : Outcomes sem I E x s Q) : Outcomes sem' I E x s Q := fun out t hx =>
  h out t (Prog.Reaches.mono (S := Signature.fallible Val ε) hsem hx)

theorem weaken {I' : σ → Prop} (h : Outcomes sem I E x s Q) (hI : ∀ t, I t → I' t) (hE : ∀ t, I t → E t → F t)
    (hQ : ∀ a t, I t → Q a t → Q' a t) : Outcomes sem I' F x s Q' := by
  intro out t hx
  have hcut := h none t hx.cut_short
  have hout := h out t hx
  rcases out with _ | _ | a
  · exact hI t hcut
  · exact hE t hcut hout
  · exact hQ a t hcut hout

/-- What successful runs come to may be asked as well. -/
theorem and_runs {I' : σ → Prop} (h : Outcomes sem I E x s Q) (hx : Runs sem I' x s Q') :
    Outcomes sem I E x s fun a t => Q a t ∧ Q' a t := by
  intro out t hrun
  have hout := h out t hrun
  rcases out with _ | _ | a
  · exact hout
  · exact hout
  · exact ⟨hout, hx.ok hrun⟩

theorem pure {a : α} (hI : I s) (hQ : Q a s) : Outcomes sem I E (Pure.pure a : Fallible Val ε α) s Q := by
  intro out t hx
  cases hx with
  | cut => exact hI
  | done => exact hQ

theorem throw {e : ε} (hI : I s) (hE : E s) : Outcomes sem I E (MonadExcept.throw e : Fallible Val ε α) s Q := by
  intro out t hx
  cases hx with
  | cut => exact hI
  | done => exact hE

theorem bind {P : α → σ → Prop} (hx : Outcomes sem I E x s P) (hf : ∀ a t, I t → P a t → Outcomes sem I E (f a) t R) :
    Outcomes sem I E (x >>= f) s R := by
  intro out t hrun
  have hprog := congrArg (fun p => Prog.Reaches (S := Signature.fallible Val ε) sem p s out t) (run_bind x f)
  rcases (hprog.mp hrun).of_bind with ⟨rfl, hcut⟩ | ⟨r, mid, hfirst, hrest⟩
  · exact hx.cut hcut
  · have hmid : I mid := hx none mid hfirst.cut_short
    cases r with
    | ok a => exact hf a mid hmid (hx.ok hfirst) out t hrest
    | error e =>
      cases hrest with
      | cut => exact hmid
      | done => exact hx.error hfirst

theorem check_bind {a : Except ε α} (hI : I s) (hE : E s) (hf : ∀ b, a = .ok b → Outcomes sem I E (f b) s R) :
    Outcomes sem I E (Fallible.check a >>= f) s R := by
  refine bind (P := fun b t => a = .ok b ∧ t = s) (fun out t hx => ?_) fun b t _ h => ?_
  · cases hx with
    | cut => exact hI
    | done =>
      cases a with
      | ok b => exact ⟨rfl, rfl⟩
      | error e => exact hE
  · obtain ⟨hb, rfl⟩ := h
    exact hf b hb

/-- A program whose outcome is looked at. -/
theorem attempt (h : Outcomes sem I E x s Q) : Outcomes sem I F x.attempt s fun r t => I t ∧ match r with
    | .ok a => Q a t
    | .error _ => E t := by
  intro out t hx
  rcases Prog.Reaches.of_bind hx with ⟨rfl, hcut⟩ | ⟨r, mid, hfirst, hrest⟩
  · exact h.cut hcut
  · have hmid : I mid := h none mid hfirst.cut_short
    cases hrest with
    | cut => exact hmid
    | done =>
      cases r with
      | ok a => exact ⟨hmid, h.ok hfirst⟩
      | error e => exact ⟨hmid, h.error hfirst⟩

end Outcomes

end Rules

section Lift

variable {Op Op' σ ε α : Type} {Val : Op → Type} {Val' : Op' → Type}
  {e : (Signature.fallible Val ε).Embedding (Signature.fallible Val' ε)}
  {sem : (o : Op) → σ → Except ε (Val o) → σ → Prop} {sem' : (o : Op') → σ → Except ε (Val' o) → σ → Prop}
  {may : Op → σ → Prop} {may' : Op' → σ → Prop} {E : σ → Prop} {x : Fallible Val ε α} {Q : α → σ → Prop} {s t : σ}

theorem Guarded.lift (hsem : ∀ o s r s', sem' (e.op o) s r s' → sem o s (e.resp o r) s')
    (hmay : ∀ o s, may o s → may' (e.op o) s) (h : Guarded sem may E x s Q) :
    Guarded sem' may' E (lift e x) s Q := Prog.Guarded.lift hsem hmay h

theorem Comes.lift (hsem : ∀ o s r s', sem o s r s' → ∃ r', e.resp o r' = r ∧ sem' (e.op o) s r' s') {o : Op}
    (h : Comes sem x s o t) : Comes sem' (lift e x) s (e.op o) t := Prog.Comes.lift hsem h

theorem Reaches.of_lift (hsem : ∀ o s r s', sem' (e.op o) s r s' → sem o s (e.resp o r) s')
    {out : Option (Except ε α)} (h : Reaches sem' (lift e x) s out t) : Reaches sem x s out t :=
  Prog.Reaches.of_lift hsem h

end Lift

end Fallible

end RustSync
