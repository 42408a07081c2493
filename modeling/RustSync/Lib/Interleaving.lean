/-
Interleaved programs

A program calls the operations of a shared state one after another and
computes in between (`Prog`). Any number of programs run on one shared state,
each started by a request; a step starts one, or makes the next call of one
(`Machine.Step`). What a call may do and return is the machine's, and may
depend on the calling thread.

Safety is proved in the rely-guarantee style. A `Contract` is an invariant of
the shared state and, for each thread, what it guarantees of its steps. An
`Outline` of a program holds an assertion at each of its points that no other
thread's guarantee can break. If every request's program has one, the
invariant holds throughout and finished programs meet their postconditions
(`Contract.reachable`). Outlines compose along `bind` (`Outline.bind`).

Key definitions: `Prog`, `Machine.Step`, `Contract.Stable`, `Outline`.
-/
import Mathlib.Logic.Function.Basic
import Mathlib.Logic.Relation

namespace RustSync

/-- The operations programs call, and what each returns. -/
structure Signature where
  Op : Type
  Resp : Op → Type

/-- A program: a tree of calls. -/
inductive Prog (S : Signature) (α : Type) where
  | done (a : α)
  | call (o : S.Op) (k : S.Resp o → Prog S α)

namespace Prog

variable {S : Signature} {α β : Type}

protected def bind : Prog S α → (α → Prog S β) → Prog S β
  | .done a, f => f a
  | .call o k, f => .call o fun r => (k r).bind f

instance : Monad (Prog S) where
  pure := .done
  bind := Prog.bind

@[simp] theorem call_bind (o : S.Op) (k : S.Resp o → Prog S α) (f : α → Prog S β) :
    (.call o k : Prog S α) >>= f = .call o fun r => k r >>= f := rfl

instance : LawfulMonad (Prog S) := by
  refine LawfulMonad.mk' _ (fun p => ?_) (fun a f => rfl) fun p f g => ?_
  · change Prog.bind p Prog.done = p
    induction p with
    | done a => rfl
    | call o k ih => exact congrArg (Prog.call o) (funext ih)
  · change Prog.bind (Prog.bind p f) g = Prog.bind p fun a => Prog.bind (f a) g
    induction p with
    | done a => rfl
    | call o k ih => exact congrArg (Prog.call o) (funext ih)

/-- A program run alone, each call doing what `run` says. -/
def exec {σ : Type} (run : (o : S.Op) → σ → Option (S.Resp o × σ)) : Prog S α → σ → Option (α × σ)
  | .done a, s => some (a, s)
  | .call o k, s => (run o s).bind fun (r, s') => (k r).exec run s'

theorem exec_bind {σ : Type} {run : (o : S.Op) → σ → Option (S.Resp o × σ)} {f : α → Prog S β} :
    ∀ {p : Prog S α} {s : σ}, (p >>= f).exec run s = (p.exec run s).bind fun (a, t) => (f a).exec run t
  | .done a, s => rfl
  | .call o k, s => by
    rw [Prog.call_bind, Prog.exec, Prog.exec, Option.bind_assoc]
    refine Option.bind_congr fun (r, t) _ => ?_
    exact exec_bind

end Prog

/-- What calls do, by thread, and the program each request starts. -/
structure Machine (ι : Type) (S : Signature) (σ Req Res : Type) where
  sem : ι → (o : S.Op) → σ → S.Resp o → σ → Prop
  program : Req → Prog S Res

/-- The shared state, and the request and the remaining program of each
started thread. -/
structure Config (ι : Type) (S : Signature) (σ Req Res : Type) where
  shared : σ
  thread : ι → Option (Req × Prog S Res)

namespace Machine

variable {ι : Type} [DecidableEq ι] {S : Signature} {σ Req Res : Type} (M : Machine ι S σ Req Res)

inductive Step : Config ι S σ Req Res → Config ι S σ Req Res → Prop
  | start {cfg : Config ι S σ Req Res} (i : ι) (q : Req) (hidle : cfg.thread i = none) :
      Step cfg { cfg with thread := Function.update cfg.thread i (some (q, M.program q)) }
  | call {cfg : Config ι S σ Req Res} {i : ι} {q : Req} {o : S.Op} {k : S.Resp o → Prog S Res}
      {r : S.Resp o} {s' : σ} (hat : cfg.thread i = some (q, .call o k))
      (hsem : M.sem i o cfg.shared r s') :
      Step cfg ⟨s', Function.update cfg.thread i (some (q, k r))⟩

/-- The configurations some interleaving leads to. -/
def Steps : Config ι S σ Req Res → Config ι S σ Req Res → Prop := Relation.ReflTransGen M.Step

/-- A configuration some interleaving reaches from the state `s₀`. -/
def Reachable (s₀ : σ) (cfg : Config ι S σ Req Res) : Prop := M.Steps ⟨s₀, fun _ => none⟩ cfg

/-! ### Runs of one thread -/

variable {M}

/-- A thread may run on its own for as long as its calls can be served. -/
theorem Steps.exec {run : (o : S.Op) → σ → Option (S.Resp o × σ)} {i : ι} {q : Req}
    (hrun : ∀ o s r s', run o s = some (r, s') → M.sem i o s r s') {a : Res} {s' : σ} :
    ∀ {p : Prog S Res} (cfg : Config ι S σ Req Res), cfg.thread i = some (q, p) →
      p.exec run cfg.shared = some (a, s') →
      M.Steps cfg ⟨s', Function.update cfg.thread i (some (q, .done a))⟩ := by
  intro p
  induction p with
  | done b =>
    intro cfg hat hexec
    simp only [Prog.exec, Option.some.injEq, Prod.mk.injEq] at hexec
    obtain ⟨rfl, rfl⟩ := hexec
    rw [← hat, Function.update_eq_self]
    exact .refl
  | call o k ih =>
    intro cfg hat hexec
    rw [Prog.exec, Option.bind_eq_some_iff] at hexec
    obtain ⟨⟨r, t⟩, hcall, hrest⟩ := hexec
    have hstep : M.Step cfg ⟨t, Function.update cfg.thread i (some (q, k r))⟩ :=
      .call hat (hrun o _ r t hcall)
    have hnext := ih r ⟨t, Function.update cfg.thread i (some (q, k r))⟩ (Function.update_self ..) hrest
    rw [Function.update_idem] at hnext
    exact .head hstep hnext

variable (M) in
/-- Serve a request from start to end, by a thread that runs alone. -/
def serve (run : ι → (o : S.Op) → σ → Option (S.Resp o × σ)) (i : ι) (q : Req)
    (cfg : Config ι S σ Req Res) : Option (Config ι S σ Req Res) :=
  match cfg.thread i with
  | some _ => none
  | none => ((M.program q).exec (run i) cfg.shared).map fun (a, s') =>
    ⟨s', Function.update cfg.thread i (some (q, .done a))⟩

/-- A request that was served is finished. -/
theorem serve_done {run : ι → (o : S.Op) → σ → Option (S.Resp o × σ)} {i : ι} {q : Req}
    {cfg cfg' : Config ι S σ Req Res} (h : M.serve run i q cfg = some cfg') :
    ∃ a, cfg'.thread i = some (q, .done a) := by
  unfold Machine.serve at h
  split at h
  · cases h
  · obtain ⟨⟨a, s'⟩, _, rfl⟩ := Option.map_eq_some_iff.mp h
    exact ⟨a, Function.update_self ..⟩

theorem Steps.serve {run : ι → (o : S.Op) → σ → Option (S.Resp o × σ)} {i : ι} {q : Req}
    (hrun : ∀ i o s r s', run i o s = some (r, s') → M.sem i o s r s')
    {cfg cfg' : Config ι S σ Req Res} (hserve : M.serve run i q cfg = some cfg') : M.Steps cfg cfg' := by
  unfold Machine.serve at hserve
  split at hserve
  · cases hserve
  · rename_i hidle
    obtain ⟨⟨a, s'⟩, hexec, rfl⟩ := Option.map_eq_some_iff.mp hserve
    have hstart : M.Step cfg _ := .start i q hidle
    have hrest := Steps.exec (hrun i) ⟨cfg.shared, Function.update cfg.thread i (some (q, M.program q))⟩
      (Function.update_self ..) hexec
    rw [Function.update_idem] at hrest
    exact .head hstart hrest

theorem Reachable.serve {run : ι → (o : S.Op) → σ → Option (S.Resp o × σ)} {i : ι} {q : Req} {s₀ : σ}
    (hrun : ∀ i o s r s', run i o s = some (r, s') → M.sem i o s r s')
    {cfg cfg' : Config ι S σ Req Res} (h : M.Reachable s₀ cfg) (hserve : M.serve run i q cfg = some cfg') :
    M.Reachable s₀ cfg' := h.trans (Steps.serve hrun hserve)

variable (M) in
/-- Start a request, and make none of its calls. -/
def begin (i : ι) (q : Req) (cfg : Config ι S σ Req Res) : Option (Config ι S σ Req Res) :=
  match cfg.thread i with
  | some _ => none
  | none => some { cfg with thread := Function.update cfg.thread i (some (q, M.program q)) }

theorem Reachable.begin {i : ι} {q : Req} {s₀ : σ} {cfg cfg' : Config ι S σ Req Res}
    (h : M.Reachable s₀ cfg) (hbegin : M.begin i q cfg = some cfg') : M.Reachable s₀ cfg' := by
  unfold Machine.begin at hbegin
  split at hbegin
  · cases hbegin
  · rename_i hidle
    cases hbegin
    exact h.tail (.start i q hidle)

/-- Make the next call of a thread. -/
def advance (run : ι → (o : S.Op) → σ → Option (S.Resp o × σ)) (i : ι) (cfg : Config ι S σ Req Res) :
    Option (Config ι S σ Req Res) :=
  match cfg.thread i with
  | some (q, .call o k) => (run i o cfg.shared).map fun (r, s') =>
    ⟨s', Function.update cfg.thread i (some (q, k r))⟩
  | _ => none

theorem Reachable.advance {run : ι → (o : S.Op) → σ → Option (S.Resp o × σ)}
    (hrun : ∀ i o s r s', run i o s = some (r, s') → M.sem i o s r s') {i : ι} {s₀ : σ}
    {cfg cfg' : Config ι S σ Req Res} (h : M.Reachable s₀ cfg)
    (hadvance : Machine.advance run i cfg = some cfg') : M.Reachable s₀ cfg' := by
  unfold Machine.advance at hadvance
  split at hadvance
  · rename_i q o k hat
    obtain ⟨⟨r, s'⟩, hcall, rfl⟩ := Option.map_eq_some_iff.mp hadvance
    exact h.tail (.call hat (hrun i o _ r s' hcall))
  · cases hadvance

/-- Make calls in the order the threads are listed. -/
def schedule (run : ι → (o : S.Op) → σ → Option (S.Resp o × σ)) (order : List ι)
    (cfg : Config ι S σ Req Res) : Option (Config ι S σ Req Res) :=
  order.foldlM (fun cfg i => advance run i cfg) cfg

theorem Reachable.schedule {run : ι → (o : S.Op) → σ → Option (S.Resp o × σ)}
    (hrun : ∀ i o s r s', run i o s = some (r, s') → M.sem i o s r s') {s₀ : σ} :
    ∀ {order : List ι} {cfg cfg' : Config ι S σ Req Res}, M.Reachable s₀ cfg →
      Machine.schedule run order cfg = some cfg' → M.Reachable s₀ cfg'
  | [], cfg, cfg', h, hschedule => by
    cases hschedule
    exact h
  | i :: order, cfg, cfg', h, hschedule => by
    simp only [Machine.schedule, List.foldlM_cons, Option.bind_eq_bind,
      Option.bind_eq_some_iff] at hschedule
    obtain ⟨mid, hadvance, hrest⟩ := hschedule
    exact Reachable.schedule hrun (h.advance hrun hadvance) hrest

/-! ### The other threads -/

theorem serve_other {run : ι → (o : S.Op) → σ → Option (S.Resp o × σ)} {i j : ι} {q : Req}
    {cfg cfg' : Config ι S σ Req Res} (h : M.serve run i q cfg = some cfg') (hj : j ≠ i) :
    cfg'.thread j = cfg.thread j := by
  unfold Machine.serve at h
  split at h
  · cases h
  · obtain ⟨⟨a, s'⟩, _, rfl⟩ := Option.map_eq_some_iff.mp h
    exact Function.update_of_ne hj _ _

theorem begin_other {i j : ι} {q : Req} {cfg cfg' : Config ι S σ Req Res} (h : M.begin i q cfg = some cfg')
    (hj : j ≠ i) : cfg'.thread j = cfg.thread j := by
  unfold Machine.begin at h
  split at h
  · cases h
  · cases h
    exact Function.update_of_ne hj _ _

theorem schedule_other {run : ι → (o : S.Op) → σ → Option (S.Resp o × σ)} {j : ι} :
    ∀ {order : List ι} {cfg cfg' : Config ι S σ Req Res}, Machine.schedule run order cfg = some cfg' →
      j ∉ order → cfg'.thread j = cfg.thread j
  | [], cfg, cfg', h, _ => by
    cases h
    rfl
  | i :: order, cfg, cfg', h, hj => by
    simp only [Machine.schedule, List.foldlM_cons, Option.bind_eq_bind, Option.bind_eq_some_iff] at h
    obtain ⟨mid, hadvance, hrest⟩ := h
    obtain ⟨hne, hnot⟩ := not_or.mp (mt List.mem_cons.mpr hj)
    refine (schedule_other hrest hnot).trans ?_
    unfold Machine.advance at hadvance
    split at hadvance
    · obtain ⟨⟨r, s'⟩, _, rfl⟩ := Option.map_eq_some_iff.mp hadvance
      exact Function.update_of_ne hne _ _
    · cases hadvance

end Machine

/-- An invariant, what each thread guarantees of its steps, and what holds of a
thread before it is started. -/
structure Contract (ι σ : Type) where
  inv : σ → Prop
  guar : ι → σ → σ → Prop
  idle : ι → σ → Prop

/-- No other thread breaks the assertion. -/
def Contract.Stable {ι σ : Type} (C : Contract ι σ) (i : ι) (P : σ → Prop) : Prop :=
  ∀ j, j ≠ i → ∀ s s', C.inv s → C.inv s' → C.guar j s s' → P s → P s'

section Outlines

variable {ι : Type} {S : Signature} {σ : Type}

/-- A proof outline of a program of thread `i`: a stable assertion before each
call, and each call keeps the contract and leads to the next. -/
inductive Outline (C : Contract ι σ) (sem : ι → (o : S.Op) → σ → S.Resp o → σ → Prop) (i : ι)
    {α : Type} (post : α → σ → Prop) : (σ → Prop) → Prog S α → Prop
  | done {pre : σ → Prop} {a : α} (hstable : C.Stable i pre)
      (hpost : ∀ s, C.inv s → pre s → post a s) : Outline C sem i post pre (.done a)
  | call {pre : σ → Prop} {o : S.Op} {k : S.Resp o → Prog S α} (mid : S.Resp o → σ → Prop)
      (hstable : C.Stable i pre)
      (hstep : ∀ s r s', C.inv s → pre s → sem i o s r s' → C.inv s' ∧ C.guar i s s' ∧ mid r s')
      (hnext : ∀ r, Outline C sem i post (mid r) (k r)) : Outline C sem i post pre (.call o k)

variable {C : Contract ι σ} {sem : ι → (o : S.Op) → σ → S.Resp o → σ → Prop} {i : ι} {α β : Type}

theorem Contract.stable_true : C.Stable i fun _ => True := fun _ _ _ _ _ _ _ _ => trivial

theorem Contract.Stable.and {P Q : σ → Prop} (hp : C.Stable i P) (hq : C.Stable i Q) :
    C.Stable i fun s => P s ∧ Q s :=
  fun j hj s s' h h' hg hpq => ⟨hp j hj s s' h h' hg hpq.1, hq j hj s s' h h' hg hpq.2⟩

theorem Contract.stable_const {p : Prop} : C.Stable i fun _ => p := fun _ _ _ _ _ _ _ hp => hp

namespace Outline

theorem stable {post : α → σ → Prop} {pre : σ → Prop} {p : Prog S α}
    (h : Outline C sem i post pre p) : C.Stable i pre := by
  cases h with
  | done hstable _ => exact hstable
  | call _ hstable _ _ => exact hstable

/-- A stronger stable assertion may stand before a program. -/
theorem weaken {post : α → σ → Prop} {pre pre' : σ → Prop} {p : Prog S α}
    (h : Outline C sem i post pre p) (hstable : C.Stable i pre')
    (himp : ∀ s, C.inv s → pre' s → pre s) : Outline C sem i post pre' p := by
  cases h with
  | done _ hpost => exact .done hstable fun s hs hp => hpost s hs (himp s hs hp)
  | call mid _ hstep hnext =>
    exact .call mid hstable (fun s r s' hs hp => hstep s r s' hs (himp s hs hp)) hnext

/-- A program may be said to end with less. -/
theorem weaken_post {post post' : α → σ → Prop} {pre : σ → Prop} {p : Prog S α}
    (h : Outline C sem i post pre p) (himp : ∀ a s, C.inv s → post a s → post' a s) :
    Outline C sem i post' pre p := by
  induction h with
  | done hstable hpost => exact .done hstable fun s hs hp => himp _ s hs (hpost s hs hp)
  | call mid hstable hstep _ ih => exact .call mid hstable hstep ih

/-- Outlines compose. -/
theorem bind {mid : α → σ → Prop} {post : β → σ → Prop} {pre : σ → Prop} {p : Prog S α}
    {f : α → Prog S β} (h : Outline C sem i mid pre p)
    (hf : ∀ a, Outline C sem i post (mid a) (f a)) : Outline C sem i post pre (p >>= f) := by
  induction h with
  | done hstable hpost => exact (hf _).weaken hstable hpost
  | call m hstable hstep _ ih => exact .call m hstable hstep ih

/-- No program is ever at an assertion that does not hold. -/
theorem absurd {post : α → σ → Prop} : ∀ {pre : σ → Prop} {p : Prog S α},
    (∀ s, C.inv s → ¬ pre s) → C.Stable i pre → Outline C sem i post pre p
  | _, .done _, h, hstable => .done hstable fun s hs hp => (h s hs hp).elim
  | _, .call _ _, h, hstable =>
    .call (fun _ _ => False) hstable (fun s _ _ hs hp => (h s hs hp).elim) fun _ =>
      absurd (fun _ _ => id) fun _ _ _ _ _ _ _ => id

/-- What the assertion says regardless of the state may be assumed. -/
theorem assume {post : α → σ → Prop} {pre : σ → Prop} {p : Prog S α} {φ : Prop}
    (hstable : C.Stable i pre) (hφ : ∀ s, C.inv s → pre s → φ)
    (h : φ → Outline C sem i post pre p) : Outline C sem i post pre p := by
  by_cases hholds : φ
  · exact h hholds
  · exact absurd (fun s hs hp => hholds (hφ s hs hp)) hstable

/-- What holds of the program from each of some assertions holds from their
disjunction. -/
theorem exists_pre {β : Type} {post : α → σ → Prop} {pre : β → σ → Prop} {p : Prog S α}
    (h : ∀ b, Outline C sem i post (pre b) p) : Outline C sem i post (fun s => ∃ b, pre b s) p := by
  have hstable : C.Stable i fun s => ∃ b, pre b s := by
    intro j hj s s' hinv hinv' hguar hsome
    obtain ⟨b, hb⟩ := hsome
    exact ⟨b, (h b).stable j hj s s' hinv hinv' hguar hb⟩
  induction p generalizing β with
  | done a =>
    refine .done hstable fun s hinv hsome => ?_
    obtain ⟨b, hb⟩ := hsome
    cases h b with
    | done _ hpost => exact hpost s hinv hb
  | call o k ih =>
    have hcall (b : β) : ∃ mid : S.Resp o → σ → Prop, (∀ s r s', C.inv s → pre b s → sem i o s r s' →
        C.inv s' ∧ C.guar i s s' ∧ mid r s') ∧ ∀ r, Outline C sem i post (mid r) (k r) := by
      cases h b with
      | call mid _ hstep hnext => exact ⟨mid, hstep, hnext⟩
    let mid (b : β) := Classical.choose (hcall b)
    have hnext (b : β) (r : S.Resp o) : Outline C sem i post (mid b r) (k r) := (Classical.choose_spec (hcall b)).2 r
    have hmid (r : S.Resp o) : C.Stable i fun s => ∃ b, mid b r s := by
      intro j hj s s' hinv hinv' hguar hsome
      obtain ⟨b, hb⟩ := hsome
      exact ⟨b, (hnext b r).stable j hj s s' hinv hinv' hguar hb⟩
    refine .call (fun r s => ∃ b, mid b r s) hstable (fun s r s' hinv hsome hrun => ?_) fun r =>
      ih r (fun b => hnext b r) (hmid r)
    obtain ⟨b, hb⟩ := hsome
    obtain ⟨hinv', hguar, hafter⟩ := (Classical.choose_spec (hcall b)).1 s r s' hinv hb hrun
    exact ⟨hinv', hguar, b, hafter⟩

/-- The last operation of a program. -/
theorem of_call {o : S.Op} {post : S.Resp o → σ → Prop} {pre : σ → Prop} (hstable : C.Stable i pre)
    (hstep : ∀ s r s', C.inv s → pre s → sem i o s r s' → C.inv s' ∧ C.guar i s s' ∧ post r s')
    (hpost : ∀ r, C.Stable i (post r)) : Outline C sem i post pre (.call o .done) :=
  .call post hstable hstep fun r => .done (hpost r) fun _ _ h => h

end Outline

end Outlines

/-! ### Soundness -/

section Sound

variable {ι : Type} [DecidableEq ι] {S : Signature} {σ Req Res : Type}
variable {M : Machine ι S σ Req Res} {C : Contract ι σ} {post : Req → ι → Res → σ → Prop}

/-- The invariant holds, and every started thread is at a point of an outline
whose assertion holds. -/
structure Contract.Holds (C : Contract ι σ) (M : Machine ι S σ Req Res)
    (post : Req → ι → Res → σ → Prop) (cfg : Config ι S σ Req Res) : Prop where
  inv : C.inv cfg.shared
  idle : ∀ i, cfg.thread i = none → C.idle i cfg.shared
  started : ∀ i q p, cfg.thread i = some (q, p) →
    ∃ pre, Outline C M.sem i (post q i) pre p ∧ pre cfg.shared

/-- The programs of a machine keep a contract. -/
structure Contract.Kept (C : Contract ι σ) (M : Machine ι S σ Req Res)
    (post : Req → ι → Res → σ → Prop) : Prop where
  stable : ∀ i, C.Stable i (C.idle i)
  outline : ∀ q i, Outline C M.sem i (post q i) (C.idle i) (M.program q)

theorem Contract.Holds.step (hkept : C.Kept M post) {cfg cfg' : Config ι S σ Req Res}
    (h : C.Holds M post cfg) (hstep : M.Step cfg cfg') : C.Holds M post cfg' := by
  obtain ⟨hinv, hidle, hstarted⟩ := h
  cases hstep with
  | start i q hi =>
    refine ⟨hinv, fun j hj => ?_, fun j q' p hj => ?_⟩
    · by_cases hji : j = i
      · subst hji
        simp only [Function.update_self, reduceCtorEq] at hj
      · simp only [Function.update_of_ne hji] at hj
        exact hidle j hj
    · by_cases hji : j = i
      · subst hji
        simp only [Function.update_self, Option.some.injEq, Prod.mk.injEq] at hj
        obtain ⟨rfl, rfl⟩ := hj
        exact ⟨_, hkept.outline q j, hidle j hi⟩
      · simp only [Function.update_of_ne hji] at hj
        exact hstarted j q' p hj
  | @call i q o k r s' hat hsem =>
    obtain ⟨pre, hout, hpre⟩ := hstarted i q _ hat
    cases hout with
    | call mid _ hcall hnext =>
      obtain ⟨hinv', hguar, hmid⟩ := hcall _ r s' hinv hpre hsem
      refine ⟨hinv', fun j hj => ?_, fun j q' p hj => ?_⟩
      · by_cases hji : j = i
        · subst hji
          simp only [Function.update_self, reduceCtorEq] at hj
        · simp only [Function.update_of_ne hji] at hj
          exact hkept.stable j i (Ne.symm hji) _ _ hinv hinv' hguar (hidle j hj)
      · by_cases hji : j = i
        · subst hji
          simp only [Function.update_self, Option.some.injEq, Prod.mk.injEq] at hj
          obtain ⟨rfl, rfl⟩ := hj
          exact ⟨mid r, hnext r, hmid⟩
        · -- the others' assertions are stable under this thread's guarantee
          simp only [Function.update_of_ne hji] at hj
          obtain ⟨pre', hout', hpre'⟩ := hstarted j q' p hj
          exact ⟨pre', hout', hout'.stable i (Ne.symm hji) _ _ hinv hinv' hguar hpre'⟩

theorem Contract.holds {s₀ : σ} (hinit : C.inv s₀) (hidle : ∀ i, C.idle i s₀)
    (hkept : C.Kept M post) {cfg : Config ι S σ Req Res} (h : M.Reachable s₀ cfg) :
    C.Holds M post cfg := by
  induction h with
  | refl => exact ⟨hinit, fun i _ => hidle i, fun i q p hp => by cases hp⟩
  | tail _ hstep ih => exact ih.step hkept hstep

/-- **Rely-guarantee.** Where every program has an outline, the invariant holds
in every reachable configuration, and so does the postcondition of every
finished program. -/
theorem Contract.reachable {s₀ : σ} (hinit : C.inv s₀) (hidle : ∀ i, C.idle i s₀)
    (hkept : C.Kept M post) {cfg : Config ι S σ Req Res} (h : M.Reachable s₀ cfg) :
    C.inv cfg.shared ∧ (∀ i, cfg.thread i = none → C.idle i cfg.shared) ∧
      ∀ i q a, cfg.thread i = some (q, .done a) → post q i a cfg.shared := by
  have hholds := Contract.holds hinit hidle hkept h
  refine ⟨hholds.inv, hholds.idle, fun i q a ha => ?_⟩
  obtain ⟨pre, hout, hpre⟩ := hholds.started i q _ ha
  cases hout with
  | done _ hpost => exact hpost _ hholds.inv hpre

/-- What every thread guarantees of its steps holds between any two points of
an interleaving. -/
theorem Contract.monotone {s₀ : σ} {le : σ → σ → Prop} (hrefl : ∀ s, le s s)
    (htrans : ∀ s t u, le s t → le t u → le s u) (hle : ∀ i s s', C.guar i s s' → le s s')
    (hinit : C.inv s₀) (hidle : ∀ i, C.idle i s₀) (hkept : C.Kept M post)
    {cfg cfg' : Config ι S σ Req Res} (h : M.Reachable s₀ cfg) (h' : M.Steps cfg cfg') :
    le cfg.shared cfg'.shared := by
  induction h' with
  | refl => exact hrefl _
  | @tail mid last hmid hstep ih =>
    refine htrans _ _ _ ih ?_
    have hholds := Contract.holds hinit hidle hkept (h.trans hmid)
    cases hstep with
    | start => exact hrefl _
    | @call i q o k r s' hat hsem =>
      obtain ⟨pre, hout, hpre⟩ := hholds.started i q _ hat
      cases hout with
      | call _ _ hcall _ => exact hle i _ _ (hcall _ r s' hholds.inv hpre hsem).2.1

end Sound

/-! ### Fallible programs -/

/-- Calls that return a value or an error. -/
def Signature.fallible {Op : Type} (Val : Op → Type) (ε : Type) : Signature where
  Op := Op
  Resp o := Except ε (Val o)

/-- A program that may fail, of calls that may. -/
abbrev Fallible {Op : Type} (Val : Op → Type) (ε : Type) :=
  ExceptT ε (Prog (Signature.fallible Val ε))

namespace Fallible

variable {ι Op σ ε α β : Type} {Val : Op → Type}

/-- A fallible step without calls. -/
def check (x : Except ε α) : Fallible Val ε α := ExceptT.mk (.done x)

/-- One call. -/
def op (o : Op) : Fallible Val ε (Val o) := ExceptT.mk (.call o .done)

/-- `body` between two calls that take and release a lock; the lock is released
whether or not `body` fails. -/
def withLock (lock unlock : Op) (body : Fallible Val ε α) : Fallible Val ε α :=
  op lock >>= fun _ => ExceptT.mk (body.run >>= fun r => .call unlock fun _ => .done r)

theorem run_bind (x : Fallible Val ε α) (f : α → Fallible Val ε β) :
    (x >>= f).run = x.run >>= fun r =>
      match r with
      | .ok a => (f a).run
      | .error e => .done (.error e) := by
  simp only [ExceptT.run_bind]
  rfl

/-! ### A fallible program run alone -/

section Exec

variable (run : (o : Op) → σ → Option (Except ε (Val o) × σ))

def exec (x : Fallible Val ε α) (s : σ) : Option (Except ε α × σ) :=
  Prog.exec (S := Signature.fallible Val ε) run x.run s

variable {run}

@[simp] theorem exec_pure {a : α} {s : σ} : exec run (pure a : Fallible Val ε α) s = some (.ok a, s) := rfl

@[simp] theorem exec_check {x : Except ε α} {s : σ} :
    exec run (check x : Fallible Val ε α) s = some (x, s) := rfl

@[simp] theorem exec_op {o : Op} {s : σ} : exec run (op o) s = run o s := by
  have hrun : exec run (op o) s = (run o s).bind fun p => some p := rfl
  rw [hrun, Option.bind_fun_some]

theorem exec_bind {x : Fallible Val ε α} {f : α → Fallible Val ε β} {s : σ} :
    exec run (x >>= f) s = (exec run x s).bind fun (r, t) =>
      match r with
      | .ok a => exec run (f a) t
      | .error e => some (.error e, t) := by
  have hbind := congrArg (fun p => Prog.exec (S := Signature.fallible Val ε) run p s) (run_bind x f)
  refine (hbind.trans Prog.exec_bind).trans (Option.bind_congr fun (r, t) _ => ?_)
  cases r with
  | ok a => rfl
  | error e => rfl

theorem exec_map {x : Fallible Val ε α} {f : α → β} {s : σ} :
    exec run (f <$> x) s = (exec run x s).map fun (r, t) => (r.map f, t) := by
  have hsame : exec run (f <$> x) s = Prog.exec (S := Signature.fallible Val ε) run
      (x.run >>= fun r => .done (r.map f)) s := by
    unfold exec
    congr 1
    change (x.run >>= _) = (x.run >>= _)
    congr 1
    funext r
    cases r <;> rfl
  refine (hsame.trans Prog.exec_bind).trans ?_
  rw [Option.map_eq_bind]
  rfl

/-- A call whose outcome is known comes first. -/
theorem exec_op_bind {o : Op} {a : Val o} {f : Val o → Fallible Val ε β} {s t : σ}
    (h : run o s = some (.ok a, t)) : exec run (op o >>= f) s = exec run (f a) t := by
  rw [exec_bind, exec_op, h, Option.bind_some]

/-- A check comes first. -/
theorem exec_check_bind {x : Except ε α} {f : α → Fallible Val ε β} {s : σ} :
    exec run (check x >>= f) s =
      match x with
      | .ok a => exec run (f a) s
      | .error e => some (.error e, s) := by
  rw [exec_bind, exec_check]
  rfl

/-- A body under a lock: the lock is released whether or not it fails. -/
theorem exec_withLock {lock unlock : Op} {body : Fallible Val ε α} {s : σ} :
    exec run (withLock lock unlock body) s = (run lock s).bind fun (r, t) =>
      match r with
      | .ok _ => (exec run body t).bind fun (out, u) => (run unlock u).map fun (_, v) => (out, v)
      | .error e => some (.error e, t) := by
  rw [withLock, exec_bind, exec_op]
  refine Option.bind_congr fun (r, t) _ => ?_
  cases r with
  | error e => rfl
  | ok a =>
    have hrest : exec run (ExceptT.mk (body.run >>= fun r => .call unlock fun _ => .done r)) t =
        (exec run body t).bind fun (out, u) =>
          (run unlock u).bind fun (_, v) => some (out, v) := Prog.exec_bind
    refine hrest.trans (Option.bind_congr fun (out, u) _ => ?_)
    exact (Option.map_eq_bind (x := run unlock u)).symm

/-- A program whose calls all return returns. -/
theorem exec_total (hrun : ∀ o s, ∃ out, run o s = some out) (x : Fallible Val ε α) (s : σ) :
    ∃ r t, exec run x s = some (r, t) := by
  have hprog : ∀ (p : Prog (Signature.fallible Val ε) (Except ε α)) (s : σ), ∃ r t, p.exec run s = some (r, t) := by
    intro p
    induction p with
    | done a => exact fun s => ⟨a, s, rfl⟩
    | call o k ih =>
      intro s
      obtain ⟨⟨r, t⟩, hout⟩ := hrun o s
      obtain ⟨r', t', hrest⟩ := ih r t
      have hcall : (Prog.call o k).exec run s = (run o s).bind fun (r, t) => (k r).exec run t := rfl
      exact ⟨r', t', by rw [hcall, hout]; exact hrest⟩
  exact hprog x.run s

/-- Whatever the program returns when it runs alone satisfies `Q`. -/
def Meets (run : (o : Op) → σ → Option (Except ε (Val o) × σ)) (x : Fallible Val ε α) (s : σ)
    (Q : Except ε α → σ → Prop) : Prop :=
  ∀ r s', exec run x s = some (r, s') → Q r s'

namespace Meets

variable {x : Fallible Val ε α} {f : α → Fallible Val ε β} {s t : σ} {Q : Except ε α → σ → Prop}
  {R : Except ε β → σ → Prop}

theorem weaken {Q' : Except ε α → σ → Prop} (h : Meets run x s Q) (himp : ∀ r s', Q r s' → Q' r s') :
    Meets run x s Q' := fun r s' hexec => himp r s' (h r s' hexec)

theorem pure {a : α} (h : Q (.ok a) s) : Meets run (Pure.pure a : Fallible Val ε α) s Q := by
  intro r s' hexec
  cases hexec
  exact h

theorem throw {e : ε} (h : Q (.error e) s) :
    Meets run (MonadExcept.throw e : Fallible Val ε α) s Q := by
  intro r s' hexec
  cases hexec
  exact h

theorem check {a : Except ε α} (h : Q a s) : Meets run (Fallible.check a : Fallible Val ε α) s Q := by
  intro r s' hexec
  cases hexec
  exact h

theorem bind {P : Except ε α → σ → Prop} (hx : Meets run x s P)
    (herr : ∀ e s', P (.error e) s' → R (.error e) s')
    (hf : ∀ a s', P (.ok a) s' → Meets run (f a) s' R) : Meets run (x >>= f) s R := by
  intro r s' hexec
  rw [exec_bind, Option.bind_eq_some_iff] at hexec
  obtain ⟨⟨out, mid⟩, hfirst, hrest⟩ := hexec
  have hP := hx out mid hfirst
  cases out with
  | ok a => exact hf a mid hP r s' hrest
  | error e =>
    cases hrest
    exact herr e s' hP

theorem check_bind {a : Except ε α} (herr : ∀ e, a = .error e → R (.error e) s)
    (hf : ∀ b, a = .ok b → Meets run (f b) s R) : Meets run (Fallible.check a >>= f) s R := by
  refine bind (P := fun r s' => r = a ∧ s' = s) (check ⟨rfl, rfl⟩) ?_ ?_
  · intro e s' h
    obtain ⟨ha, rfl⟩ := h
    exact herr e ha.symm
  · intro b s' h
    obtain ⟨hb, rfl⟩ := h
    exact hf b hb.symm

/-- A check that is known to succeed. -/
theorem check_ok {a : Except ε α} {b : α} (ha : a = .ok b) (hf : Meets run (f b) s R) :
    Meets run (Fallible.check a >>= f) s R := by
  subst ha
  refine check_bind (fun e he => nomatch he) fun b' hb => ?_
  cases hb
  exact hf

/-- A call whose outcome is known. -/
theorem op {o : Op} {a : Except ε (Val o)} {Q : Except ε (Val o) → σ → Prop} (hrun : run o s = some (a, t))
    (h : Q a t) : Meets run (Fallible.op o : Fallible Val ε (Val o)) s Q := by
  intro r s' hexec
  rw [exec_op, hrun] at hexec
  cases hexec
  exact h

theorem op_bind {o : Op} {a : Val o} {f : Val o → Fallible Val ε β} (hrun : run o s = some (.ok a, t))
    (hf : Meets run (f a) t R) : Meets run (Fallible.op o >>= f) s R := by
  refine bind (P := fun r s' => r = .ok a ∧ s' = t) (op hrun ⟨rfl, rfl⟩) ?_ ?_
  · intro e s' h
    cases h.1
  · intro b s' h
    obtain ⟨hb, rfl⟩ := h
    cases hb
    exact hf

theorem withLock {lock unlock : Op} {a : Val lock} {P : Except ε α → σ → Prop}
    (hlock : run lock s = some (.ok a, t)) (hbody : Meets run x t P)
    (hunlock : ∀ out u r v, P out u → run unlock u = some (r, v) → Q out v) :
    Meets run (Fallible.withLock lock unlock x) s Q := by
  intro r s' hexec
  rw [exec_withLock, hlock, Option.bind_some] at hexec
  dsimp only at hexec
  obtain ⟨⟨out, u⟩, hout, hrest⟩ := Option.bind_eq_some_iff.mp hexec
  obtain ⟨⟨r', v⟩, hcall, heq⟩ := Option.map_eq_some_iff.mp hrest
  cases heq
  exact hunlock out u r' v (hbody out u hout) hcall

end Meets

end Exec

/-- On success `post`, on failure `err`. -/
def Ends (err : σ → Prop) (post : α → σ → Prop) (r : Except ε α) (s : σ) : Prop :=
  match r with
  | .ok a => post a s
  | .error _ => err s

/-- The outline of a fallible program. -/
def Outlined (C : Contract ι σ) (sem : ι → (o : Op) → σ → Except ε (Val o) → σ → Prop) (i : ι)
    (err : σ → Prop) (pre : σ → Prop) (x : Fallible Val ε α) (post : α → σ → Prop) : Prop :=
  Outline C sem i (Ends err post) pre x.run

namespace Outlined

variable {C : Contract ι σ} {sem : ι → (o : Op) → σ → Except ε (Val o) → σ → Prop} {i : ι}
  {err pre pre' : σ → Prop} {post : α → σ → Prop}

theorem stable {x : Fallible Val ε α} (h : Outlined C sem i err pre x post) : C.Stable i pre :=
  Outline.stable h

theorem weaken {x : Fallible Val ε α} (h : Outlined C sem i err pre x post)
    (hstable : C.Stable i pre') (himp : ∀ s, C.inv s → pre' s → pre s) :
    Outlined C sem i err pre' x post :=
  Outline.weaken h hstable himp

/-- What is not needed further may be dropped. -/
theorem left {x : Fallible Val ε α} (h : Outlined C sem i err pre x post) (hstable : C.Stable i pre') :
    Outlined C sem i err (fun s => pre s ∧ pre' s) x post :=
  weaken h (h.stable.and hstable) fun _ _ hs => hs.1

theorem right {x : Fallible Val ε α} (h : Outlined C sem i err pre x post) (hstable : C.Stable i pre') :
    Outlined C sem i err (fun s => pre' s ∧ pre s) x post :=
  weaken h (hstable.and h.stable) fun _ _ hs => hs.2

theorem weaken_post {x : Fallible Val ε α} {post' : α → σ → Prop}
    (h : Outlined C sem i err pre x post) (himp : ∀ a s, C.inv s → post a s → post' a s) :
    Outlined C sem i err pre x post' := by
  refine Outline.weaken_post h fun r s hs hr => ?_
  cases r with
  | ok a => exact himp a s hs hr
  | error e => exact hr

theorem bind {x : Fallible Val ε β} {f : β → Fallible Val ε α} {mid : β → σ → Prop}
    (hx : Outlined C sem i err pre x mid) (herr : C.Stable i err)
    (hf : ∀ b, Outlined C sem i err (mid b) (f b) post) :
    Outlined C sem i err pre (x >>= f) post := by
  unfold Outlined
  rw [run_bind]
  refine Outline.bind hx fun r => ?_
  cases r with
  | ok b => exact hf b
  | error e => exact .done herr fun _ _ h => h

theorem pure {a : α} (hstable : C.Stable i pre) (h : ∀ s, C.inv s → pre s → post a s) :
    Outlined C sem i err pre (Pure.pure a : Fallible Val ε α) post := .done hstable h

theorem check {x : Except ε α} (hstable : C.Stable i pre) (herr : ∀ s, C.inv s → pre s → err s)
    (h : ∀ a, x = .ok a → ∀ s, C.inv s → pre s → post a s) :
    Outlined C sem i err pre (Fallible.check x : Fallible Val ε α) post := by
  refine .done hstable fun s hs hp => ?_
  cases hx : x with
  | ok a => exact h a hx s hs hp
  | error e => exact herr s hs hp

theorem check_bind {x : Except ε β} {f : β → Fallible Val ε α} (hstable : C.Stable i pre)
    (herr : ∀ s, C.inv s → pre s → err s)
    (h : ∀ b, x = .ok b → Outlined C sem i err pre (f b) post) :
    Outlined C sem i err pre (Fallible.check x >>= f) post := by
  cases x with
  | ok b => exact h b rfl
  | error e => exact .done hstable herr

/-- A check either of whose outcomes says something. -/
theorem check_cases {x : Except ε β} {f : β → Fallible Val ε α} (hstable : C.Stable i pre)
    (herr : ∀ e, x = .error e → ∀ s, C.inv s → pre s → err s)
    (h : ∀ b, x = .ok b → Outlined C sem i err pre (f b) post) :
    Outlined C sem i err pre (Fallible.check x >>= f) post := by
  cases x with
  | ok b => exact h b rfl
  | error e => exact .done hstable (herr e rfl)

/-- A check that is known to succeed. -/
theorem check_ok {x : Except ε β} {b : β} {f : β → Fallible Val ε α} (hx : x = .ok b)
    (h : Outlined C sem i err pre (f b) post) :
    Outlined C sem i err pre (Fallible.check x >>= f) post := by
  subst hx
  exact h

theorem check_ok_last {x : Except ε α} {a : α} (hx : x = .ok a) (hstable : C.Stable i pre)
    (h : ∀ s, C.inv s → pre s → post a s) :
    Outlined C sem i err pre (Fallible.check x : Fallible Val ε α) post := by
  subst hx
  exact .done hstable h

theorem assume {x : Fallible Val ε α} {φ : Prop} (hstable : C.Stable i pre)
    (hφ : ∀ s, C.inv s → pre s → φ) (h : φ → Outlined C sem i err pre x post) :
    Outlined C sem i err pre x post := Outline.assume hstable hφ h

theorem op {o : Op} {post : Val o → σ → Prop} (hstable : C.Stable i pre)
    (hstep : ∀ s r s', C.inv s → pre s → sem i o s r s' →
      C.inv s' ∧ C.guar i s s' ∧ Ends err post r s')
    (hpost : ∀ a, C.Stable i (post a)) (herr : C.Stable i err) :
    Outlined C sem i err pre (Fallible.op o : Fallible Val ε (Val o)) post := by
  refine Outline.of_call hstable hstep fun r => ?_
  cases r with
  | ok a => exact hpost a
  | error e => exact herr

theorem op_bind {o : Op} {f : Val o → Fallible Val ε α} {mid : Val o → σ → Prop}
    (hstable : C.Stable i pre)
    (hstep : ∀ s r s', C.inv s → pre s → sem i o s r s' →
      C.inv s' ∧ C.guar i s s' ∧ Ends err mid r s')
    (herr : C.Stable i err) (hf : ∀ a, Outlined C sem i err (mid a) (f a) post) :
    Outlined C sem i err pre (Fallible.op o >>= f) post :=
  bind (op hstable hstep (fun a => (hf a).stable) herr) herr hf

theorem throw {e : ε} (hstable : C.Stable i pre) (herr : ∀ s, C.inv s → pre s → err s) :
    Outlined C sem i err pre (MonadExcept.throw e : Fallible Val ε α) post := .done hstable herr

theorem map {x : Fallible Val ε β} {f : β → α} {mid : β → σ → Prop}
    (hx : Outlined C sem i err pre x mid) (herr : C.Stable i err)
    (hpost : ∀ b, C.Stable i (mid b)) (h : ∀ b s, C.inv s → mid b s → post (f b) s) :
    Outlined C sem i err pre (f <$> x) post := by
  refine Outline.bind (p := x.run) hx fun r => ?_
  cases r with
  | ok b => exact .done (hpost b) (h b)
  | error e => exact .done herr fun _ _ h => h

/-- Errors put into other words. -/
theorem adapt {x : Fallible Val ε α} (g : ε → ε) (hx : Outlined C sem i err pre x post)
    (herr : C.Stable i err) (hpost : ∀ a, C.Stable i (post a)) :
    Outlined C sem i err pre (ExceptT.adapt g x : Fallible Val ε α) post := by
  refine Outline.bind (p := x.run) hx fun r => ?_
  cases r with
  | ok a => exact .done (hpost a) fun _ _ h => h
  | error e => exact .done herr fun _ _ h => h

/-- A body under a lock: the lock is held before it, and given back after it,
failed or not. -/
theorem withLock {lock unlock : Op} {body : Fallible Val ε α} {held held' : σ → Prop}
    {inside : α → σ → Prop} (hstable : C.Stable i pre) (herr : C.Stable i err)
    (hlock : ∀ s r s', C.inv s → pre s → sem i lock s r s' →
      C.inv s' ∧ C.guar i s s' ∧ Ends err (fun _ => held) r s')
    (hbody : Outlined C sem i held' held body inside)
    (hunlock : ∀ (out : Except ε α) s r s', C.inv s → Ends held' inside out s →
      sem i unlock s r s' → C.inv s' ∧ C.guar i s s' ∧ Ends err post out s')
    (hin : ∀ out : Except ε α, C.Stable i (Ends held' inside out))
    (hout : ∀ out : Except ε α, C.Stable i (Ends err post out)) :
    Outlined C sem i err pre (Fallible.withLock lock unlock body) post := by
  refine op_bind hstable hlock herr fun _ => ?_
  refine Outline.bind hbody fun r => ?_
  exact .call (fun _ => Ends err post r) (hin r) (fun s r' s' hs hp hsem => hunlock r s r' s' hs hp hsem)
    fun _ => .done (hout r) fun _ _ h => h

end Outlined

end Fallible

end RustSync
