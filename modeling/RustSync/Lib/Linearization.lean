/-
Linearization points

A sequential object allows some histories (`Legal`). A concurrent program
implements it when every thread commits, by one of its calls, to one event of
such a history: the call is its linearization point. A logged machine lists
what its calls commit to and by whom (`Machine.logged`); which event a call
commits to is told by the request, the answer and the states around the call.
The log is a ghost: nothing reads it, and a logged run is a run of the machine
beside a log (`Machine.Reachable.unlogged`, `Machine.Steps.logged`).

`committed` turns a contract of the shared state into one that also keeps the
log legal. `Outline.logged` carries an outline over where every call does what
it commits to, `Outline.quiet` where it commits to nothing, and
`Outlined.commit` is the rule for one call.

Key definitions: `Legal`, `Machine.logged`, `committed`, `Own`.
-/
import Mathlib.Data.List.Induction
import RustSync.Lib.Embedding

namespace RustSync

/-- The histories a sequential object allows, and where they lead. -/
inductive Legal {Ev St : Type} (step : St → Ev → St → Prop) (s₀ : St) : List Ev → St → Prop
  | nil : Legal step s₀ [] s₀
  | snoc {log : List Ev} {s s' : St} {e : Ev} (h : Legal step s₀ log s) (hstep : step s e s') :
      Legal step s₀ (log ++ [e]) s'

/-- The last event of a history, and the history before it. -/
theorem Legal.snoc_inv {Ev St : Type} {step : St → Ev → St → Prop} {s₀ s' : St} {log : List Ev} {e : Ev}
    (h : Legal step s₀ (log ++ [e]) s') : ∃ s, Legal step s₀ log s ∧ step s e s' := by
  generalize hall : log ++ [e] = all at h
  cases h with
  | nil => exact absurd hall (by simp)
  | snoc hfront hstep =>
    obtain ⟨rfl, hlast⟩ := List.append_inj' hall rfl
    cases hlast
    exact ⟨_, hfront, hstep⟩

/-- A history goes through where its front leads. -/
theorem Legal.split {Ev St : Type} {step : St → Ev → St → Prop} {s₀ s' : St} {front rest : List Ev}
    (h : Legal step s₀ (front ++ rest) s') : ∃ s, Legal step s₀ front s ∧ Legal step s rest s' := by
  induction rest using List.reverseRecOn generalizing s' with
  | nil =>
    rw [List.append_nil] at h
    exact ⟨s', h, .nil⟩
  | append_singleton rest e ih =>
    rw [← List.append_assoc] at h
    obtain ⟨mid, hmid, hstep⟩ := h.snoc_inv
    obtain ⟨s, hfront, hrest⟩ := ih hmid
    exact ⟨s, hfront, hrest.snoc hstep⟩

/-- The log of an interleaving. -/
abbrev Log (ι Ev : Type) := List (ι × Ev)

namespace Log

variable {ι Ev : Type} [DecidableEq ι]

/-- What a thread committed. -/
def eventsOf (i : ι) (log : Log ι Ev) : List Ev := (log.filter fun e => e.1 = i).map Prod.snd

@[simp] theorem eventsOf_append (i : ι) (log new : Log ι Ev) :
    eventsOf i (log ++ new) = eventsOf i log ++ eventsOf i new := by
  simp [eventsOf]

/-- What one thread appends is its own. -/
theorem eventsOf_own (i : ι) (events : List Ev) :
    eventsOf i (events.map fun e => (i, e)) = events := by
  induction events with
  | nil => rfl
  | cons e events ih => simpa [eventsOf] using ih

theorem eventsOf_other {i j : ι} (h : i ≠ j) (events : List Ev) :
    eventsOf j (events.map fun e => (i, e)) = [] := by
  simp [eventsOf, List.filter_eq_nil_iff, h]

end Log

/-- A call, and the event it commits to: by the state before it, its answer and
the state after it. -/
structure Committing (σ : Type) {Op : Type} (Val : Op → Type) (ε Ev : Type) where
  op : Op
  event : σ → Except ε (Val op) → σ → Option Ev

def Committing.Val {σ Op ε Ev : Type} {Val : Op → Type} (o : Committing σ Val ε Ev) : Type := Val o.op

/-- Calls that may commit. -/
abbrev Signature.linearized (σ : Type) {Op : Type} (Val : Op → Type) (ε Ev : Type) : Signature :=
  @Signature.fallible (Committing σ Val ε Ev) Committing.Val ε

section Committed

variable {ι Op σ ε Ev St Req Res α : Type} {Val : Op → Type}

/-- Calls with the events they commit to. -/
def committing (event : (o : Op) → σ → Except ε (Val o) → σ → Option Ev) :
    (Signature.fallible Val ε).Embedding (Signature.linearized σ Val ε Ev) where
  op o := ⟨o, event o⟩
  resp _ r := r

/-- A call on the shared state and the log. -/
def commits (sem : ι → (o : Op) → σ → Except ε (Val o) → σ → Prop) (i : ι)
    (o : Committing σ Val ε Ev) (s : σ × Log ι Ev) (r : Except ε o.Val) (s' : σ × Log ι Ev) : Prop :=
  sem i o.op s.1 r s'.1 ∧ s'.2 = s.2 ++ (o.event s.1 r s'.1).toList.map fun e => (i, e)

/-- The machine with a log of what the calls of each request commit to. -/
def Machine.logged (M : Machine ι (Signature.fallible Val ε) σ Req Res)
    (event : Req → (o : Op) → σ → Except ε (Val o) → σ → Option Ev) :
    Machine ι (Signature.linearized σ Val ε Ev) (σ × Log ι Ev) Req Res where
  sem := commits M.sem
  program q := (M.program q).lift (committing (event q))

/-- Calls run on the shared state and the log. -/
def commitsBy (run : ι → (o : Op) → σ → Option (Except ε (Val o) × σ)) (i : ι) (o : Committing σ Val ε Ev)
    (s : σ × Log ι Ev) : Option (Except ε o.Val × (σ × Log ι Ev)) :=
  (run i o.op s.1).map fun (r, s') => (r, (s', s.2 ++ (o.event s.1 r s').toList.map fun e => (i, e)))

theorem commits_of_commitsBy {run : ι → (o : Op) → σ → Option (Except ε (Val o) × σ)}
    {sem : ι → (o : Op) → σ → Except ε (Val o) → σ → Prop}
    (hrun : ∀ i o s r s', run i o s = some (r, s') → sem i o s r s') {i : ι} {o : Committing σ Val ε Ev}
    {s s' : σ × Log ι Ev} {r : Except ε o.Val} (h : commitsBy run i o s = some (r, s')) :
    commits sem i o s r s' := by
  obtain ⟨⟨r', t⟩, hcall, heq⟩ := Option.map_eq_some_iff.mp h
  obtain ⟨rfl, rfl⟩ := Prod.mk.inj heq
  exact ⟨hrun i o.op s.1 _ t hcall, rfl⟩

variable [DecidableEq ι]

/-! ### The log is a ghost -/

/-- A configuration with a log. -/
def Config.withLog (event : Req → (o : Op) → σ → Except ε (Val o) → σ → Option Ev) (log : Log ι Ev)
    (cfg : Config ι (Signature.fallible Val ε) σ Req Res) :
    Config ι (Signature.linearized σ Val ε Ev) (σ × Log ι Ev) Req Res where
  shared := (cfg.shared, log)
  thread i := (cfg.thread i).map fun (q, p) => (q, p.lift (committing (event q)))

section Ghost

variable {M : Machine ι (Signature.fallible Val ε) σ Req Res}
  {event : Req → (o : Op) → σ → Except ε (Val o) → σ → Option Ev}
  {cfg cfg' : Config ι (Signature.fallible Val ε) σ Req Res}

theorem Config.withLog_update {log : Log ι Ev} {i : ι} {q : Req} {p : Prog (Signature.fallible Val ε) Res}
    {s : σ} {thread : ι → Option (Req × Prog (Signature.fallible Val ε) Res)} :
    Config.withLog event log ⟨s, Function.update thread i (some (q, p))⟩ =
      ⟨(s, log), Function.update (Config.withLog event log ⟨s, thread⟩).thread i
        (some (q, p.lift (committing (event q))))⟩ := by
  unfold Config.withLog
  congr 1
  funext j
  by_cases hj : j = i
  · subst hj
    simp only [Function.update_self, Option.map_some]
  · simp only [Function.update_of_ne hj]

/-- A step of the machine is one of the logged machine. -/
theorem Machine.Step.logged (event : Req → (o : Op) → σ → Except ε (Val o) → σ → Option Ev) (log : Log ι Ev)
    (h : M.Step cfg cfg') :
    ∃ log', (M.logged event).Step (cfg.withLog event log) (cfg'.withLog event log') := by
  cases h with
  | start i q hidle =>
    refine ⟨log, ?_⟩
    rw [Config.withLog_update]
    exact .start i q (by simp [Config.withLog, hidle])
  | @call i q o k r s' hat hsem =>
    refine ⟨log ++ (event q o cfg.shared r s').toList.map fun e => (i, e), ?_⟩
    rw [Config.withLog_update]
    have hthread : (cfg.withLog event log).thread i =
        some (q, .call ⟨o, event q o⟩ fun r => (k r).lift (committing (event q))) := by
      simp only [Config.withLog, hat, Option.map_some]
      rfl
    exact .call hthread ⟨hsem, rfl⟩

theorem Machine.Steps.logged (event : Req → (o : Op) → σ → Except ε (Val o) → σ → Option Ev) (log : Log ι Ev)
    (h : M.Steps cfg cfg') :
    ∃ log', (M.logged event).Steps (cfg.withLog event log) (cfg'.withLog event log') := by
  induction h with
  | refl => exact ⟨log, .refl⟩
  | tail _ hstep ih =>
    obtain ⟨mid, hmid⟩ := ih
    obtain ⟨log', hlog'⟩ := hstep.logged event mid
    exact ⟨log', hmid.tail hlog'⟩

/-- A logged run is a run of the machine beside a log. -/
theorem Machine.Reachable.unlogged {s₀ : σ} {log₀ : Log ι Ev}
    {lcfg : Config ι (Signature.linearized σ Val ε Ev) (σ × Log ι Ev) Req Res}
    (h : (M.logged event).Reachable (s₀, log₀) lcfg) :
    ∃ cfg log, M.Reachable s₀ cfg ∧ lcfg = cfg.withLog event log := by
  induction h with
  | refl => exact ⟨⟨s₀, fun _ => none⟩, log₀, .refl, rfl⟩
  | tail _ hstep ih =>
    obtain ⟨cfg, log, hreach, rfl⟩ := ih
    cases hstep with
    | start i q hidle =>
      have hidle' : cfg.thread i = none := Option.map_eq_none_iff.mp hidle
      exact ⟨_, log, hreach.tail (.start i q hidle'), Config.withLog_update.symm⟩
    | @call i q o k r s' hat hsem =>
      obtain ⟨⟨q', p⟩, hp, heq⟩ := Option.map_eq_some_iff.mp hat
      cases p with
      | done a => cases heq
      | call o' k' =>
        cases heq
        have hstep : M.Step cfg ⟨s'.1, Function.update cfg.thread i (some (q, k' r))⟩ := .call hp hsem.1
        refine ⟨_, s'.2, hreach.tail hstep, ?_⟩
        rw [Config.withLog_update]
        rfl

end Ghost

/-! ### Keeping the log -/

/-- A contract that also keeps the log: a legal history of the object `abs`
makes of the shared state, from `s₀`. -/
def committed (C : Contract ι σ) (step : St → Ev → St → Prop) (abs : σ → St) (s₀ : St) :
    Contract ι (σ × Log ι Ev) where
  inv s := C.inv s.1 ∧ Legal step s₀ (s.2.map Prod.snd) (abs s.1)
  guar i s s' := C.guar i s.1 s'.1 ∧ ∃ events : List Ev, s'.2 = s.2 ++ events.map fun e => (i, e)
  idle i s := Log.eventsOf i s.2 = []

/-- The shared state satisfies `P`, and the thread committed `events`. -/
def Own (i : ι) (events : List Ev) (P : σ → Prop) (s : σ × Log ι Ev) : Prop :=
  P s.1 ∧ Log.eventsOf i s.2 = events

/-- What a call does to the object: nothing, or the event it commits to. -/
def Commits (step : St → Ev → St → Prop) (s : St) (event : Option Ev) (s' : St) : Prop :=
  match event with
  | none => s' = s
  | some e => step s e s'

variable {C : Contract ι σ} {step : St → Ev → St → Prop} {abs : σ → St} {s₀ : St} {i : ι}

theorem committed_covers : (committed C step abs s₀).Covers C Prod.fst :=
  ⟨fun _ h => h.1, fun _ _ _ h => h.1⟩

theorem stable_own {events : List Ev} {P : σ → Prop} (hP : C.Stable i P) :
    (committed C step abs s₀).Stable i (Own i events P) := by
  intro j hj s s' hinv hinv' hguar hown
  obtain ⟨new, hnew⟩ := hguar.2
  refine ⟨hP j hj _ _ hinv.1 hinv'.1 hguar.1 hown.1, ?_⟩
  rw [hnew, Log.eventsOf_append, Log.eventsOf_other hj, List.append_nil]
  exact hown.2

theorem stable_idle : (committed C step abs s₀).Stable i ((committed C step abs s₀).idle i) := by
  intro j hj s s' _ _ hguar hidle
  obtain ⟨new, hnew⟩ := hguar.2
  have hother : Log.eventsOf i s'.2 = Log.eventsOf i s.2 ++ [] := by
    rw [hnew, Log.eventsOf_append, Log.eventsOf_other hj]
  rw [List.append_nil] at hother
  exact hother.trans hidle

variable {sem : ι → (o : Op) → σ → Except ε (Val o) → σ → Prop}

/-- A call that keeps the contract and does what it commits to keeps the log. -/
theorem committed_step {o : Committing σ Val ε Ev} {s s' : σ × Log ι Ev} {r : Except ε o.Val}
    (hinv : (committed C step abs s₀).inv s) (hcall : commits sem i o s r s') (hinv' : C.inv s'.1)
    (hguar : C.guar i s.1 s'.1) (hcommits : Commits step (abs s.1) (o.event s.1 r s'.1) (abs s'.1)) :
    (committed C step abs s₀).inv s' ∧ (committed C step abs s₀).guar i s s' ∧
      Log.eventsOf i s'.2 = Log.eventsOf i s.2 ++ (o.event s.1 r s'.1).toList := by
  have hlog := hcall.2
  refine ⟨⟨hinv', ?_⟩, ⟨hguar, _, hlog⟩, ?_⟩
  · rw [hlog]
    unfold Commits at hcommits
    cases hevent : o.event s.1 r s'.1 with
    | none =>
      rw [hevent] at hcommits
      have hlegal := hinv.2
      rw [← hcommits] at hlegal
      simpa using hlegal
    | some e =>
      rw [hevent] at hcommits
      simpa using hinv.2.snoc hcommits
  · rw [hlog, Log.eventsOf_append, Log.eventsOf_own]

variable {event : (o : Op) → σ → Except ε (Val o) → σ → Option Ev} {post : α → σ → Prop} {pre : σ → Prop}
  {p : Prog (Signature.fallible Val ε) α}

/-- An outline beside the log, where every call of the kind `P` does what it
commits to. -/
theorem Outline.logged {P : Op → Prop} (hcommits : ∀ o s r s', P o → C.inv s → C.inv s' → C.guar i s s' →
      sem i o s r s' → Commits step (abs s) (event o s r s') (abs s')) (hp : p.Calls P)
    (h : Outline C sem i post pre p) :
    Outline (committed C step abs s₀) (commits sem) i (fun a s => post a s.1) (fun s => pre s.1)
      (p.lift (committing event)) := by
  refine Outline.embed_calls (e := committing event) committed_covers
    (fun o s r s' ho hinv hcall => ⟨hcall.1, fun hinv' hguar => ?_⟩) hp h
  have hstep := committed_step hinv hcall hinv' hguar (hcommits o _ r _ ho hinv.1 hinv' hguar hcall.1)
  exact ⟨hstep.1, hstep.2.1⟩

/-- An outline beside the log, where no call of the kind `P` commits to
anything. -/
theorem Outline.quiet {P : Op → Prop} {events : List Ev} (hquiet : ∀ o s r s', P o → C.inv s → sem i o s r s' →
      event o s r s' = none ∧ abs s' = abs s) (hp : p.Calls P) (h : Outline C sem i post pre p) :
    Outline (committed C step abs s₀) (commits sem) i (fun a => Own i events (post a)) (Own i events pre)
      (p.lift (committing event)) := by
  have hevents : (committed C step abs s₀).Stable i fun s => Log.eventsOf i s.2 = events := by
    intro j hj s s' hinv hinv' hguar hown
    exact (stable_own (Contract.stable_true (C := C)) j hj s s' hinv hinv' hguar ⟨trivial, hown⟩).2
  have hstep (o : Op) (s : σ × Log ι Ev) (r : Except ε (Val o)) (s' : σ × Log ι Ev) (ho : P o)
      (hinv : (committed C step abs s₀).inv s) (hown : Log.eventsOf i s.2 = events)
      (hcall : commits sem i ((committing event).op o) s r s') : sem i o s.1 r s'.1 ∧ (C.inv s'.1 →
        C.guar i s.1 s'.1 → (committed C step abs s₀).inv s' ∧ (committed C step abs s₀).guar i s s' ∧
          Log.eventsOf i s'.2 = events) := by
    refine ⟨hcall.1, fun hinv' hguar => ?_⟩
    obtain ⟨hnone, habs⟩ := hquiet o s.1 r s'.1 ho hinv.1 hcall.1
    have hevent : ((committing event).op o).event s.1 r s'.1 = none := hnone
    have hkept := committed_step hinv hcall hinv' hguar (by rw [hevent]; exact habs)
    rw [hevent, Option.toList_none, List.append_nil] at hkept
    exact ⟨hkept.1, hkept.2.1, hkept.2.2.trans hown⟩
  exact Outline.embed committed_covers hevents hstep hp h

namespace Fallible

@[simp] theorem lift_op {o : Op} : lift (committing event) (op o : Fallible Val ε (Val o)) =
    op (⟨o, event o⟩ : Committing σ Val ε Ev) := rfl

@[simp] theorem lift_withLock {lock unlock : Op} {body : Fallible Val ε α} :
    lift (committing event) (withLock lock unlock body) =
      withLock (⟨lock, event lock⟩ : Committing σ Val ε Ev) ⟨unlock, event unlock⟩
        (lift (committing event) body) := by
  unfold withLock
  rw [lift_bind]
  refine congrArg _ (funext fun _ => ExceptT.ext ?_)
  exact Prog.lift_bind

namespace Outlined

variable {events : List Ev} {P : σ → Prop} {err : σ × Log ι Ev → Prop} {Q : α → σ × Log ι Ev → Prop}

/-- A call that succeeds, keeps the contract of the shared state and does what
it commits to: `commit` of its answer. -/
theorem commit {o : Op} (commit : Val o → Option Ev) (mid : Val o → σ → Prop)
    {f : Val o → Fallible Val ε α} (hP : C.Stable i P)
    (hstep : ∀ s r s', C.inv s → P s → sem i o s r s' → C.inv s' ∧ C.guar i s s' ∧ ∃ a, r = .ok a ∧
      event o s r s' = commit a ∧ Commits step (abs s) (commit a) (abs s') ∧ mid a s')
    (hf : ∀ a, Outlined (committed C step abs s₀) (commits sem) i err
      (Own i (events ++ (commit a).toList) (mid a)) (lift (committing event) (f a)) Q)
    (herr : (committed C step abs s₀).Stable i err) :
    Outlined (committed C step abs s₀) (commits sem) i err (Own i events P)
      (lift (committing event) (Fallible.op o >>= f)) Q := by
  rw [Fallible.lift_bind, lift_op]
  refine op_bind (stable_own hP) (fun s r s' hinv hown hcall => ?_) herr hf
  obtain ⟨hinv', hguar, a, rfl, hevent, hcommits, hmid⟩ := hstep _ _ _ hinv.1 hown.1 hcall.1
  have hdoes : Commits step (abs s.1) (event o s.1 (.ok a) s'.1) (abs s'.1) := by
    rw [hevent]
    exact hcommits
  obtain ⟨hkept, hguar', hevents⟩ := committed_step hinv hcall hinv' hguar hdoes
  refine ⟨hkept, hguar', hmid, ?_⟩
  rw [hevents, hown.2]
  exact congrArg (events ++ Option.toList ·) hevent

/-- A call that commits to nothing. -/
theorem silent {o : Op} (mid : Val o → σ → Prop) {f : Val o → Fallible Val ε α} (hP : C.Stable i P)
    (hstep : ∀ s r s', C.inv s → P s → sem i o s r s' → C.inv s' ∧ C.guar i s s' ∧ ∃ a, r = .ok a ∧
      event o s r s' = none ∧ abs s' = abs s ∧ mid a s')
    (hf : ∀ a, Outlined (committed C step abs s₀) (commits sem) i err (Own i events (mid a))
      (lift (committing event) (f a)) Q)
    (herr : (committed C step abs s₀).Stable i err) :
    Outlined (committed C step abs s₀) (commits sem) i err (Own i events P)
      (lift (committing event) (Fallible.op o >>= f)) Q := by
  refine commit (fun _ => none) mid hP hstep (fun a => ?_) herr
  rw [Option.toList_none, List.append_nil]
  exact hf a

end Outlined

end Fallible

end Committed

end RustSync
