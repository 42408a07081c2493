/-
Programs under a lock

A program that gives back a lock whenever it has taken it (`Bracketed`), on a
machine whose other calls can always be made, never gets stuck for good:
whoever holds the lock can run to its end and give it back, and then any other
thread can run to its end (`Machine.LockedBy.completes`).

Key definitions: `Bracketed`, `Machine.LockedBy`, `Attended`.
-/
import RustSync.Lib.Calls

namespace RustSync

section Lock

variable {ι Op σ ε Req Res α β : Type} {Val : Op → Type} {lock unlock : Op}

/-- A program that gives back the lock; `held` tells whether it holds it. -/
inductive Bracketed (lock unlock : Op) {α : Type} : Bool → Prog (Signature.fallible Val ε) α → Prop
  | done (a : α) : Bracketed lock unlock false (.done a)
  | call {held : Bool} {o : Op} {k : Except ε (Val o) → Prog (Signature.fallible Val ε) α} (hl : o ≠ lock)
      (hu : o ≠ unlock) (hk : ∀ r, Bracketed lock unlock held (k r)) : Bracketed lock unlock held (.call o k)
  | take {k : Except ε (Val lock) → Prog (Signature.fallible Val ε) α}
      (hk : ∀ a, Bracketed lock unlock true (k (.ok a))) (herr : ∀ e, Bracketed lock unlock false (k (.error e))) :
      Bracketed lock unlock false (.call lock k)
  | give {k : Except ε (Val unlock) → Prog (Signature.fallible Val ε) α}
      (hk : ∀ r, Bracketed lock unlock false (k r)) : Bracketed lock unlock true (.call unlock k)

/-- A program that does without the lock, and what follows it. -/
theorem Bracketed.bind {held : Bool} {p : Prog (Signature.fallible Val ε) α}
    {f : α → Prog (Signature.fallible Val ε) β} (hp : p.Calls fun o => o ≠ lock ∧ o ≠ unlock)
    (hf : ∀ a, Bracketed lock unlock held (f a)) : Bracketed lock unlock held (p >>= f) := by
  induction hp with
  | done a => exact hf a
  | call ho _ ih => exact .call ho.1 ho.2 ih

theorem Bracketed.of_calls {p : Prog (Signature.fallible Val ε) α} (hp : p.Calls fun o => o ≠ lock ∧ o ≠ unlock) :
    Bracketed lock unlock false p := by
  induction hp with
  | done a => exact .done a
  | call ho _ ih => exact .call ho.1 ho.2 ih

theorem Bracketed.withLock {body : Fallible Val ε α} (hbody : Fallible.Calls (fun o => o ≠ lock ∧ o ≠ unlock) body) :
    Bracketed lock unlock false (Fallible.withLock lock unlock body).run := by
  refine .take (fun _ => ?_) fun e => .done (Except.error e)
  have hrest : Bracketed lock unlock true (body.run >>= fun r => .call unlock fun _ => .done r) :=
    Bracketed.bind hbody fun r => .give fun _ => .done r
  exact hrest

theorem Bracketed.map {held : Bool} {x : Fallible Val ε α} {f : α → β} (hx : Bracketed lock unlock held x.run) :
    Bracketed lock unlock held (f <$> x : Fallible Val ε β).run := by
  have hprog : ∀ (p : Prog (Signature.fallible Val ε) (Except ε α)) (held : Bool), Bracketed lock unlock held p →
      Bracketed lock unlock held ((f <$> (ExceptT.mk p : Fallible Val ε α) : Fallible Val ε β).run) := by
    intro p held hp
    induction hp with
    | done a =>
      cases a with
      | ok a => exact .done _
      | error e => exact .done _
    | call hl hu _ ih => exact .call hl hu ih
    | take _ _ ih ihe => exact .take ih ihe
    | give _ ih => exact .give ih
  exact hprog x.run held hx

/-! ### Machines with a lock -/

/-- Only the two calls change who holds the lock, and it is taken where it is
free. -/
structure Machine.LockedBy (M : Machine ι (Signature.fallible Val ε) σ Req Res) (lock unlock : Op)
    (holder : σ → Option ι) : Prop where
  apart : unlock ≠ lock
  taken : ∀ i s a s', M.sem i lock s (.ok a) s' → holder s = none ∧ holder s' = some i
  refused : ∀ i s e s', M.sem i lock s (.error e) s' → holder s' = holder s
  given : ∀ i s r s', M.sem i unlock s r s' → holder s' = none
  others : ∀ i o s r s', o ≠ lock → o ≠ unlock → M.sem i o s r s' → holder s' = holder s

/-- Whoever holds the lock is a started thread, and every thread gives it back
if it holds it. -/
structure Attended [DecidableEq ι] (lock unlock : Op) (holder : σ → Option ι)
    (cfg : Config ι (Signature.fallible Val ε) σ Req Res) : Prop where
  started : ∀ i, holder cfg.shared = some i → ∃ q p, cfg.thread i = some (q, p)
  bracketed : ∀ i q p, cfg.thread i = some (q, p) →
    Bracketed lock unlock (decide (holder cfg.shared = some i)) p

variable [DecidableEq ι] {M : Machine ι (Signature.fallible Val ε) σ Req Res} {holder : σ → Option ι}
  {cfg cfg' : Config ι (Signature.fallible Val ε) σ Req Res}

theorem Attended.start (hprogram : ∀ q, Bracketed lock unlock false (M.program q))
    (h : Attended lock unlock holder cfg) {i : ι} {q : Req} (hidle : cfg.thread i = none) :
    Attended lock unlock holder
      { cfg with thread := Function.update cfg.thread i (some (q, M.program q)) } := by
  have hfree : holder cfg.shared ≠ some i := by
    intro hheld
    obtain ⟨q', p, hp⟩ := h.started i hheld
    rw [hidle] at hp
    cases hp
  refine ⟨fun j hj => ?_, fun j q' p hp => ?_⟩
  · obtain ⟨q', p, hp⟩ := h.started j hj
    have hne : j ≠ i := by
      rintro rfl
      exact hfree hj
    exact ⟨q', p, (Function.update_of_ne hne _ _).trans hp⟩
  · by_cases hji : j = i
    · subst hji
      simp only [Function.update_self, Option.some.injEq, Prod.mk.injEq] at hp
      obtain ⟨rfl, rfl⟩ := hp
      rw [decide_eq_false hfree]
      exact hprogram _
    · simp only [Function.update_of_ne hji] at hp
      exact h.bracketed j q' p hp

/-- One thread moves: the others hold the lock where they held it before. -/
theorem Attended.moved (h : Attended lock unlock holder cfg) {i : ι} {q : Req} {s' : σ}
    {p : Prog (Signature.fallible Val ε) Res}
    (hothers : ∀ j, j ≠ i → (holder s' = some j ↔ holder cfg.shared = some j))
    (hp : Bracketed lock unlock (decide (holder s' = some i)) p) :
    Attended lock unlock holder ⟨s', Function.update cfg.thread i (some (q, p))⟩ := by
  refine ⟨fun j hj => ?_, fun j q' p' hp' => ?_⟩
  · by_cases hji : j = i
    · subst hji
      exact ⟨q, p, Function.update_self ..⟩
    · obtain ⟨q', p', hp'⟩ := h.started j ((hothers j hji).mp hj)
      exact ⟨q', p', (Function.update_of_ne hji _ _).trans hp'⟩
  · by_cases hji : j = i
    · subst hji
      simp only [Function.update_self, Option.some.injEq, Prod.mk.injEq] at hp'
      obtain ⟨rfl, rfl⟩ := hp'
      exact hp
    · simp only [Function.update_of_ne hji] at hp'
      have hsame : decide (holder s' = some j) = decide (holder cfg.shared = some j) :=
        decide_eq_decide.mpr (hothers j hji)
      show Bracketed lock unlock (decide (holder s' = some j)) p'
      rw [hsame]
      exact h.bracketed j q' p' hp'

theorem Attended.step (hlock : M.LockedBy lock unlock holder)
    (hprogram : ∀ q, Bracketed lock unlock false (M.program q)) (h : Attended lock unlock holder cfg)
    (hstep : M.Step cfg cfg') : Attended lock unlock holder cfg' := by
  cases hstep with
  | start i q hidle => exact h.start hprogram hidle
  | @call i q o k r s' hat hsem =>
    have hp := h.bracketed i q _ hat
    generalize hheld : decide (holder cfg.shared = some i) = held at hp
    cases hp with
    | call hl hu hk =>
      have hsame := hlock.others i o _ r s' hl hu hsem
      refine h.moved (fun j _ => by rw [hsame]) ?_
      rw [hsame, hheld]
      exact hk r
    | take hk herr =>
      cases r with
      | ok a =>
        obtain ⟨hfree, htaken⟩ := hlock.taken i _ a s' hsem
        refine h.moved (fun j hj => ?_) ?_
        · rw [hfree, htaken]
          exact ⟨fun heq => absurd (Option.some.inj heq).symm hj, fun heq => nomatch heq⟩
        · rw [htaken, decide_eq_true rfl]
          exact hk a
      | error e =>
        have hsame := hlock.refused i _ e s' hsem
        refine h.moved (fun j _ => by rw [hsame]) ?_
        rw [hsame, hheld]
        exact herr e
    | give hk =>
      have hgiven := hlock.given i _ r s' hsem
      have hmine : holder cfg.shared = some i := of_decide_eq_true hheld
      refine h.moved (fun j hj => ?_) ?_
      · rw [hgiven, hmine]
        exact ⟨fun heq => (nomatch heq), fun heq => absurd (Option.some.inj heq).symm hj⟩
      · rw [hgiven]
        exact hk r

/-- In every run that starts with the lock free. -/
theorem Attended.steps (hlock : M.LockedBy lock unlock holder)
    (hprogram : ∀ q, Bracketed lock unlock false (M.program q)) (h : Attended lock unlock holder cfg)
    (hsteps : M.Steps cfg cfg') : Attended lock unlock holder cfg' := by
  induction hsteps with
  | refl => exact h
  | tail _ hstep ih => exact ih.step hlock hprogram hstep

theorem Attended.initial {s₀ : σ} (hfree : holder s₀ = none) :
    Attended lock unlock holder (⟨s₀, fun _ => none⟩ : Config ι (Signature.fallible Val ε) σ Req Res) := by
  refine ⟨fun i hi => ?_, fun i q p hp => nomatch hp⟩
  have hnone : holder s₀ = some i := hi
  rw [hfree] at hnone
  cases hnone

/-! ### Running to the end -/

/-- What lets a thread run: a call can be made unless it takes the lock from
another, and does what the machine allows. -/
structure Machine.Serving (M : Machine ι (Signature.fallible Val ε) σ Req Res) (lock : Op)
    (holder : σ → Option ι) (run : ι → (o : Op) → σ → Option (Except ε (Val o) × σ)) : Prop where
  sound : ∀ i o s r s', run i o s = some (r, s') → M.sem i o s r s'
  made : ∀ i o s, o ≠ lock → (run i o s).isSome
  taken : ∀ i s, holder s = none → (run i lock s).isSome

variable {run : ι → (o : Op) → σ → Option (Except ε (Val o) × σ)}

omit [DecidableEq ι] in
/-- A thread that holds the lock, or finds it free, runs to its end and leaves
it free. -/
theorem Bracketed.exec (hlock : M.LockedBy lock unlock holder) (hserving : M.Serving lock holder run) {i : ι}
    {held : Bool} {p : Prog (Signature.fallible Val ε) α} (hp : Bracketed lock unlock held p) :
    ∀ s, (held = true → holder s = some i) → (held = false → holder s = none) →
      ∃ a s', p.exec (run i) s = some (a, s') ∧ holder s' = none := by
  induction hp with
  | done a => exact fun s _ hfree => ⟨a, s, rfl, hfree rfl⟩
  | @call held o k hl hu _ ih =>
    intro s hheld hfree
    obtain ⟨⟨r, t⟩, hrun⟩ := Option.isSome_iff_exists.mp (hserving.made i o s hl)
    have hsame := hlock.others i o s r t hl hu (hserving.sound i o s r t hrun)
    obtain ⟨a, s', hexec, hlast⟩ := ih r t (fun h => hsame.trans (hheld h)) fun h => hsame.trans (hfree h)
    exact ⟨a, s', (congrArg (Option.bind · _) hrun).trans hexec, hlast⟩
  | @take k _ _ ih ihe =>
    intro s _ hfree
    obtain ⟨⟨r, t⟩, hrun⟩ := Option.isSome_iff_exists.mp (hserving.taken i s (hfree rfl))
    have hsem := hserving.sound i lock s r t hrun
    cases r with
    | ok b =>
      have htaken := (hlock.taken i s b t hsem).2
      obtain ⟨a, s', hexec, hlast⟩ := ih b t (fun _ => htaken) fun h => nomatch h
      exact ⟨a, s', (congrArg (Option.bind · _) hrun).trans hexec, hlast⟩
    | error e =>
      have hsame := (hlock.refused i s e t hsem).trans (hfree rfl)
      obtain ⟨a, s', hexec, hlast⟩ := ihe e t (fun h => nomatch h) fun _ => hsame
      exact ⟨a, s', (congrArg (Option.bind · _) hrun).trans hexec, hlast⟩
  | @give k _ ih =>
    intro s _ _
    obtain ⟨⟨r, t⟩, hrun⟩ := Option.isSome_iff_exists.mp (hserving.made i unlock s hlock.apart)
    have hgiven := hlock.given i s r t (hserving.sound i unlock s r t hrun)
    obtain ⟨a, s', hexec, hlast⟩ := ih r t (fun h => nomatch h) fun _ => hgiven
    exact ⟨a, s', (congrArg (Option.bind · _) hrun).trans hexec, hlast⟩

/-- A thread that holds the lock, or finds it free, can come to its end. -/
theorem Machine.LockedBy.completes_alone (hlock : M.LockedBy lock unlock holder)
    (hserving : M.Serving lock holder run) (h : Attended lock unlock holder cfg) {i : ι} {q : Req}
    {p : Prog (Signature.fallible Val ε) Res} (hat : cfg.thread i = some (q, p))
    (hmine : ∀ j, holder cfg.shared = some j → j = i) :
    ∃ s' a, M.Steps cfg ⟨s', Function.update cfg.thread i (some (q, .done a))⟩ ∧ holder s' = none := by
  obtain ⟨a, s', hexec, hlast⟩ :=
    (h.bracketed i q p hat).exec hlock hserving cfg.shared of_decide_eq_true fun hnot => by
    cases hheld : holder cfg.shared with
    | none => rfl
    | some j =>
      rw [hheld, hmine j hheld] at hnot
      exact absurd rfl (of_decide_eq_false hnot)
  exact ⟨s', a, Machine.Steps.exec (hserving.sound i) cfg hat hexec, hlast⟩

/-- **Nobody is stuck for good.** Any started thread can come to its end, when
whoever holds the lock goes first. -/
theorem Machine.LockedBy.completes (hlock : M.LockedBy lock unlock holder)
    (hprogram : ∀ q, Bracketed lock unlock false (M.program q)) (hserving : M.Serving lock holder run)
    (h : Attended lock unlock holder cfg) {i : ι} {q : Req} {p : Prog (Signature.fallible Val ε) Res}
    (hat : cfg.thread i = some (q, p)) :
    ∃ cfg' a, M.Steps cfg cfg' ∧ cfg'.thread i = some (q, .done a) := by
  by_cases hmine : ∀ j, holder cfg.shared = some j → j = i
  · obtain ⟨s', a, hsteps, _⟩ := hlock.completes_alone hserving h hat hmine
    exact ⟨_, a, hsteps, Function.update_self ..⟩
  · obtain ⟨j, hj⟩ := not_forall.mp hmine
    obtain ⟨hheld, hne⟩ := Classical.not_imp.mp hj
    obtain ⟨q', p', hat'⟩ := h.started j hheld
    have hholder (k : ι) (hk : holder cfg.shared = some k) : k = j := Option.some.inj (hk.symm.trans hheld)
    obtain ⟨s', b, hfirst, hfree⟩ := hlock.completes_alone hserving h hat' hholder
    -- the holder is done, and the lock is free
    have hmid := h.steps hlock hprogram hfirst
    have hat'' : Function.update cfg.thread j (some (q', .done b)) i = some (q, p) :=
      (Function.update_of_ne (Ne.symm hne) _ _).trans hat
    obtain ⟨s'', a, hsecond, _⟩ := hlock.completes_alone hserving hmid hat'' fun k hk => by
      have hsome : holder s' = some k := hk
      rw [hfree] at hsome
      cases hsome
    exact ⟨_, a, hfirst.trans hsecond, Function.update_self ..⟩

end Lock

end RustSync
