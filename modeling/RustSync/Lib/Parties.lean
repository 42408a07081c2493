/-
Parties around a shared state

Each of any number of parties has a state of its own and runs programs, one
after another, beside a state that all share; while it does not run, its state
may be changed from outside (`Parties.Step`). The calls of all interleave.

What holds of every interleaving is proved of one run of one party (`Terms`).
The party sees the shared state as it was at a call of its own, and others have
moved on since: `Later` says how, and `env` is what a call may do for all that
a party knows. A party that keeps the terms leaves `good` what all share, and
ends its runs as `idle` says; so all do, in every interleaving
(`Terms.Kept.steps`). What a party does is what a run of its own does that has
started in some state of the interleaving (`Terms.Kept.started`).

Key definitions: `Parties`, `Parties.Step`, `Terms`, `Terms.Kept`.
-/
import Mathlib.Logic.Relation
import RustSync.Lib.Guarded

namespace RustSync

section Leads

variable {S : Signature} {σ α : Type} {sem : (o : S.Op) → σ → S.Resp o → σ → Prop} {p q : Prog S α} {s t u : σ}

/-- Some calls of `p`, from `s`, leave `q` to be run, from `t`. -/
inductive Prog.Leads (sem : (o : S.Op) → σ → S.Resp o → σ → Prop) (p : Prog S α) (s : σ) : Prog S α → σ → Prop
  | start : Leads sem p s p s
  | call {o : S.Op} {k : S.Resp o → Prog S α} {r : S.Resp o} {t t' : σ} (h : Leads sem p s (.call o k) t)
      (hcall : sem o t r t') : Leads sem p s (k r) t'

theorem Prog.Leads.reaches (h : Prog.Leads sem p s q t) {out : Option α} (hq : Prog.Reaches sem q t out u) :
    Prog.Reaches sem p s out u := by
  induction h generalizing out u with
  | start => exact hq
  | call _ hcall ih => exact ih (.call hcall hq)

theorem Prog.Leads.comes (h : Prog.Leads sem p s q t) {o : S.Op} (hq : Prog.Comes sem q t o u) :
    Prog.Comes sem p s o u := by
  induction h generalizing o u with
  | start => exact hq
  | call _ hcall ih => exact ih (.later hcall hq)

end Leads

/-- The states of the parties, what they still have to run, and what their
last runs came to. -/
structure Parties (ι : Type) (S : Signature) (α π ρ : Type) where
  own : ι → π
  shared : ρ
  running : ι → Option (Prog S α)
  last : ι → Option α

section Parties

variable {ι : Type} [DecidableEq ι] {S : Signature} {σ α π ρ : Type}

/-- A party starts a program, makes a call, or is through; or its state is changed
while it does not run. A run that ends otherwise than `settled` says is the last
of its party; a run that is cut short comes to nothing. -/
inductive Parties.Step (sem : (o : S.Op) → π → ρ → S.Resp o → π → ρ → Prop) (touch : π → π → Prop)
    (settled : Option α → Prop) (P : Prog S α → Prop) : Parties ι S α π ρ → Parties ι S α π ρ → Prop
  | start {c : Parties ι S α π ρ} {i : ι} {p : Prog S α} (hidle : c.running i = none) (hp : P p) :
      Step sem touch settled P c { c with
        running := Function.update c.running i (some p)
        last := Function.update c.last i none }
  | call {c : Parties ι S α π ρ} {i : ι} {o : S.Op} {k : S.Resp o → Prog S α} {r : S.Resp o} {own' : π} {shared' : ρ}
      (hat : c.running i = some (.call o k)) (hcall : sem o (c.own i) c.shared r own' shared') :
      Step sem touch settled P c { c with
        own := Function.update c.own i own'
        shared := shared'
        running := Function.update c.running i (some (k r)) }
  | finish {c : Parties ι S α π ρ} {i : ι} {a : α} (hat : c.running i = some (.done a)) (ha : settled (some a)) :
      Step sem touch settled P c { c with
        running := Function.update c.running i none
        last := Function.update c.last i (some a) }
  | stop {c : Parties ι S α π ρ} {i : ι} {p : Prog S α} (hat : c.running i = some p) (hcut : settled none) :
      Step sem touch settled P c { c with
        running := Function.update c.running i none
        last := Function.update c.last i none }
  | touch {c : Parties ι S α π ρ} {i : ι} {own' : π} (hidle : c.running i = none) (htouch : touch (c.own i) own') :
      Step sem touch settled P c { c with
        own := Function.update c.own i own'
        last := Function.update c.last i none }

/-- What a step is to one party: another's, a start, a call, or an end or an edit. -/
theorem Parties.Step.of_party {sem : (o : S.Op) → π → ρ → S.Resp o → π → ρ → Prop} {touch : π → π → Prop}
    {settled : Option α → Prop} {P : Prog S α → Prop} {c c' : Parties ι S α π ρ}
    (h : Parties.Step sem touch settled P c c') (i : ι) :
    (c'.running i = c.running i ∧ c'.own i = c.own i) ∨
    (c.running i = none ∧ c'.own i = c.own i ∧ c'.shared = c.shared ∧ ∃ p, P p ∧ c'.running i = some p) ∨
    (∃ o k r, c.running i = some (.call o k) ∧ sem o (c.own i) c.shared r (c'.own i) c'.shared ∧
      c'.running i = some (k r)) ∨
    c'.running i = none := by
  cases h with
  | @start j p hidle hp =>
    by_cases hij : i = j
    · subst hij
      exact .inr (.inl ⟨hidle, rfl, rfl, p, hp, Function.update_self ..⟩)
    · exact .inl ⟨Function.update_of_ne hij .., rfl⟩
  | @call j o k r own' shared' hat hcall =>
    by_cases hij : i = j
    · subst hij
      refine .inr (.inr (.inl ⟨o, k, r, hat, ?_, Function.update_self ..⟩))
      simp only [Function.update_self]
      exact hcall
    · exact .inl ⟨Function.update_of_ne hij .., Function.update_of_ne hij ..⟩
  | @finish j a hat ha =>
    by_cases hij : i = j
    · subst hij
      exact .inr (.inr (.inr (Function.update_self ..)))
    · exact .inl ⟨Function.update_of_ne hij .., rfl⟩
  | @stop j p hat hcut =>
    by_cases hij : i = j
    · subst hij
      exact .inr (.inr (.inr (Function.update_self ..)))
    · exact .inl ⟨Function.update_of_ne hij .., rfl⟩
  | @touch j own' hidle htouch =>
    by_cases hij : i = j
    · subst hij
      exact .inr (.inr (.inr hidle))
    · exact .inl ⟨rfl, Function.update_of_ne hij ..⟩

theorem Parties.Step.mono {sem sem' : (o : S.Op) → π → ρ → S.Resp o → π → ρ → Prop} {touch : π → π → Prop}
    {settled : Option α → Prop} {P : Prog S α → Prop} {c c' : Parties ι S α π ρ}
    (hsem : ∀ o l s r l' s', sem o l s r l' s' → sem' o l s r l' s') (h : Parties.Step sem touch settled P c c') :
    Parties.Step sem' touch settled P c c' := by
  cases h with
  | start hidle hp => exact .start hidle hp
  | call hat hcall => exact .call hat (hsem _ _ _ _ _ _ hcall)
  | finish hat ha => exact .finish hat ha
  | stop hat hcut => exact .stop hat hcut
  | touch hidle htouch => exact .touch hidle htouch

/-- What every program calls, what is left of one calls too. -/
theorem Parties.calls {sem : (o : S.Op) → π → ρ → S.Resp o → π → ρ → Prop} {touch : π → π → Prop}
    {settled : Option α → Prop} {P : Prog S α → Prop} {C : S.Op → Prop} {c c' : Parties ι S α π ρ}
    (hP : ∀ p, P p → p.Calls C) (hidle : ∀ i, c.running i = none)
    (hsteps : Relation.ReflTransGen (Parties.Step sem touch settled P) c c') :
    ∀ i p, c'.running i = some p → p.Calls C := by
  induction hsteps with
  | refl =>
    intro i p hat
    rw [hidle i] at hat
    cases hat
  | tail _ hstep ih =>
    intro i p hat
    rcases hstep.of_party i with ⟨hsame, _⟩ | ⟨_, _, _, q, hq, hrunning⟩ | ⟨o, k, r, hat', _, hrunning⟩ | hnone
    · rw [hsame] at hat
      exact ih i p hat
    · rw [hrunning] at hat
      cases hat
      exact hP _ hq
    · rw [hrunning] at hat
      cases hat
      cases ih i _ hat' with
      | call _ hk => exact hk r
    · rw [hnone] at hat
      cases hat

/-- What a party relies on, and what it keeps. -/
structure Terms (S : Signature) (σ α π ρ : Type) where
  own : σ → π
  seen : σ → ρ
  env : (o : S.Op) → σ → S.Resp o → σ → Prop
  good : ρ → Prop
  Later : ρ → ρ → Prop
  /-- What holds of a party that does not run, by what its last run came to. -/
  idle : Option α → π → ρ → Prop

/-- The terms are those of the calls, and each run of the program keeps them. -/
structure Terms.Kept (T : Terms S σ α π ρ) (sem : (o : S.Op) → π → ρ → S.Resp o → π → ρ → Prop) (touch : π → π → Prop)
    (settled : Option α → Prop) (P : Prog S α → Prop) : Prop where
  refl : ∀ s, T.Later s s
  trans : ∀ {s t u}, T.Later s t → T.Later t u → T.Later s u
  good : ∀ {s t}, T.Later s t → T.good s → T.good t
  view : ∀ l s, ∃ w, T.own w = l ∧ T.seen w = s
  /-- What a call does, it does for all that the party knows. -/
  call : ∀ {o w s r l' s'}, T.good s → T.Later (T.seen w) s → sem o (T.own w) s r l' s' →
    ∃ w', T.env o w r w' ∧ T.own w' = l' ∧ T.Later (T.seen w') s'
  /-- Others see a call that leaves what is shared good. -/
  later : ∀ {o l s r l' s'}, sem o l s r l' s' → T.good s → T.good s' → T.Later s s'
  forget : ∀ {a l s}, T.idle a l s → T.idle none l s
  touched : ∀ {a l l' s}, touch l l' → T.idle a l s → T.idle none l' s
  stays : ∀ {a l s s'}, T.Later s s' → T.idle a l s → T.idle a l s'
  run : ∀ {p w out t}, P p → T.good (T.seen w) → T.idle none (T.own w) (T.seen w) → Prog.Reaches T.env p w out t →
    T.good (T.seen t) ∧ (settled out → T.idle out (T.own t) (T.seen t))

variable {T : Terms S σ α π ρ} {sem : (o : S.Op) → π → ρ → S.Resp o → π → ρ → Prop} {touch : π → π → Prop}
  {settled : Option α → Prop} {P : Prog S α → Prop} {c c' : Parties ι S α π ρ} {i : ι}

/-- The party is on its way, as it sees it. -/
structure Terms.Running (T : Terms S σ α π ρ) (P : Prog S α → Prop) (p q : Prog S α) (l : π) (s : ρ) (w₀ w : σ) :
    Prop where
  program : P p
  good : T.good (T.seen w₀)
  idle : T.idle none (T.own w₀) (T.seen w₀)
  leads : Prog.Leads T.env p w₀ q w
  own : T.own w = l
  later : T.Later (T.seen w) s

/-- A party of which the terms hold. -/
def Terms.Party (T : Terms S σ α π ρ) (P : Prog S α → Prop) (l : π) (s : ρ) (running : Option (Prog S α))
    (last : Option α) : Prop :=
  match running with
  | none => T.idle last l s
  | some q => ∃ p w₀ w, T.Running P p q l s w₀ w

/-- What is shared is good, and the terms hold of each party. -/
structure Terms.Holds (T : Terms S σ α π ρ) (P : Prog S α → Prop) (c : Parties ι S α π ρ) : Prop where
  good : T.good c.shared
  party : ∀ i, T.Party P (c.own i) c.shared (c.running i) (c.last i)

namespace Terms.Running

variable {p q : Prog S α} {l : π} {s s' : ρ} {w₀ w : σ}

theorem stays (hT : T.Kept sem touch settled P) (h : T.Running P p q l s w₀ w) (hlater : T.Later s s') :
    T.Running P p q l s' w₀ w :=
  ⟨h.program, h.good, h.idle, h.leads, h.own, hT.trans h.later hlater⟩

/-- A call of the party, as the party sees it. -/
theorem call {o : S.Op} {k : S.Resp o → Prog S α} {r : S.Resp o} {l' : π} (hT : T.Kept sem touch settled P)
    (h : T.Running P p (.call o k) l s w₀ w) (hgood : T.good s) (hcall : sem o l s r l' s') :
    ∃ w', T.Running P p (k r) l' s' w₀ w' ∧ T.good s' := by
  rw [← h.own] at hcall
  obtain ⟨w', henv, hown, hseen⟩ := hT.call hgood h.later hcall
  have hleads : Prog.Leads T.env p w₀ (k r) w' := .call h.leads henv
  exact ⟨w', ⟨h.program, h.good, h.idle, hleads, hown, hseen⟩,
    hT.good hseen (hT.run h.program h.good h.idle (hleads.reaches (.cut _ _))).1⟩

/-- What the party ends in, however it ends. -/
theorem ends {out : Option α} {u : σ} (hT : T.Kept sem touch settled P) (h : T.Running P p q l s w₀ w)
    (hq : Prog.Reaches T.env q w out u) (hu : T.own u = l) (hseen : T.Later (T.seen u) s) (hout : settled out) :
    T.idle out l s := by
  have hidle := (hT.run h.program h.good h.idle (h.leads.reaches hq)).2 hout
  rw [hu] at hidle
  exact hT.stays hseen hidle

end Terms.Running

namespace Terms.Kept

/-- A party starts where it is. -/
theorem starts {p : Prog S α} {l : π} {s : ρ} {last : Option α} (hT : T.Kept sem touch settled P) (hp : P p)
    (hgood : T.good s) (hidle : T.idle last l s) : ∃ w, T.own w = l ∧ T.seen w = s ∧ T.Running P p p l s w w := by
  obtain ⟨w, rfl, rfl⟩ := hT.view l s
  exact ⟨w, rfl, rfl, hp, hgood, hT.forget hidle, .start, rfl, hT.refl _⟩

theorem stays_party {l : π} {s s' : ρ} {running : Option (Prog S α)} {last : Option α}
    (hT : T.Kept sem touch settled P) (hlater : T.Later s s') (h : T.Party P l s running last) :
    T.Party P l s' running last := by
  cases running with
  | none => exact hT.stays hlater h
  | some q =>
    obtain ⟨p, w₀, w, hrunning⟩ := h
    exact ⟨p, w₀, w, hrunning.stays hT hlater⟩

/-- **Each step keeps the terms.** -/
theorem step (hT : T.Kept sem touch settled P) (h : T.Holds P c) (hstep : Parties.Step sem touch settled P c c') :
    T.Holds P c' := by
  cases hstep with
  | @start i p hidle hp =>
    refine ⟨h.good, fun j => ?_⟩
    by_cases hji : j = i
    · subst hji
      have hj := h.party j
      rw [hidle] at hj
      obtain ⟨w, _, _, hrunning⟩ := hT.starts hp h.good hj
      simp only [Function.update_self]
      exact ⟨p, w, w, hrunning⟩
    · simp only [Function.update_of_ne hji]
      exact h.party j
  | @call i o k r own' shared' hat hcall =>
    have hi := h.party i
    rw [hat] at hi
    obtain ⟨p, w₀, w, hrunning⟩ := hi
    obtain ⟨w', hrunning', hgood⟩ := hrunning.call hT h.good hcall
    have hlater : T.Later c.shared shared' := hT.later hcall h.good hgood
    refine ⟨hgood, fun j => ?_⟩
    by_cases hji : j = i
    · subst hji
      simp only [Function.update_self]
      exact ⟨p, w₀, w', hrunning'⟩
    · simp only [Function.update_of_ne hji]
      exact hT.stays_party hlater (h.party j)
  | @finish i a hat ha =>
    refine ⟨h.good, fun j => ?_⟩
    by_cases hji : j = i
    · subst hji
      have hj := h.party j
      rw [hat] at hj
      obtain ⟨p, w₀, w, hrunning⟩ := hj
      simp only [Function.update_self]
      exact hrunning.ends hT (.done a w) hrunning.own hrunning.later ha
    · simp only [Function.update_of_ne hji]
      exact h.party j
  | @stop i p hat hcut =>
    refine ⟨h.good, fun j => ?_⟩
    by_cases hji : j = i
    · subst hji
      have hj := h.party j
      rw [hat] at hj
      obtain ⟨p, w₀, w, hrunning⟩ := hj
      simp only [Function.update_self]
      exact hrunning.ends hT (.cut _ w) hrunning.own hrunning.later hcut
    · simp only [Function.update_of_ne hji]
      exact h.party j
  | @touch i own' hidle htouch =>
    refine ⟨h.good, fun j => ?_⟩
    by_cases hji : j = i
    · subst hji
      have hj := h.party j
      rw [hidle] at hj
      simp only [Function.update_self]
      rw [hidle]
      exact hT.touched htouch hj
    · simp only [Function.update_of_ne hji]
      exact h.party j

/-- **The terms hold in every interleaving.** -/
theorem steps (hT : T.Kept sem touch settled P) (h : T.Holds P c)
    (hsteps : Relation.ReflTransGen (Parties.Step sem touch settled P) c c') : T.Holds P c' := by
  induction hsteps with
  | refl => exact h
  | tail _ hstep ih => exact hT.step ih hstep

theorem step_later (hT : T.Kept sem touch settled P) (h : T.Holds P c)
    (hstep : Parties.Step sem touch settled P c c') : T.Later c.shared c'.shared := by
  have hgood := (hT.step h hstep).good
  cases hstep with
  | call _ hcall => exact hT.later hcall h.good hgood
  | _ => exact hT.refl _

/-- **A party that runs has started in a state of the interleaving.** -/
theorem started (hT : T.Kept sem touch settled P) (h : T.Holds P c) (hidle : c.running i = none)
    (hsteps : Relation.ReflTransGen (Parties.Step sem touch settled P) c c') {q : Prog S α}
    (hat : c'.running i = some q) : ∃ (c₁ : Parties ι S α π ρ) (p : Prog S α) (w₀ w : σ),
      Relation.ReflTransGen (Parties.Step sem touch settled P) c c₁ ∧ c₁.running i = none ∧
      Relation.ReflTransGen (Parties.Step sem touch settled P) c₁ c' ∧ T.own w₀ = c₁.own i ∧ T.seen w₀ = c₁.shared ∧
      T.Running P p q (c'.own i) c'.shared w₀ w := by
  induction hsteps generalizing q with
  | refl =>
    rw [hidle] at hat
    cases hat
  | @tail c₂ c₃ hsteps hstep ih =>
    have h₂ : T.Holds P c₂ := hT.steps h hsteps
    rcases hstep.of_party i with ⟨hrunning, hown⟩ | ⟨hnone, hown, hshared, p, hp, hrunning⟩ |
      ⟨o, k, r, hat₂, hcall, hrunning⟩ | hnone
    · rw [hrunning] at hat
      obtain ⟨c₁, p, w₀, w, hbefore, hnone, hafter, hown₀, hseen₀, hparty⟩ := ih hat
      refine ⟨c₁, p, w₀, w, hbefore, hnone, hafter.tail hstep, hown₀, hseen₀, ?_⟩
      rw [hown]
      exact hparty.stays hT (hT.step_later h₂ hstep)
    · rw [hrunning] at hat
      obtain rfl : p = q := Option.some.inj hat
      have hi := h₂.party i
      rw [hnone] at hi
      obtain ⟨w, hown₀, hseen₀, hparty⟩ := hT.starts hp h₂.good hi
      refine ⟨c₂, p, w, w, hsteps, hnone, .single hstep, hown₀, hseen₀, ?_⟩
      rw [hown, hshared]
      exact hparty
    · rw [hrunning] at hat
      cases hat
      obtain ⟨c₁, p, w₀, w, hbefore, hnone, hafter, hown₀, hseen₀, hparty⟩ := ih hat₂
      obtain ⟨w', hparty', _⟩ := hparty.call hT h₂.good hcall
      exact ⟨c₁, p, w₀, w', hbefore, hnone, hafter.tail hstep, hown₀, hseen₀, hparty'⟩
    · rw [hnone] at hat
      cases hat

end Terms.Kept

omit [DecidableEq ι] in
/-- What holds between runs and wherever a run is cut short holds always. -/
theorem Terms.Holds.always {A : π → ρ → Prop} (h : T.Holds P c) (hidle : ∀ a l s, T.idle a l s → A l s)
    (hlater : ∀ l s s', T.Later s s' → A l s → A l s')
    (hrun : ∀ p w t, P p → T.good (T.seen w) → T.idle none (T.own w) (T.seen w) → Prog.Reaches T.env p w none t →
      A (T.own t) (T.seen t)) (i : ι) : A (c.own i) c.shared := by
  have hi := h.party i
  cases hat : c.running i with
  | none =>
    rw [hat] at hi
    exact hidle _ _ _ hi
  | some q =>
    rw [hat] at hi
    obtain ⟨p, w₀, w, hrunning⟩ := hi
    have hw := hrun p w₀ w hrunning.program hrunning.good hrunning.idle (hrunning.leads.reaches (.cut _ _))
    rw [hrunning.own] at hw
    exact hlater _ _ _ hrunning.later hw

/-! ### Runs of one party -/

theorem Parties.calls_alone {run : (o : S.Op) → π × ρ → Option (S.Resp o × (π × ρ))} {a : α} {l' : π} {s' : ρ}
    (hrun : ∀ o l s r l' s', run o (l, s) = some (r, (l', s')) → sem o l s r l' s') :
    ∀ {q : Prog S α} (c : Parties ι S α π ρ), c.running i = some q →
    q.exec run (c.own i, c.shared) = some (a, (l', s')) →
      Relation.ReflTransGen (Parties.Step sem touch settled P) c { c with
        own := Function.update c.own i l'
        shared := s'
        running := Function.update c.running i (some (.done a)) } := by
  intro q
  induction q with
  | done b =>
    intro c hat hexec
    simp only [Prog.exec, Option.some.injEq, Prod.mk.injEq] at hexec
    obtain ⟨rfl, rfl, rfl⟩ := hexec
    rw [← hat, Function.update_eq_self, Function.update_eq_self]
  | call o k ih =>
    intro c hat hexec
    rw [Prog.exec, Option.bind_eq_some_iff] at hexec
    obtain ⟨⟨r, ⟨l, s⟩⟩, hcall, hrest⟩ := hexec
    have hstep : Parties.Step sem touch settled P c { c with
        own := Function.update c.own i l
        shared := s
        running := Function.update c.running i (some (k r)) } := .call hat (hrun o _ _ r l s hcall)
    have hnext := ih r { c with
        own := Function.update c.own i l
        shared := s
        running := Function.update c.running i (some (k r)) } (Function.update_self ..) (by
      simp only [Function.update_self]
      exact hrest)
    simp only [Function.update_idem] at hnext
    exact .head hstep hnext

/-- A party may run from start to end with no other in between. -/
theorem Parties.runs_alone {run : (o : S.Op) → π × ρ → Option (S.Resp o × (π × ρ))} {p : Prog S α} {a : α} {l' : π}
    {s' : ρ} (hrun : ∀ o l s r l' s', run o (l, s) = some (r, (l', s')) → sem o l s r l' s')
    (hidle : c.running i = none) (hp : P p)
    (hexec : p.exec run (c.own i, c.shared) = some (a, (l', s'))) (ha : settled (some a)) :
    Relation.ReflTransGen (Parties.Step sem touch settled P) c { c with
      own := Function.update c.own i l'
      shared := s'
      last := Function.update c.last i (some a) } := by
  refine .head (.start hidle hp) (.tail (Parties.calls_alone hrun _ (Function.update_self ..) hexec) ?_)
  have hend : Parties.Step sem touch settled P _ _ := .finish (c := { c with
    own := Function.update c.own i l'
    shared := s'
    running := Function.update (Function.update c.running i (some p)) i (some (.done a))
    last := Function.update c.last i none }) (Function.update_self ..) ha
  simp only [Function.update_idem] at hend ⊢
  rw [← hidle, Function.update_eq_self] at hend
  exact hend

end Parties

end RustSync
