/-
Methods on a mutable receiver

A method that takes `&mut self` and returns a `Result` keeps what it has
written when it fails. Its model is a state transformer whose failures carry
the state as well (`Mut`), so that leaving the state alone on failure is a
property of the method and not of the model.

`Atomic x s Q` says the method does: from `s`, `x` either fails and leaves
`s`, or succeeds in a way `Q` describes. It is kept by a check before the rest
(`Atomic.check_bind`) and by a write after it (`Atomic.bind_modify`); a check
after a write is what it rules out.

Key definitions: `Mut`, `Mut.exec`, `Mut.check`, `Mut.Atomic`.
-/
import Mathlib.Data.Nat.Notation

namespace RustSync

/-- A method on a `σ`. -/
abbrev Mut (σ ε : Type) := ExceptT ε (StateM σ)

namespace Mut

variable {σ ε α β : Type}

/-- What the method returns from `s`, and the receiver after it. -/
def exec (x : Mut σ ε α) (s : σ) : Except ε α × σ := StateT.run (ExceptT.run x) s

/-- A fallible step that only reads: `x?`. -/
def check (x : Except ε α) : Mut σ ε α := ExceptT.mk (pure x)

@[simp] theorem exec_check {x : Except ε α} {s : σ} : (check x : Mut σ ε α).exec s = (x, s) := rfl

theorem exec_bind {x : Mut σ ε α} {f : α → Mut σ ε β} {s : σ} :
    (x >>= f).exec s =
      match x.exec s with
      | (.ok a, s') => (f a).exec s'
      | (.error e, s') => (.error e, s') := by
  simp only [exec, ExceptT.run_bind, StateT.run_bind]
  rcases StateT.run (ExceptT.run x) s with ⟨_ | _, _⟩ <;> rfl

/-- From `s`, `x` fails and leaves `s`, or it ends as `Q` says. -/
def Atomic (x : Mut σ ε α) (s : σ) (Q : α → σ → Prop) : Prop :=
  match x.exec s with
  | (.ok a, s') => Q a s'
  | (.error _, s') => s' = s

namespace Atomic

variable {s s' : σ} {Q R : α → σ → Prop}

theorem failed {x : Mut σ ε α} (h : Atomic x s Q) {e : ε} (hx : x.exec s = (.error e, s')) :
    s' = s := by
  simpa [Atomic, hx] using h

theorem succeeded {x : Mut σ ε α} (h : Atomic x s Q) {a : α} (hx : x.exec s = (.ok a, s')) :
    Q a s' := by
  simpa [Atomic, hx] using h

theorem check_bind {x : Except ε β} {f : β → Mut σ ε α} (h : ∀ b, x = .ok b → Atomic (f b) s Q) :
    Atomic (Mut.check x >>= f) s Q := by
  unfold Atomic
  rw [exec_bind, exec_check]
  cases x with
  | ok b => exact h b rfl
  | error e => rfl

theorem get_bind {f : σ → Mut σ ε α} (h : Atomic (f s) s Q) : Atomic (get >>= f) s Q := h

theorem of_modify {f : σ → σ} {Q : PUnit → σ → Prop} (h : Q ⟨⟩ (f s)) :
    Atomic (modify f : Mut σ ε PUnit) s Q := h

/-- Writing after an atomic method keeps it atomic. -/
theorem bind_modify {x : Mut σ ε β} {f : β → σ → σ} {Q : β → σ → Prop} {R : PUnit → σ → Prop}
    (hx : Atomic x s Q) (h : ∀ b s', Q b s' → R ⟨⟩ (f b s')) :
    Atomic (x >>= fun b => (modify (f b) : Mut σ ε PUnit)) s R := by
  unfold Atomic at hx ⊢
  rw [exec_bind]
  rcases hr : x.exec s with ⟨_ | b, s'⟩
  · rw [hr] at hx
    exact hx
  · rw [hr] at hx
    exact h b s' hx

end Atomic

end Mut
end RustSync
