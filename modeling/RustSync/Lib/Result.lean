/-
Fallible steps

A Rust function that fails early is a chain of checks and lookups in
`Except`. The rules below take such a chain apart: a chain that returned a
value made every one of its steps (`Except.bind_ok`), a check that passed
holds (`require_ok`), a loop of checks that passed did so for every item
(`forM_ok`).

Key definitions: `require`, `okOr`.
-/
import Mathlib.Data.Nat.Notation

namespace RustSync

section Result

variable {ε α β : Type}

/-- `if !p { return Err(e) }`. -/
def require (p : Prop) [Decidable p] (e : ε) : Except ε Unit := if p then .ok () else .error e

/-- `Option::ok_or`. -/
def okOr (o : Option α) (e : ε) : Except ε α :=
  match o with
  | some a => .ok a
  | none => .error e

@[simp] theorem Except.bind_ok {x : Except ε α} {f : α → Except ε β} {b : β} :
    (x >>= f) = .ok b ↔ ∃ a, x = .ok a ∧ f a = .ok b := by
  cases x with
  | ok a =>
    constructor
    · intro h
      exact ⟨a, rfl, h⟩
    · rintro ⟨_, ⟨⟩, hf⟩
      exact hf
  | error e =>
    constructor
    · rintro ⟨⟩
    · rintro ⟨_, ⟨⟩, _⟩

/-- A step without a value. -/
@[simp high] theorem Except.bind_unit_ok {x : Except ε Unit} {f : Unit → Except ε β} {b : β} :
    (x >>= f) = .ok b ↔ x = .ok () ∧ f () = .ok b := by
  rw [Except.bind_ok]
  exact ⟨fun ⟨_, h⟩ => h, fun h => ⟨(), h⟩⟩

@[simp] theorem require_ok {p : Prop} [Decidable p] {e : ε} {u : Unit} :
    require p e = .ok u ↔ p := by
  unfold require
  split <;> simp_all

@[simp] theorem okOr_ok {o : Option α} {e : ε} {a : α} : okOr o e = .ok a ↔ o = some a := by
  cases o <;> simp [okOr]

@[simp] theorem Except.mapError_ok {δ : Type} {x : Except ε α} {f : ε → δ} {a : α} :
    x.mapError f = .ok a ↔ x = .ok a := by
  unfold Except.mapError
  cases x <;> simp

theorem Except.isOk_iff {x : Except ε α} : x.isOk = true ↔ ∃ a, x = .ok a := by
  cases x <;> simp [Except.isOk, Except.toBool]

/-- A loop of checks passes exactly when every item does. -/
theorem forM_ok {f : α → Except ε PUnit} {u : PUnit} : ∀ {l : List α},
    forM l f = .ok u ↔ ∀ a ∈ l, f a = .ok ()
  | [] => by simp [pure, Except.pure]
  | a :: l => by
    rw [List.forM_cons, Except.bind_ok, List.forall_mem_cons]
    constructor
    · rintro ⟨_, ha, hl⟩
      exact ⟨ha, forM_ok.mp hl⟩
    · rintro ⟨ha, hl⟩
      exact ⟨_, ha, forM_ok.mpr hl⟩

/-- A loop keeps what every one of its steps keeps, which may speak of the
items met so far. -/
theorem foldlM_inv {f : β → α → Except ε β} {l : List α} (P : List α → β → Prop) {b out : β} (hstart : P [] b)
    (hstep : ∀ done a rest s s', l = done ++ a :: rest → P done s → f s a = .ok s' → P (done ++ [a]) s')
    (h : l.foldlM f b = .ok out) : P l out := by
  have hrest : ∀ (rest done : List α) (s : β), l = done ++ rest → P done s → rest.foldlM f s = .ok out →
      P l out := by
    intro rest
    induction rest with
    | nil =>
      intro done s hl hs hout
      cases hout
      rw [hl, List.append_nil]
      exact hs
    | cons a rest ih =>
      intro done s hl hs hout
      rw [List.foldlM_cons, Except.bind_ok] at hout
      obtain ⟨s', hfirst, hout⟩ := hout
      exact ih (done ++ [a]) s' (by simp [hl]) (hstep done a rest s s' hl hs hfirst) hout
  exact hrest l [] b rfl hstart h

end Result

end RustSync
