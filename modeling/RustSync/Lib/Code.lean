/-
Self-delimiting encodings

An encoding is self-delimiting when a value can be read back from the front of
any text that starts with its encoding. Fields written one after the other by
such encodings can be taken off again one by one, so a record is determined by
its encoding (`SelfDelimiting.cancel`).

Fixed-width encodings are self-delimiting, and so are encodings prefixed by
their length, and lines that end in a separator they do not hold
(`lines_injective`).

Key definition: `SelfDelimiting`.
-/
import Mathlib.Data.Nat.Notation

namespace RustSync

section Code

variable {α β γ : Type}

/-- Of values `P` holds of, no encoding is the front of another text but its
own. -/
def SelfDelimiting (P : α → Prop) (enc : α → List β) : Prop :=
  ∀ a b x y, P a → P b → enc a ++ x = enc b ++ y → a = b ∧ x = y

namespace SelfDelimiting

variable {P : α → Prop} {enc : α → List β}

theorem cancel (h : SelfDelimiting P enc) {a b : α} {x y : List β} (ha : P a) (hb : P b)
    (heq : enc a ++ x = enc b ++ y) : a = b ∧ x = y := h a b x y ha hb heq

theorem of_length {n : ℕ} (hlen : ∀ a, P a → (enc a).length = n)
    (hinj : ∀ a b, P a → P b → enc a = enc b → a = b) : SelfDelimiting P enc := by
  intro a b x y ha hb heq
  have hlength : (enc a).length = (enc b).length := by rw [hlen a ha, hlen b hb]
  obtain ⟨hfront, hrest⟩ := List.append_inj heq hlength
  exact ⟨hinj a b ha hb hfront, hrest⟩

/-- A value that determines, and is determined by, another. -/
theorem comap {Q : γ → Prop} (h : SelfDelimiting P enc) {f : γ → α} (hP : ∀ c, Q c → P (f c))
    (hinj : ∀ c d, Q c → Q d → f c = f d → c = d) : SelfDelimiting Q fun c => enc (f c) := by
  intro c d x y hc hd heq
  obtain ⟨hf, hrest⟩ := h.cancel (hP c hc) (hP d hd) heq
  exact ⟨hinj c d hc hd hf, hrest⟩

/-- A header that tells the length of what follows. -/
theorem of_header {Q : ℕ → Prop} {header : ℕ → List β} (hheader : SelfDelimiting Q header) :
    SelfDelimiting (fun v : List β => Q v.length) fun v => header v.length ++ v := by
  intro v w x y hv hw heq
  rw [List.append_assoc, List.append_assoc] at heq
  obtain ⟨hlength, hrest⟩ := hheader.cancel hv hw heq
  exact List.append_inj hrest hlength

end SelfDelimiting

/-- A line ends at its first separator. -/
theorem selfDelimiting_line (sep : β) :
    SelfDelimiting (fun l : List β => sep ∉ l) fun l => l ++ [sep] := by
  intro l
  induction l with
  | nil =>
    intro m x y _ hm heq
    cases m with
    | nil => exact ⟨rfl, (List.cons.inj heq).2⟩
    | cons c m =>
      have hc : sep = c := (List.cons.inj heq).1
      exact absurd (List.mem_cons.mpr (.inl hc)) hm
  | cons a l ih =>
    intro m x y hl hm heq
    cases m with
    | nil =>
      have ha : a = sep := (List.cons.inj heq).1
      exact absurd (List.mem_cons.mpr (.inl ha.symm)) hl
    | cons c m =>
      obtain ⟨rfl, hrest⟩ := List.cons.inj heq
      have hl' : sep ∉ l := fun hmem => hl (List.mem_cons_of_mem _ hmem)
      have hm' : sep ∉ m := fun hmem => hm (List.mem_cons_of_mem _ hmem)
      obtain ⟨rfl, hxy⟩ := ih m x y hl' hm' hrest
      exact ⟨rfl, hxy⟩

/-- Texts of as many lines are equal line by line. -/
theorem lines_injective {sep : β} : ∀ {l m : List (List β)}, l.length = m.length →
    (∀ line ∈ l, sep ∉ line) → (∀ line ∈ m, sep ∉ line) →
    (l.flatMap fun line => line ++ [sep]) = (m.flatMap fun line => line ++ [sep]) → l = m
  | [], [], _, _, _, _ => rfl
  | a :: l, b :: m, hlen, hl, hm, heq => by
    rw [List.flatMap_cons, List.flatMap_cons] at heq
    have ha : sep ∉ a := hl a List.mem_cons_self
    have hb : sep ∉ b := hm b List.mem_cons_self
    obtain ⟨rfl, hrest⟩ := (selfDelimiting_line sep).cancel ha hb heq
    have htail : l = m := lines_injective (Nat.succ.inj hlen)
      (fun line hline => hl line (List.mem_cons_of_mem _ hline))
      (fun line hline => hm line (List.mem_cons_of_mem _ hline)) hrest
    rw [htail]

end Code

end RustSync
