/-
Paths of URLs

A relative path is read from a directory segment by segment: `.` stays where it
is and `..` goes one up, also where a dot is written as an escape, and at the
end of the path they stand for an empty segment. What is read has no such
segments, so it is what was written just if that had none (`readPath_eq_iff`).

Key definitions: `DotSegment`, `readSegments`, `urlPath`.
-/
import RustSync.Lib.Path

namespace RustSync

def SingleDot (segment : List Char) : Prop := segment.map Char.toLower ∈ [".".toList, "%2e".toList]

def DoubleDot (segment : List Char) : Prop :=
  segment.map Char.toLower ∈ ["..".toList, ".%2e".toList, "%2e.".toList, "%2e%2e".toList]

def DotSegment (segment : List Char) : Prop := SingleDot segment ∨ DoubleDot segment

instance (segment : List Char) : Decidable (SingleDot segment) :=
  inferInstanceAs (Decidable (_ ∈ [".".toList, "%2e".toList]))

instance (segment : List Char) : Decidable (DoubleDot segment) :=
  inferInstanceAs (Decidable (_ ∈ ["..".toList, ".%2e".toList, "%2e.".toList, "%2e%2e".toList]))

instance (segment : List Char) : Decidable (DotSegment segment) := inferInstanceAs (Decidable (_ ∨ _))

/-- The path state of the URL parser, from the segments of a directory. -/
def readSegments (dir : List (List Char)) : List (List Char) → List (List Char)
  | [] => dir
  | [last] =>
    if DoubleDot last then dir.dropLast ++ [[]]
    else if SingleDot last then dir ++ [[]]
    else dir ++ [last]
  | segment :: next :: rest =>
    if DoubleDot segment then readSegments dir.dropLast (next :: rest)
    else if SingleDot segment then readSegments dir (next :: rest)
    else readSegments (dir ++ [segment]) (next :: rest)

/-- The text of a path. -/
def urlPath (segments : List (List Char)) : List Char := segments.flatMap ('/' :: ·)

section Segments

variable {dir segments : List (List Char)} {segment text : List Char}

/-- What is no small letter is only its own lower case. -/
theorem eq_of_toLower_eq {c d : Char} (hd : d.isLower = false) (h : c.toLower = d) : c = d := by
  unfold Char.toLower at h
  split at h
  · rename_i hupper
    have hlower : d.isLower = true := by
      rw [← h]
      have hle := UInt32.le_iff_toNat_le.mp hupper.1
      have hge := UInt32.le_iff_toNat_le.mp hupper.2
      unfold Char.isLower
      simp only [UInt32.le_iff_toNat_le, Bool.and_eq_true, decide_eq_true_eq]
      rw [UInt32.toNat_add]
      simp at hle hge ⊢
      omega
    rw [hlower] at hd
    cases hd
  · exact h

/-- A segment without escapes is no dot segment unless it is of dots. -/
theorem dotSegment_iff (hescape : '%' ∉ segment) : DotSegment segment ↔ segment = ['.'] ∨ segment = ['.', '.'] := by
  constructor
  · intro h
    have hplain {lower : List Char} (hlower : segment.map Char.toLower = lower) : '%' ∉ lower := by
      rintro hmem
      rw [← hlower] at hmem
      obtain ⟨c, hc, heq⟩ := List.mem_map.mp hmem
      exact hescape (eq_of_toLower_eq (by decide) heq ▸ hc)
    have hdots {n : ℕ} (h : segment.map Char.toLower = List.replicate n '.') : segment = List.replicate n '.' := by
      rw [List.eq_replicate_iff] at h ⊢
      refine ⟨by simpa using h.1, fun c hc => ?_⟩
      exact eq_of_toLower_eq (by decide) (h.2 _ (List.mem_map_of_mem hc))
    rcases h with h | h
    · rcases List.mem_cons.mp h with h | h
      · exact .inl (hdots (n := 1) h)
      · exact absurd (by simp) (hplain (List.mem_singleton.mp h))
    · rcases List.mem_cons.mp h with h | h
      · exact .inr (hdots (n := 2) h)
      · simp only [List.mem_cons, List.not_mem_nil, or_false] at h
        rcases h with h | h | h
        · exact absurd (by simp) (hplain h)
        · exact absurd (by simp) (hplain h)
        · exact absurd (by simp) (hplain h)
  · rintro (rfl | rfl)
    · decide
    · decide

theorem not_dotSegment_nil : ¬ DotSegment [] := by decide

/-- Other segments are added as they are. -/
theorem readSegments_plain : ∀ {segments dir : List (List Char)}, (∀ segment ∈ segments, ¬ DotSegment segment) →
    readSegments dir segments = dir ++ segments
  | [], dir, _ => by rw [readSegments, List.append_nil]
  | [last], dir, h => by
    have hlast := h last (List.mem_singleton_self last)
    rw [DotSegment, not_or] at hlast
    rw [readSegments, if_neg hlast.2, if_neg hlast.1]
  | segment :: next :: rest, dir, h => by
    have hsegment := h segment List.mem_cons_self
    rw [DotSegment, not_or] at hsegment
    have hrest : ∀ segment ∈ next :: rest, ¬ DotSegment segment := fun other hother =>
      h other (List.mem_cons_of_mem _ hother)
    rw [readSegments, if_neg hsegment.2, if_neg hsegment.1, readSegments_plain hrest, List.append_assoc,
      List.singleton_append]

/-- What a directory has, every segment that is added, and the empty one, have
all that is read. -/
theorem readSegments_induction {p : List Char → Prop} (hnil : p []) :
    ∀ {segments dir : List (List Char)}, (∀ segment ∈ dir, p segment) →
      (∀ segment ∈ segments, ¬ DotSegment segment → p segment) → ∀ segment ∈ readSegments dir segments, p segment
  | [], dir, hdir, _ => by
    rw [readSegments]
    exact hdir
  | [last], dir, hdir, h => by
    rw [readSegments]
    have hup : ∀ segment ∈ dir.dropLast, p segment := fun segment hmem => hdir segment (List.mem_of_mem_dropLast hmem)
    have hadd {dir : List (List Char)} {name : List Char} (hdir : ∀ segment ∈ dir, p segment) (hname : p name) :
        ∀ segment ∈ dir ++ [name], p segment := by
      intro segment hmem
      rcases List.mem_append.mp hmem with hmem | hmem
      · exact hdir segment hmem
      · rw [List.mem_singleton.mp hmem]
        exact hname
    by_cases hdouble : DoubleDot last
    · rw [if_pos hdouble]
      exact hadd hup hnil
    · rw [if_neg hdouble]
      by_cases hsingle : SingleDot last
      · rw [if_pos hsingle]
        exact hadd hdir hnil
      · rw [if_neg hsingle]
        exact hadd hdir (h last (List.mem_singleton_self last) (not_or.mpr ⟨hsingle, hdouble⟩))
  | segment :: next :: rest, dir, hdir, h => by
    have hrest : ∀ segment ∈ next :: rest, ¬ DotSegment segment → p segment := fun other hother =>
      h other (List.mem_cons_of_mem _ hother)
    rw [readSegments]
    by_cases hdouble : DoubleDot segment
    · rw [if_pos hdouble]
      exact readSegments_induction hnil (fun segment hmem => hdir segment (List.mem_of_mem_dropLast hmem)) hrest
    · rw [if_neg hdouble]
      by_cases hsingle : SingleDot segment
      · rw [if_pos hsingle]
        exact readSegments_induction hnil hdir hrest
      · rw [if_neg hsingle]
        apply readSegments_induction hnil _ hrest
        intro other hmem
        rcases List.mem_append.mp hmem with hmem | hmem
        · exact hdir other hmem
        · rw [List.mem_singleton.mp hmem]
          exact h segment List.mem_cons_self (not_or.mpr ⟨hsingle, hdouble⟩)

/-- The text of a path has its segments as components, behind the first `/`. -/
theorem components_urlPath : ∀ {segments : List (List Char)}, (∀ segment ∈ segments, '/' ∉ segment) →
    components (urlPath segments) = [] :: segments
  | [], _ => rfl
  | segment :: rest, h => by
    have hrest := @components_urlPath rest fun other hother => h other (List.mem_cons_of_mem _ hother)
    have hsegment : '/' ∉ segment := h segment List.mem_cons_self
    rw [urlPath, List.flatMap_cons, ← urlPath, List.cons_append, components, if_pos rfl]
    cases rest with
    | nil =>
      rw [urlPath, List.flatMap_nil, List.append_nil, components_of_noSlash hsegment]
    | cons next others =>
      rw [urlPath, List.flatMap_cons, List.cons_append, components, if_pos rfl, List.cons.injEq] at hrest
      rw [urlPath, List.flatMap_cons, List.cons_append, components_append_slash, components_of_noSlash hsegment,
        hrest.2]
      rfl

theorem urlPath_components : ∀ text : List Char, urlPath (components text) = '/' :: text
  | [] => rfl
  | ch :: rest => by
    have hrest := urlPath_components rest
    unfold components
    by_cases hslash : ch = '/'
    · rw [if_pos hslash, urlPath, List.flatMap_cons, ← urlPath, hrest, hslash]
      rfl
    · rw [if_neg hslash]
      cases hcomponents : components rest with
      | nil => exact absurd hcomponents (components_ne_nil rest)
      | cons first others =>
        rw [hcomponents, urlPath, List.flatMap_cons, List.cons_append, List.cons.injEq] at hrest
        simp only [urlPath, List.flatMap_cons, List.cons_append, hrest.2]

/-- **A path is read as it is written** just if it has no dot segment. -/
theorem readPath_eq_iff : urlPath (readSegments [] (components text)) = '/' :: text ↔
    ∀ segment ∈ components text, ¬ DotSegment segment := by
  constructor
  · intro h
    have hslash : ∀ segment ∈ readSegments [] (components text), '/' ∉ segment :=
      readSegments_induction (by simp) (by simp) fun segment hmem _ => slash_not_mem_component hmem
    have hdots : ∀ segment ∈ readSegments [] (components text), ¬ DotSegment segment :=
      readSegments_induction not_dotSegment_nil (by simp) fun segment _ hdot => hdot
    have hcomponents := congrArg components h
    rw [components_urlPath hslash, ← urlPath_components, components_urlPath fun _ => slash_not_mem_component,
      List.cons.injEq] at hcomponents
    rwa [hcomponents.2] at hdots
  · intro h
    rw [readSegments_plain h, List.nil_append, urlPath_components]

end Segments

end RustSync
