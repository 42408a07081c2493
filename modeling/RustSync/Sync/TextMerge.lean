/-
Merging text

`merge_text_three_way` chooses between lines. A text is split after each
newline, so every line but the last ends with one, and no line has one
before its end (`IsLines`); a line chosen from three texts of equally many
lines is again such a line, so what is merged splits back to the lines that
were chosen (`isLines_chooseLines`).

Key definitions: `linesOf`, `chooseLine`, `Compatible`, `IsLines`,
`MergesLines`. Key theorems: `mergeTextThreeWay_eq_some`, `text_merge_law`.
-/
import RustSync.Sync.Reconciliation

namespace RustSync

/-! ### Bytes as text -/

section Text

variable {bytes bytes' : Bytes} {text : List Char}

theorem fromUtf8_utf8 (text : List Char) : fromUtf8 (utf8 (String.ofList text)) = some text := by
  unfold fromUtf8
  rw [fromUTF8?_utf8]
  exact congrArg some String.toList_ofList

theorem utf8_of_fromUtf8 (h : fromUtf8 bytes = some text) : utf8 (String.ofList text) = bytes := by
  obtain ⟨s, hs, rfl⟩ := Option.map_eq_some_iff.mp h
  rw [String.ofList_toList]
  exact utf8_of_fromUTF8? hs

end Text

/-! ### Lines -/

/-- A newline ends the line, and there is no other. -/
def Terminated (line : List Char) : Prop := ∃ body, '\n' ∉ body ∧ line = body ++ ['\n']

/-- A line at the end of a text. -/
def LastLine (line : List Char) : Prop := Terminated line ∨ (line ≠ [] ∧ '\n' ∉ line)

/-- The lines of a text. -/
def IsLines : List (List Char) → Prop
  | [] => True
  | [line] => LastLine line
  | line :: next :: lines => Terminated line ∧ IsLines (next :: lines)

section Lines

variable {line body text : List Char} {lines : List (List Char)}

theorem Terminated.cons {ch : Char} (hch : ch ≠ '\n') (h : Terminated line) : Terminated (ch :: line) := by
  obtain ⟨body, hbody, rfl⟩ := h
  refine ⟨ch :: body, ?_, rfl⟩
  rw [List.mem_cons, not_or]
  exact ⟨Ne.symm hch, hbody⟩

theorem LastLine.cons {ch : Char} (hch : ch ≠ '\n') (h : LastLine line) : LastLine (ch :: line) := by
  rcases h with hline | ⟨_, hline⟩
  · exact .inl (hline.cons hch)
  · refine .inr ⟨List.cons_ne_nil _ _, ?_⟩
    rw [List.mem_cons, not_or]
    exact ⟨Ne.symm hch, hline⟩

theorem isLines_splitLines : ∀ text : List Char, IsLines (splitLines text)
  | [] => trivial
  | ch :: rest => by
    have ih := isLines_splitLines rest
    unfold splitLines
    by_cases hch : ch = '\n'
    · rw [if_pos hch, hch]
      have hline : Terminated ['\n'] := ⟨[], by simp, rfl⟩
      cases hrest : splitLines rest with
      | nil => exact .inl hline
      | cons next lines =>
        rw [hrest] at ih
        exact ⟨hline, ih⟩
    · rw [if_neg hch]
      cases hrest : splitLines rest with
      | nil => exact .inr ⟨List.cons_ne_nil _ _, by simpa using Ne.symm hch⟩
      | cons line lines =>
        rw [hrest] at ih
        cases lines with
        | nil => exact LastLine.cons hch ih
        | cons next lines => exact ⟨Terminated.cons hch ih.1, ih.2⟩

theorem flatten_splitLines : ∀ text : List Char, (splitLines text).flatten = text
  | [] => rfl
  | ch :: rest => by
    have ih := flatten_splitLines rest
    unfold splitLines
    by_cases hch : ch = '\n'
    · rw [if_pos hch, hch, List.flatten_cons, ih]
      rfl
    · rw [if_neg hch]
      cases hrest : splitLines rest with
      | nil =>
        rw [hrest] at ih
        rw [← ih]
        rfl
      | cons line lines =>
        rw [hrest] at ih
        rw [← ih]
        rfl

theorem splitLines_terminated (hbody : '\n' ∉ body) :
    splitLines (body ++ '\n' :: text) = (body ++ ['\n']) :: splitLines text := by
  induction body with
  | nil => simp [splitLines]
  | cons ch body ih =>
    rw [List.mem_cons, not_or] at hbody
    rw [List.cons_append, splitLines, if_neg (Ne.symm hbody.1), ih hbody.2]
    rfl

theorem splitLines_unterminated (hline : line ≠ []) (hnone : '\n' ∉ line) : splitLines line = [line] := by
  induction line with
  | nil => exact absurd rfl hline
  | cons ch line ih =>
    rw [List.mem_cons, not_or] at hnone
    rw [splitLines, if_neg (Ne.symm hnone.1)]
    cases line with
    | nil => rfl
    | cons next line => rw [ih (List.cons_ne_nil _ _) hnone.2]

/-- Lines put together split back. -/
theorem splitLines_flatten : ∀ {lines : List (List Char)}, IsLines lines → splitLines lines.flatten = lines
  | [], _ => rfl
  | [line], h => by
    rw [List.flatten_cons, List.flatten_nil, List.append_nil]
    rcases h with ⟨body, hbody, rfl⟩ | ⟨hline, hnone⟩
    · rw [splitLines_terminated hbody]
      rfl
    · exact splitLines_unterminated hline hnone
  | line :: next :: lines, h => by
    obtain ⟨⟨body, hbody, rfl⟩, hrest⟩ := h
    rw [List.flatten_cons, List.append_assoc, List.singleton_append, splitLines_terminated hbody,
      splitLines_flatten hrest]

end Lines

/-! ### Choosing lines -/

/-- The changed side of a line, else the base. -/
def chooseLine (base loc remote : List Char) : List Char :=
  if loc ≠ base then loc else if remote ≠ base then remote else base

/-- The line was not changed to two different values. -/
def Compatible (base loc remote : List Char) : Prop := loc = base ∨ remote = base ∨ loc = remote

/-- The lines of bytes that are text. -/
def linesOf (bytes : Bytes) : Option (List (List Char)) := (fromUtf8 bytes).map splitLines

/-- At each position the lines are compatible. -/
def CompatibleLines : List (List Char) → List (List Char) → List (List Char) → Prop
  | base :: bases, loc :: locs, remote :: remotes =>
    Compatible base loc remote ∧ CompatibleLines bases locs remotes
  | _, _, _ => True

section Choice

variable {base loc remote line : List Char}

theorem mergeLine_eq_some : mergeLine base loc remote = some line ↔
    Compatible base loc remote ∧ line = chooseLine base loc remote := by
  unfold mergeLine Compatible chooseLine
  by_cases hloc : loc = base <;> by_cases hremote : remote = base <;> by_cases hsame : loc = remote <;>
    simp_all [eq_comm]

theorem compatible_comm (h : Compatible base loc remote) : Compatible base remote loc := by
  rcases h with h | h | h
  · exact .inr (.inl h)
  · exact .inl h
  · exact .inr (.inr h.symm)

theorem chooseLine_comm (h : Compatible base loc remote) :
    chooseLine base loc remote = chooseLine base remote loc := by
  unfold chooseLine
  rcases h with rfl | rfl | rfl
  · by_cases hremote : remote = loc <;> simp [hremote]
  · by_cases hloc : loc = remote <;> simp [hloc]
  · rfl

/-- What was chosen is compatible with either side, and is chosen again. -/
theorem compatible_choose (h : Compatible base loc remote) :
    Compatible base (chooseLine base loc remote) loc ∧ Compatible base (chooseLine base loc remote) remote := by
  unfold Compatible chooseLine at *
  by_cases hloc : loc = base
  · by_cases hremote : remote = base
    · simp [hloc, hremote]
    · simp [hloc, hremote]
  · rcases h with h | h | h
    · exact absurd h hloc
    · simp [hloc, h]
    · subst h
      simp [hloc]

variable (base loc remote) in
theorem chooseLine_again :
    chooseLine base (chooseLine base loc remote) loc = chooseLine base loc remote ∧
      chooseLine base (chooseLine base loc remote) remote = chooseLine base loc remote := by
  unfold chooseLine
  by_cases hloc : loc = base
  · by_cases hremote : remote = base
    · simp [hloc, hremote]
    · simp [hloc, hremote]
  · simp [hloc]

theorem compatible_base (side : List Char) : Compatible base base side ∧ chooseLine base base side = side := by
  refine ⟨.inl rfl, ?_⟩
  unfold chooseLine
  by_cases hside : side = base <;> simp [hside]

/-- Where the texts have equally many lines, the chosen lines are merged. -/
theorem mergeLines_eq_some : ∀ {bases locs remotes lines : List (List Char)}, bases.length = locs.length →
    bases.length = remotes.length → (mergeLines bases locs remotes = some lines ↔
      CompatibleLines bases locs remotes ∧ lines = List.zipWith3 chooseLine bases locs remotes)
  | [], [], [], _, _, _ => by simp [mergeLines, CompatibleLines, List.zipWith3, eq_comm]
  | base :: bases, loc :: locs, remote :: remotes, _, hlocs, hremotes => by
    rw [List.length_cons, List.length_cons, Nat.add_right_cancel_iff] at hlocs hremotes
    simp only [mergeLines, Option.bind_eq_bind, Option.bind_eq_some_iff, mergeLine_eq_some,
      mergeLines_eq_some hlocs hremotes, CompatibleLines, List.zipWith3, Option.pure_def, Option.some.injEq]
    constructor
    · rintro ⟨line, ⟨hline, rfl⟩, rest, ⟨hrest, rfl⟩, rfl⟩
      exact ⟨⟨hline, hrest⟩, rfl⟩
    · rintro ⟨⟨hline, hrest⟩, rfl⟩
      exact ⟨_, ⟨hline, rfl⟩, _, ⟨hrest, rfl⟩, rfl⟩

theorem chooseLine_cases (base loc remote : List Char) :
    chooseLine base loc remote = base ∨ chooseLine base loc remote = loc ∨ chooseLine base loc remote = remote := by
  unfold chooseLine
  by_cases hloc : loc = base
  · by_cases hremote : remote = base
    · simp [hloc, hremote]
    · simp [hloc, hremote]
  · simp [hloc]

/-- Lines chosen from three texts are the lines of a text. -/
theorem isLines_chooseLines : ∀ {bases locs remotes : List (List Char)}, bases.length = locs.length →
    bases.length = remotes.length → IsLines bases → IsLines locs → IsLines remotes →
    IsLines (List.zipWith3 chooseLine bases locs remotes)
  | [], [], [], _, _, _, _, _ => trivial
  | [base], [loc], [remote], _, _, hbase, hloc, hremote => by
    change LastLine (chooseLine base loc remote)
    rcases chooseLine_cases base loc remote with heq | heq | heq
    · rw [heq]
      exact hbase
    · rw [heq]
      exact hloc
    · rw [heq]
      exact hremote
  | base :: base' :: bases, loc :: loc' :: locs, remote :: remote' :: remotes, hlocs, hremotes, hbase, hloc,
      hremote => by
    have hrest : IsLines (List.zipWith3 chooseLine (base' :: bases) (loc' :: locs) (remote' :: remotes)) :=
      isLines_chooseLines (by simpa using hlocs) (by simpa using hremotes) hbase.2 hloc.2 hremote.2
    refine ⟨?_, hrest⟩
    rcases chooseLine_cases base loc remote with heq | heq | heq
    · rw [heq]
      exact hbase.1
    · rw [heq]
      exact hloc.1
    · rw [heq]
      exact hremote.1

theorem length_chooseLines : ∀ {bases locs remotes : List (List Char)}, bases.length = locs.length →
    bases.length = remotes.length → (List.zipWith3 chooseLine bases locs remotes).length = bases.length
  | [], [], [], _, _ => rfl
  | base :: bases, loc :: locs, remote :: remotes, hlocs, hremotes => by
    rw [List.length_cons, List.length_cons, Nat.add_right_cancel_iff] at hlocs hremotes
    simp [List.zipWith3, length_chooseLines hlocs hremotes]

end Choice

/-! ### The law -/

section Law

variable {base loc remote merged side : Bytes} {bases locs remotes sides : List (List Char)}

theorem linesOf_eq_some : linesOf merged = some bases ↔ ∃ text, fromUtf8 merged = some text ∧ splitLines text = bases :=
  Option.map_eq_some_iff

theorem isLines_linesOf (h : linesOf base = some bases) : IsLines bases := by
  obtain ⟨text, _, rfl⟩ := linesOf_eq_some.mp h
  exact isLines_splitLines text

/-- The lines of a text are the text. -/
theorem utf8_linesOf (h : linesOf base = some bases) : utf8 (String.ofList bases.flatten) = base := by
  obtain ⟨text, htext, rfl⟩ := linesOf_eq_some.mp h
  rw [flatten_splitLines, utf8_of_fromUtf8 htext]

theorem linesOf_utf8 (h : IsLines bases) : linesOf (utf8 (String.ofList bases.flatten)) = some bases := by
  rw [linesOf_eq_some]
  exact ⟨_, fromUtf8_utf8 _, splitLines_flatten h⟩

theorem mergeTextThreeWay_of_lines (hbase : linesOf base = some bases) (hloc : linesOf loc = some locs)
    (hremote : linesOf remote = some remotes) : mergeTextThreeWay base loc remote = some merged ↔
      bases.length = locs.length ∧ bases.length = remotes.length ∧ CompatibleLines bases locs remotes ∧
        merged = utf8 (String.ofList (List.zipWith3 chooseLine bases locs remotes).flatten) := by
  obtain ⟨baseText, hbaseText, rfl⟩ := linesOf_eq_some.mp hbase
  obtain ⟨localText, hlocalText, rfl⟩ := linesOf_eq_some.mp hloc
  obtain ⟨remoteText, hremoteText, rfl⟩ := linesOf_eq_some.mp hremote
  unfold mergeTextThreeWay
  simp only [hbaseText, hlocalText, hremoteText, Option.bind_eq_bind, Option.bind_some]
  by_cases hlengths : (splitLines baseText).length ≠ (splitLines localText).length ∨
      (splitLines baseText).length ≠ (splitLines remoteText).length
  · rw [if_pos hlengths]
    constructor
    · intro h
      cases h
    · rintro ⟨hlocs, hremotes, _⟩
      rcases hlengths with hne | hne
      · exact absurd hlocs hne
      · exact absurd hremotes hne
  · rw [if_neg hlengths]
    push Not at hlengths
    simp only [Option.bind_eq_some_iff, Option.pure_def, Option.some.injEq]
    constructor
    · rintro ⟨lines, hlines, rfl⟩
      obtain ⟨hcompatible, rfl⟩ := (mergeLines_eq_some hlengths.1 hlengths.2).mp hlines
      exact ⟨hlengths.1, hlengths.2, hcompatible, rfl⟩
    · rintro ⟨_, _, hcompatible, rfl⟩
      exact ⟨_, (mergeLines_eq_some hlengths.1 hlengths.2).mpr ⟨hcompatible, rfl⟩, rfl⟩

/-- At each position the line of `merged` is the one that was changed, else the
base's; no line was changed to two different values, added or removed. -/
def MergesLines (base loc remote merged : Bytes) : Prop :=
  ∃ bases locs remotes, linesOf base = some bases ∧ linesOf loc = some locs ∧ linesOf remote = some remotes ∧
    bases.length = locs.length ∧ bases.length = remotes.length ∧ CompatibleLines bases locs remotes ∧
    linesOf merged = some (List.zipWith3 chooseLine bases locs remotes)

/-- What is merged is text on all sides. -/
theorem linesOf_of_merge (h : mergeTextThreeWay base loc remote = some merged) :
    ∃ bases locs remotes, linesOf base = some bases ∧ linesOf loc = some locs ∧ linesOf remote = some remotes := by
  unfold mergeTextThreeWay at h
  simp only [Option.bind_eq_bind, Option.bind_eq_some_iff] at h
  obtain ⟨baseText, hbase, localText, hloc, remoteText, hremote, _⟩ := h
  exact ⟨_, _, _, linesOf_eq_some.mpr ⟨_, hbase, rfl⟩, linesOf_eq_some.mpr ⟨_, hloc, rfl⟩,
    linesOf_eq_some.mpr ⟨_, hremote, rfl⟩⟩

/-- **What is merged is the lines that were changed.** -/
theorem mergeTextThreeWay_eq_some :
    mergeTextThreeWay base loc remote = some merged ↔ MergesLines base loc remote merged := by
  constructor
  · intro h
    obtain ⟨bases, locs, remotes, hbase, hloc, hremote⟩ := linesOf_of_merge h
    obtain ⟨hlocs, hremotes, hcompatible, rfl⟩ := (mergeTextThreeWay_of_lines hbase hloc hremote).mp h
    refine ⟨bases, locs, remotes, hbase, hloc, hremote, hlocs, hremotes, hcompatible, linesOf_utf8 ?_⟩
    exact isLines_chooseLines hlocs hremotes (isLines_linesOf hbase) (isLines_linesOf hloc) (isLines_linesOf hremote)
  · rintro ⟨bases, locs, remotes, hbase, hloc, hremote, hlocs, hremotes, hcompatible, hmerged⟩
    exact (mergeTextThreeWay_of_lines hbase hloc hremote).mpr
      ⟨hlocs, hremotes, hcompatible, (utf8_linesOf hmerged).symm⟩

theorem compatibleLines_comm : ∀ {bases locs remotes : List (List Char)}, bases.length = locs.length →
    bases.length = remotes.length → CompatibleLines bases locs remotes →
    CompatibleLines bases remotes locs ∧
      List.zipWith3 chooseLine bases locs remotes = List.zipWith3 chooseLine bases remotes locs
  | [], [], [], _, _, _ => ⟨trivial, rfl⟩
  | base :: bases, loc :: locs, remote :: remotes, hlocs, hremotes, ⟨hline, hrest⟩ => by
    rw [List.length_cons, List.length_cons, Nat.add_right_cancel_iff] at hlocs hremotes
    obtain ⟨hcompatible, hsame⟩ := compatibleLines_comm hlocs hremotes hrest
    refine ⟨⟨compatible_comm hline, hcompatible⟩, ?_⟩
    rw [List.zipWith3, List.zipWith3, chooseLine_comm hline, hsame]

/-- Merging what was chosen with either side chooses it again. -/
theorem compatibleLines_again : ∀ {bases locs remotes : List (List Char)}, bases.length = locs.length →
    bases.length = remotes.length → CompatibleLines bases locs remotes →
    (CompatibleLines bases (List.zipWith3 chooseLine bases locs remotes) locs ∧
      List.zipWith3 chooseLine bases (List.zipWith3 chooseLine bases locs remotes) locs =
        List.zipWith3 chooseLine bases locs remotes) ∧
    (CompatibleLines bases (List.zipWith3 chooseLine bases locs remotes) remotes ∧
      List.zipWith3 chooseLine bases (List.zipWith3 chooseLine bases locs remotes) remotes =
        List.zipWith3 chooseLine bases locs remotes)
  | [], [], [], _, _, _ => ⟨⟨trivial, rfl⟩, ⟨trivial, rfl⟩⟩
  | base :: bases, loc :: locs, remote :: remotes, hlocs, hremotes, ⟨hline, hrest⟩ => by
    rw [List.length_cons, List.length_cons, Nat.add_right_cancel_iff] at hlocs hremotes
    obtain ⟨⟨hloc, hlocAgain⟩, ⟨hremote, hremoteAgain⟩⟩ := compatibleLines_again hlocs hremotes hrest
    obtain ⟨hlineLoc, hlineRemote⟩ := compatible_choose hline
    obtain ⟨hagainLoc, hagainRemote⟩ := chooseLine_again base loc remote
    refine ⟨⟨⟨hlineLoc, hloc⟩, ?_⟩, ⟨⟨hlineRemote, hremote⟩, ?_⟩⟩
    · rw [List.zipWith3, List.zipWith3, hagainLoc, hlocAgain]
    · rw [List.zipWith3, List.zipWith3, hagainRemote, hremoteAgain]

/-- Merging the base with a side chooses the side. -/
theorem compatibleLines_base : ∀ {bases sides : List (List Char)}, bases.length = sides.length →
    CompatibleLines bases bases sides ∧ List.zipWith3 chooseLine bases bases sides = sides
  | [], [], _ => ⟨trivial, rfl⟩
  | base :: bases, side :: sides, h => by
    rw [List.length_cons, List.length_cons, Nat.add_right_cancel_iff] at h
    obtain ⟨hcompatible, hsame⟩ := compatibleLines_base h
    refine ⟨⟨(compatible_base side).1, hcompatible⟩, ?_⟩
    rw [List.zipWith3, (compatible_base side).2, hsame]

theorem merge_comm_of_some (h : mergeTextThreeWay base loc remote = some merged) :
    mergeTextThreeWay base remote loc = some merged := by
  obtain ⟨bases, locs, remotes, hbase, hloc, hremote⟩ := linesOf_of_merge h
  obtain ⟨hlocs, hremotes, hcompatible, rfl⟩ := (mergeTextThreeWay_of_lines hbase hloc hremote).mp h
  obtain ⟨hcompatible', hsame⟩ := compatibleLines_comm hlocs hremotes hcompatible
  rw [hsame]
  exact (mergeTextThreeWay_of_lines hbase hremote hloc).mpr ⟨hremotes, hlocs, hcompatible', rfl⟩

/-- **`merge_text_three_way` is the line-wise three-way merge.** -/
structure TextMergeLaw (base loc remote : Bytes) : Prop where
  lines : ∀ text lines, linesOf text = some lines → IsLines lines ∧ utf8 (String.ofList lines.flatten) = text
  succeeds : (∃ merged, mergeTextThreeWay base loc remote = some merged) ↔
    ∃ bases locs remotes, linesOf base = some bases ∧ linesOf loc = some locs ∧ linesOf remote = some remotes ∧
      bases.length = locs.length ∧ bases.length = remotes.length ∧ CompatibleLines bases locs remotes
  chosen : ∀ merged, mergeTextThreeWay base loc remote = some merged →
    ∃ bases locs remotes, linesOf base = some bases ∧ linesOf loc = some locs ∧ linesOf remote = some remotes ∧
      linesOf merged = some (List.zipWith3 chooseLine bases locs remotes) ∧
      (List.zipWith3 chooseLine bases locs remotes).length = bases.length
  commutes : mergeTextThreeWay base loc remote = mergeTextThreeWay base remote loc
  unchanged : ∀ bases locs, linesOf base = some bases → linesOf loc = some locs → bases.length = locs.length →
    mergeTextThreeWay base loc base = some loc ∧ mergeTextThreeWay base base loc = some loc
  again : ∀ merged, mergeTextThreeWay base loc remote = some merged →
    mergeTextThreeWay base merged loc = some merged ∧ mergeTextThreeWay base merged remote = some merged

theorem text_merge_law (base loc remote : Bytes) : TextMergeLaw base loc remote where
  lines text lines h := ⟨isLines_linesOf h, utf8_linesOf h⟩
  succeeds := by
    constructor
    · rintro ⟨merged, h⟩
      obtain ⟨bases, locs, remotes, hbase, hloc, hremote, hlocs, hremotes, hcompatible, _⟩ :=
        mergeTextThreeWay_eq_some.mp h
      exact ⟨bases, locs, remotes, hbase, hloc, hremote, hlocs, hremotes, hcompatible⟩
    · rintro ⟨bases, locs, remotes, hbase, hloc, hremote, hlocs, hremotes, hcompatible⟩
      exact ⟨_, (mergeTextThreeWay_of_lines hbase hloc hremote).mpr ⟨hlocs, hremotes, hcompatible, rfl⟩⟩
  chosen merged h := by
    obtain ⟨bases, locs, remotes, hbase, hloc, hremote, hlocs, hremotes, _, hmerged⟩ :=
      mergeTextThreeWay_eq_some.mp h
    exact ⟨bases, locs, remotes, hbase, hloc, hremote, hmerged, length_chooseLines hlocs hremotes⟩
  commutes := by
    apply Option.ext
    intro merged
    exact ⟨merge_comm_of_some, merge_comm_of_some⟩
  unchanged bases locs hbase hloc hlocs := by
    obtain ⟨hcompatible, hsame⟩ := compatibleLines_base hlocs
    have hside : mergeTextThreeWay base base loc = some loc := by
      refine (mergeTextThreeWay_of_lines hbase hbase hloc).mpr ⟨rfl, hlocs, hcompatible, ?_⟩
      rw [hsame, utf8_linesOf hloc]
    exact ⟨merge_comm_of_some hside, hside⟩
  again merged h := by
    obtain ⟨bases, locs, remotes, hbase, hloc, hremote, hlocs, hremotes, hcompatible, hmerged⟩ :=
      mergeTextThreeWay_eq_some.mp h
    have hlength := length_chooseLines hlocs hremotes
    obtain ⟨⟨hcompatibleLoc, hlocAgain⟩, ⟨hcompatibleRemote, hremoteAgain⟩⟩ :=
      compatibleLines_again hlocs hremotes hcompatible
    constructor
    · refine mergeTextThreeWay_eq_some.mpr
        ⟨bases, _, locs, hbase, hmerged, hloc, hlength.symm, hlocs, hcompatibleLoc, ?_⟩
      rw [hlocAgain, hmerged]
    · refine mergeTextThreeWay_eq_some.mpr
        ⟨bases, _, remotes, hbase, hmerged, hremote, hlength.symm, hremotes, hcompatibleRemote, ?_⟩
      rw [hremoteAgain, hmerged]

end Law

end RustSync
