import Gherkin.Proofs.Text.Lines
import Gherkin.Description

/-!
# Trimmed descriptions

A trimmed description is a block: its lines have no blanks at their end, the
first and the last of them say something, and not all of them are indented. A
block that is written with an indentation is trimmed to what it was.
-/

namespace Gherkin

namespace Description

/-- The lines of a trimmed description. -/
structure IsBlock (ls : List Text) : Prop where
  ends : ∀ line ∈ ls, Text.trimEnd line = line
  oneLine : ∀ line ∈ ls, '\n' ∉ line
  stripped : IsStripped List.isEmpty ls
  flush : sharedIndent ls = 0

/-- A line behind an indentation; an empty line stays empty. -/
def indented (front line : Text) : Text := if line.isEmpty then [] else front ++ line

theorem dropOuter_eq_strip (ls : List Text) : dropOuter ls = strip List.isEmpty ls := rfl

theorem sharedIndent_eq_iff {ls : List Text} {limit : Nat} (some : ∃ line ∈ ls, line ≠ []) :
    sharedIndent ls = limit ↔ (∃ line ∈ ls, line ≠ [] ∧ Text.indent line = limit) ∧
      ∀ line ∈ ls, line ≠ [] → limit ≤ Text.indent line := by
  unfold sharedIndent
  cases found : ((ls.filter fun line => !line.isEmpty).map Text.indent).min? with
  | none =>
      obtain ⟨line, member, written⟩ := some
      have empty := List.min?_eq_none_iff.mp found
      rw [List.map_eq_nil_iff, List.filter_eq_nil_iff] at empty
      exact absurd (empty line member) (by simp [written])
  | some least =>
      obtain ⟨reached, bound⟩ := List.min?_eq_some_iff.mp found
      simp only [List.mem_map, List.mem_filter, Bool.not_eq_true', List.isEmpty_eq_false_iff,
        forall_exists_index, and_imp] at reached bound
      obtain ⟨line, ⟨member, written⟩, same⟩ := reached
      have least_le : ∀ other ∈ ls, other ≠ [] → least ≤ Text.indent other :=
        fun other inside spelled => bound _ other inside spelled rfl
      rw [Option.getD_some]
      constructor
      · rintro rfl
        exact ⟨⟨line, member, written, same⟩, least_le⟩
      · rintro ⟨⟨other, inside, spelled, rfl⟩, lower⟩
        exact Nat.le_antisymm (least_le other inside spelled) (same ▸ lower line member written)

theorem sharedIndent_le {ls : List Text} {line : Text} (member : line ∈ ls) (written : line ≠ []) :
    sharedIndent ls ≤ Text.indent line :=
  ((sharedIndent_eq_iff ⟨line, member, written⟩).mp rfl).2 line member written

/-- A line that does not end with a blank is longer than its indentation. -/
theorem indent_lt_length {line : Text} (ends : Text.trimEnd line = line) (written : line ≠ []) :
    Text.indent line < line.length := by
  refine lt_of_le_of_ne (List.takeWhile_prefix _).length_le fun same => written ?_
  have whole : line.takeWhile Text.isBlank = line :=
    (List.takeWhile_prefix Text.isBlank).eq_of_length same
  rw [← ends]
  exact Text.trimEnd_eq_nil_iff.mpr fun c member => by
    rw [← whole] at member
    exact List.mem_takeWhile_imp member

theorem indent_drop (line : Text) {count : Nat} (bound : count ≤ Text.indent line) :
    Text.indent (line.drop count) = Text.indent line - count := by
  induction line generalizing count with
  | nil => simp [Text.indent]
  | cons c line ih =>
      cases count with
      | zero => simp
      | succ count =>
          by_cases blank : Text.isBlank c
          · have step : Text.indent (c :: line) = Text.indent line + 1 := by
              simp [Text.indent, blank]
            rw [step] at bound ⊢
            rw [List.drop_succ_cons, ih (Nat.le_of_succ_le_succ bound), Nat.add_sub_add_right]
          · simp [Text.indent, blank] at bound

/-- Taking blanks from the front of a line does not change what is left after trimming. -/
theorem trim_drop {line : Text} {count : Nat} (bound : count ≤ Text.indent line) :
    Text.trim (line.drop count) = Text.trim line := by
  conv_rhs => rw [← List.take_append_drop count line]
  refine (Text.trim_append_left _ fun c member => ?_).symm
  have inside : line.take count <+: line.takeWhile Text.isBlank :=
    List.prefix_of_prefix_length_le (List.take_prefix count line) (List.takeWhile_prefix _)
      (by simpa [Text.indent] using Nat.le_trans (Nat.min_le_left _ _) bound)
  exact List.mem_takeWhile_imp (inside.subset member)

theorem trimEnd_drop {line : Text} (count : Nat) (ends : Text.trimEnd line = line) :
    Text.trimEnd (line.drop count) = line.drop count := by
  by_cases gone : line.drop count = []
  · rw [gone]
    rfl
  · apply Text.trimEnd_eq_self
    intro c last
    obtain ⟨_, _, _, stays⟩ := Text.exists_trimEnd_append line
    rw [ends] at stays
    refine stays c ?_
    rw [← List.take_append_drop count line, List.getLast?_append_of_ne_nil _ gone]
    exact last

/-- What trimming leaves are the lines of a block. -/
theorem isBlock_trimLines (raw : Text) : IsBlock (trimLines raw) := by
  let ls := dropOuter ((Text.lines raw).map Text.trimEnd)
  have stripped : IsStripped List.isEmpty ls := isStripped_strip _ _
  have origin : ∀ line ∈ ls, ∃ first ∈ Text.lines raw, Text.trimEnd first = line := by
    intro line member
    simpa using mem_of_mem_strip member
  have ends : ∀ line ∈ ls, Text.trimEnd line = line := by
    intro line member
    obtain ⟨first, _, rfl⟩ := origin line member
    exact Text.trimEnd_trimEnd first
  have longer : ∀ line ∈ ls, line ≠ [] → line.drop (sharedIndent ls) ≠ [] := by
    intro line member written gone
    have short := List.drop_eq_nil_iff.mp gone
    have := indent_lt_length (ends line member) written
    have := sharedIndent_le member written
    omega
  change IsBlock (ls.map fun line => line.drop (sharedIndent ls))
  constructor
  · intro line member
    obtain ⟨first, inside, rfl⟩ := List.mem_map.mp member
    exact trimEnd_drop _ (ends first inside)
  · intro line member newline
    obtain ⟨first, inside, rfl⟩ := List.mem_map.mp member
    obtain ⟨source, read, rfl⟩ := origin first inside
    exact Text.not_mem_of_mem_lines read (Text.mem_of_mem_trimEnd (List.mem_of_mem_drop newline))
  · refine stripped.map fun line member kept => ?_
    simpa using longer line member (by simpa using kept)
  · cases whole : ls with
    | nil => rfl
    | cons first rest =>
        rw [← whole]
        have head : first ∈ ls := whole ▸ List.mem_cons_self
        have written : first ≠ [] := by simpa using stripped.1 first (by simp [whole])
        obtain ⟨⟨line, member, spelled, least⟩, bound⟩ :=
          (sharedIndent_eq_iff ⟨first, head, written⟩).mp rfl
        have shorter : line.drop (sharedIndent ls) ∈
            ls.map fun line => line.drop (sharedIndent ls) := List.mem_map_of_mem member
        refine (sharedIndent_eq_iff ⟨_, shorter, longer line member spelled⟩).mpr ⟨?_, ?_⟩
        · refine ⟨_, shorter, longer line member spelled, ?_⟩
          rw [indent_drop line (bound line member spelled), least, Nat.sub_self]
        · exact fun _ _ _ => Nat.zero_le _

/-! ## Reading a written block -/

theorem indented_of_ne_nil (front : Text) {line : Text} (written : line ≠ []) :
    indented front line = front ++ line := by simp [indented, written]

theorem trim_indented {front : Text} (blank : Text.IsBlank front) (line : Text) :
    Text.trim (indented front line) = Text.trim line := by
  by_cases written : line = []
  · rw [written]
    rfl
  · rw [indented_of_ne_nil front written, Text.trim_append_left line blank]

theorem trimEnd_indented (front : Text) {line : Text} (ends : Text.trimEnd line = line) :
    Text.trimEnd (indented front line) = indented front line := by
  by_cases written : line = []
  · rw [written]
    rfl
  · rw [indented_of_ne_nil front written, Text.trimEnd_append_left front ends written]

theorem not_mem_indented {front line : Text} (above : '\n' ∉ front) (oneLine : '\n' ∉ line) :
    '\n' ∉ indented front line := by
  unfold indented
  split
  · exact List.not_mem_nil
  · exact fun newline => (List.mem_append.mp newline).elim above oneLine

theorem isStripped_indented (front : Text) {ls : List Text}
    (stripped : IsStripped List.isEmpty ls) :
    IsStripped List.isEmpty (ls.map (indented front)) := by
  refine stripped.map fun line _ kept => ?_
  rw [indented_of_ne_nil front (by simpa using kept)]
  simp_all

/-- All lines of a block are moved by the same indentation. -/
theorem sharedIndent_indented {front : Text} {ls : List Text} (blank : Text.IsBlank front)
    (written : ∃ line ∈ ls, line ≠ []) :
    sharedIndent (ls.map (indented front)) = front.length + sharedIndent ls := by
  have moved (line : Text) (spelled : line ≠ []) :
      Text.indent (indented front line) = front.length + Text.indent line := by
    rw [indented_of_ne_nil front spelled, Text.indent, List.takeWhile_append_of_pos blank,
      List.length_append]
    rfl
  obtain ⟨⟨least, member, spelled, reached⟩, bound⟩ := (sharedIndent_eq_iff written).mp rfl
  have here : indented front least ∈ ls.map (indented front) := List.mem_map_of_mem member
  have filled : indented front least ≠ [] := by
    rw [indented_of_ne_nil front spelled]
    simp [spelled]
  refine (sharedIndent_eq_iff ⟨_, here, filled⟩).mpr ⟨⟨_, here, filled, ?_⟩, ?_⟩
  · rw [moved least spelled, reached]
  · intro other inside spelledOther
    obtain ⟨line, origin, rfl⟩ := List.mem_map.mp inside
    have lineSpelled : line ≠ [] := by
      rintro rfl
      exact spelledOther rfl
    rw [moved line lineSpelled]
    exact Nat.add_le_add_left (bound line origin lineSpelled) _

/-- The lines of a block that was written with an indentation. -/
theorem lines_indented {front : Text} {ls : List Text} (oneLine : '\n' ∉ front)
    (block : IsBlock ls) :
    Text.lines (Text.unlines (ls.map (indented front))) = ls.map (indented front) := by
  have ends (line : Text) (member : line ∈ ls.map (indented front)) :
      Text.trimEnd line = line := by
    obtain ⟨first, inside, rfl⟩ := List.mem_map.mp member
    exact trimEnd_indented front (block.ends first inside)
  rw [Text.lines_unlines]
  · conv_rhs => rw [← List.map_id (ls.map (indented front))]
    exact List.map_congr_left fun line member => Text.chopReturn_of_trimEnd (ends line member)
  · intro line member
    obtain ⟨first, inside, rfl⟩ := List.mem_map.mp member
    exact not_mem_indented oneLine (block.oneLine first inside)
  · intro last found
    have filled := (isStripped_indented front block.stripped).2 last found
    exact ⟨by simpa using filled, ends last (List.mem_of_getLast? found)⟩

theorem trimLines_indented {front : Text} {ls : List Text} (blank : Text.IsBlank front)
    (oneLine : '\n' ∉ front) (block : IsBlock ls) :
    trimLines (Text.unlines (ls.map (indented front))) = ls := by
  by_cases empty : ls = []
  · subst empty
    rfl
  have written : ∃ line ∈ ls, line ≠ [] := by
    obtain ⟨first, rest, rfl⟩ := List.exists_cons_of_ne_nil empty
    exact ⟨first, List.mem_cons_self, by simpa using block.stripped.1 first rfl⟩
  have trimmed : (ls.map (indented front)).map Text.trimEnd = ls.map (indented front) := by
    conv_rhs => rw [← List.map_id (ls.map (indented front))]
    refine List.map_congr_left fun line member => ?_
    obtain ⟨first, inside, rfl⟩ := List.mem_map.mp member
    exact trimEnd_indented front (block.ends first inside)
  unfold trimLines
  dsimp only
  rw [lines_indented oneLine block, trimmed, dropOuter_eq_strip,
    strip_eq_self (isStripped_indented front block.stripped), sharedIndent_indented blank written,
    block.flush, List.map_map]
  conv_rhs => rw [← List.map_id ls]
  refine List.map_congr_left fun line _ => ?_
  by_cases spelled : line = []
  · simp [spelled, indented]
  · simp [indented_of_ne_nil front spelled]

/-! ## Trimming a description -/

/-- A trimmed description is its lines again, whatever indentation they were written with. -/
theorem trim_indented_pieces {front description : Text} (blank : Text.IsBlank front)
    (oneLine : '\n' ∉ front) (trimmed : trim description = description) :
    trim (Text.unlines ((Text.pieces description).map (indented front))) = description := by
  have block := isBlock_trimLines description
  by_cases empty : trimLines description = []
  · have nothing : description = [] := by
      rw [← trimmed, trim, empty]
      rfl
    rw [nothing]
    rfl
  · have apart : Text.pieces description = trimLines description := by
      conv_lhs => rw [← trimmed]
      exact Text.pieces_unlines empty block.oneLine
    rw [trim, apart, trimLines_indented blank oneLine block]
    exact trimmed

theorem trim_trim (raw : Text) : trim (trim raw) = trim raw := by
  have block := isBlock_trimLines raw
  have plain : (trimLines raw).map (indented []) = trimLines raw := by
    conv_rhs => rw [← List.map_id (trimLines raw)]
    refine List.map_congr_left fun line _ => ?_
    by_cases written : line = []
    · rw [written]
      rfl
    · rw [indented_of_ne_nil [] written]
      rfl
  have again := @trimLines_indented [] _ (by simp [Text.IsBlank]) (by simp) block
  rw [plain] at again
  rw [trim, trim, again]

/-- Trimming does not see the blanks at the ends of the lines of a description. -/
theorem trim_unlines_congr {as bs : List Text} (same : as.map Text.trimEnd = bs.map Text.trimEnd)
    (asOneLine : ∀ line ∈ as, '\n' ∉ line) (bsOneLine : ∀ line ∈ bs, '\n' ∉ line)
    (ends : ∀ last ∈ bs.getLast?, ¬ Text.IsBlank last) :
    trim (Text.unlines as) = trim (Text.unlines bs) := by
  have lines {ls : List Text} (oneLine : ∀ line ∈ ls, '\n' ∉ line)
      (ends : ∀ last ∈ ls.getLast?, last ≠ []) :
      (Text.lines (Text.unlines ls)).map Text.trimEnd = ls.map Text.trimEnd := by
    by_cases none : ls = []
    · rw [none]
      rfl
    · rw [Text.lines, Text.pieces_unlines none oneLine]
      clear oneLine none
      induction ls with
      | nil => rfl
      | cons line rest ih =>
          cases rest with
          | nil => simp [Text.linesOfPieces, ends line rfl]
          | cons next rest =>
              rw [Text.linesOfPieces, List.map_cons, List.map_cons, Text.trimEnd_chopReturn,
                ih fun last found => ends last (by rw [List.getLast?_cons_cons]; exact found)]
  have bsEnds : ∀ last ∈ bs.getLast?, last ≠ [] := by
    rintro last found rfl
    exact ends [] found (by simp [Text.IsBlank])
  have asEnds : ∀ last ∈ as.getLast?, last ≠ [] := by
    rintro last found rfl
    have ended := congrArg List.getLast? same
    rw [List.getLast?_map, List.getLast?_map, Option.mem_def.mp found, Option.map_some,
      eq_comm, Option.map_eq_some_iff] at ended
    obtain ⟨other, there, blank⟩ := ended
    exact ends other there (Text.trimEnd_eq_nil_iff.mp blank)
  unfold trim trimLines
  rw [lines asOneLine asEnds, lines bsOneLine bsEnds, same]

/-- The lines of a trimmed description that says something. -/
theorem isBlock_pieces {description : Text} (trimmed : trim description = description)
    (written : description ≠ []) : IsBlock (Text.pieces description) := by
  have block := isBlock_trimLines description
  have some : trimLines description ≠ [] := by
    intro empty
    rw [← trimmed, trim, empty] at written
    exact written rfl
  have apart : Text.pieces description = trimLines description := by
    conv_lhs => rw [← trimmed]
    exact Text.pieces_unlines some block.oneLine
  exact apart ▸ block

/-- Each line of a trimmed description is a line of the raw one but for blanks around it. -/
theorem exists_piece_of_trim {raw line : Text} (member : line ∈ Text.pieces (trim raw)) :
    line = [] ∨ ∃ piece ∈ Text.pieces raw, Text.trim line = Text.trim piece := by
  have block := isBlock_trimLines raw
  by_cases empty : trimLines raw = []
  · rw [trim, empty] at member
    exact .inl (List.mem_singleton.mp member)
  · rw [trim, Text.pieces_unlines empty block.oneLine] at member
    obtain ⟨shifted, inside, rfl⟩ := List.mem_map.mp member
    by_cases written : shifted = []
    · exact .inl (by simp [written])
    · right
      obtain ⟨read, origin, same⟩ := List.mem_map.mp (mem_of_mem_strip inside)
      have bound := sharedIndent_le inside written
      rw [trim_drop bound, ← same, Text.trim_trimEnd]
      obtain ⟨piece, source, rfl | rfl⟩ := Text.mem_linesOfPieces origin
      · exact ⟨_, source, rfl⟩
      · exact ⟨piece, source, Text.trim_chopReturn piece⟩

end Description

end Gherkin
