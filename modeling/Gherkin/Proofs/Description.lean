import Gherkin.Proofs.Text.Description

/-!
# What trimming keeps of a description

Trimming a description keeps its lines from the first to the last that say something. From
all of them it takes the blanks at the end and equally many blanks in front, as many as leave
a line without any. So trimming again changes nothing, and neither does it matter how far the
description was indented, and with which blanks.
-/

namespace Gherkin

namespace Description

variable {front line raw : Text} {ls : List Text}

/-- Whether a line says nothing. -/
def saysNothing (line : Text) : Bool := decide (Text.IsBlank line)

theorem isEmpty_trimEnd (line : Text) : (Text.trimEnd line).isEmpty = saysNothing line := by
  rw [Bool.eq_iff_iff, List.isEmpty_iff, Text.trimEnd_eq_nil_iff, saysNothing, decide_eq_true_iff]

/-- A line that does not end with a blank says nothing only if it is empty. -/
theorem saysNothing_of_trimEnd (ends : Text.trimEnd line = line) :
    saysNothing line = line.isEmpty := by rw [← isEmpty_trimEnd, ends]

/-! ## The lines that are kept -/

/-- A description that says something and is written as far to the left as it can be: it begins
and ends with lines that say something, no line ends with a blank, and some line does not begin
with one. -/
structure IsFlush (description : Text) : Prop where
  outer : IsStripped saysNothing (Text.lines description)
  ends : ∀ line ∈ Text.lines description, ∀ c ∈ line.getLast?, Text.isBlank c = false
  starts : ∃ line ∈ Text.lines description, ∃ c ∈ line.head?, Text.isBlank c = false

/-- A text is what is kept of a description: the lines between blank ones above and below, without
the blanks at their ends and without the first `shift` characters, which are blanks in each line
that says something. -/
structure Keeps (raw kept : Text) (above lines below : List Text) (shift : Nat) : Prop where
  whole : Text.lines raw = above ++ lines ++ below
  front : ∀ line ∈ above, Text.IsBlank line
  back : ∀ line ∈ below, Text.IsBlank line
  outer : IsStripped saysNothing lines
  shared : ∀ line ∈ lines, ¬ Text.IsBlank line → shift ≤ Text.indent line
  apart : Text.lines kept = lines.map fun line => (Text.trimEnd line).drop shift
  text : kept = Text.unlines (lines.map fun line => (Text.trimEnd line).drop shift)

theorem IsBlock.lines_unlines (block : IsBlock ls) : Text.lines (Text.unlines ls) = ls := by
  rw [Text.lines_unlines block.oneLine]
  · conv_rhs => rw [← List.map_id ls]
    exact List.map_congr_left fun line member =>
      Text.chopReturn_of_trimEnd (block.ends line member)
  · intro last found
    have written := block.stripped.2 last found
    exact ⟨by simpa using written, block.ends last (List.mem_of_getLast? found)⟩

theorem lines_trim (raw : Text) : Text.lines (trim raw) = trimLines raw :=
  (isBlock_trimLines raw).lines_unlines

/-- A block with some lines is flush. -/
theorem IsBlock.isFlush (block : IsBlock ls) (some : ls ≠ []) : IsFlush (Text.unlines ls) := by
  obtain ⟨first, rest, rfl⟩ := List.exists_cons_of_ne_nil some
  have written : first ≠ [] := by simpa using block.stripped.1 first rfl
  obtain ⟨⟨line, member, spelled, least⟩, _⟩ :=
    (sharedIndent_eq_iff ⟨first, List.mem_cons_self, written⟩).mp block.flush
  rw [← block.lines_unlines] at member
  constructor
  · rw [block.lines_unlines]
    exact block.stripped.congr fun line member => saysNothing_of_trimEnd (block.ends line member)
  · rw [block.lines_unlines]
    intro line member c last
    obtain ⟨_, _, _, stays⟩ := Text.exists_trimEnd_append line
    rw [block.ends line member] at stays
    exact stays c last
  · obtain ⟨c, text, rfl⟩ := List.exists_cons_of_ne_nil spelled
    refine ⟨_, member, c, rfl, ?_⟩
    rw [← Bool.not_eq_true]
    intro blank
    simp [Text.indent, blank] at least

/-- Trimming the ends of the lines first, or leaving out the blank lines around them, comes to the
same. -/
theorem dropOuter_map_trimEnd (ls : List Text) :
    dropOuter (ls.map Text.trimEnd) = (strip saysNothing ls).map Text.trimEnd := by
  rw [dropOuter_eq_strip, strip_map]
  simp only [isEmpty_trimEnd]

theorem exists_keeps (raw : Text) :
    ∃ above lines below shift, Keeps raw (trim raw) above lines below shift := by
  obtain ⟨above, below, whole, front, back, outer⟩ :=
    exists_append_strip_append saysNothing (Text.lines raw)
  have kept : trimLines raw = (strip saysNothing (Text.lines raw)).map fun line =>
      (Text.trimEnd line).drop
        (sharedIndent ((strip saysNothing (Text.lines raw)).map Text.trimEnd)) := by
    rw [trimLines, dropOuter_map_trimEnd, List.map_map]
    rfl
  refine ⟨above, _, below, _, whole, ?_, ?_, outer, ?_, (lines_trim raw).trans kept,
    congrArg Text.unlines kept⟩
  · exact fun line member => of_decide_eq_true (front line member)
  · exact fun line member => of_decide_eq_true (back line member)
  · intro line member written
    rw [← Text.indent_trimEnd written]
    exact sharedIndent_le (List.mem_map_of_mem member)
      fun empty => written (Text.trimEnd_eq_nil_iff.mp empty)

/-! ## Descriptions that were moved -/

theorem isEmpty_append (front : Text) (written : line ≠ []) :
    (front ++ line).isEmpty = line.isEmpty := by
  rw [Bool.eq_iff_iff, List.isEmpty_iff, List.isEmpty_iff, List.append_eq_nil_iff]
  exact and_iff_right_of_imp fun empty => absurd empty written

/-- A line behind an indentation; a blank line stays as it is. -/
def moved (front line : Text) : Text := if saysNothing line then line else front ++ line

/-- A text with an indentation in front of each line that is not blank. The lines keep their
endings. -/
def movedText (front raw : Text) : Text := Text.unlines ((Text.pieces raw).map (moved front))

theorem moved_of_isBlank (front : Text) (blank : Text.IsBlank line) : moved front line = line := by
  simp [moved, saysNothing, blank]

theorem moved_of_not_isBlank (front : Text) (written : ¬ Text.IsBlank line) :
    moved front line = front ++ line := by
  simp [moved, saysNothing, written]

theorem isBlank_chopReturn_iff (line : Text) :
    Text.IsBlank (Text.chopReturn line) ↔ Text.IsBlank line := by
  rw [← Text.trim_eq_nil_iff, Text.trim_chopReturn, Text.trim_eq_nil_iff]

theorem chopReturn_moved (front line : Text) :
    Text.chopReturn (moved front line) = moved front (Text.chopReturn line) := by
  by_cases blank : Text.IsBlank line
  · rw [moved_of_isBlank front blank,
      moved_of_isBlank front ((isBlank_chopReturn_iff line).mpr blank)]
  · have some : line ≠ [] := by
      rintro rfl
      exact blank nofun
    rw [moved_of_not_isBlank front blank, Text.chopReturn_append front some,
      moved_of_not_isBlank front fun gone => blank ((isBlank_chopReturn_iff line).mp gone)]

theorem isEmpty_moved (front line : Text) : (moved front line).isEmpty = line.isEmpty := by
  by_cases blank : Text.IsBlank line
  · rw [moved_of_isBlank front blank]
  · have some : line ≠ [] := by
      rintro rfl
      exact blank nofun
    rw [moved_of_not_isBlank front blank, isEmpty_append front some]

theorem linesOfPieces_moved (front : Text) (pieces : List Text) :
    Text.linesOfPieces (pieces.map (moved front)) =
      (Text.linesOfPieces pieces).map (moved front) := by
  induction pieces with
  | nil => rfl
  | cons piece rest ih =>
    cases rest with
    | nil =>
      simp only [List.map_cons, List.map_nil, Text.linesOfPieces, isEmpty_moved]
      split <;> rfl
    | cons next rest =>
      rw [List.map_cons] at ih
      rw [List.map_cons, List.map_cons, Text.linesOfPieces, ih, Text.linesOfPieces, List.map_cons,
        chopReturn_moved]

/-- The lines of a moved text are the lines of the text, moved. -/
theorem lines_movedText (oneLine : '\n' ∉ front) (raw : Text) :
    Text.lines (movedText front raw) = (Text.lines raw).map (moved front) := by
  have apart : Text.pieces (movedText front raw) = (Text.pieces raw).map (moved front) := by
    refine Text.pieces_unlines (by simp [Text.pieces_ne_nil]) ?_
    refine List.forall_mem_map.mpr fun piece member => ?_
    have inner := Text.not_mem_of_mem_pieces member
    unfold moved
    split
    · exact inner
    · exact List.not_mem_append oneLine inner
  rw [Text.lines, apart, linesOfPieces_moved, Text.lines]

theorem trimEnd_moved (front line : Text) :
    Text.trimEnd (moved front line) = indented front (Text.trimEnd line) := by
  by_cases blank : Text.IsBlank line
  · rw [moved_of_isBlank front blank, Text.trimEnd_eq_nil_iff.mpr blank]
    rfl
  · have written : Text.trimEnd line ≠ [] := fun empty => blank (Text.trimEnd_eq_nil_iff.mp empty)
    obtain ⟨back, gone, whole, _⟩ := Text.exists_trimEnd_append line
    rw [moved_of_not_isBlank front blank, indented_of_ne_nil front written]
    conv_lhs => rw [whole, ← List.append_assoc]
    rw [Text.trimEnd_append_right _ gone]
    exact Text.trimEnd_append_left front (Text.trimEnd_trimEnd line) written

theorem dropOuter_indented (front : Text) (ls : List Text) :
    dropOuter (ls.map (indented front)) = (dropOuter ls).map (indented front) := by
  have same (line : Text) : (indented front line).isEmpty = line.isEmpty := by
    by_cases empty : line = []
    · rw [empty]
      rfl
    · rw [indented_of_ne_nil front empty, isEmpty_append front empty]
  rw [dropOuter_eq_strip, strip_map, dropOuter_eq_strip]
  simp only [same]

/-- What the lines share is taken away together with the indentation they were moved by. -/
theorem drop_sharedIndent_indented (blank : Text.IsBlank front) (ls : List Text) :
    (ls.map (indented front)).map (fun line => line.drop (sharedIndent (ls.map (indented front)))) =
      ls.map fun line => line.drop (sharedIndent ls) := by
  rw [List.map_map]
  refine List.map_congr_left fun line member => ?_
  by_cases empty : line = []
  · simp [empty, indented]
  · rw [Function.comp_apply, sharedIndent_indented blank ⟨line, member, empty⟩,
      indented_of_ne_nil front empty, List.drop_append, List.drop_of_length_le (by omega),
      List.nil_append, Nat.add_sub_cancel_left]

/-- Trimming does not see how far a description is indented. -/
theorem trim_movedText (blank : Text.IsBlank front) (oneLine : '\n' ∉ front) (raw : Text) :
    trim (movedText front raw) = trim raw := by
  have ends : ((Text.lines raw).map (moved front)).map Text.trimEnd =
      ((Text.lines raw).map Text.trimEnd).map (indented front) := by
    rw [List.map_map, List.map_map]
    exact List.map_congr_left fun line _ => trimEnd_moved front line
  rw [trim, trimLines, lines_movedText oneLine, ends, dropOuter_indented,
    drop_sharedIndent_indented blank]
  rfl

/-- What trimming makes of a description, whatever blanks and line endings it has: nothing, or a
description that is flush; and it is what is kept of the lines from the first to the last that say
something, with one number of blanks taken from the front of all. Trimming again changes nothing,
nor does an indentation that was put in front of all lines that are not blank. -/
theorem trim_exact (raw : Text) :
    (trim raw = [] ∨ IsFlush (trim raw)) ∧
    (∃ above lines below shift, Keeps raw (trim raw) above lines below shift) ∧
    trim (trim raw) = trim raw ∧
    ∀ front, Text.IsBlank front → '\n' ∉ front → trim (movedText front raw) = trim raw := by
  refine ⟨?_, exists_keeps raw, trim_trim raw, fun front blank oneLine =>
    trim_movedText blank oneLine raw⟩
  by_cases empty : trimLines raw = []
  · left
    rw [trim, empty]
    rfl
  · exact .inr ((isBlock_trimLines raw).isFlush empty)

/-- Two lines with other blanks than spaces in front and a blank line between them. -/
def sampleRaw : Text := Text.word "\t\r\n \u2003a\n\n   \u00a0b \r\n "

/-- The sample text is trimmed to two lines, one of them indented, also behind more blanks. -/
theorem trim_sampleRaw :
    Text.IsBlank ['\u3000', '\r'] ∧ '\n' ∉ ['\u3000', '\r'] ∧
      trim sampleRaw = Text.word "a\n\n \u00a0b" ∧ IsFlush (trim sampleRaw) ∧
      trim (movedText ['\u3000', '\r'] sampleRaw) = trim sampleRaw := by
  obtain ⟨flush, _, _, moves⟩ := trim_exact sampleRaw
  exact ⟨by decide, by decide, by decide, flush.resolve_left (by decide),
    moves _ (by decide) (by decide)⟩

end Description

end Gherkin
