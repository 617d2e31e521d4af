import Gherkin.Proofs.Text.Trim
import Gherkin.Text.Lines

/-!
# Lines and pieces

Texts without newlines that are put below each other come apart again as they
were. Reading them as lines also takes a carriage return from the end of each,
which is the one thing that a line put into a text can lose.
-/

namespace Gherkin

namespace Text

theorem join_singleton (separator text : Text) : join separator [text] = text := by
  simp [join, List.intercalate]

theorem join_cons {rest : List Text} (separator text : Text) (more : rest ≠ []) :
    join separator (text :: rest) = text ++ separator ++ join separator rest := by
  cases rest with
  | nil => exact absurd rfl more
  | cons next rest => simp [join, List.intercalate, List.intersperse]

@[simp]
theorem unlines_nil : unlines [] = [] := rfl

@[simp]
theorem unlines_singleton (line : Text) : unlines [line] = line := join_singleton _ line

theorem unlines_cons {rest : List Text} (line : Text) (more : rest ≠ []) :
    unlines (line :: rest) = line ++ '\n' :: unlines rest := by
  rw [unlines, join_cons _ line more, unlines, List.append_assoc, List.singleton_append]

theorem pieces_of_not_mem {t : Text} (oneLine : '\n' ∉ t) : pieces t = [t] := by
  induction t with
  | nil => rfl
  | cons c t ih =>
      obtain ⟨first, rest⟩ := List.ne_and_not_mem_of_not_mem_cons oneLine
      simp [pieces, ih rest, Ne.symm first]

theorem pieces_append_newline {line : Text} (t : Text) (oneLine : '\n' ∉ line) :
    pieces (line ++ '\n' :: t) = line :: pieces t := by
  induction line with
  | nil => simp [pieces]
  | cons c line ih =>
      obtain ⟨first, rest⟩ := List.ne_and_not_mem_of_not_mem_cons oneLine
      simp [pieces, ih rest, Ne.symm first]

/-- Lines put below each other come apart as they were. -/
theorem pieces_unlines {ls : List Text} (some : ls ≠ []) (oneLine : ∀ line ∈ ls, '\n' ∉ line) :
    pieces (unlines ls) = ls := by
  induction ls with
  | nil => exact absurd rfl some
  | cons line rest ih =>
      have here := oneLine line List.mem_cons_self
      cases rest with
      | nil => rw [unlines_singleton, pieces_of_not_mem here]
      | cons next rest =>
          rw [unlines_cons line (List.cons_ne_nil _ _), pieces_append_newline _ here,
            ih (List.cons_ne_nil _ _) fun other member =>
              oneLine other (List.mem_cons_of_mem _ member)]

/-- What is kept of lines is kept of the pieces of their text, when no empty line is kept. -/
theorem filter_pieces_unlines {p : Text → Bool} {ls : List Text} (empty : p [] = false)
    (oneLine : ∀ line ∈ ls, '\n' ∉ line) : (pieces (unlines ls)).filter p = ls.filter p := by
  by_cases none : ls = []
  · simp [none, pieces, empty]
  · rw [pieces_unlines none oneLine]

theorem not_mem_of_mem_pieces {line t : Text} (member : line ∈ pieces t) : '\n' ∉ line := by
  induction t generalizing line with
  | nil =>
      rw [List.mem_singleton.mp member]
      exact List.not_mem_nil
  | cons c t ih =>
      unfold pieces at member
      split at member
      · rcases List.mem_cons.mp member with rfl | member
        · exact List.not_mem_nil
        · exact ih member
      · next differ =>
        split at member
        · next empty => exact absurd empty (pieces_ne_nil t)
        · next first rest whole =>
          rcases List.mem_cons.mp member with rfl | member
          · exact List.not_mem_cons_of_ne_of_not_mem (Ne.symm differ)
              (ih (whole ▸ List.mem_cons_self))
          · exact ih (whole ▸ List.mem_cons_of_mem _ member)

theorem unlines_append {front back : List Text} (frontSome : front ≠ []) (backSome : back ≠ []) :
    unlines (front ++ back) = unlines front ++ '\n' :: unlines back := by
  induction front with
  | nil => exact absurd rfl frontSome
  | cons line front ih =>
      by_cases more : front = []
      · rw [more, List.singleton_append, unlines_cons _ backSome, unlines_singleton]
      · rw [List.cons_append, unlines_cons _ (by simp [more]), ih more, unlines_cons _ more,
          List.append_assoc, List.cons_append]

/-- Lines can be put below each other in blocks. -/
theorem unlines_block (front back : List Text) {ls : List Text} (some : ls ≠ []) :
    unlines (front ++ unlines ls :: back) = unlines (front ++ ls ++ back) := by
  have inner : unlines (unlines ls :: back) = unlines (ls ++ back) := by
    by_cases more : back = []
    · simp [more]
    · rw [unlines_cons _ more, unlines_append some more]
  by_cases none : front = []
  · simpa [none] using inner
  · rw [unlines_append none (List.cons_ne_nil _ _), inner, List.append_assoc,
      unlines_append none (by simp [some])]

/-! ## Carriage returns -/

theorem chopReturn_eq_self {line : Text} (ends : line.getLast? ≠ some '\r') :
    chopReturn line = line := if_neg ends

@[simp]
theorem chopReturn_append_return (line : Text) : chopReturn (line ++ ['\r']) = line := by
  simp [chopReturn]

theorem chopReturn_append {line : Text} (front : Text) (some : line ≠ []) :
    chopReturn (front ++ line) = front ++ chopReturn line := by
  unfold chopReturn
  rw [List.getLast?_append_of_ne_nil front some]
  split
  · rw [List.dropLast_append_of_ne_nil some]
  · rfl

theorem chopReturn_of_trimEnd {line : Text} (ends : trimEnd line = line) :
    chopReturn line = line := chopReturn_eq_self (getLast?_ne_return ends)

theorem trim_chopReturn (line : Text) : trim (chopReturn line) = trim line := by
  unfold chopReturn
  split
  · next ends =>
    have whole : line.dropLast ++ ['\r'] = line := List.dropLast_append_getLast? _ ends
    conv_rhs => rw [← whole]
    exact (trim_append_right _ (by simp [IsBlank]; rfl)).symm
  · rfl

theorem trimEnd_chopReturn (line : Text) : trimEnd (chopReturn line) = trimEnd line := by
  unfold chopReturn
  split
  · next ends =>
    have whole : line.dropLast ++ ['\r'] = line := List.dropLast_append_getLast? _ ends
    conv_rhs => rw [← whole]
    exact (List.rdropWhile_concat_pos _ _ _ (by rfl)).symm
  · rfl

theorem mem_of_mem_chopReturn {c : Char} {line : Text} (member : c ∈ chopReturn line) :
    c ∈ line := by
  unfold chopReturn at member
  split at member
  · exact List.dropLast_subset _ member
  · exact member

/-- When the last line is not empty and keeps no carriage return, each line loses
at most the one it ends with. -/
theorem linesOfPieces_eq_map {ls : List Text}
    (ends : ∀ last ∈ ls.getLast?, last ≠ [] ∧ last.getLast? ≠ some '\r') :
    linesOfPieces ls = ls.map chopReturn := by
  induction ls with
  | nil => rfl
  | cons line rest ih =>
      cases rest with
      | nil =>
          obtain ⟨some, kept⟩ := ends line rfl
          simp [linesOfPieces, some, chopReturn_eq_self kept]
      | cons next rest =>
          rw [linesOfPieces, List.map_cons]
          rw [ih fun last found => ends last (by rw [List.getLast?_cons_cons]; exact found)]

theorem lines_unlines {ls : List Text} (oneLine : ∀ line ∈ ls, '\n' ∉ line)
    (ends : ∀ last ∈ ls.getLast?, last ≠ [] ∧ trimEnd last = last) :
    lines (unlines ls) = ls.map chopReturn := by
  by_cases none : ls = []
  · rw [none]
    rfl
  · rw [lines, pieces_unlines none oneLine, linesOfPieces_eq_map]
    exact fun last found => ⟨(ends last found).1, getLast?_ne_return (ends last found).2⟩

/-- The first line of several pieces is the first of them; only the last line of a text keeps
its carriage return. -/
theorem linesOfPieces_cons {piece : Text} {ls : List Text} (some : piece ≠ [] ∨ ls ≠ []) :
    ∃ line, linesOfPieces (piece :: ls) = line :: linesOfPieces ls ∧
      (line = chopReturn piece ∨ ls = [] ∧ line = piece) := by
  cases ls with
  | nil =>
      have written : piece ≠ [] := some.resolve_right fun more => more rfl
      exact ⟨piece, by simp [linesOfPieces, written], .inr ⟨rfl, rfl⟩⟩
  | cons next ls => exact ⟨chopReturn piece, rfl, .inl rfl⟩

theorem mem_linesOfPieces {line : Text} {ls : List Text} (member : line ∈ linesOfPieces ls) :
    ∃ piece ∈ ls, line = piece ∨ line = chopReturn piece := by
  induction ls with
  | nil => exact absurd member List.not_mem_nil
  | cons first rest ih =>
      cases rest with
      | nil =>
          unfold linesOfPieces at member
          split at member
          · exact absurd member List.not_mem_nil
          · exact ⟨first, List.mem_cons_self, .inl (List.mem_singleton.mp member)⟩
      | cons next rest =>
          rw [linesOfPieces] at member
          rcases List.mem_cons.mp member with same | later
          · exact ⟨first, List.mem_cons_self, .inr same⟩
          · obtain ⟨piece, inside, same⟩ := ih later
            exact ⟨piece, List.mem_cons_of_mem _ inside, same⟩

theorem not_mem_of_mem_linesOfPieces {line : Text} {ls : List Text}
    (oneLine : ∀ piece ∈ ls, '\n' ∉ piece) (member : line ∈ linesOfPieces ls) : '\n' ∉ line := by
  obtain ⟨piece, inside, rfl | rfl⟩ := mem_linesOfPieces member
  · exact oneLine line inside
  · exact fun newline => oneLine piece inside (mem_of_mem_chopReturn newline)

theorem not_mem_of_mem_lines {line t : Text} (member : line ∈ lines t) : '\n' ∉ line :=
  not_mem_of_mem_linesOfPieces (fun _ inside => not_mem_of_mem_pieces inside) member

theorem length_linesOfPieces_le (ls : List Text) : (linesOfPieces ls).length ≤ ls.length := by
  induction ls with
  | nil => exact Nat.le_refl _
  | cons piece rest ih =>
      by_cases some : piece ≠ [] ∨ rest ≠ []
      · obtain ⟨first, whole, _⟩ := linesOfPieces_cons some
        rw [whole]
        exact Nat.succ_le_succ ih
      · obtain ⟨rfl, rfl⟩ : piece = [] ∧ rest = [] := by simpa using some
        exact Nat.zero_le _

/-- A text with a line put below its first lines. -/
def insertLine (line : Text) (count : Nat) (t : Text) : Text :=
  unlines ((pieces t).insertIdx count line)

theorem insertIdx_ne_nil {ls : List Text} {count : Nat} (within : count ≤ ls.length) (line : Text) :
    ls.insertIdx count line ≠ [] := by
  intro empty
  have length := List.length_insertIdx_of_le_length within line
  rw [empty] at length
  cases length

theorem pieces_insertLine {line t : Text} {count : Nat} (oneLine : '\n' ∉ line)
    (bound : count ≤ (lines t).length) :
    pieces (insertLine line count t) = (pieces t).insertIdx count line := by
  have within : count ≤ (pieces t).length := Nat.le_trans bound (length_linesOfPieces_le _)
  rw [insertLine, pieces_unlines (insertIdx_ne_nil within line)]
  intro other member
  rcases (List.mem_insertIdx within).mp member with rfl | inside
  · exact oneLine
  · exact not_mem_of_mem_pieces inside

/-! ## Texts that go on -/

theorem pieces_append_newline_append (s t : Text) :
    pieces (s ++ '\n' :: t) = pieces s ++ pieces t := by
  have whole : unlines (pieces s ++ pieces t) = s ++ '\n' :: t := by
    rw [unlines_append (pieces_ne_nil s) (pieces_ne_nil t), unlines_pieces, unlines_pieces]
  rw [← whole, pieces_unlines (by simp [pieces_ne_nil])]
  exact List.forall_mem_append.mpr
    ⟨fun _ => not_mem_of_mem_pieces, fun _ => not_mem_of_mem_pieces⟩

theorem linesOfPieces_append {back : List Text} (front : List Text) (more : back ≠ []) :
    linesOfPieces (front ++ back) = front.map chopReturn ++ linesOfPieces back := by
  induction front with
  | nil => rfl
  | cons piece front ih =>
      obtain ⟨next, rest, whole⟩ := List.exists_cons_of_ne_nil
        (show front ++ back ≠ [] from fun empty => more (List.append_eq_nil_iff.mp empty).2)
      rw [List.cons_append, List.map_cons, List.cons_append, ← ih, whole]
      rfl

theorem map_trimEnd_linesOfPieces_isPrefix (ls : List Text) :
    (linesOfPieces ls).map trimEnd <+: ls.map trimEnd := by
  induction ls with
  | nil => exact List.prefix_refl _
  | cons piece rest ih =>
      by_cases some : piece ≠ [] ∨ rest ≠ []
      · obtain ⟨line, whole, same⟩ := linesOfPieces_cons some
        have ends : trimEnd line = trimEnd piece := by
          rcases same with rfl | ⟨_, rfl⟩
          · exact trimEnd_chopReturn piece
          · rfl
        rw [whole, List.map_cons, List.map_cons, ends]
        exact (List.prefix_cons_inj _).mpr ih
      · obtain ⟨rfl, rfl⟩ : piece = [] ∧ rest = [] := by simpa using some
        exact List.nil_prefix

/-- What is put below a text leaves the lines of the text in front, but for blanks at their ends:
the last one loses a carriage return. -/
theorem map_trimEnd_lines_isPrefix (s t : Text) :
    (lines s).map trimEnd <+: (lines (s ++ '\n' :: t)).map trimEnd := by
  have chopped : ((pieces s).map chopReturn).map trimEnd = (pieces s).map trimEnd := by
    rw [List.map_map]
    exact List.map_congr_left fun piece _ => trimEnd_chopReturn piece
  rw [lines, lines, pieces_append_newline_append, linesOfPieces_append _ (pieces_ne_nil t),
    List.map_append, chopped]
  exact (map_trimEnd_linesOfPieces_isPrefix _).trans (List.prefix_append _ _)

end Text

end Gherkin
