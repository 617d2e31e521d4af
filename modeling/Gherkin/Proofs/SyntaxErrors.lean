import Gherkin.Proofs.Document.Settled
import Gherkin.Proofs.Document.Source

/-!
# Syntax errors

A text that is refused, but not because it ends too early, is refused for something that is written
in it. The error names the place of a character that is not blank, and it stays the same whatever
is put below the text.
-/

namespace Gherkin

open Document Line

variable {dialect settled : Dialect} {number next : Nat} {raw : Text} {raws others rest : List Text}
  {fault : Fault} {place : Place} {line : Line}

theorem Text.exists_char_of_not_isBlank {t : Text} (written : ¬ Text.IsBlank t) :
    ∃ c, t[Text.indent t]? = some c ∧ Text.isBlank c = false := by
  obtain ⟨front, c, rest, rfl, -, solid, same⟩ := Text.exists_indent_append written
  exact ⟨c, by rw [same]; simp, solid⟩

namespace Document

/-! ## Places in source text -/

/-- A character that is not blank stands at a place of some lines, the first of which has a given
number. -/
def Place.IsWritten (place : Place) (number : Nat) (raws : List Text) : Prop :=
  number ≤ place.line ∧ 1 ≤ place.column ∧ ∃ raw c, raws[place.line - number]? = some raw ∧
    raw[place.column - 1]? = some c ∧ Text.isBlank c = false

theorem Place.IsWritten.of_drop (count : Nat)
    (written : place.IsWritten (number + count) (raws.drop count)) :
    place.IsWritten number raws := by
  obtain ⟨below, column, raw, c, found, rest⟩ := written
  have index : count + (place.line - (number + count)) = place.line - number := by omega
  rw [List.getElem?_drop, index] at found
  exact ⟨by omega, column, raw, c, found, rest⟩

theorem isWritten_of_marks (marks : (Line.read dialect number raw).Marks place) :
    place.IsWritten number (raw :: raws) := by
  cases marks with
  | start written =>
    have solid : ¬ Text.IsBlank raw := fun blank =>
      written (classify_eq_blank_iff.mpr (Text.trim_eq_nil_iff.mpr blank))
    obtain ⟨c, found, kept⟩ := Text.exists_char_of_not_isBlank solid
    exact ⟨Nat.le_refl _, Nat.le_add_left 1 _, raw, c, by simp [Line.place, Line.read], found, kept⟩
  | word member =>
    obtain ⟨c, found, kept⟩ := Word.exists_char_of_mem_split member
    have column := (Word.pairwise_split 1 raw).2 _ member
    exact ⟨Nat.le_refl _, column, raw, c, by simp [Line.read], found, kept⟩

theorem isWritten_of_mem_readAll (member : line ∈ Line.readAll dialect number raws)
    (marks : line.Marks place) : place.IsWritten number raws := by
  induction raws generalizing number with
  | nil => cases member
  | cons raw raws ih =>
    rcases List.mem_cons.mp member with rfl | later
    · exact isWritten_of_marks marks
    · exact Place.IsWritten.of_drop 1 (ih later)

/-! ## Texts that go on -/

/-- Lines of source text that others begin with, but for blanks at their ends. -/
structure Continues (raws others : List Text) : Prop where
  oneLine : ∀ raw ∈ raws, '\n' ∉ raw
  oneLineToo : ∀ raw ∈ others, '\n' ∉ raw
  ends : raws.map Text.trimEnd <+: others.map Text.trimEnd

theorem continues_lines (source more : Text) :
    Continues (Text.lines source) (Text.lines (source ++ '\n' :: more)) where
  oneLine _ := Text.not_mem_of_mem_lines
  oneLineToo _ := Text.not_mem_of_mem_lines
  ends := Text.map_trimEnd_lines_isPrefix source more

theorem Continues.exists_cons (continues : Continues (raw :: raws) others) :
    ∃ other rest, others = other :: rest ∧ Continues raws rest ∧
      ∀ dialect number, Alike dialect .elsewhere (Line.read dialect number raw)
        (Line.read dialect number other) := by
  obtain ⟨oneLine, oneLineToo, ends⟩ := continues
  cases others with
  | nil => simp at ends
  | cons other rest =>
    rw [List.map_cons, List.map_cons, List.cons_prefix_cons] at ends
    obtain ⟨here, later⟩ := List.forall_mem_cons.mp oneLine
    obtain ⟨there, laterToo⟩ := List.forall_mem_cons.mp oneLineToo
    exact ⟨other, rest, rfl, ⟨later, laterToo, ends.2⟩, fun dialect number =>
      .of_read here there ends.1.symm (fun _ within => by cases within) number number⟩

theorem Continues.prolonged (continues : Continues raws others) (dialect : Dialect)
    (number : Nat) : Prolonged dialect (Line.readAll dialect number raws)
      (Line.readAll dialect number others) := by
  induction raws generalizing others number with
  | nil => exact .nil
  | cons raw raws ih =>
    obtain ⟨other, rest, rfl, later, alike⟩ := continues.exists_cons
    exact .cons (alike dialect number) rfl (ih later (number + 1))

/-- A language header that names no dialect is refused at its place. -/
theorem preamble_eq_error (continues : Continues raws others)
    (failed : preamble dialect number raws = .error fault) :
    (∃ place, fault.stop = .at place ∧ place.IsWritten number raws) ∧
      preamble dialect number others = .error fault := by
  induction raws generalizing dialect number others with
  | nil => cases failed
  | cons raw raws ih =>
    obtain ⟨other, rest, rfl, later, alike⟩ := continues.exists_cons
    have same := (alike dialect number).kind
    have below {chosen : Dialect} (failed : preamble chosen (number + 1) raws = .error fault) :
        (∃ place, fault.stop = .at place ∧ place.IsWritten number (raw :: raws)) ∧
          preamble chosen (number + 1) rest = .error fault := by
      obtain ⟨⟨place, stop, written⟩, again⟩ := ih later failed
      exact ⟨⟨place, stop, Place.IsWritten.of_drop 1 written⟩, again⟩
    cases kind : (Line.read dialect number raw).kind with
    | blank | comment =>
      simp only [preamble, kind, same] at failed ⊢
      exact below failed
    | language code =>
      simp only [preamble, kind, same] at failed ⊢
      cases known : Dialect.find? code with
      | some chosen =>
        simp only [known] at failed ⊢
        exact below failed
      | none =>
        simp only [known] at failed ⊢
        cases failed
        have written : (Line.read dialect number raw).kind ≠ .blank := by simp [kind]
        rw [(alike dialect number).place rfl written]
        exact ⟨⟨_, rfl, isWritten_of_marks (.start written)⟩, rfl⟩
    | _ => simp [preamble, kind] at failed

/-- The preamble ends where it did, if there is a line behind it. -/
theorem preamble_eq_ok (continues : Continues raws others) (more : rest ≠ [])
    (read : preamble dialect number raws = .ok (settled, next, rest)) :
    ∃ left, preamble dialect number others = .ok (settled, next, left) ∧ Continues rest left := by
  induction raws generalizing dialect number others with
  | nil =>
    cases read
    exact absurd rfl more
  | cons raw raws ih =>
    obtain ⟨other, front, rfl, later, alike⟩ := continues.exists_cons
    have same := (alike dialect number).kind
    cases kind : (Line.read dialect number raw).kind with
    | blank | comment =>
      simp only [preamble, kind, same] at read ⊢
      exact ih later read
    | language code =>
      simp only [preamble, kind, same] at read ⊢
      cases known : Dialect.find? code with
      | some chosen =>
        simp only [known] at read ⊢
        exact ih later read
      | none => simp [known] at read
    | _ =>
      simp only [preamble, kind, same] at read ⊢
      cases read
      exact ⟨_, rfl, continues⟩

/-! ## Errors -/

variable {release : Release} {file source : Text} {error : SyntaxError}

theorem ofLines_eq_error (continues : Continues raws others) (inside : ¬ fault.defect.EndsEarly)
    (failed : ofLines release dialect raws = .error fault) :
    (∃ place, fault.stop = .at place ∧ place.IsWritten 1 raws) ∧
      ofLines release dialect others = .error fault := by
  rcases Except.bind_eq_error_iff.mp failed with failed | ⟨⟨settled, next, rest⟩, read, failed⟩
  · obtain ⟨written, again⟩ := preamble_eq_error continues failed
    exact ⟨written, Except.bind_eq_error_of_error again⟩
  replace failed := Except.eq_error_of_bind_pure failed
  have settles : Grammar.Settled settled (Grammar.FeatureFails release) _ _ :=
    (feature?_eq_error_iff.mp failed).settled inside
  obtain ⟨line, member, place, stop, marks⟩ := settles.marked
  have more : rest ≠ [] := by
    rintro rfl
    cases member
  obtain ⟨left, again, behind⟩ := preamble_eq_ok continues more read
  obtain ⟨_, _, rfl, rfl⟩ := preamble_eq_ok_iff.mp read
  refine ⟨⟨place, stop, (isWritten_of_mem_readAll member marks).of_drop _⟩, ?_⟩
  refine Except.bind_eq_error_of_ok again (Except.bind_eq_error_of_error ?_)
  exact feature?_eq_error_iff.mpr (settles.stays _ (behind.prolonged _ _))

/-- An error is about something that is written, and stays when the text goes on. -/
structure IsSettled (release : Release) (dialect : Dialect) (file source : Text)
    (error : SyntaxError) : Prop where
  written : Place.IsWritten ⟨error.line, error.column⟩ 1 (Text.lines source)
  stays : ∀ more, read release dialect file (source ++ '\n' :: more) = .error error

/-- All errors are settled but those of texts that end too early. -/
theorem isSettled_of_refused (refused : read release dialect file source = .error error)
    (inside : ∀ expected, error.defect ≠ .unexpectedEnd expected) :
    IsSettled release dialect file source error := by
  unfold read at refused
  cases failed : ofLines release dialect (Text.lines source) with
  | ok document => simp [failed, Except.mapError] at refused
  | error fault =>
    simp only [failed, Except.mapError, Except.error.injEq] at refused
    subst refused
    have within : ¬ fault.defect.EndsEarly := by
      rintro ⟨expected, ends⟩
      refine inside expected ?_
      unfold Fault.locate
      split <;> exact ends
    constructor
    · obtain ⟨⟨place, stop, written⟩, _⟩ :=
        ofLines_eq_error (continues_lines source []) within failed
      simpa [Fault.locate, stop] using written
    · intro more
      obtain ⟨⟨place, stop, _⟩, again⟩ :=
        ofLines_eq_error (continues_lines source more) within failed
      simp [read, again, Except.mapError, Fault.locate, stop]

/-- A step with a table of two widths. -/
def sampleUneven : Text :=
  Text.word "Feature: f\n  Scenario: s\n    Given x\n      | a |\n      | a | b |"

/-- The second row of the sample table is refused where it begins. -/
theorem isSettled_sampleUneven :
    read .newest .english (Text.word "a.feature") sampleUneven =
      .error ⟨Text.word "a.feature", 5, 7, .unevenTable⟩ ∧
    IsSettled .newest .english (Text.word "a.feature") sampleUneven
      ⟨Text.word "a.feature", 5, 7, .unevenTable⟩ := by
  have refused : read .newest .english (Text.word "a.feature") sampleUneven =
      .error ⟨Text.word "a.feature", 5, 7, .unevenTable⟩ := by decide +kernel
  exact ⟨refused, isSettled_of_refused refused nofun⟩

end Document

end Gherkin
