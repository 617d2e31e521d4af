import Gherkin.Proofs.Pipeline
import Gherkin.Proofs.Text.Replace

/-!
# What is read stands in the text

A document is traced by its marks: tags, headers, free text, steps, rows and doc strings in
the order in which they are written. The lines of a text have marks of their own, without
regard to any grammar; only the lines inside a doc string belong to its mark. Each reader
takes the marks of the lines it passes over, so the marks of a document that was read are
those of its lines, none lost and none twice.
-/

namespace Gherkin

namespace Document

/-- What a line of a document says. -/
inductive Mark where
  | tag (place : Place) (name : Text)
  | header (place : Place) (construct : Construct) (keyword name : Text)
  | text (raw : Text)
  | step (place : Place) (keyword text : Text)
  | row (place : Place) (cells : List Cell)
  | docString (place : Place) (fence : Fence) (contentType : Option Text) (content : List Text)
deriving DecidableEq

/-- Where a mark stands; free text is kept without its place. -/
def Mark.place? : Mark → Option Place
  | .tag place _ | .header place .. | .step place .. | .row place _ | .docString place .. =>
    some place
  | .text _ => none

/-- A mark stands above another one. Only tags can share a line, and then stand in order. -/
def Mark.Above : Mark → Mark → Prop
  | .tag here _, .tag there _ =>
    here.line < there.line ∨ here.line = there.line ∧ here.column < there.column
  | here, there => ∀ place ∈ here.place?, ∀ other ∈ there.place?, place.line < other.line

/-! ## The marks of a document -/

def Tag.mark (tag : Tag) : Mark := .tag tag.place tag.name

/-- A header and the free text below it. -/
def Header.marks (header : Header) : List Mark :=
  .header header.place header.construct header.keyword header.name ::
    ((Text.pieces header.description).filter fun piece => Text.trim piece ≠ []).map .text

def Row.mark (row : Row) : Mark := .row row.place row.cells

def Argument.marks : Argument → List Mark
  | .table _ rows => rows.map Row.mark
  | .docString place fence contentType content =>
    [.docString place fence contentType (Text.pieces content)]

def Step.marks (step : Step) : List Mark :=
  .step step.place step.keyword step.text :: step.argument.toList.flatMap Argument.marks

def Background.marks (background : Background) : List Mark :=
  background.header.marks ++ background.steps.flatMap Step.marks

def Examples.marks (examples : Examples) : List Mark :=
  examples.tags.map Tag.mark ++ examples.header.marks ++ examples.rows.map Row.mark

def Scenario.marks (scenario : Scenario) : List Mark :=
  scenario.tags.map Tag.mark ++ scenario.header.marks ++ scenario.steps.flatMap Step.marks ++
    scenario.examples.flatMap Examples.marks

def Body.marks (body : Body) : List Mark :=
  body.background.toList.flatMap Background.marks ++ body.tests.flatMap Scenario.marks

def Rule.marks (rule : Rule) : List Mark :=
  rule.tags.map Tag.mark ++ rule.header.marks ++ rule.body.marks

def Feature.marks (feature : Feature) : List Mark :=
  feature.tags.map Tag.mark ++ feature.header.marks ++ feature.body.marks ++
    feature.rules.flatMap Rule.marks

end Document

/-- The marks of a document in the order of its elements: of each its tags, its header, its
description and its body. -/
def Document.marks (document : Document) : List Document.Mark :=
  document.feature.toList.flatMap Document.Feature.marks

/-! ## The marks of lines -/

namespace Line

open Document

/-- The lines of a doc string without their indentation and their escapes. A doc string
without lines says the empty text. -/
def bodyOf (fence : Fence) (indent : Nat) (inside : List Line) : List Text :=
  if inside.isEmpty then [[]] else inside.map fun line => contentLine fence indent line.raw

/-- What a line outside of doc strings says; the delimiter of one says the lines below it up
to the next delimiter. -/
def marks (line : Line) (below : List Line) : List Mark :=
  match line.kind with
  | .blank | .comment | .language _ => []
  | .tags => (Word.beforeComment (Word.split 1 line.raw)).map fun word =>
      .tag ⟨line.number, word.column⟩ word.text
  | .header construct keyword name => [.header line.place construct keyword name]
  | .other => [.text line.raw]
  | .step keyword text => [.step line.place keyword text]
  | .row => [.row line.place (Cell.split line.raw)]
  | .fence fence type => [.docString line.place fence (if type.isEmpty then none else some type)
      (bodyOf fence (Text.indent line.raw) (below.takeWhile fun line => line.trimmed ≠ fence.text))]

/-- The doc string that a line opens. -/
def opened? (line : Line) : Option Fence :=
  match line.kind with
  | .fence fence _ => some fence
  | _ => none

/-- The marks of lines, given the doc string that is open in front of them. -/
def marksFrom : Option Fence → List Line → List Mark
  | _, [] => []
  | none, line :: below => line.marks below ++ marksFrom line.opened? below
  | some fence, line :: below =>
    marksFrom (if line.trimmed = fence.text then none else some fence) below

/-- The marks of lines in front of which no doc string is open. -/
def marksOf (lines : List Line) : List Mark := marksFrom none lines

theorem marksOf_cons (line : Line) (below : List Line) :
    marksOf (line :: below) = line.marks below ++ marksFrom line.opened? below := rfl

theorem marksOf_cons_of_isIgnorable {line : Line} (ignorable : line.isIgnorable = true)
    (below : List Line) : marksOf (line :: below) = marksOf below := by
  unfold isIgnorable at ignorable
  rw [marksOf_cons, marks, opened?]
  split at ignorable <;> simp_all [marksOf]

theorem marksOf_dropWhile_isIgnorable (lines : List Line) :
    marksOf (lines.dropWhile isIgnorable) = marksOf lines := by
  induction lines with
  | nil => rfl
  | cons line lines ih =>
      rw [List.dropWhile_cons]
      split
      · next ignorable => rw [ih, marksOf_cons_of_isIgnorable ignorable]
      · rfl

theorem newline_not_mem_contentLine (fence : Fence) (indent : Nat) {raw : Text}
    (oneLine : '\n' ∉ raw) : '\n' ∉ contentLine fence indent raw := by
  intro member
  rcases Text.mem_of_mem_replace (by cases fence <;> decide) member with inside | inside
  · exact absurd inside (by cases fence <;> decide)
  · exact oneLine ((Text.dropIndent_suffix indent raw).subset inside)

/-- The content of a doc string has a piece for each of its lines. -/
theorem pieces_content (fence : Fence) (indent : Nat) {inside : List Line}
    (oneLine : ∀ line ∈ inside, '\n' ∉ line.raw) :
    Text.pieces (Text.unlines (inside.map fun line => contentLine fence indent line.raw)) =
      bodyOf fence indent inside := by
  cases inside with
  | nil => rfl
  | cons line inside =>
      refine Text.pieces_unlines (by simp) fun text member => ?_
      obtain ⟨source, here, rfl⟩ := List.mem_map.mp member
      exact newline_not_mem_contentLine fence indent (oneLine source here)

/-- The free text of lines that make up a description. -/
theorem marksOf_description (lines : List Line) :
    marksOf lines = ((lines.takeWhile continuesDescription).filter fun line =>
      line.kind == .other).map (fun line => .text line.raw) ++
        marksOf (lines.dropWhile continuesDescription) := by
  induction lines with
  | nil => rfl
  | cons line lines ih =>
      cases continues : line.continuesDescription with
      | false => simp [continues]
      | true =>
          rw [List.takeWhile_cons_of_pos continues, List.dropWhile_cons_of_pos continues]
          by_cases other : line.kind = .other
          · rw [List.filter_cons_of_pos (by simp [other]), List.map_cons, List.cons_append, ← ih,
              marksOf_cons, marks, opened?, other]
            rfl
          · have ignorable : line.isIgnorable = true := by
              simpa [continuesDescription, other] using continues
            rw [List.filter_cons_of_neg (by simp [other]), ← ih,
              marksOf_cons_of_isIgnorable ignorable]

/-! ### Order -/

/-- A mark stands on its line. -/
theorem place_of_mem_marks {line : Line} {below : List Line} {mark : Mark}
    (member : mark ∈ line.marks below) : ∀ place ∈ mark.place?, place.line = line.number := by
  unfold marks at member
  split at member
  case h_4 =>
    obtain ⟨word, _, rfl⟩ := List.mem_map.mp member
    simp [Mark.place?]
  all_goals simp_all [Mark.place?, Line.place]

theorem exists_line_of_mem_marksFrom {lines : List Line} {opened : Option Fence} {mark : Mark}
    (member : mark ∈ marksFrom opened lines) :
    ∀ place ∈ mark.place?, ∃ line ∈ lines, place.line = line.number := by
  intro place stands
  induction lines generalizing opened with
  | nil => simp [marksFrom] at member
  | cons line below ih =>
      cases opened with
      | none =>
          rcases List.mem_append.mp member with here | later
          · exact ⟨line, List.mem_cons_self, place_of_mem_marks here place stands⟩
          · obtain ⟨other, inside, same⟩ := ih later
            exact ⟨other, List.mem_cons_of_mem _ inside, same⟩
      | some fence =>
          obtain ⟨other, inside, same⟩ := ih member
          exact ⟨other, List.mem_cons_of_mem _ inside, same⟩

theorem above_of_lt {here there : Mark}
    (lt : ∀ place ∈ here.place?, ∀ other ∈ there.place?, place.line < other.line) :
    here.Above there := by
  unfold Mark.Above
  split
  · exact .inl (lt _ rfl _ rfl)
  · exact lt

theorem pairwise_marks (line : Line) (below : List Line) :
    (line.marks below).Pairwise Mark.Above := by
  unfold marks
  split
  case h_4 =>
    refine List.pairwise_map.mpr (List.Pairwise.imp ?_
      ((Word.pairwise_split 1 line.raw).1.sublist (List.takeWhile_sublist _)))
    exact fun before => .inr ⟨rfl, before⟩
  all_goals simp

/-- The marks of numbered lines stand in order. -/
theorem pairwise_marksFrom {lines : List Line} (numbered : lines.Pairwise (·.number < ·.number))
    (opened : Option Fence) : (marksFrom opened lines).Pairwise Mark.Above := by
  induction lines generalizing opened with
  | nil => exact .nil
  | cons line below ih =>
      obtain ⟨first, later⟩ := List.pairwise_cons.mp numbered
      cases opened with
      | none =>
          refine List.pairwise_append.mpr ⟨pairwise_marks line below, ih later _, ?_⟩
          intro here member there inside
          refine above_of_lt fun place stands other stays => ?_
          obtain ⟨next, among, same⟩ := exists_line_of_mem_marksFrom inside other stays
          rw [place_of_mem_marks member place stands, same]
          exact first next among
      | some fence => exact ih later _

theorem pairwise_number_readAll (dialect : Dialect) (number : Nat) (raws : List Text) :
    (readAll dialect number raws).Pairwise (·.number < ·.number) ∧
      ∀ line ∈ readAll dialect number raws, number ≤ line.number := by
  induction raws generalizing number with
  | nil => simp [readAll]
  | cons raw raws ih =>
      obtain ⟨apart, behind⟩ := ih (number + 1)
      exact ⟨List.pairwise_cons.mpr ⟨behind, apart⟩, List.forall_mem_cons.mpr
        ⟨Nat.le_refl number, fun line member => Nat.le_of_succ_le (behind line member)⟩⟩

end Line

namespace Grammar

open Document Line

variable {dialect : Dialect} {release : Release} {lines rest : List Line}

theorem Tags.marks {found : List Tag} (read : Tags lines found rest) :
    marksOf lines = found.map Tag.mark ++ marksOf rest := by
  induction read with
  | done => rfl
  | stop => rfl
  | skip ignorable _ ih => rw [marksOf_cons_of_isIgnorable ignorable, ih]
  | line kind spelled _ ih =>
      obtain ⟨_, rfl⟩ := lineTags_eq_ok_iff.mp spelled
      rw [marksOf_cons, Line.marks, opened?, kind, List.map_append, List.append_assoc, ← ih,
        List.map_map]
      rfl

theorem Rows.marks {width : Option Nat} {found : List Row} (read : Rows width lines found rest) :
    marksOf lines = found.map Row.mark ++ marksOf rest := by
  induction read with
  | done => rfl
  | stop => rfl
  | comment kind _ ih => rw [marksOf_cons_of_isIgnorable (by simp [isIgnorable, kind]), ih]
  | row kind _ _ ih =>
      rw [marksOf_cons, Line.marks, opened?, kind]
      exact congrArg _ ih

theorem Content.marks {fence : Fence} {indent : Nat} {found : List Text}
    (read : Content fence indent lines found rest) :
    marksFrom (some fence) lines = marksOf rest := by
  induction read with
  | close closes => rw [marksFrom, if_pos closes, marksOf]
  | line stays _ ih => rw [marksFrom, if_neg stays, ih]

theorem Argument.marks {found : Option Document.Argument} (read : Argument lines found rest)
    (classified : dialect.Classifies lines) :
    marksOf lines = found.toList.flatMap Document.Argument.marks ++ marksOf rest := by
  cases read with
  | none skipped _ => rw [← skipped, marksOf_dropWhile_isIgnorable]; rfl
  | table skipped _ rows =>
      rw [← marksOf_dropWhile_isIgnorable, skipped, rows.marks]
      simp [Document.Argument.marks]
  | @docString line below fence type content _ skipped kind read =>
      have suffix := (List.suffix_cons line below).trans (suffix_of_skipped skipped)
      have pieces : Text.pieces (Text.unlines content) = bodyOf fence (Text.indent line.raw)
          (below.takeWhile fun line => line.trimmed ≠ fence.text) := by
        rw [(content_iff.mp read).2]
        exact pieces_content fence _ fun source member =>
          (classified source (suffix.subset ((List.takeWhile_prefix _).subset member))).2
      rw [← marksOf_dropWhile_isIgnorable, skipped, marksOf_cons, Line.marks, opened?, kind]
      dsimp only
      rw [read.marks, ← pieces]
      rfl

theorem Steps.marks {found : List Step} (read : Steps lines found rest)
    (classified : dialect.Classifies lines) :
    marksOf lines = found.flatMap Step.marks ++ marksOf rest := by
  induction read with
  | done skipped _ => rw [← skipped, marksOf_dropWhile_isIgnorable]; rfl
  | @step lines line below _ _ _ _ _ _ skipped kind argument _ ih =>
      have below_classified := classified.mono
        ((List.suffix_cons line below).trans (suffix_of_skipped skipped))
      rw [← marksOf_dropWhile_isIgnorable, skipped, marksOf_cons, Line.marks, opened?, kind]
      dsimp only
      rw [show marksFrom none below = marksOf below from rfl, argument.marks below_classified,
        ih (below_classified.mono argument.suffix), List.flatMap_cons, Step.marks]
      simp

/-- The pieces of a description that are not blank are the free text it is made of. -/
theorem free_pieces (classified : dialect.Classifies lines) :
    ((Text.pieces (Text.unlines ((descriptionLines lines).map Line.raw))).filter fun piece =>
      Text.trim piece ≠ []) = ((lines.takeWhile continuesDescription).filter fun line =>
        line.kind == .other).map Line.raw := by
  have inside {line : Line} (member : line ∈ descriptionLines lines) : line ∈ lines :=
    (mem_descriptionLines member).1
  have written : ∀ line ∈ descriptionLines lines,
      decide (Text.trim line.raw ≠ []) = !(line.kind == .blank) := by
    intro line member
    rw [(classified line (inside member)).1, Bool.eq_iff_iff]
    simp [classify_eq_blank_iff, trimmed]
  rw [Text.filter_pieces_unlines (by simp [Text.trim, Text.trimStart, Text.trimEnd])
    (fun raw member => ?_), List.filter_map]
  · have stripped := filter_strip (fun line : Line => line.kind == .blank)
      ((lines.takeWhile continuesDescription).filter fun line =>
        line.kind == .other || line.kind == .blank)
    rw [show (fun piece => decide (Text.trim piece ≠ [])) ∘ Line.raw =
      fun line => decide (Text.trim line.raw ≠ []) from rfl, List.filter_congr written]
    refine congrArg _ (stripped.trans ?_)
    rw [List.filter_filter]
    refine List.filter_congr fun line _ => ?_
    cases line.kind <;> rfl
  · obtain ⟨line, here, rfl⟩ := List.mem_map.mp member
    exact (classified line (inside here)).2

theorem header_marks {line : Line} {construct : Construct} {keyword name : Text}
    (kind : line.kind = .header construct keyword name)
    (classified : dialect.Classifies (line :: lines)) :
    marksOf (line :: lines) = (header line construct keyword name lines).value.marks ++
      marksOf (header line construct keyword name lines).rest := by
  have same := free_pieces (classified.mono (List.suffix_cons line lines))
  rw [marksOf_cons, Line.marks, opened?, kind]
  dsimp only
  rw [show marksFrom none lines = marksOf lines from rfl, marksOf_description, Header.marks]
  simp only [header, same, List.map_map]
  rfl

theorem Blocks.marks {allowed : Bool} {found : List Examples}
    (read : Blocks allowed lines found rest) (classified : dialect.Classifies lines) :
    marksOf lines = found.flatMap Examples.marks ++ marksOf rest := by
  induction read with
  | done => rfl
  | block _ tags kind rows _ ih =>
      have here := classified.mono tags.suffix
      have behind := (classifies_header here).mono (rows.suffix.trans (List.dropWhile_suffix _))
      rw [tags.marks, header_marks kind here, ← marksOf_dropWhile_isIgnorable (header ..).rest,
        rows.marks, ih behind]
      simp [Examples.marks]

theorem Test.marks {found : List Tag} {line : Line} {construct : Construct}
    {keyword name : Text} {test : Scenario}
    (read : Test release found line construct keyword name lines test rest)
    (kind : line.kind = .header construct keyword name)
    (classified : dialect.Classifies (line :: lines)) :
    found.map Tag.mark ++ marksOf (line :: lines) = test.marks ++ marksOf rest := by
  cases read with
  | intro steps blocks =>
      rw [header_marks kind classified, steps.marks (classifies_header classified),
        blocks.marks ((classifies_header classified).mono steps.suffix)]
      simp [Scenario.marks]

theorem Tests.marks {found : List Scenario} (read : Tests release lines found rest)
    (classified : dialect.Classifies lines) :
    marksOf lines = found.flatMap Scenario.marks ++ marksOf rest := by
  induction read with
  | done tags => exact tags.marks
  | rule => rfl
  | test tags kind _ test _ ih =>
      have here := classified.mono tags.suffix
      rw [tags.marks, test.marks kind here,
        ih (here.mono (test.suffix.trans (List.suffix_cons _ _))), List.flatMap_cons,
        List.append_assoc]

theorem Body.marks {found : Document.Body} (read : Body release lines found rest)
    (classified : dialect.Classifies lines) : marksOf lines = found.marks ++ marksOf rest := by
  cases read with
  | background tags kind steps tests =>
      have here := classified.mono tags.suffix
      rw [tags.marks, header_marks kind here, steps.marks (classifies_header here),
        tests.marks ((classifies_header here).mono steps.suffix)]
      simp [Document.Body.marks, Background.marks]
  | tests tests => simpa [Document.Body.marks] using tests.marks classified

theorem Rules.marks {found : List Rule} (read : Rules release lines found)
    (classified : dialect.Classifies lines) : marksOf lines = found.flatMap Rule.marks := by
  induction read with
  | done tags => exact tags.marks
  | rule _ tags kind _ body _ ih =>
      have here := classified.mono tags.suffix
      rw [tags.marks, header_marks kind here, body.marks (classifies_header here),
        ih ((classifies_header here).mono body.suffix)]
      simp [Rule.marks]

/-- The marks of a feature are those of its lines. -/
theorem Feature.marks {language : Text} {found : Option Document.Feature}
    (read : Feature release language lines found) (classified : dialect.Classifies lines) :
    marksOf lines = found.toList.flatMap Document.Feature.marks := by
  cases read with
  | none tags => exact tags.marks
  | some tags kind body rules =>
      have here := classified.mono tags.suffix
      rw [tags.marks, header_marks kind here, body.marks (classifies_header here),
        rules.marks ((classifies_header here).mono body.suffix)]
      simp [Document.Feature.marks]

end Grammar

namespace Document

/-- A document says what some lines say, in the order of the lines. -/
structure IsTrace (document : Document) (lines : List Line) : Prop where
  same : document.marks = Line.marksOf lines
  ordered : document.marks.Pairwise Mark.Above

/-- A document that was read says exactly what the lines of its source text say. -/
theorem isTrace_of_read {release : Release} {dialect : Dialect} {file source : Text}
    {document : Document} (read : Document.read release dialect file source = .ok document) :
    document.IsTrace (settledLines dialect source) := by
  obtain ⟨_, feature⟩ := read_eq_ok_iff_feature.mp read
  have same := (feature.marks (classifies_settledLines dialect source)).symm
  refine ⟨same, ?_⟩
  rw [marks, same]
  exact Line.pairwise_marksFrom (Line.pairwise_number_readAll _ _ _).1 none

/-- A document with every kind of block says what its lines say. -/
theorem isTrace_sampleSource :
    ∃ document, Document.read .newest .english [] sampleSource = .ok document ∧
      document.IsTrace (settledLines .english sampleSource) := by
  have accepted : (Document.read .newest .english [] sampleSource).isOk = true := by
    decide +kernel
  cases read : Document.read .newest .english [] sampleSource with
  | error error => simp [read, Except.isOk, Except.toBool] at accepted
  | ok document => exact ⟨document, rfl, isTrace_of_read read⟩

end Document

end Gherkin
