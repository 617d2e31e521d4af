import Gherkin.Proofs.Document.Grammar
import Gherkin.Proofs.Line.Cells
import Gherkin.Proofs.Line.Classification
import Gherkin.Proofs.Line.Tags

/-!
# What documents are spelled with

Every part of a document that was read is spelled with the words of its dialect,
and its texts are trimmed as the lines they stand on were. A release admits the
constructs that its grammar knows; a later release admits all that an earlier one
does.
-/

namespace Gherkin

/-- Whether a line can stand in a description and is kept there. -/
def Dialect.IsFree (dialect : Dialect) (line : Text) : Prop :=
  classify dialect (Text.trim line) = .other ∨ Text.trim line = []

/-- The lines are read as a dialect reads them. -/
def Dialect.Classifies (dialect : Dialect) (lines : List Line) : Prop :=
  ∀ line ∈ lines, line.kind = classify dialect line.trimmed ∧ '\n' ∉ line.raw

theorem Dialect.Classifies.mono {dialect : Dialect} {lines rest : List Line}
    (classified : dialect.Classifies lines) (suffix : rest <:+ lines) : dialect.Classifies rest :=
  fun line member => classified line (suffix.subset member)

namespace Document

variable {dialect : Dialect} {release : Release}

/-- Keyword, name and description as they are found below each other. -/
structure Header.Spelled (dialect : Dialect) (header : Header) : Prop where
  keyword : header.keyword ∈ dialect.keywords header.construct
  name : Text.IsLabel header.name
  description : ∀ line ∈ Text.pieces header.description, dialect.IsFree line

/-- The rows of one table have one width. -/
structure Rows.Spelled (rows : List Row) : Prop where
  values : ∀ row ∈ rows, ∀ cell ∈ row.cells, IsCellValue cell.value
  even : ∀ row ∈ rows, ∀ other ∈ rows, row.cells.length = other.cells.length

/-- A table has a row, and a content type that is given has a name. -/
def Argument.Spelled : Argument → Prop
  | .table _ rows => rows ≠ [] ∧ Rows.Spelled rows
  | .docString _ _ contentType _ => ∀ type ∈ contentType, type ≠ [] ∧ Text.IsLabel type

/-- A step with a step word. -/
structure Step.Spelled (dialect : Dialect) (step : Step) : Prop where
  keyword : step.keyword ∈ dialect.stepKeywords
  text : Text.IsLabel step.text
  argument : ∀ argument ∈ step.argument, argument.Spelled

/-- A background. -/
structure Background.Spelled (dialect : Dialect) (background : Background) : Prop where
  construct : background.header.construct = .background
  header : background.header.Spelled dialect
  steps : ∀ step ∈ background.steps, step.Spelled dialect

/-- An examples block; it can be without rows. -/
structure Examples.Spelled (dialect : Dialect) (examples : Examples) : Prop where
  tags : ∀ tag ∈ examples.tags, IsTagName tag.name
  construct : examples.header.construct = .examples
  header : examples.header.Spelled dialect
  rows : Rows.Spelled examples.rows

/-- A scenario or an outline. -/
structure Scenario.Spelled (dialect : Dialect) (scenario : Scenario) : Prop where
  tags : ∀ tag ∈ scenario.tags, IsTagName tag.name
  construct : scenario.header.construct = .scenario ∨ scenario.header.construct = .outline
  header : scenario.header.Spelled dialect
  steps : ∀ step ∈ scenario.steps, step.Spelled dialect
  examples : ∀ block ∈ scenario.examples, block.Spelled dialect

/-- What features and rules have in common. -/
structure Body.Spelled (dialect : Dialect) (body : Body) : Prop where
  background : ∀ background ∈ body.background, background.Spelled dialect
  tests : ∀ test ∈ body.tests, test.Spelled dialect

/-- A rule. -/
structure Rule.Spelled (dialect : Dialect) (rule : Rule) : Prop where
  tags : ∀ tag ∈ rule.tags, IsTagName tag.name
  construct : rule.header.construct = .rule
  header : rule.header.Spelled dialect
  body : rule.body.Spelled dialect

/-- A feature, which names the dialect it is spelled in. -/
structure Feature.Spelled (dialect : Dialect) (feature : Feature) : Prop where
  language : feature.language = dialect.code
  tags : ∀ tag ∈ feature.tags, IsTagName tag.name
  construct : feature.header.construct = .feature
  header : feature.header.Spelled dialect
  body : feature.body.Spelled dialect
  rules : ∀ rule ∈ feature.rules, rule.Spelled dialect

/-! ## What releases admit -/

/-- Whether the grammar of a release has a test. -/
def Scenario.Admitted (release : Release) (scenario : Scenario) : Prop :=
  release.hasScenarioExamples = true ∨ scenario.header.construct = .outline ∨
    scenario.examples = []

/-- Whether the grammar of a release has the tests of a body. -/
def Body.Admitted (release : Release) (body : Body) : Prop :=
  ∀ test ∈ body.tests, test.Admitted release

/-- Whether the grammar of a release has a rule. -/
structure Rule.Admitted (release : Release) (rule : Rule) : Prop where
  rules : release.hasRules = true
  tags : release.hasRuleTags = true ∨ rule.tags = []
  body : rule.body.Admitted release

/-- Whether the grammar of a release has a feature. -/
structure Feature.Admitted (release : Release) (feature : Feature) : Prop where
  body : feature.body.Admitted release
  rules : ∀ rule ∈ feature.rules, rule.Admitted release

/-! ## Lines that were read -/

end Document

namespace Grammar

open Document

variable {dialect : Dialect} {release : Release} {lines rest : List Line}

theorem suffix_of_skipped {line : Line} {below : List Line}
    (skipped : lines.dropWhile Line.isIgnorable = line :: below) : line :: below <:+ lines :=
  skipped ▸ List.dropWhile_suffix _

theorem classifies_header {line : Line} {construct : Construct} {keyword name : Text}
    (classified : dialect.Classifies (line :: lines)) :
    dialect.Classifies (header line construct keyword name lines).rest :=
  classified.mono ((header line construct keyword name lines).suffix.trans (List.suffix_cons _ _))

theorem Tags.suffix {found : List Tag} (read : Tags lines found rest) : rest <:+ lines := by
  induction read with
  | done => exact List.suffix_refl _
  | skip _ _ ih => exact ih.trans (List.suffix_cons _ _)
  | line _ _ _ ih => exact ih.trans (List.suffix_cons _ _)
  | stop => exact List.suffix_refl _

theorem Rows.suffix {width : Option Nat} {found : List Row} (read : Rows width lines found rest) :
    rest <:+ lines := by
  induction read with
  | done => exact List.suffix_refl _
  | row _ _ _ ih => exact ih.trans (List.suffix_cons _ _)
  | comment _ _ ih => exact ih.trans (List.suffix_cons _ _)
  | stop => exact List.suffix_refl _

theorem Content.suffix {fence : Fence} {indent : Nat} {found : List Text}
    (read : Content fence indent lines found rest) : rest <:+ lines := by
  induction read with
  | close => exact List.suffix_cons _ _
  | line _ _ ih => exact ih.trans (List.suffix_cons _ _)

/-- The content of a doc string are the lines in front of the first that closes it. -/
theorem content_iff {fence : Fence} {indent : Nat} {found : List Text} :
    Content fence indent lines found rest ↔
      (∃ closing, lines.dropWhile (fun line => line.trimmed ≠ fence.text) = closing :: rest) ∧
        found = (lines.takeWhile fun line => line.trimmed ≠ fence.text).map
          fun line => contentLine fence indent line.raw := by
  induction lines generalizing found with
  | nil =>
      refine iff_of_false nofun ?_
      rintro ⟨⟨_, none⟩, _⟩
      cases none
  | cons line lines ih =>
      by_cases closes : line.trimmed = fence.text
      · rw [List.dropWhile_cons_of_neg (by simpa using closes),
          List.takeWhile_cons_of_neg (by simpa using closes)]
        constructor
        · rintro (_ | ⟨stays, _⟩)
          · exact ⟨⟨line, rfl⟩, rfl⟩
          · contradiction
        · rintro ⟨⟨_, ⟨⟩⟩, rfl⟩
          exact .close closes
      · rw [List.dropWhile_cons_of_pos (by simpa using closes),
          List.takeWhile_cons_of_pos (by simpa using closes)]
        constructor
        · rintro (closed | ⟨_, inner⟩)
          · contradiction
          · obtain ⟨closing, rfl⟩ := ih.mp inner
            exact ⟨closing, rfl⟩
        · rintro ⟨closing, rfl⟩
          exact .line closes (ih.mpr ⟨closing, rfl⟩)

theorem Argument.suffix {found : Option Document.Argument} (read : Argument lines found rest) :
    rest <:+ lines := by
  cases read with
  | none skipped _ => exact skipped ▸ List.dropWhile_suffix _
  | table skipped _ rows =>
      exact rows.suffix.trans (suffix_of_skipped skipped)
  | docString skipped _ content =>
      exact content.suffix.trans ((List.suffix_cons _ _).trans (suffix_of_skipped skipped))

theorem Steps.suffix {found : List Step} (read : Steps lines found rest) : rest <:+ lines := by
  induction read with
  | done skipped _ => exact skipped ▸ List.dropWhile_suffix _
  | step skipped _ argument _ ih =>
      exact ih.trans
        (argument.suffix.trans ((List.suffix_cons _ _).trans (suffix_of_skipped skipped)))

theorem header_suffix (line : Line) (construct : Construct) (keyword name : Text)
    (lines : List Line) : (header line construct keyword name lines).rest <:+ lines :=
  (header line construct keyword name lines).suffix

theorem Blocks.suffix {allowed : Bool} {found : List Examples}
    (read : Blocks allowed lines found rest) : rest <:+ lines := by
  induction read with
  | done => exact List.suffix_refl _
  | block _ tags _ rows _ ih =>
      refine ih.trans (rows.suffix.trans ((List.dropWhile_suffix _).trans ?_))
      exact (header_suffix ..).trans ((List.suffix_cons _ _).trans tags.suffix)

theorem Test.suffix {found : List Tag} {line : Line} {construct : Construct} {keyword name : Text}
    {test : Scenario} (read : Test release found line construct keyword name lines test rest) :
    rest <:+ lines := by
  cases read with
  | intro steps blocks => exact blocks.suffix.trans (steps.suffix.trans (header_suffix ..))

theorem Tests.suffix {found : List Scenario} (read : Tests release lines found rest) :
    rest <:+ lines := by
  induction read with
  | done => exact List.nil_suffix
  | rule => exact List.suffix_refl _
  | test tags _ _ test _ ih =>
      exact ih.trans (test.suffix.trans ((List.suffix_cons _ _).trans tags.suffix))

theorem Body.suffix {found : Document.Body} (read : Body release lines found rest) :
    rest <:+ lines := by
  cases read with
  | background tags _ steps tests =>
      refine tests.suffix.trans (steps.suffix.trans ((header_suffix ..).trans ?_))
      exact (List.suffix_cons _ _).trans tags.suffix
  | tests tests => exact tests.suffix

/-! ## Spelling -/

theorem Tags.spelled {found : List Tag} (read : Tags lines found rest) :
    ∀ tag ∈ found, IsTagName tag.name := by
  induction read with
  | done => simp
  | skip _ _ ih => exact ih
  | line _ spelled _ ih =>
      intro tag member
      rcases List.mem_append.mp member with here | later
      · obtain ⟨all, rfl⟩ := lineTags_eq_ok_iff.1 spelled
        obtain ⟨word, inside, rfl⟩ := List.mem_map.mp here
        have written : word ∈ Word.split 1 _ := (List.takeWhile_prefix _).subset inside
        exact ⟨Word.isTag_iff.1 (all word inside), Word.solid_of_mem_split written⟩
      · exact ih tag later
  | stop => simp

theorem Rows.values {width : Option Nat} {found : List Row} (read : Rows width lines found rest) :
    ∀ row ∈ found, ∀ cell ∈ row.cells, IsCellValue cell.value := by
  induction read with
  | done => simp
  | row _ _ _ ih =>
      exact List.forall_mem_cons.mpr ⟨fun cell inside => Cell.isCellValue_of_mem_split inside, ih⟩
  | comment _ _ ih => exact ih
  | stop => simp

theorem Rows.length_of_some {known : Nat} {found : List Row}
    (read : Rows (some known) lines found rest) : ∀ row ∈ found, row.cells.length = known := by
  generalize decided : some known = width at read
  induction read with
  | done => simp
  | row _ fits _ ih =>
      have same := fits known (decided ▸ rfl)
      exact List.forall_mem_cons.mpr ⟨same.symm, ih (by rw [same])⟩
  | comment _ _ ih => exact ih decided
  | stop => simp

theorem Rows.spelled {width : Option Nat} {found : List Row}
    (read : Rows width lines found rest) : Rows.Spelled found := by
  refine ⟨read.values, ?_⟩
  have one : ∃ known, ∀ row ∈ found, row.cells.length = known := by
    induction read with
    | done => exact ⟨0, by simp⟩
    | row _ _ later _ =>
        exact ⟨_, List.forall_mem_cons.mpr ⟨rfl, later.length_of_some⟩⟩
    | comment _ _ ih => exact ih
    | stop => exact ⟨0, by simp⟩
  obtain ⟨known, all⟩ := one
  exact fun row member other member' => (all row member).trans (all other member').symm

theorem Argument.spelled {found : Option Document.Argument} (read : Argument lines found rest)
    (classified : dialect.Classifies lines) : ∀ argument ∈ found, argument.Spelled := by
  cases read with
  | none => simp
  | table skipped kind rows =>
      rintro argument ⟨⟩
      refine ⟨?_, rows.spelled⟩
      cases rows with
      | row => simp
      | comment other => simp [kind] at other
      | stop other => exact absurd kind other
  | docString skipped kind content =>
      rintro argument ⟨⟩
      intro given found
      split at found
      · cases found
      · next named =>
        cases found
        refine ⟨by simpa using named, ?_⟩
        obtain ⟨meaning, oneLine⟩ :=
          classified _ ((suffix_of_skipped skipped).subset List.mem_cons_self)
        obtain ⟨behind, whole, rfl⟩ := classify_eq_fence (meaning ▸ kind)
        refine Text.isLabel_trim fun newline => oneLine (Text.mem_of_mem_trim ?_)
        rw [show Text.trim _ = _ from whole]
        exact List.mem_append_right _ newline

theorem Steps.spelled {found : List Step} (read : Steps lines found rest)
    (classified : dialect.Classifies lines) : ∀ step ∈ found, step.Spelled dialect := by
  induction read with
  | done => simp
  | @step lines line below keyword text _ _ _ _ skipped kind argument _ ih =>
      have suffix := suffix_of_skipped skipped
      obtain ⟨meaning, oneLine⟩ := classified line (suffix.subset List.mem_cons_self)
      have below_classified := classified.mono ((List.suffix_cons line below).trans suffix)
      refine List.forall_mem_cons.mpr ⟨⟨?_, ?_, argument.spelled below_classified⟩,
        ih (below_classified.mono argument.suffix)⟩
      · exact (classify_eq_step (meaning ▸ kind)).1
      · obtain ⟨_, behind, same, whole⟩ := classify_eq_step (meaning ▸ kind)
        rw [same]
        refine Text.isLabel_trim fun newline => oneLine (Text.mem_of_mem_trim ?_)
        rcases whole with whole | ⟨_, rfl⟩
        · rw [show Text.trim line.raw = _ from whole]
          exact List.mem_append_right _ newline
        · exact absurd newline List.not_mem_nil

/-- The lines of a description are free text and blank lines. -/
theorem mem_descriptionLines {line : Line} (member : line ∈ descriptionLines lines) :
    line ∈ lines ∧ (line.kind = .other ∨ line.kind = .blank) := by
  have inside := mem_of_mem_strip (show line ∈ strip (fun line => line.kind == .blank) _ from member)
  obtain ⟨taken, kind⟩ := List.mem_filter.mp inside
  exact ⟨(List.takeWhile_prefix _).subset taken, by simpa using kind⟩

theorem header_spelled {line : Line} {construct : Construct} {keyword name : Text}
    (kind : line.kind = .header construct keyword name)
    (classified : dialect.Classifies (line :: lines)) :
    (header line construct keyword name lines).value.Spelled dialect := by
  obtain ⟨meaning, oneLine⟩ := classified line List.mem_cons_self
  obtain ⟨listed, behind, whole, rfl⟩ := classify_eq_header (meaning ▸ kind)
  refine ⟨listed, Text.isLabel_trim fun newline => oneLine (Text.mem_of_mem_trim ?_), ?_⟩
  · rw [show Text.trim line.raw = _ from whole]
    exact List.mem_append_right _ (List.mem_cons_of_mem _ newline)
  · intro piece member
    by_cases empty : descriptionLines lines = []
    · have : piece = [] := by simpa [header, empty, Text.pieces] using member
      exact .inr (by rw [this]; rfl)
    · have lines_classified := classified.mono (List.suffix_cons line lines)
      have apart : Text.pieces (Text.unlines ((descriptionLines lines).map Line.raw)) =
          (descriptionLines lines).map Line.raw := by
        refine Text.pieces_unlines (by simpa using empty) ?_
        intro raw inside
        obtain ⟨source, here, rfl⟩ := List.mem_map.mp inside
        exact (lines_classified source (mem_descriptionLines here).1).2
      simp only [header, apart] at member
      obtain ⟨source, inside, rfl⟩ := List.mem_map.mp member
      obtain ⟨here, free⟩ := mem_descriptionLines inside
      have meaning := (lines_classified source here).1
      rcases free with other | blank
      · exact .inl (meaning ▸ other)
      · exact .inr (classify_eq_blank_iff.mp (meaning ▸ blank))

theorem Blocks.spelled {allowed : Bool} {found : List Examples}
    (read : Blocks allowed lines found rest) (classified : dialect.Classifies lines) :
    ∀ block ∈ found, block.Spelled dialect := by
  induction read with
  | done => simp
  | block _ tags kind rows _ ih =>
      have here := classified.mono tags.suffix
      refine List.forall_mem_cons.mpr
        ⟨⟨tags.spelled, rfl, header_spelled kind here, rows.spelled⟩, ih ?_⟩
      exact (classifies_header here).mono (rows.suffix.trans (List.dropWhile_suffix _))

theorem Test.spelled {found : List Tag} {line : Line} {construct : Construct}
    {keyword name : Text} {test : Scenario}
    (read : Test release found line construct keyword name lines test rest)
    (tags : ∀ tag ∈ found, IsTagName tag.name) (kind : line.kind = .header construct keyword name)
    (either : construct = .scenario ∨ construct = .outline)
    (classified : dialect.Classifies (line :: lines)) : test.Spelled dialect := by
  cases read with
  | intro steps blocks =>
      exact ⟨tags, either, header_spelled kind classified,
        steps.spelled (classifies_header classified),
        blocks.spelled ((classifies_header classified).mono steps.suffix)⟩

theorem Tests.spelled {found : List Scenario} (read : Tests release lines found rest)
    (classified : dialect.Classifies lines) : ∀ test ∈ found, test.Spelled dialect := by
  induction read with
  | done => simp
  | rule => simp
  | test tags kind either test _ ih =>
      have here := classified.mono tags.suffix
      refine List.forall_mem_cons.mpr ⟨test.spelled tags.spelled kind either here, ih ?_⟩
      exact here.mono (test.suffix.trans (List.suffix_cons _ _))

theorem Body.spelled {found : Document.Body} (read : Body release lines found rest)
    (classified : dialect.Classifies lines) : found.Spelled dialect := by
  cases read with
  | background tags kind steps tests =>
      have here := classified.mono tags.suffix
      refine ⟨?_, tests.spelled ((classifies_header here).mono steps.suffix)⟩
      rintro background ⟨⟩
      exact ⟨rfl, header_spelled kind here, steps.spelled (classifies_header here)⟩
  | tests tests => exact ⟨by simp, tests.spelled classified⟩

theorem Rules.spelled {found : List Rule} (read : Rules release lines found)
    (classified : dialect.Classifies lines) : ∀ rule ∈ found, rule.Spelled dialect := by
  induction read with
  | done => simp
  | rule _ tags kind _ body _ ih =>
      have here := classified.mono tags.suffix
      exact List.forall_mem_cons.mpr
        ⟨⟨tags.spelled, rfl, header_spelled kind here, body.spelled (classifies_header here)⟩,
          ih ((classifies_header here).mono body.suffix)⟩

/-- A feature that was read in a dialect is spelled in it. -/
theorem Feature.spelled {found : Option Document.Feature}
    (read : Feature release dialect.code lines found) (classified : dialect.Classifies lines) :
    ∀ feature ∈ found, feature.Spelled dialect := by
  cases read with
  | none => simp
  | some tags kind body rules =>
      rintro feature ⟨⟩
      have here := classified.mono tags.suffix
      exact ⟨rfl, tags.spelled, rfl, header_spelled kind here,
        body.spelled (classifies_header here),
        rules.spelled ((classifies_header here).mono body.suffix)⟩

/-! ## Admission -/

theorem Tests.admitted {found : List Scenario} (read : Tests release lines found rest) :
    ∀ test ∈ found, test.Admitted release := by
  induction read with
  | done => simp
  | rule => simp
  | test _ _ _ test _ ih =>
      refine List.forall_mem_cons.mpr ⟨?_, ih⟩
      cases test with
      | @intro _ _ blocks _ _ blocks_read =>
          cases blocks_read with
          | done => exact .inr (.inr rfl)
          | block allowed =>
              simp only [Bool.or_eq_true, beq_iff_eq] at allowed
              exact allowed.elim (fun outline => .inr (.inl outline)) .inl

theorem Body.admitted {found : Document.Body} (read : Body release lines found rest) :
    found.Admitted release := by
  cases read with
  | background _ _ _ tests => exact tests.admitted
  | tests tests => exact tests.admitted

theorem Rules.admitted {found : List Rule} (read : Rules release lines found) :
    ∀ rule ∈ found, rule.Admitted release := by
  induction read with
  | done => simp
  | rule rules _ _ tagged body _ ih =>
      exact List.forall_mem_cons.mpr ⟨⟨rules, tagged, body.admitted⟩, ih⟩

/-- A feature that was read has only what its release admits. -/
theorem Feature.admitted {language : Text} {found : Option Document.Feature}
    (read : Feature release language lines found) : ∀ feature ∈ found, feature.Admitted release := by
  cases read with
  | none => simp
  | some _ _ body rules =>
      rintro feature ⟨⟩
      exact ⟨body.admitted, rules.admitted⟩

end Grammar

end Gherkin
