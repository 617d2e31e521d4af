import Gherkin.Proofs.Document.Spelling

/-!
# How lines are refused

The relations here mirror those of the grammar, between the lines in front of a construct and a
fault of it: all that stands in front of the fault has been read, and each constructor is one cause
or passes on a fault of a part. A part that was read in vain, such as tags in front of another
construct, is read again for what stands behind it.

Whatever the lines are, they are read or refused. This is by induction on the number of lines, as
every part that is followed by more of its kind consumes a line.
-/

namespace Gherkin

open Document

namespace Grammar

/-- A word on a tag line that is no tag. -/
inductive TagsFail : List Line → Fault → Prop where
  | here {line lines fault} : line.kind = .tags →
      lineTags line (Word.beforeComment (Word.split 1 line.raw)) = .error fault →
      TagsFail (line :: lines) fault
  | skip {line lines fault} : line.isIgnorable = true → TagsFail lines fault →
      TagsFail (line :: lines) fault
  | later {line lines here fault} : line.kind = .tags →
      lineTags line (Word.beforeComment (Word.split 1 line.raw)) = .ok here →
      TagsFail lines fault → TagsFail (line :: lines) fault

/-- A row of another width than the rows above. -/
inductive RowsFail : Option Nat → List Line → Fault → Prop where
  | uneven {width line lines known} : line.kind = .row → known ∈ width →
      known ≠ (Cell.split line.raw).length →
      RowsFail width (line :: lines) ⟨.at line.place, .unevenTable⟩
  | row {width line lines fault} : line.kind = .row →
      (∀ known ∈ width, known = (Cell.split line.raw).length) →
      RowsFail (some (Cell.split line.raw).length) lines fault →
      RowsFail width (line :: lines) fault
  | comment {width line lines fault} : line.kind = .comment → RowsFail width lines fault →
      RowsFail width (line :: lines) fault

/-- A fault in a table, or a doc string that is not closed. -/
inductive ArgumentFails : List Line → Fault → Prop where
  | table {lines line below fault} : lines.dropWhile Line.isIgnorable = line :: below →
      line.kind = .row → RowsFail none (line :: below) fault → ArgumentFails lines fault
  | docString {lines line below fence type} :
      lines.dropWhile Line.isIgnorable = line :: below → line.kind = .fence fence type →
      (∀ content rest, ¬ Content fence (Text.indent line.raw) below content rest) →
      ArgumentFails lines ⟨.at line.place, .unexpectedEnd [.docStringSeparator]⟩

/-- A fault below a step. -/
inductive StepsFail : List Line → Fault → Prop where
  | argument {lines line below keyword text fault} :
      lines.dropWhile Line.isIgnorable = line :: below → line.kind = .step keyword text →
      ArgumentFails below fault → StepsFail lines fault
  | later {lines line below keyword text argument next fault} :
      lines.dropWhile Line.isIgnorable = line :: below → line.kind = .step keyword text →
      Argument below argument next → StepsFail next fault → StepsFail lines fault

/-- A fault in an examples block, or a block that the test cannot have. -/
inductive BlocksFail (allowed : Bool) : List Line → Fault → Prop where
  | tags {lines fault} : TagsFail lines fault → BlocksFail allowed lines fault
  | refused {lines found line below keyword name} : allowed = false →
      Tags lines found (line :: below) → line.kind = .header .examples keyword name →
      BlocksFail allowed lines (unexpected line [.stepLine, .scenarioLine, .tagLine])
  | rows {lines found line below keyword name fault} : allowed = true →
      Tags lines found (line :: below) → line.kind = .header .examples keyword name →
      RowsFail none ((below.dropWhile Line.continuesDescription).dropWhile Line.isIgnorable)
        fault →
      BlocksFail allowed lines fault
  | later {lines found line below keyword name rows next fault} : allowed = true →
      Tags lines found (line :: below) → line.kind = .header .examples keyword name →
      Rows none ((below.dropWhile Line.continuesDescription).dropWhile Line.isIgnorable)
        rows next →
      BlocksFail allowed next fault → BlocksFail allowed lines fault

/-- A fault below the header of a test. -/
inductive TestFails (release : Release) (construct : Construct) (lines : List Line)
    (fault : Fault) : Prop where
  | steps : StepsFail (lines.dropWhile Line.continuesDescription) fault →
      TestFails release construct lines fault
  | blocks {steps next} : Steps (lines.dropWhile Line.continuesDescription) steps next →
      BlocksFail (construct == .outline || release.hasScenarioExamples) next fault →
      TestFails release construct lines fault

/-- A fault in a test, or something that is neither a test nor a rule. -/
inductive TestsFail (release : Release) : List Line → Fault → Prop where
  | tags {lines fault} : TagsFail lines fault → TestsFail release lines fault
  | unfinished {lines tag found} : Tags lines (tag :: found) [] →
      TestsFail release lines (unfinished [.scenarioLine, .ruleLine])
  | unexpected {lines found line below} : Tags lines found (line :: below) →
      (∀ construct ∈ [Construct.scenario, .outline, .rule], ∀ keyword name,
        line.kind ≠ .header construct keyword name) →
      TestsFail release lines (unexpected line [.scenarioLine, .ruleLine, .tagLine])
  | test {lines found line below construct keyword name fault} :
      Tags lines found (line :: below) → line.kind = .header construct keyword name →
      construct = .scenario ∨ construct = .outline → TestFails release construct below fault →
      TestsFail release lines fault
  | later {lines found line below construct keyword name test next fault} :
      Tags lines found (line :: below) → line.kind = .header construct keyword name →
      construct = .scenario ∨ construct = .outline →
      Test release found line construct keyword name below test next →
      TestsFail release next fault → TestsFail release lines fault

/-- A fault in a background or behind it. A background has no tags. -/
inductive BodyFails (release : Release) (lines : List Line) : Fault → Prop where
  | tags {fault} : TagsFail lines fault → BodyFails release lines fault
  | misplaced {tag found line below keyword name} : Tags lines (tag :: found) (line :: below) →
      line.kind = .header .background keyword name →
      BodyFails release lines ⟨.at tag.place, .misplacedTags .background⟩
  | steps {line below keyword name fault} : Tags lines [] (line :: below) →
      line.kind = .header .background keyword name →
      StepsFail (below.dropWhile Line.continuesDescription) fault → BodyFails release lines fault
  | behind {line below keyword name steps next fault} : Tags lines [] (line :: below) →
      line.kind = .header .background keyword name →
      Steps (below.dropWhile Line.continuesDescription) steps next →
      TestsFail release next fault → BodyFails release lines fault
  | tests {found next fault} : Tags lines found next →
      (∀ line ∈ next.head?, ∀ keyword name, line.kind ≠ .header .background keyword name) →
      TestsFail release lines fault → BodyFails release lines fault

/-- A fault in a rule, something that is no rule, or a rule or its tags in a release that does
not know them. -/
inductive RulesFail (release : Release) : List Line → Fault → Prop where
  | tags {lines fault} : TagsFail lines fault → RulesFail release lines fault
  | unfinished {lines tag found} : Tags lines (tag :: found) [] →
      RulesFail release lines (unfinished [.ruleLine])
  | unexpected {lines found line below} : Tags lines found (line :: below) →
      (∀ keyword name, line.kind ≠ .header .rule keyword name) →
      RulesFail release lines (unexpected line [.ruleLine])
  | unsupported {lines found line below keyword name} : release.hasRules = false →
      Tags lines found (line :: below) → line.kind = .header .rule keyword name →
      RulesFail release lines ⟨.at line.place, .unsupportedRule⟩
  | misplaced {lines tag found line below keyword name} : release.hasRules = true →
      release.hasRuleTags = false → Tags lines (tag :: found) (line :: below) →
      line.kind = .header .rule keyword name →
      RulesFail release lines ⟨.at tag.place, .misplacedTags .rule⟩
  | body {lines found line below keyword name fault} : release.hasRules = true →
      Tags lines found (line :: below) → line.kind = .header .rule keyword name →
      (release.hasRuleTags = true ∨ found = []) →
      BodyFails release (below.dropWhile Line.continuesDescription) fault →
      RulesFail release lines fault
  | later {lines found line below keyword name body next fault} : release.hasRules = true →
      Tags lines found (line :: below) → line.kind = .header .rule keyword name →
      (release.hasRuleTags = true ∨ found = []) →
      Body release (below.dropWhile Line.continuesDescription) body next →
      RulesFail release next fault → RulesFail release lines fault

/-- A fault in a feature, or something that is no feature. -/
inductive FeatureFails (release : Release) (lines : List Line) : Fault → Prop where
  | tags {fault} : TagsFail lines fault → FeatureFails release lines fault
  | unfinished {tag found} : Tags lines (tag :: found) [] →
      FeatureFails release lines (unfinished [.feature])
  | unexpected {found line below} : Tags lines found (line :: below) →
      (∀ keyword name, line.kind ≠ .header .feature keyword name) →
      FeatureFails release lines (unexpected line [.feature])
  | body {found line below keyword name fault} : Tags lines found (line :: below) →
      line.kind = .header .feature keyword name →
      BodyFails release (below.dropWhile Line.continuesDescription) fault →
      FeatureFails release lines fault
  | rules {found line below keyword name body next fault} : Tags lines found (line :: below) →
      line.kind = .header .feature keyword name →
      Body release (below.dropWhile Line.continuesDescription) body next →
      RulesFail release next fault → FeatureFails release lines fault

/-! ## Lines are read or refused -/

section

variable {release : Release} {lines below next : List Line} {line : Line} {found : List Tag}

/-- What stands behind a line and a part below it is less than there was. -/
theorem length_lt_of_suffix (whole : line :: below <:+ lines) (left : next <:+ below) :
    next.length < lines.length :=
  Nat.lt_of_le_of_lt left.length_le (Nat.lt_of_succ_le whole.length_le)

theorem length_lt_of_rows {table : List Row} (tagged : Tags lines found (line :: below))
    (rows : Rows none ((below.dropWhile Line.continuesDescription).dropWhile Line.isIgnorable)
      table next) : next.length < lines.length :=
  length_lt_of_suffix tagged.suffix
    (rows.suffix.trans ((List.dropWhile_suffix _).trans (List.dropWhile_suffix _)))

theorem length_lt_of_body {inner : Document.Body} (tagged : Tags lines found (line :: below))
    (read : Body release (below.dropWhile Line.continuesDescription) inner next) :
    next.length < lines.length :=
  length_lt_of_suffix tagged.suffix (read.suffix.trans (List.dropWhile_suffix _))

end

/-- A width that fits what is known differs from nothing that is known. -/
theorem any_ne_eq_false {width : Option Nat} {count : Nat}
    (fits : ∀ known ∈ width, known = count) : width.any (· != count) = false := by
  cases width with
  | none => rfl
  | some known => simpa using fits known rfl

/-- The first line has the header of a construct, or there is no such line. -/
theorem header_or_not (lines : List Line) (construct : Construct) :
    (∃ line below keyword name, lines = line :: below ∧
      line.kind = .header construct keyword name) ∨
    ∀ line ∈ lines.head?, ∀ keyword name, line.kind ≠ .header construct keyword name := by
  cases lines with
  | nil => exact .inr (by simp)
  | cons line below =>
    by_cases header : ∃ keyword name, line.kind = .header construct keyword name
    · obtain ⟨keyword, name, kind⟩ := header
      exact .inl ⟨line, below, keyword, name, rfl, kind⟩
    · refine .inr ?_
      rintro _ ⟨⟩ keyword name kind
      exact header ⟨keyword, name, kind⟩

theorem tags_or_fails (lines : List Line) :
    (∃ found rest, Tags lines found rest) ∨ ∃ fault, TagsFail lines fault := by
  induction lines with
  | nil => exact .inl ⟨_, _, .done⟩
  | cons line lines ih =>
    by_cases ignorable : line.isIgnorable = true
    · rcases ih with ⟨found, rest, read⟩ | ⟨fault, fails⟩
      · exact .inl ⟨_, _, .skip ignorable read⟩
      · exact .inr ⟨_, .skip ignorable fails⟩
    by_cases kind : line.kind = .tags
    · cases spelled : lineTags line (Word.beforeComment (Word.split 1 line.raw)) with
      | error fault => exact .inr ⟨_, .here kind spelled⟩
      | ok here =>
        rcases ih with ⟨found, rest, read⟩ | ⟨fault, fails⟩
        · exact .inl ⟨_, _, .line kind spelled read⟩
        · exact .inr ⟨_, .later kind spelled fails⟩
    · exact .inl ⟨_, _, .stop (by simpa using ignorable) kind⟩

theorem rows_or_fails (width : Option Nat) (lines : List Line) :
    (∃ found rest, Rows width lines found rest) ∨ ∃ fault, RowsFail width lines fault := by
  induction lines generalizing width with
  | nil => exact .inl ⟨_, _, .done⟩
  | cons line lines ih =>
    by_cases row : line.kind = .row
    · by_cases fits : ∀ known ∈ width, known = (Cell.split line.raw).length
      · rcases ih (some (Cell.split line.raw).length) with ⟨found, rest, read⟩ | ⟨fault, fails⟩
        · exact .inl ⟨_, _, .row row fits read⟩
        · exact .inr ⟨_, .row row fits fails⟩
      · push Not at fits
        obtain ⟨known, given, differs⟩ := fits
        exact .inr ⟨_, .uneven row given differs⟩
    by_cases comment : line.kind = .comment
    · rcases ih width with ⟨found, rest, read⟩ | ⟨fault, fails⟩
      · exact .inl ⟨_, _, .comment comment read⟩
      · exact .inr ⟨_, .comment comment fails⟩
    · exact .inl ⟨_, _, .stop row comment⟩

theorem argument_or_fails (lines : List Line) :
    (∃ found rest, Argument lines found rest) ∨ ∃ fault, ArgumentFails lines fault := by
  cases skipped : lines.dropWhile Line.isIgnorable with
  | nil => exact .inl ⟨_, _, .none skipped (by simp)⟩
  | cons line below =>
    by_cases row : line.kind = .row
    · rcases rows_or_fails none (line :: below) with ⟨rows, rest, read⟩ | ⟨fault, fails⟩
      · exact .inl ⟨_, _, .table skipped row read⟩
      · exact .inr ⟨_, .table skipped row fails⟩
    by_cases fenced : ∃ fence type, line.kind = .fence fence type
    · obtain ⟨fence, type, kind⟩ := fenced
      by_cases closed : ∃ content rest, Content fence (Text.indent line.raw) below content rest
      · obtain ⟨content, rest, read⟩ := closed
        exact .inl ⟨_, _, .docString skipped kind read⟩
      · exact .inr ⟨_, .docString skipped kind fun content rest read => closed ⟨_, _, read⟩⟩
    · refine .inl ⟨_, _, .none skipped ?_⟩
      rintro _ ⟨⟩
      exact ⟨row, fun fence type kind => fenced ⟨fence, type, kind⟩⟩

theorem steps_or_fails (lines : List Line) :
    (∃ found rest, Steps lines found rest) ∨ ∃ fault, StepsFail lines fault := by
  induction size : lines.length using Nat.strongRecOn generalizing lines with
  | ind size ih =>
    cases skipped : lines.dropWhile Line.isIgnorable with
    | nil => exact .inl ⟨_, _, .done skipped (by simp)⟩
    | cons line below =>
      by_cases step : ∃ keyword text, line.kind = .step keyword text
      · obtain ⟨keyword, text, kind⟩ := step
        rcases argument_or_fails below with ⟨argument, next, read⟩ | ⟨fault, fails⟩
        · have shorter := length_lt_of_suffix (suffix_of_skipped skipped) read.suffix
          rcases ih _ (size ▸ shorter) next rfl with ⟨more, rest, others⟩ | ⟨fault, fails⟩
          · exact .inl ⟨_, _, .step skipped kind read others⟩
          · exact .inr ⟨_, .later skipped kind read fails⟩
        · exact .inr ⟨_, .argument skipped kind fails⟩
      · refine .inl ⟨_, _, .done skipped ?_⟩
        rintro _ ⟨⟩ keyword text kind
        exact step ⟨keyword, text, kind⟩

theorem blocks_or_fails (allowed : Bool) (lines : List Line) :
    (∃ found rest, Blocks allowed lines found rest) ∨
      ∃ fault, BlocksFail allowed lines fault := by
  induction size : lines.length using Nat.strongRecOn generalizing lines with
  | ind size ih =>
    rcases tags_or_fails lines with ⟨found, next, tagged⟩ | ⟨fault, fails⟩
    · rcases header_or_not next .examples with ⟨line, below, keyword, name, rfl, kind⟩ | other
      · cases allowed with
        | false => exact .inr ⟨_, .refused rfl tagged kind⟩
        | true =>
          rcases rows_or_fails none ((below.dropWhile Line.continuesDescription).dropWhile
            Line.isIgnorable) with ⟨table, next, rows⟩ | ⟨fault, fails⟩
          · have shorter := length_lt_of_rows tagged rows
            rcases ih _ (size ▸ shorter) next rfl with ⟨more, rest, others⟩ | ⟨fault, fails⟩
            · exact .inl ⟨_, _, .block rfl tagged kind rows others⟩
            · exact .inr ⟨_, .later rfl tagged kind rows fails⟩
          · exact .inr ⟨_, .rows rfl tagged kind fails⟩
      · exact .inl ⟨_, _, .done tagged other⟩
    · exact .inr ⟨_, .tags fails⟩

theorem test_or_fails (release : Release) (found : List Tag) (line : Line) (construct : Construct)
    (keyword name : Text) (lines : List Line) :
    (∃ test rest, Test release found line construct keyword name lines test rest) ∨
      ∃ fault, TestFails release construct lines fault := by
  rcases steps_or_fails (lines.dropWhile Line.continuesDescription) with
    ⟨steps, next, performed⟩ | ⟨fault, fails⟩
  · rcases blocks_or_fails (construct == .outline || release.hasScenarioExamples) next with
      ⟨blocks, rest, read⟩ | ⟨fault, fails⟩
    · exact .inl ⟨_, _, .intro performed read⟩
    · exact .inr ⟨_, .blocks performed fails⟩
  · exact .inr ⟨_, .steps fails⟩

theorem tests_or_fails (release : Release) (lines : List Line) :
    (∃ found rest, Tests release lines found rest) ∨ ∃ fault, TestsFail release lines fault := by
  induction size : lines.length using Nat.strongRecOn generalizing lines with
  | ind size ih =>
    rcases tags_or_fails lines with ⟨found, next, tagged⟩ | ⟨fault, fails⟩
    · match found, next with
      | [], [] => exact .inl ⟨_, _, .done tagged⟩
      | tag :: found, [] => exact .inr ⟨_, .unfinished tagged⟩
      | found, line :: below =>
        by_cases header : ∃ construct ∈ [Construct.scenario, .outline, .rule], ∃ keyword name,
            line.kind = .header construct keyword name
        · obtain ⟨construct, sort, keyword, name, kind⟩ := header
          by_cases isTest : construct = .scenario ∨ construct = .outline
          · rcases test_or_fails release found line construct keyword name below with
              ⟨test, next, here⟩ | ⟨fault, fails⟩
            · have shorter := length_lt_of_suffix tagged.suffix here.suffix
              rcases ih _ (size ▸ shorter) next rfl with ⟨more, rest, others⟩ | ⟨fault, fails⟩
              · exact .inl ⟨_, _, .test tagged kind isTest here others⟩
              · exact .inr ⟨_, .later tagged kind isTest here fails⟩
            · exact .inr ⟨_, .test tagged kind isTest fails⟩
          · obtain rfl : construct = .rule := by simp_all
            exact .inl ⟨_, _, .rule tagged kind⟩
        · exact .inr ⟨_, .unexpected tagged fun construct sort keyword name kind =>
            header ⟨construct, sort, keyword, name, kind⟩⟩
    · exact .inr ⟨_, .tags fails⟩

theorem body_or_fails (release : Release) (lines : List Line) :
    (∃ found rest, Body release lines found rest) ∨ ∃ fault, BodyFails release lines fault := by
  rcases tags_or_fails lines with ⟨found, next, tagged⟩ | ⟨fault, fails⟩
  · rcases header_or_not next .background with ⟨line, below, keyword, name, rfl, kind⟩ | other
    · cases found with
      | cons tag found => exact .inr ⟨_, .misplaced tagged kind⟩
      | nil =>
        rcases steps_or_fails (below.dropWhile Line.continuesDescription) with
          ⟨steps, next, performed⟩ | ⟨fault, fails⟩
        · rcases tests_or_fails release next with ⟨tests, rest, listed⟩ | ⟨fault, fails⟩
          · exact .inl ⟨_, _, .background tagged kind performed listed⟩
          · exact .inr ⟨_, .behind tagged kind performed fails⟩
        · exact .inr ⟨_, .steps tagged kind fails⟩
    · rcases tests_or_fails release lines with ⟨tests, rest, listed⟩ | ⟨fault, fails⟩
      · exact .inl ⟨_, _, .tests listed⟩
      · exact .inr ⟨_, .tests tagged other fails⟩
  · exact .inr ⟨_, .tags fails⟩

theorem rules_or_fails (release : Release) (lines : List Line) :
    (∃ found, Rules release lines found) ∨ ∃ fault, RulesFail release lines fault := by
  induction size : lines.length using Nat.strongRecOn generalizing lines with
  | ind size ih =>
    rcases tags_or_fails lines with ⟨found, next, tagged⟩ | ⟨fault, fails⟩
    · match found, next with
      | [], [] => exact .inl ⟨_, .done tagged⟩
      | tag :: found, [] => exact .inr ⟨_, .unfinished tagged⟩
      | found, line :: below =>
        rcases header_or_not (line :: below) .rule with ⟨_, _, keyword, name, ⟨⟩, kind⟩ | other
        · cases ruled : release.hasRules with
          | false => exact .inr ⟨_, .unsupported ruled tagged kind⟩
          | true =>
            by_cases taggable : release.hasRuleTags = true ∨ found = []
            · rcases body_or_fails release (below.dropWhile Line.continuesDescription) with
                ⟨inner, next, read⟩ | ⟨fault, fails⟩
              · have shorter := length_lt_of_body tagged read
                rcases ih _ (size ▸ shorter) next rfl with ⟨more, others⟩ | ⟨fault, fails⟩
                · exact .inl ⟨_, .rule ruled tagged kind taggable read others⟩
                · exact .inr ⟨_, .later ruled tagged kind taggable read fails⟩
              · exact .inr ⟨_, .body ruled tagged kind taggable fails⟩
            · obtain ⟨untaggable, some⟩ := not_or.mp taggable
              obtain ⟨tag, others, rfl⟩ := List.exists_cons_of_ne_nil some
              exact .inr ⟨_, .misplaced ruled (by simpa using untaggable) tagged kind⟩
        · exact .inr ⟨_, .unexpected tagged (other line rfl)⟩
    · exact .inr ⟨_, .tags fails⟩

theorem feature_or_fails (release : Release) (language : Text) (lines : List Line) :
    (∃ found, Feature release language lines found) ∨
      ∃ fault, FeatureFails release lines fault := by
  rcases tags_or_fails lines with ⟨found, next, tagged⟩ | ⟨fault, fails⟩
  · match found, next with
    | [], [] => exact .inl ⟨_, .none tagged⟩
    | tag :: found, [] => exact .inr ⟨_, .unfinished tagged⟩
    | found, line :: below =>
      rcases header_or_not (line :: below) .feature with ⟨_, _, keyword, name, ⟨⟩, kind⟩ | other
      · rcases body_or_fails release (below.dropWhile Line.continuesDescription) with
          ⟨inner, next, read⟩ | ⟨fault, fails⟩
        · rcases rules_or_fails release next with ⟨rules, listed⟩ | ⟨fault, fails⟩
          · exact .inl ⟨_, .some tagged kind read listed⟩
          · exact .inr ⟨_, .rules tagged kind read fails⟩
        · exact .inr ⟨_, .body tagged kind fails⟩
      · exact .inr ⟨_, .unexpected tagged (other line rfl)⟩
  · exact .inr ⟨_, .tags fails⟩

end Grammar

end Gherkin
