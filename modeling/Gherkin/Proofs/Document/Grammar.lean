import Gherkin.Document.Reader

/-!
# The grammar of documents

The readers of a document are functions that carry the lines they left and a
proof that these are a suffix. Here the same grammar is written as relations
between the lines in front of a construct, what the construct says, and the
lines behind it. A reader gives what the relation of its construct derives, and
`Document.feature?_eq_ok_iff` states that they succeed with nothing else.

A relation skips the lines that mean nothing where its reader does, and its
`done` case says which construct ends a list.
-/

namespace Gherkin

open Document

namespace Grammar

/-- The tags in front of the next construct. -/
inductive Tags : List Line → List Tag → List Line → Prop where
  | done : Tags [] [] []
  | skip {line lines found rest} : line.isIgnorable = true → Tags lines found rest →
      Tags (line :: lines) found rest
  | line {line lines here found rest} : line.kind = .tags →
      lineTags line (Word.beforeComment (Word.split 1 line.raw)) = .ok here →
      Tags lines found rest → Tags (line :: lines) (here ++ found) rest
  | stop {line lines} : line.isIgnorable = false → line.kind ≠ .tags →
      Tags (line :: lines) [] (line :: lines)

/-- Table rows of one width; the first row decides a width that is not yet known. -/
inductive Rows : Option Nat → List Line → List Row → List Line → Prop where
  | done {width} : Rows width [] [] []
  | row {width line lines more rest} : line.kind = .row →
      (∀ known ∈ width, known = (Cell.split line.raw).length) →
      Rows (some (Cell.split line.raw).length) lines more rest →
      Rows width (line :: lines) (⟨line.place, Cell.split line.raw⟩ :: more) rest
  | comment {width line lines more rest} : line.kind = .comment →
      Rows width lines more rest → Rows width (line :: lines) more rest
  | stop {width line lines} : line.kind ≠ .row → line.kind ≠ .comment →
      Rows width (line :: lines) [] (line :: lines)

/-- The lines of a doc string up to its closing delimiter. -/
inductive Content (fence : Fence) (indent : Nat) : List Line → List Text → List Line → Prop where
  | close {line lines} : line.trimmed = fence.text → Content fence indent (line :: lines) [] lines
  | line {line lines more rest} : line.trimmed ≠ fence.text →
      Content fence indent lines more rest →
      Content fence indent (line :: lines) (contentLine fence indent line.raw :: more) rest

/-- The table or doc string below a step. -/
inductive Argument : List Line → Option Document.Argument → List Line → Prop where
  | none {lines rest} : lines.dropWhile Line.isIgnorable = rest →
      (∀ line ∈ rest.head?, line.kind ≠ .row ∧ ∀ fence type, line.kind ≠ .fence fence type) →
      Argument lines none rest
  | table {lines line below rows rest} : lines.dropWhile Line.isIgnorable = line :: below →
      line.kind = .row → Rows none (line :: below) rows rest →
      Argument lines (some (.table line.place rows)) rest
  | docString {lines line below fence type content rest} :
      lines.dropWhile Line.isIgnorable = line :: below → line.kind = .fence fence type →
      Content fence (Text.indent line.raw) below content rest →
      Argument lines (some (.docString line.place fence
        (if type.isEmpty then none else some type) (Text.unlines content))) rest

/-- The steps up to the next construct. -/
inductive Steps : List Line → List Step → List Line → Prop where
  | done {lines rest} : lines.dropWhile Line.isIgnorable = rest →
      (∀ line ∈ rest.head?, ∀ keyword text, line.kind ≠ .step keyword text) → Steps lines [] rest
  | step {lines line below keyword text argument next more rest} :
      lines.dropWhile Line.isIgnorable = line :: below → line.kind = .step keyword text →
      Argument below argument next → Steps next more rest →
      Steps lines (⟨line.place, keyword, text, argument⟩ :: more) rest

/-- The examples blocks of a test, which can have them by its header or by the release. -/
inductive Blocks (allowed : Bool) : List Line → List Examples → List Line → Prop where
  | done {lines found next} : Tags lines found next →
      (∀ line ∈ next.head?, ∀ keyword name, line.kind ≠ .header .examples keyword name) →
      Blocks allowed lines [] lines
  | block {lines found line below keyword name rows next more rest} : allowed = true →
      Tags lines found (line :: below) → line.kind = .header .examples keyword name →
      Rows none ((header line .examples keyword name below).rest.dropWhile Line.isIgnorable)
        rows next →
      Blocks allowed next more rest →
      Blocks allowed lines
        (⟨found, (header line .examples keyword name below).value, rows⟩ :: more) rest

/-- The test below a header line. -/
inductive Test (release : Release) (found : List Tag) (line : Line) (construct : Construct)
    (keyword name : Text) (lines : List Line) : Scenario → List Line → Prop where
  | intro {steps next blocks rest} :
      Steps (header line construct keyword name lines).rest steps next →
      Blocks (construct == .outline || release.hasScenarioExamples) next blocks rest →
      Test release found line construct keyword name lines
        ⟨found, (header line construct keyword name lines).value, steps, blocks⟩ rest

/-- The tests up to the next rule or the end. -/
inductive Tests (release : Release) : List Line → List Scenario → List Line → Prop where
  | done {lines} : Tags lines [] [] → Tests release lines [] []
  | rule {lines found line below keyword name} : Tags lines found (line :: below) →
      line.kind = .header .rule keyword name → Tests release lines [] lines
  | test {lines found line below construct keyword name test next more rest} :
      Tags lines found (line :: below) → line.kind = .header construct keyword name →
      construct = .scenario ∨ construct = .outline →
      Test release found line construct keyword name below test next →
      Tests release next more rest → Tests release lines (test :: more) rest

/-- A background, if there is one, and the tests behind it. -/
inductive Body (release : Release) : List Line → Document.Body → List Line → Prop where
  | background {lines line below keyword name steps next tests rest} :
      Tags lines [] (line :: below) → line.kind = .header .background keyword name →
      Steps (header line .background keyword name below).rest steps next →
      Tests release next tests rest →
      Body release lines ⟨some ⟨(header line .background keyword name below).value, steps⟩, tests⟩
        rest
  | tests {lines tests rest} : Tests release lines tests rest →
      Body release lines ⟨none, tests⟩ rest

/-- The rules that end a feature. -/
inductive Rules (release : Release) : List Line → List Rule → Prop where
  | done {lines} : Tags lines [] [] → Rules release lines []
  | rule {lines found line below keyword name body next more} : release.hasRules = true →
      Tags lines found (line :: below) → line.kind = .header .rule keyword name →
      (release.hasRuleTags = true ∨ found = []) →
      Body release (header line .rule keyword name below).rest body next →
      Rules release next more →
      Rules release lines (⟨found, (header line .rule keyword name below).value, body⟩ :: more)

/-- The feature of a document, if there is one. -/
inductive Feature (release : Release) (language : Text) :
    List Line → Option Document.Feature → Prop where
  | none {lines} : Tags lines [] [] → Feature release language lines none
  | some {lines found line below keyword name body next rules} : Tags lines found (line :: below) →
      line.kind = .header .feature keyword name →
      Body release (header line .feature keyword name below).rest body next →
      Rules release next rules →
      Feature release language lines
        (some ⟨language, found, (header line .feature keyword name below).value, body, rules⟩)

end Grammar

end Gherkin
