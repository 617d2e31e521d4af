import Gherkin.Document.Basic
import Gherkin.Line.Tags
import Gherkin.Text.Replace
import Gherkin.Release

/-!
# Reading documents

The grammar, top down:

    document   := (tags? feature)?
    feature    := header description background? test* rule*
    rule       := tags? header description background? test*
    background := header description step*
    test       := tags? header description step* examples*
    examples   := tags? header description table?
    step       := step-line (table | doc-string)?

Blank lines and comments may stand between any two constructs. Each reader takes
the lines in front of it and returns what it read with the lines it left, which
are a suffix of those it was given; this is why reading ends.

Tags are read before it is clear which construct they belong to. A reader that
finds them in front of another construct leaves them unread.
-/

namespace Gherkin

namespace Document

/-- Where reading stopped. -/
inductive Stop where
  | at (place : Place)
  | afterLastLine
deriving DecidableEq, Repr

/-- A defect and where reading stopped for it. -/
structure Fault where
  stop : Stop
  defect : Defect
deriving DecidableEq, Repr

/-- A value read from the front of some lines, with the lines behind it. -/
structure Parsed (α : Type) (lines : List Line) where
  value : α
  rest : List Line
  suffix : rest <:+ lines

/-- What reading some lines comes to. -/
abbrev Reading (α : Type) (lines : List Line) := Except Fault (Parsed α lines)

/-- The fault of a line that has no place where it stands. -/
def unexpected (line : Line) (expected : List Token) : Fault :=
  ⟨.at line.place, .unexpectedLine expected line.trimmed⟩

/-- The fault of a document that ends too early. -/
def unfinished (expected : List Token) : Fault := ⟨.afterLastLine, .unexpectedEnd expected⟩

/-- The tags of a line. -/
def lineTags (line : Line) : List Word → Except Fault (List Tag)
  | [] => .ok []
  | word :: rest =>
    let place : Place := ⟨line.number, word.column⟩
    if word.isTag then do
      let tags ← lineTags line rest
      pure (⟨place, word.text⟩ :: tags)
    else .error ⟨.at place, .brokenTag line.trimmed⟩

/-- The tags in front of the next construct. -/
def tags : (lines : List Line) → Reading (List Tag) lines
  | [] => .ok ⟨[], [], List.suffix_refl _⟩
  | line :: rest =>
    if line.isIgnorable then do
      let ⟨found, left, h⟩ ← tags rest
      pure ⟨found, left, h.trans (List.suffix_cons line rest)⟩
    else if line.kind = .tags then do
      let here ← lineTags line (Word.beforeComment (Word.split 1 line.raw))
      let ⟨found, left, h⟩ ← tags rest
      pure ⟨here ++ found, left, h.trans (List.suffix_cons line rest)⟩
    else .ok ⟨[], line :: rest, List.suffix_refl _⟩

/-- Refuses tags in front of a construct that cannot have any. -/
def withoutTags (construct : Kind) : List Tag → Except Fault Unit
  | [] => .ok ()
  | tag :: _ => .error ⟨.at tag.place, .misplacedTags construct⟩

/-- The lines that a description is made of: its free text, with the blank lines
inside it. -/
def descriptionLines (lines : List Line) : List Line :=
  let written := (lines.takeWhile Line.continuesDescription).filter fun line =>
    line.kind == .other || line.kind == .blank
  ((written.dropWhile fun line => line.kind == .blank).reverse.dropWhile
    fun line => line.kind == .blank).reverse

/-- The header on a line and the description below it. -/
def header (line : Line) (construct : Construct) (keyword name : Text) (lines : List Line) :
    Parsed Header lines where
  value := ⟨line.place, construct, keyword, name,
    Text.unlines ((descriptionLines lines).map Line.raw)⟩
  rest := lines.dropWhile Line.continuesDescription
  suffix := List.dropWhile_suffix _

/-- Table rows, comments between them passed over. All rows have the number of
cells of the first one. -/
def rows (width : Option Nat) : (lines : List Line) → Reading (List Row) lines
  | [] => .ok ⟨[], [], List.suffix_refl _⟩
  | line :: rest =>
    match line.kind with
    | .row =>
      let cells := Cell.split line.raw
      if width.any (· != cells.length) then .error ⟨.at line.place, .unevenTable⟩
      else do
        let ⟨more, left, h⟩ ← rows (some cells.length) rest
        pure ⟨⟨line.place, cells⟩ :: more, left, h.trans (List.suffix_cons line rest)⟩
    | .comment => do
      let ⟨more, left, h⟩ ← rows width rest
      pure ⟨more, left, h.trans (List.suffix_cons line rest)⟩
    | _ => .ok ⟨[], line :: rest, List.suffix_refl _⟩

/-- A delimiter as it is written inside a doc string. -/
def Fence.escaped (fence : Fence) : Text := fence.text.flatMap fun c => ['\\', c]

/-- A line of a doc string, given by the indentation of its delimiter. -/
def contentLine (fence : Fence) (indent : Nat) (raw : Text) : Text :=
  Text.replace (Fence.escaped fence) fence.text (Text.dropIndent indent raw)

/-- The lines of a doc string up to the closing delimiter; none if it is missing. -/
def content (fence : Fence) (indent : Nat) :
    (lines : List Line) → Option (Parsed (List Text) lines)
  | [] => none
  | line :: rest =>
    if line.trimmed = fence.text then some ⟨[], rest, List.suffix_cons line rest⟩
    else do
      let ⟨more, left, h⟩ ← content fence indent rest
      pure ⟨contentLine fence indent line.raw :: more, left,
        h.trans (List.suffix_cons line rest)⟩

/-- The table or doc string below a step, if there is one. -/
def argument (lines : List Line) : Reading (Option Argument) lines :=
  match h : lines.dropWhile Line.isIgnorable with
  | [] => .ok ⟨none, [], List.nil_suffix⟩
  | line :: rest =>
    have whole : line :: rest <:+ lines := h ▸ List.dropWhile_suffix _
    match line.kind with
    | .row => do
      let ⟨found, left, hl⟩ ← rows none (line :: rest)
      pure ⟨some (.table line.place found), left, hl.trans whole⟩
    | .fence fence contentType =>
      match content fence (Text.indent line.raw) rest with
      | none => .error ⟨.at line.place, .unexpectedEnd [.docStringSeparator]⟩
      | some ⟨found, left, hl⟩ =>
        let contentType := if contentType.isEmpty then none else some contentType
        .ok ⟨some (.docString line.place fence contentType (Text.unlines found)), left,
          hl.trans ((List.suffix_cons line rest).trans whole)⟩
    | _ => .ok ⟨none, line :: rest, whole⟩

/-- The steps up to the next construct. -/
def steps (lines : List Line) : Reading (List Step) lines :=
  match h : lines.dropWhile Line.isIgnorable with
  | [] => .ok ⟨[], [], List.nil_suffix⟩
  | line :: rest =>
    have whole : line :: rest <:+ lines := h ▸ List.dropWhile_suffix _
    match line.kind with
    | .step keyword text => do
      let ⟨below, behind, hb⟩ ← argument rest
      have : behind.length < lines.length :=
        Nat.lt_of_le_of_lt hb.length_le (Nat.lt_of_succ_le whole.length_le)
      let ⟨more, left, hl⟩ ← steps behind
      pure ⟨⟨line.place, keyword, text, below⟩ :: more, left,
        hl.trans (hb.trans ((List.suffix_cons line rest).trans whole))⟩
    | _ => .ok ⟨[], line :: rest, whole⟩
termination_by lines.length

/-- The table of an examples block. -/
def exampleRows (lines : List Line) : Reading (List Row) lines := do
  let ⟨found, left, h⟩ ← rows none (lines.dropWhile Line.isIgnorable)
  pure ⟨found, left, h.trans (List.dropWhile_suffix _)⟩

/-- The examples blocks of a scenario. -/
def examples (release : Release) (outline : Bool) (lines : List Line) :
    Reading (List Examples) lines := do
  let ⟨found, next, hn⟩ ← tags lines
  match next, hn with
  | line :: rest, hn =>
    match line.kind with
    | .header .examples keyword name =>
      if !outline && !release.hasScenarioExamples then
        .error (unexpected line [.stepLine, .scenarioLine, .tagLine])
      else do
        let ⟨head, below, hh⟩ := header line .examples keyword name rest
        let ⟨table, behind, hb⟩ ← exampleRows below
        have : behind.length < lines.length :=
          Nat.lt_of_le_of_lt (hb.trans hh).length_le (Nat.lt_of_succ_le hn.length_le)
        let ⟨more, left, hl⟩ ← examples release outline behind
        pure ⟨⟨found, head, table⟩ :: more, left,
          hl.trans (hb.trans (hh.trans ((List.suffix_cons line rest).trans hn)))⟩
    | _ => .ok ⟨[], lines, List.suffix_refl _⟩
  | [], _ => .ok ⟨[], lines, List.suffix_refl _⟩
termination_by lines.length

/-- A scenario whose header line and tags have been read. -/
def scenario (release : Release) (found : List Tag) (line : Line) (construct : Construct)
    (keyword name : Text) (lines : List Line) : Reading Scenario lines := do
  let ⟨head, below, hh⟩ := header line construct keyword name lines
  let ⟨performed, behind, hb⟩ ← steps below
  let ⟨blocks, left, hl⟩ ← examples release (construct == .outline) behind
  pure ⟨⟨found, head, performed, blocks⟩, left, hl.trans (hb.trans hh)⟩

/-- The tests up to the next rule or the end. -/
def tests (release : Release) (lines : List Line) : Reading (List Scenario) lines := do
  let ⟨found, next, hn⟩ ← tags lines
  match next, hn with
  | [], hn =>
    if found.isEmpty then .ok ⟨[], [], hn⟩
    else .error (unfinished [.scenarioLine, .ruleLine])
  | line :: rest, hn =>
    match line.kind with
    | .header construct keyword name =>
      match construct with
      | .scenario | .outline => do
        let ⟨test, behind, hb⟩ ← scenario release found line construct keyword name rest
        have : behind.length < lines.length :=
          Nat.lt_of_le_of_lt hb.length_le (Nat.lt_of_succ_le hn.length_le)
        let ⟨more, left, hl⟩ ← tests release behind
        pure ⟨test :: more, left, hl.trans (hb.trans ((List.suffix_cons line rest).trans hn))⟩
      | .rule => .ok ⟨[], lines, List.suffix_refl _⟩
      | _ => .error (unexpected line [.scenarioLine, .ruleLine, .tagLine])
    | _ => .error (unexpected line [.scenarioLine, .ruleLine, .tagLine])
termination_by lines.length

/-- A background, if there is one, and the tests behind it. -/
def body (release : Release) (lines : List Line) : Reading Body lines := do
  let ⟨found, next, hn⟩ ← tags lines
  match next, hn with
  | line :: rest, hn =>
    match line.kind with
    | .header .background keyword name => do
      withoutTags .background found
      let ⟨head, below, hh⟩ := header line .background keyword name rest
      let ⟨performed, behind, hb⟩ ← steps below
      let ⟨list, left, hl⟩ ← tests release behind
      pure ⟨⟨some ⟨head, performed⟩, list⟩, left,
        hl.trans (hb.trans (hh.trans ((List.suffix_cons line rest).trans hn)))⟩
    | _ => do
      let ⟨list, left, hl⟩ ← tests release lines
      pure ⟨⟨none, list⟩, left, hl⟩
  | [], _ => do
    let ⟨list, left, hl⟩ ← tests release lines
    pure ⟨⟨none, list⟩, left, hl⟩

/-- The rules that end a feature. -/
def rules (release : Release) (lines : List Line) : Reading (List Rule) lines := do
  let ⟨found, next, hn⟩ ← tags lines
  match next, hn with
  | [], hn =>
    if found.isEmpty then .ok ⟨[], [], hn⟩ else .error (unfinished [.ruleLine])
  | line :: rest, hn =>
    match line.kind with
    | .header .rule keyword name =>
      if !release.hasRules then .error ⟨.at line.place, .unsupportedRule⟩
      else do
        if !release.hasRuleTags then withoutTags .rule found
        let ⟨head, below, hh⟩ := header line .rule keyword name rest
        let ⟨inner, behind, hb⟩ ← body release below
        have : behind.length < lines.length :=
          Nat.lt_of_le_of_lt (hb.trans hh).length_le (Nat.lt_of_succ_le hn.length_le)
        let ⟨more, left, hl⟩ ← rules release behind
        pure ⟨⟨found, head, inner⟩ :: more, left,
          hl.trans (hb.trans (hh.trans ((List.suffix_cons line rest).trans hn)))⟩
    | _ => .error (unexpected line [.ruleLine])
termination_by lines.length

/-- The feature of a document, if there is one. A feature reaches to the end. -/
def feature? (release : Release) (language : Text) (lines : List Line) :
    Except Fault (Option Feature) := do
  let ⟨found, next, _⟩ ← tags lines
  match next with
  | [] => if found.isEmpty then pure none else throw (unfinished [.feature])
  | line :: rest =>
    match line.kind with
    | .header .feature keyword name =>
      let ⟨head, below, _⟩ := header line .feature keyword name rest
      let ⟨inner, behind, _⟩ ← body release below
      let ⟨list, _, _⟩ ← rules release behind
      pure (some ⟨language, found, head, inner, list⟩)
    | _ => throw (unexpected line [.feature])

/-- Passes over the blank lines and comments a document begins with. A language
header among them chooses the dialect; the last one decides. The result is the
dialect, and the remaining lines with the number of the first. -/
def preamble (dialect : Dialect) :
    (number : Nat) → List Text → Except Fault (Dialect × Nat × List Text)
  | number, [] => .ok (dialect, number, [])
  | number, raw :: rest =>
    let line := Line.read dialect number raw
    match line.kind with
    | .blank | .comment => preamble dialect (number + 1) rest
    | .language code =>
      match Dialect.find? code with
      | some chosen => preamble chosen (number + 1) rest
      | none => .error ⟨.at line.place, .unknownLanguage code⟩
    | _ => .ok (dialect, number, raw :: rest)

/-- Reads the lines of a document. -/
def ofLines (release : Release) (dialect : Dialect) (raws : List Text) :
    Except Fault Document := do
  let (dialect, number, raws) ← preamble dialect 1 raws
  let feature ← feature? release dialect.code (Line.readAll dialect number raws)
  pure ⟨feature⟩

/-- Line and column of a fault; the end counts as column 0 of the line after the
last one. -/
def Fault.locate (file : Text) (lineCount : Nat) (fault : Fault) : SyntaxError :=
  match fault.stop with
  | .at place => ⟨file, place.line, place.column, fault.defect⟩
  | .afterLastLine => ⟨file, lineCount + 1, 0, fault.defect⟩

/-- Reads source text as the document of a file, in a dialect unless the text
names another one, with the grammar of a parser release. -/
def read (release : Release) (dialect : Dialect) (file source : Text) :
    Except SyntaxError Document :=
  let raws := Text.lines source
  (ofLines release dialect raws).mapError (Fault.locate file raws.length)

end Document

end Gherkin
