import Gherkin.Document.Reader

/-!
# Reading with a cursor

The readers once more, as one cursor goes over the lines. It moves on line by line, and
back to where some tags begin when they turn out to belong to a construct that is read
elsewhere, so that these tags are read again. Each loop is given one turn more than there are
lines, and a turn that does not leave its loop is kept on record. The readers of
`Document.Reader` say at once what comes out in the end.
-/

namespace Gherkin

namespace Document

/-- Why a walk stops early: a fault in the text, a line behind all that a document has, or a
loop that has used up its turns. -/
inductive Halt where
  | fault (fault : Fault)
  | leftover (line : Line)
  | spent
deriving DecidableEq, Repr

/-- The loops of a walk. -/
inductive Loop where
  | preamble
  | gap
  | tags
  | description
  | rows
  | content
  | steps
  | examples
  | feature
  | rule
  | rules
deriving DecidableEq, Repr

/-- A turn that did not leave its loop, with the positions of the cursor before and after. -/
structure Turn where
  loop : Loop
  start : Nat
  stop : Nat
deriving DecidableEq, Repr

/-- The number of lines behind the cursor, with the positions it was moved to and the turns
that went on, latest first. -/
structure Cursor where
  position : Nat
  visited : List Nat
  turns : List Turn
deriving DecidableEq, Repr

/-- The cursor in front of all lines. -/
def Cursor.start : Cursor := ⟨0, [], []⟩

/-- A part of a walk. When it stops early, the cursor stays as it is then. -/
abbrev Walk (α : Type) := EStateM Halt Cursor α

namespace Walk

variable {α σ : Type}

/-- Where the cursor is. -/
def position : Walk Nat := return (← get).position

/-- Moves the cursor. -/
def moveTo (position : Nat) : Walk Unit :=
  modify fun cursor => { cursor with position, visited := position :: cursor.visited }

/-- Moves the cursor behind the line in front of it. -/
def advance : Walk Unit := do moveTo ((← position) + 1)

/-- The line in front of the cursor. -/
def peek (lines : List α) : Walk (Option α) := return lines[← position]?

/-- Stops at a fault. -/
def fail (fault : Fault) : Walk α := throw (.fault fault)

/-- Goes on with a value, or stops at a fault. -/
def check : Except Fault α → Walk α
  | .ok value => pure value
  | .error fault => fail fault

/-- Keeps a turn on record. -/
def record (turn : Turn) : Walk Unit :=
  modify fun cursor => { cursor with turns := turn :: cursor.turns }

/-- Takes turns until one leaves the loop. -/
def loop (name : Loop) (turn : σ → Walk (ForInStep σ)) : (limit : Nat) → σ → Walk σ
  | 0, _ => throw .spent
  | limit + 1, state => do
    let start ← position
    match ← turn state with
    | .done state => pure state
    | .yield state => do
      record ⟨name, start, ← position⟩
      loop name turn limit state

/-! ## Shared pieces -/

def passTurn (lines : List Line) (p : Line → Bool) (passed : List Line) :
    Walk (ForInStep (List Line)) := do
  match ← peek lines with
  | none => pure (.done passed)
  | some line =>
    if p line then do
      advance
      pure (.yield (passed ++ [line]))
    else pure (.done passed)

/-- Passes over the lines up to the first that is not as asked. -/
def pass (name : Loop) (lines : List Line) (p : Line → Bool) : Walk (List Line) :=
  loop name (passTurn lines p) (lines.length + 1) []

/-- Passes over blank lines and comments. -/
def skip (lines : List Line) : Walk Unit := discard (pass .gap lines Line.isIgnorable)

def tagsTurn (lines : List Line) (found : List Tag) : Walk (ForInStep (List Tag)) := do
  match ← peek lines with
  | none => pure (.done found)
  | some line =>
    if line.isIgnorable then do
      advance
      pure (.yield found)
    else if line.kind = .tags then do
      let here ← check (lineTags line (Word.beforeComment (Word.split 1 line.raw)))
      advance
      pure (.yield (found ++ here))
    else pure (.done found)

/-- The tags in front of the next construct. -/
def tags (lines : List Line) : Walk (List Tag) :=
  loop .tags (tagsTurn lines) (lines.length + 1) []

/-- The header on the line in front of the cursor and the description below it. -/
def header (lines : List Line) (line : Line) (construct : Construct) (keyword name : Text) :
    Walk Header := do
  advance
  let below ← pass .description lines Line.continuesDescription
  pure (Document.header line construct keyword name below).value

def rowsTurn (lines : List Line) (found : List Row) : Walk (ForInStep (List Row)) := do
  match ← peek lines with
  | none => pure (.done found)
  | some line =>
    match line.kind with
    | .row =>
      let cells := Cell.split line.raw
      if found.head?.any fun first => first.cells.length != cells.length then
        fail ⟨.at line.place, .unevenTable⟩
      else do
        advance
        pure (.yield (found ++ [⟨line.place, cells⟩]))
    | .comment => do
      advance
      pure (.yield found)
    | _ => pure (.done found)

/-- Table rows, comments between them passed over. -/
def rows (lines : List Line) : Walk (List Row) :=
  loop .rows (rowsTurn lines) (lines.length + 1) []

/-- The lines of a doc string whose opening delimiter is behind the cursor. -/
def content (lines : List Line) (opening : Line) (fence : Fence) : Walk (List Text) := do
  let inside ← pass .content lines fun line => line.trimmed ≠ fence.text
  match ← peek lines with
  | none => fail ⟨.at opening.place, .unexpectedEnd [.docStringSeparator]⟩
  | some _ => do
    advance
    pure (inside.map fun line => contentLine fence (Text.indent opening.raw) line.raw)

/-! ## Constructs -/

/-- The table or doc string below a step, if there is one. -/
def argument (lines : List Line) : Walk (Option Argument) := do
  skip lines
  match ← peek lines with
  | none => pure none
  | some line =>
    match line.kind with
    | .row => do
      let found ← rows lines
      pure (some (.table line.place found))
    | .fence fence contentType => do
      advance
      let found ← content lines line fence
      let contentType := if contentType.isEmpty then none else some contentType
      pure (some (.docString line.place fence contentType (Text.unlines found)))
    | _ => pure none

def stepsTurn (lines : List Line) (found : List Step) : Walk (ForInStep (List Step)) := do
  skip lines
  match ← peek lines with
  | none => pure (.done found)
  | some line =>
    match line.kind with
    | .step keyword text => do
      advance
      let below ← argument lines
      pure (.yield (found ++ [⟨line.place, keyword, text, below⟩]))
    | _ => pure (.done found)

/-- The steps up to the next construct. -/
def steps (lines : List Line) : Walk (List Step) :=
  loop .steps (stepsTurn lines) (lines.length + 1) []

def examplesTurn (lines : List Line) (release : Release) (outline : Bool)
    (blocks : List Examples) : Walk (ForInStep (List Examples)) := do
  let mark ← position
  let found ← tags lines
  match ← peek lines with
  | none => do
    moveTo mark
    pure (.done blocks)
  | some line =>
    match line.kind with
    | .header .examples keyword name =>
      if !outline && !release.hasScenarioExamples then
        fail (unexpected line [.stepLine, .scenarioLine, .tagLine])
      else do
        let head ← header lines line .examples keyword name
        skip lines
        let table ← rows lines
        pure (.yield (blocks ++ [⟨found, head, table⟩]))
    | _ => do
      moveTo mark
      pure (.done blocks)

/-- The examples blocks of a scenario. -/
def examples (lines : List Line) (release : Release) (outline : Bool) : Walk (List Examples) :=
  loop .examples (examplesTurn lines release outline) (lines.length + 1) []

/-- The scenario whose header line is in front of the cursor. -/
def scenario (lines : List Line) (release : Release) (found : List Tag) (line : Line)
    (construct : Construct) (keyword name : Text) : Walk Scenario := do
  let head ← header lines line construct keyword name
  let performed ← steps lines
  let blocks ← examples lines release (construct == .outline)
  pure ⟨found, head, performed, blocks⟩

/-- Whether neither a background nor a test has been read. -/
def isFresh (body : Body) : Bool := body.background.isNone && body.tests.isEmpty

def bodyTurn (lines : List Line) (release : Release) (body : Body) : Walk (ForInStep Body) := do
  let mark ← position
  let found ← tags lines
  match ← peek lines with
  | none =>
    if found.isEmpty then pure (.done body) else fail (unfinished [.scenarioLine, .ruleLine])
  | some line =>
    match line.kind with
    | .header construct keyword name =>
      match construct with
      | .background =>
        if isFresh body then do
          check (withoutTags .background found)
          let head ← header lines line .background keyword name
          let performed ← steps lines
          pure (.yield { body with background := some ⟨head, performed⟩ })
        else fail (unexpected line [.scenarioLine, .ruleLine, .tagLine])
      | .scenario | .outline => do
        let test ← scenario lines release found line construct keyword name
        pure (.yield { body with tests := body.tests ++ [test] })
      | .rule => do
        moveTo mark
        pure (.done body)
      | _ => fail (unexpected line [.scenarioLine, .ruleLine, .tagLine])
    | _ => fail (unexpected line [.scenarioLine, .ruleLine, .tagLine])

/-- Background and tests of a feature or a rule, up to the next rule or the end. -/
def body (name : Loop) (lines : List Line) (release : Release) : Walk Body :=
  loop name (bodyTurn lines release) (lines.length + 1) ⟨none, []⟩

def rulesTurn (lines : List Line) (release : Release) (list : List Rule) :
    Walk (ForInStep (List Rule)) := do
  let found ← tags lines
  match ← peek lines with
  | none => if found.isEmpty then pure (.done list) else fail (unfinished [.ruleLine])
  | some line =>
    match line.kind with
    | .header .rule keyword name =>
      if !release.hasRules then fail ⟨.at line.place, .unsupportedRule⟩
      else do
        check (if release.hasRuleTags then .ok () else withoutTags .rule found)
        let head ← header lines line .rule keyword name
        let inner ← body .rule lines release
        pure (.yield (list ++ [⟨found, head, inner⟩]))
    | _ => fail (unexpected line [.ruleLine])

/-- The rules that end a feature. -/
def rules (lines : List Line) (release : Release) : Walk (List Rule) :=
  loop .rules (rulesTurn lines release) (lines.length + 1) []

/-- The feature of a document, if there is one. -/
def feature? (lines : List Line) (release : Release) (language : Text) :
    Walk (Option Feature) := do
  let found ← tags lines
  match ← peek lines with
  | none => if found.isEmpty then pure none else fail (unfinished [.feature])
  | some line =>
    match line.kind with
    | .header .feature keyword name => do
      let head ← header lines line .feature keyword name
      let inner ← body .feature lines release
      let list ← rules lines release
      pure (some ⟨language, found, head, inner, list⟩)
    | _ => fail (unexpected line [.feature])

def preambleTurn (raws : List Text) (dialect : Dialect) : Walk (ForInStep Dialect) := do
  let position ← position
  match ← peek raws with
  | none => pure (.done dialect)
  | some raw =>
    let line := Line.read dialect (position + 1) raw
    match line.kind with
    | .blank | .comment => do
      advance
      pure (.yield dialect)
    | .language code =>
      match Dialect.find? code with
      | some chosen => do
        advance
        pure (.yield chosen)
      | none => fail ⟨.at line.place, .unknownLanguage code⟩
    | _ => pure (.done dialect)

/-- Passes over the blank lines and comments a document begins with, to the dialect that they
choose. -/
def preamble (raws : List Text) (dialect : Dialect) : Walk Dialect :=
  loop .preamble (preambleTurn raws) (raws.length + 1) dialect

/-- The feature, if there is one, with nothing but blank lines and comments behind it. -/
def whole (lines : List Line) (release : Release) (language : Text) : Walk Document := do
  let found ← feature? lines release language
  skip lines
  match ← peek lines with
  | none => pure ⟨found⟩
  | some line => throw (.leftover line)

/-- The document that some lines are. -/
def document (release : Release) (dialect : Dialect) (raws : List Text) : Walk Document := do
  let settled ← preamble raws dialect
  whole (Line.readAll settled 1 raws) release settled.code

end Walk

/-- A walk over all lines of a document: what it comes to, and the cursor as it is then. -/
def walk (release : Release) (dialect : Dialect) (raws : List Text) :
    Except Halt Document × Cursor :=
  match Walk.document release dialect raws .start with
  | .ok document cursor => (.ok document, cursor)
  | .error halt cursor => (.error halt, cursor)

end Document

end Gherkin
