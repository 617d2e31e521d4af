import Gherkin.Line
import Gherkin.Line.Cells

/-!
# Documents as they are written

The outcome of reading source text: every construct with the place where it is
written, its keyword as spelled there, and its description untrimmed.
-/

namespace Gherkin

namespace Document

/-- A place in source text; lines and columns count from 1. -/
structure Place where
  line : Nat
  column : Nat
deriving DecidableEq, Repr

/-- A tag with its at sign. -/
structure Tag where
  place : Place
  name : Text
deriving DecidableEq, Repr

/-- A header line and the description below it. -/
structure Header where
  place : Place
  construct : Construct
  keyword : Text
  name : Text
  description : Text
deriving DecidableEq, Repr

/-- A table row. -/
structure Row where
  place : Place
  cells : List Cell
deriving DecidableEq, Repr

/-- What can stand below a step. -/
inductive Argument where
  | table (place : Place) (rows : List Row)
  | docString (place : Place) (fence : Fence) (contentType : Option Text) (content : Text)
deriving DecidableEq, Repr

/-- A step; its keyword has the blank that ends it. -/
structure Step where
  place : Place
  keyword : Text
  text : Text
  argument : Option Argument
deriving DecidableEq, Repr

/-- The steps that come before each test. -/
structure Background where
  header : Header
  steps : List Step
deriving DecidableEq, Repr

/-- An examples block. Its first row names the parameters. -/
structure Examples where
  tags : List Tag
  header : Header
  rows : List Row
deriving DecidableEq, Repr

/-- A scenario or a scenario outline. -/
structure Scenario where
  tags : List Tag
  header : Header
  steps : List Step
  examples : List Examples
deriving DecidableEq, Repr

/-- A scenario is an outline by its keyword or by having examples. -/
def Scenario.isOutline (scenario : Scenario) : Bool :=
  scenario.header.construct == .outline || !scenario.examples.isEmpty

/-- What features and rules have in common. -/
structure Body where
  background : Option Background
  tests : List Scenario
deriving DecidableEq, Repr

/-- A rule. -/
structure Rule where
  tags : List Tag
  header : Header
  body : Body
deriving DecidableEq, Repr

/-- A feature with the code of the dialect it is written in. -/
structure Feature where
  language : Text
  tags : List Tag
  header : Header
  body : Body
  rules : List Rule
deriving DecidableEq, Repr

end Document

/-- A document holds at most one feature. -/
structure Document where
  feature : Option Document.Feature
deriving DecidableEq, Repr

/-- The place of the first character of a line that is not blank. -/
def Line.place (line : Line) : Document.Place := ⟨line.number, line.column⟩

end Gherkin
