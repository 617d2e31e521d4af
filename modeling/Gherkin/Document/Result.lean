import Gherkin.Document.Basic
import Gherkin.Release
import Gherkin.Json.Basic

/-!
# Parse results

A document is handed on as a JSON value in the shape of a family of parser
releases. The two message families put the document in an envelope, wrap each
child in an object with one key, and number the nodes; the protobuf family leaves
out empty texts and lists. The typed tree names the type of each node instead and
puts children and arguments in place.

Numbers are given in the order in which nodes are completed, inner nodes first.
-/

namespace Gherkin

namespace Document

/-- Emission hands on the next free number. -/
abbrev Numbered := StateM Nat

/-- Fields of a node that are still to be put in order. -/
abbrev Entries := List (String × Json)

/-- Whether nodes carry their type. -/
def isTyped (family : Family) : Bool := family == .typedTree

/-- Whether empty texts and lists are left out. -/
def omitsEmpty (family : Family) : Bool := family == .protobuf

/-- The key of the content type of a doc string. -/
def contentTypeKey : Family → String
  | .jsonSchema => "mediaType"
  | .protobuf | .typedTree => "contentType"

/-- The type and the place of a node. -/
def nodeEntries (family : Family) (type : String) (place : Place) : Entries :=
  (if isTyped family then [("type", Json.word type)] else []) ++
    [("location",
      Json.object [("line", Json.natural place.line), ("column", Json.natural place.column)])]

/-- A text field. -/
def textEntry (family : Family) (key : String) (value : Text) : Entries :=
  if value.isEmpty && omitsEmpty family then [] else [(key, .text value)]

/-- A list field. -/
def listEntry (family : Family) (key : String) (items : List Json) : Entries :=
  if items.isEmpty && omitsEmpty family then [] else [(key, .list items)]

/-- Keyword, name and description. The typed tree has no empty descriptions. -/
def headerEntries (family : Family) (header : Header) : Entries :=
  textEntry family "keyword" header.keyword ++ textEntry family "name" header.name ++
    if header.description.isEmpty && isTyped family then []
    else textEntry family "description" header.description

/-- Completes a node: message families give it the next number. -/
def complete (family : Family) (entries : Entries) : Numbered Json := do
  if isTyped family then pure (Json.object entries)
  else
    let next ← get
    set (next + 1)
    pure (Json.object (entries ++ [("id", Json.word (toString next))]))

/-- A child in its wrapper; the typed tree has none. -/
def wrapped (family : Family) (key : String) (node : Json) : Json :=
  if isTyped family then node else Json.object [(key, node)]

/-- A tag. -/
def Tag.result (family : Family) (tag : Tag) : Numbered Json :=
  complete family (nodeEntries family "Tag" tag.place ++ [("name", .text tag.name)])

/-- A cell on a given line. -/
def cellResult (family : Family) (line : Nat) (cell : Cell) : Json :=
  Json.object
    (nodeEntries family "TableCell" ⟨line, cell.column⟩ ++ [("value", .text cell.value)])

/-- A row. -/
def Row.result (family : Family) (row : Row) : Numbered Json :=
  complete family (nodeEntries family "TableRow" row.place ++
    listEntry family "cells" (row.cells.map (cellResult family row.place.line)))

/-- The field of a step that holds its argument. -/
def Argument.result (family : Family) : Argument → Numbered Entries
  | .table place rows => do
    let rows ← rows.mapM (Row.result family)
    pure [(if isTyped family then "argument" else "dataTable",
      Json.object (nodeEntries family "DataTable" place ++ listEntry family "rows" rows))]
  | .docString place fence contentType content =>
    pure [(if isTyped family then "argument" else "docString",
      Json.object (nodeEntries family "DocString" place ++
        (match contentType with
          | some contentType => [(contentTypeKey family, .text contentType)]
          | none => []) ++
        textEntry family "content" content ++
        if isTyped family then [] else [("delimiter", .text fence.text)]))]

/-- A step. -/
def Step.result (family : Family) (step : Step) : Numbered Json := do
  let argument ← match step.argument with
    | some argument => argument.result family
    | none => pure []
  complete family (nodeEntries family "Step" step.place ++
    textEntry family "keyword" step.keyword ++ textEntry family "text" step.text ++ argument)

/-- A background. -/
def Background.result (family : Family) (background : Background) : Numbered Json := do
  let steps ← background.steps.mapM (Step.result family)
  complete family (nodeEntries family "Background" background.header.place ++
    headerEntries family background.header ++ listEntry family "steps" steps)

/-- An examples block. -/
def Examples.result (family : Family) (examples : Examples) : Numbered Json := do
  let tags ← examples.tags.mapM (Tag.result family)
  let rows ← examples.rows.mapM (Row.result family)
  complete family (nodeEntries family "Examples" examples.header.place ++
    listEntry family "tags" tags ++ headerEntries family examples.header ++
    (rows.head?.map fun row => ("tableHeader", row)).toList ++
    listEntry family "tableBody" rows.tail)

/-- A scenario or an outline. In the typed tree only outlines have examples. -/
def Scenario.result (family : Family) (scenario : Scenario) : Numbered Json := do
  let tags ← scenario.tags.mapM (Tag.result family)
  let steps ← scenario.steps.mapM (Step.result family)
  let examples ← scenario.examples.mapM (Examples.result family)
  let type := if scenario.isOutline then "ScenarioOutline" else "Scenario"
  complete family (nodeEntries family type scenario.header.place ++
    listEntry family "tags" tags ++ headerEntries family scenario.header ++
    listEntry family "steps" steps ++
    if isTyped family && !scenario.isOutline then [] else listEntry family "examples" examples)

/-- The children of a feature or rule, in their wrappers. -/
def Body.result (family : Family) (body : Body) : Numbered (List Json) := do
  let background ← body.background.toList.mapM (Background.result family)
  let tests ← body.tests.mapM (Scenario.result family)
  pure (background.map (wrapped family "background") ++ tests.map (wrapped family "scenario"))

/-- A rule. -/
def Rule.result (family : Family) (rule : Rule) : Numbered Json := do
  let tags ← rule.tags.mapM (Tag.result family)
  let children ← rule.body.result family
  complete family (nodeEntries family "Rule" rule.header.place ++
    listEntry family "tags" tags ++ headerEntries family rule.header ++
    listEntry family "children" children)

/-- A feature, the only node without a number that is no part of another one. -/
def Feature.result (family : Family) (feature : Feature) : Numbered Json := do
  let tags ← feature.tags.mapM (Tag.result family)
  let children ← feature.body.result family
  let rules ← feature.rules.mapM (Rule.result family)
  pure (Json.object (nodeEntries family "Feature" feature.header.place ++
    listEntry family "tags" tags ++ textEntry family "language" feature.language ++
    headerEntries family feature.header ++
    listEntry family "children" (children ++ rules.map (wrapped family "rule"))))

/-- A document in the shape of a family. Only messages name the file. -/
def result (family : Family) (uri : Text) (document : Document) : Json :=
  let feature := document.feature.map fun feature => ((feature.result family).run 0).1
  if isTyped family then
    Json.object [("type", Json.word "GherkinDocument"), ("feature", feature.getD .null),
      ("comments", .list [])]
  else
    Json.object [("gherkinDocument",
      Json.object ([("uri", .text uri)] ++
        (feature.map fun feature => ("feature", feature)).toList ++
        listEntry family "comments" []))]

end Document

end Gherkin
