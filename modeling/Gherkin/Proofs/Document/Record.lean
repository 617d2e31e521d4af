import Gherkin.Proofs.Document.Numbered
import Gherkin.Proofs.Document.Spelling
import Gherkin.Proofs.Json.Lookup
import Gherkin.Record.Messages
import Gherkin.Record.TypedTree

/-!
# The record of a document

A document has one record, whatever family its result is written in. The record
is given here construct by construct; the result of a construct, in any family
and from any number, reads back as the record of the construct.
-/

namespace Gherkin

namespace Document

/-- The line of a place, as records have it. -/
def Place.location (place : Place) : Json := Json.object [("line", Json.natural place.line)]

/-- The fields of every record with a header. -/
def Header.fields (kind : Kind) (header : Header) : List (String × Json) :=
  [("kind", Json.word kind.symbol), ("keyword", .text header.keyword), ("name", .text header.name),
    ("description", .text header.description), ("location", header.place.location)]

/-- The record of a tag. -/
def Tag.record (tag : Tag) : Json :=
  Json.object [("kind", Json.word Kind.tag.symbol), ("location", tag.place.location),
    ("name", .text tag.name)]

/-- The record of a cell on a line. -/
def cellRecord (line : Nat) (cell : Cell) : Json :=
  Json.object [("kind", Json.word Kind.cell.symbol),
    ("location", Json.object [("line", Json.natural line)]), ("value", .text cell.value)]

/-- The record of a row. -/
def Row.record (row : Row) : Json :=
  Json.object [("kind", Json.word Kind.row.symbol), ("location", row.place.location),
    ("cells", .list (row.cells.map (cellRecord row.place.line)))]

/-- The record of a table or doc string. -/
def Argument.record : Argument → Json
  | .table place rows =>
    Json.object [("kind", Json.word Kind.table.symbol), ("location", place.location),
      ("rows", .list (rows.map Row.record))]
  | .docString place _ contentType content =>
    Json.object [("kind", Json.word Kind.docString.symbol), ("location", place.location),
      ("content_type", (contentType.map Json.text).getD .null), ("contents", .text content)]

/-- The record of a step. -/
def Step.record (step : Step) : Json :=
  Json.object [("kind", Json.word Kind.step.symbol),
    ("keyword", .text (Text.trimEnd step.keyword)), ("text", .text step.text),
    ("location", step.place.location), ("block", (step.argument.map Argument.record).getD .null)]

/-- The record of a background. -/
def Background.record (background : Background) : Json :=
  Json.object (background.header.fields .background ++
    [("steps", .list (background.steps.map Step.record))])

/-- The record of an examples block. -/
def Examples.record (examples : Examples) : Json :=
  Json.object (examples.header.fields .example ++
    [("tags", .list (examples.tags.map Tag.record)),
      ("rows", .list (examples.rows.map Row.record))])

/-- The record of a scenario or an outline. Only outlines have examples. -/
def Scenario.record (scenario : Scenario) : Json :=
  if scenario.isOutline then
    Json.object (scenario.header.fields .outline ++
      [("tags", .list (scenario.tags.map Tag.record)),
        ("steps", .list (scenario.steps.map Step.record)),
        ("examples", .list (scenario.examples.map Examples.record))])
  else
    Json.object (scenario.header.fields .scenario ++
      [("tags", .list (scenario.tags.map Tag.record)),
        ("steps", .list (scenario.steps.map Step.record))])

/-- The records of the children of a feature or rule. -/
def Body.records (body : Body) : List Json :=
  body.background.toList.map Background.record ++ body.tests.map Scenario.record

/-- The record of a rule. -/
def Rule.record (rule : Rule) : Json :=
  Json.object (rule.header.fields .rule ++
    [("tags", .list (rule.tags.map Tag.record)), ("children", .list rule.body.records)])

/-- The record of a feature. -/
def Feature.record (feature : Feature) : Json :=
  Json.object (feature.header.fields .feature ++
    [("language", .text feature.language), ("tags", .list (feature.tags.map Tag.record)),
      ("children", .list (feature.body.records ++ feature.rules.map Rule.record))])

/-- The record of a document with the name of its file. -/
def record (uri : Text) (document : Document) : Record :=
  Fields.ofList [("kind", Json.word Kind.featureFile.symbol), ("uri", .text uri),
    ("feature", (document.feature.map Feature.record).getD .null)]

end Document

end Gherkin
