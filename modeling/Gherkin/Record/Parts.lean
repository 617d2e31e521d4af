import Gherkin.Record.Basic

/-!
# Records of parts

The parts of a document that look alike in every family of parse results: tags,
rows, tables, doc strings and examples. Every record has all the fields of its
kind; what a result leaves out reads as empty.
-/

namespace Gherkin

namespace Record

/-- The line of a node, or null. -/
def locationOf (node : Json) : Json :=
  match ((node.get? "location").bind (Json.get? "line")).bind Json.asNatural? with
  | some line => Json.object [("line", Json.natural line)]
  | none => .null

/-- A text field of a node; one that is missing reads as empty. -/
def textField (key : String) (node : Json) : String × Json := (key, .text (node.textAt key))

/-- The fields of every element with a header. -/
def headed (kind : Kind) (node : Json) : List (String × Json) :=
  [("kind", Json.word kind.symbol), textField "keyword" node, textField "name" node,
    textField "description" node, ("location", locationOf node)]

/-- The record of a tag. -/
def tagOf (node : Json) : Json :=
  Json.object [("kind", Json.word Kind.tag.symbol), ("location", locationOf node),
    textField "name" node]

/-- The records of the tags of a node. -/
def tagsOf (node : Json) : Json := .list ((node.itemsAt "tags").map tagOf)

/-- The record of a cell. -/
def cellOf (node : Json) : Json :=
  Json.object [("kind", Json.word Kind.cell.symbol), ("location", locationOf node),
    textField "value" node]

/-- The record of a row. -/
def rowOf (node : Json) : Json :=
  Json.object [("kind", Json.word Kind.row.symbol), ("location", locationOf node),
    ("cells", .list ((node.itemsAt "cells").map cellOf))]

/-- The record of a table. -/
def tableOf (node : Json) : Json :=
  Json.object [("kind", Json.word Kind.table.symbol), ("location", locationOf node),
    ("rows", .list ((node.itemsAt "rows").map rowOf))]

/-- The record of a doc string whose content type is found under a given key. An
empty content type counts as none. -/
def docStringOf (key : String) (node : Json) : Json :=
  let contentType := node.textAt key
  Json.object [("kind", Json.word Kind.docString.symbol), ("location", locationOf node),
    ("content_type", if contentType.isEmpty then .null else .text contentType),
    ("contents", .text (node.textAt "content"))]

/-- The record of an examples block; its rows begin with the parameters. -/
def exampleOf (node : Json) : Json :=
  let head := ((node.get? "tableHeader").filter fun row => !row.isNull).toList
  Json.object (headed .example node ++
    [("tags", tagsOf node), ("rows", .list ((head ++ node.itemsAt "tableBody").map rowOf))])

/-- The record of a step with a given block. The blank that ends a keyword does
not belong to it. -/
def stepOf (node block : Json) : Json :=
  Json.object [("kind", Json.word Kind.step.symbol),
    ("keyword", .text (Text.trimEnd (node.textAt "keyword"))), textField "text" node,
    ("location", locationOf node), ("block", block)]

/-- The record of a feature with given children. -/
def featureOf (node : Json) (children : List Json) : Json :=
  Json.object (headed .feature node ++
    [textField "language" node, ("tags", tagsOf node), ("children", .list children)])

/-- The record of a document, whose feature may be null. -/
def featureFileOf (document feature : Json) : Record :=
  Fields.ofList [("kind", Json.word Kind.featureFile.symbol), textField "uri" document,
    ("feature", feature)]

/-- The record of a node that has a kind and nothing else. -/
def bare (kind : Json) : Json := Json.object [("kind", kind)]

theorem sizeOf_of_mem_itemsAt {key : String} {node item : Json}
    (member : item ∈ node.itemsAt key) : sizeOf item < sizeOf node := by
  unfold Json.itemsAt at member
  cases node with
  | fields entries =>
    simp only [Json.get?] at member
    cases found : Fields.get? key entries with
    | none => simp [found] at member
    | some value =>
      have outer := Fields.sizeOf_get? found
      cases value with
      | list items =>
        simp only [found, Option.bind_some, Json.asList?, Option.getD_some] at member
        have inner := List.sizeOf_lt_of_mem member
        simp only [Json.list.sizeOf_spec] at outer
        simp only [Json.fields.sizeOf_spec]
        omega
      | _ => simp [found, Json.asList?] at member
  | _ => simp [Json.get?] at member

end Record

end Gherkin
