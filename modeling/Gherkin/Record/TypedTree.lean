import Gherkin.Record.Parts

/-!
# Records of typed trees

Every node of a typed tree names its type. Outlines are a type of their own, and
a step has at most one argument, a table or a doc string. There are no rules.

A node of a type that is not known keeps its name as its kind, for the tree to
refuse.
-/

namespace Gherkin

namespace Record

namespace TypedTree

/-- The type of a node; one that is missing reads as empty. -/
def typeOf (node : Json) : Text := node.textAt "type"

/-- The block of a step. -/
def block (step : Json) : Json :=
  match step.get? "argument" with
  | some argument =>
    if typeOf argument = Text.word "DataTable" then tableOf argument
    else if typeOf argument = Text.word "DocString" then docStringOf "contentType" argument
    else if argument.isNull then .null
    else bare (.text (typeOf argument))
  | none => .null

/-- The steps of a node. -/
def steps (node : Json) : Json :=
  .list ((node.itemsAt "steps").map fun step => stepOf step (block step))

/-- A child of the feature. -/
def child (node : Json) : Json :=
  if typeOf node = Text.word "Background" then
    Json.object (headed .background node ++ [("steps", steps node)])
  else if typeOf node = Text.word "Scenario" then
    Json.object (headed .scenario node ++ [("tags", tagsOf node), ("steps", steps node)])
  else if typeOf node = Text.word "ScenarioOutline" then
    Json.object (headed .outline node ++ [("tags", tagsOf node), ("steps", steps node),
      ("examples", .list ((node.itemsAt "examples").map exampleOf))])
  else bare (.text (typeOf node))

/-- The record of a document. -/
def document (tree : Json) : Record :=
  featureFileOf tree <|
    match (tree.get? "feature").filter fun feature => !feature.isNull with
    | some node => featureOf node ((node.itemsAt "children").map child)
    | none => .null

end TypedTree

end Record

end Gherkin
