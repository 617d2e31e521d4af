import Gherkin.Record.Parts
import Gherkin.Dialect
import Gherkin.Document.Result

/-!
# Records of message results

In both message families a child is an object with one key, the kind of the
child. The families differ in what they leave out and in the key of content
types, so one reading serves both. Scenarios and outlines are one kind of node
here: a scenario with examples, or with an outline keyword, is an outline.

A node of a kind that is not known keeps its name as its kind, for the tree to
refuse.
-/

namespace Gherkin

namespace Record

namespace Messages

/-- What the reading of a document depends on. -/
structure Context where
  /-- The dialect of the document, which tells outline keywords. -/
  dialect : Dialect
  /-- Whether rules have tags. -/
  ruleTags : Bool
  /-- The key of content types. -/
  contentTypeKey : String

/-- The block of a step. -/
def block (context : Context) (step : Json) : Json :=
  match step.get? "dataTable", step.get? "docString" with
  | some table, _ => tableOf table
  | none, some docString => docStringOf context.contentTypeKey docString
  | none, none => .null

/-- The steps of a node. -/
def steps (context : Context) (node : Json) : Json :=
  .list ((node.itemsAt "steps").map fun step => stepOf step (block context step))

/-- A background. -/
def background (context : Context) (node : Json) : Json :=
  Json.object (headed .background node ++ [("steps", steps context node)])

/-- Whether a scenario node is an outline. -/
def isOutline (context : Context) (node : Json) : Bool :=
  !(node.itemsAt "examples").isEmpty ||
    context.dialect.constructOf? (node.textAt "keyword") == some .outline

/-- A scenario or an outline. -/
def scenario (context : Context) (node : Json) : Json :=
  if isOutline context node then
    Json.object (headed .outline node ++ [("tags", tagsOf node), ("steps", steps context node),
      ("examples", .list ((node.itemsAt "examples").map exampleOf))])
  else
    Json.object (headed .scenario node ++
      [("tags", tagsOf node), ("steps", steps context node)])

/-- The child in a wrapper. The first key of the wrapper counts. -/
def child (context : Context) : Json → Json
  | .fields ((key, node) :: _) =>
    if key = "background" then background context node
    else if key = "scenario" then scenario context node
    else if key = "rule" then
      Json.object (headed .rule node ++
        [("tags", if context.ruleTags then tagsOf node else .list []),
          ("children", .list ((node.itemsAt "children").attach.map
            fun item => child context item.1))])
    else bare (Json.word key)
  | _ => bare .null
termination_by wrapper => sizeOf wrapper
decreasing_by
  have smaller := sizeOf_of_mem_itemsAt item.2
  simp only [Json.fields.sizeOf_spec, List.cons.sizeOf_spec, Prod.mk.sizeOf_spec]
  omega

/-- The dialect a feature names, or else the active one. -/
def dialectOf (active : Dialect) (feature : Json) : Dialect :=
  (((feature.get? "language").bind Json.asText?).bind Dialect.find?).getD active

/-- A feature. -/
def feature (active : Dialect) (ruleTags : Bool) (contentTypeKey : String) (node : Json) : Json :=
  let context : Context := ⟨dialectOf active node, ruleTags, contentTypeKey⟩
  featureOf node ((node.itemsAt "children").map (child context))

/-- The record of the document in an envelope. -/
def document (active : Dialect) (ruleTags : Bool) (contentTypeKey : String)
    (envelope : Json) : Record :=
  featureFileOf envelope <|
    match (envelope.get? "feature").filter fun feature => !feature.isNull with
    | some node => feature active ruleTags contentTypeKey node
    | none => .null

end Messages

end Record

end Gherkin
