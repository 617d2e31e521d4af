import Gherkin.Record.Basic
import Gherkin.Branch
import Gherkin.Description

/-!
# The branch of a record

A record and the records nested in it describe a branch. Each kind keeps its
children under certain keys; under a key only kinds with certain home slots may
stand. The first thing that is wrong, in the order of the keys and of the records
under them, is what the whole record fails for.
-/

namespace Gherkin

/-- Where a node came from: a line of source text, and the record it was made of
if it was the outermost one. -/
structure Origin where
  line : Option Nat
  record : Option Record

namespace Record

/-- A field of a record that holds children. -/
structure ChildField where
  key : String
  /-- Whether the field is a list of records or a single record. -/
  isList : Bool
  /-- The homes of the children that may stand in the field. -/
  homes : List Slot
deriving DecidableEq, Repr

/-- The fields that hold the children of a kind, in reading order. -/
def childFields : Kind → List ChildField
  | .directory =>
    [⟨"feature_files", true, [.featureFiles]⟩, ⟨"directories", true, [.directories]⟩]
  | .featureFile => [⟨"feature", false, [.feature]⟩]
  | .feature | .rule =>
    [⟨"tags", true, [.tags]⟩, ⟨"children", true, [.background, .tests, .rules]⟩]
  | .background => [⟨"steps", true, [.steps]⟩]
  | .scenario => [⟨"tags", true, [.tags]⟩, ⟨"steps", true, [.steps]⟩]
  | .outline =>
    [⟨"tags", true, [.tags]⟩, ⟨"steps", true, [.steps]⟩, ⟨"examples", true, [.examples]⟩]
  | .example => [⟨"tags", true, [.tags]⟩, ⟨"rows", true, [.rows]⟩]
  | .step => [⟨"block", false, [.block]⟩]
  | .table => [⟨"rows", true, [.rows]⟩]
  | .row | .cell | .docString | .tag => []

/-- The records in a field. -/
def inField (field : ChildField) (record : Record) : Except Error (List Record) :=
  if field.isList then record.list field.key
  else (record.single field.key).map Option.toList

theorem sizeOf_of_mem_inField {field : ChildField} {record : Record} {records : List Record}
    (read : record.inField field = .ok records) {nested : Record} (member : nested ∈ records) :
    sizeOf nested < sizeOf record := by
  unfold inField at read
  by_cases isList : field.isList
  · simp only [isList, if_true] at read
    exact sizeOf_of_mem_list read member
  · simp only [isList, Bool.false_eq_true, if_false] at read
    cases found : record.single field.key with
    | error error => simp [found, Except.map] at read
    | ok inner =>
      simp only [found, Except.map, Except.ok.injEq] at read
      subst read
      cases inner with
      | none => simp at member
      | some only =>
        simp only [Option.toList_some, List.mem_singleton] at member
        subst member
        exact sizeOf_of_single found

/-- The records in a field, each smaller than the record they stand in. -/
def nested (field : ChildField) (record : Record) :
    Except Error (List { inner : Record // sizeOf inner < sizeOf record }) :=
  match h : record.inField field with
  | .ok records =>
    .ok (records.attach.map fun inner => ⟨inner.1, sizeOf_of_mem_inField h inner.2⟩)
  | .error error => .error error

/-- The cell values of a row. -/
def cellValues : List Record → Except Error (List Text)
  | [] => .ok []
  | cell :: rest => do
    let kind ← cell.kind
    if kind = .cell then
      let values ← cellValues rest
      pure (cell.text "value" :: values)
    else throw (.misplaced .row kind)

/-- The heading in a record. -/
def heading (record : Record) : Heading :=
  ⟨record.text "keyword", record.text "name", Description.trim (record.text "description")⟩

/-- The element that a record of a kind describes by itself. -/
def element (record : Record) : Kind → Except Error Element
  | .directory => .ok (.directory (record.text "path"))
  | .featureFile => .ok (.featureFile (record.text "uri"))
  | .feature => .ok (.feature record.heading (record.text "language"))
  | .rule => .ok (.rule record.heading)
  | .background => .ok (.background record.heading)
  | .scenario => .ok (.scenario record.heading)
  | .outline => .ok (.outline record.heading)
  | .example => .ok (.example record.heading)
  | .step => .ok (.step (record.text "keyword") (record.text "text"))
  | .table => .ok .table
  | .row => do
    let cells ← record.list "cells"
    let values ← cellValues cells
    pure (.row values)
  | .cell => .error (.argument .loneCell)
  | .docString => .ok (.docString (record.text? "content_type") (record.text "contents"))
  | .tag => .ok (.tag (record.text "name"))

/-- Appends a child to those an element has so far, if it has the slot the child
lives in and the slot is not full. -/
def place {α : Type} (parent : Kind) (slot : Slot) (siblings : List (Branch α))
    (child : Branch α) : Except Error (List (Branch α)) :=
  if !parent.slots.contains slot then .error (.misplaced parent child.kind)
  else if slot.isSingle && siblings.any (fun sibling => sibling.kind.home == some slot) then
    .error (.malformed (.occupied parent slot))
  else .ok (siblings ++ [child])

/-- The home of a record in a field, or the error of a record that cannot stand
there. -/
def homeIn (parent : Kind) (field : ChildField) (record : Record) : Except Error Slot := do
  let kind ← record.kind
  match kind.home with
  | some slot => if field.homes.contains slot then pure slot else throw (.misplaced parent kind)
  | none => throw (.misplaced parent kind)

/-- The branch that a record describes. -/
def branch (record : Record) : Except Error (Branch Origin) := do
  let kind ← record.kind
  let element ← record.element kind
  let children ← (childFields kind).foldlM (fun siblings field => do
    let records ← record.nested field
    records.foldlM (fun siblings inner => do
      let slot ← homeIn kind field inner.1
      let child ← branch inner.1
      place kind slot siblings child) siblings) []
  pure (.node ⟨record.line?, none⟩ element children)
termination_by sizeOf record
decreasing_by exact inner.2

/-- The branch of a record, whose topmost node keeps the record. -/
def rooted (record : Record) : Except Error (Branch Origin) := do
  let .node origin element children ← record.branch
  pure (.node { origin with record := some record } element children)

end Record

end Gherkin
