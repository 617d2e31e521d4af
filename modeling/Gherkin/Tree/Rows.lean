import Gherkin.Tree.Assign
import Gherkin.Tree.Views

/-!
# Editing the rows of examples

Argument rows are added and removed by their values, which are given in the order
of the parameters or by their names. Blanks around values and names do not count.
The parameter row is never removed.
-/

namespace Gherkin

/-- The values of an argument row, in order or by parameter. -/
inductive RowValues where
  | positional (values : List Text)
  | keyed (pairs : List (Text × Text))
deriving DecidableEq, Repr

namespace RowValues

/-- The text of a scalar. -/
def scalarText : Json → Except Error Text
  | .text t => .ok t
  | .number n => .ok (Json.Number.render n)
  | .bool true => .ok (Text.word "true")
  | .bool false => .ok (Text.word "false")
  | .null => .ok []
  | value => .error (.argument (.notAScalar value))

/-- The values that a list or an object of scalars gives. -/
def ofJson : Json → Except Error RowValues
  | .list items => do
    let values ← items.mapM scalarText
    pure (.positional values)
  | .fields entries => do
    let pairs ← entries.mapM fun entry => do
      let value ← scalarText entry.2
      pure (Text.word entry.1, value)
    pure (.keyed pairs)
  | value => .error (.argument (.notARow value))

/-- Sets the value of a key, keeping the keys in ascending order. -/
def setPair (key value : Text) : List (Text × Text) → List (Text × Text)
  | [] => [(key, value)]
  | (k, v) :: rest =>
    if key = k then (key, value) :: rest
    else if Text.before key k then (key, value) :: (k, v) :: rest
    else (k, v) :: setPair key value rest

/-- The values that a map with the given entries holds, a later entry replacing an
earlier one of its key. -/
def ofMap (entries : List (Text × Text)) : RowValues :=
  .keyed (entries.foldl (fun pairs entry => setPair entry.1 entry.2 pairs) [])

/-- The value that pairs give for a parameter. -/
def valueOf (pairs : List (Text × Text)) (parameter : Text) : Except Error Text :=
  match pairs.find? fun pair => Text.trim pair.1 == parameter with
  | some pair => .ok (Text.trim pair.2)
  | none => .error (.argument (.missingValue parameter))

/-- The values in the order of the parameters, trimmed. -/
def resolve (parameters : List Text) : RowValues → Except Error (List Text)
  | .positional values =>
    if values.length = parameters.length then .ok (values.map Text.trim)
    else .error (.argument (.valueCount parameters.length values.length))
  | .keyed pairs => parameters.mapM (valueOf pairs)

end RowValues

namespace Tree

/-- Refuses a node that is not of a kind. -/
def expectKind (tree : Tree) (kind : Kind) (id : NodeId) : Except Error Unit :=
  match tree.kind? id with
  | none => .error (.argument (.absentNode id))
  | some found =>
    if found = kind then .ok () else .error (.argument (.otherKind kind found))

/-- Appends an argument row to an examples block; the row is the last node of the
new tree. -/
def addRow (tree : Tree) (id : NodeId) (values : RowValues) : Except Error (Tree × NodeId) := do
  tree.expectKind .example id
  match tree.parameterRow? id with
  | none => throw (.argument .withoutParameters)
  | some row =>
    let cells ← values.resolve (tree.rowValues row)
    let grown := tree.add (.row cells)
    let linked := grown.modify id fun node =>
      { node with links := node.links.push .rows tree.size }
    pure (linked.adopt id tree.size, tree.size)

/-- Removes the first argument row with the given values, if there is one. -/
def removeRow (tree : Tree) (id : NodeId) (values : RowValues) :
    Except Error (Tree × Option NodeId) := do
  tree.expectKind .example id
  if (tree.argumentRows id).isEmpty then pure (tree, none)
  else
    let cells ← values.resolve (tree.parameters id)
    match (tree.argumentRows id).find? fun row => tree.rowValues row == cells with
    | some row => pure (tree.detach row, some row)
    | none => pure (tree, none)

end Tree

end Gherkin
