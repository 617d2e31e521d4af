import Gherkin.Tree.Planting
import Gherkin.Tree.Rows

/-!
# Changes in place

The operations that grow a tree, as they change the one tree there is step by step. A change
that fails leaves the tree as it is at that point, with what was added so far; `Change.undone`
cuts the tree back to the size it had. `Tree.plant` and `Tree.addRow` say at once what comes
out in the end.
-/

namespace Gherkin

/-- A change of a tree. When it fails, the tree stays as it is then. -/
abbrev Change (α : Type) := EStateM Error Tree α

namespace Tree

/-- Adds a node. -/
def push (tree : Tree) (node : Node) : Tree := ⟨tree.nodes.push node⟩

/-- Cuts a tree back to a number of nodes. -/
def truncate (tree : Tree) (size : Nat) : Tree := ⟨tree.nodes.take size⟩

/-- Takes a node away from its parent, unless that is a given one. -/
def leave (tree : Tree) (parent child : NodeId) : Tree :=
  match tree.parent? child with
  | none => tree
  | some previous =>
    if previous = parent then tree
    else tree.modify previous fun node => { node with links := node.links.erase child }

/-- Puts a node behind the children in a slot. -/
def attach (tree : Tree) (parent : NodeId) (slot : Slot) (child : NodeId) : Tree :=
  (tree.modify parent fun node => { node with links := node.links.push slot child }).adopt
    parent child

/-- Makes a node the parent of another one, which leaves the parent it had. -/
def takeOver (tree : Tree) (parent child : NodeId) : Tree :=
  (tree.leave parent child).adopt parent child

/-- Replaces the children in a slot, whatever parents they have. -/
def setSlot (tree : Tree) (parent : NodeId) (slot : Slot) (ids : List NodeId) : Tree :=
  tree.modify parent fun node => { node with links := node.links.set slot ids }

/-- Leaves a node without a parent, whatever slot it is in. -/
def orphan (tree : Tree) (id : NodeId) : Tree :=
  tree.modify id fun node => { node with parent := none }

/-- Refuses children that a slot of a node cannot be given. -/
def checkSlot (tree : Tree) (parent : NodeId) (slot : Slot) (ids : List NodeId) :
    Except Error Unit :=
  match tree.kind? parent with
  | none => .error (.argument (.absentNode parent))
  | some kind =>
    if !kind.slots.contains slot then .error (.argument (.withoutSlot kind slot))
    else if slot.isSingle && ids.length > 1 then
      .error (.argument (.tooManyChildren kind slot))
    else tree.checkChildren parent kind slot [] ids

/-- Puts a node behind the children in a slot, if it can live there and is not full. -/
def pushChild (tree : Tree) (parent : NodeId) (slot : Slot) (child : NodeId) :
    Except Error Tree :=
  match tree.kind? parent with
  | none => .error (.argument (.absentNode parent))
  | some kind => do
    tree.checkChild parent kind slot child
    if !kind.slots.contains slot then
      throw (.misplaced kind ((tree.kind? child).getD kind))
    else if slot.isSingle && !(tree.slot parent slot).isEmpty then
      throw (.malformed (.occupied kind slot))
    else pure ((tree.leave parent child).attach parent slot child)

end Tree

namespace Change

variable {α : Type}

/-- An outcome that does not depend on the tree. -/
def ofExcept : Except Error α → Change α
  | .ok value => pure value
  | .error error => throw error

/-- Replaces the tree by another one, if that is not refused. -/
def update (result : Tree → Except Error Tree) : Change Unit := do
  let tree ← get
  let changed ← ofExcept (result tree)
  set changed

/-- Adds an element with its line; the outcome is the position of its node. -/
def insert (element : Element) (line : Option Nat) : Change NodeId := do
  let tree ← get
  set (tree.push ⟨element, none, line, none, .empty⟩)
  pure tree.size

/-- Cuts the tree back to its size when a change fails. -/
def undone (change : Change α) : Change α := do
  let tree ← get
  try change
  catch error =>
    modify fun grown => grown.truncate tree.size
    throw error

/-- Adds the element of a record and, child by child, what is below it. -/
def grow (record : Record) : Change NodeId := do
  let kind ← ofExcept record.kind
  let element ← ofExcept (record.element kind)
  let id ← insert element record.line?
  (Record.childFields kind).forM fun field => do
    let records ← ofExcept (record.nested field)
    records.forM fun inner => do
      let slot ← ofExcept (Record.homeIn kind field inner.1)
      let child ← grow inner.1
      update fun tree => tree.pushChild id slot child
  pure id
termination_by sizeOf record
decreasing_by exact inner.2

/-- Adds what a record describes, or nothing. The topmost node keeps the record. -/
def build (record : Record) : Change NodeId := undone do
  let root ← grow record
  modify fun tree => tree.setRecord root record
  pure root

/-- Replaces the children in a slot of a node. The slot is emptied first, and the children
that do not come back have no parent any more. -/
def assign (parent : NodeId) (slot : Slot) (ids : List NodeId) : Change Unit := do
  let tree ← get
  ofExcept (tree.checkSlot parent slot ids)
  modify fun tree => tree.setSlot parent slot []
  let dropped := (tree.slot parent slot).filter fun id => !ids.contains id
  dropped.forM fun id => modify fun tree => tree.orphan id
  ids.forM fun id => modify fun tree => tree.takeOver parent id
  modify fun tree => tree.setSlot parent slot ids

/-- Appends an argument row to an examples block. -/
def addRow (id : NodeId) (values : RowValues) : Change NodeId := do
  let tree ← get
  ofExcept (tree.expectKind .example id)
  match tree.parameterRow? id with
  | none => throw (.argument .withoutParameters)
  | some row =>
    let cells ← ofExcept (values.resolve (tree.rowValues row))
    let child ← insert (.row cells) none
    update fun tree => tree.pushChild id .rows child
    pure child

end Change

end Gherkin
