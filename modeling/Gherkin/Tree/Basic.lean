import Gherkin.Record.Branch

/-!
# Trees

A tree keeps its nodes in one array; a node refers to others by their position
there. Every node has an element, the children in its slots, and the node it is a
child of. Nodes are added and changed but never taken away.
-/

namespace Gherkin

/-- The position of a node in its tree. -/
abbrev NodeId := Nat

/-- The children of a node, slot by slot. -/
structure Links where
  table : Vector (List NodeId) 11
deriving DecidableEq

namespace Links

/-- No children at all. -/
def empty : Links := ⟨Vector.replicate 11 []⟩

/-- The children in a slot. -/
def get (links : Links) (slot : Slot) : List NodeId := links.table[slot.index]

/-- Replaces the children in a slot. -/
def set (links : Links) (slot : Slot) (ids : List NodeId) : Links :=
  ⟨links.table.set slot.index ids⟩

/-- Takes a child out of every slot. -/
def erase (links : Links) (id : NodeId) : Links :=
  ⟨links.table.map fun ids => ids.filter fun other => other != id⟩

/-- Puts a child behind the others in a slot. -/
def push (links : Links) (slot : Slot) (id : NodeId) : Links :=
  links.set slot (links.get slot ++ [id])

@[simp]
theorem get_empty (slot : Slot) : empty.get slot = [] := by simp [empty, get]

@[simp]
theorem get_set_self (links : Links) (slot : Slot) (ids : List NodeId) :
    (links.set slot ids).get slot = ids := by simp [get, set]

theorem get_set_of_ne {slot other : Slot} (links : Links) (ids : List NodeId)
    (differ : other ≠ slot) : (links.set slot ids).get other = links.get other := by
  have apart : (slot.index : Nat) ≠ other.index := fun same =>
    differ (Slot.index_injective (Fin.ext same)).symm
  simp [get, set, apart]

@[simp]
theorem get_erase (links : Links) (id : NodeId) (slot : Slot) :
    (links.erase id).get slot = (links.get slot).filter fun other => other != id := by
  simp [get, erase]

end Links

/-- A node of a tree. -/
structure Node where
  element : Element
  parent : Option NodeId
  /-- The line of source text the node was read from. -/
  line : Option Nat
  /-- The record the node was made of. -/
  record : Option Record
  links : Links

namespace Node

/-- A node with nothing but an element. -/
def ofElement (element : Element) : Node := ⟨element, none, none, none, Links.empty⟩

/-- The kind of the element of a node. -/
def kind (node : Node) : Kind := node.element.kind

/-- All children of a node, in rendering order. -/
def children (node : Node) : List NodeId := node.kind.slots.flatMap node.links.get

end Node

/-- A tree is the array of its nodes. -/
structure Tree where
  nodes : Array Node

namespace Tree

/-- The tree without nodes. -/
def empty : Tree := ⟨#[]⟩

/-- The number of nodes, which is also the position of the next one. -/
def size (tree : Tree) : Nat := tree.nodes.size

/-- The node at a position. -/
def node? (tree : Tree) (id : NodeId) : Option Node := tree.nodes[id]?

/-- The element of a node. -/
def element? (tree : Tree) (id : NodeId) : Option Element := (tree.node? id).map Node.element

/-- The kind of a node. -/
def kind? (tree : Tree) (id : NodeId) : Option Kind := (tree.node? id).map Node.kind

/-- The node that a node is a child of. -/
def parent? (tree : Tree) (id : NodeId) : Option NodeId := (tree.node? id).bind Node.parent

/-- The record a node was made of. -/
def record? (tree : Tree) (id : NodeId) : Option Record := (tree.node? id).bind Node.record

/-- The children in a slot of a node. -/
def slot (tree : Tree) (id : NodeId) (slot : Slot) : List NodeId :=
  ((tree.node? id).map fun node => node.links.get slot).getD []

/-- All children of a node, in rendering order. -/
def children (tree : Tree) (id : NodeId) : List NodeId :=
  ((tree.node? id).map Node.children).getD []

/-- The nodes that are no child of another one. -/
def roots (tree : Tree) : List NodeId :=
  (List.range tree.size).filter fun id => (tree.parent? id).isNone

/-- Changes a node. -/
def modify (tree : Tree) (id : NodeId) (change : Node → Node) : Tree :=
  ⟨tree.nodes.modify id change⟩

/-- Adds an element as a node of its own; its position is the old size. -/
def add (tree : Tree) (element : Element) : Tree := ⟨tree.nodes.push (.ofElement element)⟩

/-- Changes a field of an element. -/
def edit (tree : Tree) (id : NodeId) (change : Element.Edit) : Tree :=
  tree.modify id fun node => { node with element := node.element.edit change }

/-- Keeps a record with a node. -/
def setRecord (tree : Tree) (id : NodeId) (record : Record) : Tree :=
  tree.modify id fun node => { node with record := some record }

/-- The ancestors of a node, nearest first, of which at most `fuel` are visited. -/
def climb (tree : Tree) : (fuel : Nat) → Option NodeId → List NodeId
  | 0, _ => []
  | _ + 1, none => []
  | fuel + 1, some id => id :: climb tree fuel (tree.parent? id)

/-- The ancestors of a node, nearest first. A chain of parents cannot be longer
than there are nodes. -/
def ancestors (tree : Tree) (id : NodeId) : List NodeId :=
  tree.climb tree.size (tree.parent? id)

/-- A node with what is below it, down to a given depth. -/
def branchWithin (tree : Tree) : (depth : Nat) → NodeId → Option (Branch NodeId)
  | 0, _ => none
  | depth + 1, id =>
    (tree.node? id).map fun node =>
      .node id node.element (node.children.filterMap (branchWithin tree depth))

/-- A node with all that is below it. -/
def branch? (tree : Tree) (id : NodeId) : Option (Branch NodeId) :=
  tree.branchWithin tree.size id

/-- The nodes below a node, each before those below it, in rendering order. -/
def descendants (tree : Tree) (id : NodeId) : List NodeId :=
  ((tree.branch? id).map fun branch => branch.labels.tail).getD []

@[simp]
theorem node?_modify_self (tree : Tree) (id : NodeId) (change : Node → Node) :
    (tree.modify id change).node? id = (tree.node? id).map change := by
  simp [node?, modify, Array.getElem?_modify]

theorem node?_modify_of_ne (tree : Tree) {id other : NodeId} (change : Node → Node)
    (differ : other ≠ id) : (tree.modify id change).node? other = tree.node? other := by
  simp [node?, modify, Array.getElem?_modify, Ne.symm differ]

@[simp]
theorem size_modify (tree : Tree) (id : NodeId) (change : Node → Node) :
    (tree.modify id change).size = tree.size := by simp [size, modify]

@[simp]
theorem size_add (tree : Tree) (element : Element) :
    (tree.add element).size = tree.size + 1 := by simp [size, add]

end Tree

end Gherkin
