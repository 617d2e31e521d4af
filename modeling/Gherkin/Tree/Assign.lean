import Gherkin.Tree.Basic

/-!
# Attaching and detaching

The children in a slot are replaced as a whole. A child that is newly attached
leaves the node it was attached to, a child that is dropped has no parent any
more, and no node can come to lie beneath itself.
-/

namespace Gherkin

namespace Tree

/-- Takes a node away from its parent. -/
def detach (tree : Tree) (id : NodeId) : Tree :=
  match tree.parent? id with
  | none => tree
  | some parent =>
    (tree.modify parent fun node => { node with links := node.links.erase id }).modify id
      fun node => { node with parent := none }

/-- Detaches several nodes. -/
def detachAll (tree : Tree) (ids : List NodeId) : Tree := ids.foldl detach tree

/-- Makes a node the parent of another one. -/
def adopt (tree : Tree) (parent id : NodeId) : Tree :=
  tree.modify id fun node => { node with parent := some parent }

/-- Puts detached nodes into an empty slot. -/
def fill (tree : Tree) (parent : NodeId) (slot : Slot) (ids : List NodeId) : Tree :=
  ids.foldl (fun tree id => tree.adopt parent id)
    (tree.modify parent fun node => { node with links := node.links.set slot ids })

/-- Whether a node lies above another one. -/
def isAncestor (tree : Tree) (above id : NodeId) : Bool := (tree.ancestors id).contains above

/-- Refuses a child that a slot of a node cannot hold. -/
def checkChild (tree : Tree) (parent : NodeId) (parentKind : Kind) (slot : Slot)
    (id : NodeId) : Except Error Unit :=
  match tree.kind? id with
  | none => .error (.argument (.absentNode id))
  | some kind =>
    if !slot.accepts kind then .error (.misplaced parentKind kind)
    else if id = parent || tree.isAncestor id parent then
      .error (.argument (.beneathItself kind))
    else .ok ()

/-- Refuses a list of children of which one cannot be held or is there twice. The
nodes in `seen` come before the others in the list. -/
def checkChildren (tree : Tree) (parent : NodeId) (parentKind : Kind) (slot : Slot)
    (seen : List NodeId) : List NodeId → Except Error Unit
  | [] => .ok ()
  | id :: rest => do
    tree.checkChild parent parentKind slot id
    if seen.contains id then
      throw (.argument (.repeatedChild ((tree.kind? id).getD parentKind)))
    tree.checkChildren parent parentKind slot (seen ++ [id]) rest

/-- Replaces the children in a slot of a node. -/
def assign (tree : Tree) (parent : NodeId) (slot : Slot) (ids : List NodeId) :
    Except Error Tree :=
  match tree.kind? parent with
  | none => .error (.argument (.absentNode parent))
  | some kind =>
    if !kind.slots.contains slot then .error (.argument (.withoutSlot kind slot))
    else if slot.isSingle && ids.length > 1 then
      .error (.argument (.tooManyChildren kind slot))
    else do
      tree.checkChildren parent kind slot [] ids
      pure (((tree.detachAll (tree.slot parent slot)).detachAll ids).fill parent slot ids)

end Tree

end Gherkin
