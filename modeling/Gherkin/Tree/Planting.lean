import Gherkin.Tree.Basic

/-!
# Planting branches

A branch becomes part of a tree by appending its nodes in preorder, so that the
nodes that were there before stay as they are. The positions of all nodes are
known beforehand: the first child comes right behind its parent, and every other
child behind all nodes of the one before it.
-/

namespace Gherkin

/-- The kinds of branches and the positions of their topmost nodes, the first at a
given position. -/
def Branch.places {α : Type} : (next : NodeId) → List (Branch α) → List (Kind × NodeId)
  | _, [] => []
  | next, branch :: rest => (branch.kind, next) :: places (next + branch.size) rest

/-- Children in the slots they live in, in order. -/
def Links.ofPlaces (places : List (Kind × NodeId)) : Links :=
  places.foldl (fun links place =>
    match place.1.home with
    | some slot => links.push slot place.2
    | none => links) Links.empty

mutual

/-- The nodes of a branch in preorder, the first at a given position. -/
def Branch.nodes (id : NodeId) (parent : Option NodeId) : Branch Origin → List Node
  | .node origin element children =>
    ⟨element, parent, origin.line, origin.record,
      Links.ofPlaces (Branch.places (id + 1) children)⟩ ::
      Branch.childNodes id (id + 1) children

/-- The nodes of the children of a node, the first at a given position. -/
def Branch.childNodes (parent next : NodeId) : List (Branch Origin) → List Node
  | [] => []
  | branch :: rest =>
    Branch.nodes next (some parent) branch ++
      Branch.childNodes parent (next + branch.size) rest

end

namespace Tree

/-- Adds a branch as a tree of its own; its topmost node gets the next position. -/
def plant (tree : Tree) (branch : Branch Origin) : Tree :=
  ⟨tree.nodes ++ (branch.nodes tree.size none).toArray⟩

/-- Adds the branch that a record describes. The topmost node keeps the record. -/
def build (tree : Tree) (record : Record) : Except Error (Tree × NodeId) := do
  let branch ← record.rooted
  pure (tree.plant branch, tree.size)

end Tree

mutual

theorem Branch.length_nodes (id : NodeId) (parent : Option NodeId) (branch : Branch Origin) :
    (branch.nodes id parent).length = branch.size := by
  cases branch with
  | node origin element children =>
    simp only [Branch.nodes, Branch.size, List.length_cons,
      Branch.length_childNodes id (id + 1) children]
    omega

theorem Branch.length_childNodes (parent next : NodeId) (branches : List (Branch Origin)) :
    (Branch.childNodes parent next branches).length = Branch.sizes branches := by
  cases branches with
  | nil => rfl
  | cons branch rest =>
    simp only [Branch.childNodes, Branch.sizes, List.length_append,
      Branch.length_nodes next (some parent) branch,
      Branch.length_childNodes parent (next + branch.size) rest]

end

namespace Tree

theorem size_plant (tree : Tree) (branch : Branch Origin) :
    (tree.plant branch).size = tree.size + branch.size := by
  simp [plant, size, Branch.length_nodes]

theorem node?_plant_of_lt {tree : Tree} {id : NodeId} (branch : Branch Origin)
    (old : id < tree.size) : (tree.plant branch).node? id = tree.node? id := by
  simp only [plant, node?]
  exact Array.getElem?_append_left old

end Tree

end Gherkin
