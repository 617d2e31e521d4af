import Gherkin.Element

/-!
# Branches

A branch is an element with everything below it, each node with a label. The
questions that do not depend on how a tree is stored are answered here: which
nodes there are, whether two branches say the same, and how many tests there are.
-/

namespace Gherkin

/-- An element and the branches of its children, each with a label. -/
inductive Branch (α : Type) where
  | node (label : α) (element : Element) (children : List (Branch α))

namespace Branch

variable {α β : Type}

/-- The label of the topmost node. -/
def label : Branch α → α
  | .node label _ _ => label

/-- The topmost element. -/
def element : Branch α → Element
  | .node _ element _ => element

/-- The branches of the children. -/
def children : Branch α → List (Branch α)
  | .node _ _ children => children

/-- The kind of the topmost element. -/
def kind (branch : Branch α) : Kind := branch.element.kind

/-- The children of a kind. -/
def ofKind (kind : Kind) (branches : List (Branch α)) : List (Branch α) :=
  branches.filter fun branch => branch.kind == kind

mutual

/-- The number of nodes. -/
def size : Branch α → Nat
  | .node _ _ children => 1 + sizes children

/-- The number of nodes of several branches. -/
def sizes : List (Branch α) → Nat
  | [] => 0
  | branch :: rest => size branch + sizes rest

end

mutual

/-- The labels of all nodes, each before those below it. -/
def labels : Branch α → List α
  | .node label _ children => label :: allLabels children

/-- The labels of several branches, one after the other. -/
def allLabels : List (Branch α) → List α
  | [] => []
  | branch :: rest => labels branch ++ allLabels rest

end

mutual

/-- Whether two branches say the same, element for element and child for child. -/
def same : Branch α → Branch β → Bool
  | .node _ a as, .node _ b bs => a.agrees b && allSame as bs

/-- Whether two lists of branches say the same, one by one. -/
def allSame : List (Branch α) → List (Branch β) → Bool
  | [], [] => true
  | a :: as, b :: bs => same a b && allSame as bs
  | _, _ => false

end

/-- The number of argument rows of an examples block: all rows but the first. -/
def argumentCount (branch : Branch α) : Nat :=
  if branch.kind = .example then (ofKind .row branch.children).length - 1 else 0

mutual

/-- The number of tests an element runs as: one for a scenario and one for each
argument row of an outline. -/
def testCount : Branch α → Nat
  | .node _ element children =>
    match element.kind with
    | .scenario => 1
    | .outline => (children.map argumentCount).sum
    | .rule | .feature | .featureFile | .directory => testCounts children
    | _ => 0

/-- The number of tests of several branches. -/
def testCounts : List (Branch α) → Nat
  | [] => 0
  | branch :: rest => testCount branch + testCounts rest

end

/-- The branch with another topmost element. -/
def withElement (element : Element) : Branch α → Branch α
  | .node label _ children => .node label element children

end Branch

end Gherkin
