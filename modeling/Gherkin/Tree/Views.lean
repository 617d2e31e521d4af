import Gherkin.Tree.Basic

/-!
# Views of a tree

The children of a node by what they are, and the questions that concern a node
with all that is below it. A node that cannot have a certain kind of children has
none of them.
-/

namespace Gherkin

namespace Tree

variable (tree : Tree)

/-- The background of a feature or rule. -/
def background? (id : NodeId) : Option NodeId := (tree.slot id .background).head?

/-- The scenarios and outlines of a feature or rule. -/
def tests (id : NodeId) : List NodeId := tree.slot id .tests

/-- The tests of a kind. -/
def testsOfKind (kind : Kind) (id : NodeId) : List NodeId :=
  (tree.tests id).filter fun test => tree.kind? test == some kind

/-- The scenarios of a feature or rule. -/
def scenarios (id : NodeId) : List NodeId := tree.testsOfKind .scenario id

/-- The outlines of a feature or rule. -/
def outlines (id : NodeId) : List NodeId := tree.testsOfKind .outline id

/-- The rules of a feature. -/
def rules (id : NodeId) : List NodeId := tree.slot id .rules

/-- The steps of a background or test. -/
def steps (id : NodeId) : List NodeId := tree.slot id .steps

/-- The examples blocks of an outline. -/
def examples (id : NodeId) : List NodeId := tree.slot id .examples

/-- The rows of a table or examples block. -/
def rows (id : NodeId) : List NodeId := tree.slot id .rows

/-- The table or doc string of a step. -/
def block? (id : NodeId) : Option NodeId := (tree.slot id .block).head?

/-- The feature of a feature file. -/
def feature? (id : NodeId) : Option NodeId := (tree.slot id .feature).head?

/-- The feature files of a directory. -/
def featureFiles (id : NodeId) : List NodeId := tree.slot id .featureFiles

/-- The directories in a directory. -/
def directories (id : NodeId) : List NodeId := tree.slot id .directories

/-- The rows of an examples block; a table has no parameters. -/
def exampleRows (id : NodeId) : List NodeId :=
  if tree.kind? id = some .example then tree.rows id else []

/-- The first row of an examples block. -/
def parameterRow? (id : NodeId) : Option NodeId := (tree.exampleRows id).head?

/-- The rows of an examples block behind the first one. -/
def argumentRows (id : NodeId) : List NodeId := (tree.exampleRows id).tail

/-- The cells of a row. -/
def rowValues (id : NodeId) : List Text := ((tree.element? id).map Element.cells).getD []

/-- The names of the parameters of an examples block. -/
def parameters (id : NodeId) : List Text := ((tree.parameterRow? id).map tree.rowValues).getD []

/-- The number of tests a node runs as. -/
def testCount (id : NodeId) : Nat := ((tree.branch? id).map Branch.testCount).getD 0

/-- Whether two nodes say the same with all that is below them. -/
def sameContent (id : NodeId) (other : Tree) (otherId : NodeId) : Bool :=
  match tree.branch? id, other.branch? otherId with
  | some a, some b => a.same b
  | _, _ => false

/-- Whether two nodes have the same element and the same children by position. -/
def sameNode (id : NodeId) (other : Tree) (otherId : NodeId) : Bool :=
  match tree.node? id, other.node? otherId with
  | some a, some b => a.element.agrees b.element && a.links == b.links
  | _, _ => false

end Tree

end Gherkin
