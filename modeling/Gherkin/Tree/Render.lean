import Gherkin.Layout.Render
import Gherkin.Text.Width
import Gherkin.Tree.Basic

/-!
# The text of a tree

A node is rendered as the branch below it, with table columns aligned on the
display width of their cells.
-/

namespace Gherkin

namespace Tree

/-- The text of a node with all that is below it; a node that is not there has
none. -/
def render (tree : Tree) (indent : Text) (id : NodeId) : Text :=
  ((tree.branch? id).map (Layout.render Text.width indent)).getD []

end Tree

end Gherkin
