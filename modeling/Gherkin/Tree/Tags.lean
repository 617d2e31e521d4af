import Gherkin.Tree.Basic

/-!
# Tags and their inheritance

Tags are kept where they are written. What applies to a node from above is what
its nearest taggable ancestor has in all, so outer tags come first.
-/

namespace Gherkin

namespace Tree

/-- The tags written at a node; a node that cannot be tagged has none. -/
def tags (tree : Tree) (id : NodeId) : List NodeId := tree.slot id .tags

/-- The nearest ancestor that can have tags. -/
def nearestTaggable? (tree : Tree) (id : NodeId) : Option NodeId :=
  (tree.ancestors id).find? fun above => (tree.kind? above).any Kind.isTaggable

/-- The tags of a node and of at most `fuel` taggable nodes above it. -/
def allTagsWithin (tree : Tree) : (fuel : Nat) → NodeId → List NodeId
  | 0, id => tree.tags id
  | fuel + 1, id =>
    ((tree.nearestTaggable? id).map (allTagsWithin tree fuel)).getD [] ++ tree.tags id

/-- The inherited tags of a node and behind them its own. -/
def allTags (tree : Tree) (id : NodeId) : List NodeId := tree.allTagsWithin tree.size id

/-- The inherited tags of a node. -/
def appliedTags (tree : Tree) (id : NodeId) : List NodeId :=
  ((tree.nearestTaggable? id).map tree.allTags).getD []

/-- The names of the nodes that are tags; other nodes are passed over. -/
def tagNames (tree : Tree) (ids : List NodeId) : List Text :=
  ids.filterMap fun id => (tree.element? id).bind Element.tagName?

end Tree

end Gherkin
