import Gherkin.Proofs.Layout.Composition
import Gherkin.Proofs.SameContent
import Gherkin.Tree.Tags

/-!
# Composed texts

The text of a node in a linked tree consists of its own lines and the texts of its children: what
holds of branches holds of nodes, since the branch of a node has the branches of its children
below it.
-/

namespace Gherkin

namespace Tree

variable {tree : Tree} {id : NodeId} {indent : Text}

/-- The texts of the children of a node that are not written with it, in order. -/
def parts (tree : Tree) (indent : Text) (id : NodeId) : List Layout.Part :=
  ((tree.children id).filter fun child => tree.kind? child != some .tag).map fun child =>
    ⟨(tree.kind? child).any Layout.isSetOff, tree.render indent child⟩

/-! ### Tags -/

theorem tagNames_append (front back : List NodeId) :
    tree.tagNames (front ++ back) = tree.tagNames front ++ tree.tagNames back :=
  List.filterMap_append

namespace Linked

/-- The children in other slots are no tags. -/
theorem tagNames_slot (linked : tree.Linked) {slot : Slot} (other : slot ≠ .tags) (id : NodeId) :
    tree.tagNames (tree.slot id slot) = [] := by
  refine List.filterMap_eq_nil_iff.mpr fun child member => ?_
  obtain ⟨kind, found, home⟩ := (linked.holds id slot child member).home
  obtain ⟨node, here, rfl⟩ := Option.map_eq_some_iff.mp found
  rw [element?, here, Option.map_some, Option.bind_some]
  cases element : node.element with
  | tag name =>
    rw [Node.kind, element] at home
    exact absurd (Option.some.inj home).symm other
  | _ => rfl

theorem tagNames_slots (linked : tree.Linked) {slots : List Slot} (others : Slot.tags ∉ slots)
    (id : NodeId) : tree.tagNames (slots.flatMap (tree.slot id)) = [] := by
  induction slots with
  | nil => rfl
  | cons slot rest ih =>
    obtain ⟨here, later⟩ := List.ne_and_not_mem_of_not_mem_cons others
    rw [List.flatMap_cons, tagNames_append, linked.tagNames_slot here.symm, ih later]
    rfl

/-- The tags of a node are the tags among its children. -/
theorem tagNames_children (linked : tree.Linked) {kind : Kind} (found : tree.kind? id = some kind) :
    tree.tagNames (tree.children id) = tree.tagNames (tree.tags id) := by
  rw [children_eq_flatMap found]
  by_cases owned : Slot.tags ∈ kind.slots
  · obtain ⟨rest, slots, others⟩ : ∃ rest, kind.slots = .tags :: rest ∧ Slot.tags ∉ rest := by
      cases kind <;> first | exact ⟨_, rfl, by decide⟩ | exact absurd owned (by decide)
    rw [slots, List.flatMap_cons, tagNames_append, linked.tagNames_slots others, List.append_nil]
    rfl
  · have none : tree.tags id = [] := by
      refine linked.slot_eq_nil fun kind' found' owned' => ?_
      cases found.symm.trans found'
      exact owned owned'
    rw [linked.tagNames_slots owned, none]
    rfl

/-! ### Branches of nodes -/

theorem element?_of_branch? (linked : tree.Linked) {branch : Branch NodeId}
    (read : tree.branch? id = some branch) : tree.element? id = some branch.element := by
  rw [linked.branch?_eq] at read
  obtain ⟨node, found, rfl⟩ := Option.map_eq_some_iff.mp read
  rw [element?, found]
  rfl

/-- A branch can be written when the nodes it is read from can. -/
theorem writable (linked : tree.Linked) {branch : Branch NodeId}
    (read : tree.branch? id = some branch)
    (each : ∀ below ∈ tree.subtree id, ∀ element ∈ tree.element? below, element.IsWritable) :
    branch.Writable := by
  induction id using linked.induction generalizing branch with
  | step id ih =>
    obtain ⟨node, found⟩ := linked.exists_node_of_branch? read
    obtain ⟨branches, below, read'⟩ := linked.exists_branch? found
    cases read.symm.trans read'
    have element : tree.element? id = some node.element := by rw [element?, found, Option.map_some]
    refine .node (each id List.mem_cons_self _ element) fun inner member => ?_
    obtain ⟨child, inside, here⟩ := List.mem_map.mp (below ▸ List.mem_map_of_mem member)
    rw [← children_eq found] at inside
    refine ih child inside here fun other within => each other ?_
    rw [subtree, linked.descendants_eq_subtrees]
    exact List.mem_cons_of_mem _ (List.mem_flatMap.mpr ⟨child, inside, within⟩)

end Linked

theorem render_of_branch? {branch : Branch NodeId} (read : tree.branch? id = some branch) :
    tree.render indent id = Layout.render Text.width indent branch := by
  rw [render, read]
  rfl

/-- Branches are those of some nodes, one by one. -/
def Reads (tree : Tree) (ids : List NodeId) (branches : List (Branch NodeId)) : Prop :=
  List.Forall₂ (fun id branch => tree.branch? id = some branch) ids branches

section Reads

variable {ids : List NodeId} {branches : List (Branch NodeId)} (reads : tree.Reads ids branches)
include reads

theorem Reads.exists_branch {id : NodeId} (member : id ∈ ids) :
    ∃ branch ∈ branches, tree.branch? id = some branch := by
  induction reads with
  | nil => cases member
  | cons here _ ih =>
    rcases List.mem_cons.mp member with rfl | member
    · exact ⟨_, List.mem_cons_self, here⟩
    · obtain ⟨branch, inside, read⟩ := ih member
      exact ⟨branch, List.mem_cons_of_mem _ inside, read⟩

theorem Reads.tagNames (linked : tree.Linked) : Layout.tagNames branches = tree.tagNames ids := by
  induction reads with
  | nil => rfl
  | cons here _ ih =>
    rw [Layout.tagNames, Tree.tagNames, List.filterMap_cons, List.filterMap_cons,
      linked.element?_of_branch? here, Option.bind_some]
    rw [Layout.tagNames, Tree.tagNames] at ih
    rw [ih]

theorem Reads.parts (plain : ∀ branch ∈ branches, branch.kind ≠ .row) :
    Layout.parts Text.width indent branches =
      (ids.filter fun child => tree.kind? child != some .tag).map fun child =>
        ⟨(tree.kind? child).any Layout.isSetOff, tree.render indent child⟩ := by
  induction reads with
  | nil => rfl
  | @cons id branch _ _ here _ ih =>
    obtain ⟨kept, plain⟩ := List.forall_mem_cons.mp plain
    have kind : tree.kind? id = some branch.kind := kind?_of_branchWithin here
    rw [Layout.parts_cons, ih plain]
    by_cases tag : branch.kind = .tag
    · rw [List.filter_cons_of_neg (by simp [kind, tag]), tag]
      rfl
    · have below : Layout.isInline branch.kind = false := by
        cases other : branch.kind with
        | tag => exact absurd other tag
        | row => exact absurd other kept
        | _ => rfl
      rw [List.filter_cons_of_pos (by simp [kind, tag]), List.map_cons, kind,
        render_of_branch? here, below]
      rfl

end Reads

/-- The branch of a node has the branches of its children. -/
theorem Linked.exists_reads (linked : tree.Linked) {node : Node}
    (found : tree.node? id = some node) :
    ∃ branches, tree.Reads (tree.children id) branches ∧
      tree.branch? id = some (.node id node.element branches) := by
  obtain ⟨branches, below, read⟩ := linked.exists_branch? found
  rw [← children_eq found, ← List.forall₂_eq_eq_eq, List.forall₂_map_left_iff,
    List.forall₂_map_right_iff] at below
  exact ⟨branches, below, read⟩

/-- The text of a feature, rule, background, scenario, outline or step is made of its own lines,
and below them the texts of its children with one more indentation, in order: with an empty line
above each that is set off and above the first one below a description, and with nothing for those
that have no text. Own lines and texts neither begin nor end with an empty line, and what is set
off has a text, so that an empty line in between is the only one. -/
theorem render_composed (linked : tree.Linked) (newlineFree : '\n' ∉ indent) {element : Element}
    (found : tree.element? id = some element) (composed : element.kind.isComposed = true)
    (writable : ∀ below ∈ tree.subtree id, ∀ element ∈ tree.element? below, element.IsWritable) :
    let own := Layout.ownLines (tree.tagNames (tree.tags id)) element
    tree.render indent id =
        Text.unlines (own ++ Layout.stacked indent element.isDescribed (tree.parts indent id)) ∧
      (own ≠ [] ∧ IsStripped List.isEmpty own) ∧
      IsStripped (· == '\n') (tree.render indent id) ∧
      ∀ child ∈ tree.children id, IsStripped (· == '\n') (tree.render indent child) ∧
        ((tree.kind? child).any Layout.isSetOff = true → tree.render indent child ≠ []) := by
  obtain ⟨node, here, rfl⟩ := Option.map_eq_some_iff.mp found
  obtain ⟨branches, reads, read⟩ := linked.exists_reads here
  have arranged := linked.arranged read
  have written := linked.writable read writable
  have file := Kind.hasPath_of_isComposed composed
  have kind : tree.kind? id = some node.kind := by rw [kind?, here, Option.map_some]
  have names : Layout.tagNames branches = tree.tagNames (tree.tags id) :=
    (reads.tagNames linked).trans (linked.tagNames_children kind)
  have parts : Layout.parts Text.width indent branches = tree.parts indent id := by
    obtain ⟨grouped, _⟩ := arranged
    refine reads.parts fun branch member row => ?_
    obtain ⟨slot, owned, home⟩ := grouped.home branch member
    rw [row] at home
    cases home
    exact Kind.rows_not_mem_slots composed owned
  have whole := Layout.standing_items Text.width arranged written file 0
  have standing := Layout.standing_children Text.width arranged written (Kind.ne_directory file) 0
  intro own
  rw [render_of_branch? read]
  refine ⟨?_, ?_, whole.isStripped_render newlineFree, fun child member => ?_⟩
  · rw [Layout.render_node newlineFree composed arranged written, parts, names]
  · obtain ⟨itself, below⟩ := written
    exact Layout.isStripped_ownLines composed itself (names ▸ Layout.tagNames_writable below)
  · obtain ⟨branch, inside, read⟩ := reads.exists_branch member
    have stands := standing branch inside
    rw [render_of_branch? read, show tree.kind? child = _ from kind?_of_branchWithin read]
    exact ⟨stands.isStripped_render newlineFree, stands.render_ne_nil newlineFree⟩

/-- An outline with a tag and a description. Its first step has a doc string that ends with an
empty line, its second one a table without rows, and its examples block only a description. -/
def sampleOutline : List Command :=
  [.add (.outline ⟨Text.word "Outline", Text.word "o", Text.word "d"⟩),
    .add (.tag (Text.word "@t")), .add (.step (Text.word "*") (Text.word "x")),
    .add (.docString none (Text.word "a\n")), .add (.step (Text.word "*") []), .add .table,
    .add (.example ⟨Text.word "Examples", [], Text.word "e"⟩), .assign 0 .tags [1],
    .assign 0 .steps [2, 4], .assign 0 .examples [6], .assign 2 .block [3], .assign 4 .block [5]]

/-- The text of the outline, from the texts of its steps and its examples block. -/
theorem render_sampleOutline :
    let tree := Command.run sampleOutline .empty
    let indent := Text.word "  "
    let own := [Text.word "@t", Text.word "Outline: o", [], Text.word "d"]
    let step := Text.unlines
      [Text.word "* x", Text.word "  \"\"\"", Text.word "  a", [], Text.word "  \"\"\""]
    let block := Text.unlines [Text.word "Examples:", [], Text.word "e"]
    tree.Linked ∧ '\n' ∉ indent ∧
      (∃ element, tree.element? 0 = some element ∧ element.kind.isComposed = true) ∧
      (∀ below ∈ tree.subtree 0, ∀ element ∈ tree.element? below, element.IsWritable) ∧
      tree.render indent 0 = Text.unlines (own ++ Layout.stacked indent true
        [⟨false, step⟩, ⟨false, Text.word "*"⟩, ⟨true, block⟩]) ∧
      IsStripped (· == '\n') (tree.render indent 0) := by
  intro tree indent own step block
  have linked : tree.Linked := Command.linked_run linked_empty sampleOutline
  have newlineFree : '\n' ∉ indent := by decide
  have writable : ∀ below ∈ tree.subtree 0, ∀ element ∈ tree.element? below,
      element.IsWritable := by decide
  have found : tree.element? 0 =
      some (.outline ⟨Text.word "Outline", Text.word "o", Text.word "d"⟩) := rfl
  obtain ⟨text, _, stripped, _⟩ := render_composed linked newlineFree found rfl writable
  refine ⟨linked, newlineFree, ⟨_, found, rfl⟩, writable, ?_, stripped⟩
  rw [text]
  decide

end Tree

end Gherkin
