import Gherkin.Proofs.Layout.Rereading
import Gherkin.Proofs.Tree.Navigation
import Gherkin.Tree.Render

/-!
# What sameness determines

Two branches say the same when they have the same wording: the elements with the components of
paths in the place of the paths. So saying the same is an equivalence, and whatever can be told
from the wording of a branch is the same for branches that say the same: the number of tests,
and the text of all branches that are no directories.
-/

namespace Gherkin

namespace Element

/-- An element without its path. -/
def withoutPath : Element → Element
  | .directory _ => .directory []
  | .featureFile _ => .featureFile []
  | element => element

/-- The components of the path of an element, if it has one. -/
def pathComponents : Element → List Text
  | .directory path | .featureFile path => path.components
  | _ => []

theorem agrees_iff {a b : Element} :
    a.agrees b = true ↔ a.pathComponents = b.pathComponents ∧ a.withoutPath = b.withoutPath := by
  cases a <;> cases b <;> simp [agrees, pathComponents, withoutPath, Path.same]

theorem kind_withoutPath (element : Element) : element.withoutPath.kind = element.kind := by
  cases element <;> rfl

theorem withoutPath_of_hasPath {element : Element} (plain : element.kind.hasPath = false) :
    element.withoutPath = element := by
  cases element with
  | directory | featureFile => cases plain
  | _ => rfl

end Element

namespace Branch

variable {α β : Type}

/-! ### Wordings -/

mutual

/-- What a branch says: its elements, with the components of paths as labels in the place of the
paths. -/
def wording : Branch α → Branch (List Text)
  | .node _ element children =>
    .node element.pathComponents element.withoutPath (wordings children)

/-- What several branches say. -/
def wordings : List (Branch α) → List (Branch (List Text))
  | [] => []
  | branch :: rest => wording branch :: wordings rest

end

theorem wording_node (label : α) (element : Element) (children : List (Branch α)) :
    (node label element children).wording =
      .node element.pathComponents element.withoutPath (children.map wording) := by
  have each : wordings children = children.map wording := by
    induction children with
    | nil => rfl
    | cons branch rest ih => rw [wordings, ih, List.map_cons]
  rw [wording, each]

theorem element_wording (branch : Branch α) :
    branch.wording.element = branch.element.withoutPath := by
  cases branch
  rfl

@[simp]
theorem kind_wording (branch : Branch α) : branch.wording.kind = branch.kind := by
  rw [kind, element_wording, Element.kind_withoutPath, kind]

/-- Branches say the same exactly when they have the same wording. -/
theorem same_iff {a : Branch α} {b : Branch β} : a.same b = true ↔ a.wording = b.wording := by
  induction a using induction generalizing b with
  | node label element children ih =>
    obtain ⟨label', element', children'⟩ := b
    have below : List.Forall₂ (fun a b => a.same b = true) children children' ↔
        children.map wording = children'.map wording := by
      rw [← List.forall₂_eq_eq_eq, List.forall₂_map_left_iff, List.forall₂_map_right_iff]
      constructor
      · intro each
        exact ((List.forall₂_and_left _ _).mpr ⟨ih, each⟩).imp fun _ _ both => both.1.mp both.2
      · intro each
        exact ((List.forall₂_and_left _ _).mpr ⟨ih, each⟩).imp fun _ _ both => both.1.mpr both.2
    rw [same_node_iff, Element.agrees_iff, below, wording_node, wording_node, node.injEq,
      and_assoc]

/-! ### What can be told from the wording -/

theorem ofKind_wording (kind : Kind) (branches : List (Branch α)) :
    ofKind kind (branches.map wording) = (ofKind kind branches).map wording := by
  rw [ofKind, ofKind, List.filter_map]
  refine congrArg _ (List.filter_congr fun branch _ => ?_)
  rw [Function.comp_apply, kind_wording]

theorem argumentCount_wording (branch : Branch α) :
    branch.wording.argumentCount = branch.argumentCount := by
  have kinds := kind_wording branch
  obtain ⟨label, element, children⟩ := branch
  rw [wording_node] at kinds ⊢
  rw [argumentCount, argumentCount, kinds]
  change (if _ then (ofKind .row (children.map wording)).length - 1 else 0) = _
  rw [ofKind_wording, List.length_map]
  rfl

/-- The number of tests of a branch can be told from its wording. -/
theorem testCount_wording (branch : Branch α) : branch.wording.testCount = branch.testCount := by
  induction branch using induction with
  | node label element children ih =>
    have below : testCounts (children.map wording) = testCounts children := by
      induction children with
      | nil => rfl
      | cons first rest rest_ih =>
        obtain ⟨here, later⟩ := List.forall_mem_cons.mp ih
        rw [List.map_cons, testCounts, testCounts, here, rest_ih later]
    have arguments : (children.map wording).map argumentCount = children.map argumentCount := by
      rw [List.map_map]
      exact List.map_congr_left fun child _ => argumentCount_wording child
    rw [wording_node]
    cases element with
    | scenario => rfl
    | outline => exact congrArg List.sum arguments
    | rule | feature | featureFile | directory => exact below
    | _ => rfl

end Branch

namespace Layout

variable {α : Type} {width : Text → Nat}

theorem items_featureFile (depth : Nat) (label : α) (path other : Path)
    (children : List (Branch α)) :
    items width depth (.node label (.featureFile path) children) =
      items width depth (.node label (.featureFile other) children) := rfl

/-- The layout of a branch can be told from its wording, unless it is a directory. -/
theorem items_wording {branch : Branch α} (arranged : branch.Arranged)
    (file : branch.kind ≠ .directory) (depth : Nat) :
    items width depth branch.wording = items width depth branch := by
  induction branch using Branch.induction generalizing depth with
  | node label element children ih =>
    cases arranged with
    | node grouped each =>
      have plain (child : Branch α) (member : child ∈ children) : child.kind.hasPath = false := by
        obtain ⟨slot, owned, home⟩ := grouped.home child member
        exact Kind.hasPath_of_home file owned home
      have alike : List.Forall₂ (fun a b => Alike a.element b.element ∧
          ∀ depth, items width depth a = items width depth b)
          (children.map Branch.wording) children := by
        rw [List.forall₂_map_left_iff, List.forall₂_same]
        intro child member
        have none := plain child member
        refine ⟨.inl ?_, fun depth => ih child member (each child member) ?_ depth⟩
        · rw [Branch.element_wording, Element.withoutPath_of_hasPath none]
        · intro directory
          rw [directory] at none
          cases none
      rw [Branch.wording_node]
      cases element with
      | directory path => exact absurd rfl file
      | featureFile path =>
        exact (items_node_congr _ alike).trans (items_featureFile depth label [] path children)
      | _ => exact items_node_congr _ alike

/-- Branches that say the same have the same text, unless they are directories. -/
theorem render_eq_of_same {β : Type} {a : Branch α} {b : Branch β} (left : a.Arranged)
    (right : b.Arranged) (file : a.kind ≠ .directory) (same : a.same b = true) (indent : Text) :
    render width indent a = render width indent b := by
  have wordings := Branch.same_iff.1 same
  have kinds : b.kind = a.kind := by rw [← Branch.kind_wording b, ← wordings, Branch.kind_wording]
  rw [render, render, ← items_wording left file, ← items_wording right (kinds ▸ file), wordings]

end Layout

namespace Tree

variable {tree other : Tree} {id otherId : NodeId}

namespace Linked

theorem arranged (linked : tree.Linked) {branch : Branch NodeId}
    (read : tree.branch? id = some branch) : branch.Arranged :=
  (slotted_of_branchWithin read fun label _ => linked.fits label).arranged

end Linked

/-- What a node and the nodes below it say. -/
def wording? (tree : Tree) (id : NodeId) : Option (Branch (List Text)) :=
  (tree.branch? id).map Branch.wording

/-- Nodes have the same content exactly when they exist and have the same wording. -/
theorem sameContent_iff :
    tree.sameContent id other otherId = true ↔
      (tree.wording? id).isSome = true ∧ tree.wording? id = other.wording? otherId := by
  unfold sameContent wording?
  cases tree.branch? id with
  | none => simp only [Bool.false_eq_true, Option.map_none, Option.isSome_none, false_and]
  | some a =>
    cases other.branch? otherId with
    | none =>
      simp only [Bool.false_eq_true, Option.map_some, Option.map_none, reduceCtorEq, and_false]
    | some b =>
      simp only [Branch.same_iff, Option.map_some, Option.isSome_some, Option.some.injEq, true_and]

theorem exists_branches_of_sameContent (same : tree.sameContent id other otherId = true) :
    ∃ a b, tree.branch? id = some a ∧ other.branch? otherId = some b ∧ a.same b = true := by
  unfold sameContent at same
  split at same
  · next a b left right => exact ⟨a, b, left, right, same⟩
  · cases same

/-- Lists of nodes have the same content one by one when they have the same wordings. -/
theorem forall₂_sameContent_iff {ids otherIds : List NodeId}
    (each : ∀ id ∈ ids, (tree.wording? id).isSome = true) :
    List.Forall₂ (fun id otherId => tree.sameContent id other otherId = true) ids otherIds ↔
      ids.map tree.wording? = otherIds.map other.wording? := by
  rw [← List.forall₂_eq_eq_eq, List.forall₂_map_left_iff, List.forall₂_map_right_iff]
  constructor
  · exact List.Forall₂.imp fun _ _ same => (sameContent_iff.1 same).2
  · intro equal
    exact ((List.forall₂_and_left _ _).mpr ⟨each, equal⟩).imp fun _ _ => sameContent_iff.2

namespace Linked

/-- The wording of a node is that of its element above those of its children. -/
theorem exists_wording? (linked : tree.Linked) {node : Node} (found : tree.node? id = some node) :
    ∃ wordings, node.children.map tree.wording? = wordings.map some ∧
      tree.wording? id =
        some (.node node.element.pathComponents node.element.withoutPath wordings) := by
  obtain ⟨branches, below, read⟩ := linked.exists_branch? found
  refine ⟨branches.map Branch.wording, ?_, ?_⟩
  · have mapped := congrArg (List.map (Option.map Branch.wording)) below
    rw [List.map_map, List.map_map] at mapped
    rw [List.map_map]
    exact mapped
  · rw [wording?, read, Option.map_some, Branch.wording_node]

/-- Nodes have the same content exactly when their elements agree and their children have the
same content one by one. -/
theorem sameContent_iff_children (linked : tree.Linked) (linked' : other.Linked) {node node' : Node}
    (found : tree.node? id = some node) (found' : other.node? otherId = some node') :
    tree.sameContent id other otherId = true ↔
      node.element.agrees node'.element = true ∧
      List.Forall₂ (fun child child' => tree.sameContent child other child' = true)
        (tree.children id) (other.children otherId) := by
  obtain ⟨wordings, below, read⟩ := linked.exists_wording? found
  obtain ⟨wordings', below', read'⟩ := linked'.exists_wording? found'
  have each : ∀ child ∈ node.children, (tree.wording? child).isSome = true := by
    intro child member
    obtain ⟨wording, _, here⟩ := List.mem_map.mp (below ▸ List.mem_map_of_mem member)
    rw [← here, Option.isSome_some]
  rw [children_eq found, children_eq found', forall₂_sameContent_iff each, below, below',
    List.map_inj_right fun _ _ => Option.some.inj, sameContent_iff, read, read',
    Element.agrees_iff, Option.some.injEq, Branch.node.injEq, and_assoc]
  exact and_iff_right rfl

theorem exists_node_of_branch? (linked : tree.Linked) {branch : Branch NodeId}
    (read : tree.branch? id = some branch) : ∃ node, tree.node? id = some node := by
  rw [linked.branch?_eq] at read
  obtain ⟨node, found, _⟩ := Option.map_eq_some_iff.mp read
  exact ⟨node, found⟩

/-- The nodes below nodes with the same content have the same content one by one. -/
theorem sameContent_subtree (linked : tree.Linked) (linked' : other.Linked)
    (same : tree.sameContent id other otherId = true) :
    List.Forall₂ (fun below below' => tree.sameContent below other below' = true)
      (tree.subtree id) (other.subtree otherId) := by
  induction id using linked.induction generalizing otherId with
  | step id ih =>
    obtain ⟨_, _, left, right, _⟩ := exists_branches_of_sameContent same
    obtain ⟨node, found⟩ := linked.exists_node_of_branch? left
    obtain ⟨node', found'⟩ := linked'.exists_node_of_branch? right
    have children := ((linked.sameContent_iff_children linked' found found').mp same).2
    rw [subtree, subtree, linked.descendants_eq_subtrees, linked'.descendants_eq_subtrees]
    refine .cons same (List.rel_flatMap ((List.forall₂_and_left _ _).mpr ⟨ih, children⟩) ?_)
    exact fun _ _ both => both.1 both.2

end Linked

/-- Whether nodes have the same content is an equivalence of the nodes of all trees. Nodes with
the same content have the same text for every indentation, unless they are directories, the same
number of tests, and as many nodes below them, which have the same content one by one. -/
theorem sameContent_exact (reachable : tree.Reachable) (reachable' : other.Reachable) :
    (∀ id < tree.size, tree.sameContent id tree id = true) ∧
    (∀ id otherId, tree.sameContent id other otherId = true →
      other.sameContent otherId tree id = true) ∧
    (∀ third : Tree, ∀ id otherId thirdId, tree.sameContent id other otherId = true →
      other.sameContent otherId third thirdId = true → tree.sameContent id third thirdId = true) ∧
    ∀ id otherId, tree.sameContent id other otherId = true →
      (tree.kind? id ≠ some .directory →
        ∀ indent, tree.render indent id = other.render indent otherId) ∧
      tree.testCount id = other.testCount otherId ∧
      List.Forall₂ (fun below below' => tree.sameContent below other below' = true)
        (tree.descendants id) (other.descendants otherId) := by
  have linked := reachable.linked
  have linked' := reachable'.linked
  refine ⟨fun id here => ?_, fun id otherId same => ?_,
    fun third id otherId thirdId same same' => ?_,
    fun id otherId same => ⟨fun file indent => ?_, ?_, ?_⟩⟩
  · obtain ⟨node, found⟩ := Option.isSome_iff_exists.mp (isSome_node?.mpr here)
    obtain ⟨_, _, read⟩ := linked.exists_wording? found
    exact sameContent_iff.2 ⟨by rw [read, Option.isSome_some], rfl⟩
  · obtain ⟨exists?, equal⟩ := sameContent_iff.1 same
    exact sameContent_iff.2 ⟨equal ▸ exists?, equal.symm⟩
  · obtain ⟨exists?, equal⟩ := sameContent_iff.1 same
    exact sameContent_iff.2 ⟨exists?, equal.trans (sameContent_iff.1 same').2⟩
  · obtain ⟨a, b, left, right, same⟩ := exists_branches_of_sameContent same
    have kind : tree.kind? id = some a.kind := kind?_of_branchWithin left
    rw [kind, ne_eq, Option.some.injEq] at file
    rw [render, render, left, right]
    exact Layout.render_eq_of_same (linked.arranged left) (linked'.arranged right) file same indent
  · obtain ⟨a, b, left, right, same⟩ := exists_branches_of_sameContent same
    rw [testCount, testCount, left, right, Option.map_some, Option.map_some,
      ← Branch.testCount_wording a, ← Branch.testCount_wording b, Branch.same_iff.1 same]
  · cases linked.sameContent_subtree linked' same with
    | cons _ below => exact below

/-- A scenario with a step, of which either is there first. -/
def sampleScenario (stepFirst : Bool) : List Command :=
  let scenario := Command.add (.scenario ⟨Text.word "Scenario", Text.word "s", []⟩)
  let step := Command.add (.step (Text.word "*") (Text.word "x"))
  if stepFirst then [step, scenario, .assign 1 .steps [0]]
  else [scenario, step, .assign 0 .steps [1]]

/-- The scenario has the same content in both trees, and so has the step below it. -/
theorem sameContent_sampleScenario :
    let tree := Command.run (sampleScenario true) .empty
    let other := Command.run (sampleScenario false) .empty
    tree.Reachable ∧ other.Reachable ∧ tree.sameContent 1 other 0 = true ∧
      tree.kind? 1 ≠ some .directory ∧ other.sameContent 0 tree 1 = true ∧
      (∀ indent, tree.render indent 1 = other.render indent 0) ∧
      tree.testCount 1 = other.testCount 0 ∧
      List.Forall₂ (fun below below' => tree.sameContent below other below' = true)
        (tree.descendants 1) (other.descendants 0) := by
  intro tree other
  have reachable : tree.Reachable := ⟨_, rfl⟩
  have reachable' : other.Reachable := ⟨_, rfl⟩
  have same : tree.sameContent 1 other 0 = true := by decide
  have file : tree.kind? 1 ≠ some .directory := by decide
  obtain ⟨_, symmetric, _, determined⟩ := sameContent_exact reachable reachable'
  obtain ⟨text, tests, below⟩ := determined 1 0 same
  exact ⟨reachable, reachable', same, file, symmetric 1 0 same, text file, tests, below⟩

end Tree

end Gherkin
