import Gherkin.Proofs.Tree.Linked

/-!
# Descendants

In a linked tree the children of a node are the nodes it is the parent of, and every node is
reached from the top or from the bottom by induction. The bound on the depth of a branch is
therefore never reached, so that the branch of a node consists of the branches of its children
and its descendants are these children, each with its own descendants right behind it.
-/

namespace Gherkin

namespace Tree

open Relation

variable {tree : Tree} {id parent child : NodeId}

theorem children_eq {node : Node} (found : tree.node? id = some node) :
    tree.children id = node.children := by
  rw [children, found]
  rfl

theorem children_eq_flatMap {kind : Kind} (found : tree.kind? id = some kind) :
    tree.children id = kind.slots.flatMap (tree.slot id) := by
  obtain ⟨node, here, rfl⟩ := Option.map_eq_some_iff.mp found
  have slots : tree.slot id = node.links.get := by
    funext slot
    rw [Tree.slot, here]
    rfl
  rw [children_eq here, slots, Node.children]

theorem children_eq_nil (outside : tree.size ≤ id) : tree.children id = [] := by
  rw [children, node?_eq_none_of_le outside]
  rfl

namespace Linked

theorem mem_children_iff (linked : tree.Linked) :
    child ∈ tree.children id ↔ tree.HasParent child id := by
  constructor
  · intro member
    by_cases here : id < tree.size
    · obtain ⟨node, found⟩ := Option.isSome_iff_exists.mp (isSome_node?.2 here)
      have kind : tree.kind? id = some node.kind := by rw [kind?, found, Option.map_some]
      rw [children_eq_flatMap kind] at member
      obtain ⟨slot, _, inside⟩ := List.mem_flatMap.mp member
      exact linked.hasParent inside
    · rw [children_eq_nil (Nat.le_of_not_lt here)] at member
      cases member
  · intro below
    obtain ⟨slot, inside⟩ := (linked.mem_slot_iff id child).mpr below
    obtain ⟨kind, found, owned⟩ := (linked.holds id slot child inside).owner
    rw [children_eq_flatMap found]
    exact List.mem_flatMap.mpr ⟨slot, owned, inside⟩

theorem nodup_children (linked : tree.Linked) (id : NodeId) : (tree.children id).Nodup := by
  by_cases here : id < tree.size
  · obtain ⟨node, found⟩ := Option.isSome_iff_exists.mp (isSome_node?.2 here)
    have kind : tree.kind? id = some node.kind := by rw [kind?, found, Option.map_some]
    rw [children_eq_flatMap kind, List.nodup_flatMap]
    refine ⟨fun slot _ => linked.nodup id slot, ?_⟩
    refine (Branch.nodup_slots node.kind).imp fun differ child member again => ?_
    exact differ (linked.slot_unique member again).2
  · rw [children_eq_nil (Nat.le_of_not_lt here)]
    exact .nil

/-! ### Ancestors one by one -/

theorem nodup_climb (linked : tree.Linked) (fuel : Nat) (start : Option NodeId) :
    (tree.climb fuel start).Nodup :=
  (pairwise_climb fuel start).imp fun between => by
    rintro rfl
    exact linked.acyclic _ between

/-- A node and its ancestors are no more than there are nodes. -/
theorem length_climb_lt (linked : tree.Linked) (here : id < tree.size) (fuel : Nat) :
    (tree.climb fuel (tree.parent? id)).length < tree.size := by
  have above : ∀ node ∈ tree.climb fuel (tree.parent? id), TransGen tree.HasParent id node := by
    intro node member
    cases found : tree.parent? id with
    | none => simp [found] at member
    | some parent =>
      rw [found] at member
      exact .head' found (reflTransGen_of_mem_climb member)
  have distinct : (id :: tree.climb fuel (tree.parent? id)).Nodup :=
    List.nodup_cons.mpr ⟨fun member => linked.acyclic id (above id member),
      linked.nodup_climb fuel _⟩
  have inside : id :: tree.climb fuel (tree.parent? id) ⊆ List.range tree.size := by
    refine List.cons_subset.mpr ⟨List.mem_range.mpr here, fun node member => ?_⟩
    exact List.mem_range.mpr (linked.closed.lt_size (above node member))
  have bounded := (List.subperm_of_subset distinct inside).length_le
  rwa [List.length_range] at bounded

theorem length_ancestors_lt (linked : tree.Linked) (here : id < tree.size) :
    (tree.ancestors id).length < tree.size :=
  linked.length_climb_lt here _

end Linked

/-- A climb that ends before its bound is as long with a higher one. -/
theorem climb_succ {fuel : Nat} {start : Option NodeId}
    (short : (tree.climb fuel start).length < fuel) :
    tree.climb (fuel + 1) start = tree.climb fuel start := by
  induction fuel generalizing start with
  | zero => exact absurd short (Nat.not_lt_zero _)
  | succ fuel ih =>
    cases start with
    | none => rfl
    | some id =>
      rw [climb, List.length_cons] at short
      rw [climb, climb, ih (Nat.lt_of_succ_lt_succ short)]

namespace Linked

theorem ancestors_of_hasParent (linked : tree.Linked) (below : tree.HasParent child parent) :
    tree.ancestors child = parent :: tree.ancestors parent := by
  have here : child < tree.size := lt_size_of_parent? below
  obtain ⟨fuel, size⟩ : ∃ fuel, tree.size = fuel + 1 :=
    Nat.exists_eq_add_one.mpr (Nat.zero_lt_of_lt here)
  have found : tree.parent? child = some parent := below
  have short := linked.length_ancestors_lt here
  rw [ancestors, found, size, climb, List.length_cons] at short
  rw [ancestors, ancestors, found, size, climb, climb_succ (Nat.lt_of_succ_lt_succ short)]

/-- Induction from the children of a node to the node. -/
theorem induction (linked : tree.Linked) {motive : NodeId → Prop}
    (step : ∀ id, (∀ child ∈ tree.children id, motive child) → motive id) (id : NodeId) :
    motive id :=
  step id fun child _member => induction linked step child
termination_by tree.size - (tree.ancestors id).length
decreasing_by
  have below := linked.mem_children_iff.mp _member
  have bound := linked.length_ancestors_lt (lt_size_of_parent? below)
  rw [linked.ancestors_of_hasParent below, List.length_cons] at bound ⊢
  omega

/-- Induction from the parent of a node to the node. -/
theorem inductionDown (linked : tree.Linked) {motive : NodeId → Prop}
    (root : ∀ id, tree.parent? id = none → motive id)
    (step : ∀ child parent, tree.HasParent child parent → motive parent → motive child)
    (id : NodeId) : motive id :=
  match found : tree.parent? id with
  | none => root id found
  | some parent => step id parent found (inductionDown linked root step parent)
termination_by (tree.ancestors id).length
decreasing_by
  rw [linked.ancestors_of_hasParent found, List.length_cons]
  exact Nat.lt_succ_self _

/-! ### Branches without a bound -/

/-- A branch that is read to the depth of the tree below a node is read as far as it goes. -/
theorem branchWithin_succ (linked : tree.Linked) {depth : Nat}
    (enough : tree.size ≤ depth + (tree.ancestors id).length) :
    tree.branchWithin (depth + 1) id = tree.branchWithin depth id := by
  induction depth generalizing id with
  | zero =>
    have outside : tree.size ≤ id := by
      refine Nat.le_of_not_lt fun here => ?_
      have bound := linked.length_ancestors_lt here
      omega
    change (tree.node? id).map _ = none
    rw [node?_eq_none_of_le outside, Option.map_none]
  | succ depth ih =>
    rw [branchWithin, branchWithin]
    cases found : tree.node? id with
    | none => rfl
    | some node =>
      have below : node.children.filterMap (tree.branchWithin (depth + 1)) =
          node.children.filterMap (tree.branchWithin depth) := by
        refine List.filterMap_congr fun child member => ih ?_
        rw [← children_eq found, linked.mem_children_iff] at member
        rw [linked.ancestors_of_hasParent member, List.length_cons]
        omega
      rw [Option.map_some, Option.map_some, below]

/-- The branch of a node is its element above the branches of its children. -/
theorem branch?_eq (linked : tree.Linked) (id : NodeId) :
    tree.branch? id = (tree.node? id).map fun node =>
      .node id node.element (node.children.filterMap tree.branch?) := by
  have enough : tree.size ≤ tree.size + (tree.ancestors id).length := Nat.le_add_right _ _
  rw [branch?, ← linked.branchWithin_succ enough]
  rfl

/-- Every node has a branch. -/
theorem exists_branch? (linked : tree.Linked) {node : Node} (found : tree.node? id = some node) :
    ∃ branches, node.children.map tree.branch? = branches.map some ∧
      tree.branch? id = some (.node id node.element branches) := by
  refine ⟨node.children.filterMap tree.branch?, ?_, by rw [linked.branch?_eq, found]; rfl⟩
  have each : ∀ child ∈ node.children, ∃ branch, tree.branch? child = some branch := by
    intro child member
    rw [← children_eq found, linked.mem_children_iff] at member
    obtain ⟨inner, here⟩ := Option.isSome_iff_exists.mp
      (isSome_node?.2 (lt_size_of_parent? member))
    exact ⟨_, by rw [linked.branch?_eq, here, Option.map_some]⟩
  generalize node.children = ids at each
  induction ids with
  | nil => rfl
  | cons first rest ih =>
    obtain ⟨⟨branch, read⟩, later⟩ := List.forall_mem_cons.mp each
    rw [List.map_cons, List.filterMap_cons_some read, List.map_cons, read, ih later]

theorem label_of_branch? (linked : tree.Linked) {branch : Branch NodeId}
    (read : tree.branch? id = some branch) : branch.label = id := by
  rw [linked.branch?_eq] at read
  obtain ⟨node, _, rfl⟩ := Option.map_eq_some_iff.mp read
  rfl

theorem labels_of_branch? (linked : tree.Linked) {branch : Branch NodeId}
    (read : tree.branch? id = some branch) : branch.labels = id :: tree.descendants id := by
  have label := linked.label_of_branch? read
  obtain ⟨label, element, children⟩ := branch
  rw [descendants, read]
  exact congrArg (· :: _) label

/-- The descendants of a node are its children, each with its own descendants behind it. -/
theorem descendants_eq (linked : tree.Linked) (id : NodeId) :
    tree.descendants id =
      (tree.children id).flatMap fun child => child :: tree.descendants child := by
  cases found : tree.node? id with
  | none =>
    rw [descendants, linked.branch?_eq, children, found]
    rfl
  | some node =>
    obtain ⟨branches, below, read⟩ := linked.exists_branch? found
    rw [children_eq found, descendants, read]
    change Branch.allLabels branches = _
    clear read
    generalize node.children = ids at below
    induction branches generalizing ids with
    | nil =>
      rw [List.map_eq_nil_iff.mp below]
      rfl
    | cons branch rest ih =>
      obtain ⟨child, others, rfl, here, later⟩ := List.map_eq_cons_iff.mp below
      rw [Branch.allLabels, List.flatMap_cons, linked.labels_of_branch? here, ih others later]

end Linked

end Tree

end Gherkin
