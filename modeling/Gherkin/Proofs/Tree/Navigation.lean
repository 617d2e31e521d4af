import Gherkin.Proofs.Command
import Gherkin.Proofs.Tree.Descendants

/-!
# Upward and downward navigation

The descendants of a node are found with a stack of nodes that are still to be visited, and its
ancestors by following the parents. In a linked tree both agree: the stack runs empty, and what
has been visited then are the nodes that lead up to the one it started at, each of them once and
behind its parent. The subtrees of the roots part the tree.
-/

namespace Gherkin

namespace Tree

open Relation

variable {tree : Tree} {id child parent : NodeId}

/-- A node and all nodes below it. -/
def subtree (tree : Tree) (id : NodeId) : List NodeId := id :: tree.descendants id

/-- A run with a stack of pending nodes, topmost first, that ends with an empty stack: the
topmost node is visited and replaced by its children until none is pending. -/
inductive Visits (tree : Tree) : (pending found : List NodeId) → Prop where
  | done : Visits tree [] []
  | visit {id : NodeId} {pending found : List NodeId} :
      Visits tree (tree.children id ++ pending) found → Visits tree (id :: pending) (id :: found)

/-- A run from some stack visits the same nodes every time. -/
theorem Visits.unique {pending found other : List NodeId} (visits : tree.Visits pending found)
    (again : tree.Visits pending other) : other = found := by
  induction visits generalizing other with
  | done =>
    cases again
    rfl
  | visit _ ih =>
    cases again with
    | visit again => rw [ih again]

theorem hasParent_rightUnique (tree : Tree) : Relator.RightUnique tree.HasParent :=
  fun _ _ _ found found' => Option.some.inj (found.symm.trans found')

namespace Linked

theorem descendants_eq_subtrees (linked : tree.Linked) (id : NodeId) :
    tree.descendants id = (tree.children id).flatMap tree.subtree :=
  linked.descendants_eq id

/-! ### What is below a node -/

/-- The descendants of a node are the nodes that lead up to it. -/
theorem mem_descendants_iff (linked : tree.Linked) :
    child ∈ tree.descendants id ↔ TransGen tree.HasParent child id := by
  induction id using linked.induction with
  | step id ih =>
    rw [linked.descendants_eq, List.mem_flatMap, TransGen.tail'_iff]
    constructor
    · rintro ⟨top, member, inside⟩
      refine ⟨top, ?_, linked.mem_children_iff.mp member⟩
      rcases List.mem_cons.mp inside with rfl | inside
      · exact .refl
      · exact ((ih top member).mp inside).to_reflTransGen
    · rintro ⟨top, below, step⟩
      have member := linked.mem_children_iff.mpr step
      refine ⟨top, member, List.mem_cons.mpr ?_⟩
      exact (reflTransGen_iff_eq_or_transGen.mp below).imp Eq.symm (ih top member).mpr

theorem mem_subtree_iff (linked : tree.Linked) :
    child ∈ tree.subtree id ↔ ReflTransGen tree.HasParent child id := by
  rw [subtree, List.mem_cons, linked.mem_descendants_iff, reflTransGen_iff_eq_or_transGen,
    eq_comm (a := child)]

/-- Two nodes with the same parent, or both without one, have no node below them in common. -/
theorem eq_of_mem_subtree (linked : tree.Linked) {other : NodeId}
    (same : tree.parent? id = tree.parent? other) (below : child ∈ tree.subtree id)
    (below' : child ∈ tree.subtree other) : id = other := by
  have apart {top bottom : NodeId} (same : tree.parent? bottom = tree.parent? top)
      (path : ReflTransGen tree.HasParent bottom top) : bottom = top := by
    rcases path.cases_head with here | ⟨parent, step, rest⟩
    · exact here
    · -- The parent of the lower node is that of the upper one as well, which closes a circle.
      have back : tree.HasParent top parent := same.symm.trans step
      exact absurd (.tail' rest back) (linked.acyclic parent)
  rw [linked.mem_subtree_iff] at below below'
  rcases below.total_of_right_unique tree.hasParent_rightUnique below' with path | path
  · exact apart same path
  · exact (apart same.symm path).symm

theorem nodup_flatMap_subtree (linked : tree.Linked) {ids : List NodeId} (nodup : ids.Nodup)
    (siblings : ∀ id ∈ ids, ∀ other ∈ ids, tree.parent? id = tree.parent? other)
    (each : ∀ id ∈ ids, (tree.subtree id).Nodup) : (ids.flatMap tree.subtree).Nodup := by
  refine List.nodup_flatMap.mpr ⟨each, nodup.imp_of_mem fun member member' differ child => ?_⟩
  exact fun below below' =>
    differ (linked.eq_of_mem_subtree (siblings _ member _ member') below below')

theorem nodup_subtree (linked : tree.Linked) (id : NodeId) : (tree.subtree id).Nodup := by
  induction id using linked.induction with
  | step id ih =>
    refine List.nodup_cons.mpr ⟨fun below => ?_, ?_⟩
    · exact linked.acyclic id (linked.mem_descendants_iff.mp below)
    · rw [linked.descendants_eq_subtrees]
      refine linked.nodup_flatMap_subtree (linked.nodup_children id) ?_ ih
      intro top member other member'
      exact (linked.mem_children_iff.mp member).trans (linked.mem_children_iff.mp member').symm

/-! ### In which order -/

/-- What is pending below the subtree of a node is visited behind it. -/
theorem visits_subtree (linked : tree.Linked) (id : NodeId) {pending found : List NodeId}
    (later : tree.Visits pending found) :
    tree.Visits (id :: pending) (tree.subtree id ++ found) := by
  induction id using linked.induction generalizing pending found with
  | step id ih =>
    have below : tree.Visits (tree.children id ++ pending)
        ((tree.children id).flatMap tree.subtree ++ found) := by
      generalize tree.children id = ids at ih
      induction ids with
      | nil => exact later
      | cons first rest rest_ih =>
        obtain ⟨here, others⟩ := List.forall_mem_cons.mp ih
        rw [List.flatMap_cons, List.append_assoc]
        exact here (rest_ih others)
    rw [← linked.descendants_eq_subtrees] at below
    exact .visit below

theorem visits_descendants (linked : tree.Linked) (id : NodeId) :
    tree.Visits (tree.children id) (tree.descendants id) := by
  have visits := linked.visits_subtree id .done
  rw [List.append_nil] at visits
  cases visits with
  | visit visits => rwa [List.append_nil] at visits

/-- A node comes behind its parent. -/
theorem sublist_descendants (linked : tree.Linked) (below : child ∈ tree.descendants id)
    (found : tree.parent? child = some parent) :
    parent = id ∨ [parent, child].Sublist (tree.descendants id) := by
  induction id using linked.induction with
  | step id ih =>
    rw [linked.descendants_eq_subtrees] at below ⊢
    obtain ⟨top, member, inside⟩ := List.mem_flatMap.mp below
    rcases List.mem_cons.mp inside with rfl | inside
    · exact .inl (Option.some.inj (found.symm.trans (linked.mem_children_iff.mp member)))
    · have within : [parent, child].Sublist (tree.subtree top) := by
        rcases ih top member inside with rfl | within
        · exact (List.singleton_sublist.mpr inside).cons_cons parent
        · exact within.cons top
      exact .inr (within.trans (List.sublist_flatten_of_mem (List.mem_map_of_mem member)))

/-! ### Roots -/

/-- Every node is below a node without a parent. -/
theorem exists_root (linked : tree.Linked) (here : id < tree.size) :
    ∃ root ∈ tree.roots, id ∈ tree.subtree root := by
  induction id using linked.inductionDown with
  | root id alone =>
    refine ⟨id, List.mem_filter.mpr ⟨List.mem_range.mpr here, ?_⟩, List.mem_cons_self⟩
    rw [alone, Option.isNone_none]
  | step child parent found ih =>
    obtain ⟨root, member, below⟩ := ih (linked.closed child parent found)
    refine ⟨root, member, linked.mem_subtree_iff.mpr ?_⟩
    exact .head found (linked.mem_subtree_iff.mp below)

/-- The subtrees of the roots part the nodes of the tree. -/
theorem perm_subtree_roots (linked : tree.Linked) :
    (tree.roots.flatMap tree.subtree).Perm (List.range tree.size) := by
  have alone (root : NodeId) (member : root ∈ tree.roots) : tree.parent? root = none :=
    Option.isNone_iff_eq_none.mp (List.mem_filter.mp member).2
  have nodup : (tree.roots.flatMap tree.subtree).Nodup := by
    refine linked.nodup_flatMap_subtree (List.nodup_range.filter _) ?_ fun id _ =>
      linked.nodup_subtree id
    exact fun root member other member' => (alone root member).trans (alone other member').symm
  refine (List.perm_ext_iff_of_nodup nodup List.nodup_range).mpr fun id => ?_
  rw [List.mem_range, List.mem_flatMap]
  refine ⟨?_, linked.exists_root⟩
  rintro ⟨root, member, inside⟩
  rcases (reflTransGen_iff_eq_or_transGen.mp (linked.mem_subtree_iff.mp inside)) with rfl | below
  · exact List.mem_range.mp (List.mem_filter.mp member).1
  · obtain ⟨_, step, _⟩ := TransGen.head'_iff.mp below
    exact lt_size_of_parent? step

end Linked

/-- Whatever commands lead from the empty tree to another one: the search for what is below a node
ends, and comes to its descendants and nothing else. They are all different, they are the nodes
that have it among their ancestors, each comes behind its parent, and the subtree of each child
comes as a whole before the next child. The subtrees of the roots are disjoint and hold all
nodes. -/
theorem navigation_of_run (commands : List Command) :
    let tree := Command.run commands .empty
    (∀ id,
      (∀ found, tree.Visits (tree.children id) found ↔ found = tree.descendants id) ∧
      (tree.descendants id).Nodup ∧
      (∀ child, child ∈ tree.descendants id ↔ id ∈ tree.ancestors child) ∧
      (∀ child ∈ tree.descendants id, ∀ parent, tree.parent? child = some parent →
        parent = id ∨ [parent, child].Sublist (tree.descendants id)) ∧
      tree.descendants id = (tree.children id).flatMap tree.subtree) ∧
    (tree.roots.flatMap tree.subtree).Perm (List.range tree.size) := by
  intro tree
  have linked : tree.Linked := Command.linked_run linked_empty commands
  refine ⟨fun id => ⟨fun found => ⟨?_, ?_⟩, ?_, fun child => ?_, ?_, ?_⟩, ?_⟩
  · exact (linked.visits_descendants id).unique
  · rintro rfl
    exact linked.visits_descendants id
  · exact (List.nodup_cons.mp (linked.nodup_subtree id)).2
  · rw [linked.mem_descendants_iff, mem_ancestors_iff linked.closed linked.acyclic]
  · exact fun child below parent found => linked.sublist_descendants below found
  · exact linked.descendants_eq_subtrees id
  · exact linked.perm_subtree_roots

end Tree

end Gherkin
