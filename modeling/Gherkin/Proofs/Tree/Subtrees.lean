import Gherkin.Proofs.Tree.Built

/-!
# Parts of a built tree

A branch that is planted stands in the tree with the children of each node taken slot by slot.
This does not depend on what is around it, so a record is built alike by itself and within the
record of something else: each record that is reached stands at its place in the preorder.
-/

namespace Gherkin

namespace Tree

open Record

variable {tree : Tree} {record : Record} {branch : Branch Origin} {id : NodeId}
  {parent : Option NodeId}

theorem linedBranch?_of_holds (holds : tree.HoldsFrom id (branch.nodes id parent)) :
    tree.linedBranch? id = some (branch.bySlots.map Origin.line) := by
  refine branchWithin_bySlots holds ?_
  have positive : 0 < branch.size := by
    cases branch
    rw [Branch.size]
    omega
  have within : branch.size - 1 < (branch.nodes id parent).length := by
    rw [Branch.length_nodes]
    omega
  have last := holds (branch.size - 1) within
  rw [List.getElem?_eq_getElem within] at last
  have bound : branch.size - 1 < tree.size :=
    Nat.lt_of_le_of_lt (Nat.le_add_left _ id) (lt_size_of_node? last)
  omega

/-- Where the nodes of the branch of a record stand, those of each record it reaches stand at the
place of this record. -/
theorem holds_of_reached (described : record.branch = .ok branch)
    (holds : tree.HoldsFrom id (branch.nodes id parent)) :
    ∀ place ∈ record.reached.zipIdx id, ∃ part above, place.1.branch = .ok part ∧
      tree.HoldsFrom place.2 (part.nodes place.2 above) := by
  induction branch using Branch.induction generalizing record id parent with
  | node origin element children ih =>
    obtain ⟨_, _, _, _, _, below, same⟩ := exists_children_of_branch described
    cases same
    rw [reached_eq, List.zipIdx_cons, List.forall_mem_cons]
    exact ⟨⟨_, parent, described, holds⟩, forall_reached_of_children below
      (fun child member inner start described stands => ih child member described stands)
      holds.children⟩

/-- In a tree that was built of a record, each record that is reached stands at its place as it is
built by itself. -/
theorem linedBranch?_of_reached (rooted : record.rooted = .ok branch) (tree : Tree) :
    ∀ place ∈ record.reached.zipIdx tree.size, ∃ part, place.1.branch = .ok part ∧
      (tree.plant branch).linedBranch? place.2 = some (part.bySlots.map Origin.line) := by
  obtain ⟨_, described, same⟩ := Except.bind_eq_ok_iff.mp rooted
  obtain ⟨_, element, children, _, _, below, rfl⟩ := exists_children_of_branch described
  cases same
  have holds := tree.holdsFrom_plant (.node ⟨record.line?, some record⟩ element children)
  rw [reached_eq, List.zipIdx_cons, List.forall_mem_cons]
  refine ⟨⟨_, described, ?_⟩, fun place member => ?_⟩
  · rw [linedBranch?_of_holds holds, Branch.bySlots_node, Branch.bySlots_node, Branch.map_node,
      Branch.map_node]
  · have stand := forall_reached_of_children below
      (fun _ _ _ _ described stands => holds_of_reached described stands) holds.children
    obtain ⟨part, above, described, stands⟩ := stand place member
    exact ⟨part, described, linedBranch?_of_holds stands⟩

end Tree

end Gherkin
