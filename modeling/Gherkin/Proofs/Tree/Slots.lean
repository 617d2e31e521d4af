import Gherkin.Proofs.Branch
import Gherkin.Tree.Basic

/-!
# Slots of trees and branches

When every slot of a tree holds children that can live in it, and a slot for one child
at most one, the children of a branch in the tree come slot by slot.
-/

namespace Gherkin

namespace Branch

variable {α : Type}

/-- The children of every node come slot by slot, at most one from a slot for one child. -/
inductive Slotted : Branch α → Prop where
  | node {label element children} (group : Slot → List (Branch α)) :
      children = (Element.kind element).slots.flatMap group →
      (∀ slot, ∀ child ∈ group slot, child.kind.home = some slot) →
      (∀ slot, slot.isSingle = true → (group slot).length ≤ 1) →
      (∀ child ∈ children, Slotted child) → Slotted (.node label element children)

theorem Slotted.arranged {branch : Branch α} (slotted : branch.Slotted) : branch.Arranged := by
  induction slotted with
  | node group whole home _ _ ih => exact .node ⟨group, whole, home⟩ ih

theorem labels_subset_allLabels {branch : Branch α} {branches : List (Branch α)}
    (member : branch ∈ branches) : branch.labels ⊆ allLabels branches := by
  induction branches with
  | nil => exact absurd member List.not_mem_nil
  | cons first rest ih =>
      rw [allLabels]
      rcases List.mem_cons.mp member with rfl | later
      · exact List.subset_append_left _ _
      · exact List.subset_append_of_subset_right _ (ih later)

end Branch

namespace Tree

variable {tree : Tree} {id : NodeId} {branch : Branch NodeId}

/-- The children of a node live in their slots, and a slot for one child holds at most one. -/
structure Fits (tree : Tree) (id : NodeId) : Prop where
  home : ∀ slot, ∀ child ∈ tree.slot id slot, ∀ kind ∈ tree.kind? child, kind.home = some slot
  single : ∀ slot, slot.isSingle = true → (tree.slot id slot).length ≤ 1

theorem branchWithin_succ_eq_some {depth : Nat}
    (found : tree.branchWithin (depth + 1) id = some branch) :
    ∃ node, tree.node? id = some node ∧
      branch = .node id node.element (node.children.filterMap (tree.branchWithin depth)) := by
  rw [branchWithin, Option.map_eq_some_iff] at found
  obtain ⟨node, here, rfl⟩ := found
  exact ⟨node, here, rfl⟩

theorem kind?_of_branchWithin {depth : Nat} (found : tree.branchWithin depth id = some branch) :
    tree.kind? id = some branch.kind := by
  cases depth with
  | zero => cases found
  | succ depth =>
      obtain ⟨node, here, rfl⟩ := branchWithin_succ_eq_some found
      rw [kind?, here]
      rfl

theorem slotted_of_branchWithin {depth : Nat} (found : tree.branchWithin depth id = some branch)
    (fits : ∀ label ∈ branch.labels, tree.Fits label) : branch.Slotted := by
  induction depth generalizing id branch with
  | zero => cases found
  | succ depth ih =>
      obtain ⟨node, here, rfl⟩ := branchWithin_succ_eq_some found
      have slots (slot : Slot) : tree.slot id slot = node.links.get slot := by
        rw [Tree.slot, here]
        rfl
      have itself := fits id (by simp [Branch.labels])
      refine .node (fun slot => (node.links.get slot).filterMap (tree.branchWithin depth))
        ?_ ?_ ?_ ?_
      · exact List.filterMap_flatMap ..
      · intro slot child member
        obtain ⟨inner, inside, read⟩ := List.mem_filterMap.mp member
        exact itself.home slot inner (slots slot ▸ inside) _ (kind?_of_branchWithin read)
      · intro slot one
        exact Nat.le_trans (List.length_filterMap_le _ _) (slots slot ▸ itself.single slot one)
      · intro child member
        obtain ⟨inner, _, read⟩ := List.mem_filterMap.mp member
        refine ih read fun label inside => fits label ?_
        rw [Branch.labels]
        exact List.mem_cons_of_mem _ (Branch.labels_subset_allLabels member inside)

end Tree

end Gherkin
