import Gherkin.Proofs.Outcome
import Gherkin.Proofs.Tree.Growth
import Gherkin.Proofs.Tree.Linked

/-!
# Branches that can grow

A branch can grow if it comes about child by child, each placed behind the ones before it.
The branches of records can, and planting such a branch keeps a tree linked.
-/

namespace Gherkin

namespace Branch

variable {α : Type}

/-- A branch that comes about child by child. -/
inductive Grown : Branch α → Prop where
  | bare (label : α) (element : Element) : Grown (.node label element [])
  | child {label : α} {element : Element} {siblings children : List (Branch α)}
      {child : Branch α} {slot : Slot} (before : Grown (.node label element siblings))
      (below : Grown child) (home : child.kind.home = some slot)
      (placed : Record.place element.kind slot siblings child = .ok children) :
      Grown (.node label element children)

/-- Whether a branch can grow depends on its topmost element only by the kind. -/
theorem Grown.of_same {a b : Branch α} (grown : a.Grown) (kind : b.kind = a.kind)
    (children : b.children = a.children) : b.Grown := by
  induction grown generalizing b with
  | bare label element =>
    obtain ⟨label', element', children'⟩ := b
    cases children
    exact .bare label' element'
  | child before below home placed ih _ =>
    obtain ⟨label', element', children'⟩ := b
    cases children
    have kind : element'.kind = _ := kind
    refine .child (ih (b := .node label' element' _) kind rfl) below home ?_
    rw [kind]
    exact placed

end Branch

namespace Record

/-- The branch of a record can grow. -/
theorem grown_of_branch {record : Record} {branch : Branch Origin}
    (described : record.branch = .ok branch) : branch.Grown := by
  rw [Record.branch] at described
  obtain ⟨kind, _, described⟩ := Except.bind_eq_ok_iff.mp described
  obtain ⟨element, itself, described⟩ := Except.bind_eq_ok_iff.mp described
  obtain ⟨children, folded, described⟩ := Except.bind_eq_ok_iff.mp described
  cases described
  let Growing (children : List (Branch Origin)) : Prop :=
    (Branch.node ⟨record.line?, none⟩ element children).Grown
  refine Except.foldlM_invariant Growing (fun field _ siblings children growing added => ?_)
    (.bare ..) folded
  obtain ⟨records, _, added⟩ := Except.bind_eq_ok_iff.mp added
  refine Except.foldlM_invariant Growing (fun inner _ siblings children growing added => ?_)
    growing added
  obtain ⟨slot, homed, added⟩ := Except.bind_eq_ok_iff.mp added
  obtain ⟨child, below, placed⟩ := Except.bind_eq_ok_iff.mp added
  rw [← kind_of_element itself] at placed
  exact growing.child (grown_of_branch below) (home_of_homeIn homed below) placed
termination_by sizeOf record
decreasing_by exact inner.2

end Record

namespace Tree

variable {tree : Tree}

/-- Planting a branch that can grow keeps a tree linked. -/
theorem Linked.plant {branch : Branch Origin} (linked : tree.Linked) (grown : branch.Grown) :
    (tree.plant branch).Linked := by
  induction grown generalizing tree with
  | bare origin element =>
    rw [← push_eq_plant]
    exact linked.push rfl rfl
  | @child origin element siblings children child slot _ _ home placed before below =>
    obtain ⟨owned, room, rfl⟩ := Record.place_eq_ok_iff.mp placed
    rw [← attach_plant home]
    obtain ⟨kind, alone, full⟩ := views_plant_plant tree origin element siblings child
    refine (below (before linked)).attach ⟨?_, ?_, List.nodup_singleton _, fun one => ?_, ?_⟩
    · exact List.forall_mem_singleton.mpr ⟨⟨_, kind, owned⟩, ⟨_, kind?_plant_self .., home⟩⟩
    · exact List.forall_mem_singleton.mpr (parent?_plant_self ..)
    · have vacant : (!siblings.any fun sibling => sibling.kind.home == some slot) = true := by
        simpa using room one
      rw [List.isEmpty_iff.mp ((full slot).trans vacant)]
      exact Nat.le_refl 1
    · refine List.forall_mem_singleton.mpr fun path => ?_
      rcases path.cases_head with same | ⟨_, step, _⟩
      · exact Nat.ne_of_lt (size_lt_size_plant ..) same
      · rw [HasParent, alone] at step
        cases step

end Tree

end Gherkin
