import Gherkin.Proofs.Branch
import Gherkin.Proofs.Document.Branch

/-!
# The branches of documents are arranged

Each construct puts its parts in the order of the slots they live in, so a document
stands in a tree as it was read.
-/

namespace Gherkin

namespace Document

open Branch

variable {α : Type} {items : List α} {child : α → Branch Origin}

theorem home_map {slot : Slot} (home : ∀ item, (child item).kind.home = some slot) :
    ∀ branch ∈ items.map child, branch.kind.home = some slot := by
  intro branch member
  obtain ⟨item, _, rfl⟩ := List.mem_map.mp member
  exact home item

theorem arranged_map (arranged : ∀ item, (child item).Arranged) :
    ∀ branch ∈ items.map child, branch.Arranged := by
  intro branch member
  obtain ⟨item, _, rfl⟩ := List.mem_map.mp member
  exact arranged item

theorem home_scenario_branch (scenario : Scenario) :
    scenario.branch.kind.home = some .tests := by
  rw [kind_scenario_branch]
  split <;> rfl

theorem home_argument_branch (argument : Argument) :
    argument.branch.kind.home = some .block := by cases argument <;> rfl

theorem arranged_leaf {origin : Origin} {element : Element} :
    Arranged (.node origin element []) := .node ⟨fun _ => [], by simp, by simp⟩ (by simp)

theorem Tag.arranged_branch (tag : Tag) : tag.branch.Arranged := arranged_leaf

theorem Row.arranged_branch (row : Row) : row.branch.Arranged := arranged_leaf

theorem Argument.arranged_branch (argument : Argument) : argument.branch.Arranged := by
  cases argument with
  | table place rows =>
      refine .node (grouped_of_parts [(.rows, rows.map Row.branch)] rfl ?_ (by simp))
        (arranged_map Row.arranged_branch)
      rw [List.forall_mem_singleton]
      exact home_map fun _ => rfl
  | docString => exact arranged_leaf

theorem Step.arranged_branch (step : Step) : step.branch.Arranged := by
  refine .node (grouped_of_parts [(.block, step.argument.toList.map Argument.branch)] rfl ?_
    (by simp)) (arranged_map Argument.arranged_branch)
  rw [List.forall_mem_singleton]
  exact home_map home_argument_branch

theorem Background.arranged_branch (background : Background) : background.branch.Arranged := by
  refine .node (grouped_of_parts [(.steps, background.steps.map Step.branch)] rfl ?_ (by simp))
    (arranged_map Step.arranged_branch)
  rw [List.forall_mem_singleton]
  exact home_map fun _ => rfl

theorem Examples.arranged_branch (examples : Examples) : examples.branch.Arranged := by
  refine .node (grouped_of_parts [(.tags, examples.tags.map Tag.branch),
    (.rows, examples.rows.map Row.branch)] rfl ?_ (by simp)) ?_
  · simp only [List.forall_mem_cons]
    exact ⟨home_map fun _ => rfl, home_map fun _ => rfl, by simp⟩
  · rw [List.forall_mem_append]
    exact ⟨arranged_map Tag.arranged_branch, arranged_map Row.arranged_branch⟩

theorem Scenario.arranged_branch (scenario : Scenario) : scenario.branch.Arranged := by
  unfold Scenario.branch
  split
  · refine .node (grouped_of_parts [(.tags, scenario.tags.map Tag.branch),
      (.steps, scenario.steps.map Step.branch), (.examples, scenario.examples.map Examples.branch)]
      rfl ?_ (by simp)) ?_
    · simp only [List.forall_mem_cons]
      exact ⟨home_map fun _ => rfl, home_map fun _ => rfl, home_map fun _ => rfl, by simp⟩
    · simp only [List.forall_mem_append]
      exact ⟨⟨arranged_map Tag.arranged_branch, arranged_map Step.arranged_branch⟩,
        arranged_map Examples.arranged_branch⟩
  · refine .node (grouped_of_parts [(.tags, scenario.tags.map Tag.branch),
      (.steps, scenario.steps.map Step.branch)] rfl ?_ (by simp)) ?_
    · simp only [List.forall_mem_cons]
      exact ⟨home_map fun _ => rfl, home_map fun _ => rfl, by simp⟩
    · rw [List.forall_mem_append]
      exact ⟨arranged_map Tag.arranged_branch, arranged_map Step.arranged_branch⟩

theorem Body.arranged_branches (body : Body) : ∀ branch ∈ body.branches, branch.Arranged := by
  unfold Body.branches
  rw [List.forall_mem_append]
  exact ⟨arranged_map Background.arranged_branch, arranged_map Scenario.arranged_branch⟩

theorem Rule.arranged_branch (rule : Rule) : rule.branch.Arranged := by
  refine .node (grouped_of_parts [(.tags, rule.tags.map Tag.branch),
    (.background, rule.body.background.toList.map Background.branch),
    (.tests, rule.body.tests.map Scenario.branch)] rfl ?_ (by simp [Body.branches])) ?_
  · simp only [List.forall_mem_cons]
    exact ⟨home_map fun _ => rfl, home_map fun _ => rfl, home_map home_scenario_branch, by simp⟩
  · rw [List.forall_mem_append]
    exact ⟨arranged_map Tag.arranged_branch, rule.body.arranged_branches⟩

theorem Feature.arranged_branch (feature : Feature) : feature.branch.Arranged := by
  refine .node (grouped_of_parts [(.tags, feature.tags.map Tag.branch),
    (.background, feature.body.background.toList.map Background.branch),
    (.tests, feature.body.tests.map Scenario.branch), (.rules, feature.rules.map Rule.branch)] rfl
    ?_ (by simp [Body.branches])) ?_
  · simp only [List.forall_mem_cons]
    exact ⟨home_map fun _ => rfl, home_map fun _ => rfl, home_map home_scenario_branch,
      home_map fun _ => rfl, by simp⟩
  · simp only [List.forall_mem_append]
    exact ⟨arranged_map Tag.arranged_branch, feature.body.arranged_branches,
      arranged_map Rule.arranged_branch⟩

/-- The children of every node of a document are grouped by their slots. -/
theorem arranged_branch (uri : Text) (document : Document) (origin : Origin) :
    Arranged (.node origin (.featureFile uri)
      (document.feature.toList.map Feature.branch)) := by
  refine .node (grouped_of_parts [(.feature, document.feature.toList.map Feature.branch)] rfl ?_
    (by simp)) (arranged_map Feature.arranged_branch)
  rw [List.forall_mem_singleton]
  exact home_map fun _ => rfl

end Document

end Gherkin
