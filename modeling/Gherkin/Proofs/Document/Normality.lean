import Gherkin.Proofs.Document.Branch
import Gherkin.Proofs.Normal
import Gherkin.Proofs.Text.Description

/-!
# Documents in normal form

The branch of a document that is spelled with the words of a dialect is in normal form: what the
lines have of words, trimmed texts and even rows is kept in the record and in the elements made of
it, and trimming a description leaves nothing to be trimmed and turns no line into another kind.
-/

namespace Gherkin

namespace Document

variable {dialect : Dialect}

/-- Trimming a description turns no line of it into one of another kind. -/
theorem Header.Spelled.isFree {header : Header} (spelled : header.Spelled dialect) :
    ∀ line ∈ Text.pieces header.heading.description, dialect.IsFree line := by
  intro line member
  rcases Description.exists_piece_of_trim member with rfl | ⟨piece, inside, same⟩
  · exact .inr rfl
  · have free := spelled.description piece inside
    rwa [Dialect.IsFree, ← same] at free

theorem Header.Spelled.isNormal {header : Header} (spelled : header.Spelled dialect) :
    header.heading.IsNormal dialect header.construct :=
  ⟨spelled.keyword, spelled.name, Description.trim_trim _, spelled.isFree⟩

/-- Rows of one width are even, whatever other elements are among them. -/
theorem Rows.Spelled.areEven {rows : List Row} (spelled : Rows.Spelled rows)
    {elements : List Element} (all : ∀ element ∈ elements, element.kind = .row →
      ∃ row ∈ rows, row.branch.element = element) : Element.AreEven elements := by
  intro a member b member' isRow isRow'
  obtain ⟨row, inside, rfl⟩ := all a member isRow
  obtain ⟨row', inside', rfl⟩ := all b member' isRow'
  have even := spelled.even row inside row' inside'
  simpa [Row.branch, Branch.element, Element.cells] using even

theorem Tag.isNormal_branch {tag : Tag} (named : IsTagName tag.name) :
    tag.branch.IsNormal dialect := .node named (by simp)

theorem Row.isNormal_branch {row : Row} (values : ∀ cell ∈ row.cells, IsCellValue cell.value) :
    row.branch.IsNormal dialect := .node (List.forall_mem_map.mpr values) (by simp)

theorem Argument.isNormal_branch {argument : Argument} (spelled : argument.Spelled) :
    argument.branch.IsNormal dialect := by
  cases argument with
  | table place rows =>
    obtain ⟨some, spelled⟩ := spelled
    refine .node ⟨?_, spelled.areEven fun element member _ => ?_⟩
      (List.forall_mem_map.mpr fun row inside => Row.isNormal_branch (spelled.values row inside))
    · obtain ⟨row, inside⟩ := List.exists_mem_of_ne_nil rows some
      exact ⟨row.branch.element, List.mem_map_of_mem (List.mem_map_of_mem inside), rfl⟩
    · rw [List.map_map] at member
      exact List.mem_map.mp member
  | docString place fence contentType content => exact .node spelled (by simp)

theorem Step.isNormal_branch {step : Step} (spelled : step.Spelled dialect) :
    step.branch.IsNormal dialect := by
  refine .node ⟨⟨step.keyword, spelled.keyword, rfl⟩, spelled.text⟩
    (List.forall_mem_map.mpr fun argument given => ?_)
  exact Argument.isNormal_branch (spelled.argument argument (Option.mem_toList.mp given))

theorem Background.isNormal_branch {background : Background}
    (spelled : background.Spelled dialect) : background.branch.IsNormal dialect := by
  have heading := spelled.header.isNormal
  rw [spelled.construct] at heading
  exact .node heading (List.forall_mem_map.mpr fun step inside =>
    Step.isNormal_branch (spelled.steps step inside))

theorem Examples.isNormal_branch {examples : Examples} (spelled : examples.Spelled dialect) :
    examples.branch.IsNormal dialect := by
  have heading := spelled.header.isNormal
  rw [spelled.construct] at heading
  refine .node ⟨heading, spelled.rows.areEven fun element member isRow => ?_⟩
    (List.forall_mem_append.mpr ⟨List.forall_mem_map.mpr fun tag inside =>
      Tag.isNormal_branch (spelled.tags tag inside), List.forall_mem_map.mpr fun row inside =>
        Row.isNormal_branch (spelled.rows.values row inside)⟩)
  rw [List.map_append, List.map_map, List.map_map] at member
  rcases List.mem_append.mp member with tagged | row
  · obtain ⟨tag, _, rfl⟩ := List.mem_map.mp tagged
    cases isRow
  · exact List.mem_map.mp row

theorem Scenario.isNormal_branch {scenario : Scenario} (spelled : scenario.Spelled dialect) :
    scenario.branch.IsNormal dialect := by
  have heading := spelled.header.isNormal
  have tags : ∀ branch ∈ scenario.tags.map Tag.branch, branch.IsNormal dialect :=
    List.forall_mem_map.mpr fun tag inside => Tag.isNormal_branch (spelled.tags tag inside)
  have steps : ∀ branch ∈ scenario.steps.map Step.branch, branch.IsNormal dialect :=
    List.forall_mem_map.mpr fun step inside => Step.isNormal_branch (spelled.steps step inside)
  have examples : ∀ branch ∈ scenario.examples.map Examples.branch, branch.IsNormal dialect :=
    List.forall_mem_map.mpr fun block inside =>
      Examples.isNormal_branch (spelled.examples block inside)
  unfold Scenario.branch
  split
  · next outline =>
    refine .node ?_
      (List.forall_mem_append.mpr ⟨List.forall_mem_append.mpr ⟨tags, steps⟩, examples⟩)
    rcases spelled.construct with word | word
    · -- A scenario word makes an outline only by its examples.
      rw [word] at heading
      have some : scenario.examples ≠ [] := by simpa [Scenario.isOutline, word] using outline
      obtain ⟨block, inside⟩ := List.exists_mem_of_ne_nil _ some
      refine .inr ⟨heading, block.branch.element, List.mem_map_of_mem ?_, rfl⟩
      exact List.mem_append_right _ (List.mem_map_of_mem inside)
    · rw [word] at heading
      exact .inl heading
  · next plain =>
    refine .node ?_ (List.forall_mem_append.mpr ⟨tags, steps⟩)
    rcases spelled.construct with word | word
    · rwa [word] at heading
    · simp [Scenario.isOutline, word] at plain

theorem Body.isNormal_branches {body : Body} (spelled : body.Spelled dialect) :
    ∀ branch ∈ body.branches, branch.IsNormal dialect := by
  refine List.forall_mem_append.mpr ⟨List.forall_mem_map.mpr fun background given => ?_,
    List.forall_mem_map.mpr fun test inside => Scenario.isNormal_branch (spelled.tests test inside)⟩
  exact Background.isNormal_branch (spelled.background background (Option.mem_toList.mp given))

theorem Rule.isNormal_branch {rule : Rule} (spelled : rule.Spelled dialect) :
    rule.branch.IsNormal dialect := by
  have heading := spelled.header.isNormal
  rw [spelled.construct] at heading
  exact .node heading (List.forall_mem_append.mpr ⟨List.forall_mem_map.mpr fun tag inside =>
    Tag.isNormal_branch (spelled.tags tag inside), Body.isNormal_branches spelled.body⟩)

/-- A feature that is spelled in a dialect is in normal form. -/
theorem Feature.isNormal_branch {feature : Feature} (spelled : feature.Spelled dialect) :
    feature.branch.IsNormal dialect := by
  have heading := spelled.header.isNormal
  rw [spelled.construct] at heading
  refine .node ⟨heading, spelled.language⟩ ?_
  rw [List.forall_mem_append, List.forall_mem_append]
  exact ⟨List.forall_mem_map.mpr fun tag inside => Tag.isNormal_branch (spelled.tags tag inside),
    Body.isNormal_branches spelled.body,
    List.forall_mem_map.mpr fun rule inside => Rule.isNormal_branch (spelled.rules rule inside)⟩

end Document

end Gherkin
