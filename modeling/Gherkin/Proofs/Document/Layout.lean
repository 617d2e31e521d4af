import Gherkin.Proofs.Layout.Items
import Gherkin.Proofs.Layout.Rereading
import Gherkin.Proofs.Layout.Table
import Gherkin.Proofs.Line.Rendered

/-!
# The layout of spelled constructs

The lines that a spelled construct is laid out as are lines, each of them, and the last
one says something.
-/

namespace Gherkin

open Layout

variable {dialect : Dialect} {width : Text → Nat} {depth : Nat}

namespace Layout

theorem tidy_tagItems {names : List Text} (tags : ∀ name ∈ names, IsTagName name) :
    Tidy (tagItems depth names) := by
  unfold tagItems
  split
  · exact Tidy.nil
  · next some =>
    obtain ⟨rest, joined, label⟩ := exists_join_tagNames (by simpa using some) tags
    rw [joined]
    exact Tidy.line depth (List.cons_ne_nil _ _) label

theorem tidy_description {text : Text} (trimmed : Description.trim text = text) :
    Tidy (description depth text) := by
  unfold description
  split
  · exact Tidy.nil
  · next some =>
    have block := Description.isBlock_pieces trimmed (by simpa using some)
    refine (Tidy.append ⟨?_, ?_⟩ (Tidy.gap Tidy.nil)).gap
    · rw [texts_map_line]
      exact block.oneLine
    · rw [texts_map_line]
      intro last found
      exact ⟨by simpa using block.stripped.2 last found, block.ends last (List.mem_of_getLast? found)⟩

theorem rowLine_ne_nil (columns : List Nat) (cells : List Text) :
    rowLine width columns cells ≠ [] := by
  obtain ⟨rest, whole, _⟩ := exists_rowLine_eq width columns cells
  exact whole ▸ List.cons_ne_nil _ _

theorem isLabel_rowLine {columns : List Nat} {row : List Text}
    (enough : row.length ≤ columns.length) :
    Text.IsLabel (rowLine width columns (row.map Cell.escape)) := by
  obtain ⟨rest, whole, trimmed⟩ := exists_rowLine_eq width columns (row.map Cell.escape)
  refine ⟨whole ▸ trimmed, not_newline_mem_rowLine ?_ (by rwa [List.length_map])⟩
  exact List.forall_mem_map.mpr fun cell _ => Cell.not_newline_mem_escape cell

theorem tableLines_eq (width : Text → Nat) (rows : List (List Text)) :
    tableLines width rows = rows.map fun row => rowLine width
      (columnWidths width (rows.map fun row => row.map Cell.escape)) (row.map Cell.escape) := by
  rw [tableLines, List.map_map]
  rfl

/-- The lines of a table are those of its rows, with columns for all cells. -/
theorem table_eq (rows : List (List Text)) :
    ∃ columns : List Nat, (∀ row ∈ rows, row.length ≤ columns.length) ∧
      table width depth rows =
        (rows.map fun row => rowLine width columns (row.map Cell.escape)).map (Item.line depth) :=
  ⟨_, fun _ member => length_le_columnWidths_escape member, by rw [table, tableLines_eq]⟩

/-- Every line of a table is a label, so it is read as it is written. -/
theorem isLabel_of_mem_tableLines {rows : List (List Text)} {line : Text}
    (member : line ∈ tableLines width rows) : line ≠ [] ∧ Text.IsLabel line := by
  rw [tableLines_eq] at member
  obtain ⟨row, among, rfl⟩ := List.mem_map.mp member
  exact ⟨rowLine_ne_nil _ _, isLabel_rowLine (length_le_columnWidths_escape among)⟩

theorem tidy_table (rows : List (List Text)) : Tidy (table width depth rows) :=
  Tidy.lines depth fun _ member => isLabel_of_mem_tableLines member

theorem not_newline_mem_contentLines (contents : Text) :
    ∀ line ∈ contentLines contents, '\n' ∉ line := by
  unfold contentLines
  split
  · exact nofun
  · exact List.forall_mem_map.mpr fun line member =>
      not_newline_mem_contentLine (Text.not_mem_of_mem_pieces member)

theorem isLabel_openingLine {contentType : Option Text}
    (type : ∀ type ∈ contentType, type ≠ [] ∧ Text.IsLabel type) :
    Text.IsLabel (openingLine contentType) := by
  cases contentType with
  | none => decide
  | some type' =>
      obtain ⟨written, label⟩ := type type' rfl
      refine ⟨⟨?_, ?_⟩, ?_⟩
      · rintro c ⟨⟩
        rfl
      · intro c last
        refine label.trimmed.2 c ?_
        rw [openingLine, List.getLast?_append_of_ne_nil _ (List.cons_ne_nil _ _),
          List.getLast?_cons_of_ne_nil written] at last
        exact last
      · simp [openingLine, Fence.text, label.oneLine]

theorem tidy_docString {contentType : Option Text} (contents : Text)
    (type : ∀ type ∈ contentType, type ≠ [] ∧ Text.IsLabel type) :
    Tidy (docString depth contentType contents) := by
  have ends : Tidy [Item.line depth quotes] :=
    Tidy.line depth quotes_ne_nil (by decide)
  rw [docString_eq, ← List.cons_append]
  constructor
  · rw [texts_append]
    intro line member
    rcases List.mem_append.mp member with member | member
    · have all : texts (.line depth (openingLine contentType) ::
          (contentLines contents).map (Item.line depth)) =
          openingLine contentType :: contentLines contents := by
        rw [← List.map_cons, texts_map_line]
      rw [all] at member
      rcases List.mem_cons.mp member with rfl | inside
      · exact (isLabel_openingLine type).oneLine
      · exact not_newline_mem_contentLines contents line inside
    · exact ends.oneLine line member
  · rw [texts_append, List.getLast?_append]
    exact ends.ends

theorem tidy_below {α : Type} {parts : List α} {child : α → Branch Origin}
    (each : ∀ part ∈ parts, Tidy (items width depth (child part))) :
    Tidy (below width depth (parts.map child)) := by
  induction parts with
  | nil => exact Tidy.nil
  | cons part rest ih =>
      obtain ⟨here, later⟩ := List.forall_mem_cons.mp each
      rw [List.map_cons, below]
      refine Tidy.append ?_ (ih later)
      split
      · exact Tidy.nil
      · split
        · exact here.gap
        · exact here

end Layout

namespace Document

theorem Header.trim_heading (header : Header) :
    Description.trim header.heading.description = header.heading.description :=
  Description.trim_trim _

theorem Header.Spelled.tidy_headed {header : Header} (spelled : header.Spelled dialect)
    (regular : dialect.Regular) (other : header.construct ≠ .step) {names : List Text}
    (tags : ∀ name ∈ names, IsTagName name) : Tidy (headed depth names header.heading) := by
  have label : Text.IsLabel (headerLine header.heading) :=
    isLabel_headerLine regular other spelled.keyword spelled.name
  unfold headed
  rw [← List.singleton_append]
  exact (tidy_tagItems tags).append ((Tidy.line depth (headerLine_ne_nil _) label).append
    (tidy_description header.trim_heading))

theorem Argument.Spelled.tidy {argument : Argument} (spelled : argument.Spelled) :
    Tidy (items width depth argument.branch) := by
  cases argument with
  | table place rows =>
      rw [Argument.items_table]
      exact tidy_table _
  | docString place fence contentType content => exact tidy_docString content spelled

theorem Step.Spelled.tidy {step : Step} (spelled : step.Spelled dialect)
    (regular : dialect.Regular) :
    Tidy (items width depth step.branch) := by
  have label := isLabel_stepLine regular spelled.keyword spelled.text
  rw [Step.items_branch, ← List.singleton_append]
  refine (Tidy.line depth (stepLine_ne_nil regular spelled.keyword _) label).append
    (tidy_below fun argument given => ?_)
  exact Argument.Spelled.tidy (spelled.argument argument (by simpa using given))

theorem Background.Spelled.tidy {background : Background} (spelled : background.Spelled dialect)
    (regular : dialect.Regular) : Tidy (items width depth background.branch) := by
  rw [Background.items_branch]
  refine (spelled.header.tidy_headed regular (by simp [spelled.construct]) (by simp)).append
    (tidy_below fun step member => ?_)
  exact (spelled.steps step member).tidy regular

theorem Examples.Spelled.tidy {examples : Examples} (spelled : examples.Spelled dialect)
    (regular : dialect.Regular) : Tidy (items width depth examples.branch) := by
  rw [Examples.items_branch]
  exact (spelled.header.tidy_headed regular (by simp [spelled.construct])
    (List.forall_mem_map.mpr spelled.tags)).append (tidy_table _)

theorem Scenario.Spelled.tidy {scenario : Scenario} (spelled : scenario.Spelled dialect)
    (regular : dialect.Regular) : Tidy (items width depth scenario.branch) := by
  have other : scenario.header.construct ≠ .step := by
    rcases spelled.construct with construct | construct <;> simp [construct]
  rw [Scenario.items_branch]
  refine (spelled.header.tidy_headed regular other (List.forall_mem_map.mpr spelled.tags)).append
    ((tidy_below fun step member => ?_).append (tidy_below fun block member => ?_))
  · exact (spelled.steps step member).tidy regular
  · exact (spelled.examples block member).tidy regular

theorem Body.Spelled.tidy {body : Body} (spelled : body.Spelled dialect)
    (regular : dialect.Regular) :
    Tidy (below width depth body.branches) := by
  rw [Body.below_branches]
  refine (tidy_below fun background member => ?_).append (tidy_below fun test member => ?_)
  · exact (spelled.background background (by simpa using member)).tidy regular
  · exact (spelled.tests test member).tidy regular

theorem Rule.Spelled.tidy {rule : Rule} (spelled : rule.Spelled dialect)
    (regular : dialect.Regular) :
    Tidy (items width depth rule.branch) := by
  rw [Rule.items_branch]
  exact (spelled.header.tidy_headed regular (by simp [spelled.construct])
    (List.forall_mem_map.mpr spelled.tags)).append (spelled.body.tidy regular)

theorem Feature.Spelled.tidy {feature : Feature} (spelled : feature.Spelled dialect)
    (regular : dialect.Regular) : Tidy (items width depth feature.branch) := by
  rw [Feature.items_branch]
  refine (spelled.header.tidy_headed regular (by simp [spelled.construct])
    (List.forall_mem_map.mpr spelled.tags)).append
    ((spelled.body.tidy regular).append (tidy_below fun rule member => ?_))
  exact (spelled.rules rule member).tidy regular

end Document

end Gherkin
