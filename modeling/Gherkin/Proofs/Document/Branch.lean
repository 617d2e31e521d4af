import Gherkin.Proofs.Document.Record
import Gherkin.Proofs.Record.Branch

/-!
# The branch of a document

A document has one branch, given here construct by construct: each construct is an
element with its line, its description trimmed and its parts below it. The record
of a document describes this branch.
-/

namespace Gherkin

namespace Document

/-- The origin of a node that was read at a place. -/
def Place.origin (place : Place) : Origin := ⟨some place.line, none⟩

/-- The heading of an element. -/
def Header.heading (header : Header) : Heading :=
  ⟨header.keyword, header.name, Description.trim header.description⟩

/-- The branch of a tag. -/
def Tag.branch (tag : Tag) : Branch Origin := .node tag.place.origin (.tag tag.name) []

/-- The branch of a row. -/
def Row.branch (row : Row) : Branch Origin :=
  .node row.place.origin (.row (row.cells.map Cell.value)) []

/-- The branch of a table or doc string. -/
def Argument.branch : Argument → Branch Origin
  | .table place rows => .node place.origin .table (rows.map Row.branch)
  | .docString place _ contentType content =>
    .node place.origin (.docString contentType content) []

/-- The branch of a step. The blank that ends the keyword does not belong to it. -/
def Step.branch (step : Step) : Branch Origin :=
  .node step.place.origin (.step (Text.trimEnd step.keyword) step.text)
    (step.argument.toList.map Argument.branch)

/-- The branch of a background. -/
def Background.branch (background : Background) : Branch Origin :=
  .node background.header.place.origin (.background background.header.heading)
    (background.steps.map Step.branch)

/-- The branch of an examples block. -/
def Examples.branch (examples : Examples) : Branch Origin :=
  .node examples.header.place.origin (.example examples.header.heading)
    (examples.tags.map Tag.branch ++ examples.rows.map Row.branch)

/-- The branch of a scenario or an outline. Only outlines have examples. -/
def Scenario.branch (scenario : Scenario) : Branch Origin :=
  if scenario.isOutline then
    .node scenario.header.place.origin (.outline scenario.header.heading)
      (scenario.tags.map Tag.branch ++ scenario.steps.map Step.branch ++
        scenario.examples.map Examples.branch)
  else
    .node scenario.header.place.origin (.scenario scenario.header.heading)
      (scenario.tags.map Tag.branch ++ scenario.steps.map Step.branch)

theorem Scenario.isOutline_congr {scenario other : Scenario}
    (construct : scenario.header.construct = other.header.construct)
    (examples : scenario.examples.length = other.examples.length) :
    scenario.isOutline = other.isOutline := by
  have both : scenario.examples.isEmpty = other.examples.isEmpty := by
    rw [Bool.eq_iff_iff, List.isEmpty_iff_length_eq_zero, examples,
      List.isEmpty_iff_length_eq_zero]
  rw [isOutline, isOutline, construct, both]

/-- The branches of what features and rules have in common. -/
def Body.branches (body : Body) : List (Branch Origin) :=
  body.background.toList.map Background.branch ++ body.tests.map Scenario.branch

/-- The branch of a rule. -/
def Rule.branch (rule : Rule) : Branch Origin :=
  .node rule.header.place.origin (.rule rule.header.heading)
    (rule.tags.map Tag.branch ++ rule.body.branches)

/-- The branch of a feature. -/
def Feature.branch (feature : Feature) : Branch Origin :=
  .node feature.header.place.origin (.feature feature.header.heading feature.language)
    (feature.tags.map Tag.branch ++ (feature.body.branches ++ feature.rules.map Rule.branch))

/-- The branch of a document at a path. -/
def branch (uri : Text) (document : Document) : Branch Origin :=
  .node ⟨none, none⟩ (.featureFile uri) (document.feature.toList.map Feature.branch)

/-! ## Records describe branches -/

open Record

/-- A value is a record that describes a branch. -/
def Describes (value : Json) (branch : Branch Origin) : Prop :=
  ∃ record : Record, value = .fields record ∧ record.branch = .ok branch

theorem line?_ofList {entries : List (String × Json)} {place : Place}
    (placed : Fields.last? "location" entries = some place.location) :
    Record.line? (Fields.ofList entries) = some place.line := by
  simp [Record.line?, placed, Place.location, Json.natural, Json.asNatural?]

theorem ofItems_eq_ok (key : String) {items : List Json} {children : List (Branch Origin)}
    (described : List.Forall₂ Describes items children) :
    ∃ records, ofItems key items = .ok records ∧
      List.Forall₂ (fun inner child => Record.branch inner = .ok child) records children := by
  induction described with
  | nil => exact ⟨[], rfl, .nil⟩
  | cons here _ ih =>
      obtain ⟨record, rfl, described⟩ := here
      obtain ⟨records, read, later⟩ := ih
      refine ⟨record :: records, ?_, .cons described later⟩
      rw [ofItems, Json.asFields?, read]
      rfl

/-- A list field with records is filled with the branches they describe. -/
theorem fills_items {record : Record} {parent : Kind} {key : String} {homes : List Slot}
    {items : List Json} {children : List (Branch Origin)}
    (found : record.get? key = some (.list items))
    (described : List.Forall₂ Describes items children)
    (placed : ∀ child ∈ children, ∃ slot ∈ homes, child.kind.home = some slot ∧
      slot ∈ parent.slots) : Fills record parent ⟨key, true, homes⟩ children := by
  obtain ⟨records, read, each⟩ := ofItems_eq_ok key described
  refine ⟨⟨records, ?_, each⟩, placed⟩
  simp only [inField, Record.list, if_true, found, read]

theorem describes_map {α : Type} {items : List α} {value : α → Json} {child : α → Branch Origin}
    (described : ∀ item ∈ items, Describes (value item) (child item)) :
    List.Forall₂ Describes (items.map value) (items.map child) := by
  rw [List.forall₂_map_left_iff, List.forall₂_map_right_iff, List.forall₂_same]
  exact described

/-- A list field with the records of some parts is filled with their branches. -/
theorem fills_list {α : Type} {record : Record} {parent : Kind} {key : String}
    {homes : List Slot} {items : List α} (value : α → Json) {child : α → Branch Origin}
    (found : record.get? key = some (.list (items.map value)))
    (described : ∀ item ∈ items, Describes (value item) (child item))
    (placed : ∀ item ∈ items, ∃ slot ∈ homes, (child item).kind.home = some slot ∧
      slot ∈ parent.slots) :
    Fills record parent ⟨key, true, homes⟩ (items.map child) := by
  refine fills_items found (describes_map described) fun branch member => ?_
  obtain ⟨item, inside, rfl⟩ := List.mem_map.mp member
  exact placed item inside

/-- A single field with the record of a part, or without one. -/
theorem fills_single {α : Type} {record : Record} {parent : Kind} {key : String}
    {homes : List Slot} {item : Option α} (value : α → Json) {child : α → Branch Origin}
    (found : record.get? key = some ((item.map value).getD .null))
    (described : ∀ given ∈ item, Describes (value given) (child given))
    (placed : ∀ given ∈ item, ∃ slot ∈ homes, (child given).kind.home = some slot ∧
      slot ∈ parent.slots) :
    Fills record parent ⟨key, false, homes⟩ (item.toList.map child) := by
  cases item with
  | none =>
      refine ⟨⟨[], ?_, .nil⟩, by simp⟩
      simp [inField, Record.single, found, Except.map]
  | some given =>
      obtain ⟨inner, same, here⟩ := described given rfl
      refine ⟨⟨[inner], ?_, .cons here .nil⟩, by simpa using placed given rfl⟩
      simp [inField, Record.single, found, same, Except.map]

/-- An object with a kind, a line and filled fields describes an element. -/
theorem describes_object {entries : List (String × Json)} (kind : Kind) (place : Place)
    (element : Element) (children : List (List (Branch Origin))) {below : List (Branch Origin)}
    (named : Fields.last? "kind" entries = some (Json.word kind.symbol))
    (placed : Fields.last? "location" entries = some place.location)
    (itself : Record.element (Fields.ofList entries) kind = .ok element)
    (filled : List.Forall₂ (Fills (Fields.ofList entries) kind) (childFields kind) children)
    (whole : children.flatten = below) (room : HasRoom below) :
    Describes (Json.object entries) (.node place.origin element below) := by
  subst whole
  refine ⟨_, rfl, ?_⟩
  rw [branch_eq_ok (kind_ofList named) itself filled room, line?_ofList placed]
  rfl

/-- The heading in a record with the fields of a header. -/
theorem heading_ofList (kind : Kind) (header : Header) {entries : List (String × Json)}
    (others : ∀ key ∈ ["keyword", "name", "description"], Fields.last? key entries = none) :
    Record.heading (Fields.ofList (header.fields kind ++ entries)) = header.heading := by
  simp only [List.forall_mem_cons] at others
  obtain ⟨keyword, name, description, -⟩ := others
  simp [Record.heading, Record.text, Record.text?, Header.fields, Header.heading, keyword, name,
    description, Json.asText?]

theorem Tag.record_describes (tag : Tag) : Describes tag.record tag.branch :=
  describes_object .tag tag.place (.tag tag.name) [] (by simp) (by simp)
    (by simp [Record.element, Record.text, Record.text?, Json.asText?]) .nil rfl
    (by simp [HasRoom])

theorem cellValues_eq_ok (line : Nat) (cells : List Cell) :
    ∃ records, ofItems "cells" (cells.map (cellRecord line)) = .ok records ∧
      cellValues records = .ok (cells.map Cell.value) := by
  induction cells with
  | nil => exact ⟨[], rfl, rfl⟩
  | cons cell rest ih =>
      obtain ⟨records, read, values⟩ := ih
      let entries := [("kind", Json.word Kind.cell.symbol),
        ("location", Json.object [("line", Json.natural line)]), ("value", Json.text cell.value)]
      refine ⟨Fields.ofList entries :: records, ?_, ?_⟩
      · rw [List.map_cons, cellRecord, Json.object, ofItems, Json.asFields?, read]
        rfl
      · have named : Record.kind (Fields.ofList entries) = .ok .cell :=
          kind_ofList (by simp [entries])
        have value : Record.text "value" (Fields.ofList entries) = cell.value := by
          simp [entries, Record.text, Record.text?, Json.asText?]
        rw [cellValues, named]
        simp [bind, Except.bind, values, pure, Except.pure, value]

theorem Row.record_describes (row : Row) : Describes row.record row.branch := by
  obtain ⟨records, read, values⟩ := cellValues_eq_ok row.place.line row.cells
  refine describes_object .row row.place (.row (row.cells.map Cell.value)) [] (by simp) (by simp)
    ?_ .nil rfl (by simp [HasRoom])
  simp [Record.element, Record.list, read, values, bind, Except.bind, pure, Except.pure]

/-- Children of kinds that an element can have many of do not take room. -/
theorem filter_isSole_map {α : Type} {items : List α} {child : α → Branch Origin}
    (many : ∀ item ∈ items, (child item).kind.isSole = false) :
    (items.map child).filter (fun branch => branch.kind.isSole) = [] := by
  simpa [List.filter_eq_nil_iff] using many

theorem hasRoom_map {α : Type} {items : List α} {child : α → Branch Origin}
    (many : ∀ item ∈ items, (child item).kind.isSole = false) : HasRoom (items.map child) := by
  rw [HasRoom, filter_isSole_map many]
  exact Nat.zero_le 1

theorem Argument.record_describes (argument : Argument) :
    Describes argument.record argument.branch := by
  cases argument with
  | table place rows =>
      refine describes_object .table place .table [rows.map Row.branch] (by simp) (by simp)
        (by simp [Record.element]) (.cons (fills_list Row.record (by simp) ?_ ?_) .nil) (by simp)
        (hasRoom_map fun row _ => rfl)
      · exact fun row _ => row.record_describes
      · exact fun row _ => ⟨.rows, by simp, rfl, by decide⟩
  | docString place fence contentType content =>
      refine describes_object .docString place (.docString contentType content) [] (by simp)
        (by simp) ?_ .nil rfl (by simp [HasRoom])
      cases contentType <;>
        simp [Record.element, Record.text, Record.text?, Json.asText?]

theorem Step.record_describes (step : Step) : Describes step.record step.branch := by
  refine describes_object .step step.place (.step (Text.trimEnd step.keyword) step.text)
    [step.argument.toList.map Argument.branch] (by simp) (by simp)
    (by simp [Record.element, Record.text, Record.text?, Json.asText?])
    (.cons (fills_single Argument.record (by simp) ?_ ?_) .nil) (by simp) ?_
  · exact fun argument _ => argument.record_describes
  · intro argument _
    exact ⟨.block, by simp, by cases argument <;> rfl, by decide⟩
  · unfold HasRoom
    refine Nat.le_trans (List.length_filter_le _ _) ?_
    cases step.argument <;> simp

theorem Background.record_describes (background : Background) :
    Describes background.record background.branch := by
  refine describes_object .background background.header.place
    (.background background.header.heading) [background.steps.map Step.branch]
    (by simp [Header.fields]) (by simp [Header.fields])
    (by rw [Record.element, heading_ofList _ _ (by simp)])
    (.cons (fills_list Step.record (by simp [Header.fields]) ?_ ?_) .nil) (by simp)
    (hasRoom_map fun step _ => rfl)
  · exact fun step _ => step.record_describes
  · exact fun step _ => ⟨.steps, by simp, rfl, by decide⟩

theorem Examples.record_describes (examples : Examples) :
    Describes examples.record examples.branch := by
  refine describes_object .example examples.header.place (.example examples.header.heading)
    [examples.tags.map Tag.branch, examples.rows.map Row.branch]
    (by simp [Header.fields]) (by simp [Header.fields])
    (by rw [Record.element, heading_ofList _ _ (by simp)])
    (.cons (fills_list Tag.record (by simp [Header.fields]) ?_ ?_)
      (.cons (fills_list Row.record (by simp [Header.fields]) ?_ ?_) .nil)) (by simp) ?_
  · exact fun tag _ => tag.record_describes
  · exact fun tag _ => ⟨.tags, by simp, rfl, by decide⟩
  · exact fun row _ => row.record_describes
  · exact fun row _ => ⟨.rows, by simp, rfl, by decide⟩
  · simp [HasRoom, filter_isSole_map fun tag _ => show (Tag.branch tag).kind.isSole = false from rfl,
      filter_isSole_map fun row _ => show (Row.branch row).kind.isSole = false from rfl]

theorem kind_scenario_branch (scenario : Scenario) :
    scenario.branch.kind = if scenario.isOutline then .outline else .scenario := by
  unfold Scenario.branch
  split <;> rfl

theorem isSole_scenario_branch (scenario : Scenario) :
    scenario.branch.kind.isSole = false := by
  rw [kind_scenario_branch]
  split <;> rfl

theorem filter_isSole_tags (tags : List Tag) :
    (tags.map Tag.branch).filter (fun branch => branch.kind.isSole) = [] :=
  filter_isSole_map fun _ _ => rfl

theorem filter_isSole_steps (steps : List Step) :
    (steps.map Step.branch).filter (fun branch => branch.kind.isSole) = [] :=
  filter_isSole_map fun _ _ => rfl

theorem filter_isSole_examples (blocks : List Examples) :
    (blocks.map Examples.branch).filter (fun branch => branch.kind.isSole) = [] :=
  filter_isSole_map fun _ _ => rfl

theorem filter_isSole_rules (rules : List Rule) :
    (rules.map Rule.branch).filter (fun branch => branch.kind.isSole) = [] :=
  filter_isSole_map fun _ _ => rfl

theorem Scenario.record_describes (scenario : Scenario) :
    Describes scenario.record scenario.branch := by
  unfold Scenario.record Scenario.branch
  split
  · refine describes_object .outline scenario.header.place (.outline scenario.header.heading)
      [scenario.tags.map Tag.branch, scenario.steps.map Step.branch,
        scenario.examples.map Examples.branch]
      (by simp [Header.fields]) (by simp [Header.fields])
      (by rw [Record.element, heading_ofList _ _ (by simp)])
      (.cons (fills_list Tag.record (by simp [Header.fields]) ?_ ?_)
        (.cons (fills_list Step.record (by simp [Header.fields]) ?_ ?_)
          (.cons (fills_list Examples.record (by simp [Header.fields]) ?_ ?_) .nil)))
      (by simp) ?_
    · exact fun tag _ => tag.record_describes
    · exact fun tag _ => ⟨.tags, by simp, rfl, by decide⟩
    · exact fun step _ => step.record_describes
    · exact fun step _ => ⟨.steps, by simp, rfl, by decide⟩
    · exact fun block _ => block.record_describes
    · exact fun block _ => ⟨.examples, by simp, rfl, by decide⟩
    · simp [HasRoom, filter_isSole_tags, filter_isSole_steps, filter_isSole_examples]
  · refine describes_object .scenario scenario.header.place (.scenario scenario.header.heading)
      [scenario.tags.map Tag.branch, scenario.steps.map Step.branch]
      (by simp [Header.fields]) (by simp [Header.fields])
      (by rw [Record.element, heading_ofList _ _ (by simp)])
      (.cons (fills_list Tag.record (by simp [Header.fields]) ?_ ?_)
        (.cons (fills_list Step.record (by simp [Header.fields]) ?_ ?_) .nil)) (by simp) ?_
    · exact fun tag _ => tag.record_describes
    · exact fun tag _ => ⟨.tags, by simp, rfl, by decide⟩
    · exact fun step _ => step.record_describes
    · exact fun step _ => ⟨.steps, by simp, rfl, by decide⟩
    · simp [HasRoom, filter_isSole_tags, filter_isSole_steps]

theorem Body.records_describe (body : Body) :
    List.Forall₂ Describes body.records body.branches :=
  List.rel_append (describes_map fun background _ => background.record_describes)
    (describes_map fun test _ => test.record_describes)

theorem Body.mem_branches {body : Body} {child : Branch Origin} (member : child ∈ body.branches) :
    child.kind.home = some .background ∨ child.kind.home = some .tests := by
  rcases List.mem_append.mp member with member | member
  · obtain ⟨background, _, rfl⟩ := List.mem_map.mp member
    exact .inl rfl
  · obtain ⟨test, _, rfl⟩ := List.mem_map.mp member
    refine .inr ?_
    rw [kind_scenario_branch]
    split <;> rfl

theorem Body.length_filter_isSole (body : Body) :
    (body.branches.filter fun branch => branch.kind.isSole).length ≤ 1 := by
  unfold Body.branches
  rw [List.filter_append, filter_isSole_map fun test _ => isSole_scenario_branch test,
    List.append_nil]
  refine Nat.le_trans (List.length_filter_le _ _) ?_
  cases body.background <;> simp

theorem Rule.record_describes (rule : Rule) : Describes rule.record rule.branch := by
  refine describes_object .rule rule.header.place (.rule rule.header.heading)
    [rule.tags.map Tag.branch, rule.body.branches]
    (by simp [Header.fields]) (by simp [Header.fields])
    (by rw [Record.element, heading_ofList _ _ (by simp)])
    (.cons (fills_list Tag.record (by simp [Header.fields]) ?_ ?_)
      (.cons (fills_items (by simp [Header.fields]) rule.body.records_describe ?_) .nil))
    (by simp) ?_
  · exact fun tag _ => tag.record_describes
  · exact fun tag _ => ⟨.tags, by simp, rfl, by decide⟩
  · intro child member
    rcases Body.mem_branches member with home | home
    · exact ⟨.background, by simp, home, by decide⟩
    · exact ⟨.tests, by simp, home, by decide⟩
  · simpa [HasRoom, filter_isSole_tags] using rule.body.length_filter_isSole

theorem Feature.record_describes (feature : Feature) :
    Describes feature.record feature.branch := by
  refine describes_object .feature feature.header.place
    (.feature feature.header.heading feature.language)
    [feature.tags.map Tag.branch, feature.body.branches ++ feature.rules.map Rule.branch]
    (by simp [Header.fields]) (by simp [Header.fields])
    (by
      rw [Record.element, heading_ofList _ _ (by simp)]
      simp [Record.text, Record.text?, Json.asText?])
    (.cons (fills_list Tag.record (by simp [Header.fields]) ?_ ?_)
      (.cons (fills_items (by simp [Header.fields]) (List.rel_append feature.body.records_describe
        (describes_map fun rule _ => rule.record_describes)) ?_) .nil))
    (by simp) ?_
  · exact fun tag _ => tag.record_describes
  · exact fun tag _ => ⟨.tags, by simp, rfl, by decide⟩
  · intro child member
    rcases List.mem_append.mp member with member | member
    · rcases Body.mem_branches member with home | home
      · exact ⟨.background, by simp, home, by decide⟩
      · exact ⟨.tests, by simp, home, by decide⟩
    · obtain ⟨rule, _, rfl⟩ := List.mem_map.mp member
      exact ⟨.rules, by simp, rfl, by decide⟩
  · simpa [HasRoom, filter_isSole_tags, filter_isSole_rules] using
      feature.body.length_filter_isSole

/-- The record of a document describes the branch of the document. -/
theorem branch_record (uri : Text) (document : Document) :
    Record.branch (document.record uri) = .ok (document.branch uri) := by
  have filled : Fills (document.record uri) .featureFile ⟨"feature", false, [.feature]⟩
      (document.feature.toList.map Feature.branch) :=
    fills_single Feature.record (by simp [record])
      (fun feature _ => feature.record_describes)
      (fun feature _ => ⟨.feature, by simp, rfl, by decide⟩)
  have room : HasRoom [document.feature.toList.map Feature.branch].flatten := by
    refine Nat.le_trans (List.length_filter_le _ _) ?_
    cases document.feature <;> simp
  have named : Record.kind (document.record uri) = .ok .featureFile := kind_ofList (by simp)
  have itself : Record.element (document.record uri) .featureFile = .ok (.featureFile uri) := by
    simp [Record.element, record, Record.text, Record.text?, Json.asText?]
  rw [branch_eq_ok named itself (.cons filled .nil) room]
  have noLine : Record.line? (document.record uri) = none := by simp [Record.line?, record]
  rw [noLine, List.flatten_singleton]
  rfl

/-- Building the record of a document gives its branch, which keeps the record. -/
theorem rooted_record (uri : Text) (document : Document) :
    Record.rooted (document.record uri) =
      .ok (.node ⟨none, some (document.record uri)⟩ (.featureFile uri)
        (document.feature.toList.map Feature.branch)) := by
  unfold Record.rooted
  rw [branch_record]
  rfl

end Document

end Gherkin
