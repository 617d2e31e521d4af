import Gherkin.Proofs.Document.Branch
import Gherkin.Proofs.Layout.Items
import Gherkin.Proofs.Normal
import Gherkin.Proofs.Tree.Slots

/-!
# Branches in normal form are those of documents

A branch in normal form, with its children slot by slot, has the content of a part of a
document: of a part that is spelled with the words of the dialect. Where this part would
be written is left open.
-/

namespace Gherkin

namespace Document

variable {α : Type} {dialect : Dialect} {branch : Branch α}

/-- A branch has the content of the branch of a construct that has a property. -/
def Says {X : Type} (property : X → Prop) (tree : X → Branch Origin) (branch : Branch α) : Prop :=
  ∃ construct, property construct ∧ (tree construct).content = branch.content

/-- A branch that can stand in a slot and be written down. -/
structure IsPart (dialect : Dialect) (slot : Slot) (branch : Branch α) : Prop where
  home : branch.kind.home = some slot
  normal : branch.IsNormal dialect
  slotted : branch.Slotted

theorem exists_parts {X : Type} {property : X → Prop} {tree : X → Branch Origin}
    {children : List (Branch α)} (each : ∀ child ∈ children, Says property tree child) :
    ∃ parts : List X, (∀ part ∈ parts, property part) ∧
      (parts.map tree).map Branch.content = children.map Branch.content := by
  induction children with
  | nil => exact ⟨[], by simp, rfl⟩
  | cons child rest ih =>
      obtain ⟨here, later⟩ := List.forall_mem_cons.mp each
      obtain ⟨part, holds, same⟩ := here
      obtain ⟨parts, all, contents⟩ := ih later
      refine ⟨part :: parts, List.forall_mem_cons.mpr ⟨holds, all⟩, ?_⟩
      rw [List.map_cons, List.map_cons, List.map_cons, same, contents]

/-- The constructs in a slot for one child. -/
theorem exists_part {X : Type} {property : X → Prop} {tree : X → Branch Origin}
    {children : List (Branch α)} (each : ∀ child ∈ children, Says property tree child)
    (one : children.length ≤ 1) :
    ∃ part : Option X, (∀ given ∈ part, property given) ∧
      (part.toList.map tree).map Branch.content = children.map Branch.content := by
  match children, one with
  | [], _ => exact ⟨none, by simp, rfl⟩
  | [child], _ =>
      obtain ⟨part, holds, same⟩ := each child List.mem_cons_self
      exact ⟨some part, by simpa using holds, by simp [same]⟩

theorem element_eq_of_content_eq {β : Type} {branch : Branch α} {other : Branch β}
    (same : branch.content = other.content) : branch.element = other.element := by
  rw [← Branch.element_map (fun _ => ()) branch, ← Branch.element_map (fun _ => ()) other]
  exact congrArg Branch.element same

/-- The parts of an element, slot by slot. -/
theorem IsPart.exists_group {home : Slot} {label : α} {element : Element}
    {children : List (Branch α)} (part : IsPart dialect home (.node label element children)) :
    ∃ group : Slot → List (Branch α), children = element.kind.slots.flatMap group ∧
      (∀ slot, slot.isSingle = true → (group slot).length ≤ 1) ∧
      element.IsNormal dialect (children.map Branch.element) ∧
      ∀ slot ∈ element.kind.slots, ∀ child ∈ group slot, IsPart dialect slot child := by
  obtain ⟨_, normal, slotted⟩ := part
  cases normal with
  | node here below =>
      cases slotted with
      | node group whole home single each =>
          refine ⟨group, whole, single, here, fun slot inside child member => ?_⟩
          have among : child ∈ children := whole ▸ List.mem_flatMap.mpr ⟨slot, inside, member⟩
          exact ⟨home slot child member, below child among, each child among⟩

/-! ## Tags and rows -/

theorem IsPart.says_tag (part : IsPart dialect .tags branch) :
    Says (fun tag : Tag => IsTagName tag.name) Tag.branch branch := by
  obtain ⟨label, element, children⟩ := branch
  obtain ⟨group, rfl, _, normal, _⟩ := part.exists_group
  cases element with
  | tag name => exact ⟨⟨⟨0, 0⟩, name⟩, normal, rfl⟩
  | _ => cases part.home

theorem IsPart.says_row (part : IsPart dialect .rows branch) :
    Says (fun row : Row => ∀ cell ∈ row.cells, IsCellValue cell.value) Row.branch branch := by
  obtain ⟨label, element, children⟩ := branch
  obtain ⟨group, rfl, _, normal, _⟩ := part.exists_group
  cases element with
  | row cells =>
      refine ⟨⟨⟨0, 0⟩, cells.map fun value => ⟨0, value⟩⟩, ?_, ?_⟩
      · exact List.forall_mem_map.mpr normal
      · have values : (cells.map fun value => (⟨0, value⟩ : Cell)).map Cell.value = cells := by
          rw [List.map_map]
          exact List.map_id cells
        rw [Row.branch, values]
        rfl
  | _ => cases part.home

/-- The rows among some children. -/
theorem exists_rows {rows : List (Branch α)} {elements : List Element}
    (parts : ∀ row ∈ rows, IsPart dialect .rows row)
    (inside : ∀ row ∈ rows, row.element ∈ elements) (even : Element.AreEven elements) :
    ∃ found : List Row, Rows.Spelled found ∧
      (found.map Row.branch).map Branch.content = rows.map Branch.content := by
  obtain ⟨found, values, same⟩ := exists_parts fun row member => (parts row member).says_row
  refine ⟨found, ⟨values, fun row member other there => ?_⟩, same⟩
  have among {row : Row} (member : row ∈ found) : Element.row row.values ∈ elements := by
    have read : row.branch.content ∈ (found.map Row.branch).map Branch.content :=
      List.mem_map_of_mem (List.mem_map_of_mem member)
    rw [same] at read
    obtain ⟨original, here, content⟩ := List.mem_map.mp read
    rw [show Element.row row.values = original.element from
      (element_eq_of_content_eq content).symm]
    exact inside original here
  simpa [Row.values, Element.cells] using even _ (among member) _ (among there) rfl rfl

/-! ## Steps -/

theorem IsPart.says_argument (part : IsPart dialect .block branch) :
    Says Argument.Spelled Argument.branch branch := by
  obtain ⟨label, element, children⟩ := branch
  obtain ⟨group, whole, _, normal, parts⟩ := part.exists_group
  cases element with
  | table =>
      obtain rfl : children = group .rows := whole.trans (List.flatMap_singleton ..)
      obtain ⟨⟨element, member, isRow⟩, even⟩ := normal
      obtain ⟨rows, spelled, same⟩ := exists_rows (parts .rows List.mem_cons_self)
        (fun row inside => List.mem_map_of_mem inside) even
      refine ⟨.table ⟨0, 0⟩ rows, ⟨?_, spelled⟩, Branch.content_node_eq _ same⟩
      rintro rfl
      rw [List.map_nil, List.map_nil, eq_comm, List.map_eq_nil_iff] at same
      rw [same] at member
      cases member
  | docString contentType contents =>
      obtain rfl : children = [] := whole
      exact ⟨.docString ⟨0, 0⟩ .quotes contentType contents, normal, rfl⟩
  | _ => cases part.home

theorem IsPart.says_step (part : IsPart dialect .steps branch) :
    Says (Step.Spelled dialect) Step.branch branch := by
  obtain ⟨label, element, children⟩ := branch
  obtain ⟨group, whole, single, normal, parts⟩ := part.exists_group
  cases element with
  | step keyword text =>
      obtain rfl : children = group .block := whole.trans (List.flatMap_singleton ..)
      obtain ⟨⟨word, listed, rfl⟩, label⟩ := normal
      obtain ⟨argument, spelled, same⟩ := exists_part
        (fun child member => (parts .block List.mem_cons_self child member).says_argument)
        (single .block rfl)
      exact ⟨⟨⟨0, 0⟩, word, text, argument⟩, ⟨listed, label, spelled⟩, Branch.content_node_eq _ same⟩
  | _ => cases part.home

/-! ## Parts with headers -/

/-- A header for a heading. -/
def Header.ofHeading (construct : Construct) (heading : Heading) : Header :=
  ⟨⟨0, 0⟩, construct, heading.keyword, heading.name, heading.description⟩

theorem Header.heading_ofHeading {construct : Construct} {heading : Heading}
    (normal : heading.IsNormal dialect construct) :
    (Header.ofHeading construct heading).heading = heading := by
  rw [Header.heading]
  simp only [ofHeading, normal.trimmed]

theorem Header.spelled_ofHeading {construct : Construct} {heading : Heading}
    (normal : heading.IsNormal dialect construct) :
    (Header.ofHeading construct heading).Spelled dialect :=
  ⟨normal.keyword, normal.name, normal.free⟩

theorem IsPart.says_background (part : IsPart dialect .background branch) :
    Says (Background.Spelled dialect) Background.branch branch := by
  obtain ⟨label, element, children⟩ := branch
  obtain ⟨group, whole, _, normal, parts⟩ := part.exists_group
  cases element with
  | background heading =>
      obtain rfl : children = group .steps := whole.trans (List.flatMap_singleton ..)
      obtain ⟨steps, spelled, same⟩ := exists_parts fun child member =>
        (parts .steps List.mem_cons_self child member).says_step
      refine ⟨⟨.ofHeading .background heading, steps⟩,
        ⟨rfl, Header.spelled_ofHeading normal, spelled⟩, ?_⟩
      rw [Background.branch, Header.heading_ofHeading normal]
      exact Branch.content_node_eq _ same
  | _ => cases part.home

theorem IsPart.says_examples (part : IsPart dialect .examples branch) :
    Says (Examples.Spelled dialect) Examples.branch branch := by
  obtain ⟨label, element, children⟩ := branch
  obtain ⟨group, whole, _, normal, parts⟩ := part.exists_group
  cases element with
  | «example» heading =>
      obtain rfl : children = group .tags ++ group .rows := by
        simpa [Element.kind, Kind.slots] using whole
      obtain ⟨normal, even⟩ := normal
      obtain ⟨tags, names, sameTags⟩ := exists_parts fun child member =>
        (parts .tags List.mem_cons_self child member).says_tag
      obtain ⟨rows, spelled, sameRows⟩ := exists_rows
        (parts .rows (List.mem_cons_of_mem _ List.mem_cons_self)) (fun row inside =>
          List.mem_map_of_mem (List.mem_append_right _ inside)) even
      refine ⟨⟨tags, .ofHeading .examples heading, rows⟩,
        ⟨names, rfl, Header.spelled_ofHeading normal, spelled⟩, ?_⟩
      rw [Examples.branch, Header.heading_ofHeading normal]
      refine Branch.content_node_eq _ ?_
      rw [List.map_append, List.map_append, sameTags, sameRows]
  | _ => cases part.home

/-- Only examples blocks are of the kind of one. -/
theorem examples_ne_nil {tags steps blocks : List (Branch α)}
    (tagged : ∀ child ∈ tags, IsPart dialect .tags child)
    (performed : ∀ child ∈ steps, IsPart dialect .steps child)
    (some : ∃ element ∈ (tags ++ steps ++ blocks).map Branch.element, element.kind = .example) :
    blocks ≠ [] := by
  rintro rfl
  obtain ⟨element, among, kind⟩ := some
  obtain ⟨child, inside, rfl⟩ := List.mem_map.mp among
  rw [List.append_nil] at inside
  rcases List.mem_append.mp inside with tag | step
  · have home := (tagged child tag).home
    rw [Branch.kind, kind] at home
    cases home
  · have home := (performed child step).home
    rw [Branch.kind, kind] at home
    cases home

theorem IsPart.says_test (part : IsPart dialect .tests branch) :
    Says (Scenario.Spelled dialect) Scenario.branch branch := by
  obtain ⟨label, element, children⟩ := branch
  obtain ⟨group, whole, _, normal, parts⟩ := part.exists_group
  cases element with
  | scenario heading =>
      obtain rfl : children = group .tags ++ group .steps := by
        simpa [Element.kind, Kind.slots] using whole
      obtain ⟨tags, names, sameTags⟩ := exists_parts fun child member =>
        (parts .tags List.mem_cons_self child member).says_tag
      obtain ⟨steps, spelled, sameSteps⟩ := exists_parts fun child member =>
        (parts .steps (List.mem_cons_of_mem _ List.mem_cons_self) child member).says_step
      refine ⟨⟨tags, .ofHeading .scenario heading, steps, []⟩,
        ⟨names, .inl rfl, Header.spelled_ofHeading normal, spelled, by simp⟩, ?_⟩
      have plain : Scenario.isOutline ⟨tags, .ofHeading .scenario heading, steps, []⟩ ≠ true :=
        Bool.false_ne_true
      rw [Scenario.branch, if_neg plain, Header.heading_ofHeading normal]
      refine Branch.content_node_eq _ ?_
      rw [List.map_append, List.map_append, sameTags, sameSteps]
  | outline heading =>
      obtain rfl : children = group .tags ++ group .steps ++ group .examples := by
        simpa [Element.kind, Kind.slots] using whole
      obtain ⟨tags, names, sameTags⟩ := exists_parts fun child member =>
        (parts .tags List.mem_cons_self child member).says_tag
      obtain ⟨steps, spelled, sameSteps⟩ := exists_parts fun child member =>
        (parts .steps (List.mem_cons_of_mem _ List.mem_cons_self) child member).says_step
      obtain ⟨blocks, blocksSpelled, sameBlocks⟩ := exists_parts fun child member =>
        (parts .examples (by simp [Element.kind, Kind.slots]) child member).says_examples
      obtain ⟨construct, normal, allowed, outline⟩ : ∃ construct,
          heading.IsNormal dialect construct ∧ (construct = .scenario ∨ construct = .outline) ∧
          (construct = .outline ∨ blocks ≠ []) := by
        rcases normal with normal | ⟨normal, examples⟩
        · exact ⟨.outline, normal, .inr rfl, .inl rfl⟩
        · refine ⟨.scenario, normal, .inl rfl, .inr ?_⟩
          rintro rfl
          rw [List.map_nil, List.map_nil, eq_comm, List.map_eq_nil_iff] at sameBlocks
          exact examples_ne_nil (parts .tags List.mem_cons_self)
            (parts .steps (List.mem_cons_of_mem _ List.mem_cons_self)) examples sameBlocks
      refine ⟨⟨tags, .ofHeading construct heading, steps, blocks⟩,
        ⟨names, allowed, Header.spelled_ofHeading normal, spelled, blocksSpelled⟩, ?_⟩
      have isOutline : Scenario.isOutline ⟨tags, .ofHeading construct heading, steps, blocks⟩ =
          true := by
        rcases outline with rfl | some
        · rfl
        · simp [Scenario.isOutline, some]
      rw [Scenario.branch, if_pos isOutline, Header.heading_ofHeading normal]
      refine Branch.content_node_eq _ ?_
      simp only [List.map_append, sameTags, sameSteps, sameBlocks]
  | _ => cases part.home

/-! ## Rules and features -/

/-- The background and the tests of a rule or feature. -/
theorem exists_body {group : Slot → List (Branch α)}
    (backgrounds : ∀ child ∈ group .background, IsPart dialect .background child)
    (one : (group .background).length ≤ 1)
    (tests : ∀ child ∈ group .tests, IsPart dialect .tests child) :
    ∃ body : Body, body.Spelled dialect ∧ body.branches.map Branch.content =
      (group .background ++ group .tests).map Branch.content := by
  obtain ⟨background, spelled, same⟩ := exists_part
    (fun child member => (backgrounds child member).says_background) one
  obtain ⟨found, all, sameTests⟩ := exists_parts fun child member => (tests child member).says_test
  refine ⟨⟨background, found⟩, ⟨spelled, all⟩, ?_⟩
  rw [Body.branches, List.map_append, List.map_append, same, sameTests]

theorem IsPart.says_rule (part : IsPart dialect .rules branch) :
    Says (Rule.Spelled dialect) Rule.branch branch := by
  obtain ⟨label, element, children⟩ := branch
  obtain ⟨group, whole, single, normal, parts⟩ := part.exists_group
  cases element with
  | rule heading =>
      obtain rfl : children = group .tags ++ (group .background ++ group .tests) := by
        simpa [Element.kind, Kind.slots] using whole
      obtain ⟨tags, names, sameTags⟩ := exists_parts fun child member =>
        (parts .tags List.mem_cons_self child member).says_tag
      obtain ⟨body, spelled, sameBody⟩ := exists_body
        (parts .background (by simp [Element.kind, Kind.slots])) (single .background rfl)
        (parts .tests (by simp [Element.kind, Kind.slots]))
      refine ⟨⟨tags, .ofHeading .rule heading, body⟩,
        ⟨names, rfl, Header.spelled_ofHeading normal, spelled⟩, ?_⟩
      rw [Rule.branch, Header.heading_ofHeading normal]
      refine Branch.content_node_eq _ ?_
      rw [List.map_append, List.map_append, sameTags, sameBody]
  | _ => cases part.home

theorem IsPart.says_feature (part : IsPart dialect .feature branch) :
    Says (Feature.Spelled dialect) Feature.branch branch := by
  obtain ⟨label, element, children⟩ := branch
  obtain ⟨group, whole, single, normal, parts⟩ := part.exists_group
  cases element with
  | feature heading language =>
      obtain rfl : children =
          group .tags ++ ((group .background ++ group .tests) ++ group .rules) := by
        simpa [Element.kind, Kind.slots] using whole
      obtain ⟨normal, rfl⟩ := normal
      obtain ⟨tags, names, sameTags⟩ := exists_parts fun child member =>
        (parts .tags List.mem_cons_self child member).says_tag
      obtain ⟨body, spelled, sameBody⟩ := exists_body
        (parts .background (by simp [Element.kind, Kind.slots])) (single .background rfl)
        (parts .tests (by simp [Element.kind, Kind.slots]))
      obtain ⟨rules, rulesSpelled, sameRules⟩ := exists_parts fun child member =>
        (parts .rules (by simp [Element.kind, Kind.slots]) child member).says_rule
      refine ⟨⟨dialect.code, tags, .ofHeading .feature heading, body, rules⟩,
        ⟨rfl, names, rfl, Header.spelled_ofHeading normal, spelled, rulesSpelled⟩, ?_⟩
      rw [Feature.branch, Header.heading_ofHeading normal]
      refine Branch.content_node_eq _ ?_
      rw [List.map_append, List.map_append, List.map_append, List.map_append, sameTags, sameBody,
        sameRules]
  | _ => cases part.home

end Document

end Gherkin
