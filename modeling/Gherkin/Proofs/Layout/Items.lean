import Gherkin.Layout.Render
import Gherkin.Proofs.Branch
import Gherkin.Proofs.Document.Branch

/-!
# The items of constructs

What a branch is laid out as depends on its elements and not on its labels. For the
branch of a construct the items are given here part by part: tags, header and
description, and then what stands below them.
-/

namespace Gherkin

/-- The texts of a row. -/
def Document.Row.values (row : Document.Row) : List Text := row.cells.map Cell.value

namespace Layout

variable {α β : Type} {width : Text → Nat} {depth : Nat}

/-- The line of tags with some names, if there are any. -/
def tagItems (depth : Nat) (names : List Text) : List Item :=
  if names.isEmpty then [] else [.line depth (Text.join [' '] names)]

/-- Tags with some names, a header and its description. -/
def headed (depth : Nat) (names : List Text) (heading : Heading) : List Item :=
  tagItems depth names ++ .line depth (headerLine heading) :: description depth heading.description

/-! ## Children -/

theorem below_append (front back : List (Branch α)) :
    below width depth (front ++ back) = below width depth front ++ below width depth back := by
  induction front with
  | nil => rfl
  | cons child rest ih => rw [List.cons_append, below, ih, below, List.append_assoc]

theorem below_eq_nil {children : List (Branch α)}
    (inline : ∀ child ∈ children, isInline child.kind = true) : below width depth children = [] := by
  induction children with
  | nil => rfl
  | cons child rest ih =>
      obtain ⟨here, later⟩ := List.forall_mem_cons.mp inline
      rw [below, ih later, if_pos here, List.append_nil]

theorem tagNames_append (front back : List (Branch α)) :
    (front ++ back).filterMap (fun child => child.element.tagName?) =
      front.filterMap (fun child => child.element.tagName?) ++
        back.filterMap (fun child => child.element.tagName?) := List.filterMap_append

theorem tagNames_eq_nil {children : List (Branch α)}
    (untagged : ∀ child ∈ children, child.kind ≠ .tag) :
    children.filterMap (fun child => child.element.tagName?) = [] := by
  refine List.filterMap_eq_nil_iff.mpr fun child member => ?_
  have other := untagged child member
  obtain ⟨label, element, below⟩ := child
  cases element <;> first | rfl | exact absurd rfl other

theorem tagNames_tags (tags : List Document.Tag) :
    (tags.map Document.Tag.branch).filterMap (fun child => child.element.tagName?) =
      tags.map Document.Tag.name := by
  rw [List.filterMap_map, ← List.filterMap_eq_map]
  rfl

theorem cellRows_append (front back : List (Branch α)) :
    cellRows (front ++ back) = cellRows front ++ cellRows back := by
  rw [cellRows, Branch.ofKind, List.filter_append, List.map_append]
  rfl

theorem cellRows_cons (child : Branch α) (rest : List (Branch α)) :
    cellRows (child :: rest) =
      (if child.kind = .row then [child.element.cells] else []) ++ cellRows rest := by
  by_cases row : child.kind = .row <;> simp [cellRows, Branch.ofKind, row]

theorem cellRows_eq_nil {children : List (Branch α)}
    (others : ∀ child ∈ children, child.kind ≠ .row) : cellRows children = [] := by
  rw [cellRows, Branch.ofKind, List.filter_eq_nil_iff.mpr, List.map_nil]
  exact fun child member same => others child member (beq_iff_eq.mp same)

theorem cellRows_rows (rows : List Document.Row) :
    cellRows (rows.map Document.Row.branch) = rows.map Document.Row.values := by
  rw [cellRows, Branch.ofKind, List.filter_eq_self.mpr, List.map_map]
  · rfl
  · intro child member
    obtain ⟨row, _, rfl⟩ := List.mem_map.mp member
    rfl

/-! ## What a layout depends on -/

/-- Elements take the same part in a layout if they are equal, or both doc strings. -/
def Alike (a b : Element) : Prop := a = b ∨ a.kind = .docString ∧ b.kind = .docString

theorem Alike.kind {a b : Element} (alike : Alike a b) : a.kind = b.kind := by
  rcases alike with rfl | ⟨left, right⟩
  · rfl
  · rw [left, right]

theorem Alike.tagName? {a b : Element} (alike : Alike a b) : a.tagName? = b.tagName? := by
  rcases alike with rfl | ⟨left, right⟩
  · rfl
  · cases a <;> cases left
    cases b <;> cases right
    rfl

theorem Alike.cells {a b : Element} (alike : Alike a b) : a.cells = b.cells := by
  rcases alike with rfl | ⟨left, right⟩
  · rfl
  · cases a <;> cases left
    cases b <;> cases right
    rfl

section Congruence

variable {as : List (Branch α)} {bs : List (Branch β)}

theorem tagLine_congr (alike : List.Forall₂ (fun a b => Alike a.element b.element) as bs) :
    tagLine depth as = tagLine depth bs := by
  have names : as.filterMap (fun child => child.element.tagName?) =
      bs.filterMap (fun child => child.element.tagName?) := by
    induction alike with
    | nil => rfl
    | cons here _ ih => rw [List.filterMap_cons, List.filterMap_cons, here.tagName?, ih]
  rw [tagLine, tagLine, names]

theorem cellRows_congr (alike : List.Forall₂ (fun a b => Alike a.element b.element) as bs) :
    cellRows as = cellRows bs := by
  induction alike with
  | nil => rfl
  | @cons a b as bs here _ ih =>
      have kinds : a.kind = b.kind := here.kind
      have cells : a.element.cells = b.element.cells := here.cells
      rw [cellRows_cons, cellRows_cons, ih, kinds, cells]

theorem languageLine_congr (alike : List.Forall₂ (fun a b => Alike a.element b.element) as bs) :
    languageLine depth as = languageLine depth bs := by
  cases alike with
  | nil => rfl
  | @cons a b _ _ here _ =>
      obtain ⟨_, element, _⟩ := a
      obtain ⟨_, element', _⟩ := b
      rcases here with same | ⟨left, right⟩
      · cases (show element = element' from same)
        cases element <;> rfl
      · cases element <;> cases left
        cases element' <;> cases right
        rfl

theorem below_congr (alike : List.Forall₂ (fun a b => Alike a.element b.element ∧
      ∀ depth, items width depth a = items width depth b) as bs) :
    below width depth as = below width depth bs := by
  induction alike with
  | nil => rfl
  | @cons a b _ _ here _ ih =>
      have kinds : a.kind = b.kind := here.1.kind
      rw [below, below, ih, kinds, here.2]

attribute [local simp] items

/-- The items of an element depend on those of its children. -/
theorem items_node_congr {label : α} {label' : β} (element : Element)
    (alike : List.Forall₂ (fun a b => Alike a.element b.element ∧
      ∀ depth, items width depth a = items width depth b) as bs) :
    items width depth (.node label element as) = items width depth (.node label' element bs) := by
  have elements := alike.imp fun _ _ both => both.1
  cases element <;>
    simp [opening, tagLine_congr elements, cellRows_congr elements, languageLine_congr elements,
      below_congr alike]

end Congruence

/-- The labels of a branch do not matter for its layout. -/
theorem items_map (f : α → β) (branch : Branch α) :
    items width depth (branch.map f) = items width depth branch := by
  induction branch using Branch.induction generalizing depth with
  | node label element children ih =>
      rw [Branch.map_node]
      apply items_node_congr
      rw [List.forall₂_map_left_iff, List.forall₂_same]
      exact fun child member => ⟨.inl (Branch.element_map f child), fun _ => ih child member⟩

theorem items_eq_of_content_eq {a : Branch α} {b : Branch β} (same : a.content = b.content) :
    items width depth a = items width depth b := by
  rw [← items_map (fun _ => ()) a, ← items_map (fun _ => ()) b]
  exact congrArg (items width depth) same

theorem render_eq_of_content_eq {indent : Text} {a : Branch α} {b : Branch β}
    (same : a.content = b.content) : render width indent a = render width indent b := by
  rw [render, render, items_eq_of_content_eq same]

end Layout

namespace Document

open Layout

variable {width : Text → Nat} {depth : Nat}

/-! ## Constructs -/

/-- Tags, header and description of an element with tags among its children. -/
theorem opening_tags (heading : Heading) (tags : List Tag) {others : List (Branch Origin)}
    (untagged : ∀ child ∈ others, child.kind ≠ .tag) :
    opening depth heading (tags.map Tag.branch ++ others) =
      headed depth (tags.map Tag.name) heading := by
  rw [opening, tagLine, tagNames_append, tagNames_tags, tagNames_eq_nil untagged, List.append_nil]
  rfl

theorem below_tags (tags : List Tag) : below width depth (tags.map Tag.branch) = [] := by
  apply below_eq_nil
  intro child member
  obtain ⟨tag, _, rfl⟩ := List.mem_map.mp member
  rfl

theorem Step.items_branch (step : Step) :
    items width depth step.branch =
      .line depth (stepLine (Text.trimEnd step.keyword) step.text) ::
        below width (depth + 1) (step.argument.toList.map Argument.branch) := by
  rw [Step.branch, items]

theorem Argument.items_table (place : Place) (rows : List Row) :
    items width depth (Argument.table place rows).branch =
      Layout.table width depth (rows.map Row.values) := by
  rw [Argument.branch, items, cellRows_rows]

theorem below_steps (step : Step) (rest : List Step) :
    below width depth ((step :: rest).map Step.branch) =
      items width depth step.branch ++ below width depth (rest.map Step.branch) := rfl

theorem Background.items_branch (background : Background) :
    items width depth background.branch = headed depth [] background.header.heading ++
      below width (depth + 1) (background.steps.map Step.branch) := by
  have untagged : ∀ child ∈ background.steps.map Step.branch, child.kind ≠ .tag :=
    List.forall_mem_map.mpr fun step _ => nofun
  have header : opening depth _ _ = _ := opening_tags background.header.heading [] untagged
  rw [Background.branch, items]
  exact congrArg (· ++ _) header

theorem Examples.items_branch (examples : Examples) :
    items width depth examples.branch =
      headed depth (examples.tags.map Tag.name) examples.header.heading ++
        Layout.table width (depth + 1) (examples.rows.map Row.values) := by
  have untagged : ∀ child ∈ examples.rows.map Row.branch, child.kind ≠ .tag :=
    List.forall_mem_map.mpr fun row _ => nofun
  have others : ∀ child ∈ examples.tags.map Tag.branch, child.kind ≠ .row :=
    List.forall_mem_map.mpr fun tag _ => nofun
  rw [Examples.branch, items, opening_tags _ _ untagged, cellRows_append, cellRows_eq_nil others,
    cellRows_rows, List.nil_append]

theorem Scenario.items_branch (scenario : Scenario) :
    items width depth scenario.branch =
      headed depth (scenario.tags.map Tag.name) scenario.header.heading ++
        (below width (depth + 1) (scenario.steps.map Step.branch) ++
          below width (depth + 1) (scenario.examples.map Examples.branch)) := by
  have steps : ∀ child ∈ scenario.steps.map Step.branch, child.kind ≠ .tag :=
    List.forall_mem_map.mpr fun step _ => nofun
  have examples : ∀ child ∈ scenario.examples.map Examples.branch, child.kind ≠ .tag :=
    List.forall_mem_map.mpr fun block _ => nofun
  unfold Scenario.branch
  split
  · rw [items, List.append_assoc, opening_tags, below_append, below_tags, List.nil_append,
      below_append]
    exact fun child member => (List.mem_append.mp member).elim (steps child) (examples child)
  · next plain =>
    have none : scenario.examples = [] := by
      simp only [isOutline, Bool.or_eq_true, not_or, Bool.not_eq_true', Bool.not_eq_false] at plain
      simpa using plain.2
    rw [items, opening_tags _ _ steps, below_append, below_tags, List.nil_append, none,
      List.map_nil, below, List.append_nil]

theorem Body.below_branches (body : Body) :
    below width depth body.branches =
      below width depth (body.background.toList.map Background.branch) ++
        below width depth (body.tests.map Scenario.branch) := below_append _ _

theorem Body.untagged_branches (body : Body) : ∀ child ∈ body.branches, child.kind ≠ .tag := by
  intro child member tag
  rcases Body.mem_branches member with home | home
  · rw [tag] at home
    cases home
  · rw [tag] at home
    cases home

theorem Rule.items_branch (rule : Rule) :
    items width depth rule.branch = headed depth (rule.tags.map Tag.name) rule.header.heading ++
      below width (depth + 1) rule.body.branches := by
  rw [Rule.branch, items, opening_tags _ _ rule.body.untagged_branches, below_append, below_tags,
    List.nil_append]

theorem Feature.items_branch (feature : Feature) :
    items width depth feature.branch =
      headed depth (feature.tags.map Tag.name) feature.header.heading ++
        (below width (depth + 1) feature.body.branches ++
          below width (depth + 1) (feature.rules.map Rule.branch)) := by
  rw [Feature.branch, items, opening_tags, below_append, below_tags, List.nil_append, below_append]
  intro child member
  rcases List.mem_append.mp member with member | member
  · exact feature.body.untagged_branches child member
  · obtain ⟨rule, _, rfl⟩ := List.mem_map.mp member
    exact nofun

end Document

end Gherkin
