import Gherkin.Fragment
import Gherkin.Proofs.Document.Branch
import Gherkin.Proofs.Layout.Rereading

/-!
# Finding a construct by its kind

The first record of a kind in the record of a document describes an outermost branch of
this kind in the branch of the document, and there is such a record if there is such a
branch. The order of fields, which is not that of the branches, does not matter for this.
-/

namespace Gherkin

namespace Branch

variable {α β : Type}

mutual

/-- The branches of a kind that are not below another one of this kind. -/
def outermost (kind : Kind) : Branch α → List (Branch α)
  | .node label element children =>
    if element.kind = kind then [.node label element children] else allOutermost kind children

/-- The outermost branches of a kind in several branches. -/
def allOutermost (kind : Kind) : List (Branch α) → List (Branch α)
  | [] => []
  | branch :: rest => outermost kind branch ++ allOutermost kind rest

end

@[simp]
theorem outermost_node (kind : Kind) (label : α) (element : Element) (children : List (Branch α)) :
    (node label element children).outermost kind =
      if element.kind = kind then [node label element children]
      else children.flatMap (outermost kind) := by
  have all (children : List (Branch α)) :
      allOutermost kind children = children.flatMap (outermost kind) := by
    induction children with
    | nil => rfl
    | cons child rest ih => rw [allOutermost, ih, List.flatMap_cons]
  rw [outermost, all]

theorem outermost_self {kind : Kind} {branch : Branch α} (itself : branch.kind = kind) :
    branch.outermost kind = [branch] := by
  obtain ⟨label, element, children⟩ := branch
  rw [outermost_node, if_pos (show element.kind = kind from itself)]

/-- An only child of an element of another kind has all branches of a kind there are. -/
theorem outermost_of_children {kind : Kind} {branch child : Branch α} (other : branch.kind ≠ kind)
    (only : branch.children = [child]) : branch.outermost kind = child.outermost kind := by
  obtain ⟨label, element, children⟩ := branch
  rw [outermost_node, if_neg (show element.kind ≠ kind from other),
    show children = [child] from only, List.flatMap_singleton]

theorem kind_of_mem_outermost {kind : Kind} {branch inner : Branch α}
    (inside : inner ∈ branch.outermost kind) : inner.kind = kind := by
  induction branch using induction with
  | node label element children ih =>
      rw [outermost_node] at inside
      split at inside
      · next itself =>
        rw [List.mem_singleton.mp inside]
        exact itself
      · obtain ⟨child, member, inside⟩ := List.mem_flatMap.mp inside
        exact ih child member inside

/-- What is true of a branch and passed on to children is true of all outermost branches. -/
theorem forall_outermost {kind : Kind} {holds : Branch α → Prop}
    (inherited : ∀ branch, holds branch → ∀ child ∈ branch.children, holds child)
    {branch : Branch α} (here : holds branch) : ∀ inner ∈ branch.outermost kind, holds inner := by
  induction branch using induction with
  | node label element children ih =>
      intro inner inside
      rw [outermost_node] at inside
      split at inside
      · rw [List.mem_singleton.mp inside]
        exact here
      · obtain ⟨child, member, inside⟩ := List.mem_flatMap.mp inside
        exact ih child member (inherited _ here child member) inner inside

theorem outermost_map (kind : Kind) (f : α → β) (branch : Branch α) :
    (branch.map f).outermost kind = (branch.outermost kind).map (map f) := by
  induction branch using induction with
  | node label element children ih =>
      rw [map_node, outermost_node, outermost_node]
      split
      · rw [List.map_singleton, map_node]
      · rw [List.flatMap_map, List.map_flatMap]
        exact List.flatMap_congr ih

theorem outermost_reread (kind : Kind) (branch : Branch α) :
    branch.reread.outermost kind = (branch.outermost kind).map reread := by
  induction branch using induction with
  | node label element children ih =>
      rw [reread_node, outermost_node, outermost_node, Element.kind_reread]
      split
      · rw [List.map_singleton, reread_node]
      · rw [List.flatMap_map, List.map_flatMap]
        exact List.flatMap_congr ih

end Branch

namespace Fragment

open Document

variable {kind : Kind}

@[simp]
theorem find?_text (text : Text) : find? kind (.text text) = none := rfl

@[simp]
theorem find?_null : find? kind .null = none := rfl

theorem findInItems?_eq (items : List Json) :
    findInItems? kind items = items.findSome? (find? kind) := by
  induction items with
  | nil => rfl
  | cons item rest ih =>
      rw [findInItems?, ih, List.findSome?_cons]
      cases find? kind item <;> rfl

@[simp]
theorem find?_list (items : List Json) :
    find? kind (.list items) = items.findSome? (find? kind) := findInItems?_eq items

theorem findInFields?_eq (fields : List (String × Json)) :
    findInFields? kind fields =
      fields.findSome? fun entry => if entry.1 = "kind" then none else find? kind entry.2 := by
  induction fields with
  | nil => rfl
  | cons entry rest ih =>
      obtain ⟨key, value⟩ := entry
      rw [findInFields?, ih, List.findSome?_cons]
      split
      · rfl
      · cases find? kind value <;> rfl

@[simp]
theorem find?_location (place : Place) : find? kind place.location = none := by
  simp [Place.location, Json.object, Fields.ofList, Fields.set, find?, Fields.get?, findInFields?,
    Json.natural]

/-- The first record of a kind in an object of another kind is that of a field. -/
theorem find?_object {entries : List (String × Json)} {own : Kind}
    (named : Fields.last? "kind" entries = some (Json.word own.symbol)) :
    find? kind (Json.object entries) =
      if own = kind then some (Json.object entries)
      else findInFields? kind (Fields.ofList entries) := by
  have symbols : Text.word own.symbol = Text.word kind.symbol ↔ own = kind := by
    constructor
    · intro same
      have kinds := congrArg Kind.ofSymbol? same
      rw [Kind.ofSymbol?_symbol, Kind.ofSymbol?_symbol] at kinds
      exact Option.some.inj kinds
    · rintro rfl
      rfl
  rw [Json.object, find?, Fields.get?_ofList, named]
  simp [Json.word, Json.asText?, symbols]

/-- Searching a value goes as far as some branches do: what is found describes one of them,
and nothing is found only if there are none. -/
structure Finds (kind : Kind) (value : Json) (branches : List (Branch Origin)) : Prop where
  found : ∀ record, find? kind value = some record → ∃ branch ∈ branches, Describes record branch
  missing : find? kind value = none → branches = []

theorem Finds.list {α : Type} {items : List α} {value : α → Json} {tree : α → Branch Origin}
    (each : ∀ item ∈ items, Finds kind (value item) ((tree item).outermost kind)) :
    Finds kind (.list (items.map value)) ((items.map tree).flatMap (Branch.outermost kind)) := by
  constructor
  · intro record found
    rw [find?_list, List.findSome?_map] at found
    obtain ⟨item, member, here⟩ := List.exists_of_findSome?_eq_some found
    obtain ⟨branch, inside, described⟩ := (each item member).found record here
    exact ⟨branch, List.mem_flatMap.mpr ⟨_, List.mem_map_of_mem member, inside⟩, described⟩
  · intro none
    rw [find?_list, List.findSome?_map, List.findSome?_eq_none_iff] at none
    rw [List.flatMap_map, List.flatMap_eq_nil_iff]
    exact fun item member => (each item member).missing (none item member)

theorem Finds.append {as bs : List Json} {front back : List (Branch Origin)}
    (before : Finds kind (.list as) front) (behind : Finds kind (.list bs) back) :
    Finds kind (.list (as ++ bs)) (front ++ back) := by
  constructor
  · intro record found
    rw [find?_list, List.findSome?_append, ← find?_list, ← find?_list,
      Option.or_eq_some_iff] at found
    rcases found with found | ⟨_, found⟩
    · obtain ⟨branch, inside, described⟩ := before.found record found
      exact ⟨branch, List.mem_append_left _ inside, described⟩
    · obtain ⟨branch, inside, described⟩ := behind.found record found
      exact ⟨branch, List.mem_append_right _ inside, described⟩
  · intro none
    rw [find?_list, List.findSome?_append, ← find?_list, ← find?_list, Option.or_eq_none_iff] at none
    rw [before.missing none.1, behind.missing none.2]
    rfl

/-- An optional part is found where it is given. -/
theorem Finds.single {α : Type} {item : Option α} {value : α → Json} {tree : α → Branch Origin}
    (each : ∀ given ∈ item, Finds kind (value given) ((tree given).outermost kind)) :
    Finds kind ((item.map value).getD .null)
      ((item.toList.map tree).flatMap (Branch.outermost kind)) := by
  cases item with
  | none => exact ⟨fun record found => by simp at found, fun _ => rfl⟩
  | some given => simpa using each given rfl

/-- What is searched for is not in the fields in front, so it is found in the parts behind them. -/
theorem finds_parts {front : List (String × Json)}
    {parts : List ((String × Json) × List (Branch Origin))}
    (searched : find? kind (Json.object (front ++ parts.map Prod.fst)) =
      findInFields? kind (Fields.ofList (front ++ parts.map Prod.fst)))
    (plain : ∀ entry ∈ front, entry.1 ≠ "kind" → find? kind entry.2 = none)
    (keys : ("kind" :: (parts.map Prod.fst).map Prod.fst).Nodup)
    (each : ∀ part ∈ parts, Finds kind part.1.2 (part.2.flatMap (Branch.outermost kind))) :
    Finds kind (Json.object (front ++ parts.map Prod.fst))
      (parts.flatMap fun part => part.2.flatMap (Branch.outermost kind)) := by
  obtain ⟨absent, distinct⟩ := List.nodup_cons.mp keys
  rw [findInFields?_eq] at searched
  constructor
  · intro record found
    rw [searched] at found
    obtain ⟨entry, member, found⟩ := List.exists_of_findSome?_eq_some found
    split at found
    · cases found
    · next other =>
      rcases List.mem_append.mp (Fields.mem_of_mem_ofList member) with member | member
      · rw [plain entry member other] at found
        cases found
      · obtain ⟨part, inside, rfl⟩ := List.mem_map.mp member
        obtain ⟨inner, among, described⟩ := (each part inside).found record found
        exact ⟨inner, List.mem_flatMap.mpr ⟨part, inside, among⟩, described⟩
  · intro none
    rw [searched, List.findSome?_eq_none_iff] at none
    rw [List.flatMap_eq_nil_iff]
    intro part inside
    have member : part.1 ∈ parts.map Prod.fst := List.mem_map_of_mem inside
    have last : (Fields.ofList (front ++ parts.map Prod.fst)).get? part.1.1 = some part.1.2 := by
      rw [Fields.get?_ofList, Fields.last?_append, Fields.last?_of_mem distinct member,
        Option.some_or]
    have unfound := none part.1 (Fields.mem_of_get? last)
    have other : part.1.1 ≠ "kind" := fun same => absent (same ▸ List.mem_map_of_mem member)
    rw [if_neg other] at unfound
    exact (each part inside).missing unfound

/-- A record of an element is found itself, or what is found is in one of the fields that hold
its parts. -/
theorem finds_construct {front : List (String × Json)} {own : Kind} {branch : Branch Origin}
    {parts : List ((String × Json) × List (Branch Origin))}
    (named : Fields.last? "kind" front = some (Json.word own.symbol))
    (plain : ∀ entry ∈ front, entry.1 ≠ "kind" → find? kind entry.2 = none)
    (keys : ("kind" :: (parts.map Prod.fst).map Prod.fst).Nodup) (itself : branch.kind = own)
    (described : Describes (Json.object (front ++ parts.map Prod.fst)) branch)
    (each : ∀ part ∈ parts, Finds kind part.1.2 (part.2.flatMap (Branch.outermost kind)))
    (whole : parts.flatMap Prod.snd = branch.children) :
    Finds kind (Json.object (front ++ parts.map Prod.fst)) (branch.outermost kind) := by
  obtain ⟨label, element, children⟩ := branch
  have absent := (List.nodup_cons.mp keys).1
  have searched : find? kind (Json.object (front ++ parts.map Prod.fst)) = _ :=
    find?_object (by rw [Fields.last?_append, Fields.last?_eq_none absent, named, Option.none_or])
  rw [Branch.outermost_node]
  by_cases here : own = kind
  · rw [if_pos here] at searched
    rw [if_pos (show element.kind = kind from itself.trans here)]
    constructor
    · intro record same
      rw [searched] at same
      cases same
      exact ⟨_, List.mem_singleton_self _, described⟩
    · intro none
      rw [searched] at none
      cases none
  · rw [if_neg here] at searched
    rw [if_neg (show element.kind ≠ kind from fun same => here (itself.symm.trans same))]
    rw [← show _ = children from whole, List.flatMap_assoc]
    exact finds_parts searched plain keys each

end Fragment

namespace Document

open Fragment

variable {kind : Kind}

theorem Tag.finds (tag : Tag) : Finds kind tag.record (tag.branch.outermost kind) :=
  @finds_construct kind [("kind", _), ("location", _), ("name", _)] .tag _ []
    (by simp) (by simp) (by simp) rfl tag.record_describes (by simp) rfl

theorem find?_cellRecord (apart : kind ≠ .cell) (line : Nat) (cell : Cell) :
    find? kind (cellRecord line cell) = none := by
  rw [cellRecord, @find?_object kind _ .cell (by simp), if_neg apart.symm, findInFields?_eq,
    List.findSome?_eq_none_iff]
  intro entry member
  have listed := Fields.mem_of_mem_ofList member
  have place : find? kind (Json.object [("line", Json.natural line)]) = none :=
    find?_location ⟨line, 0⟩
  simp only [List.mem_cons, List.not_mem_nil, or_false] at listed
  rcases listed with rfl | rfl | rfl <;> simp [place]

section Constructs

variable (apart : kind ≠ .cell)

include apart

theorem Row.finds (row : Row) : Finds kind row.record (row.branch.outermost kind) := by
  have cells : find? kind (.list (row.cells.map (cellRecord row.place.line))) = none := by
    rw [find?_list, List.findSome?_map, List.findSome?_eq_none_iff]
    exact fun cell _ => find?_cellRecord apart _ cell
  exact @finds_construct kind [("kind", _), ("location", _), ("cells", _)] .row _ []
    (by simp) (by simpa using cells) (by simp) rfl row.record_describes (by simp) rfl

theorem Argument.finds (argument : Argument) :
    Finds kind argument.record (argument.branch.outermost kind) := by
  cases argument with
  | table place rows =>
      have found : Finds kind (.list (rows.map Row.record)) _ := .list fun row _ => row.finds apart
      exact @finds_construct kind [("kind", _), ("location", _)] .table _
        [(("rows", _), rows.map Row.branch)] (by simp) (by simp) (by simp) rfl
        (Argument.record_describes (.table place rows)) (List.forall_mem_singleton.mpr found)
        (List.append_nil _)
  | docString place fence contentType content =>
      have type : find? kind ((contentType.map Json.text).getD .null) = none := by
        cases contentType <;> simp
      exact @finds_construct kind [("kind", _), ("location", _), ("content_type", _),
        ("contents", _)] .docString _ [] (by simp) (by simpa using type) (by simp) rfl
        (Argument.record_describes (.docString place fence contentType content)) (by simp) rfl

theorem Step.finds (step : Step) : Finds kind step.record (step.branch.outermost kind) := by
  have found : Finds kind ((step.argument.map Argument.record).getD .null) _ :=
    .single fun argument _ => argument.finds apart
  exact @finds_construct kind [("kind", _), ("keyword", _), ("text", _), ("location", _)] .step _
    [(("block", _), step.argument.toList.map Argument.branch)] (by simp) (by simp) (by simp) rfl
    step.record_describes (List.forall_mem_singleton.mpr found) (List.append_nil _)

omit apart in
theorem find?_header {header : Header} {own : Kind} :
    ∀ entry ∈ header.fields own, entry.1 ≠ "kind" → find? kind entry.2 = none := by
  simp [Header.fields]

theorem Background.finds (background : Background) :
    Finds kind background.record (background.branch.outermost kind) := by
  have found : Finds kind (.list (background.steps.map Step.record)) _ :=
    .list fun step _ => step.finds apart
  exact @finds_construct kind (background.header.fields .background) .background _
    [(("steps", _), background.steps.map Step.branch)] (by simp [Header.fields]) find?_header
    (by simp) rfl background.record_describes (List.forall_mem_singleton.mpr found)
    (List.append_nil _)

theorem Examples.finds (examples : Examples) :
    Finds kind examples.record (examples.branch.outermost kind) := by
  have tags : Finds kind (.list (examples.tags.map Tag.record)) _ := .list fun tag _ => tag.finds
  have rows : Finds kind (.list (examples.rows.map Row.record)) _ :=
    .list fun row _ => row.finds apart
  exact @finds_construct kind (examples.header.fields .example) .example _
    [(("tags", _), examples.tags.map Tag.branch), (("rows", _), examples.rows.map Row.branch)]
    (by simp [Header.fields]) find?_header (by simp) rfl examples.record_describes
    (List.forall_mem_cons.mpr ⟨tags, List.forall_mem_singleton.mpr rows⟩)
    (by simp [Examples.branch, Branch.children])

theorem Scenario.finds (scenario : Scenario) :
    Finds kind scenario.record (scenario.branch.outermost kind) := by
  have tags : Finds kind (.list (scenario.tags.map Tag.record)) _ := .list fun tag _ => tag.finds
  have steps : Finds kind (.list (scenario.steps.map Step.record)) _ :=
    .list fun step _ => step.finds apart
  have blocks : Finds kind (.list (scenario.examples.map Examples.record)) _ :=
    .list fun block _ => block.finds apart
  have described := scenario.record_describes
  rw [Scenario.record, Scenario.branch] at described ⊢
  by_cases outline : scenario.isOutline = true
  · rw [if_pos outline, if_pos outline] at described ⊢
    exact @finds_construct kind (scenario.header.fields .outline) .outline _
      [(("tags", _), scenario.tags.map Tag.branch), (("steps", _), scenario.steps.map Step.branch),
        (("examples", _), scenario.examples.map Examples.branch)] (by simp [Header.fields])
      find?_header (by simp) rfl described (List.forall_mem_cons.mpr ⟨tags,
        List.forall_mem_cons.mpr ⟨steps, List.forall_mem_singleton.mpr blocks⟩⟩)
      (by simp [Branch.children])
  · rw [if_neg outline, if_neg outline] at described ⊢
    exact @finds_construct kind (scenario.header.fields .scenario) .scenario _
      [(("tags", _), scenario.tags.map Tag.branch), (("steps", _), scenario.steps.map Step.branch)]
      (by simp [Header.fields]) find?_header (by simp) rfl described
      (List.forall_mem_cons.mpr ⟨tags, List.forall_mem_singleton.mpr steps⟩)
      (by simp [Branch.children])

theorem Body.finds (body : Body) :
    Finds kind (.list body.records) (body.branches.flatMap (Branch.outermost kind)) := by
  rw [Body.branches, List.flatMap_append]
  exact .append (.list fun background _ => background.finds apart)
    (.list fun test _ => test.finds apart)

theorem Rule.finds (rule : Rule) : Finds kind rule.record (rule.branch.outermost kind) := by
  have tags : Finds kind (.list (rule.tags.map Tag.record)) _ := .list fun tag _ => tag.finds
  exact @finds_construct kind (rule.header.fields .rule) .rule _
    [(("tags", _), rule.tags.map Tag.branch), (("children", _), rule.body.branches)]
    (by simp [Header.fields]) find?_header (by simp) rfl rule.record_describes
    (List.forall_mem_cons.mpr ⟨tags, List.forall_mem_singleton.mpr (rule.body.finds apart)⟩)
    (by simp [Rule.branch, Branch.children])

theorem Feature.finds (feature : Feature) :
    Finds kind feature.record (feature.branch.outermost kind) := by
  have tags : Finds kind (.list (feature.tags.map Tag.record)) _ := .list fun tag _ => tag.finds
  have children : Finds kind (.list (feature.body.records ++ feature.rules.map Rule.record))
      ((feature.body.branches ++ feature.rules.map Rule.branch).flatMap
        (Branch.outermost kind)) := by
    rw [List.flatMap_append]
    exact (feature.body.finds apart).append (.list fun rule _ => rule.finds apart)
  have language : Finds kind (.text feature.language) [] := ⟨by simp, fun _ => rfl⟩
  exact @finds_construct kind (feature.header.fields .feature) .feature _
    [(("language", _), []), (("tags", _), feature.tags.map Tag.branch),
      (("children", _), feature.body.branches ++ feature.rules.map Rule.branch)]
    (by simp [Header.fields]) find?_header (by simp) rfl feature.record_describes
    (List.forall_mem_cons.mpr ⟨language,
      List.forall_mem_cons.mpr ⟨tags, List.forall_mem_singleton.mpr children⟩⟩)
    (by simp [Feature.branch, Branch.children])

/-- The record that is located for a kind describes an outermost branch of this kind. -/
theorem finds (uri : Text) (document : Document) :
    Finds kind (.fields (document.record uri)) ((document.branch uri).outermost kind) := by
  have found : Finds kind ((document.feature.map Feature.record).getD .null) _ :=
    .single fun feature _ => feature.finds apart
  exact @finds_construct kind [("kind", _), ("uri", _)] .featureFile _
    [(("feature", _), document.feature.toList.map Feature.branch)] (by simp) (by simp) (by simp)
    rfl ⟨_, rfl, document.branch_record uri⟩ (List.forall_mem_singleton.mpr found)
    (List.append_nil _)

end Constructs

end Document

end Gherkin
