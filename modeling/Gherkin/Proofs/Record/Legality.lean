import Gherkin.Proofs.Record.Branch

/-!
# Legal records

A record is legal if its kind and the kinds of all records below it are known, every field holds
what it is meant for, no two backgrounds stand side by side, and the cells of rows are cells.
The legal records are exactly those that describe a branch.
-/

namespace Gherkin

/-! ## Lists side by side -/

section

variable {α β : Type} {R : α → β → Prop} {as : List α} {bs : List β}

theorem exists_of_forall₂ (related : List.Forall₂ R as bs) :
    ∀ a ∈ as, ∃ b ∈ bs, R a b := by
  induction related with
  | nil => simp
  | cons here _ ih =>
    rw [List.forall_mem_cons]
    refine ⟨⟨_, List.mem_cons_self, here⟩, fun a member => ?_⟩
    obtain ⟨b, inside, there⟩ := ih a member
    exact ⟨b, List.mem_cons_of_mem _ inside, there⟩

theorem exists_forall₂ (each : ∀ a ∈ as, ∃ b, R a b) : ∃ bs, List.Forall₂ R as bs := by
  induction as with
  | nil => exact ⟨[], .nil⟩
  | cons a rest ih =>
    obtain ⟨⟨b, here⟩, each⟩ := List.forall_mem_cons.mp each
    obtain ⟨bs, there⟩ := ih each
    exact ⟨b :: bs, .cons here there⟩

/-- What holds of any two items of a list holds of any two items of a list beside it. -/
theorem pairwise_of_forall₂ {P : α → α → Prop} {Q : β → β → Prop}
    (related : List.Forall₂ R as bs) (apart : as.Pairwise P)
    (transfer : ∀ a a' b b', R a b → R a' b' → P a a' → Q b b') : bs.Pairwise Q := by
  induction related with
  | nil => exact .nil
  | cons here others ih =>
    obtain ⟨first, later⟩ := List.pairwise_cons.mp apart
    refine .cons (fun b member => ?_) (ih later)
    obtain ⟨a, inside, there⟩ := exists_of_forall₂ others.flip b member
    exact transfer _ _ _ _ here there (first a inside)

end

namespace Record

variable {record : Record} {kind : Kind} {field : ChildField}

/-- A record declares a kind by its name. -/
def Declares (record : Record) (kind : Kind) : Prop :=
  record.get? "kind" = some (Json.word kind.symbol)

/-- A field of a record holds some records: none if it is missing or null, those of a list, or a
single one. -/
inductive Carries (record : Record) (field : ChildField) : List Record → Prop where
  | missing (absent : record.get? field.key = none) : Carries record field []
  | null (empty : record.get? field.key = some .null) : Carries record field []
  | list {records : List Record} (isList : field.isList = true)
      (held : record.get? field.key = some (.list (records.map Json.fields))) :
      Carries record field records
  | single {inner : Record} (alone : field.isList = false)
      (held : record.get? field.key = some (.fields inner)) : Carries record field [inner]

/-- The field that holds the cells of a row. -/
def cellField : ChildField := ⟨"cells", true, []⟩

/-- An element of a kind may have a child of another kind in a field: the field is for the slot
that the child lives in, and the element has this slot. -/
def ChildField.Takes (field : ChildField) (parent child : Kind) : Prop :=
  ∃ slot ∈ field.homes, slot ∈ parent.slots ∧ slot.accepts child = true

/-- A record that describes an element with all that is below it. -/
inductive Legal : Record → Prop where
  | intro {record : Record} {kind : Kind} (records : ChildField → List Record)
      (named : record.Declares kind) (isElement : kind ≠ .cell)
      (carries : ∀ field ∈ childFields kind, record.Carries field (records field))
      (taken : ∀ field ∈ childFields kind, ∀ inner ∈ records field,
        ∃ child, inner.Declares child ∧ field.Takes kind child)
      (oneBackground : ∀ field ∈ childFields kind, (records field).Pairwise fun a b =>
        ¬ (a.Declares .background ∧ b.Declares .background))
      (cells : kind = .row → ∃ cells, record.Carries cellField cells ∧
        ∀ cell ∈ cells, cell.Declares .cell)
      (below : ∀ field ∈ childFields kind, ∀ inner ∈ records field, Legal inner) : Legal record

/-- Features and rules have backgrounds, scenarios and outlines as children, and features have
rules besides. -/
theorem takes_children_iff {parent child : Kind} (either : parent = .feature ∨ parent = .rule) :
    ChildField.Takes ⟨"children", true, [.background, .tests, .rules]⟩ parent child ↔
      child = .background ∨ child = .scenario ∨ child = .outline ∨
        child = .rule ∧ parent = .feature := by
  rcases either with rfl | rfl <;> cases child <;>
    simp [ChildField.Takes, Slot.accepts, Kind.home, Kind.slots]

/-! ## Fields -/

theorem kind_eq_ok_iff : record.kind = .ok kind ↔ record.Declares kind := by
  unfold Record.kind Declares
  constructor
  · intro named
    split at named
    · cases named
    · next name found =>
      split at named
      · next known here =>
        cases named
        have same : Text.word kind.symbol = name := by simpa using List.find?_some here
        rw [found, ← same]
        rfl
      · cases named
    · cases named
  · intro named
    rw [named]
    simp [Json.word, Kind.ofSymbol?_symbol]

theorem Declares.unique {other : Kind} (named : record.Declares kind)
    (again : record.Declares other) : kind = other := by
  rw [← kind_eq_ok_iff] at named again
  exact Except.ok.inj (named.symm.trans again)

theorem ofItems_eq_ok_iff {key : String} {items : List Json} {records : List Record} :
    ofItems key items = .ok records ↔ items = records.map Json.fields := by
  induction items generalizing records with
  | nil => cases records <;> simp [ofItems]
  | cons item rest ih =>
    cases item with
    | fields inner =>
      rw [ofItems, Json.asFields?]
      change (ofItems key rest >>= fun records => Except.ok (inner :: records)) = _ ↔ _
      rw [Except.bind_eq_ok_iff]
      cases records with
      | nil => simp
      | cons first others =>
        simp only [ih, Except.ok.injEq, List.cons.injEq, List.map_cons, Json.fields.injEq]
        constructor
        · rintro ⟨_, same, first, others⟩
          exact ⟨first, others ▸ same⟩
        · rintro ⟨first, same⟩
          exact ⟨others, same, first, rfl⟩
    | _ => cases records <;> simp [ofItems, Json.asFields?]

theorem inField_eq_ok_iff {records : List Record} :
    record.inField field = .ok records ↔ record.Carries field records := by
  unfold inField
  constructor
  · intro read
    split at read
    · next isList =>
      unfold list at read
      split at read
      · next absent =>
        cases read
        exact .missing absent
      · next empty =>
        cases read
        exact .null empty
      · next items held =>
        rw [ofItems_eq_ok_iff] at read
        exact .list isList (read ▸ held)
      · cases read
    · next alone =>
      obtain ⟨found, read, same⟩ := Except.map_eq_ok_iff.mp read
      subst same
      unfold single at read
      split at read
      · next absent =>
        injection read with read
        exact read ▸ .missing absent
      · next empty =>
        injection read with read
        exact read ▸ .null empty
      · next inner held =>
        injection read with read
        exact read ▸ .single (by simpa using alone) held
      · cases read
  · intro carries
    cases carries with
    | missing absent => split <;> simp [list, single, absent, Except.map]
    | null empty => split <;> simp [list, single, empty, Except.map]
    | list isList held => simp [isList, list, held, ofItems_eq_ok_iff]
    | single alone held => simp [alone, single, held, Except.map]

/-! ## Elements -/

theorem cellValues_eq_ok_iff {cells : List Record} {values : List Text} :
    cellValues cells = .ok values ↔
      (∀ cell ∈ cells, cell.Declares .cell) ∧ values = cells.map (text "value") := by
  induction cells generalizing values with
  | nil => simp [cellValues, eq_comm]
  | cons cell rest ih =>
    rw [cellValues, Except.bind_eq_ok_iff, List.forall_mem_cons, List.map_cons]
    constructor
    · rintro ⟨kind, named, read⟩
      split at read
      · next isCell =>
        subst isCell
        obtain ⟨others, later, same⟩ := Except.bind_eq_ok_iff.mp read
        cases same
        obtain ⟨declared, rfl⟩ := ih.mp later
        exact ⟨⟨kind_eq_ok_iff.1 named, declared⟩, rfl⟩
      · cases read
    · rintro ⟨⟨here, later⟩, rfl⟩
      refine ⟨.cell, kind_eq_ok_iff.2 here, ?_⟩
      rw [if_pos rfl, ih.mpr ⟨later, rfl⟩]
      rfl

/-- The element of a row has the values of its cells. -/
theorem element_row_eq_ok_iff {element : Element} :
    record.element .row = .ok element ↔ ∃ cells, record.Carries cellField cells ∧
      (∀ cell ∈ cells, cell.Declares .cell) ∧ element = .row (cells.map (text "value")) := by
  have read (cells : List Record) :
      record.list "cells" = .ok cells ↔ record.Carries cellField cells := by
    rw [← inField_eq_ok_iff]
    rfl
  change (record.list "cells" >>= fun cells => cellValues cells >>= fun values =>
    Except.ok (Element.row values)) = _ ↔ _
  simp only [Except.bind_eq_ok_iff, read, cellValues_eq_ok_iff, Except.ok.injEq]
  constructor
  · rintro ⟨cells, carries, _, ⟨declared, rfl⟩, rfl⟩
    exact ⟨cells, carries, declared, rfl⟩
  · rintro ⟨cells, carries, declared, rfl⟩
    exact ⟨cells, carries, _, ⟨declared, rfl⟩, rfl⟩

theorem exists_element_iff :
    (∃ element, record.element kind = .ok element) ↔ kind ≠ .cell ∧
      (kind = .row → ∃ cells, record.Carries cellField cells ∧
        ∀ cell ∈ cells, cell.Declares .cell) := by
  cases kind with
  | row =>
    constructor
    · rintro ⟨_, read⟩
      obtain ⟨cells, carries, declared, _⟩ := element_row_eq_ok_iff.1 read
      exact ⟨by decide, fun _ => ⟨cells, carries, declared⟩⟩
    · rintro ⟨_, cells⟩
      obtain ⟨cells, carries, declared⟩ := cells rfl
      exact ⟨_, element_row_eq_ok_iff.2 ⟨cells, carries, declared, rfl⟩⟩
  | _ => simp [element]

/-! ## Children in their slots -/

theorem eq_of_isSingle {parent : Kind} :
    ∀ slot ∈ parent.slots, ∀ other ∈ parent.slots, slot.isSingle = true → other.isSingle = true →
      slot = other := by
  cases parent <;> decide

theorem isSole_iff : kind.isSole = true ↔ ∃ slot, kind.home = some slot ∧ slot.isSingle = true := by
  simp [Kind.isSole, Option.any_eq_true]

/-- What holds of the children of an element as they are placed one behind the other. -/
structure Placed (parent : Kind) (children : List (Branch Origin)) : Prop where
  room : HasRoom children
  owned : ∀ child ∈ children, ∃ slot ∈ parent.slots, child.kind.home = some slot

theorem Placed.place {parent : Kind} {slot : Slot} {siblings children : List (Branch Origin)}
    {child : Branch Origin} (placed : Placed parent siblings)
    (home : child.kind.home = some slot)
    (added : place parent slot siblings child = .ok children) :
    slot ∈ parent.slots ∧ children = siblings ++ [child] ∧ Placed parent children := by
  obtain ⟨taken, vacant, rfl⟩ := place_eq_ok_iff.1 added
  refine ⟨taken, rfl, ?_, ?_⟩
  · have before := placed.room
    unfold HasRoom at before ⊢
    rw [List.filter_append, List.length_append]
    by_cases single : slot.isSingle = true
    · -- A sibling in a slot for one child would be in this very slot, which is vacant.
      have none : siblings.filter (fun sibling => sibling.kind.isSole) = [] := by
        refine List.filter_eq_nil_iff.mpr fun sibling member sole => ?_
        obtain ⟨other, found, otherSingle⟩ := isSole_iff.1 sole
        obtain ⟨owner, owned, here⟩ := placed.owned sibling member
        cases found.symm.trans here
        cases eq_of_isSingle other owned slot taken otherSingle single
        exact vacant single sibling member here
      rw [none, List.length_nil, Nat.zero_add]
      exact List.length_filter_le _ [child]
    · have none : [child].filter (fun sibling => sibling.kind.isSole) = [] := by
        simp [Kind.isSole, home, single]
      rw [none]
      exact before
  · rw [List.forall_mem_append]
    exact ⟨placed.owned, List.forall_mem_singleton.mpr ⟨slot, taken, home⟩⟩

theorem exists_child_of_addChild {parent : Kind} {siblings children : List (Branch Origin)}
    {inner : Record} (placed : Placed parent siblings)
    (added : addChild parent field siblings inner = .ok children) :
    ∃ child, inner.branch = .ok child ∧
      (∃ slot ∈ field.homes, child.kind.home = some slot ∧ slot ∈ parent.slots) ∧
      children = siblings ++ [child] ∧ Placed parent children := by
  obtain ⟨slot, homed, added⟩ := Except.bind_eq_ok_iff.mp added
  obtain ⟨child, described, added⟩ := Except.bind_eq_ok_iff.mp added
  have home := home_of_homeIn homed described
  obtain ⟨taken, whole, after⟩ := placed.place home added
  refine ⟨child, described, ⟨slot, ?_, home, taken⟩, whole, after⟩
  obtain ⟨kind, named, homed⟩ := Except.bind_eq_ok_iff.mp homed
  cases (kind_of_branch described).symm.trans named
  simp only [home] at homed
  split at homed
  · next allowed =>
    cases homed
    simpa using allowed
  · cases homed

theorem exists_fills_of_addField {parent : Kind} {siblings after : List (Branch Origin)}
    (placed : Placed parent siblings)
    (added : record.addField parent siblings field = .ok after) :
    ∃ children, Fills record parent field children ∧ after = siblings ++ children ∧
      Placed parent after := by
  obtain ⟨records, read, folded⟩ := Except.bind_eq_ok_iff.mp added
  suffices ∃ children, List.Forall₂ (fun inner child => branch inner = .ok child) records children ∧
      (∀ child ∈ children, ∃ slot ∈ field.homes, child.kind.home = some slot ∧
        slot ∈ parent.slots) ∧ after = siblings ++ children ∧ Placed parent after by
    obtain ⟨children, described, homes, whole, done⟩ := this
    exact ⟨children, ⟨⟨records, read, described⟩, homes⟩, whole, done⟩
  clear read added
  induction records generalizing siblings with
  | nil =>
    cases folded
    exact ⟨[], .nil, by simp, (List.append_nil _).symm, placed⟩
  | cons inner rest ih =>
    rw [List.foldlM_cons] at folded
    obtain ⟨middle, first, folded⟩ := Except.bind_eq_ok_iff.mp folded
    obtain ⟨child, described, home, rfl, between⟩ := exists_child_of_addChild placed first
    obtain ⟨children, others, homes, rfl, done⟩ := ih between folded
    exact ⟨child :: children, .cons described others, List.forall_mem_cons.mpr ⟨home, homes⟩,
      by simp, done⟩

/-- A record describes an element with the children in its fields, of which at most one lives in
a slot for one child. -/
theorem exists_fills_of_branch {branch : Branch Origin} (described : record.branch = .ok branch) :
    ∃ kind element children, record.kind = .ok kind ∧ record.element kind = .ok element ∧
      List.Forall₂ (Fills record kind) (childFields kind) children ∧ HasRoom children.flatten ∧
      branch = .node ⟨record.line?, none⟩ element children.flatten := by
  rw [branch_eq] at described
  obtain ⟨kind, named, described⟩ := Except.bind_eq_ok_iff.mp described
  obtain ⟨element, itself, described⟩ := Except.bind_eq_ok_iff.mp described
  obtain ⟨below, folded, same⟩ := Except.bind_eq_ok_iff.mp described
  cases same
  have filled (fields : List ChildField) (siblings : List (Branch Origin))
      (placed : Placed kind siblings)
      (folded : fields.foldlM (record.addField kind) siblings = .ok below) :
      ∃ children, List.Forall₂ (Fills record kind) fields children ∧
        below = siblings ++ children.flatten ∧ Placed kind below := by
    induction fields generalizing siblings with
    | nil =>
      cases folded
      exact ⟨[], .nil, (List.append_nil _).symm, placed⟩
    | cons field rest ih =>
      rw [List.foldlM_cons] at folded
      obtain ⟨middle, first, folded⟩ := Except.bind_eq_ok_iff.mp folded
      obtain ⟨part, fills, rfl, between⟩ := exists_fills_of_addField placed first
      obtain ⟨parts, others, rfl, done⟩ := ih _ between folded
      exact ⟨part :: parts, .cons fills others, by simp, done⟩
  obtain ⟨children, fills, rfl, placed⟩ := filled _ [] ⟨by simp [HasRoom], by simp⟩ folded
  exact ⟨kind, element, children, named, itself, fills, placed.room, rfl⟩

/-! ## Room for the children -/

theorem hasRoom_iff {children : List (Branch Origin)} :
    HasRoom children ↔
      children.Pairwise fun a b => ¬ (a.kind.isSole = true ∧ b.kind.isSole = true) := by
  unfold HasRoom
  induction children with
  | nil => simp
  | cons child rest ih =>
    rw [List.filter_cons, List.pairwise_cons, ← ih]
    by_cases sole : child.kind.isSole = true
    · rw [if_pos sole, List.length_cons]
      constructor
      · intro few
        have none : rest.filter (fun other => other.kind.isSole) = [] :=
          List.length_eq_zero_iff.mp (by omega)
        refine ⟨fun other member both => ?_, by omega⟩
        exact List.filter_eq_nil_iff.mp none other member both.2
      · rintro ⟨apart, _⟩
        have none : rest.filter (fun other => other.kind.isSole) = [] :=
          List.filter_eq_nil_iff.mpr fun other member also => apart other member ⟨sole, also⟩
        rw [none]
        exact Nat.le_refl 1
    · simp [sole]

/-- The only kind that at most one child in a list is of is that of backgrounds. -/
theorem eq_background_of_isSole {parent child : Kind} (sole : child.isSole = true) :
    ∀ field ∈ childFields parent, field.isList = true →
      (∃ slot ∈ field.homes, child.home = some slot) → child = .background := by
  revert sole
  cases parent <;> cases child <;> decide

/-- No two fields of a kind are for slots for one child. -/
theorem pairwise_childFields (parent : Kind) : (childFields parent).Pairwise fun a b =>
    ∀ slot ∈ a.homes, ∀ other ∈ b.homes, ¬ (slot.isSingle = true ∧ other.isSingle = true) := by
  cases parent <;> decide

theorem Fills.exists_isSingle {parent : Kind} {children : List (Branch Origin)}
    {child : Branch Origin} (fills : Fills record parent field children)
    (member : child ∈ children) (sole : child.kind.isSole = true) :
    ∃ slot ∈ field.homes, slot.isSingle = true := by
  obtain ⟨slot, allowed, home, _⟩ := fills.placed child member
  obtain ⟨other, found, single⟩ := isSole_iff.1 sole
  cases home.symm.trans found
  exact ⟨slot, allowed, single⟩

/-- The children in fields with at most one background each have room. -/
theorem hasRoom_of_fills {parent : Kind} {children : List (List (Branch Origin))}
    {records : ChildField → List Record}
    (carries : ∀ field ∈ childFields parent, record.Carries field (records field))
    (oneBackground : ∀ field ∈ childFields parent, (records field).Pairwise fun a b =>
      ¬ (a.Declares .background ∧ b.Declares .background))
    (fills : List.Forall₂ (Fills record parent) (childFields parent) children) :
    HasRoom children.flatten := by
  rw [hasRoom_iff, List.pairwise_flatten]
  constructor
  · intro part member
    obtain ⟨field, inside, filled⟩ := exists_of_forall₂ fills.flip part member
    obtain ⟨⟨read, found, described⟩, placed⟩ := filled
    cases found.symm.trans (inField_eq_ok_iff.2 (carries field inside))
    cases isList : field.isList with
    | false =>
      -- A single record makes a single child.
      have few : part.length ≤ 1 := by
        rw [← described.length_eq]
        have held := carries field inside
        generalize records field = held' at held
        cases held with
        | list listed => simp [isList] at listed
        | _ => simp
      match part, few with
      | [], _ => exact .nil
      | [child], _ => exact List.pairwise_singleton ..
    | true =>
      have beside := (List.forall₂_and_left part _).mpr ⟨placed, described.flip⟩
      refine pairwise_of_forall₂ beside.flip (oneBackground field inside)
        fun a a' b b' here there apart both => apart ?_
      have background (inner : Record) (child : Branch Origin)
          (here : (∃ slot ∈ field.homes, child.kind.home = some slot ∧ slot ∈ parent.slots) ∧
            inner.branch = .ok child) (sole : child.kind.isSole = true) :
          inner.Declares .background := by
        obtain ⟨⟨slot, allowed, home, _⟩, described⟩ := here
        rw [← eq_background_of_isSole sole field inside isList ⟨slot, allowed, home⟩]
        exact kind_eq_ok_iff.1 (kind_of_branch described)
      exact ⟨background a b here both.1, background a' b' there both.2⟩
  · refine pairwise_of_forall₂ fills (pairwise_childFields parent) fun a a' part part' here there
      apart child member child' member' both => ?_
    obtain ⟨slot, allowed, single⟩ := here.exists_isSingle member both.1
    obtain ⟨other, allowed', single'⟩ := there.exists_isSingle member' both.2
    exact apart slot allowed other allowed' ⟨single, single'⟩

/-! ## Legal records describe branches -/

theorem legal_of_branch {record : Record} {branch : Branch Origin}
    (described : record.branch = .ok branch) : record.Legal := by
  obtain ⟨kind, element, children, named, itself, fills, room, rfl⟩ :=
    exists_fills_of_branch described
  have filled := exists_of_forall₂ fills
  have isElement := exists_element_iff.1 ⟨element, itself⟩
  have read : ∀ field ∈ childFields kind,
      record.inField field = .ok ((record.inField field).toOption.getD []) := by
    intro field inside
    obtain ⟨_, _, ⟨_, found, _⟩, _⟩ := filled field inside
    rw [found]
    rfl
  refine .intro (fun field => (record.inField field).toOption.getD [])
    (kind_eq_ok_iff.1 named) isElement.1
    (fun field inside => inField_eq_ok_iff.1 (read field inside)) ?_ ?_ isElement.2 ?_
  all_goals
    intro field inside
    obtain ⟨part, member, ⟨records, found, described⟩, placed⟩ := filled field inside
    cases found.symm.trans (read field inside)
  · intro inner held
    obtain ⟨child, among, described⟩ := exists_of_forall₂ described inner held
    obtain ⟨slot, allowed, home, taken⟩ := placed child among
    exact ⟨child.kind, kind_eq_ok_iff.1 (kind_of_branch described), slot, allowed, taken,
      Slot.accepts_iff.mpr home⟩
  · have apart := (hasRoom_iff.1 room).sublist (List.sublist_flatten_of_mem member)
    refine pairwise_of_forall₂ described.flip apart
      fun a a' inner inner' here there apart both => ?_
    have sole (inner : Record) (child : Branch Origin) (described : inner.branch = .ok child)
        (named : inner.Declares .background) : child.kind.isSole = true := by
      rw [(kind_eq_ok_iff.1 (kind_of_branch described)).unique named]
      rfl
    exact apart ⟨sole inner a here both.1, sole inner' a' there both.2⟩
  · intro inner held
    have := sizeOf_of_mem_inField (read field inside) held
    obtain ⟨child, _, described⟩ := exists_of_forall₂ described inner held
    exact legal_of_branch described
termination_by sizeOf record

theorem Legal.exists_branch (legal : record.Legal) : ∃ branch, record.branch = .ok branch := by
  induction legal with
  | @intro record kind records named isElement carries taken oneBackground cells _ ih =>
    obtain ⟨element, itself⟩ := exists_element_iff.2 ⟨isElement, cells⟩
    have filled : ∀ field ∈ childFields kind, ∃ part, Fills record kind field part := by
      intro field inside
      obtain ⟨part, described⟩ := exists_forall₂ (ih field inside)
      refine ⟨part, ⟨records field, inField_eq_ok_iff.2 (carries field inside), described⟩,
        fun child member => ?_⟩
      obtain ⟨inner, held, described⟩ := exists_of_forall₂ described.flip child member
      obtain ⟨other, declared, slot, allowed, owned, home⟩ := taken field inside inner held
      cases (kind_eq_ok_iff.1 (kind_of_branch described)).unique declared
      exact ⟨slot, allowed, Slot.accepts_iff.mp home, owned⟩
    obtain ⟨children, fills⟩ := exists_forall₂ filled
    exact ⟨_, branch_eq_ok (kind_eq_ok_iff.2 named) itself fills
      (hasRoom_of_fills carries oneBackground fills)⟩

/-- The legal records are those that describe a branch. -/
theorem exists_branch_iff_legal : (∃ branch, record.branch = .ok branch) ↔ record.Legal :=
  ⟨fun ⟨_, described⟩ => legal_of_branch described, Legal.exists_branch⟩

end Record

end Gherkin
