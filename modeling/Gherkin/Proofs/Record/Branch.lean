import Gherkin.Proofs.Json.Lookup
import Gherkin.Proofs.Outcome
import Gherkin.Record.Branch
import Mathlib.Data.List.Forall2

/-!
# Branches of records

A record whose children are all described, and stand in fields that take them,
describes the element with these children in the order of the fields.
-/

namespace Gherkin

/-- Whether an element can have at most one child of a kind. -/
def Kind.isSole (kind : Kind) : Bool := kind.home.any Slot.isSingle

namespace Record

theorem kind_ofList {entries : List (String × Json)} {kind : Kind}
    (named : Fields.last? "kind" entries = some (Json.word kind.symbol)) :
    Record.kind (Fields.ofList entries) = .ok kind := by
  unfold Record.kind
  rw [Fields.get?_ofList, named]
  simp [Json.word, Kind.ofSymbol?_symbol]

theorem kind_of_element {record : Record} {kind : Kind} {element : Element}
    (described : record.element kind = .ok element) : element.kind = kind := by
  cases kind with
  | row =>
      obtain ⟨cells, _, described⟩ := Except.bind_eq_ok_iff.mp described
      obtain ⟨values, _, described⟩ := Except.bind_eq_ok_iff.mp described
      cases described
      rfl
  | cell => cases described
  | _ =>
      cases described
      rfl

/-- The kind of a record is that of the branch it describes. -/
theorem kind_of_branch {record : Record} {branch : Branch Origin}
    (described : record.branch = .ok branch) : record.kind = .ok branch.kind := by
  rw [Record.branch] at described
  obtain ⟨kind, named, described⟩ := Except.bind_eq_ok_iff.mp described
  obtain ⟨element, itself, described⟩ := Except.bind_eq_ok_iff.mp described
  obtain ⟨children, _, described⟩ := Except.bind_eq_ok_iff.mp described
  cases described
  rw [named]
  exact congrArg Except.ok (kind_of_element itself).symm

/-- A branch lives in the slot that its record has in a field. -/
theorem home_of_homeIn {parent : Kind} {field : ChildField} {record : Record} {slot : Slot}
    {branch : Branch Origin} (homed : homeIn parent field record = .ok slot)
    (described : record.branch = .ok branch) : branch.kind.home = some slot := by
  obtain ⟨kind, named, homed⟩ := Except.bind_eq_ok_iff.mp homed
  rw [kind_of_branch described] at named
  cases named
  cases home : branch.kind.home with
  | none => simp [home] at homed
  | some found =>
    simp only [home] at homed
    split at homed
    · cases homed
      rfl
    · cases homed

/-- The records in a field describe children that may stand there. -/
structure Fills (record : Record) (parent : Kind) (field : ChildField)
    (children : List (Branch Origin)) : Prop where
  described : ∃ records, record.inField field = .ok records ∧
    List.Forall₂ (fun inner child => branch inner = .ok child) records children
  placed : ∀ child ∈ children, ∃ slot ∈ field.homes, child.kind.home = some slot ∧
    slot ∈ parent.slots

/-- At most one child is of a kind that an element has at most one child of. -/
def HasRoom (children : List (Branch Origin)) : Prop :=
  (children.filter fun child => child.kind.isSole).length ≤ 1

/-- A child is placed behind its siblings where its parent has the slot that it lives in, and
the slot is not one for a single child that is there already. -/
theorem place_eq_ok_iff {α : Type} {parent : Kind} {slot : Slot}
    {siblings children : List (Branch α)} {child : Branch α} :
    place parent slot siblings child = .ok children ↔
      slot ∈ parent.slots ∧
        (slot.isSingle = true → ∀ sibling ∈ siblings, sibling.kind.home ≠ some slot) ∧
          siblings ++ [child] = children := by
  unfold place
  split_ifs with absent full
  · simp_all
  · simp only [Bool.and_eq_true, List.any_eq_true, beq_iff_eq] at full
    obtain ⟨single, sibling, member, same⟩ := full
    exact ⟨nofun, fun ⟨_, room, _⟩ => absurd same (room single sibling member)⟩
  · simp_all

theorem place_eq_ok {parent : Kind} {slot : Slot} {siblings : List (Branch Origin)}
    {child : Branch Origin} (home : child.kind.home = some slot) (taken : slot ∈ parent.slots)
    (room : HasRoom (siblings ++ [child])) :
    place parent slot siblings child = .ok (siblings ++ [child]) := by
  refine place_eq_ok_iff.2 ⟨taken, fun single sibling member same => ?_, rfl⟩
  have sole (other : Branch Origin) (here : other.kind.home = some slot) :
      other.kind.isSole = true := by simp [Kind.isSole, here, single]
  have : 0 < (siblings.filter fun child => child.kind.isSole).length :=
    List.length_pos_of_mem (List.mem_filter.mpr ⟨member, sole sibling same⟩)
  unfold HasRoom at room
  rw [List.filter_append, List.length_append] at room
  have last : [child].filter (fun child => child.kind.isSole) = [child] := by
    simp [sole child home]
  rw [last, List.length_singleton] at room
  omega

/-- Adds the branch of a record in a field to the children before it. -/
def addChild (parent : Kind) (field : ChildField) (siblings : List (Branch Origin))
    (inner : Record) : Except Error (List (Branch Origin)) := do
  let slot ← homeIn parent field inner
  let child ← branch inner
  place parent slot siblings child

/-- Adds the branches of the records in a field to the children before them. -/
def addField (record : Record) (parent : Kind) (siblings : List (Branch Origin))
    (field : ChildField) : Except Error (List (Branch Origin)) := do
  let records ← record.inField field
  records.foldlM (addChild parent field) siblings

theorem branch_eq (record : Record) :
    record.branch = (do
      let kind ← record.kind
      let element ← record.element kind
      let children ← (childFields kind).foldlM (record.addField kind) []
      pure (.node ⟨record.line?, none⟩ element children)) := by
  rw [Record.branch]
  have same (kind : Kind) (siblings : List (Branch Origin)) (field : ChildField) :
      (do
        let records ← record.nested field
        records.foldlM (fun siblings inner => do
          let slot ← homeIn kind field inner.1
          let child ← branch inner.1
          place kind slot siblings child) siblings) = record.addField kind siblings field := by
    unfold addField Record.nested
    split
    · next records read =>
      simp only [read, bind, Except.bind]
      rw [List.foldlM_map]
      conv_rhs => rw [← List.attach_map_subtype_val records, List.foldlM_map]
      rfl
    · next error failed =>
      rw [failed]
      rfl
  simp only [same]

theorem addChild_eq_ok {parent : Kind} {field : ChildField} {siblings : List (Branch Origin)}
    {inner : Record} {child : Branch Origin} {slot : Slot} (described : inner.branch = .ok child)
    (allowed : slot ∈ field.homes) (home : child.kind.home = some slot)
    (taken : slot ∈ parent.slots) (room : HasRoom (siblings ++ [child])) :
    addChild parent field siblings inner = .ok (siblings ++ [child]) := by
  have homed : homeIn parent field inner = .ok slot := by
    unfold homeIn
    rw [kind_of_branch described]
    simp [bind, Except.bind, home, allowed, pure, Except.pure]
  unfold addChild
  rw [homed, described]
  exact place_eq_ok home taken room

/-- What one field adds to the children. -/
theorem addField_eq_ok {record : Record} {parent : Kind} {field : ChildField}
    {siblings children : List (Branch Origin)} (fills : Fills record parent field children)
    (room : HasRoom (siblings ++ children)) :
    record.addField parent siblings field = .ok (siblings ++ children) := by
  obtain ⟨⟨records, read, described⟩, placed⟩ := fills
  unfold addField
  rw [read]
  change records.foldlM (addChild parent field) siblings = _
  clear read
  induction described generalizing siblings with
  | nil =>
      rw [List.append_nil]
      rfl
  | @cons inner child records children here _ ih =>
      obtain ⟨slot, allowed, home, taken⟩ := placed child List.mem_cons_self
      have first : HasRoom (siblings ++ [child]) := by
        refine Nat.le_trans (List.Sublist.filter _ ?_).length_le room
        exact List.Sublist.append_left (List.singleton_sublist.mpr List.mem_cons_self) _
      rw [List.foldlM_cons, addChild_eq_ok here allowed home taken first]
      change records.foldlM (addChild parent field) (siblings ++ [child]) = _
      rw [ih (by simpa using room) fun other member => placed other (List.mem_cons_of_mem _ member),
        List.append_assoc, List.singleton_append]

/-- A record with filled fields describes its element with the children in the fields. -/
theorem branch_eq_ok {record : Record} {kind : Kind} {element : Element}
    {children : List (List (Branch Origin))} (named : record.kind = .ok kind)
    (itself : record.element kind = .ok element)
    (filled : List.Forall₂ (Fills record kind) (childFields kind) children)
    (room : HasRoom children.flatten) :
    record.branch = .ok (.node ⟨record.line?, none⟩ element children.flatten) := by
  have folded (fields : List ChildField) (children : List (List (Branch Origin)))
      (siblings : List (Branch Origin)) (filled : List.Forall₂ (Fills record kind) fields children)
      (room : HasRoom (siblings ++ children.flatten)) :
      fields.foldlM (record.addField kind) siblings = .ok (siblings ++ children.flatten) := by
    induction filled generalizing siblings with
    | nil =>
        rw [List.flatten_nil, List.append_nil]
        rfl
    | @cons field first fields children fills _ ih =>
        have here : HasRoom (siblings ++ first) := by
          refine Nat.le_trans (List.Sublist.filter _ ?_).length_le room
          rw [List.flatten_cons, ← List.append_assoc]
          exact List.sublist_append_left _ _
        rw [List.foldlM_cons, addField_eq_ok fills here]
        change fields.foldlM (record.addField kind) (siblings ++ first) = _
        rw [ih _ (by simpa using room), List.flatten_cons, List.append_assoc]
  rw [branch_eq, named]
  simp only [bind, Except.bind, itself]
  rw [folded _ children [] filled room]
  rfl

end Record

end Gherkin
