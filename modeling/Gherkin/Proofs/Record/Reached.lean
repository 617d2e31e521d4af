import Gherkin.Proofs.Record.Legality

/-!
# The records that a record reaches

A record reaches itself and whatever its fields reach, in preorder. The branch it describes has a
node for each of these records.
-/

namespace Gherkin

namespace Record

variable {record : Record}

/-- The records in the fields of the kind of a record, in the order of the fields. Cells are in no
such field. -/
def childRecords (record : Record) : List Record :=
  match record.kind with
  | .ok kind => (childFields kind).flatMap fun field => (record.inField field).toOption.getD []
  | .error _ => []

theorem childRecords_eq {kind : Kind} (named : record.kind = .ok kind) :
    record.childRecords =
      (childFields kind).flatMap fun field => (record.inField field).toOption.getD [] := by
  rw [childRecords, named]

theorem sizeOf_of_mem_childRecords {inner : Record} (member : inner ∈ record.childRecords) :
    sizeOf inner < sizeOf record := by
  unfold childRecords at member
  split at member
  · obtain ⟨field, _, held⟩ := List.mem_flatMap.mp member
    cases read : record.inField field with
    | ok records =>
      rw [read] at held
      exact sizeOf_of_mem_inField read held
    | error error => simp [read, Except.toOption] at held
  · exact absurd member List.not_mem_nil

/-- A record with the records below it, each before those below it. -/
def reached (record : Record) : List Record :=
  record :: record.childRecords.attach.flatMap fun inner => reached inner.1
termination_by sizeOf record
decreasing_by exact sizeOf_of_mem_childRecords inner.2

theorem reached_eq (record : Record) :
    record.reached = record :: record.childRecords.flatMap reached := by
  rw [reached]
  conv_rhs => rw [← List.attach_map_subtype_val record.childRecords, List.flatMap_map]

theorem mem_reached_self (record : Record) : record ∈ record.reached := by
  rw [reached_eq]
  exact List.mem_cons_self

theorem mem_reached_of_mem_childRecords {record above inner : Record}
    (reaches : above ∈ record.reached) (member : inner ∈ above.childRecords) :
    inner ∈ record.reached := by
  rw [reached_eq] at reaches ⊢
  apply List.mem_cons_of_mem
  apply List.mem_flatMap.mpr
  rcases List.mem_cons.mp reaches with rfl | below
  · exact ⟨inner, member, inner.mem_reached_self⟩
  · obtain ⟨child, inside, reaches⟩ := List.mem_flatMap.mp below
    have := sizeOf_of_mem_childRecords inside
    exact ⟨child, inside, mem_reached_of_mem_childRecords reaches member⟩
termination_by sizeOf record

/-- A field has a value that is not null, as one of its items or by itself. -/
inductive ChildField.Has (field : ChildField) (record : Record) (value : Json) : Prop where
  | item {items : List Json} (isList : field.isList = true)
      (held : record.get? field.key = some (.list items)) (member : value ∈ items)
  | single (alone : field.isList = false) (held : record.get? field.key = some value)
      (given : value.isNull = false)

/-- What is in a field of a legal record is a legal record that may stand there. -/
theorem Legal.exists_of_has {kind : Kind} {field : ChildField} {value : Json}
    (legal : record.Legal) (named : record.Declares kind) (inside : field ∈ childFields kind)
    (has : field.Has record value) :
    ∃ inner ∈ record.childRecords, value = .fields inner ∧ inner.Legal ∧
      ∃ child, inner.Declares child ∧ field.Takes kind child := by
  obtain ⟨records, declared, _, carries, taken, _, _, below⟩ := legal
  cases named.unique declared
  have read := inField_eq_ok_iff.2 (carries field inside)
  suffices ∃ inner ∈ records field, value = .fields inner by
    obtain ⟨inner, member, same⟩ := this
    refine ⟨inner, ?_, same, below field inside inner member, taken field inside inner member⟩
    rw [childRecords_eq (kind_eq_ok_iff.2 named)]
    exact List.mem_flatMap.mpr ⟨field, inside, by rwa [read]⟩
  have held' := carries field inside
  generalize records field = inField at held'
  cases has with
  | item isList held member =>
    cases held' with
    | missing absent => cases absent.symm.trans held
    | null empty => cases empty.symm.trans held
    | list _ whole =>
      cases whole.symm.trans held
      obtain ⟨inner, found, rfl⟩ := List.mem_map.mp member
      exact ⟨inner, found, rfl⟩
    | single alone _ => cases alone.symm.trans isList
  | single alone held given =>
    cases held' with
    | missing absent => cases absent.symm.trans held
    | null empty =>
      cases empty.symm.trans held
      cases given
    | list isList _ => cases isList.symm.trans alone
    | single _ whole =>
      cases whole.symm.trans held
      exact ⟨_, List.mem_cons_self, rfl⟩

/-- The slot that what a record describes lives in. -/
def home? (record : Record) : Option Slot := record.kind.toOption.bind Kind.home

theorem home?_of_branch {branch : Branch Origin} (described : record.branch = .ok branch) :
    record.home? = branch.kind.home := by
  rw [home?, kind_of_branch described]
  rfl

/-- Numbers for some records, each as far behind the one before it as that one reaches. -/
def positions : (next : Nat) → List Record → List (Record × Nat)
  | _, [] => []
  | next, inner :: rest => (inner, next) :: positions (next + inner.reached.length) rest

/-- A branch has the branches of the child records as its children. -/
theorem exists_children_of_branch {branch : Branch Origin}
    (described : record.branch = .ok branch) :
    ∃ kind element children, record.kind = .ok kind ∧ record.element kind = .ok element ∧
      List.Forall₂ (fun inner child => inner.branch = .ok child) record.childRecords children ∧
      branch = .node ⟨record.line?, none⟩ element children := by
  obtain ⟨kind, element, parts, named, itself, fills, _, rfl⟩ := exists_fills_of_branch described
  refine ⟨kind, element, parts.flatten, named, itself, ?_, rfl⟩
  rw [childRecords_eq named, List.flatMap]
  refine List.rel_flatten (List.forall₂_map_left_iff.mpr (fills.imp fun field part filled => ?_))
  obtain ⟨⟨records, read, described⟩, _⟩ := filled
  rw [read]
  exact described

/-- A branch has a node for each record that is reached. -/
theorem size_of_branch {record : Record} {branch : Branch Origin}
    (described : record.branch = .ok branch) : branch.size = record.reached.length := by
  obtain ⟨_, _, children, _, _, below, rfl⟩ := exists_children_of_branch described
  have sizes (records : List Record) (some : ∀ inner ∈ records, inner ∈ record.childRecords)
      (children : List (Branch Origin))
      (below : List.Forall₂ (fun inner child => inner.branch = .ok child) records children) :
      Branch.sizes children = (records.flatMap reached).length := by
    induction below with
    | nil => rfl
    | @cons inner child rest others here _ ih =>
      have := sizeOf_of_mem_childRecords (some inner List.mem_cons_self)
      rw [Branch.sizes, size_of_branch here, ih fun other member =>
        some other (List.mem_cons_of_mem _ member), List.flatMap_cons, List.length_append]
  rw [reached_eq, Branch.size, sizes _ (fun _ member => member) children below, List.length_cons,
    Nat.add_comm]
termination_by sizeOf record

end Record

end Gherkin
