import Mathlib.Data.List.Perm.Basic
import Gherkin.Proofs.Document.Location
import Gherkin.Proofs.Json.Ordered
import Gherkin.Proofs.Record.Reached

/-!
# The records in a value

A value has the records of elements in it, wherever they stand. A value is tidy if its records
have such records in the fields for their children only; then a legal record has exactly the
records it reaches in it, and a search for a kind finds one of these.
-/

namespace Gherkin

/-! ## Fields by their keys -/

/-- What is gathered from fields with different keys is what is gathered from those with some
keys, if the others give nothing. -/
theorem Fields.perm_flatMap_get? {α : Type} {fields : Fields} {keys : List String}
    (distinct : (fields.map Prod.fst).Nodup) (apart : keys.Nodup) (gather : Json → List α)
    (others : ∀ entry ∈ fields, entry.1 ∉ keys → gather entry.2 = []) :
    (fields.flatMap fun entry => gather entry.2).Perm
      (keys.flatMap fun key => ((fields.get? key).map gather).getD []) := by
  induction fields with
  | nil => simp [get?]
  | cons entry rest ih =>
    obtain ⟨key, value⟩ := entry
    obtain ⟨fresh, distinct⟩ := List.nodup_cons.mp distinct
    obtain ⟨here, others⟩ := List.forall_mem_cons.mp others
    have below := ih distinct others
    have absent : get? key rest = none := by
      by_contra found
      obtain ⟨held, found⟩ := Option.ne_none_iff_exists'.mp found
      exact fresh (List.mem_map.mpr ⟨_, mem_of_get? found, rfl⟩)
    have same (some : List String) (without : key ∉ some) :
        (some.flatMap fun name => ((get? name ((key, value) :: rest)).map gather).getD []) =
          some.flatMap fun name => ((get? name rest).map gather).getD [] := by
      refine List.flatMap_congr fun name member => ?_
      rw [get?, if_neg fun same : name = key => without (same ▸ member)]
    rw [List.flatMap_cons]
    by_cases among : key ∈ keys
    · obtain ⟨front, back, rfl⟩ := List.append_of_mem among
      obtain ⟨outside, _⟩ := List.nodup_cons.mp (List.nodup_middle.mp apart)
      rw [List.mem_append, not_or] at outside
      rw [List.flatMap_append, List.flatMap_cons, absent] at below
      rw [List.flatMap_append, List.flatMap_cons, same front outside.1, same back outside.2, get?,
        if_pos rfl]
      exact (below.append_left _).trans (List.perm_append_comm_assoc ..)
    · rw [here among, same keys among]
      exact below

/-! ## Records of elements -/

/-- Whether an object is the record of an element: it names a kind, and not that of a cell. -/
def Record.isElement (record : Record) : Bool :=
  record.kindName?.any fun name => name != Text.word Kind.cell.symbol

namespace Json

mutual

/-- The records of elements in a value, each before those in it. -/
def elements : Json → List Record
  | .fields entries => (if Record.isElement entries then [entries] else []) ++
      elementsInFields entries
  | .list items => elementsInItems items
  | _ => []

/-- The records of elements in some fields. -/
def elementsInFields : List (String × Json) → List Record
  | [] => []
  | (_, value) :: rest => elements value ++ elementsInFields rest

/-- The records of elements in some items. -/
def elementsInItems : List Json → List Record
  | [] => []
  | item :: rest => elements item ++ elementsInItems rest

end

theorem elements_fields (record : Record) :
    (Json.fields record).elements = (if record.isElement then [record] else []) ++
      record.flatMap fun entry => entry.2.elements := by
  have all (entries : List (String × Json)) :
      elementsInFields entries = entries.flatMap fun entry => entry.2.elements := by
    induction entries with
    | nil => rfl
    | cons entry rest ih => rw [elementsInFields, ih, List.flatMap_cons]
  rw [elements, all]

@[simp]
theorem elements_list (items : List Json) :
    (Json.list items).elements = items.flatMap elements := by
  rw [elements]
  induction items with
  | nil => rfl
  | cons item rest ih => rw [elementsInItems, ih, List.flatMap_cons]

@[simp]
theorem elements_null : Json.null.elements = [] := rfl

@[simp]
theorem elements_text (text : Text) : (Json.text text).elements = [] := rfl

/-- The records of elements in a value are in the fields for the children of those they are in,
and nowhere else. -/
inductive Tidy : Json → Prop where
  | leaf {value : Json} (none : value.elements = []) : Tidy value
  | list {items : List Json} (each : ∀ item ∈ items, Tidy item) : Tidy (.list items)
  | record {record : Record} (distinct : (record.map Prod.fst).Nodup)
      (each : ∀ entry ∈ record, Tidy entry.2)
      (inFields : ∀ kind, record.Declares kind → ∀ entry ∈ record,
        entry.1 ∉ (Record.childFields kind).map Record.ChildField.key → entry.2.elements = []) :
      Tidy (.fields record)

theorem Tidy.item {items : List Json} (tidy : (Json.list items).Tidy) :
    ∀ item ∈ items, item.Tidy := by
  cases tidy with
  | leaf none =>
    rw [elements_list, List.flatMap_eq_nil_iff] at none
    exact fun item member => .leaf (none item member)
  | list each => exact each

/-- The records in a tidy value are tidy. -/
theorem Tidy.of_mem_elements {value : Json} (tidy : value.Tidy) :
    ∀ record ∈ value.elements, (Json.fields record).Tidy := by
  induction tidy with
  | leaf none =>
    rw [none]
    exact List.forall_mem_nil _
  | list _ ih =>
    intro record member
    rw [elements_list] at member
    obtain ⟨item, inside, member⟩ := List.mem_flatMap.mp member
    exact ih item inside record member
  | record distinct each inFields ih =>
    intro record member
    rw [elements_fields] at member
    rcases List.mem_append.mp member with itself | below
    · split at itself
      · rw [List.mem_singleton.mp itself]
        exact .record distinct each inFields
      · exact absurd itself List.not_mem_nil
    · obtain ⟨entry, inside, member⟩ := List.mem_flatMap.mp below
      exact ih entry inside record member

end Json

namespace Record

variable {record : Record} {kind : Kind}

theorem kindName?_eq_some_iff :
    record.kindName? = some (Text.word kind.symbol) ↔ record.Declares kind := by
  unfold kindName? Declares
  cases record.get? "kind" with
  | none => simp
  | some value => cases value <;> simp [Json.asText?, Json.word]

theorem Declares.isElement (named : record.Declares kind) (apart : kind ≠ .cell) :
    record.isElement = true := by
  rw [Record.isElement, kindName?_eq_some_iff.2 named, Option.any_some, bne_iff_ne]
  intro same
  have kinds := congrArg Kind.ofSymbol? same
  rw [Kind.ofSymbol?_symbol, Kind.ofSymbol?_symbol] at kinds
  exact apart (Option.some.inj kinds)

theorem nodup_keys_childFields (kind : Kind) : ((childFields kind).map ChildField.key).Nodup := by
  cases kind <;> decide

/-- A legal record that is tidy has the records it reaches in it, each as often. -/
theorem Legal.perm_elements (legal : record.Legal) (tidy : (Json.fields record).Tidy) :
    (Json.fields record).elements.Perm record.reached := by
  induction legal with
  | @intro record kind records named apart carries _ _ _ _ ih =>
    have itself : record.isElement = true := named.isElement apart
    rw [Json.elements_fields, if_pos itself, List.singleton_append]
    cases tidy with
    | leaf none =>
      rw [Json.elements_fields, if_pos itself] at none
      cases none
    | record distinct each inFields =>
      have gathered := Fields.perm_flatMap_get? distinct (nodup_keys_childFields kind)
        Json.elements (inFields kind named)
      rw [List.flatMap_map] at gathered
      rw [reached_eq, childRecords_eq (kind_eq_ok_iff.mpr named), List.flatMap_assoc]
      refine (gathered.trans (List.Perm.flatMap_left _ fun field inside => ?_)).cons record
      have held := carries field inside
      have below := ih field inside
      rw [inField_eq_ok_iff.mpr held, Except.toOption, Option.getD_some]
      generalize records field = inner at held below
      cases held with
      | missing absent =>
        rw [absent]
        exact .nil
      | null empty =>
        rw [empty]
        exact .nil
      | list _ held =>
        rw [held, Option.map_some, Option.getD_some, Json.elements_list, List.flatMap_map]
        refine List.Perm.flatMap_left _ fun other member => below other member ?_
        exact (each _ (Fields.mem_of_get? held)).item _ (List.mem_map_of_mem member)
      | @single inner _ held =>
        rw [held, Option.map_some, Option.getD_some, List.flatMap_singleton]
        exact below inner List.mem_cons_self (each _ (Fields.mem_of_get? held))

end Record

/-! ## Searching for a kind -/

namespace Fragment

variable {kind : Kind}

/-- What is found is one of the records in the value, and has the kind. -/
theorem exists_of_find? {value found : Json} (apart : kind ≠ .cell)
    (here : find? kind value = some found) :
    ∃ record ∈ value.elements, found = .fields record ∧ record.Declares kind := by
  cases value with
  | fields entries =>
    rw [Json.elements_fields]
    rw [find?] at here
    split at here
    · next named =>
      cases here
      have declared := Record.kindName?_eq_some_iff.1 (beq_iff_eq.mp named)
      rw [if_pos (declared.isElement apart)]
      exact ⟨entries, List.mem_cons_self, rfl, declared⟩
    · rw [findInFields?_eq] at here
      obtain ⟨entry, member, below⟩ := List.exists_of_findSome?_eq_some here
      split at below
      · cases below
      · have smaller : sizeOf entry.2 < sizeOf entries :=
          Nat.lt_trans (by cases entry; simp) (List.sizeOf_lt_of_mem member)
        obtain ⟨record, inside, same, declared⟩ := exists_of_find? apart below
        exact ⟨record, List.mem_append_right _ (List.mem_flatMap.mpr ⟨entry, member, inside⟩), same,
          declared⟩
  | list items =>
    rw [find?_list] at here
    obtain ⟨item, member, below⟩ := List.exists_of_findSome?_eq_some here
    have smaller := List.sizeOf_lt_of_mem member
    obtain ⟨record, inside, same, declared⟩ := exists_of_find? apart below
    rw [Json.elements_list]
    exact ⟨record, List.mem_flatMap.mpr ⟨item, member, inside⟩, same, declared⟩
  | _ => cases here
termination_by sizeOf value
decreasing_by
  all_goals
    subst_vars
    simp only [Json.fields.sizeOf_spec, Json.list.sizeOf_spec]
    omega

/-- What is located is one of the records in the document, and has the kind. -/
theorem mem_elements_of_locate {document found : Record} (apart : kind ≠ .cell)
    (located : locate kind document = .ok found) :
    found ∈ (Json.fields document).elements ∧ found.Declares kind := by
  unfold locate at located
  split at located
  · next value here =>
    obtain ⟨record, inside, rfl, declared⟩ := exists_of_find? apart here
    cases located
    exact ⟨inside, declared⟩
  · cases located

end Fragment

end Gherkin
