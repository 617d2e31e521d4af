import Gherkin.Error

/-!
# Records

A record describes an element in the one form that does not depend on a parser
release: an object with a `kind` and the fields of that kind. Nested records are
the element's parts and children. Reading a field is lenient where an absent
value has a meaning, and names the flaw otherwise.
-/

namespace Gherkin

/-- A record is the list of its fields. -/
abbrev Record := Fields

namespace Record

/-- The record a value is; only objects are records. -/
def ofJson (value : Json) : Except Error Record :=
  match value.asFields? with
  | some record => .ok record
  | none => .error (.malformed (.notAnObject value))

/-- The kind a record names, if it names one by a text. -/
def kindName? (record : Record) : Option Text := (record.get? "kind").bind Json.asText?

/-- The kind of a record. -/
def kind (record : Record) : Except Error Kind :=
  match record.get? "kind" with
  | none => .error (.malformed .withoutKind)
  | some (.text name) =>
    match Kind.ofSymbol? name with
    | some kind => .ok kind
    | none => .error (.unknownKind name)
  | some other => .error (.unknownKind other.render)

/-- A text field, if it is there and a text. -/
def text? (key : String) (record : Record) : Option Text := (record.get? key).bind Json.asText?

/-- A text field; one that is missing or no text reads as empty. -/
def text (key : String) (record : Record) : Text := (record.text? key).getD []

/-- The line of source text a record was read from. -/
def line? (record : Record) : Option Nat :=
  ((record.get? "location").bind (Json.get? "line")).bind Json.asNatural?

/-- The records that a list consists of. -/
def ofItems (key : String) : List Json → Except Error (List Record)
  | [] => .ok []
  | item :: rest =>
    match item.asFields? with
    | some record => do
      let records ← ofItems key rest
      pure (record :: records)
    | none => .error (.malformed (.notRecords key))

/-- The nested records of a list field; a missing or null field has none. -/
def list (key : String) (record : Record) : Except Error (List Record) :=
  match record.get? key with
  | none | some .null => .ok []
  | some (.list items) => ofItems key items
  | some _ => .error (.malformed (.notAList key))

/-- The nested record of a single field; a missing or null field has none. -/
def single (key : String) (record : Record) : Except Error (Option Record) :=
  match record.get? key with
  | none | some .null => .ok none
  | some (.fields nested) => .ok (some nested)
  | some _ => .error (.malformed (.notRecords key))

theorem sizeOf_of_mem_ofItems {key : String} {items : List Json} {records : List Record}
    (read : ofItems key items = .ok records) {nested : Record} (member : nested ∈ records) :
    sizeOf nested < sizeOf items := by
  induction items generalizing records with
  | nil =>
    simp only [ofItems, Except.ok.injEq] at read
    subst read
    exact absurd member List.not_mem_nil
  | cons item rest ih =>
    cases item with
    | fields record =>
      simp only [ofItems, Json.asFields?] at read
      cases below : ofItems key rest with
      | error error => simp [below, bind, Except.bind] at read
      | ok others =>
        simp only [below, bind, Except.bind, pure, Except.pure, Except.ok.injEq] at read
        subst read
        rcases List.mem_cons.1 member with same | later
        · subst same
          simp only [List.cons.sizeOf_spec, Json.fields.sizeOf_spec]
          omega
        · have smaller := ih below later
          simp only [List.cons.sizeOf_spec]
          omega
    | _ => simp [ofItems, Json.asFields?] at read

theorem sizeOf_of_mem_list {key : String} {record : Record} {records : List Record}
    (read : record.list key = .ok records) {nested : Record} (member : nested ∈ records) :
    sizeOf nested < sizeOf record := by
  unfold list at read
  cases found : record.get? key with
  | none =>
    simp only [found, Except.ok.injEq] at read
    subst read
    exact absurd member List.not_mem_nil
  | some value =>
    have outer := Fields.sizeOf_get? found
    cases value with
    | null =>
      simp only [found, Except.ok.injEq] at read
      subst read
      exact absurd member List.not_mem_nil
    | list items =>
      simp only [found] at read
      have inner := sizeOf_of_mem_ofItems read member
      simp only [Json.list.sizeOf_spec] at outer
      omega
    | _ => simp [found] at read

theorem sizeOf_of_single {key : String} {record nested : Record}
    (read : record.single key = .ok (some nested)) : sizeOf nested < sizeOf record := by
  unfold single at read
  cases found : record.get? key with
  | none => simp [found] at read
  | some value =>
    have outer := Fields.sizeOf_get? found
    cases value with
    | fields inner =>
      simp only [found, Except.ok.injEq, Option.some.injEq] at read
      subst read
      simp only [Json.fields.sizeOf_spec] at outer
      omega
    | _ => simp [found] at read

end Record

end Gherkin
