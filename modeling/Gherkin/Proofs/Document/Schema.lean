import Gherkin.Proofs.Document.Record
import Gherkin.Record.Basic

/-!
# The schema of records

Every kind of record has its keys, and a record carries all of them, whatever the
source text left out. A location is no record; every other object in a record is.
-/

namespace Gherkin

namespace Record

/-- The keys that the record of a kind carries beside its kind. No result makes a record of
a directory. -/
def schema : Kind → List String
  | .directory => []
  | .featureFile => ["uri", "feature"]
  | .feature => ["keyword", "name", "description", "language", "location", "tags", "children"]
  | .rule => ["keyword", "name", "description", "location", "tags", "children"]
  | .background => ["keyword", "name", "description", "location", "steps"]
  | .scenario => ["keyword", "name", "description", "location", "tags", "steps"]
  | .outline => ["keyword", "name", "description", "location", "tags", "steps", "examples"]
  | .example => ["keyword", "name", "description", "location", "tags", "rows"]
  | .step => ["keyword", "text", "location", "block"]
  | .table => ["location", "rows"]
  | .row => ["location", "cells"]
  | .cell => ["location", "value"]
  | .docString => ["location", "content_type", "contents"]
  | .tag => ["location", "name"]

/-- A record is found in a value: the value itself, or in an item or a field of it. -/
inductive IsNested (record : Record) : Json → Prop where
  | self : IsNested record (.fields record)
  | item {items item} : item ∈ items → IsNested record item → IsNested record (.list items)
  | field {fields : Fields} {key value} : (key, value) ∈ fields → key ≠ "location" →
      IsNested record value → IsNested record (.fields fields)

/-- A record has a kind and the keys of its kind. -/
def FollowsSchema (record : Record) : Prop :=
  ∃ kind, record.kind = .ok kind ∧ ∀ key ∈ schema kind, ∃ value, record.get? key = some value

/-- Every record found in a value has the keys of its kind. -/
def AllFollow (value : Json) : Prop := ∀ record, IsNested record value → FollowsSchema record

theorem allFollow_text (value : Text) : AllFollow (.text value) := by
  rintro record ⟨⟩

theorem allFollow_null : AllFollow .null := by
  rintro record ⟨⟩

theorem allFollow_list {items : List Json} (all : ∀ item ∈ items, AllFollow item) :
    AllFollow (.list items) := by
  rintro record (_ | ⟨member, nested⟩)
  exact all _ member record nested

theorem allFollow_map {α : Type} {items : List α} {value : α → Json}
    (all : ∀ item, AllFollow (value item)) : AllFollow (.list (items.map value)) := by
  refine allFollow_list fun item member => ?_
  obtain ⟨source, _, rfl⟩ := List.mem_map.mp member
  exact all source

/-- An object with the keys of its kind, in which all records have the keys of theirs. -/
theorem allFollow_ofList {entries : List (String × Json)} (kind : Kind)
    (named : Fields.last? "kind" entries = some (Json.word kind.symbol))
    (keys : ∀ key ∈ schema kind, (Fields.last? key entries).isSome = true)
    (all : ∀ entry ∈ entries, entry.1 ≠ "location" → AllFollow entry.2) :
    AllFollow (.fields (Fields.ofList entries)) := by
  rintro record nested
  cases nested with
  | self =>
      refine ⟨kind, ?_, fun key member => ?_⟩
      · unfold Record.kind
        rw [Fields.get?_ofList, named]
        simp [Json.word, Kind.ofSymbol?_symbol]
      · rw [Fields.get?_ofList]
        exact Option.isSome_iff_exists.mp (keys key member)
  | field member other nested => exact all _ (Fields.mem_of_mem_ofList member) other record nested

end Record

namespace Document

open Record

attribute [local simp] schema Header.fields

theorem allFollow_header (kind : Kind) (header : Header) :
    ∀ entry ∈ header.fields kind, entry.1 ≠ "location" → AllFollow entry.2 := by
  simp [allFollow_text, Json.word]

theorem Tag.record_follows (tag : Tag) : AllFollow tag.record :=
  allFollow_ofList .tag (by simp) (by simp) (by simp [allFollow_text, Json.word])

theorem cellRecord_follows (line : Nat) (cell : Cell) : AllFollow (cellRecord line cell) :=
  allFollow_ofList .cell (by simp) (by simp) (by simp [allFollow_text, Json.word])

theorem Row.record_follows (row : Row) : AllFollow row.record :=
  allFollow_ofList .row (by simp) (by simp)
    (by simp [allFollow_text, Json.word, allFollow_map, cellRecord_follows])

theorem Argument.record_follows (argument : Argument) : AllFollow argument.record := by
  cases argument with
  | table place rows =>
      exact allFollow_ofList .table (by simp) (by simp)
        (by simp [allFollow_text, Json.word, allFollow_map, Row.record_follows])
  | docString place fence contentType content =>
      refine allFollow_ofList .docString (by simp) (by simp) ?_
      cases contentType <;> simp [allFollow_text, allFollow_null, Json.word]

theorem Step.record_follows (step : Step) : AllFollow step.record := by
  refine allFollow_ofList .step (by simp) (by simp) ?_
  cases step.argument <;> simp [allFollow_text, allFollow_null, Json.word, Argument.record_follows]

theorem Background.record_follows (background : Background) : AllFollow background.record := by
  refine allFollow_ofList .background (by simp) (by simp) ?_
  rw [List.forall_mem_append]
  exact ⟨allFollow_header _ _, by simp [allFollow_map, Step.record_follows]⟩

theorem Examples.record_follows (examples : Examples) : AllFollow examples.record := by
  refine allFollow_ofList .example (by simp) (by simp) ?_
  rw [List.forall_mem_append]
  exact ⟨allFollow_header _ _, by simp [allFollow_map, Tag.record_follows, Row.record_follows]⟩

theorem Scenario.record_follows (scenario : Scenario) : AllFollow scenario.record := by
  unfold Scenario.record
  split
  · refine allFollow_ofList .outline (by simp) (by simp) ?_
    rw [List.forall_mem_append]
    exact ⟨allFollow_header _ _, by
      simp [allFollow_map, Tag.record_follows, Step.record_follows, Examples.record_follows]⟩
  · refine allFollow_ofList .scenario (by simp) (by simp) ?_
    rw [List.forall_mem_append]
    exact ⟨allFollow_header _ _, by
      simp [allFollow_map, Tag.record_follows, Step.record_follows]⟩

theorem Body.records_follow (body : Body) : ∀ record ∈ body.records, AllFollow record := by
  unfold Body.records
  rw [List.forall_mem_append]
  simp [Background.record_follows, Scenario.record_follows]

theorem Rule.record_follows (rule : Rule) : AllFollow rule.record := by
  refine allFollow_ofList .rule (by simp) (by simp) ?_
  rw [List.forall_mem_append]
  exact ⟨allFollow_header _ _, by
    simp [allFollow_map, Tag.record_follows, allFollow_list rule.body.records_follow]⟩

theorem Feature.record_follows (feature : Feature) : AllFollow feature.record := by
  have children : ∀ record ∈ feature.body.records ++ feature.rules.map Rule.record,
      AllFollow record := by
    rw [List.forall_mem_append]
    exact ⟨feature.body.records_follow, by simp [Rule.record_follows]⟩
  refine allFollow_ofList .feature (by simp) (by simp) ?_
  rw [List.forall_mem_append]
  exact ⟨allFollow_header _ _, by
    simp [allFollow_map, allFollow_text, Tag.record_follows, allFollow_list children]⟩

/-- Every record in the record of a document has the keys of its kind. -/
theorem record_follows (uri : Text) (document : Document) :
    AllFollow (.fields (document.record uri)) := by
  refine allFollow_ofList .featureFile (by simp) (by simp) ?_
  cases document.feature <;>
    simp [allFollow_text, allFollow_null, Json.word, Feature.record_follows]

end Document

end Gherkin
