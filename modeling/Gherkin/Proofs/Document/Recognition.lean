import Gherkin.Proofs.Document.Readback

/-!
# Results are recognized

The shape of a result names its family: no other family recognizes it. The two
message families differ in the comments they write and in the key of content
types, which no other field of a doc string is named like.
-/

namespace Gherkin

namespace Document

variable {family : Family} {key : String}

/-- No doc string in a value has a field. -/
def Lacks (key : String) (value : Json) : Prop := value.hasDocStringField key = false

/-- No doc string among entries has a field. -/
def EntriesLack (key : String) (entries : Entries) : Prop :=
  ∀ entry ∈ entries, (entry.1 = "docString" → entry.2.get? key = none) ∧ Lacks key entry.2

theorem lacks_object {entries : Entries} (lack : EntriesLack key entries) :
    Lacks key (Json.object entries) := by
  have fields (fields : Fields) (inside : ∀ entry ∈ fields, entry ∈ entries) :
      fieldsHaveDocStringField key fields = false := by
    induction fields with
    | nil => rfl
    | cons entry rest ih =>
        obtain ⟨name, value⟩ := entry
        obtain ⟨named, below⟩ := lack _ (inside _ List.mem_cons_self)
        have here : (name == "docString" && (value.get? key).isSome) = false := by
          by_cases same : name = "docString"
          · simp [show value.get? key = none from named same]
          · simp [same]
        rw [fieldsHaveDocStringField, here,
          show value.hasDocStringField key = false from below,
          ih fun other member => inside other (List.mem_cons_of_mem _ member)]
        rfl
  exact fields _ fun entry member => Fields.mem_of_mem_ofList member

theorem lacks_list {items : List Json} (lack : ∀ item ∈ items, Lacks key item) :
    Lacks key (.list items) := by
  have each : itemsHaveDocStringField key items = false := by
    induction items with
    | nil => rfl
    | cons item rest ih =>
        rw [itemsHaveDocStringField,
          show item.hasDocStringField key = false from lack item List.mem_cons_self,
          ih fun other member => lack other (List.mem_cons_of_mem _ member)]
        rfl
  exact each

theorem lacks_text (value : Text) : Lacks key (.text value) := rfl

theorem entriesLack_nil : EntriesLack key [] := by simp [EntriesLack]

theorem entriesLack_append {front back : Entries} (before : EntriesLack key front)
    (behind : EntriesLack key back) : EntriesLack key (front ++ back) :=
  fun entry member => (List.mem_append.mp member).elim (before entry) (behind entry)

theorem entriesLack_singleton {name : String} {value : Json} (other : name ≠ "docString")
    (lack : Lacks key value) : EntriesLack key [(name, value)] := by
  intro entry member
  rw [List.mem_singleton.mp member]
  exact ⟨fun same => absurd same other, lack⟩

theorem entriesLack_location (place : Place) : EntriesLack key [("location",
    Json.object [("line", Json.natural place.line), ("column", Json.natural place.column)])] := by
  refine entriesLack_singleton (by decide) (lacks_object ?_)
  exact @entriesLack_append _ [("line", Json.natural place.line)] _
    (entriesLack_singleton (by decide) rfl) (entriesLack_singleton (by decide) rfl)

theorem entriesLack_nodeEntries (type : String) (place : Place) :
    EntriesLack key (nodeEntries family type place) := by
  refine entriesLack_append ?_ (entriesLack_location place)
  split
  · exact entriesLack_singleton (by decide) rfl
  · exact entriesLack_nil

theorem entriesLack_textEntry {name : String} (other : name ≠ "docString") (value : Text) :
    EntriesLack key (textEntry family name value) := by
  unfold textEntry
  split
  · exact entriesLack_nil
  · exact entriesLack_singleton other rfl

theorem entriesLack_listEntry {name : String} {items : List Json} (other : name ≠ "docString")
    (lack : ∀ item ∈ items, Lacks key item) : EntriesLack key (listEntry family name items) := by
  unfold listEntry
  split
  · exact entriesLack_nil
  · exact entriesLack_singleton other (lacks_list lack)

theorem entriesLack_headerEntries (header : Header) :
    EntriesLack key (headerEntries family header) := by
  refine entriesLack_append (entriesLack_append (entriesLack_textEntry (by decide) _)
    (entriesLack_textEntry (by decide) _)) ?_
  split
  · exact entriesLack_nil
  · exact entriesLack_textEntry (by decide) _

/-- A completed node lacks a field when its entries do. -/
theorem lacks_complete {entries : Entries} (lack : EntriesLack key entries) :
    Numbered.Yields (complete family entries) (Lacks key) := by
  refine Numbered.Yields.complete fun number => lacks_object (entriesLack_append lack ?_)
  unfold numberEntry
  split
  · exact entriesLack_nil
  · exact entriesLack_singleton (by decide) rfl

theorem Tag.result_lacks (key : String) (tag : Tag) :
    Numbered.Yields (tag.result family) (Lacks key) :=
  lacks_complete (entriesLack_append (entriesLack_nodeEntries _ _)
    (entriesLack_singleton (by decide) (lacks_text _)))

theorem Row.result_lacks (key : String) (row : Row) :
    Numbered.Yields (row.result family) (Lacks key) := by
  refine lacks_complete (entriesLack_append (entriesLack_nodeEntries _ _)
    (entriesLack_listEntry (by decide) fun item member => ?_))
  obtain ⟨cell, _, rfl⟩ := List.mem_map.mp member
  exact lacks_object (entriesLack_append (entriesLack_nodeEntries _ _)
    (entriesLack_singleton (by decide) (lacks_text _)))

/-- A key that no family writes in a doc string but as the key of content types. -/
structure Foreign (family : Family) (key : String) : Prop where
  contentType : key ≠ contentTypeKey family
  others : key ∉ ["type", "location", "content", "delimiter"]

theorem argumentEntries_lack (foreign : Foreign family key) (argument : Option Argument) :
    Numbered.Yields (argumentEntries family argument) (EntriesLack key) := by
  cases argument with
  | none => exact Numbered.Yields.pure entriesLack_nil
  | some argument =>
      cases argument with
      | table place rows =>
          refine Numbered.Yields.bind
            (Numbered.Yields.mapM_all fun row _ => Row.result_lacks key row) fun nodes lack => ?_
          refine Numbered.Yields.pure (entriesLack_singleton ?_ ?_)
          · split <;> decide
          · exact lacks_object (entriesLack_append (entriesLack_nodeEntries _ _)
              (entriesLack_listEntry (by decide) lack))
      | docString place fence contentType content =>
          refine Numbered.Yields.pure fun entry member => ?_
          rw [List.mem_singleton.mp member]
          obtain ⟨contentKey, others⟩ := foreign
          simp only [List.mem_cons, List.not_mem_nil, or_false, not_or] at others
          obtain ⟨type, location, content', delimiter⟩ := others
          constructor
          · intro _
            cases contentType <;> by_cases tree : isTyped family <;>
              simp [type, location, content', delimiter, contentKey, tree]
          · refine lacks_object (entriesLack_append (entriesLack_append (entriesLack_append
              (entriesLack_nodeEntries _ _) ?_) (entriesLack_textEntry (by decide) _)) ?_)
            · cases contentType with
              | none => exact entriesLack_nil
              | some type =>
                  exact entriesLack_singleton (by cases family <;> decide) (lacks_text _)
            · split
              · exact entriesLack_nil
              · exact entriesLack_singleton (by decide) (lacks_text _)

theorem Step.result_lacks (foreign : Foreign family key) (step : Step) :
    Numbered.Yields (step.result family) (Lacks key) := by
  rw [Step.result_eq]
  refine Numbered.Yields.bind (argumentEntries_lack foreign step.argument) fun entries lack => ?_
  exact lacks_complete (entriesLack_append (entriesLack_append (entriesLack_append
    (entriesLack_nodeEntries _ _) (entriesLack_textEntry (by decide) _))
    (entriesLack_textEntry (by decide) _)) lack)

theorem Background.result_lacks (foreign : Foreign family key) (background : Background) :
    Numbered.Yields (background.result family) (Lacks key) := by
  refine Numbered.Yields.bind
    (Numbered.Yields.mapM_all fun step _ => Step.result_lacks foreign step) fun nodes lack => ?_
  exact lacks_complete (entriesLack_append (entriesLack_append (entriesLack_nodeEntries _ _)
    (entriesLack_headerEntries _)) (entriesLack_listEntry (by decide) lack))

theorem Examples.result_lacks (key : String) (examples : Examples) :
    Numbered.Yields (examples.result family) (Lacks key) := by
  refine Numbered.Yields.bind (Numbered.Yields.mapM_all fun tag _ => Tag.result_lacks key tag)
    fun tags tagsLack => ?_
  refine Numbered.Yields.bind (Numbered.Yields.mapM_all fun row _ => Row.result_lacks key row)
    fun rows rowsLack => ?_
  refine lacks_complete (entriesLack_append (entriesLack_append (entriesLack_append
    (entriesLack_append (entriesLack_nodeEntries _ _) (entriesLack_listEntry (by decide) tagsLack))
    (entriesLack_headerEntries _)) ?_)
    (entriesLack_listEntry (by decide) fun row member => rowsLack row (List.mem_of_mem_tail member)))
  cases rows with
  | nil => exact entriesLack_nil
  | cons row rest => exact entriesLack_singleton (by decide) (rowsLack row List.mem_cons_self)

theorem Scenario.result_lacks (foreign : Foreign family key) (scenario : Scenario) :
    Numbered.Yields (scenario.result family) (Lacks key) := by
  refine Numbered.Yields.bind (Numbered.Yields.mapM_all fun tag _ => Tag.result_lacks key tag)
    fun tags tagsLack => ?_
  refine Numbered.Yields.bind
    (Numbered.Yields.mapM_all fun step _ => Step.result_lacks foreign step) fun steps stepsLack => ?_
  refine Numbered.Yields.bind
    (Numbered.Yields.mapM_all fun block _ => Examples.result_lacks key block)
    fun blocks blocksLack => ?_
  refine lacks_complete (entriesLack_append (entriesLack_append (entriesLack_append
    (entriesLack_append (entriesLack_nodeEntries _ _) (entriesLack_listEntry (by decide) tagsLack))
    (entriesLack_headerEntries _)) (entriesLack_listEntry (by decide) stepsLack)) ?_)
  split
  · exact entriesLack_nil
  · exact entriesLack_listEntry (by decide) blocksLack

theorem lacks_wrapped {name : String} {node : Json} (other : name ≠ "docString")
    (lack : Lacks key node) : Lacks key (wrapped family name node) := by
  unfold wrapped
  split
  · exact lack
  · exact lacks_object (entriesLack_singleton other lack)

theorem Body.result_lacks (foreign : Foreign family key) (body : Body) :
    Numbered.Yields (body.result family) fun nodes => ∀ node ∈ nodes, Lacks key node := by
  refine Numbered.Yields.bind (Numbered.Yields.mapM_all
    fun background _ => Background.result_lacks foreign background) fun before beforeLack => ?_
  refine Numbered.Yields.bind (Numbered.Yields.mapM_all
    fun test _ => Scenario.result_lacks foreign test) fun tests testsLack => ?_
  refine Numbered.Yields.pure fun node member => ?_
  rcases List.mem_append.mp member with member | member
  · obtain ⟨inner, inside, rfl⟩ := List.mem_map.mp member
    exact lacks_wrapped (by decide) (beforeLack inner inside)
  · obtain ⟨inner, inside, rfl⟩ := List.mem_map.mp member
    exact lacks_wrapped (by decide) (testsLack inner inside)

theorem Rule.result_lacks (foreign : Foreign family key) (rule : Rule) :
    Numbered.Yields (rule.result family) (Lacks key) := by
  refine Numbered.Yields.bind (Numbered.Yields.mapM_all fun tag _ => Tag.result_lacks key tag)
    fun tags tagsLack => ?_
  refine Numbered.Yields.bind (Body.result_lacks foreign rule.body) fun children lack => ?_
  exact lacks_complete (entriesLack_append (entriesLack_append (entriesLack_append
    (entriesLack_nodeEntries _ _) (entriesLack_listEntry (by decide) tagsLack))
    (entriesLack_headerEntries _)) (entriesLack_listEntry (by decide) lack))

theorem Feature.result_lacks (foreign : Foreign family key) (feature : Feature) :
    Numbered.Yields (feature.result family) (Lacks key) := by
  refine Numbered.Yields.bind (Numbered.Yields.mapM_all fun tag _ => Tag.result_lacks key tag)
    fun tags tagsLack => ?_
  refine Numbered.Yields.bind (Body.result_lacks foreign feature.body) fun children lack => ?_
  refine Numbered.Yields.bind (Numbered.Yields.mapM_all
    fun rule _ => Rule.result_lacks foreign rule) fun rules rulesLack => ?_
  refine Numbered.Yields.pure (lacks_object (entriesLack_append (entriesLack_append
    (entriesLack_append (entriesLack_append (entriesLack_nodeEntries _ _)
    (entriesLack_listEntry (by decide) tagsLack)) (entriesLack_textEntry (by decide) _))
    (entriesLack_headerEntries _)) (entriesLack_listEntry (by decide) fun node member => ?_)))
  rcases List.mem_append.mp member with member | member
  · exact lack node member
  · obtain ⟨inner, inside, rfl⟩ := List.mem_map.mp member
    exact lacks_wrapped (by decide) (rulesLack inner inside)

/-- No doc string of a message result has a field that only another family writes. -/
theorem result_lacks (foreign : Foreign family key) (messages : isTyped family = false)
    (uri : Text) (document : Document) : Lacks key (document.result family uri) := by
  rw [result_of_messages messages]
  refine lacks_object (entriesLack_singleton (by decide) (lacks_object ?_))
  refine entriesLack_append (entriesLack_append
    (entriesLack_singleton (by decide) (lacks_text uri)) ?_)
    (entriesLack_listEntry (by decide) (by simp))
  cases document.feature with
  | none => exact entriesLack_nil
  | some feature =>
      exact entriesLack_singleton (by decide) (Feature.result_lacks foreign feature 0)

end Document

namespace Family

open Document

theorem hasDocStringField_contentType (uri : Text) (document : Document) :
    (document.result .jsonSchema uri).hasDocStringField "contentType" = false :=
  Document.result_lacks ⟨by decide, by decide⟩ rfl uri document

theorem hasDocStringField_mediaType (uri : Text) (document : Document) :
    (document.result .protobuf uri).hasDocStringField "mediaType" = false :=
  Document.result_lacks ⟨by decide, by decide⟩ rfl uri document

/-- The envelope of a message result, with the comments as its family writes them. -/
theorem envelope?_result {family : Family} (messages : isTyped family = false) (uri : Text)
    (document : Document) :
    ∃ fields : Fields, envelope? (document.result family uri) = some fields ∧
      fields.get? "comments" = if omitsEmpty family then none else some (.list []) := by
  rw [result_of_messages messages, envelope?, Json.get?_object]
  refine ⟨_, rfl, ?_⟩
  rw [Fields.get?_ofList]
  cases document.feature <;> cases family <;> simp [listEntry, omitsEmpty]

/-- A result has the shape of its own family and of no other. -/
theorem recognizes_result_iff (family other : Family) (uri : Text) (document : Document) :
    other.recognizes (document.result family uri) = true ↔ other = family := by
  cases family with
  | typedTree =>
      cases other <;>
        simp [recognizes, result_of_typedTree, envelope?, Json.word, Json.asText?]
  | jsonSchema =>
      obtain ⟨fields, wrapped, comments⟩ :=
        envelope?_result (show isTyped .jsonSchema = false from rfl) uri document
      have type : (document.result .jsonSchema uri).get? "type" = none := by
        rw [result_of_messages rfl]
        simp
      cases other <;>
        simp [recognizes, wrapped, comments, type, omitsEmpty, Json.isList, Json.asList?,
          hasDocStringField_contentType]
  | protobuf =>
      obtain ⟨fields, wrapped, comments⟩ :=
        envelope?_result (show isTyped .protobuf = false from rfl) uri document
      have type : (document.result .protobuf uri).get? "type" = none := by
        rw [result_of_messages rfl]
        simp
      cases other <;>
        simp [recognizes, wrapped, comments, type, omitsEmpty, hasDocStringField_mediaType]

end Family

namespace Release

open Document

/-- A result is accepted by the releases of its family. -/
theorem accepts_result_iff (release : Release) (family : Family) (uri : Text)
    (document : Document) :
    release.accepts (document.result family uri) = true ↔ release.family = family :=
  Family.recognizes_result_iff family release.family uri document

/-- The newest release of a family is detected for its results. -/
theorem detect_result (family : Family) (uri : Text) (document : Document) :
    detect (document.result family uri) = .ok ⟨family.last, family⟩ := by
  have same : (fun release => release.accepts (document.result family uri)) =
      fun release : Release => decide (release.family = family) := by
    funext release
    rw [Bool.eq_iff_iff, accepts_result_iff, decide_eq_true_eq]
  unfold detect
  rw [same]
  cases family <;> rfl

end Release

end Gherkin
