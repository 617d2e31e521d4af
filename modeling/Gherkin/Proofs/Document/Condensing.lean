import Gherkin.Proofs.Document.Readback
import Gherkin.Proofs.Json.Condensed

/-!
# Condensed results

A document is handed on in the same way by both message families, but for what the protobuf family
leaves out and for the key of content types: its result is the condensed result of the other
family. The two are related node by node, from whatever number they start.
-/

namespace Gherkin

open Json (condensed condensedFields condensedFields_append)

namespace Document

variable {α β γ δ : Type} {family : Family}

/-! ### Entries and their keys -/

/-- The keys of entries are among given keys, in their order. -/
def Keyed (keys : List String) (entries : Entries) : Prop := (entries.map Prod.fst).Sublist keys

theorem Keyed.append {keys others : List String} {front back : Entries} (before : Keyed keys front)
    (after : Keyed others back) : Keyed (keys ++ others) (front ++ back) := by
  rw [Keyed, List.map_append]
  exact List.Sublist.append before after

theorem keyed_singleton (key : String) (value : Json) : Keyed [key] [(key, value)] :=
  List.Sublist.refl _

theorem keyed_nodeEntries (messages : isTyped family = false) (type : String) (place : Place) :
    Keyed ["location"] (nodeEntries family type place) := by
  simp [Keyed, nodeEntries, messages]

theorem keyed_textEntry (key : String) (value : Text) :
    Keyed [key] (textEntry family key value) := by
  unfold textEntry
  split
  · exact List.nil_sublist _
  · exact keyed_singleton ..

theorem keyed_listEntry (key : String) (items : List Json) :
    Keyed [key] (listEntry family key items) := by
  unfold listEntry
  split
  · exact List.nil_sublist _
  · exact keyed_singleton ..

theorem headerEntries_of_messages (messages : isTyped family = false) (header : Header) :
    headerEntries family header = textEntry family "keyword" header.keyword ++
      textEntry family "name" header.name ++ textEntry family "description" header.description := by
  rw [headerEntries, messages, Bool.and_false, if_neg Bool.false_ne_true]

/-! ### Condensed entries -/

theorem condensed_place (place : Place) :
    (Json.object [("line", Json.natural place.line),
      ("column", Json.natural place.column)]).condensed =
        Json.object [("line", Json.natural place.line), ("column", Json.natural place.column)] := by
  rw [Json.condensed_object (by simp)]
  rfl

/-- Entries under given keys, and the entries that are left when they are condensed. -/
structure EntriesCondense (keys : List String) (entries others : Entries) : Prop where
  keyed : Keyed keys entries
  eq : others = condensedFields entries

namespace EntriesCondense

variable {key : String} {keys more : List String} {front back start rest : Entries}

theorem append (before : EntriesCondense keys front start)
    (after : EntriesCondense more back rest) :
    EntriesCondense (keys ++ more) (front ++ back) (start ++ rest) :=
  ⟨before.keyed.append after.keyed, by rw [before.eq, after.eq, condensedFields_append]⟩

/-- A field that remains is condensed with its value. -/
theorem field {value other : Json} (remains : value.isVacant = false ∨ key ∈ Json.keptKeys)
    (plain : key ≠ "docString") (condensed : other = value.condensed) :
    EntriesCondense [key] [(key, value)] [(key, other)] :=
  ⟨keyed_singleton .., by rw [condensed, Json.condensedFields_singleton remains plain]⟩

theorem node (type : String) (place : Place) : EntriesCondense ["location"]
    (nodeEntries .jsonSchema type place) (nodeEntries .protobuf type place) :=
  .field (.inl rfl) (by decide) (condensed_place place).symm

/-- A text field remains unless it is empty, and then neither family keeps it. -/
theorem text (key : String) (dropped : key ∉ "docString" :: Json.keptKeys) (value : Text) :
    EntriesCondense [key] (textEntry .jsonSchema key value) (textEntry .protobuf key value) := by
  obtain ⟨plain, unkept⟩ := not_or.mp (List.mem_cons.not.mp dropped)
  cases value with
  | nil => exact ⟨keyed_singleton .., (Json.condensedFields_of_isVacant rfl unkept).symm⟩
  | cons first rest => exact .field (.inl rfl) plain (Json.condensed_text _).symm

theorem header (header : Header) : EntriesCondense ["keyword", "name", "description"]
    (headerEntries .jsonSchema header) (headerEntries .protobuf header) := by
  rw [headerEntries_of_messages rfl, headerEntries_of_messages rfl]
  exact ((text "keyword" (by decide) _).append (text "name" (by decide) _)).append
    (text "description" (by decide) _)

end EntriesCondense

theorem isVacant_number (number : Nat) : (Json.word (toString number)).isVacant = false := by
  have some : Text.word (toString number) ≠ [] := by simp [Text.word]
  obtain ⟨first, rest, digits⟩ := List.exists_cons_of_ne_nil some
  rw [Json.word, digits]
  rfl

/-! ### Results of both families -/

/-- Two numbered results are related, and leave the same number as the next free one. -/
def Numbered.Pairs (result : Numbered α) (other : Numbered β) (related : α → β → Prop) : Prop :=
  ∀ start, related (result.run start).1 (other.run start).1 ∧
    (result.run start).2 = (other.run start).2

namespace Numbered.Pairs

variable {related : α → β → Prop} {after : γ → δ → Prop}

theorem pure {value : α} {other : β} (holds : related value other) :
    Pairs (Pure.pure value) (Pure.pure other) related := fun _ => ⟨holds, rfl⟩

theorem bind {first : Numbered α} {other : Numbered β} {next : α → Numbered γ}
    {alike : β → Numbered δ} (before : Pairs first other related)
    (rest : ∀ value held, related value held → Pairs (next value) (alike held) after) :
    Pairs (first >>= next) (other >>= alike) after := by
  intro start
  obtain ⟨values, numbers⟩ := before start
  have final := rest _ _ values (first.run start).2
  rw [StateT.run_bind, StateT.run_bind]
  change after ((next _).run _).1 ((alike _).run _).1 ∧ ((next _).run _).2 = ((alike _).run _).2
  rw [← numbers]
  exact final

theorem mapM {result : γ → Numbered α} {other : γ → Numbered β} {items : List γ}
    (each : ∀ item ∈ items, Pairs (result item) (other item) related) :
    Pairs (items.mapM result) (items.mapM other) (List.Forall₂ related) := by
  induction items with
  | nil => exact pure .nil
  | cons item rest ih =>
    obtain ⟨here, later⟩ := List.forall_mem_cons.mp each
    rw [List.mapM_cons, List.mapM_cons]
    refine bind here fun node held same => bind (ih later) fun nodes others alike => ?_
    exact pure (.cons same alike)

end Numbered.Pairs

/-- A node that holds something, and its condensed form. -/
structure Condenses (node other : Json) : Prop where
  given : node.isVacant = false
  eq : other = node.condensed

theorem Condenses.all {nodes others : List Json} (each : List.Forall₂ Condenses nodes others) :
    others = nodes.map condensed := by
  induction each with
  | nil => rfl
  | cons here _ ih => rw [List.map_cons, here.eq, ih]

/-- A list field is condensed node by node. -/
theorem EntriesCondense.list (key : String) (dropped : key ∉ "docString" :: Json.keptKeys)
    {nodes others : List Json} (each : List.Forall₂ Condenses nodes others) :
    EntriesCondense [key] (listEntry .jsonSchema key nodes) (listEntry .protobuf key others) := by
  obtain ⟨plain, unkept⟩ := not_or.mp (List.mem_cons.not.mp dropped)
  have all := Condenses.all each
  cases each with
  | nil => exact ⟨keyed_singleton .., (Json.condensedFields_of_isVacant rfl unkept).symm⟩
  | cons here later =>
    exact .field (.inl rfl) plain (by rw [Json.condensed_list, all])

/-- An object is condensed if its entries are. -/
theorem object_condenses {keys : List String} {entries others : Entries}
    (inside : EntriesCondense keys entries others) (distinct : keys.Nodup) :
    Condenses (Json.object entries) (Json.object others) :=
  ⟨rfl, by rw [inside.eq, Json.condensed_object (inside.keyed.nodup distinct)]⟩

/-- A completed node is condensed if its entries are. -/
theorem complete_condenses {keys : List String} {entries others : Entries}
    (inside : EntriesCondense keys entries others) (distinct : (keys ++ ["id"]).Nodup) :
    Numbered.Pairs (complete .jsonSchema entries) (complete .protobuf others) Condenses := by
  intro start
  have number : EntriesCondense ["id"] [("id", Json.word (toString start))]
      [("id", Json.word (toString start))] :=
    .field (.inl (isVacant_number start)) (by decide) (Json.condensed_text _).symm
  exact ⟨object_condenses (inside.append number) distinct, rfl⟩

theorem Tag.condenses {tag : Tag} (named : IsTagName tag.name) :
    Numbered.Pairs (tag.result .jsonSchema) (tag.result .protobuf) Condenses := by
  obtain ⟨_, _, shape⟩ := named.shape
  have name : EntriesCondense ["name"] [("name", .text tag.name)] [("name", .text tag.name)] :=
    .field (.inl (by rw [shape]; rfl)) (by decide) (Json.condensed_text _).symm
  exact complete_condenses ((EntriesCondense.node ..).append name) (by decide)

theorem cellResult_condenses (line : Nat) (cell : Cell) :
    Condenses (cellResult .jsonSchema line cell) (cellResult .protobuf line cell) :=
  object_condenses ((EntriesCondense.node ..).append
    (.field (.inr (by decide)) (by decide) (Json.condensed_text _).symm)) (by decide)

theorem Row.condenses (row : Row) :
    Numbered.Pairs (row.result .jsonSchema) (row.result .protobuf) Condenses := by
  have cells : List.Forall₂ Condenses (row.cells.map (cellResult .jsonSchema row.place.line))
      (row.cells.map (cellResult .protobuf row.place.line)) := by
    rw [List.forall₂_map_left_iff, List.forall₂_map_right_iff, List.forall₂_same]
    exact fun cell _ => cellResult_condenses row.place.line cell
  exact complete_condenses ((EntriesCondense.node ..).append (.list "cells" (by decide) cells))
    (by decide)

/-- The entries of an argument, and their condensed form. -/
structure CondensesArgument (entries others : Entries) : Prop where
  keyed : Keyed ["dataTable"] entries ∨ Keyed ["docString"] entries
  eq : others = condensedFields entries

/-- The entries of an argument have one key. -/
theorem CondensesArgument.entries {entries others : Entries}
    (argument : CondensesArgument entries others) :
    EntriesCondense ["dataTable"] entries others ∨ EntriesCondense ["docString"] entries others :=
  argument.keyed.imp (fun keyed => ⟨keyed, argument.eq⟩) fun keyed => ⟨keyed, argument.eq⟩

/-- The entry of a content type that is given. -/
def contentTypeEntry (key : String) (contentType : Option Text) : Entries :=
  contentType.toList.map fun type => (key, .text type)

theorem keyed_contentTypeEntry (key : String) (contentType : Option Text) :
    Keyed [key] (contentTypeEntry key contentType) := by
  cases contentType with
  | none => exact List.nil_sublist _
  | some type => exact keyed_singleton ..

theorem EntriesCondense.contentType {contentType : Option Text}
    (named : ∀ type ∈ contentType, type ≠ []) :
    EntriesCondense ["mediaType"] (contentTypeEntry "mediaType" contentType)
      (contentTypeEntry "mediaType" contentType) := by
  cases contentType with
  | none => exact ⟨keyed_contentTypeEntry .., rfl⟩
  | some type =>
    obtain ⟨first, rest, rfl⟩ := List.exists_cons_of_ne_nil (named type rfl)
    exact .field (.inl rfl) (by decide) (Json.condensed_text _).symm

/-- The entries of a doc string whose content type is given under a key. -/
def docStringEntries (family : Family) (key : String) (place : Place) (fence : Fence)
    (contentType : Option Text) (content : Text) : Entries :=
  nodeEntries family "DocString" place ++ contentTypeEntry key contentType ++
    textEntry family "content" content ++ [("delimiter", .text fence.text)]

theorem argumentEntries_docString (messages : isTyped family = false) (place : Place)
    (fence : Fence) (contentType : Option Text) (content : Text) :
    argumentEntries family (some (.docString place fence contentType content)) =
      Pure.pure [("docString", Json.object
        (docStringEntries family (contentTypeKey family) place fence contentType content))] := by
  unfold argumentEntries Argument.result
  rw [messages]
  cases contentType <;> rfl

theorem keyed_docStringEntries (messages : isTyped family = false) {key : String} (place : Place)
    (fence : Fence) (contentType : Option Text) (content : Text) :
    Keyed ["location", key, "content", "delimiter"]
      (docStringEntries family key place fence contentType content) :=
  (((keyed_nodeEntries messages ..).append (keyed_contentTypeEntry ..)).append
    (keyed_textEntry ..)).append (keyed_singleton ..)

theorem EntriesCondense.docString {contentType : Option Text}
    (named : ∀ type ∈ contentType, type ≠ []) (place : Place) (fence : Fence) (content : Text) :
    EntriesCondense ["location", "mediaType", "content", "delimiter"]
      (docStringEntries .jsonSchema "mediaType" place fence contentType content)
      (docStringEntries .protobuf "mediaType" place fence contentType content) := by
  have delimiter : EntriesCondense ["delimiter"] [("delimiter", .text fence.text)]
      [("delimiter", .text fence.text)] :=
    .field (.inl (by cases fence <;> rfl)) (by decide) (Json.condensed_text _).symm
  exact (((node ..).append (.contentType named)).append
    (text "content" (by decide) _)).append delimiter

theorem map_rename_docStringEntries (place : Place) (fence : Fence) (contentType : Option Text)
    (content : Text) :
    (docStringEntries .protobuf "mediaType" place fence contentType content).map (fun entry =>
      (if entry.1 = "mediaType" then "contentType" else entry.1, entry.2)) =
        docStringEntries .protobuf "contentType" place fence contentType content := by
  cases contentType <;> cases content <;>
    simp [docStringEntries, nodeEntries, isTyped, contentTypeEntry, textEntry, omitsEmpty]

theorem renamed_condensed_docString {contentType : Option Text}
    (named : ∀ type ∈ contentType, type ≠ []) (place : Place) (fence : Fence) (content : Text) :
    (Json.object (docStringEntries .jsonSchema "mediaType" place fence contentType
      content)).condensed.renamed "mediaType" "contentType" =
        Json.object (docStringEntries .protobuf "contentType" place fence contentType content) := by
  have inside := EntriesCondense.docString named place fence content
  have keyed : Keyed ["location", "mediaType", "content", "delimiter"]
      (docStringEntries .protobuf "mediaType" place fence contentType content) :=
    keyed_docStringEntries rfl ..
  have apart := (List.Sublist.map (fun key => if key = "mediaType" then "contentType" else key)
    keyed).nodup (by decide)
  rw [List.map_map] at apart
  rw [Json.condensed_object (inside.keyed.nodup (by decide)), ← inside.eq,
    Json.renamed_object (keyed.nodup (by decide)) apart, map_rename_docStringEntries]

theorem table_condenses (place : Place) {rows others : List Json}
    (each : List.Forall₂ Condenses rows others) :
    Condenses (Json.object (nodeEntries .jsonSchema "DataTable" place ++
        listEntry .jsonSchema "rows" rows))
      (Json.object (nodeEntries .protobuf "DataTable" place ++
        listEntry .protobuf "rows" others)) :=
  object_condenses ((EntriesCondense.node ..).append (.list "rows" (by decide) each)) (by decide)

theorem argumentEntries_condense {argument : Option Argument}
    (spelled : ∀ given ∈ argument, given.Spelled) :
    Numbered.Pairs (argumentEntries .jsonSchema argument) (argumentEntries .protobuf argument)
      CondensesArgument := by
  cases argument with
  | none => exact .pure ⟨.inl (List.nil_sublist _), rfl⟩
  | some argument =>
    cases argument with
    | table place rows =>
      refine .bind (.mapM fun row _ => row.condenses) fun nodes others each => .pure ?_
      have inside : EntriesCondense ["dataTable"] _ _ :=
        .field (.inl rfl) (by decide) (table_condenses place each).eq
      exact ⟨.inl inside.keyed, inside.eq⟩
    | docString place fence contentType content =>
      have named : ∀ type ∈ contentType, type ≠ [] := fun type given => (spelled _ rfl type given).1
      rw [argumentEntries_docString rfl, argumentEntries_docString rfl]
      refine .pure ⟨.inr (keyed_singleton ..), ?_⟩
      rw [Json.condensedFields_docString rfl]
      exact congrArg (fun value => [("docString", value)])
        (renamed_condensed_docString named place fence content).symm

theorem Step.Spelled.condenses {dialect : Dialect} {step : Step} (spelled : step.Spelled dialect) :
    Numbered.Pairs (step.result .jsonSchema) (step.result .protobuf) Condenses := by
  rw [Step.result_eq, Step.result_eq]
  refine .bind (argumentEntries_condense spelled.argument) fun entries others argument => ?_
  have before := ((EntriesCondense.node "Step" step.place).append
    (.text "keyword" (by decide) step.keyword)).append (.text "text" (by decide) step.text)
  rcases argument.entries with inside | inside
  · exact complete_condenses (before.append inside) (by decide)
  · exact complete_condenses (before.append inside) (by decide)

variable {dialect : Dialect}

theorem Background.Spelled.condenses {background : Background}
    (spelled : background.Spelled dialect) :
    Numbered.Pairs (background.result .jsonSchema) (background.result .protobuf) Condenses := by
  refine .bind (.mapM fun step member => (spelled.steps step member).condenses)
    fun steps others each => ?_
  exact complete_condenses (((EntriesCondense.node ..).append (.header _)).append
    (.list "steps" (by decide) each)) (by decide)

/-- The entry of a table header that is given. -/
def tableHeaderEntry (rows : List Json) : Entries :=
  (rows.head?.map fun row => ("tableHeader", row)).toList

theorem keyed_tableHeaderEntry (rows : List Json) :
    Keyed ["tableHeader"] (tableHeaderEntry rows) := by
  cases rows with
  | nil => exact List.nil_sublist _
  | cons row rest => exact keyed_singleton ..

theorem EntriesCondense.tableHeader {rows others : List Json}
    (each : List.Forall₂ Condenses rows others) :
    EntriesCondense ["tableHeader"] (tableHeaderEntry rows) (tableHeaderEntry others) := by
  cases each with
  | nil => exact ⟨keyed_tableHeaderEntry .., rfl⟩
  | cons here _ => exact .field (.inl here.given) (by decide) here.eq

theorem Examples.Spelled.condenses {examples : Examples} (spelled : examples.Spelled dialect) :
    Numbered.Pairs (examples.result .jsonSchema) (examples.result .protobuf) Condenses := by
  refine .bind (.mapM fun tag member => Tag.condenses (spelled.tags tag member))
    fun tags otherTags eachTag => ?_
  refine .bind (.mapM fun row _ => row.condenses) fun rows otherRows eachRow => ?_
  have tail : List.Forall₂ Condenses rows.tail otherRows.tail := by
    cases eachRow with
    | nil => exact .nil
    | cons _ later => exact later
  exact complete_condenses (((((EntriesCondense.node ..).append
    (.list "tags" (by decide) eachTag)).append (.header _)).append
      (.tableHeader eachRow)).append (.list "tableBody" (by decide) tail)) (by decide)

theorem Scenario.Spelled.condenses {scenario : Scenario} (spelled : scenario.Spelled dialect) :
    Numbered.Pairs (scenario.result .jsonSchema) (scenario.result .protobuf) Condenses := by
  refine .bind (.mapM fun tag member => Tag.condenses (spelled.tags tag member))
    fun tags otherTags eachTag => ?_
  refine .bind (.mapM fun step member => (spelled.steps step member).condenses)
    fun steps otherSteps eachStep => ?_
  refine .bind (.mapM fun block member => (spelled.examples block member).condenses)
    fun blocks otherBlocks eachBlock => ?_
  exact complete_condenses (((((EntriesCondense.node ..).append
    (.list "tags" (by decide) eachTag)).append (.header _)).append
      (.list "steps" (by decide) eachStep)).append (.list "examples" (by decide) eachBlock))
        (by decide)

/-- A node in its wrapper is condensed if it is condensed on its own. -/
theorem Condenses.wrapped {key : String} (plain : key ≠ "docString") {node other : Json}
    (condenses : Condenses node other) :
    Condenses (Document.wrapped .jsonSchema key node) (Document.wrapped .protobuf key other) := by
  exact object_condenses (.field (.inl condenses.given) plain condenses.eq)
    (List.nodup_singleton key)

theorem Condenses.map_wrapped {key : String} (plain : key ≠ "docString") {nodes others : List Json}
    (each : List.Forall₂ Condenses nodes others) :
    List.Forall₂ Condenses (nodes.map (Document.wrapped .jsonSchema key))
      (others.map (Document.wrapped .protobuf key)) := by
  rw [List.forall₂_map_left_iff, List.forall₂_map_right_iff]
  exact each.imp fun _ _ condenses => condenses.wrapped plain

theorem Body.Spelled.condenses {body : Body} (spelled : body.Spelled dialect) :
    Numbered.Pairs (body.result .jsonSchema) (body.result .protobuf)
      (List.Forall₂ Condenses) := by
  refine .bind (.mapM fun background member =>
    (spelled.background background (Option.mem_toList.mp member)).condenses)
      fun before others each => ?_
  refine .bind (.mapM fun test member => (spelled.tests test member).condenses)
    fun tests otherTests eachTest => .pure ?_
  exact List.rel_append (Condenses.map_wrapped (by decide) each)
    (Condenses.map_wrapped (by decide) eachTest)

theorem Rule.Spelled.condenses {rule : Rule} (spelled : rule.Spelled dialect) :
    Numbered.Pairs (rule.result .jsonSchema) (rule.result .protobuf) Condenses := by
  refine .bind (.mapM fun tag member => Tag.condenses (spelled.tags tag member))
    fun tags otherTags eachTag => ?_
  refine .bind spelled.body.condenses fun children others each => ?_
  exact complete_condenses ((((EntriesCondense.node ..).append
    (.list "tags" (by decide) eachTag)).append (.header _)).append
      (.list "children" (by decide) each)) (by decide)

theorem Feature.Spelled.condenses {feature : Feature} (spelled : feature.Spelled dialect) :
    Numbered.Pairs (feature.result .jsonSchema) (feature.result .protobuf) Condenses := by
  refine .bind (.mapM fun tag member => Tag.condenses (spelled.tags tag member))
    fun tags otherTags eachTag => ?_
  refine .bind spelled.body.condenses fun children others each => ?_
  refine .bind (.mapM fun rule member => (spelled.rules rule member).condenses)
    fun rules otherRules eachRule => .pure ?_
  have plain : "rule" ≠ "docString" := by decide
  have all : List.Forall₂ Condenses (children ++ rules.map (wrapped .jsonSchema "rule"))
      (others ++ otherRules.map (wrapped .protobuf "rule")) :=
    List.rel_append each (Condenses.map_wrapped plain eachRule)
  exact object_condenses (((((EntriesCondense.node ..).append
    (.list "tags" (by decide) eachTag)).append (.text "language" (by decide) _)).append
      (.header _)).append (.list "children" (by decide) all)) (by decide)

/-- The entry of a feature that is given. -/
def featureEntry (feature : Option Json) : Entries :=
  (feature.map fun feature => ("feature", feature)).toList

theorem keyed_featureEntry (feature : Option Json) : Keyed ["feature"] (featureEntry feature) := by
  cases feature with
  | none => exact List.nil_sublist _
  | some feature => exact keyed_singleton ..

/-- The feature in the result of a family. -/
def featureResult (family : Family) (document : Document) : Option Json :=
  document.feature.map fun feature => ((feature.result family).run 0).1

theorem EntriesCondense.feature {document : Document}
    (spelled : ∀ feature ∈ document.feature, feature.Spelled dialect) :
    EntriesCondense ["feature"] (featureEntry (document.featureResult .jsonSchema))
      (featureEntry (document.featureResult .protobuf)) := by
  cases held : document.feature with
  | none =>
    simp only [featureResult, held, Option.map_none]
    exact ⟨keyed_featureEntry _, rfl⟩
  | some feature =>
    obtain ⟨condenses, -⟩ := (spelled feature held).condenses 0
    simp only [featureResult, held, Option.map_some]
    exact .field (.inl condenses.given) (by decide) condenses.eq

/-- The protobuf result of a document is its condensed result of the other message family. -/
theorem result_condenses {document : Document}
    (spelled : ∀ feature ∈ document.feature, feature.Spelled dialect) (uri : Text) :
    Condenses (document.result .jsonSchema uri) (document.result .protobuf uri) := by
  rw [result_of_messages rfl, result_of_messages rfl]
  have place : EntriesCondense ["uri"] [("uri", .text uri)] [("uri", .text uri)] :=
    .field (.inr (by decide)) (by decide) (Json.condensed_text _).symm
  have inner : Condenses (envelope .jsonSchema uri document) (envelope .protobuf uri document) :=
    object_condenses ((place.append (.feature spelled)).append (.list "comments" (by decide) .nil))
      (by decide)
  exact object_condenses (.field (.inl rfl) (by decide) inner.eq) (by decide)

end Document

end Gherkin
