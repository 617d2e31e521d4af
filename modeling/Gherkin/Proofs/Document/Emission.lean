import Gherkin.Proofs.Pipeline
import Gherkin.Proofs.Document.Condensing

/-!
# The two emissions of messages

Every node but the feature draws the next number and carries it, so the numbers in a result are
those that were drawn, each once. With the condensing of results, the emissions of both message
families are one document with the same numbers.
-/

namespace Gherkin

open Json (members fieldMembers)

namespace Document

variable {α β γ : Type} {family : Family} {dialect : Dialect}

/-- The numbers below the next free one, as nodes carry them. -/
def drawn (next : Nat) : List Json :=
  (List.range next).map fun number => Json.word (toString number)

/-- A result that starts when given numbers have been drawn ends when those in its value have. -/
def Numbered.Draws (prior : List Json) (result : Numbered α) (numbers : α → List Json) : Prop :=
  ∀ start, prior.Perm (drawn start) →
    (numbers (result.run start).1).Perm (drawn (result.run start).2)

namespace Numbered.Draws

variable {prior other : List Json} {middle : α → List Json} {numbers : β → List Json}

theorem pure {value : β} (alike : (numbers value).Perm prior) :
    Draws prior (Pure.pure value) numbers := fun _ before => alike.trans before

theorem bind {first : Numbered α} {next : α → Numbered β} (before : Draws prior first middle)
    (after : ∀ value, Draws (middle value) (next value) numbers) :
    Draws prior (first >>= next) numbers := fun start already =>
  after _ (first.run start).2 (before start already)

theorem bind_of_yields {first : Numbered α} {next : α → Numbered β} {property : α → Prop}
    (before : Draws prior first middle) (yields : Numbered.Yields first property)
    (after : ∀ value, property value → Draws (middle value) (next value) numbers) :
    Draws prior (first >>= next) numbers := fun start already =>
  after _ (yields start) (first.run start).2 (before start already)

theorem of_perm {result : Numbered β} (draws : Draws other result numbers)
    (alike : prior.Perm other) : Draws prior result numbers := fun start already =>
  draws start (alike.symm.trans already)

/-- Each node of a list draws its own numbers. -/
theorem mapM {result : γ → Numbered Json} {items : List γ} (each : ∀ item ∈ items, ∀ prior,
    Draws prior (result item) fun node => prior ++ members "id" node) (prior : List Json) :
    Draws prior (items.mapM result) fun nodes => prior ++ nodes.flatMap (members "id") := by
  induction items generalizing prior with
  | nil => exact pure (by simp)
  | cons item rest ih =>
    obtain ⟨here, later⟩ := List.forall_mem_cons.mp each
    rw [List.mapM_cons]
    refine bind (here prior) fun node => bind (ih later _) fun nodes => pure ?_
    rw [List.flatMap_cons, List.append_assoc]

end Numbered.Draws

theorem fieldMembers_singleton {key name : String} (other : name ≠ key) (value : Json) :
    fieldMembers key [(name, value)] = members key value := by
  rw [fieldMembers, if_neg other, List.nil_append, fieldMembers, List.append_nil]

/-- Entries under given keys, and the numbers of the nodes in them. -/
structure EntriesCarry (keys : List String) (entries : Entries) (numbers : List Json) : Prop where
  keyed : Keyed keys entries
  eq : fieldMembers "id" entries = numbers

namespace EntriesCarry

variable {key : String} {keys more : List String} {front back entries : Entries}
  {numbers later : List Json}

theorem append (before : EntriesCarry keys front numbers) (after : EntriesCarry more back later) :
    EntriesCarry (keys ++ more) (front ++ back) (numbers ++ later) :=
  ⟨before.keyed.append after.keyed, by rw [Json.fieldMembers_append, before.eq, after.eq]⟩

/-- A field carries the numbers of its value. -/
theorem field (key : String) (other : key ≠ "id") (value : Json) :
    EntriesCarry [key] [(key, value)] (members "id" value) :=
  ⟨keyed_singleton .., fieldMembers_singleton other value⟩

theorem object (inside : EntriesCarry keys entries numbers) (distinct : keys.Nodup) :
    (members "id" (Json.object entries)).Perm numbers :=
  inside.eq ▸ Json.members_object "id" (inside.keyed.nodup distinct)

theorem node (messages : isTyped family = false) (type : String) (place : Place) :
    EntriesCarry ["location"] (nodeEntries family type place) [] := by
  rw [nodeEntries, messages, if_neg Bool.false_ne_true, List.nil_append]
  have inside := ((field "line" (by decide) (Json.natural place.line)).append
    (field "column" (by decide) (Json.natural place.column))).object (by decide)
  exact ⟨keyed_singleton .., (fieldMembers_singleton (by decide) _).trans inside.eq_nil⟩

theorem text (key : String) (other : key ≠ "id") (value : Text) :
    EntriesCarry [key] (textEntry family key value) [] := by
  refine ⟨keyed_textEntry .., ?_⟩
  unfold textEntry
  split
  · rfl
  · exact (field key other (.text value)).eq

theorem list (key : String) (other : key ≠ "id") (items : List Json) :
    EntriesCarry [key] (listEntry family key items) (items.flatMap (members "id")) := by
  refine ⟨keyed_listEntry .., ?_⟩
  unfold listEntry
  split
  · next omitted =>
    rw [List.isEmpty_iff.mp (Bool.and_eq_true_iff.mp omitted).1]
    rfl
  · rw [(field key other (.list items)).eq, members, Json.itemMembers_eq]

theorem header (messages : isTyped family = false) (header : Header) :
    EntriesCarry ["keyword", "name", "description"] (headerEntries family header) [] := by
  rw [headerEntries_of_messages messages]
  exact ((text "keyword" (by decide) _).append (text "name" (by decide) _)).append
    (text "description" (by decide) _)

end EntriesCarry

/-- A completed node draws one number, besides those in its entries. -/
theorem complete_draws (messages : isTyped family = false) {keys : List String} {entries : Entries}
    {numbers : List Json} (inside : EntriesCarry keys entries numbers)
    (distinct : (keys ++ ["id"]).Nodup) {prior before : List Json}
    (already : before = prior ++ numbers) :
    Numbered.Draws before (complete family entries) fun node => prior ++ members "id" node := by
  intro start alike
  have run : (complete family entries).run start =
      (Json.object (entries ++ [("id", Json.word (toString start))]), start + 1) := by
    unfold complete
    rw [messages]
    rfl
  rw [run]
  have own := Json.members_object "id"
    ((inside.keyed.append (keyed_singleton "id" (Json.word (toString start)))).nodup distinct)
  rw [Json.fieldMembers_append, inside.eq] at own
  refine (own.append_left prior).trans ?_
  have next : drawn (start + 1) = drawn start ++ [Json.word (toString start)] := by
    rw [drawn, List.range_succ, List.map_append]
    rfl
  rw [← List.append_assoc, ← already, next]
  exact alike.append_right _

/-- A node draws the numbers in it. -/
def DrawsOwn (result : Numbered Json) : Prop :=
  ∀ prior, Numbered.Draws prior result fun node => prior ++ members "id" node

theorem Tag.drawsOwn (messages : isTyped family = false) (tag : Tag) :
    DrawsOwn (tag.result family) := by
  intro prior
  exact complete_draws messages
    ((EntriesCarry.node messages ..).append (.field "name" (by decide) _)) (by decide)
      (List.append_nil prior).symm

theorem numbers_cellResult (messages : isTyped family = false) (line : Nat) (cell : Cell) :
    members "id" (cellResult family line cell) = [] := by
  have inside := (EntriesCarry.node messages "TableCell" ⟨line, cell.column⟩).append
    (.field "value" (by decide) (.text cell.value))
  exact (inside.object (by decide)).eq_nil

theorem Row.drawsOwn (messages : isTyped family = false) (row : Row) :
    DrawsOwn (row.result family) := by
  intro prior
  refine complete_draws messages
    ((EntriesCarry.node messages ..).append (.list "cells" (by decide) _)) (by decide) ?_
  have cells : (row.cells.map (cellResult family row.place.line)).flatMap (members "id") = [] := by
    rw [List.flatMap_map, List.flatMap_eq_nil_iff]
    exact fun cell _ => numbers_cellResult messages row.place.line cell
  rw [cells]
  exact (List.append_nil prior).symm

/-- Nodes of a list draw the numbers in them one after the other. -/
theorem draws_mapM {result : γ → Numbered Json} {items : List γ}
    (each : ∀ item ∈ items, DrawsOwn (result item)) (prior : List Json) :
    Numbered.Draws prior (items.mapM result) fun nodes => prior ++ nodes.flatMap (members "id") :=
  .mapM each prior

theorem EntriesCarry.docString (messages : isTyped family = false) {key : String}
    (plain : key ≠ "id") (place : Place) (fence : Fence) (contentType : Option Text)
    (content : Text) :
    EntriesCarry ["location", key, "content", "delimiter"]
      (docStringEntries family key place fence contentType content) [] := by
  have type : EntriesCarry [key] (contentTypeEntry key contentType) [] := by
    refine ⟨keyed_contentTypeEntry .., ?_⟩
    cases contentType with
    | none => rfl
    | some type => exact fieldMembers_singleton plain _
  exact (((node messages ..).append type).append (text "content" (by decide) _)).append
    (field "delimiter" (by decide) _)

theorem argumentEntries_draw (messages : isTyped family = false) (argument : Option Argument)
    (prior : List Json) : Numbered.Draws prior (argumentEntries family argument) fun entries =>
      prior ++ fieldMembers "id" entries := by
  cases argument with
  | none => exact .pure (by rw [fieldMembers, List.append_nil])
  | some argument =>
    cases argument with
    | table place rows =>
      refine .bind (draws_mapM (fun row _ => row.drawsOwn messages) prior) fun nodes => .pure ?_
      rw [messages, if_neg Bool.false_ne_true, fieldMembers_singleton (by decide)]
      exact List.Perm.append_left prior (EntriesCarry.object ((EntriesCarry.node messages ..).append
        (.list "rows" (by decide) _)) (by decide))
    | docString place fence contentType content =>
      rw [argumentEntries_docString messages]
      refine .pure ?_
      have distinct : ["location", contentTypeKey family, "content", "delimiter"].Nodup := by
        cases family <;> decide
      have plain : contentTypeKey family ≠ "id" := by cases family <;> decide
      have inside := EntriesCarry.docString messages plain place fence contentType content
      rw [fieldMembers_singleton (by decide), (inside.object distinct).eq_nil, List.append_nil]

theorem keyed_argumentEntries (messages : isTyped family = false) (argument : Option Argument) :
    Numbered.Yields (argumentEntries family argument) fun entries =>
      Keyed ["dataTable"] entries ∨ Keyed ["docString"] entries := by
  cases argument with
  | none => exact .pure (.inl (List.nil_sublist _))
  | some argument =>
    cases argument with
    | table place rows =>
      have any : Numbered.Yields (rows.mapM (Row.result family)) fun _ => True := fun _ => trivial
      refine .bind any fun nodes _ => .pure (.inl ?_)
      rw [messages, if_neg Bool.false_ne_true]
      exact keyed_singleton ..
    | docString place fence contentType content =>
      rw [argumentEntries_docString messages]
      exact .pure (.inr (keyed_singleton ..))

theorem Step.drawsOwn (messages : isTyped family = false) (step : Step) :
    DrawsOwn (step.result family) := by
  intro prior
  rw [Step.result_eq]
  refine .bind_of_yields (argumentEntries_draw messages step.argument prior)
    (keyed_argumentEntries messages step.argument) fun entries keyed => ?_
  rcases keyed with keyed | keyed
  · exact complete_draws messages ((((EntriesCarry.node messages ..).append
      (.text "keyword" (by decide) _)).append (.text "text" (by decide) _)).append ⟨keyed, rfl⟩)
        (by decide) rfl
  · exact complete_draws messages ((((EntriesCarry.node messages ..).append
      (.text "keyword" (by decide) _)).append (.text "text" (by decide) _)).append ⟨keyed, rfl⟩)
        (by decide) rfl

theorem Background.drawsOwn (messages : isTyped family = false) (background : Background) :
    DrawsOwn (background.result family) := by
  intro prior
  refine .bind (draws_mapM (fun step _ => step.drawsOwn messages) prior) fun steps => ?_
  exact complete_draws messages (((EntriesCarry.node messages ..).append
    (.header messages _)).append (.list "steps" (by decide) _)) (by decide) rfl

theorem numbers_tableHeaderEntry (rows : List Json) :
    fieldMembers "id" (tableHeaderEntry rows) ++ rows.tail.flatMap (members "id") =
      rows.flatMap (members "id") := by
  cases rows with
  | nil => rfl
  | cons row rest =>
    change fieldMembers "id" [("tableHeader", row)] ++ rest.flatMap _ = _
    rw [fieldMembers_singleton (by decide), List.flatMap_cons]

theorem Examples.drawsOwn (messages : isTyped family = false) (examples : Examples) :
    DrawsOwn (examples.result family) := by
  intro prior
  refine .bind (draws_mapM (fun tag _ => tag.drawsOwn messages) prior) fun tags => ?_
  refine .bind (draws_mapM (fun row _ => row.drawsOwn messages) _) fun rows => ?_
  refine complete_draws messages (((((EntriesCarry.node messages ..).append
    (.list "tags" (by decide) _)).append (.header messages _)).append
      ⟨keyed_tableHeaderEntry rows, rfl⟩).append (.list "tableBody" (by decide) _)) (by decide) ?_
  rw [List.append_assoc _ (fieldMembers "id" _), numbers_tableHeaderEntry]
  simp

theorem Scenario.drawsOwn (messages : isTyped family = false) (scenario : Scenario) :
    DrawsOwn (scenario.result family) := by
  intro prior
  refine .bind (draws_mapM (fun tag _ => tag.drawsOwn messages) prior) fun tags => ?_
  refine .bind (draws_mapM (fun step _ => step.drawsOwn messages) _) fun steps => ?_
  refine .bind (draws_mapM (fun block _ => block.drawsOwn messages) _) fun blocks => ?_
  dsimp only
  rw [messages, Bool.false_and, if_neg Bool.false_ne_true]
  refine complete_draws messages (((((EntriesCarry.node messages ..).append
    (.list "tags" (by decide) _)).append (.header messages _)).append
      (.list "steps" (by decide) _)).append (.list "examples" (by decide) _)) (by decide) ?_
  simp

theorem numbers_wrapped (messages : isTyped family = false) {key : String} (other : key ≠ "id")
    (nodes : List Json) :
    (nodes.map (wrapped family key)).flatMap (members "id") = nodes.flatMap (members "id") := by
  rw [List.flatMap_map]
  refine List.flatMap_congr fun node _ => ?_
  unfold wrapped
  rw [messages, if_neg Bool.false_ne_true]
  exact fieldMembers_singleton other node

theorem Body.draws (messages : isTyped family = false) (body : Body) (prior : List Json) :
    Numbered.Draws prior (body.result family) fun nodes =>
      prior ++ nodes.flatMap (members "id") := by
  refine .bind (draws_mapM (fun background _ => background.drawsOwn messages) prior)
    fun before => ?_
  refine .bind (draws_mapM (fun test _ => test.drawsOwn messages) _) fun tests => .pure ?_
  rw [List.flatMap_append, numbers_wrapped messages (by decide),
    numbers_wrapped messages (by decide), List.append_assoc]

theorem Rule.drawsOwn (messages : isTyped family = false) (rule : Rule) :
    DrawsOwn (rule.result family) := by
  intro prior
  refine .bind (draws_mapM (fun tag _ => tag.drawsOwn messages) prior) fun tags => ?_
  refine .bind (rule.body.draws messages _) fun children => ?_
  refine complete_draws messages ((((EntriesCarry.node messages ..).append
    (.list "tags" (by decide) _)).append (.header messages _)).append
      (.list "children" (by decide) _)) (by decide) ?_
  simp

theorem Feature.drawsOwn (messages : isTyped family = false) (feature : Feature) :
    DrawsOwn (feature.result family) := by
  intro prior
  refine .bind (draws_mapM (fun tag _ => tag.drawsOwn messages) prior) fun tags => ?_
  refine .bind (feature.body.draws messages _) fun children => ?_
  refine .bind (draws_mapM (fun rule _ => rule.drawsOwn messages) _) fun rules => .pure ?_
  refine List.Perm.trans (List.Perm.append_left prior (EntriesCarry.object
    (((((EntriesCarry.node messages ..).append (.list "tags" (by decide) _)).append
      (.text "language" (by decide) _)).append (.header messages _)).append
        (.list "children" (by decide) _)) (by decide))) ?_
  rw [List.flatMap_append, numbers_wrapped messages (by decide)]
  simp

/-- How many numbers are drawn for a document. -/
def drawnCount (family : Family) (document : Document) : Nat :=
  (document.feature.map fun feature => ((feature.result family).run 0).2).getD 0

theorem numbers_featureEntry (messages : isTyped family = false) (document : Document) :
    (fieldMembers "id" (featureEntry (document.featureResult family))).Perm
      (drawn (document.drawnCount family)) := by
  unfold featureResult drawnCount
  cases document.feature with
  | none => exact .refl _
  | some feature =>
    change (fieldMembers "id" [("feature", _)]).Perm _
    rw [fieldMembers_singleton (by decide)]
    exact feature.drawsOwn messages [] 0 (.refl _)

/-- The numbers of the nodes in a message result are those that were drawn. -/
theorem numbers_result (messages : isTyped family = false) (uri : Text) (document : Document) :
    (members "id" (document.result family uri)).Perm (drawn (document.drawnCount family)) := by
  have inner : (members "id" (envelope family uri document)).Perm
      (fieldMembers "id" (featureEntry (document.featureResult family))) := by
    exact List.Perm.trans (EntriesCarry.object (((EntriesCarry.field "uri" (by decide) _).append
      ⟨keyed_featureEntry (document.featureResult family), rfl⟩).append
        (.list "comments" (by decide) [])) (by decide)) (.of_eq (List.append_nil _))
  rw [result_of_messages messages]
  exact (EntriesCarry.field _ (by decide) _ |>.object (by decide)).trans
    (inner.trans (numbers_featureEntry messages document))

/-- Both message families draw as many numbers for a document. -/
theorem drawnCount_eq {document : Document}
    (spelled : ∀ feature ∈ document.feature, feature.Spelled dialect) :
    document.drawnCount .jsonSchema = document.drawnCount .protobuf := by
  unfold drawnCount
  cases held : document.feature with
  | none => rw [Option.map_none, Option.map_none]
  | some feature =>
    rw [Option.map_some, Option.map_some, Option.getD_some, Option.getD_some]
    exact ((spelled feature held).condenses 0).2

/-- No two numbers are written alike. -/
theorem nodup_drawn (next : Nat) : (drawn next).Nodup := by
  refine List.nodup_range.map fun number other same => ?_
  have alike : number.repr.toList = other.repr.toList := Json.text.inj same
  rw [Nat.toList_repr, Nat.toList_repr] at alike
  have read : Nat.ofDigitChars 10 _ 0 = Nat.ofDigitChars 10 _ 0 :=
    congrArg (fun digits => Nat.ofDigitChars 10 digits 0) alike
  rwa [Nat.ofDigitChars_toDigits (by decide) (by decide),
    Nat.ofDigitChars_toDigits (by decide) (by decide)] at read

/-- What the two message families make of one document: the protobuf result is the condensed other
one, and the numbers of the nodes are in both of them those below one count, each once. -/
structure EmissionsAgree (document : Document) (uri : Text) : Prop where
  condensed : (document.result .jsonSchema uri).condensed = document.result .protobuf uri
  numbered : ∃ count, ∀ family ∈ [Family.jsonSchema, .protobuf],
    (members "id" (document.result family uri)).Perm
      ((List.range count).map fun number => Json.word (toString number))
  once : ∀ family ∈ [Family.jsonSchema, .protobuf],
    (members "id" (document.result family uri)).Nodup

/-- The two message families hand on one document. -/
theorem emissionsAgree_of_read {release : Release} {dialect : Dialect} {file source : Text}
    {document : Document} (known : dialect ∈ Dialect.all)
    (read : Document.read release dialect file source = .ok document) (uri : Text) :
    document.EmissionsAgree uri := by
  obtain ⟨settled, _, spelled, _⟩ := spelled_of_read known read
  have numbered : ∀ family ∈ [Family.jsonSchema, .protobuf],
      (members "id" (document.result family uri)).Perm
        (drawn (document.drawnCount .jsonSchema)) := by
    intro family message
    rcases List.mem_pair.mp message with rfl | rfl
    · exact numbers_result rfl uri document
    · rw [drawnCount_eq spelled]
      exact numbers_result rfl uri document
  refine ⟨(result_condenses spelled uri).eq.symm, ⟨_, numbered⟩, fun family message => ?_⟩
  exact (numbered family message).nodup_iff.mpr (nodup_drawn _)

/-- A document with steps, a table, a doc string and tags. -/
theorem emissionsAgree_sampleSource :
    Dialect.english ∈ Dialect.all ∧
      ∃ document, Document.read .newest .english [] sampleSource = .ok document ∧
        document.EmissionsAgree (Text.word "a.feature") := by
  have known : Dialect.english ∈ Dialect.all := by decide
  have accepted : (Document.read .newest .english [] sampleSource).isOk = true := by
    decide +kernel
  cases read : Document.read .newest .english [] sampleSource with
  | error error => simp [read, Except.isOk, Except.toBool] at accepted
  | ok document => exact ⟨known, document, rfl, emissionsAgree_of_read known read _⟩

end Document

end Gherkin
