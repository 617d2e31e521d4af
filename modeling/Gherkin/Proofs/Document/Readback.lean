import Gherkin.Proofs.Document.Record
import Gherkin.Record.OfResult

/-!
# Results read back as records

The result of a construct, in any family and from any number, reads back as the
record of the construct. What a family leaves out reads as empty, and the number
and the type of a node are not part of its record.
-/

namespace Gherkin

namespace Document

open Record

variable {family : Family} {key name : String}

/-! ## Reading the entries of a node back -/

@[simp]
theorem last?_numberEntry (differ : key ≠ "id") (number : Nat) :
    Fields.last? key (numberEntry family number) = none := by
  unfold numberEntry
  split <;> simp [differ]

@[simp]
theorem last?_location_nodeEntries (type : String) (place : Place) :
    Fields.last? "location" (nodeEntries family type place) = some (Json.object
      [("line", Json.natural place.line), ("column", Json.natural place.column)]) := by
  simp [nodeEntries]

@[simp]
theorem last?_nodeEntries_of_ne (type : String) (place : Place) (placed : key ≠ "location")
    (typed : key ≠ "type") : Fields.last? key (nodeEntries family type place) = none := by
  unfold nodeEntries
  split <;> simp [placed, typed]

theorem typeOf_object {entries : Entries} {type : String} (place : Place)
    (tree : isTyped family = true)
    (found : Fields.last? "type" entries = Fields.last? "type" (nodeEntries family type place)) :
    TypedTree.typeOf (Json.object entries) = Text.word type := by
  simp [TypedTree.typeOf, found, nodeEntries, tree, Json.word, Json.asText?]

@[simp]
theorem last?_textEntry_of_ne (differ : key ≠ name) (value : Text) :
    Fields.last? key (textEntry family name value) = none := by
  unfold textEntry
  split <;> simp [differ]

@[simp]
theorem last?_listEntry_of_ne (differ : key ≠ name) (items : List Json) :
    Fields.last? key (listEntry family name items) = none := by
  unfold listEntry
  split <;> simp [differ]

/-- An empty text that is left out reads as empty. -/
@[simp]
theorem getD_last?_textEntry (value : Text) :
    ((Fields.last? key (textEntry family key value)).bind Json.asText?).getD [] = value := by
  unfold textEntry
  split
  · next omitted => simp_all
  · simp [Json.asText?]

/-- An empty list that is left out reads as empty. -/
@[simp]
theorem getD_last?_listEntry (items : List Json) :
    ((Fields.last? key (listEntry family key items)).bind Json.asList?).getD [] = items := by
  unfold listEntry
  split
  · next omitted => simp_all
  · simp [Json.asList?]

theorem locationOf_object {entries : Entries} (place : Place)
    (found : Fields.last? "location" entries = some (Json.object
      [("line", Json.natural place.line), ("column", Json.natural place.column)])) :
    locationOf (Json.object entries) = place.location := by
  simp [locationOf, found, Json.asNatural?, Json.natural, Place.location]

@[simp]
theorem last?_headerEntries_of_ne (header : Header) (keyword : key ≠ "keyword")
    (name : key ≠ "name") (description : key ≠ "description") :
    Fields.last? key (headerEntries family header) = none := by
  unfold headerEntries
  split <;> simp [keyword, name, description]

@[simp]
theorem getD_last?_headerEntries_keyword (header : Header) :
    ((Fields.last? "keyword" (headerEntries family header)).bind Json.asText?).getD [] =
      header.keyword := by
  unfold headerEntries
  split <;> simp

@[simp]
theorem getD_last?_headerEntries_name (header : Header) :
    ((Fields.last? "name" (headerEntries family header)).bind Json.asText?).getD [] =
      header.name := by
  unfold headerEntries
  split <;> simp

@[simp]
theorem getD_last?_headerEntries_description (header : Header) :
    ((Fields.last? "description" (headerEntries family header)).bind Json.asText?).getD [] =
      header.description := by
  unfold headerEntries
  split
  · next omitted => simp_all
  · simp

theorem Tag.result_reads (family : Family) (tag : Tag) :
    Numbered.Yields (tag.result family) fun node => tagOf node = tag.record := by
  refine Numbered.Yields.complete fun number => ?_
  unfold tagOf
  rw [locationOf_object tag.place (by simp)]
  simp [Tag.record, textField, Json.asText?]

theorem cellResult_reads (family : Family) (line : Nat) :
    cellOf ∘ cellResult family line = cellRecord line := by
  funext cell
  rw [Function.comp_apply]
  unfold cellOf cellResult
  rw [locationOf_object ⟨line, cell.column⟩ (by simp)]
  simp [cellRecord, textField, Json.asText?, Place.location]

theorem Row.result_reads (family : Family) (row : Row) :
    Numbered.Yields (row.result family) fun node => rowOf node = row.record := by
  refine Numbered.Yields.complete fun number => ?_
  unfold rowOf
  rw [locationOf_object row.place (by simp)]
  simp [Row.record, cellResult_reads]

theorem tags_result_read (family : Family) (tags : List Tag) :
    Numbered.Yields (tags.mapM (Tag.result family)) fun nodes =>
      nodes.map tagOf = tags.map Tag.record :=
  Numbered.Yields.mapM fun tag _ => tag.result_reads family

theorem rows_result_read (family : Family) (rows : List Row) :
    Numbered.Yields (rows.mapM (Row.result family)) fun nodes =>
      nodes.map rowOf = rows.map Row.record :=
  Numbered.Yields.mapM fun row _ => row.result_reads family

/-- A table stands under the key of its family and, in the typed tree, names its type. -/
theorem table_result_reads (family : Family) (place : Place) (rows : List Row) :
    Numbered.Yields ((Argument.table place rows).result family) fun entries =>
      ∃ node, entries = [(if isTyped family then "argument" else "dataTable", node)] ∧
        tableOf node = (Argument.table place rows).record ∧
        (isTyped family = true → TypedTree.typeOf node = Text.word "DataTable") := by
  refine Numbered.Yields.bind (rows_result_read family rows) fun nodes read => ?_
  refine Numbered.Yields.pure ⟨_, rfl, ?_, ?_⟩
  · unfold tableOf
    rw [locationOf_object place (by simp)]
    simp [Argument.record, read]
  · intro typed
    simp [TypedTree.typeOf, nodeEntries, typed, Json.word, Json.asText?]

/-- A doc string stands under the key of its family and, in the typed tree, names its type. -/
theorem docString_result_reads (family : Family) (place : Place) (fence : Fence)
    {contentType : Option Text} (content : Text) (named : ∀ type ∈ contentType, type ≠ []) :
    Numbered.Yields ((Argument.docString place fence contentType content).result family)
      fun entries => ∃ node, entries = [(if isTyped family then "argument" else "docString", node)] ∧
        docStringOf (contentTypeKey family) node =
          (Argument.docString place fence contentType content).record ∧
        (isTyped family = true → TypedTree.typeOf node = Text.word "DocString") := by
  refine Numbered.Yields.pure ⟨_, rfl, ?_, ?_⟩
  · unfold docStringOf
    rw [locationOf_object place
      (by cases family <;> cases contentType <;> simp [isTyped, contentTypeKey])]
    cases contentType with
    | none => cases family <;> simp [Argument.record, isTyped, contentTypeKey]
    | some type =>
        have spelled : type ≠ [] := named type rfl
        cases family <;> simp [Argument.record, isTyped, contentTypeKey, Json.asText?, spelled]
  · intro typed
    cases family <;> cases contentType <;>
      simp_all [TypedTree.typeOf, nodeEntries, isTyped, Json.word, Json.asText?, contentTypeKey]

/-! ## How a family is read -/

/-- The block of a step in the results of a family. -/
def blockOf (family : Family) (context : Messages.Context) : Json → Json :=
  if isTyped family then TypedTree.block else Messages.block context

/-- The steps of a node in the results of a family. -/
def stepsOf (family : Family) (context : Messages.Context) (node : Json) : Json :=
  .list ((node.itemsAt "steps").map fun step => stepOf step (blockOf family context step))

/-- A child of a feature or rule in the results of a family. -/
def childOf (family : Family) (context : Messages.Context) : Json → Json :=
  if isTyped family then TypedTree.child else Messages.child context

variable {context : Messages.Context}

/-- Entries that a reader of blocks takes for one, wherever they stand in a step. -/
structure IsBlock (block : Json → Json) (record : Json) (entries : Entries) : Prop where
  apart : ∀ key ∈ ["location", "keyword", "text"], Fields.last? key entries = none
  reads : ∀ front back : Entries,
    (∀ key ∈ ["argument", "dataTable", "docString"],
      Fields.last? key front = none ∧ Fields.last? key back = none) →
    block (Json.object (front ++ entries ++ back)) = record

/-- The entry of a step that holds its argument, if it has one. -/
def argumentEntries (family : Family) : Option Argument → Numbered Entries
  | some argument => argument.result family
  | none => pure []

theorem argument_result_reads (keyed : context.contentTypeKey = contentTypeKey family)
    {argument : Option Argument} (spelled : ∀ given ∈ argument, given.Spelled) :
    Numbered.Yields (argumentEntries family argument)
      (IsBlock (blockOf family context) ((argument.map Argument.record).getD .null)) := by
  cases argument with
  | none =>
      refine Numbered.Yields.pure ⟨by simp, fun front back free => ?_⟩
      unfold blockOf
      split
      · simp [TypedTree.block, free]
      · simp [Messages.block, free]
  | some argument =>
      cases argument with
      | table place rows =>
          refine (table_result_reads family place rows).weaken ?_
          rintro _ ⟨node, rfl, read, typed⟩
          constructor
          · by_cases tree : isTyped family <;> simp [tree]
          · intro front back free
            unfold blockOf
            split
            · next tree => simp [TypedTree.block, free, typed tree, read]
            · simp [Messages.block, free, read]
      | docString place fence contentType content =>
          have named := fun type given => (spelled _ rfl type given).1
          refine (docString_result_reads family place fence content named).weaken ?_
          rintro _ ⟨node, rfl, read, typed⟩
          constructor
          · by_cases tree : isTyped family <;> simp [tree]
          · intro front back free
            unfold blockOf
            split
            · next tree =>
              have key : contentTypeKey family = "contentType" := by
                cases family <;> simp_all [isTyped, contentTypeKey]
              have other : ¬ Text.word "DocString" = Text.word "DataTable" := by decide
              simp [TypedTree.block, free, typed tree, ← read, key, other]
            · simp [Messages.block, free, ← read, keyed]

theorem Step.result_eq (family : Family) (step : Step) :
    step.result family = argumentEntries family step.argument >>= fun entries =>
      complete family (nodeEntries family "Step" step.place ++
        textEntry family "keyword" step.keyword ++ textEntry family "text" step.text ++
        entries) := by
  unfold Step.result
  cases step.argument <;> rfl

theorem Step.result_reads (keyed : context.contentTypeKey = contentTypeKey family) {step : Step}
    {dialect : Dialect} (spelled : step.Spelled dialect) :
    Numbered.Yields (step.result family) fun node =>
      stepOf node (blockOf family context node) = step.record := by
  rw [Step.result_eq]
  refine Numbered.Yields.bind (argument_result_reads keyed spelled.argument) fun entries block => ?_
  refine Numbered.Yields.complete fun number => ?_
  have read := block.reads (nodeEntries family "Step" step.place ++
    textEntry family "keyword" step.keyword ++ textEntry family "text" step.text)
    (numberEntry family number) (by simp)
  have apart := block.apart
  simp only [List.forall_mem_cons] at apart
  obtain ⟨noLocation, noKeyword, noText, -⟩ := apart
  unfold stepOf
  rw [locationOf_object step.place (by simp [noLocation]), read]
  simp [Step.record, textField, noKeyword, noText]

theorem steps_result_read (keyed : context.contentTypeKey = contentTypeKey family)
    {steps : List Step} {dialect : Dialect} (spelled : ∀ step ∈ steps, step.Spelled dialect) :
    Numbered.Yields (steps.mapM (Step.result family)) fun nodes =>
      nodes.map (fun node => stepOf node (blockOf family context node)) =
        steps.map Step.record :=
  Numbered.Yields.mapM fun step member => Step.result_reads keyed (spelled step member)

/-! ## Constructs with a header -/

/-- A node with the texts of a header reads as the header. -/
theorem headed_object (family : Family) (kind : Kind) (header : Header) {entries : Entries}
    (placed : Fields.last? "location" entries = some (Json.object
      [("line", Json.natural header.place.line), ("column", Json.natural header.place.column)]))
    (texts : ∀ key ∈ ["keyword", "name", "description"],
      Fields.last? key entries = Fields.last? key (headerEntries family header)) :
    headed kind (Json.object entries) = header.fields kind := by
  simp only [List.forall_mem_cons] at texts
  obtain ⟨keyword, name, description, -⟩ := texts
  unfold headed
  rw [locationOf_object header.place placed]
  simp [Header.fields, textField, keyword, name, description]

/-- The first row stands apart from the others, and reads in front of them. -/
theorem headRow_append_tail {rows : List Json} (objects : ∀ row ∈ rows, row.isNull = false) :
    ((rows.head?.filter fun row => !row.isNull).toList) ++ rows.tail = rows := by
  cases rows with
  | nil => rfl
  | cons row rest => simp [Option.filter, objects row List.mem_cons_self]

theorem last?_toList (row : Option Json) :
    Fields.last? key (row.map fun row => (name, row)).toList = if key = name then row else none := by
  cases row <;> simp

theorem Examples.result_reads (family : Family) (examples : Examples) :
    Numbered.Yields (examples.result family) fun node => exampleOf node = examples.record := by
  have objects : Numbered.Yields (examples.rows.mapM (Row.result family)) fun nodes =>
      ∀ node ∈ nodes, node.isNull = false :=
    Numbered.Yields.mapM_all fun row _ => Numbered.Yields.complete fun number => rfl
  refine Numbered.Yields.bind (tags_result_read family examples.tags) fun tags tagsRead => ?_
  refine Numbered.Yields.bind ((rows_result_read family examples.rows).and objects) ?_
  rintro rows ⟨rowsRead, rowObjects⟩
  refine Numbered.Yields.complete fun number => ?_
  unfold exampleOf
  rw [headed_object family .example examples.header (by simp [last?_toList])
    (by simp [last?_toList])]
  simp [tagsOf, tagsRead, last?_toList, Examples.record, headRow_append_tail rowObjects, rowsRead]

/-! ## Children -/

theorem childOf_background {node : Json}
    (typed : isTyped family = true → TypedTree.typeOf node = Text.word "Background") :
    childOf family context (wrapped family "background" node) =
      Json.object (headed .background node ++ [("steps", stepsOf family context node)]) := by
  unfold childOf wrapped stepsOf blockOf
  split
  · next tree =>
    unfold TypedTree.child
    rw [if_pos (typed tree)]
    rfl
  · rw [show Json.object [("background", node)] = .fields [("background", node)] from rfl,
      Messages.child, if_pos rfl]
    rfl

/-- A test is told to be an outline by its type, or by its keyword and its examples. -/
theorem childOf_scenario {node : Json} (outline : Bool)
    (typed : isTyped family = true →
      TypedTree.typeOf node = Text.word (if outline then "ScenarioOutline" else "Scenario"))
    (told : isTyped family = false → Messages.isOutline context node = outline) :
    childOf family context (wrapped family "scenario" node) =
      if outline then
        Json.object (headed .outline node ++ [("tags", tagsOf node),
          ("steps", stepsOf family context node),
          ("examples", .list ((node.itemsAt "examples").map exampleOf))])
      else
        Json.object (headed .scenario node ++
          [("tags", tagsOf node), ("steps", stepsOf family context node)]) := by
  have types : Text.word "Scenario" ≠ Text.word "Background" ∧
      Text.word "ScenarioOutline" ≠ Text.word "Background" ∧
      Text.word "ScenarioOutline" ≠ Text.word "Scenario" := by decide
  unfold childOf wrapped stepsOf blockOf
  split
  · next tree =>
    unfold TypedTree.child
    rw [typed tree]
    cases outline with
    | true =>
        simp only [if_true]
        rw [if_neg types.2.1, if_neg types.2.2]
        rfl
    | false =>
        simp only [Bool.false_eq_true, if_false]
        rw [if_neg types.1, if_pos trivial]
        rfl
  · next messages =>
    rw [show Json.object [("scenario", node)] = .fields [("scenario", node)] from rfl,
      Messages.child, if_neg (by decide), if_pos rfl, Messages.scenario,
      told (by simpa using messages)]
    rfl

theorem childOf_rule {node : Json} (messages : isTyped family = false) :
    childOf family context (wrapped family "rule" node) =
      Json.object (headed .rule node ++
        [("tags", if context.ruleTags then tagsOf node else .list []),
          ("children", .list ((node.itemsAt "children").map (childOf family context)))]) := by
  unfold childOf wrapped
  rw [messages, if_neg Bool.false_ne_true, if_neg Bool.false_ne_true,
    show Json.object [("rule", node)] = .fields [("rule", node)] from rfl,
    Messages.child, if_neg (by decide), if_neg (by decide), if_pos rfl]
  simp

theorem stepsOf_object {entries : Entries} {nodes : List Json} {steps : List Step}
    (found : Fields.last? "steps" entries = Fields.last? "steps" (listEntry family "steps" nodes))
    (read : nodes.map (fun node => stepOf node (blockOf family context node)) =
      steps.map Step.record) :
    stepsOf family context (Json.object entries) = .list (steps.map Step.record) := by
  simp [stepsOf, found, read]

theorem Background.result_reads (keyed : context.contentTypeKey = contentTypeKey family)
    {background : Background} {dialect : Dialect} (spelled : background.Spelled dialect) :
    Numbered.Yields (background.result family) fun node =>
      childOf family context (wrapped family "background" node) = background.record := by
  refine Numbered.Yields.bind (steps_result_read keyed spelled.steps) fun steps stepsRead => ?_
  refine Numbered.Yields.complete fun number => ?_
  rw [childOf_background fun tree => typeOf_object background.header.place tree (by simp),
    headed_object family .background background.header (by simp) (by simp),
    stepsOf_object (by simp) stepsRead]
  rfl

/-- In the typed tree a scenario that is no outline has no examples to leave out. -/
theorem getD_last?_examplesEntry (family : Family) {omitted : Bool} {blocks : List Json}
    (none : omitted = true → blocks = []) :
    ((Fields.last? "examples" (if omitted then [] else listEntry family "examples" blocks)).bind
      Json.asList?).getD [] = blocks := by
  split
  · next plain => exact (none plain).symm
  · exact getD_last?_listEntry blocks

theorem last?_examplesEntry_of_ne (family : Family) {key : String} (differ : key ≠ "examples")
    (omitted : Bool) (blocks : List Json) :
    Fields.last? key (if omitted then [] else listEntry family "examples" blocks) = none := by
  split
  · rfl
  · exact last?_listEntry_of_ne differ blocks

theorem Scenario.result_reads (keyed : context.contentTypeKey = contentTypeKey family)
    (regular : context.dialect.Regular) {scenario : Scenario}
    (spelled : scenario.Spelled context.dialect) :
    Numbered.Yields (scenario.result family) fun node =>
      childOf family context (wrapped family "scenario" node) = scenario.record := by
  have examplesRead : Numbered.Yields (scenario.examples.mapM (Examples.result family)) fun nodes =>
      nodes.map exampleOf = scenario.examples.map Examples.record :=
    Numbered.Yields.mapM fun block _ => block.result_reads family
  refine Numbered.Yields.bind (tags_result_read family scenario.tags) fun tags tagsRead => ?_
  refine Numbered.Yields.bind (steps_result_read keyed spelled.steps) fun steps stepsRead => ?_
  refine Numbered.Yields.bind examplesRead fun blocks blocksRead => ?_
  refine Numbered.Yields.complete fun number => ?_
  have header : scenario.header.construct ≠ .step := by
    rcases spelled.construct with same | same <;> simp [same]
  have keyword := Dialect.constructOf?_keyword regular header spelled.header.keyword
  have count : blocks.isEmpty = scenario.examples.isEmpty := by
    rw [Bool.eq_iff_iff, List.isEmpty_iff, List.isEmpty_iff, ← List.length_eq_zero_iff,
      ← List.length_eq_zero_iff]
    have := congrArg List.length blocksRead
    simp only [List.length_map] at this
    rw [this]
  have none (plain : (isTyped family && !scenario.isOutline) = true) : blocks = [] := by
    simp only [Bool.and_eq_true, Scenario.isOutline, Bool.not_eq_true', Bool.or_eq_false_iff,
      Bool.not_eq_false'] at plain
    exact List.isEmpty_iff.mp (count.trans plain.2.2)
  have examples := getD_last?_examplesEntry family none
  have apart (key : String) (differ : key ≠ "examples") :=
    last?_examplesEntry_of_ne family differ (isTyped family && !scenario.isOutline) blocks
  revert examples apart
  generalize (if isTyped family && !scenario.isOutline then []
    else listEntry family "examples" blocks) = more
  intro examples apart
  rw [childOf_scenario scenario.isOutline
      (fun tree => typeOf_object scenario.header.place tree (by simp [apart]))
      (fun _ => by simp [Messages.isOutline, apart, examples, keyword, count, Scenario.isOutline,
        Bool.or_comm]),
    headed_object family .outline scenario.header (by simp [apart]) (by simp [apart]),
    headed_object family .scenario scenario.header (by simp [apart]) (by simp [apart]),
    stepsOf_object (by simp [apart]) stepsRead]
  simp [tagsOf, apart, tagsRead, examples, blocksRead, Scenario.record]

/-- The children of a body, in their wrappers, read as its records. -/
theorem Body.result_reads (keyed : context.contentTypeKey = contentTypeKey family)
    (regular : context.dialect.Regular) {body : Body} (spelled : body.Spelled context.dialect) :
    Numbered.Yields (body.result family) fun nodes =>
      nodes.map (childOf family context) = body.records := by
  have before : Numbered.Yields (body.background.toList.mapM (Background.result family))
      fun nodes => nodes.map (fun node => childOf family context (wrapped family "background" node)) =
        body.background.toList.map Background.record :=
    Numbered.Yields.mapM fun background member =>
      Background.result_reads keyed (spelled.background background (by simpa using member))
  have behind : Numbered.Yields (body.tests.mapM (Scenario.result family)) fun nodes =>
      nodes.map (fun node => childOf family context (wrapped family "scenario" node)) =
        body.tests.map Scenario.record :=
    Numbered.Yields.mapM fun test member =>
      Scenario.result_reads keyed regular (spelled.tests test member)
  refine Numbered.Yields.bind before fun backgrounds backgroundsRead => ?_
  refine Numbered.Yields.bind behind fun tests testsRead => ?_
  refine Numbered.Yields.pure ?_
  rw [List.map_append, List.map_map, List.map_map]
  exact congrArg₂ (· ++ ·) backgroundsRead testsRead

theorem Rule.result_reads (messages : isTyped family = false)
    (keyed : context.contentTypeKey = contentTypeKey family) (regular : context.dialect.Regular)
    {rule : Rule} (spelled : rule.Spelled context.dialect)
    (tagged : context.ruleTags = true ∨ rule.tags = []) :
    Numbered.Yields (rule.result family) fun node =>
      childOf family context (wrapped family "rule" node) = rule.record := by
  refine Numbered.Yields.bind (tags_result_read family rule.tags) fun tags tagsRead => ?_
  refine Numbered.Yields.bind (Body.result_reads keyed regular spelled.body) ?_
  intro children childrenRead
  refine Numbered.Yields.complete fun number => ?_
  rw [childOf_rule messages, headed_object family .rule rule.header (by simp) (by simp)]
  rcases tagged with tagged | untagged
  · simp [tagged, tagsOf, tagsRead, childrenRead, Rule.record]
  · have empty : tags = [] := by simpa [untagged] using tagsRead
    simp [tagsOf, empty, untagged, childrenRead, Rule.record]

variable (context) in
theorem Feature.result_reads (keyed : context.contentTypeKey = contentTypeKey family)
    (regular : context.dialect.Regular) {feature : Feature}
    (spelled : feature.Spelled context.dialect)
    (tagged : ∀ rule ∈ feature.rules, context.ruleTags = true ∨ rule.tags = [])
    (ruled : isTyped family = false ∨ feature.rules = []) :
    Numbered.Yields (feature.result family) fun node =>
      featureOf node ((node.itemsAt "children").map (childOf family context)) = feature.record ∧
        node.isNull = false ∧
        (node.get? "language").bind Json.asText? = some feature.language := by
  have rulesRead : Numbered.Yields (feature.rules.mapM (Rule.result family)) fun nodes =>
      nodes.map (fun node => childOf family context (wrapped family "rule" node)) =
        feature.rules.map Rule.record := by
    refine Numbered.Yields.mapM fun rule member => ?_
    rcases ruled with messages | none
    · exact Rule.result_reads messages keyed regular (spelled.rules rule member)
        (tagged rule member)
    · simp [none] at member
  refine Numbered.Yields.bind (tags_result_read family feature.tags) fun tags tagsRead => ?_
  refine Numbered.Yields.bind (Body.result_reads keyed regular spelled.body) ?_
  intro children childrenRead
  refine Numbered.Yields.bind rulesRead fun rules rulesRead => ?_
  have language : textEntry family "language" feature.language =
      [("language", .text feature.language)] := by
    have written : feature.language ≠ [] := spelled.language ▸ regular.code.1
    simp [textEntry, written]
  refine Numbered.Yields.pure ⟨?_, rfl, ?_⟩
  · unfold featureOf
    rw [headed_object family .feature feature.header (by simp) (by simp)]
    simp [textField, tagsOf, tagsRead, childrenRead, ← rulesRead, Feature.record]
    rfl
  · simp [language, Json.asText?]

end Document

/-! ## Documents -/

namespace Document

/-- What the envelope of a message result holds. -/
def envelope (family : Family) (uri : Text) (document : Document) : Json :=
  Json.object ([("uri", .text uri)] ++
    ((document.feature.map fun feature => ((feature.result family).run 0).1).map
      fun feature => ("feature", feature)).toList ++
    listEntry family "comments" [])

theorem result_of_messages {family : Family} (messages : isTyped family = false) (uri : Text)
    (document : Document) :
    document.result family uri = Json.object [("gherkinDocument", envelope family uri document)] := by
  unfold result
  rw [messages]
  rfl

theorem result_of_typedTree (uri : Text) (document : Document) :
    document.result .typedTree uri =
      Json.object [("type", Json.word "GherkinDocument"),
        ("feature", (document.feature.map fun feature =>
          ((feature.result .typedTree).run 0).1).getD .null),
        ("comments", .list [])] := rfl

open Record

/-- A typed tree reads as the record of its document, without the name of a file. -/
theorem typedTree_result_reads {dialect : Dialect} (regular : dialect.Regular) (uri : Text)
    {document : Document} (spelled : ∀ feature ∈ document.feature, feature.Spelled dialect)
    (noRules : ∀ feature ∈ document.feature, feature.rules = []) :
    TypedTree.document (document.result .typedTree uri) = document.record [] := by
  rw [result_of_typedTree]
  cases found : document.feature with
  | none =>
      simp [TypedTree.document, found, Json.isNull, featureFileOf, Document.record, textField,
        Option.filter]
  | some feature =>
      obtain ⟨read, object, _⟩ := Feature.result_reads ⟨dialect, true, "contentType"⟩
        (show _ = contentTypeKey .typedTree from rfl) regular (spelled feature found)
        (fun _ _ => .inl rfl) (.inr (noRules feature found)) 0
      change featureOf _ ((Json.itemsAt "children" _).map TypedTree.child) = _ at read
      simp [TypedTree.document, found, object, read, featureFileOf, Document.record, textField,
        Option.filter]

/-- The envelope of a message result reads as the record of its document, in whatever
dialect is active. -/
theorem messages_result_reads {family : Family} {active dialect : Dialect} {ruleTags : Bool}
    (messages : isTyped family = false) (known : dialect ∈ Dialect.all) (uri : Text)
    {document : Document} (spelled : ∀ feature ∈ document.feature, feature.Spelled dialect)
    (tagged : ∀ feature ∈ document.feature, ∀ rule ∈ feature.rules,
      ruleTags = true ∨ rule.tags = []) :
    Messages.document active ruleTags (contentTypeKey family) (envelope family uri document) =
      document.record uri := by
  unfold envelope
  cases found : document.feature with
  | none => simp [Messages.document, featureFileOf, Document.record, textField, found, Json.asText?]
  | some feature =>
      obtain ⟨read, object, language⟩ := Feature.result_reads
        ⟨dialect, ruleTags, contentTypeKey family⟩ rfl (Dialect.regular_of_mem_all known)
        (spelled feature found) (tagged feature found) (.inl messages) 0
      simp only [childOf, messages, Bool.false_eq_true, if_false] at read
      have named : Messages.dialectOf active ((feature.result family).run 0).1 = dialect := by
        rw [Messages.dialectOf, language, (spelled feature found).language, Option.bind_some,
          Dialect.find?_code known]
        rfl
      simp [Messages.document, Messages.feature, named, found, object, read, featureFileOf,
        Document.record, textField, Json.asText?, Option.filter]

end Document

namespace Release

open Document Record

theorem isTyped_iff {release : Release} (supported : release ∈ all) :
    isTyped release.family = true ↔ release.hasRules = false := by
  revert release
  decide

/-- The result of a document is normalized to its record. Only the message families name
the file. -/
theorem normalize_result {release : Release} {active dialect : Dialect} {uri : Text}
    {document : Document} (supported : release ∈ all) (known : dialect ∈ Dialect.all)
    (spelled : ∀ feature ∈ document.feature, feature.Spelled dialect)
    (admitted : ∀ feature ∈ document.feature, feature.Admitted release)
    (accepted : release.accepts (document.result release.family uri) = true) :
    release.normalize active (document.result release.family uri) =
      .ok (document.record (if isTyped release.family then [] else uri)) := by
  unfold normalize
  rw [if_pos accepted]
  split
  · next tree =>
    have noRules : ∀ feature ∈ document.feature, feature.rules = [] := by
      intro feature given
      refine List.eq_nil_iff_forall_not_mem.mpr fun rule member => ?_
      have rules := ((admitted feature given).rules rule member).rules
      rw [(isTyped_iff supported).mp (by rw [tree]; rfl)] at rules
      cases rules
    rw [tree, typedTree_result_reads (Dialect.regular_of_mem_all known) uri spelled noRules]
    rfl
  · next other =>
    have messages : isTyped release.family = false := by simpa [isTyped] using other
    rw [result_of_messages messages, Json.get?_object]
    simp only [Fields.last?_cons, Fields.last?_nil, Option.none_or, if_true]
    rw [messages_result_reads messages known uri spelled fun feature given rule member =>
      ((admitted feature given).rules rule member).tags, messages]
    rfl

end Release

end Gherkin
