import Gherkin.Proofs.Detection
import Gherkin.Proofs.Json.Omission

/-!
# Normalization and default fields

A message result from which default fields have been left out is normalized to the same record,
but for the few fields that count by being there at all: a block of a step, the header of an
examples block, the key of a wrapper and the feature itself. What a result has of these is its
skeleton, and two results of which one leaves out defaults of the other have one record exactly
if they have one skeleton.
-/

namespace Gherkin

open Document

namespace Record

variable {node variant : Json} {items others : List Json}

/-! ### Parts that read the same -/

theorem map_eq_iff_of_omits {α β : Type} {f : Json → α} {g : Json → β}
    (each : List.Forall₂ Json.Omits items others)
    (alike : ∀ item ∈ items, ∀ other, item.Omits other → (f item = f other ↔ g item = g other)) :
    items.map f = others.map f ↔ items.map g = others.map g := by
  induction each with
  | nil => exact iff_of_true rfl rfl
  | cons omits _ ih =>
    obtain ⟨here, later⟩ := List.forall_mem_cons.mp alike
    rw [List.map_cons, List.map_cons, List.map_cons, List.map_cons, List.cons.injEq,
      List.cons.injEq, here _ omits, ih later]

theorem map_eq_of_omits {α : Type} {f : Json → α} (each : List.Forall₂ Json.Omits items others)
    (read : ∀ item other, item.Omits other → f item = f other) : items.map f = others.map f := by
  induction each with
  | nil => rfl
  | cons omits _ ih => rw [List.map_cons, List.map_cons, read _ _ omits, ih]

theorem locationOf_of_omits (omits : node.Omits variant) : locationOf node = locationOf variant := by
  have line : ((node.get? "location").bind (Json.get? "line")).bind Json.asNatural? =
      ((variant.get? "location").bind (Json.get? "line")).bind Json.asNatural? := by
    have location := omits.get? "location"
    generalize node.get? "location" = place, variant.get? "location" = remaining at location ⊢
    cases location with
    | absent => rfl
    | dropped vacant => rw [Option.bind_some, Json.get?_of_isDefault vacant]; rfl
    | @kept place remaining inner =>
      have number := inner.get? "line"
      rw [Option.bind_some, Option.bind_some]
      generalize place.get? "line" = count, remaining.get? "line" = left at number ⊢
      cases number with
      | absent => rfl
      | kept inner => exact inner.asNatural?
      | dropped vacant => exact Json.asNatural?_of_isDefault vacant
  rw [locationOf, locationOf, line]

theorem headed_of_omits (omits : node.Omits variant) (kind : Kind) :
    headed kind node = headed kind variant := by
  simp only [headed, textField, omits.textAt, locationOf_of_omits omits]

theorem tagOf_of_omits (omits : node.Omits variant) : tagOf node = tagOf variant := by
  simp only [tagOf, textField, omits.textAt, locationOf_of_omits omits]

theorem tagsOf_of_omits (omits : node.Omits variant) : tagsOf node = tagsOf variant := by
  rw [tagsOf, tagsOf, map_eq_of_omits (omits.itemsAt "tags") fun _ _ => tagOf_of_omits]

theorem cellOf_of_omits (omits : node.Omits variant) : cellOf node = cellOf variant := by
  simp only [cellOf, textField, omits.textAt, locationOf_of_omits omits]

theorem rowOf_of_omits (omits : node.Omits variant) : rowOf node = rowOf variant := by
  rw [rowOf, rowOf, locationOf_of_omits omits,
    map_eq_of_omits (omits.itemsAt "cells") fun _ _ => cellOf_of_omits]

theorem tableOf_of_omits (omits : node.Omits variant) : tableOf node = tableOf variant := by
  rw [tableOf, tableOf, locationOf_of_omits omits,
    map_eq_of_omits (omits.itemsAt "rows") fun _ _ => rowOf_of_omits]

theorem docStringOf_of_omits (omits : node.Omits variant) (key : String) :
    docStringOf key node = docStringOf key variant := by
  simp only [docStringOf, omits.textAt, locationOf_of_omits omits]

theorem kind_tableOf : (tableOf node).get? "kind" = some (Json.word Kind.table.symbol) := by
  simp [tableOf]

theorem kind_docStringOf {key : String} :
    (docStringOf key node).get? "kind" = some (Json.word Kind.docString.symbol) := by
  simp [docStringOf]

/-! ### Parts that count by their presence -/

namespace Messages

variable (context : Context)

/-- The key that the block of a step is under. -/
def blockKey? (step : Json) : Option String :=
  ["dataTable", "docString"].find? fun key => (step.get? key).isSome

/-- Whether an examples block has a header. -/
def hasHeader (examples : Json) : Bool :=
  ((examples.get? "tableHeader").filter fun row => !row.isNull).isSome

/-- What counts in a child by its presence alone: the keys of the blocks of steps, the headers of
examples, and the key of the wrapper. -/
inductive Skeleton where
  | background (blocks : List (Option String))
  | scenario (blocks : List (Option String)) (headers : List Bool)
  | rule (children : List Skeleton)
  | other (key : Option Text)

namespace Skeleton

/-- The skeleton of the child in a wrapper. -/
def ofChild : Json → Skeleton
  | .fields ((key, node) :: _) =>
    if key = "background" then .background ((node.itemsAt "steps").map blockKey?)
    else if key = "scenario" then
      .scenario ((node.itemsAt "steps").map blockKey?) ((node.itemsAt "examples").map hasHeader)
    else if key = "rule" then
      .rule ((node.itemsAt "children").attach.map fun item => ofChild item.1)
    else .other (some (Text.word key))
  | _ => .other none
termination_by wrapper => sizeOf wrapper
decreasing_by
  have smaller := sizeOf_of_mem_itemsAt item.2
  simp only [Json.fields.sizeOf_spec, List.cons.sizeOf_spec, Prod.mk.sizeOf_spec]
  omega

end Skeleton

theorem block_eq_iff_of_omits (omits : node.Omits variant) :
    block context node = block context variant ↔ blockKey? node = blockKey? variant := by
  have tables := omits.get? "dataTable"
  have texts := omits.get? "docString"
  unfold block blockKey?
  simp only [List.find?]
  generalize node.get? "dataTable" = table, variant.get? "dataTable" = otherTable at tables ⊢
  generalize node.get? "docString" = text, variant.get? "docString" = otherText at texts ⊢
  cases tables with
  | kept inner => simp [tableOf_of_omits inner]
  | absent =>
    cases texts with
    | absent => simp
    | kept inner => simp [docStringOf_of_omits inner]
    | dropped vacant => simp [docStringOf, Json.object]
  | dropped vacant =>
    cases texts with
    | absent => simp [tableOf, Json.object]
    | dropped _ => simp [tableOf, Json.object]
    | kept inner =>
      simp only [Option.isSome_some, Option.isSome_none]
      refine iff_of_false (fun same => ?_) (by decide)
      have kinds := congrArg (Json.get? "kind") same
      rw [kind_tableOf, kind_docStringOf] at kinds
      exact absurd kinds (by simp [Json.word, Kind.symbol, Text.word])

theorem steps_eq_iff_of_omits (omits : node.Omits variant) :
    steps context node = steps context variant ↔
      (node.itemsAt "steps").map blockKey? = (variant.itemsAt "steps").map blockKey? := by
  rw [steps, steps, Json.list.injEq]
  refine map_eq_iff_of_omits (omits.itemsAt "steps") fun step _ other inner => ?_
  rw [← block_eq_iff_of_omits context inner]
  refine ⟨fun same => by simpa [stepOf] using congrArg (Json.get? "block") same, fun same => ?_⟩
  simp only [stepOf, textField, inner.textAt, locationOf_of_omits inner, same]

/-- The row that a header gives. -/
def headerRows (header : Option Json) : List Json :=
  (header.filter fun row => !row.isNull).toList.map rowOf

theorem headerRows_eq_iff_of_omits {header remaining : Option Json}
    (omits : Json.OmitsField header remaining) : headerRows header = headerRows remaining ↔
      (header.filter fun row => !row.isNull).isSome =
        (remaining.filter fun row => !row.isNull).isSome := by
  unfold headerRows
  cases omits with
  | absent => exact iff_of_true rfl rfl
  | @kept header remaining inner =>
    cases null : remaining.isNull <;>
      simp [Option.filter_some, inner.isNull, null, rowOf_of_omits inner]
  | @dropped header vacant =>
    cases null : header.isNull <;> simp [Option.filter_some, null]

theorem exampleOf_eq : exampleOf node = Json.object (headed .example node ++
    [("tags", tagsOf node), ("rows", .list (headerRows (node.get? "tableHeader") ++
      (node.itemsAt "tableBody").map rowOf))]) := by
  rw [exampleOf, List.map_append]
  rfl

theorem exampleOf_eq_iff_of_omits (omits : node.Omits variant) :
    exampleOf node = exampleOf variant ↔ hasHeader node = hasHeader variant := by
  rw [hasHeader, hasHeader, ← headerRows_eq_iff_of_omits (omits.get? "tableHeader"), exampleOf_eq,
    exampleOf_eq, headed_of_omits omits, tagsOf_of_omits omits,
    map_eq_of_omits (omits.itemsAt "tableBody") fun _ _ => rowOf_of_omits]
  refine ⟨fun same => ?_, fun same => by rw [same]⟩
  simpa using congrArg (Json.get? "rows") same

theorem examples_eq_iff_of_omits (omits : node.Omits variant) :
    (node.itemsAt "examples").map exampleOf = (variant.itemsAt "examples").map exampleOf ↔
      (node.itemsAt "examples").map hasHeader = (variant.itemsAt "examples").map hasHeader :=
  map_eq_iff_of_omits (omits.itemsAt "examples") fun _ _ _ => exampleOf_eq_iff_of_omits

theorem background_eq_iff_of_omits (omits : node.Omits variant) :
    background context node = background context variant ↔
      (node.itemsAt "steps").map blockKey? = (variant.itemsAt "steps").map blockKey? := by
  rw [← steps_eq_iff_of_omits context omits]
  refine ⟨fun same => ?_, fun same => ?_⟩
  · simpa [background] using congrArg (Json.get? "steps") same
  · rw [background, background, headed_of_omits omits, same]

theorem isOutline_of_omits (omits : node.Omits variant) :
    isOutline context node = isOutline context variant := by
  have none : (node.itemsAt "examples").isEmpty = (variant.itemsAt "examples").isEmpty := by
    rw [Bool.eq_iff_iff, List.isEmpty_iff_length_eq_zero, List.isEmpty_iff_length_eq_zero,
      (omits.itemsAt _).length_eq]
  rw [isOutline, isOutline, omits.textAt, none]

theorem scenario_eq_iff_of_omits (omits : node.Omits variant) :
    scenario context node = scenario context variant ↔
      (node.itemsAt "steps").map blockKey? = (variant.itemsAt "steps").map blockKey? ∧
        (node.itemsAt "examples").map hasHeader = (variant.itemsAt "examples").map hasHeader := by
  rw [← steps_eq_iff_of_omits context omits, ← examples_eq_iff_of_omits omits]
  unfold scenario
  rw [isOutline_of_omits context omits, headed_of_omits omits, headed_of_omits omits,
    tagsOf_of_omits omits]
  split
  · refine ⟨fun same => ⟨?_, ?_⟩, fun ⟨steps, examples⟩ => by rw [steps, examples]⟩
    · simpa using congrArg (Json.get? "steps") same
    · simpa using congrArg (Json.get? "examples") same
  · next plain =>
    have none : variant.itemsAt "examples" = [] := by
      simpa [isOutline, not_or] using (Bool.or_eq_false_iff.mp (eq_false_of_ne_true plain)).1
    have each := omits.itemsAt "examples"
    rw [none, List.forall₂_nil_right_iff] at each
    refine ⟨fun same => ⟨?_, by rw [each, none]⟩, fun ⟨steps, _⟩ => by rw [steps]⟩
    simpa using congrArg (Json.get? "steps") same

/-! ### Children -/

theorem Skeleton.ofChild_scenario (node : Json) (rest : Fields) :
    ofChild (.fields (("scenario", node) :: rest)) = .scenario
      ((node.itemsAt "steps").map blockKey?) ((node.itemsAt "examples").map hasHeader) := by
  rw [ofChild, if_neg (by decide), if_pos rfl]

theorem Skeleton.ofChild_rule (node : Json) (rest : Fields) :
    ofChild (.fields (("rule", node) :: rest)) =
      .rule ((node.itemsAt "children").map ofChild) := by
  rw [ofChild, if_neg (by decide), if_neg (by decide), if_pos rfl]
  simp

theorem Skeleton.ofChild_foreign (undefined : ∀ type ∈ ["background", "scenario", "rule"],
    Family.wrapperKey? node ≠ some (Text.word type)) :
    ofChild node = .other (Family.wrapperKey? node) := by
  induction node using ofChild.induct with
  | case1 => exact absurd rfl (undefined "background" (by decide))
  | case2 => exact absurd rfl (undefined "scenario" (by decide))
  | case3 => exact absurd rfl (undefined "rule" (by decide))
  | case4 key node rest background scenario rule =>
    rw [ofChild, if_neg background, if_neg scenario, if_neg rule]
    rfl
  | case5 node unwrapped =>
    rw [ofChild, Family.wrapperKey?]
    · exact unwrapped
    · exact unwrapped

/-- The key of the wrapper that a skeleton is of. -/
def Skeleton.key? : Skeleton → Option Text
  | .background _ => some (Text.word "background")
  | .scenario _ _ => some (Text.word "scenario")
  | .rule _ => some (Text.word "rule")
  | .other key => key

theorem Skeleton.key?_ofChild (wrapper : Json) :
    (ofChild wrapper).key? = Family.wrapperKey? wrapper := by
  induction wrapper using ofChild.induct with
  | case1 => rw [ofChild, if_pos rfl]; rfl
  | case2 node => rw [ofChild, if_neg (by decide), if_pos rfl]; rfl
  | case3 node => rw [ofChild_rule]; rfl
  | case4 key node rest background scenario rule =>
    rw [ofChild, if_neg background, if_neg scenario, if_neg rule]
    rfl
  | case5 wrapper unwrapped =>
    rw [ofChild, Family.wrapperKey?]
    · rfl
    · exact unwrapped
    · exact unwrapped

/-- The key of the wrapper that the record of a child is of. Only the record of a scenario is of
another kind, and it has a keyword, which a node of an unknown kind has not. -/
def keyOf (record : Json) : Option Text :=
  let kind := (record.get? "kind").bind Json.asText?
  if kind = some (Text.word "outline") ∧ (record.get? "keyword").isSome then
    some (Text.word "scenario")
  else kind

theorem keyOf_headed {kind : Kind} {entries : Entries}
    (others : Fields.last? "kind" entries = none) :
    keyOf (Json.object (headed kind node ++ entries)) =
      some (Text.word (if kind = .outline then "scenario" else kind.symbol)) := by
  have keyword : (Fields.last? "keyword" (headed kind node ++ entries)).isSome := by
    simp [headed, textField]
  have named : Fields.last? "kind" (headed kind node ++ entries) =
      some (Json.word kind.symbol) := by simp [headed, textField, others]
  simp only [keyOf, Json.get?_object, named, keyword]
  cases kind <;> decide

theorem keyOf_bare (kind : Json) : keyOf (bare kind) = kind.asText? := by
  simp [keyOf, bare]

theorem keyOf_child (wrapper : Json) :
    keyOf (child context wrapper) = Family.wrapperKey? wrapper := by
  induction wrapper using child.induct with
  | case1 node rest =>
    rw [child, if_pos rfl, background, keyOf_headed (by simp)]
    rfl
  | case2 node rest =>
    rw [child_scenario, scenario]
    split <;> exact keyOf_headed (by simp)
  | case3 node rest =>
    rw [child_rule, keyOf_headed (by simp)]
    rfl
  | case4 key node rest background scenario rule =>
    rw [child, if_neg background, if_neg scenario, if_neg rule, keyOf_bare]
    rfl
  | case5 wrapper unwrapped =>
    rw [child, keyOf_bare, Family.wrapperKey?]
    · rfl
    · exact unwrapped
    · exact unwrapped

/-- A wrapper keeps its first field unless this field is a default. -/
theorem wrapped_of_omits {key : String} {rest : Fields} {wrapper : Json}
    (omits : Json.Omits (.fields ((key, node) :: rest)) wrapper) :
    (∃ other others, wrapper = .fields ((key, other) :: others) ∧ node.Omits other) ∨
      Family.wrapperKey? wrapper ≠ some (Text.word key) := by
  cases omits with
  | same => exact .inl ⟨node, rest, rfl, .same node⟩
  | @fields _ others each =>
    cases each with
    | keep inner _ => exact .inl ⟨_, _, rfl, inner⟩
    | drop vacant once later =>
      refine .inr fun same => ?_
      have gone := later.get? key
      rw [once] at gone
      cases others with
      | nil => cases same
      | cons entry others =>
        have named : entry.1 = key := String.toList_injective (Option.some.inj same)
        rw [Fields.get?, if_pos named.symm] at gone
        cases gone

theorem child_eq_iff_of_keys_ne {wrapper : Json}
    (differ : Family.wrapperKey? wrapper ≠ Family.wrapperKey? node) :
    child context node = child context wrapper ↔
      Skeleton.ofChild node = Skeleton.ofChild wrapper := by
  refine iff_of_false (fun same => differ ?_) fun same => differ ?_
  · rw [← keyOf_child context wrapper, ← same, keyOf_child]
  · rw [← Skeleton.key?_ofChild, ← same, Skeleton.key?_ofChild]

/-- Children of no known kind have only the key of the wrapper in their records. -/
theorem child_eq_iff_of_foreign {wrapper : Json}
    (undefined : ∀ type ∈ ["background", "scenario", "rule"],
      Family.wrapperKey? node ≠ some (Text.word type)) :
    child context node = child context wrapper ↔
      Skeleton.ofChild node = Skeleton.ofChild wrapper := by
  by_cases same : Family.wrapperKey? wrapper = Family.wrapperKey? node
  · have alike := undefined
    rw [← same] at alike
    rw [child_messages_foreign undefined, child_messages_foreign alike,
      Skeleton.ofChild_foreign undefined, Skeleton.ofChild_foreign alike, same]
    exact iff_of_true rfl rfl
  · exact child_eq_iff_of_keys_ne context same

/-- Two children of which one leaves out defaults of the other have one record exactly if they
have one skeleton. -/
theorem child_eq_iff_of_omits {wrapper : Json} (omits : node.Omits wrapper) :
    child context node = child context wrapper ↔
      Skeleton.ofChild node = Skeleton.ofChild wrapper := by
  induction node using child.induct generalizing wrapper with
  | case1 node rest =>
    obtain ⟨other, others, rfl, inner⟩ | differ := wrapped_of_omits omits
    · rw [child, child, if_pos rfl, if_pos rfl, background_eq_iff_of_omits context inner,
        Skeleton.ofChild, Skeleton.ofChild, if_pos rfl, if_pos rfl, Skeleton.background.injEq]
    · exact child_eq_iff_of_keys_ne context differ
  | case2 node rest =>
    obtain ⟨other, others, rfl, inner⟩ | differ := wrapped_of_omits omits
    · rw [child_scenario, child_scenario, scenario_eq_iff_of_omits context inner,
        Skeleton.ofChild_scenario,
        Skeleton.ofChild_scenario, Skeleton.scenario.injEq]
    · exact child_eq_iff_of_keys_ne context differ
  | case3 node rest _ _ ih =>
    obtain ⟨other, others, rfl, inner⟩ | differ := wrapped_of_omits omits
    · have children := map_eq_iff_of_omits (inner.itemsAt "children") fun item member _ =>
        ih ⟨item, member⟩
      rw [Skeleton.ofChild_rule, Skeleton.ofChild_rule, Skeleton.rule.injEq, ← children, child_rule,
        child_rule, headed_of_omits inner, tagsOf_of_omits inner]
      refine ⟨fun same => ?_, fun same => by rw [same]⟩
      simpa using congrArg (Json.get? "children") same
    · exact child_eq_iff_of_keys_ne context differ
  | case4 key node rest background scenario rule =>
    refine child_eq_iff_of_foreign context fun type known same => ?_
    have named : key = type := String.toList_injective (Option.some.inj same)
    subst named
    simp only [List.mem_cons, List.not_mem_nil, or_false] at known
    rcases known with here | here | here
    exacts [background here, scenario here, rule here]
  | case5 node unwrapped =>
    refine child_eq_iff_of_foreign context fun type _ same => ?_
    rw [Family.wrapperKey?] at same
    · cases same
    · exact unwrapped

theorem dialectOf_of_omits (omits : node.Omits variant) (active : Dialect) :
    dialectOf active node = dialectOf active variant := by
  have language := omits.get? "language"
  unfold dialectOf
  generalize node.get? "language" = code, variant.get? "language" = other at language ⊢
  cases language with
  | absent => rfl
  | kept inner => rw [Option.bind_some, Option.bind_some, inner.asText?]
  | dropped vacant => rcases Json.eq_of_isDefault vacant with rfl | rfl | rfl <;> rfl

/-- The skeletons of the children of a feature. -/
def skeletons (feature : Json) : List Skeleton :=
  (feature.itemsAt "children").map Skeleton.ofChild

theorem feature_eq_iff_of_omits (omits : node.Omits variant) (active : Dialect) (ruleTags : Bool)
    (key : String) : feature active ruleTags key node = feature active ruleTags key variant ↔
      skeletons node = skeletons variant := by
  have children := map_eq_iff_of_omits (f := child ⟨dialectOf active variant, ruleTags, key⟩)
    (omits.itemsAt "children") fun _ _ _ => child_eq_iff_of_omits _
  rw [skeletons, skeletons, ← children, feature, feature, dialectOf_of_omits omits, featureOf,
    featureOf, headed_of_omits omits, tagsOf_of_omits omits, textField, textField, omits.textAt]
  refine ⟨fun same => ?_, fun same => by rw [same]⟩
  simpa using congrArg (Json.get? "children") same

theorem featureFileOf_eq_iff_of_omits (omits : node.Omits variant) {inner other : Json} :
    featureFileOf node inner = featureFileOf variant other ↔ inner = other := by
  rw [featureFileOf, featureFileOf, textField, textField, omits.textAt]
  refine ⟨fun same => ?_, fun same => by rw [same]⟩
  simpa using congrArg (Fields.get? "feature") same

theorem document_eq_iff_of_omits (omits : node.Omits variant) (active : Dialect) (ruleTags : Bool)
    (key : String) : document active ruleTags key node = document active ruleTags key variant ↔
      ((node.get? "feature").filter fun feature => !feature.isNull).map skeletons =
        ((variant.get? "feature").filter fun feature => !feature.isNull).map skeletons := by
  have features := omits.get? "feature"
  rw [document, document, featureFileOf_eq_iff_of_omits omits]
  generalize node.get? "feature" = held, variant.get? "feature" = remaining at features ⊢
  cases features with
  | absent => exact iff_of_true rfl rfl
  | @kept held remaining inner =>
    cases null : remaining.isNull <;>
      simp [Option.filter_some, inner.isNull, null, feature_eq_iff_of_omits inner]
  | @dropped held vacant =>
    cases null : held.isNull <;> simp [Option.filter_some, null, feature, featureOf, Json.object]

end Messages

end Record

namespace Release

open Record

variable {release : Release} {raw variant : Json}

/-- Two results of which one leaves out defaults of the other, at any depth, are normalized to one
record exactly if they agree on what counts by its presence alone: the feature, the keys of the
wrappers, the blocks of steps and the headers of examples. -/
theorem normalize_eq_iff_of_omits (messages : isTyped release.family = false)
    (omits : raw.Omits variant) (accepted : release.accepts raw = true)
    (also : release.accepts variant = true) (active : Dialect) :
    release.normalize active raw = release.normalize active variant ↔
      (release.family.feature? raw).map Messages.skeletons =
        (release.family.feature? variant).map Messages.skeletons := by
  obtain ⟨envelope, inside⟩ := exists_envelope_of_accepts messages accepted
  obtain ⟨other, within⟩ := exists_envelope_of_accepts messages also
  have inner : envelope.Omits other := by
    have field := omits.get? "gherkinDocument"
    rw [inside, within] at field
    cases field with
    | kept inner => exact inner
  rw [normalize_of_messages messages accepted inside, normalize_of_messages messages also within,
    Except.ok.injEq, Messages.document_eq_iff_of_omits inner]
  simp [Family.feature?, messages, inside, within]

/-- A message result with a background of one step. -/
def sampleStep (step : Json) : Json :=
  .fields [("gherkinDocument", .fields [("comments", .list []), ("feature", .fields
    [("children", .list [.fields [("background", .fields [("steps", .list [step])])]])])])]

theorem sampleStep_omits {step other : Json} (omits : step.Omits other) :
    (sampleStep step).Omits (sampleStep other) := by
  have one (key : String) {value inner : Json} (omits : value.Omits inner) :
      (Json.fields [(key, value)]).Omits (Json.fields [(key, inner)]) :=
    .fields (.keep omits .nil)
  have steps := one "steps" (.list (.cons omits .nil))
  have child := one "background" steps
  have children := one "children" (.list (.cons child .nil))
  exact one _ (.fields (.keep (.same _) (.keep children .nil)))

theorem skeletons_sampleStep (step : Json) :
    (newest.family.feature? (sampleStep step)).map Messages.skeletons =
      some [.background [Messages.blockKey? step]] := by
  change some [Messages.Skeleton.ofChild _] = _
  rw [Messages.Skeleton.ofChild, if_pos rfl]
  rfl

/-- A doc string without a content has the record of one with an empty content. -/
theorem normalize_eq_sampleStep :
    let raw := sampleStep (.fields [("docString", .fields [("content", .text [])])])
    let variant := sampleStep (.fields [("docString", .fields [])])
    isTyped newest.family = false ∧ raw.Omits variant ∧ newest.accepts raw = true ∧
      newest.accepts variant = true ∧
        newest.normalize .english raw = newest.normalize .english variant := by
  intro raw variant
  have omits : raw.Omits variant := by
    refine sampleStep_omits (.fields (.keep (.fields ?_) .nil))
    exact .drop rfl rfl .nil
  have accepted : newest.accepts raw = true ∧ newest.accepts variant = true := by decide
  refine ⟨rfl, omits, accepted.1, accepted.2, ?_⟩
  refine (normalize_eq_iff_of_omits rfl omits accepted.1 accepted.2 .english).mpr ?_
  rw [skeletons_sampleStep, skeletons_sampleStep]
  rfl

/-- A table that is null makes a record of a table, and a table that is left out makes none. -/
theorem normalize_ne_sampleStep :
    let raw := sampleStep (.fields [("dataTable", .null)])
    let variant := sampleStep (.fields [])
    raw.Omits variant ∧ newest.accepts raw = true ∧ newest.accepts variant = true ∧
      newest.normalize .english raw ≠ newest.normalize .english variant := by
  intro raw variant
  have omits : raw.Omits variant := sampleStep_omits (.fields (.drop rfl rfl .nil))
  have accepted : newest.accepts raw = true ∧ newest.accepts variant = true := by decide
  refine ⟨omits, accepted.1, accepted.2, fun same => ?_⟩
  let blocks (record : Record) : List (Option Bool) :=
    (record.get? "feature").toList.flatMap fun feature =>
      (feature.itemsAt "children").flatMap fun child =>
        (child.itemsAt "steps").map fun step => (step.get? "block").map Json.isNull
  have differ : (newest.normalize .english raw).toOption.map blocks ≠
      (newest.normalize .english variant).toOption.map blocks := by decide +kernel
  exact differ (congrArg (fun record => record.toOption.map blocks) same)

end Release

end Gherkin
