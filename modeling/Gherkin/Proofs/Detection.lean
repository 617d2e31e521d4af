import Gherkin.Proofs.Pipeline
import Gherkin.Proofs.Record.Foreign

/-!
# Detecting the release of a result

Both message families accept a result that has comments and no content types. They differ in
the key of content types alone, and no doc string in such a result has a field with the key of
either, so both make the same record of it. Whatever is accepted at all is detected, and
normalized by the release that is detected.
-/

namespace Gherkin

namespace Document

variable {key name : String} {value inner : Json}

/-! ### What is in a value without a field -/

/-- A field lacks what the whole value lacks. -/
theorem Lacks.of_get? (lack : Lacks key value) (found : value.get? name = some inner) :
    Lacks key inner ∧ (name = "docString" → inner.get? key = none) := by
  cases value with
  | fields entries =>
    change fieldsHaveDocStringField key entries = false at lack
    change Fields.get? name entries = some inner at found
    induction entries with
    | nil => cases found
    | cons entry rest ih =>
      obtain ⟨other, held⟩ := entry
      simp only [fieldsHaveDocStringField, Bool.or_eq_false_iff, Bool.and_eq_false_iff,
        beq_eq_false_iff_ne] at lack
      obtain ⟨⟨here, below⟩, later⟩ := lack
      rw [Fields.get?] at found
      split at found
      · next same =>
        cases found
        refine ⟨below, fun called => ?_⟩
        have absent := here.resolve_left fun differ => differ (same.symm.trans called)
        exact Option.not_isSome_iff_eq_none.mp (ne_true_of_eq_false absent)
      · exact ih later found
  | _ => cases found

theorem Lacks.of_mem {items : List Json} (lack : Lacks key (.list items)) :
    ∀ item ∈ items, Lacks key item := by
  change itemsHaveDocStringField key items = false at lack
  induction items with
  | nil => exact List.forall_mem_nil _
  | cons item rest ih =>
    rw [itemsHaveDocStringField, Bool.or_eq_false_iff] at lack
    exact List.forall_mem_cons.mpr ⟨lack.1, ih lack.2⟩

/-- The items of a list field lack what the whole value lacks. -/
theorem Lacks.of_mem_itemsAt (lack : Lacks key value) :
    ∀ item ∈ value.itemsAt name, Lacks key item := by
  intro item member
  rw [Json.itemsAt] at member
  cases found : value.get? name with
  | none => simp [found] at member
  | some held =>
    rw [found, Option.bind_some] at member
    cases held with
    | list items => exact (lack.of_get? found).1.of_mem item member
    | _ => cases member

theorem Lacks.wrapped {entries : Fields} (lack : Lacks key (.fields ((name, value) :: entries))) :
    Lacks key value := by
  have first : (Json.fields ((name, value) :: entries)).get? name = some value := if_pos rfl
  exact (lack.of_get? first).1

end Document

/-! ### Reading with another key of content types -/

namespace Record.Messages

open Document

variable {context : Context} {other : String} {node : Json}

theorem docStringOf_of_absent {key : String} (absent : node.get? key = none)
    (alike : node.get? other = none) : docStringOf key node = docStringOf other node := by
  simp [docStringOf, Json.textAt, absent, alike]

/-- The key of content types does not matter to steps whose doc strings have none. -/
theorem steps_withKey (lack : Lacks context.contentTypeKey node) (alike : Lacks other node) :
    steps { context with contentTypeKey := other } node = steps context node := by
  have blocks : ∀ step ∈ node.itemsAt "steps",
      stepOf step (block { context with contentTypeKey := other } step) =
        stepOf step (block context step) := by
    intro step member
    have inStep := lack.of_mem_itemsAt step member
    have alike := alike.of_mem_itemsAt step member
    unfold block
    split
    · rfl
    · next docString _ held =>
      rw [docStringOf_of_absent ((alike.of_get? held).2 rfl) ((inStep.of_get? held).2 rfl)]
    · rfl
  rw [steps, steps, List.map_congr_left blocks]

theorem background_withKey (lack : Lacks context.contentTypeKey node) (alike : Lacks other node) :
    background { context with contentTypeKey := other } node = background context node := by
  rw [background, background, steps_withKey lack alike]

theorem scenario_withKey (lack : Lacks context.contentTypeKey node) (alike : Lacks other node) :
    scenario { context with contentTypeKey := other } node = scenario context node := by
  rw [scenario, scenario, steps_withKey lack alike]
  rfl

theorem child_scenario (context : Context) (node : Json) (rest : Fields) :
    child context (.fields (("scenario", node) :: rest)) = scenario context node := by
  rw [child, if_neg (by decide), if_pos rfl]

theorem child_rule (context : Context) (node : Json) (rest : Fields) :
    child context (.fields (("rule", node) :: rest)) =
      Json.object (headed .rule node ++
        [("tags", if context.ruleTags then tagsOf node else .list []),
          ("children", .list ((node.itemsAt "children").map (child context)))]) := by
  rw [child, if_neg (by decide), if_neg (by decide), if_pos rfl]
  simp

/-- The key of content types does not matter to a child without any. -/
theorem child_withKey {wrapper : Json} (lack : Lacks context.contentTypeKey wrapper)
    (alike : Lacks other wrapper) :
    child { context with contentTypeKey := other } wrapper = child context wrapper := by
  induction wrapper using child.induct with
  | case1 node rest =>
    rw [child, child, if_pos rfl, if_pos rfl]
    exact background_withKey lack.wrapped alike.wrapped
  | case2 node rest _ =>
    rw [child_scenario, child_scenario]
    exact scenario_withKey lack.wrapped alike.wrapped
  | case3 node rest _ _ ih =>
    have children : (node.itemsAt "children").map
        (child { context with contentTypeKey := other }) =
          (node.itemsAt "children").map (child context) :=
      List.map_congr_left fun item member => ih ⟨item, member⟩
        (lack.wrapped.of_mem_itemsAt item member) (alike.wrapped.of_mem_itemsAt item member)
    rw [child_rule, child_rule, children]
  | case4 key node rest background scenario rule =>
    rw [child, child, if_neg background, if_neg background, if_neg scenario, if_neg scenario,
      if_neg rule, if_neg rule]
  | case5 wrapper unwrapped => rw [child, child] <;> exact unwrapped

end Record.Messages

namespace Release

open Document Record

variable {release other : Release} {active : Dialect} {result : Json}

/-! ### Results that both message families accept -/

/-- The newest release of the protobuf messages. -/
def newestProtobuf : Release := ⟨19, .protobuf⟩

theorem exists_envelope_of_accepts (messages : isTyped release.family = false)
    (accepted : release.accepts result = true) :
    ∃ envelope, result.get? "gherkinDocument" = some envelope := by
  unfold accepts Family.recognizes envelope? at accepted
  cases found : result.get? "gherkinDocument" with
  | some envelope => exact ⟨envelope, rfl⟩
  | none =>
    rw [found] at accepted
    cases family : release.family with
    | typedTree =>
      rw [family] at messages
      cases messages
    | jsonSchema | protobuf =>
      rw [family] at accepted
      cases accepted

theorem normalize_of_messages (messages : isTyped release.family = false) {envelope : Json}
    (accepted : release.accepts result = true)
    (inside : result.get? "gherkinDocument" = some envelope) (active : Dialect) :
    release.normalize active result = .ok (Messages.document active release.hasRuleTags
      (contentTypeKey release.family) envelope) := by
  unfold normalize
  rw [if_pos accepted, inside]
  cases family : release.family with
  | typedTree =>
    rw [family] at messages
    cases messages
  | jsonSchema | protobuf => rfl

/-- Whatever a release accepts, it makes a record of. -/
theorem exists_normalize_of_accepts (accepted : release.accepts result = true)
    (active : Dialect) : ∃ record, release.normalize active result = .ok record := by
  cases messages : isTyped release.family with
  | true =>
    have tree : release.family = .typedTree := by simpa [isTyped] using messages
    exact ⟨_, by rw [normalize, if_pos accepted, tree]⟩
  | false =>
    obtain ⟨envelope, inside⟩ := exists_envelope_of_accepts messages accepted
    exact ⟨_, normalize_of_messages messages accepted inside active⟩

/-- A result that a release of either message family accepts has no content types at all. -/
theorem lacks_of_accepts (schema : release.family = .jsonSchema)
    (protobuf : other.family = .protobuf) (accepted : release.accepts result = true)
    (also : other.accepts result = true) :
    Lacks "contentType" result ∧ Lacks "mediaType" result := by
  unfold accepts Family.recognizes at accepted also
  rw [schema] at accepted
  rw [protobuf] at also
  dsimp only at accepted also
  split at accepted
  · cases accepted
  · simp only [Bool.and_eq_true, Bool.not_eq_true'] at accepted
    split at also
    · cases also
    · simp only [Bool.and_eq_true, Bool.not_eq_true'] at also
      exact ⟨accepted.2, also.2⟩

/-- What is read of a document without content types does not depend on their key. -/
theorem document_withKey {key alike : String} {envelope : Json} (lack : Lacks key envelope)
    (lackAlike : Lacks alike envelope) (active : Dialect) (ruleTags : Bool) :
    Messages.document active ruleTags key envelope =
      Messages.document active ruleTags alike envelope := by
  unfold Messages.document
  split
  · next node found =>
    have held := (Option.filter_eq_some_iff.mp found).1
    have children : ∀ item ∈ node.itemsAt "children",
        Messages.child ⟨Messages.dialectOf active node, ruleTags, key⟩ item =
          Messages.child ⟨Messages.dialectOf active node, ruleTags, alike⟩ item :=
      fun item member => @Messages.child_withKey ⟨_, _, alike⟩ key item
        ((lackAlike.of_get? held).1.of_mem_itemsAt item member)
        ((lack.of_get? held).1.of_mem_itemsAt item member)
    rw [Messages.feature, Messages.feature, List.map_congr_left children]
  · rfl

/-- Two releases of the message families that agree on the tags of rules make the same record of
a result that both accept. -/
theorem normalize_eq_of_accepts (schema : release.family = .jsonSchema)
    (protobuf : other.family = .protobuf) (ruleTags : release.hasRuleTags = other.hasRuleTags)
    (accepted : release.accepts result = true) (also : other.accepts result = true)
    (active : Dialect) :
    release.normalize active result = other.normalize active result := by
  have messages : isTyped release.family = false ∧ isTyped other.family = false := by
    rw [schema, protobuf]
    exact ⟨rfl, rfl⟩
  obtain ⟨envelope, inside⟩ := exists_envelope_of_accepts messages.1 accepted
  obtain ⟨contentType, mediaType⟩ := lacks_of_accepts schema protobuf accepted also
  rw [normalize_of_messages messages.1 accepted inside, normalize_of_messages messages.2 also inside,
    ruleTags, schema, protobuf]
  exact congrArg Except.ok (document_withKey (mediaType.of_get? inside).1
    (contentType.of_get? inside).1 active _)

/-! ### Detection -/

theorem detect_eq_ok_iff : detect result = .ok release ↔
    all.find? (fun release => release.accepts result) = some release := by
  cases found : all.find? fun release => release.accepts result <;> simp [detect, found]

/-- What a detected release does with a value: it accepts and normalizes it, and where both message
families accept the value, the record and what is built of it are those of either family. -/
structure DetectsSoundly (active : Dialect) (result : Json) : Prop where
  detected : (∃ release, detect result = .ok release) ↔
    ∃ release ∈ all, release.accepts result = true
  normalized : ∀ release, detect result = .ok release → release ∈ all ∧
    release.accepts result = true ∧ ∃ record, release.normalize active result = .ok record
  agreed : newest.accepts result = true → newestProtobuf.accepts result = true →
    (∃ record, newest.normalize active result = .ok record ∧
      newestProtobuf.normalize active result = .ok record) ∧
    ∀ release ∈ [newest, newestProtobuf], ∀ change, release.Reads active result change →
      ∀ tree, change tree = Modeler.addResult active result tree

/-- Detection is sound for every value. -/
theorem detectsSoundly (active : Dialect) (result : Json) : DetectsSoundly active result := by
  constructor
  case detected =>
    simp only [detect_eq_ok_iff]
    rw [← Option.isSome_iff_exists, List.find?_isSome]
  case normalized =>
    intro release detected
    have found := detect_eq_ok_iff.1 detected
    have accepted : release.accepts result = true := by simpa using List.find?_some found
    exact ⟨List.mem_of_find?_eq_some found, accepted, exists_normalize_of_accepts accepted active⟩
  case agreed =>
    intro accepted also
    have same := normalize_eq_of_accepts (show newest.family = .jsonSchema from rfl)
      (show newestProtobuf.family = .protobuf from rfl) rfl accepted also active
    obtain ⟨record, normalized⟩ := exists_normalize_of_accepts accepted active
    refine ⟨⟨record, normalized, same ▸ normalized⟩, fun release either change reads tree => ?_⟩
    have detected : detect result = .ok newest := by
      rw [detect_eq_ok_iff]
      exact List.find?_cons_of_pos accepted
    rw [reads.eq tree, (Reads.detected detected : Reads _ active _ _).eq tree]
    rcases List.mem_pair.mp either with rfl | rfl
    · rfl
    · rw [same]

end Release

end Gherkin
