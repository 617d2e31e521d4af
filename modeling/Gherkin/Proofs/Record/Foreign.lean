import Gherkin.Proofs.Document.Readback
import Gherkin.Proofs.Modeler
import Gherkin.Proofs.Tree.Built

/-!
# Nodes of types that no family defines

A child or an argument of a type that its family does not define keeps the name of the type as
the kind of its record, for the tree to refuse. The tree refuses every such record but those whose
type happens to be called as a kind that may stand in its place: these become blank elements.
-/

namespace Gherkin

open Document Record

namespace Family

/-- The types of children that a family defines: keys of wrappers, or types that nodes name. -/
def childTypes : Family → List String
  | .jsonSchema | .protobuf => ["background", "scenario", "rule"]
  | .typedTree => ["Background", "Scenario", "ScenarioOutline"]

/-- The types of arguments of steps in typed trees. -/
def argumentTypes : List String := ["DataTable", "DocString"]

/-- The first key of a wrapper. -/
def wrapperKey? : Json → Option Text
  | .fields ((key, _) :: _) => some (Text.word key)
  | _ => none

/-- The type of a child, if it has one. -/
def childType? (family : Family) (child : Json) : Option Text :=
  if isTyped family then some (TypedTree.typeOf child) else wrapperKey? child

/-- The feature in a result. -/
def feature? (family : Family) (raw : Json) : Option Json :=
  let document := if isTyped family then some raw else raw.get? "gherkinDocument"
  (document.bind (Json.get? "feature")).filter fun feature => !feature.isNull

/-- A child of the feature in a result or, at any depth, of a rule. -/
inductive HasChild (family : Family) (raw : Json) : Kind → Json → Prop where
  | feature {node child : Json} (found : family.feature? raw = some node)
      (member : child ∈ node.itemsAt "children") : HasChild family raw .feature child
  | rule {parent : Kind} {node child : Json} {others : Fields}
      (messages : isTyped family = false)
      (above : HasChild family raw parent (.fields (("rule", node) :: others)))
      (member : child ∈ node.itemsAt "children") : HasChild family raw .rule child

/-- An argument of a step in a typed tree that is not null. -/
inductive HasArgument (family : Family) (raw argument : Json) : Prop where
  | intro {child step : Json} {type : String} (typed : isTyped family = true)
      (above : HasChild family raw .feature child) (defined : type ∈ family.childTypes)
      (named : family.childType? child = some (Text.word type))
      (member : step ∈ child.itemsAt "steps") (held : step.get? "argument" = some argument)
      (given : argument.isNull = false)

/-- A node below an element of a kind has a type that its family does not define. -/
inductive Foreign (family : Family) (raw : Json) : Kind → Option Text → Prop where
  | child {parent : Kind} {node : Json} (above : HasChild family raw parent node)
      (undefined : ∀ type ∈ family.childTypes, family.childType? node ≠ some (Text.word type)) :
      Foreign family raw parent (family.childType? node)
  | argument {node : Json} (above : HasArgument family raw node)
      (undefined : ∀ type ∈ argumentTypes, TypedTree.typeOf node ≠ Text.word type) :
      Foreign family raw .step (some (TypedTree.typeOf node))

/-- The kinds that are called as a type which a family does not define, and which may yet stand
where a node of this type stands. -/
def homonyms : Family → Kind → List Kind
  | .typedTree, .feature => [.background, .scenario, .outline, .rule]
  | .typedTree, .step => [.table, .docString]
  | .jsonSchema, .feature | .jsonSchema, .rule | .protobuf, .feature | .protobuf, .rule =>
    [.outline]
  | _, _ => []

theorem blank_of_homonym {family : Family} {parent kind : Kind}
    (homonym : kind ∈ family.homonyms parent) :
    kind ∈ [.background, .scenario, .outline, .rule, .table, .docString] := by
  revert homonym
  unfold homonyms
  split <;> revert kind <;> decide

theorem HasChild.parent {family : Family} {raw child : Json} {parent : Kind}
    (has : family.HasChild raw parent child) :
    parent = .feature ∨ parent = .rule ∧ isTyped family = false := by
  cases has with
  | feature => exact .inl rfl
  | rule messages => exact .inr ⟨rfl, messages⟩

/-- A kind that may stand among children is called as no type that the family defines only if it
is one of the homonyms. -/
theorem mem_homonyms_of_takes {family : Family} {parent kind : Kind}
    (either : parent = .feature ∨ parent = .rule ∧ isTyped family = false)
    (takes : ChildField.Takes ⟨"children", true, [.background, .tests, .rules]⟩ parent kind)
    (undefined : kind.symbol ∉ family.childTypes) : kind ∈ family.homonyms parent := by
  have kinds := (takes_children_iff (either.imp_right And.left)).mp takes
  clear takes
  rcases either with rfl | ⟨rfl, messages⟩ <;> rcases kinds with rfl | rfl | rfl | ⟨rfl, _⟩ <;>
    cases family <;> simp_all [homonyms, childTypes, Kind.symbol, isTyped]

end Family

namespace Record

variable {context : Messages.Context} {family : Family}

/-- The record of a node of a type. -/
def ofType (type : Option Text) : Record :=
  Fields.ofList [("kind", (type.map Json.text).getD .null)]

theorem child_messages_foreign {node : Json}
    (undefined : ∀ type ∈ ["background", "scenario", "rule"],
      Family.wrapperKey? node ≠ some (Text.word type)) :
    Messages.child context node = .fields (ofType (Family.wrapperKey? node)) := by
  cases node with
  | fields entries =>
    cases entries with
    | nil =>
      rw [Messages.child]
      · rfl
      · intro _ _ _ same
        cases same
    | cons entry others =>
      obtain ⟨key, inner⟩ := entry
      have differ (type : String) (defined : type ∈ ["background", "scenario", "rule"]) :
          key ≠ type := by
        rintro rfl
        exact undefined key defined rfl
      rw [Messages.child, if_neg (differ _ (by decide)), if_neg (differ _ (by decide)),
        if_neg (differ _ (by decide))]
      rfl
  | _ =>
    rw [Messages.child]
    · rfl
    · intro _ _ _ same
      cases same

theorem child_typedTree_foreign {node : Json}
    (undefined : ∀ type ∈ ["Background", "Scenario", "ScenarioOutline"],
      TypedTree.typeOf node ≠ Text.word type) :
    TypedTree.child node = .fields (ofType (some (TypedTree.typeOf node))) := by
  simp only [List.forall_mem_cons] at undefined
  obtain ⟨background, scenario, outline, -⟩ := undefined
  rw [TypedTree.child, if_neg background, if_neg scenario, if_neg outline]
  rfl

/-- A child of a type that its family does not define is read as a record of this type. -/
theorem childOf_foreign {node : Json} (undefined : ∀ type ∈ family.childTypes,
    family.childType? node ≠ some (Text.word type)) :
    childOf family context node = .fields (ofType (family.childType? node)) := by
  cases family with
  | typedTree =>
    apply child_typedTree_foreign
    intro type defined same
    exact undefined type defined (congrArg some same)
  | jsonSchema | protobuf => exact child_messages_foreign undefined

theorem childOf_rule_wrapper {node : Json} {others : Fields} (messages : isTyped family = false) :
    childOf family context (.fields (("rule", node) :: others)) =
      Json.object (headed .rule node ++
        [("tags", if context.ruleTags then tagsOf node else .list []),
          ("children", .list ((node.itemsAt "children").map (childOf family context)))]) := by
  unfold childOf
  rw [messages, if_neg Bool.false_ne_true, Messages.child, if_neg (by decide),
    if_neg (by decide), if_pos rfl]
  simp

theorem block_foreign {step node : Json} (held : step.get? "argument" = some node)
    (undefined : ∀ type ∈ Family.argumentTypes, TypedTree.typeOf node ≠ Text.word type)
    (given : node.isNull = false) :
    TypedTree.block step = .fields (ofType (some (TypedTree.typeOf node))) := by
  simp only [Family.argumentTypes, List.forall_mem_cons] at undefined
  obtain ⟨table, docString, -⟩ := undefined
  rw [TypedTree.block, held]
  simp only
  rw [if_neg table, if_neg docString, if_neg (by rw [given]; exact Bool.false_ne_true)]
  rfl

/-- A child of a type that typed trees define has its steps in its record. -/
theorem child_steps {node : Json} {type : String} (defined : type ∈ Family.childTypes .typedTree)
    (named : TypedTree.typeOf node = Text.word type) :
    ∃ (kind : Kind) (record : Record), TypedTree.child node = .fields record ∧
      record.Declares kind ∧ ⟨"steps", true, [.steps]⟩ ∈ childFields kind ∧
      record.get? "steps" = some (TypedTree.steps node) := by
  have apart : Text.word "Scenario" ≠ Text.word "Background" ∧
      Text.word "ScenarioOutline" ≠ Text.word "Background" ∧
      Text.word "ScenarioOutline" ≠ Text.word "Scenario" := by decide
  have declares (kind : Kind) (entries : Entries) (others : Fields.last? "kind" entries = none) :
      Declares (Fields.ofList (headed kind node ++ entries)) kind := by
    simp [Declares, headed, textField, others]
  simp only [Family.childTypes, List.mem_cons, List.not_mem_nil, or_false] at defined
  rw [TypedTree.child, named]
  rcases defined with rfl | rfl | rfl
  · rw [if_pos rfl]
    exact ⟨.background, _, rfl, declares _ _ (by simp), by decide, by simp⟩
  · rw [if_neg apart.1, if_pos rfl]
    exact ⟨.scenario, _, rfl, declares _ _ (by simp), by decide, by simp⟩
  · rw [if_neg apart.2.1, if_neg apart.2.2, if_pos rfl]
    exact ⟨.outline, _, rfl, declares _ _ (by simp), by decide, by simp⟩

/-! ## Records of types -/

theorem declares_ofType_iff {type : Option Text} {kind : Kind} :
    (ofType type).Declares kind ↔ type = some (Text.word kind.symbol) := by
  cases type <;> simp [Declares, ofType, Json.word]

/-- What is made of a type that is called as a kind is blank. -/
theorem element_ofType {type : Option Text} {kind : Kind}
    (blank : kind ∈ [.background, .scenario, .outline, .rule, .table, .docString]) :
    ((ofType type).element kind).toOption =
      Element.make? kind ⟨[], [], []⟩ [] [] [] none [] := by
  have absent (key : String) (differ : key ≠ "kind") : (ofType type).text? key = none := by
    simp [ofType, text?, differ]
  have heading : (ofType type).heading = ⟨[], [], []⟩ := by
    simp [heading, text, absent, show Description.trim [] = [] from rfl]
  simp only [List.mem_cons, List.not_mem_nil, or_false] at blank
  rcases blank with rfl | rfl | rfl | rfl | rfl | rfl <;>
    simp [element, heading, absent, text, Element.make?, Except.toOption]

end Record

namespace Release

variable {release : Release} {active : Dialect} {raw : Json} {record : Record} {parent : Kind}

/-- What the children in a result are read with. -/
def readingContext (release : Release) (active : Dialect) (raw : Json) : Messages.Context :=
  ⟨Messages.dialectOf active ((release.family.feature? raw).getD .null), release.hasRuleTags,
    contentTypeKey release.family⟩

/-- The field that children of features and rules stand in. -/
def childrenField : ChildField := ⟨"children", true, [.background, .tests, .rules]⟩

theorem feature_of_normalize {node : Json} (normalized : release.normalize active raw = .ok record)
    (found : release.family.feature? raw = some node) :
    record.get? "feature" = some (featureOf node ((node.itemsAt "children").map
      (childOf release.family (release.readingContext active raw)))) := by
  rw [readingContext, found, Option.getD_some]
  unfold normalize at normalized
  split at normalized
  · split at normalized
    · next tree =>
      cases normalized
      rw [tree] at found
      change (raw.get? "feature").filter (fun feature => !feature.isNull) = some node at found
      simp only [TypedTree.document, found, featureFileOf, tree]
      simp [textField, childOf, isTyped]
    · next other =>
      have messages : isTyped release.family = false := by simpa [isTyped] using other
      split at normalized
      · next envelope inside =>
        cases normalized
        simp only [Family.feature?, messages, Bool.false_eq_true, if_false, inside,
          Option.bind_some] at found
        simp only [Messages.document, found, featureFileOf, Messages.feature]
        simp [textField, childOf, messages]
      · cases normalized
  · cases normalized

/-- Every child in a result stands below a record that is reached. -/
theorem exists_above_of_hasChild {child : Json}
    (normalized : release.normalize active raw = .ok record) (legal : record.Legal)
    (has : release.family.HasChild raw parent child) :
    childrenField ∈ childFields parent ∧ ∃ above ∈ record.reached, above.Legal ∧
      above.Declares parent ∧
      childrenField.Has above
        (childOf release.family (release.readingContext active raw) child) := by
  induction has with
  | @feature node child found member =>
    have named := kind_eq_ok_iff.mp (kind_of_normalize normalized)
    have given := feature_of_normalize normalized found
    have here : ChildField.Has ⟨"feature", false, [.feature]⟩ record _ := .single rfl given rfl
    obtain ⟨inner, inside, same, below, -⟩ := legal.exists_of_has named (by decide) here
    cases same
    refine ⟨by decide, _, mem_reached_of_mem_childRecords record.mem_reached_self inside, below,
      ?_, ?_⟩
    · simp [Declares, headed, textField]
    · exact .item rfl (by simp [childrenField]) (List.mem_map_of_mem member)
  | @rule parent node child others messages _ member ih =>
    obtain ⟨field, above, reaches, legal, named, has⟩ := ih
    obtain ⟨inner, inside, same, below, -⟩ := legal.exists_of_has named field has
    rw [childOf_rule_wrapper messages] at same
    cases same
    refine ⟨by decide, _, mem_reached_of_mem_childRecords reaches inside, below, ?_, ?_⟩
    · simp [Declares, headed, textField]
    · exact .item rfl (by simp [childrenField]) (List.mem_map_of_mem member)

/-- Every argument in a typed tree stands below the record of a step. -/
theorem exists_step_of_hasArgument {node : Json}
    (normalized : release.normalize active raw = .ok record) (legal : record.Legal)
    (has : release.family.HasArgument raw node) :
    ∃ step, step.get? "argument" = some node ∧ node.isNull = false ∧
      ∃ above ∈ record.reached, above.Legal ∧ above.Declares .step ∧
        above.get? "block" = some (TypedTree.block step) := by
  obtain @⟨child, step, type, typed, above, defined, named, member, held, given⟩ := has
  have tree : release.family = .typedTree := by simpa [isTyped] using typed
  obtain ⟨field, holder, reaches, legal, declared, has⟩ :=
    exists_above_of_hasChild normalized legal above
  obtain ⟨inner, inside, same, legal, -⟩ := legal.exists_of_has declared field has
  rw [tree] at defined named same
  obtain ⟨kind, entries, read, declared, field, steps⟩ :=
    child_steps defined (Option.some.inj named)
  cases read.symm.trans same
  obtain ⟨stepRecord, below, same, legal, -⟩ := legal.exists_of_has declared field
    (.item rfl steps (List.mem_map_of_mem member))
  cases same
  refine ⟨step, held, given, _, mem_reached_of_mem_childRecords
    (mem_reached_of_mem_childRecords reaches inside) below, legal, ?_, ?_⟩
  · simp [Declares, textField]
  · simp

/-- In a legal record, the type of a node that its family does not define is called as a kind that
may stand in its place. -/
theorem mem_reached_of_foreign {type : Option Text}
    (normalized : release.normalize active raw = .ok record) (legal : record.Legal)
    (foreign : release.family.Foreign raw parent type) :
    ofType type ∈ record.reached ∧
      ∃ kind ∈ release.family.homonyms parent, type = some (Text.word kind.symbol) := by
  cases foreign with
  | @child _ node has undefined =>
    obtain ⟨field, above, reaches, legal, declared, held⟩ :=
      exists_above_of_hasChild normalized legal has
    obtain ⟨inner, inside, same, _, kind, named, takes⟩ := legal.exists_of_has declared field held
    rw [childOf_foreign undefined] at same
    cases same
    refine ⟨mem_reached_of_mem_childRecords reaches inside, kind, ?_, declares_ofType_iff.1 named⟩
    apply Family.mem_homonyms_of_takes has.parent takes
    intro defined
    exact undefined _ defined (declares_ofType_iff.1 named)
  | @argument node has undefined =>
    obtain ⟨step, held, given, above, reaches, legal, declared, block⟩ :=
      exists_step_of_hasArgument normalized legal has
    rw [block_foreign held undefined given] at block
    have here : ChildField.Has ⟨"block", false, [.block]⟩ above _ := .single rfl block rfl
    obtain ⟨inner, inside, same, _, kind, named, takes⟩ :=
      legal.exists_of_has declared (by decide) here
    cases same
    refine ⟨mem_reached_of_mem_childRecords reaches inside, kind, ?_, declares_ofType_iff.1 named⟩
    have tree : release.family = .typedTree := by
      obtain ⟨typed, -⟩ := has
      simpa [isTyped] using typed
    rw [tree]
    revert takes
    cases kind <;> simp [ChildField.Takes, Slot.accepts, Kind.home, Kind.slots, Family.homonyms]

/-- A change that normalizes and builds a result as a release reads it: the one that a parser is
pinned to, or the one that is detected. -/
inductive Reads (release : Release) (active : Dialect) (raw : Json) : Change NodeId → Prop where
  | pinned (accepted : release.accepts raw = true) : Reads release active raw (do
      let record ← Change.ofExcept (release.normalize active raw)
      Change.build record)
  | detected (found : detect raw = .ok release) :
      Reads release active raw (Modeler.addResult active raw)

theorem Reads.eq {change : Change NodeId} (reads : release.Reads active raw change) (tree : Tree) :
    change tree = Change.outcome tree ((release.normalize active raw >>= Record.rooted).map
      fun branch => (tree.size, tree.plant branch)) := by
  have pinned : (Change.ofExcept (release.normalize active raw) >>= Change.build) tree =
      Change.outcome tree ((release.normalize active raw >>= Record.rooted).map
        fun branch => (tree.size, tree.plant branch)) := by
    rw [Except.map_bind]
    exact Change.bind_eq (Change.ofExcept_eq ..) fun record _ => Change.build_eq record tree
  cases reads with
  | pinned => exact pinned
  | detected found =>
    rw [← pinned, Modeler.addResult, found]
    rfl

/-- A result with a node of a type that its family does not define is refused, unless the type is
called as a kind that may stand there, and then the node is a blank element of this kind. -/
theorem foreign_refused_or_homonym {type : Option Text} {change : Change NodeId} (tree : Tree)
    (reads : release.Reads active raw change)
    (foreign : release.family.Foreign raw parent type) :
    (∃ error, change tree = .error error tree) ∨
      ∃ kind ∈ release.family.homonyms parent, type = some (Text.word kind.symbol) ∧
        ∃ grown, change tree = .ok tree.size grown ∧ ∃ id, tree.size ≤ id ∧
          grown.element? id = Element.make? kind ⟨[], [], []⟩ [] [] [] none [] := by
  have ends := reads.eq tree
  cases normalized : release.normalize active raw with
  | error error =>
    rw [normalized] at ends
    exact .inl ⟨error, ends⟩
  | ok record =>
    rw [normalized, show (Except.ok record >>= Record.rooted) = record.rooted from rfl] at ends
    cases rooted : record.rooted with
    | error error =>
      rw [rooted] at ends
      exact .inl ⟨error, ends⟩
    | ok branch =>
      rw [rooted] at ends
      obtain ⟨_, described, _⟩ := Except.bind_eq_ok_iff.mp rooted
      obtain ⟨reaches, kind, homonym, rfl⟩ :=
        mem_reached_of_foreign normalized (legal_of_branch described) foreign
      obtain ⟨id, new, ⟨other, element, declared, itself, here⟩, -⟩ :=
        (Tree.gains_plant tree rooted).exists_shows reaches
      cases declared.unique (declares_ofType_iff.2 rfl)
      have blank : ((ofType (some (Text.word kind.symbol))).element kind).toOption = _ :=
        element_ofType (Family.blank_of_homonym homonym)
      rw [itself] at blank
      exact .inr ⟨kind, homonym, rfl, _, ends, id, new, here.trans blank⟩

/-- A message result whose feature has a child in a wrapper for outlines, which no message family
defines. -/
def sampleWrapper : Json :=
  .object [("gherkinDocument", .object [("comments", .list []), ("feature", .object
    [("children", .list [.object [("outline", .object [])]])])])]

theorem foreign_sampleWrapper :
    Family.Foreign .jsonSchema sampleWrapper .feature (some (Text.word "outline")) := by
  let wrapper : Json := .object [("outline", .object [])]
  have above : Family.HasChild .jsonSchema sampleWrapper .feature wrapper :=
    @Family.HasChild.feature _ _ (.object [("children", .list [wrapper])]) _ rfl List.mem_cons_self
  exact @Family.Foreign.child _ _ _ wrapper above (by decide)

theorem refused_or_homonym_sampleWrapper :
    newest.accepts sampleWrapper = true ∧
      Family.Foreign .jsonSchema sampleWrapper .feature (some (Text.word "outline")) ∧
      let add : Change NodeId := do
        let record ← Change.ofExcept (newest.normalize .english sampleWrapper)
        Change.build record
      ((∃ error, add .empty = .error error .empty) ∨
        ∃ kind ∈ newest.family.homonyms .feature,
          some (Text.word "outline") = some (Text.word kind.symbol) ∧
            ∃ grown, add .empty = .ok Tree.empty.size grown ∧ ∃ id, Tree.empty.size ≤ id ∧
              grown.element? id = Element.make? kind ⟨[], [], []⟩ [] [] [] none []) := by
  have accepted : newest.accepts sampleWrapper = true := by decide
  exact ⟨accepted, foreign_sampleWrapper,
    foreign_refused_or_homonym .empty (.pinned accepted) foreign_sampleWrapper⟩

/-- The wrapper for outlines is not refused: it makes a blank outline. -/
theorem not_refused_sampleWrapper :
    newest.accepts sampleWrapper = true ∧
      Family.Foreign .jsonSchema sampleWrapper .feature (some (Text.word "outline")) ∧
      let add : Change NodeId := do
        let record ← Change.ofExcept (newest.normalize .english sampleWrapper)
        Change.build record
      (¬ ∃ error after, add .empty = .error error after) ∧
        ∃ root grown, add .empty = .ok root grown ∧
          grown.element? 2 = some (.outline ⟨[], [], []⟩) := by
  have accepted : newest.accepts sampleWrapper = true := by decide
  refine ⟨accepted, foreign_sampleWrapper, ?_⟩
  have made : (newest.normalize .english sampleWrapper >>= Record.rooted).toOption.map
      (fun branch => (Tree.empty.plant branch).element? 2) =
        some (some (.outline ⟨[], [], []⟩)) := by decide +kernel
  have reads : newest.Reads .english sampleWrapper _ := .pinned accepted
  have ends := reads.eq .empty
  cases modeled : newest.normalize .english sampleWrapper >>= Record.rooted with
  | error error =>
    rw [modeled] at made
    cases made
  | ok branch =>
    rw [modeled] at made ends
    refine ⟨?_, _, _, ends, Option.some.inj made⟩
    rintro ⟨error, after, failed⟩
    cases failed.symm.trans ends

end Release

end Gherkin
