import Gherkin.Proofs.Detection
import Gherkin.Proofs.Record.Elements

/-!
# Records of parse results are tidy

Whatever a parse result says, its record has nested records only where the children of an element
are: each construct is an object with some plain fields and with the records of its parts in the
fields for its children. So a legal record of a result reaches every element in it.
-/

namespace Gherkin

namespace Record

variable {kind : Kind} {front parts : List (String × Json)} {node : Json}

/-- An object with plain fields in front, and parts in the fields for children, is tidy. -/
theorem tidy_object (named : Fields.last? "kind" (front ++ parts) = some (Json.word kind.symbol))
    (plain : ∀ entry ∈ front, entry.2.elements = [])
    (keys : ∀ entry ∈ parts, entry.1 ∈ (childFields kind).map ChildField.key)
    (each : ∀ entry ∈ parts, entry.2.Tidy) : (Json.object (front ++ parts)).Tidy := by
  have given {entry : String × Json} (member : entry ∈ Fields.ofList (front ++ parts)) :
      entry ∈ front ∨ entry ∈ parts := List.mem_append.mp (Fields.mem_of_mem_ofList member)
  have distinct : ((Fields.ofList (front ++ parts)).map Prod.fst).Nodup :=
    List.pairwise_map.mpr ((Fields.ordered_ofList _).imp fun less => ne_of_lt less)
  refine .record distinct (fun entry member => ?_) fun other declared entry member absent => ?_
  · rcases given member with before | behind
    · exact .leaf (plain entry before)
    · exact each entry behind
  · have own : Declares (Fields.ofList (front ++ parts)) kind :=
      (Fields.get?_ofList ..).trans named
    cases own.unique declared
    rcases given member with before | behind
    · exact plain entry before
    · exact absurd (keys entry behind) absent

/-- An object with plain fields only is tidy. -/
theorem tidy_object_of_plain
    (named : Fields.last? "kind" front = some (Json.word kind.symbol))
    (plain : ∀ entry ∈ front, entry.2.elements = []) : (Json.object front).Tidy := by
  rw [← List.append_nil front]
  exact tidy_object (by rwa [List.append_nil]) plain (List.forall_mem_nil _) (List.forall_mem_nil _)

/-- The records of some nodes are tidy if each one is. -/
theorem tidy_map {record : Json → Json} (each : ∀ item, (record item).Tidy) (items : List Json) :
    (Json.list (items.map record)).Tidy :=
  .list (List.forall_mem_map.mpr fun item _ => each item)

/-! ## Parts -/

@[simp]
theorem elements_locationOf (node : Json) : (locationOf node).elements = [] := by
  unfold locationOf
  split
  · simp [Json.object, Json.elements_fields, isElement, kindName?, Fields.ofList, Fields.set,
      Fields.get?, Json.natural, Json.elements]
  · rfl

@[simp]
theorem elements_word (s : String) : (Json.word s).elements = [] := rfl

@[simp]
theorem elements_cellOf (node : Json) : (cellOf node).elements = [] := by
  rw [cellOf, Json.object, Json.elements_fields, List.flatMap_eq_nil_iff.mpr, List.append_nil]
  · simp [isElement, kindName?, Json.word, Json.asText?, textField]
  · intro entry member
    have given := Fields.mem_of_mem_ofList member
    simp only [List.mem_cons, List.not_mem_nil, or_false] at given
    rcases given with rfl | rfl | rfl <;> simp [textField]

theorem tidy_tagOf (node : Json) : (tagOf node).Tidy :=
  @tidy_object_of_plain .tag _ (by simp [textField]) (by simp [textField])

theorem tidy_tagsOf (node : Json) : (tagsOf node).Tidy := tidy_map tidy_tagOf _

theorem tidy_rowOf (node : Json) : (rowOf node).Tidy :=
  @tidy_object_of_plain .row _ (by simp) (by simp)

theorem tidy_tableOf (node : Json) : (tableOf node).Tidy :=
  @tidy_object .table [_, _] [("rows", _)] (by simp) (by simp)
    (by simp [childFields]) (List.forall_mem_singleton.mpr (tidy_map tidy_rowOf _))

theorem tidy_docStringOf (key : String) (node : Json) : (docStringOf key node).Tidy := by
  refine @tidy_object_of_plain .docString _ (by simp) ?_
  have type : (if (node.textAt key).isEmpty then Json.null
      else .text (node.textAt key)).elements = [] := by
    split <;> rfl
  simpa using type

theorem elements_headed (kind : Kind) (node : Json) :
    ∀ entry ∈ headed kind node, entry.2.elements = [] := by
  simp [headed, textField]

/-- An element with a header is tidy if its parts are. -/
theorem tidy_headed (unnamed : Fields.last? "kind" parts = none)
    (keys : ∀ entry ∈ parts, entry.1 ∈ (childFields kind).map ChildField.key)
    (each : ∀ entry ∈ parts, entry.2.Tidy) : (Json.object (headed kind node ++ parts)).Tidy :=
  tidy_object (by simp [headed, textField, unnamed]) (elements_headed kind node) keys each

theorem tidy_exampleOf (node : Json) : (exampleOf node).Tidy :=
  tidy_headed (by simp) (by simp [childFields]) (List.forall_mem_cons.mpr ⟨tidy_tagsOf node,
    List.forall_mem_singleton.mpr (tidy_map tidy_rowOf _)⟩)

theorem tidy_stepOf {block : Json} (tidy : block.Tidy) (node : Json) : (stepOf node block).Tidy :=
  @tidy_object .step [_, _, _, _] [("block", _)] (by simp [textField]) (by simp [textField])
    (by simp [childFields]) (List.forall_mem_singleton.mpr tidy)

theorem tidy_background {steps : Json} (tidy : steps.Tidy) :
    (Json.object (headed .background node ++ [("steps", steps)])).Tidy :=
  tidy_headed (by simp) (by simp [childFields]) (List.forall_mem_singleton.mpr tidy)

theorem tidy_scenario {steps : Json} (tidy : steps.Tidy) :
    (Json.object (headed .scenario node ++ [("tags", tagsOf node), ("steps", steps)])).Tidy :=
  tidy_headed (by simp) (by simp [childFields]) (List.forall_mem_cons.mpr ⟨tidy_tagsOf node,
    List.forall_mem_singleton.mpr tidy⟩)

theorem tidy_outline {steps : Json} (tidy : steps.Tidy) :
    (Json.object (headed .outline node ++ [("tags", tagsOf node), ("steps", steps),
      ("examples", .list ((node.itemsAt "examples").map exampleOf))])).Tidy :=
  tidy_headed (by simp) (by simp [childFields]) (List.forall_mem_cons.mpr ⟨tidy_tagsOf node,
    List.forall_mem_cons.mpr ⟨tidy,
      List.forall_mem_singleton.mpr (tidy_map tidy_exampleOf _)⟩⟩)

theorem tidy_featureOf {children : List Json} (each : ∀ child ∈ children, child.Tidy) :
    (featureOf node children).Tidy := by
  refine @tidy_object .feature (headed .feature node ++ [textField "language" node])
    [("tags", _), ("children", _)] (by simp [headed, textField]) ?_
    (by simp [childFields]) ?_
  · exact List.forall_mem_append.mpr ⟨elements_headed .feature node, by simp [textField]⟩
  · exact List.forall_mem_cons.mpr ⟨tidy_tagsOf node,
      List.forall_mem_singleton.mpr (.list each)⟩

theorem tidy_featureFileOf {feature : Json} (tidy : feature.Tidy) (document : Json) :
    (Json.fields (featureFileOf document feature)).Tidy :=
  @tidy_object .featureFile [_, _] [("feature", _)] (by simp [textField]) (by simp [textField])
    (by simp [childFields]) (List.forall_mem_singleton.mpr tidy)

theorem tidy_bare {named : Json} (plain : named.elements = []) : (bare named).Tidy := by
  have held {entry : String × Json} (member : entry ∈ Fields.ofList [("kind", named)]) :
      entry.2.elements = [] := by
    rw [List.mem_singleton.mp (Fields.mem_of_mem_ofList member)]
    exact plain
  exact .record (List.nodup_singleton "kind") (fun entry member => .leaf (held member))
    fun _ _ entry member _ => held member

/-! ## Typed trees -/

namespace TypedTree

theorem tidy_block (step : Json) : (block step).Tidy := by
  unfold block
  split
  · next argument _ =>
    split
    · exact tidy_tableOf argument
    · split
      · exact tidy_docStringOf _ argument
      · split
        · exact .leaf rfl
        · exact tidy_bare rfl
  · exact .leaf rfl

theorem tidy_steps (node : Json) : (steps node).Tidy :=
  tidy_map (fun step => tidy_stepOf (tidy_block step) step) _

theorem tidy_child (node : Json) : (child node).Tidy := by
  unfold child
  split
  · exact tidy_background (tidy_steps node)
  · split
    · exact tidy_scenario (tidy_steps node)
    · split
      · exact tidy_outline (tidy_steps node)
      · exact tidy_bare rfl

theorem tidy_document (tree : Json) : (Json.fields (document tree)).Tidy := by
  refine tidy_featureFileOf ?_ tree
  split
  · exact tidy_featureOf (List.forall_mem_map.mpr fun item _ => tidy_child item)
  · exact .leaf rfl

end TypedTree

/-! ## Messages -/

namespace Messages

theorem tidy_block (context : Context) (step : Json) : (block context step).Tidy := by
  unfold block
  split
  · exact tidy_tableOf _
  · exact tidy_docStringOf ..
  · exact .leaf rfl

theorem tidy_steps (context : Context) (node : Json) : (steps context node).Tidy :=
  tidy_map (fun step => tidy_stepOf (tidy_block context step) step) _

theorem tidy_scenario (context : Context) (node : Json) : (scenario context node).Tidy := by
  unfold scenario
  split
  · exact tidy_outline (tidy_steps context node)
  · exact Record.tidy_scenario (tidy_steps context node)

theorem tidy_child (context : Context) (wrapper : Json) : (child context wrapper).Tidy := by
  induction wrapper using child.induct with
  | case1 node rest =>
    rw [child, if_pos rfl]
    exact tidy_background (tidy_steps context node)
  | case2 node rest _ =>
    rw [child_scenario]
    exact tidy_scenario context node
  | case3 node rest _ _ ih =>
    rw [child_rule]
    refine tidy_headed (by simp) (by simp [childFields]) (List.forall_mem_cons.mpr ⟨?_,
      List.forall_mem_singleton.mpr (.list (List.forall_mem_map.mpr ?_))⟩)
    · split
      · exact tidy_tagsOf node
      · exact .leaf rfl
    · exact fun item member => ih ⟨item, member⟩
  | case4 key node rest background scenario rule =>
    rw [child, if_neg background, if_neg scenario, if_neg rule]
    exact tidy_bare rfl
  | case5 wrapper unwrapped =>
    rw [child]
    · exact tidy_bare rfl
    · exact unwrapped

theorem tidy_document (active : Dialect) (ruleTags : Bool) (key : String) (envelope : Json) :
    (Json.fields (document active ruleTags key envelope)).Tidy := by
  refine tidy_featureFileOf ?_ envelope
  split
  · exact tidy_featureOf (List.forall_mem_map.mpr fun item _ => tidy_child _ item)
  · exact .leaf rfl

end Messages

end Record

/-- The record of a parse result is tidy. -/
theorem Release.tidy_of_normalize {release : Release} {active : Dialect} {result : Json}
    {record : Record} (normalized : release.normalize active result = .ok record) :
    (Json.fields record).Tidy := by
  unfold normalize at normalized
  split at normalized
  · split at normalized
    · cases normalized
      exact Record.TypedTree.tidy_document result
    · split at normalized
      · cases normalized
        exact Record.Messages.tidy_document ..
      · cases normalized
  · cases normalized

end Gherkin
