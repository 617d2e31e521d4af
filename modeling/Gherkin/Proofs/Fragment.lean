import Gherkin.Proofs.Document.Enclosure
import Gherkin.Proofs.Document.Normal
import Gherkin.Proofs.Document.Stability
import Gherkin.Proofs.Pipeline
import Gherkin.Tree.Render

/-!
# Modeling rendered elements

A node in normal form is rendered, and the text is modeled as an element of its kind. This
gives the node again: rendering is a faithful encoding of all that is in normal form, but
for the lines of doc strings that cannot be written down.
-/

namespace Gherkin

open Layout

variable {α : Type} {dialect : Dialect} {width : Text → Nat} {depth : Nat}

/-- What is in normal form is laid out beginning with a line. -/
theorem Branch.IsNormal.exists_line {branch : Branch α} (normal : branch.IsNormal dialect) :
    ∃ text rest, items width depth branch = .line depth text :: rest := by
  have opened (heading : Heading) (children : List (Branch α)) (behind : List Item) :
      ∃ text rest, opening depth heading children ++ behind = .line depth text :: rest := by
    unfold opening
    simp only [tagLine]
    split <;> exact ⟨_, _, rfl⟩
  cases normal with
  | @node label element children here below =>
      cases element with
      | directory | featureFile => exact here.elim
      | step | row | docString | tag => exact ⟨_, _, rfl⟩
      | table =>
          obtain ⟨⟨element, member, isRow⟩, _⟩ := here
          obtain ⟨child, inside, rfl⟩ := List.mem_map.mp member
          have some : cellRows children ≠ [] := by
            have kept : child ∈ Branch.ofKind .row children :=
              List.mem_filter.mpr ⟨inside, beq_iff_eq.mpr isRow⟩
            exact List.ne_nil_of_mem (List.mem_map_of_mem kept)
          obtain ⟨row, rows, same⟩ := List.exists_cons_of_ne_nil some
          rw [items, same]
          exact ⟨_, _, rfl⟩
      | _ => exact opened _ _ _

namespace Document

/-! ## Parts in their places -/

/-- Tags are read above the header of a feature. -/
theorem holds_tag {tag : Tag} (regular : dialect.Regular) (name : IsTagName tag.name) :
    Holds dialect .tag 0 tag.branch
      ⟨dialect.code, [tag], .bare dialect .feature, ⟨none, []⟩, []⟩ := by
  refine ⟨⟨rfl, by simpa using name, rfl, Header.spelled_bare regular _, ⟨by simp, by simp⟩,
    by simp⟩, rfl, fun width indent free => ?_⟩
  have written : tag.name ≠ [] := by
    obtain ⟨c, rest, shape⟩ := name.shape
    simp [shape]
  have laidOut : items width 0 (Feature.branch
      ⟨dialect.code, [tag], .bare dialect .feature, ⟨none, []⟩, []⟩) =
      [.line 0 tag.name, .line 0 (Fragment.headerLine dialect .feature)] := by
    rw [Feature.items_branch]
    simp [headed_bare, tagItems, Text.join_singleton, Body.branches, below]
  have rendered : renderAt width indent 0 tag.branch = tag.name := by
    obtain ⟨joined, whole, label⟩ :=
      exists_join_tagNames (List.cons_ne_nil tag.name []) (List.forall_mem_singleton.mpr name)
    rw [Text.join_singleton] at whole
    have tidy : Tidy (items width 0 tag.branch) := Tidy.line 0 written (whole ▸ label)
    rw [renderAt_eq width free tidy, Tag.branch, items, settled_line _ _ _ written,
      Description.indented_of_ne_nil _ written, settled_eq_nil rfl, Text.unlines_singleton]
    rfl
  refine ⟨_, id, ?_, congrArg texts laidOut.symm, fun read lines => laidOut ▸ lines⟩
  rw [rendered, settled_line _ _ _ written, settled_line _ _ _ (Document.headerLine_ne_nil _),
    settled_eq_nil rfl, Description.indented_of_ne_nil _ written,
    Description.indented_of_ne_nil _ (Document.headerLine_ne_nil _)]
  rfl

/-- A part with a header is held by a feature around it. -/
theorem holds_around {kind : Kind} {body : Body} {rules : List Rule} {part : Branch Origin}
    (regular : dialect.Regular) (single : body.branches ++ rules.map Rule.branch = [part])
    (setOff : isSetOff part.kind = true) (bodySpelled : body.Spelled dialect)
    (rulesSpelled : ∀ rule ∈ rules, rule.Spelled dialect) (itself : part.kind = kind)
    (surrounded : Fragment.surroundings dialect kind =
      .ok ([Fragment.headerLine dialect .feature], []))
    (first : ∀ width, ∃ text rest, items width 0 part = .line 0 text :: rest) (depth : Nat) :
    Holds dialect kind depth part (Feature.around dialect body rules) := by
  have other : kind ≠ .feature := by
    rintro rfl
    rw [itself] at setOff
    cases setOff
  exact (encloses_around single setOff other).holds regular
    (Feature.spelled_around regular bodySpelled rulesSpelled) itself surrounded first depth

/-- What is enclosed in a test is held by the feature around the test. -/
theorem holds_test {kind : Kind} {part : Branch Origin} {test : Scenario} {front : List Item}
    {levels : Nat} (encloses : Encloses kind front levels part test.branch)
    (regular : dialect.Regular) (itself : part.kind = kind) (other : kind ≠ .feature)
    (spelled : test.Spelled dialect)
    (surrounded : Fragment.surroundings dialect kind =
      .ok (Fragment.headerLine dialect .feature :: texts front, []))
    (first : ∀ width, ∃ text rest, items width 0 part = .line 0 text :: rest) (depth : Nat) :
    Holds dialect kind depth part (Feature.around dialect ⟨none, [test]⟩ []) := by
  have setOff : isSetOff test.branch.kind = true := by
    rw [kind_scenario_branch]
    split <;> rfl
  have around : Encloses kind _ 1 test.branch
      (Feature.around dialect ⟨none, [test]⟩ []).branch := encloses_around rfl setOff other
  refine (encloses.trans around).holds regular (Feature.spelled_around regular
    ⟨by simp, List.forall_mem_singleton.mpr spelled⟩ (by simp)) itself ?_ first depth
  rw [surrounded, texts_append, texts_map_shift]
  rfl

/-- What is or makes up something below a step is held by the feature around the step. -/
theorem holds_argument {kind : Kind} {part : Branch Origin} {argument : Argument}
    (encloses : Encloses kind [] 0 part argument.branch) (regular : dialect.Regular)
    (itself : part.kind = kind) (others : kind ≠ .feature ∧ kind ≠ .scenario ∧ kind ≠ .step)
    (spelled : argument.Spelled)
    (surrounded : Fragment.surroundings dialect kind =
      .ok ([Fragment.headerLine dialect .feature, Fragment.headerLine dialect .scenario,
        dialect.primary .step ++ Text.word "step"], []))
    (first : ∀ width, ∃ text rest, items width 0 part = .line 0 text :: rest) (depth : Nat) :
    Holds dialect kind depth part
      (Feature.around dialect ⟨none, [(argument.step dialect).scenario dialect]⟩ []) := by
  have inStep := encloses.trans (encloses_step regular argument others.2.2)
  have inScenario : Encloses kind _ _ part ((argument.step dialect).scenario dialect).branch :=
    inStep.trans (encloses_scenario (argument.step dialect) others.2.1)
  exact holds_test inScenario regular itself others.1
    (Step.spelled_scenario regular (Argument.spelled_step regular spelled)) surrounded first depth

/-- Whatever is in normal form is held by a feature. -/
theorem exists_holds {branch : Branch α} (regular : dialect.Regular)
    (normal : branch.IsNormal dialect) (slotted : branch.Slotted) :
    ∃ part feature, part.content = branch.content ∧ Holds dialect branch.kind 0 part feature := by
  have first {part : Branch Origin} (same : part.content = branch.content) (width : Text → Nat) :
      ∃ text rest, items width 0 part = .line 0 text :: rest := by
    rw [items_eq_of_content_eq same]
    exact normal.exists_line
  have kinds {part : Branch Origin} (same : part.content = branch.content) :
      part.kind = branch.kind := congrArg Element.kind (element_eq_of_content_eq same)
  have part {slot : Slot} (home : branch.kind.home = some slot) : IsPart dialect slot branch :=
    ⟨home, normal, slotted⟩
  cases kind : branch.kind with
  | directory => exact absurd kind normal.kind_ne.1
  | featureFile => exact absurd kind normal.kind_ne.2.1
  | cell => exact absurd kind normal.kind_ne.2.2
  | feature =>
      obtain ⟨feature, spelled, same⟩ := (part (congrArg Kind.home kind)).says_feature
      exact ⟨_, feature, same, (Encloses.refl _).holds regular spelled rfl rfl (first same) 0⟩
  | rule =>
      obtain ⟨rule, spelled, same⟩ := (part (congrArg Kind.home kind)).says_rule
      exact ⟨_, _, same, @holds_around _ _ ⟨none, []⟩ [rule] _ regular rfl rfl
        ⟨by simp, by simp⟩ (List.forall_mem_singleton.mpr spelled) rfl rfl (first same) 0⟩
  | background =>
      obtain ⟨background, spelled, same⟩ := (part (congrArg Kind.home kind)).says_background
      exact ⟨_, _, same, @holds_around _ _ ⟨some background, []⟩ [] _ regular rfl rfl
        ⟨by simpa using spelled, by simp⟩ (by simp) rfl rfl (first same) 0⟩
  | scenario | outline =>
      obtain ⟨test, spelled, same⟩ := (part (congrArg Kind.home kind)).says_test
      have itself := (kinds same).trans kind
      exact ⟨_, _, same, @holds_around _ _ ⟨none, [test]⟩ [] _ regular rfl (by rw [itself]; rfl)
        ⟨by simp, List.forall_mem_singleton.mpr spelled⟩ (by simp) itself rfl (first same) 0⟩
  | «example» =>
      obtain ⟨block, spelled, same⟩ := (part (congrArg Kind.home kind)).says_examples
      have encloses : Encloses .example _ 1 block.branch (block.outline dialect).branch :=
        encloses_outline block nofun
      exact ⟨_, _, same, holds_test encloses regular rfl nofun
        (Examples.spelled_outline regular spelled) rfl (first same) 0⟩
  | step =>
      obtain ⟨step, spelled, same⟩ := (part (congrArg Kind.home kind)).says_step
      have encloses : Encloses .step _ 1 step.branch (step.scenario dialect).branch :=
        encloses_scenario step nofun
      exact ⟨_, _, same, holds_test encloses regular rfl nofun
        (Step.spelled_scenario regular spelled) rfl (first same) 0⟩
  | table | docString =>
      obtain ⟨argument, spelled, same⟩ := (part (congrArg Kind.home kind)).says_argument
      exact ⟨_, _, same, holds_argument (.refl _) regular ((kinds same).trans kind)
        ⟨nofun, nofun, nofun⟩ spelled rfl (first same) 0⟩
  | row =>
      obtain ⟨row, values, same⟩ := (part (congrArg Kind.home kind)).says_row
      have encloses : Encloses .row [] 0 row.branch _ := encloses_table row nofun
      refine ⟨_, _, same, holds_argument encloses regular rfl ⟨nofun, nofun, nofun⟩
        ⟨List.cons_ne_nil _ _, List.forall_mem_singleton.mpr values, ?_⟩ rfl (first same) 0⟩
      intro one here other there
      rw [List.mem_singleton.mp here, List.mem_singleton.mp there]
  | tag =>
      obtain ⟨tag, name, same⟩ := (part (congrArg Kind.home kind)).says_tag
      exact ⟨_, _, same, holds_tag regular name⟩

/-! ## Reading what holds a part -/

/-- Releases that know tags of rules know the whole grammar. -/
theorem Feature.admitted_of_le {release : Release} (recent : 18 ≤ release.version)
    (feature : Feature) : feature.Admitted release := by
  have examples : release.hasScenarioExamples = true := decide_eq_true (by omega)
  have rules : release.hasRules = true := decide_eq_true (by omega)
  have tags : release.hasRuleTags = true := decide_eq_true recent
  exact ⟨fun _ _ => .inl examples, fun _ _ => ⟨rules, .inl tags, fun _ _ => .inl examples⟩⟩

/-- A wrapped fragment is read as the feature that holds it. -/
theorem Holds.reads {kind : Kind} {part : Branch Origin} {feature : Feature} {release : Release}
    {indent file : Text} (holds : Holds dialect kind depth part feature)
    (known : dialect ∈ Dialect.all) (admitted : feature.Admitted release)
    (blank : Text.IsBlank indent) (newlineFree : '\n' ∉ indent) :
    ∃ wrapped found, Fragment.wrap dialect kind (renderAt width indent depth part) = .ok wrapped ∧
      Document.read release dialect file wrapped = .ok ⟨some found⟩ ∧
      found.branch.Rereads feature.branch := by
  have regular := Dialect.regular_of_mem_all known
  obtain ⟨lines, margin, wrapped, same, written⟩ := holds.written width indent newlineFree
  have tidy : Tidy lines := (holds.spelled.tidy regular).of_texts same
  have read := written _ (@written_readAll dialect _ false _ tidy 1)
  have margins (level : Nat) : Text.IsBlank (Text.repeated (margin level) indent) :=
    Text.isBlank_repeated blank _
  obtain ⟨found, parsed, again⟩ := reads_feature regular margins
    (fun level => Text.not_mem_repeated newlineFree _) holds.spelled admitted read rfl
  refine ⟨_, found, wrapped, read_eq_ok_iff.mpr ⟨dialect, 1, _, ?_, parsed⟩, again⟩
  rw [Text.lines_unlines (not_newline_mem_settled newlineFree tidy) (ends_settled tidy)]
  exact preamble_stop (kept_head regular margins holds.spelled read)

/-- The branch of a kind in what was read. -/
theorem Holds.outermost {kind : Kind} {part : Branch Origin} {feature found : Feature}
    (holds : Holds dialect kind depth part feature) (again : found.branch.Rereads feature.branch)
    (file : kind ≠ .featureFile) (uri : Text) :
    ∃ branch, (Document.branch uri ⟨some found⟩).outermost kind = [branch] ∧
      branch.content = part.reread.content := by
  have itself : (Document.branch uri ⟨some found⟩).outermost kind = found.branch.outermost kind :=
    Branch.outermost_of_children (Ne.symm file) rfl
  have contents : (found.branch.outermost kind).map Branch.content = [part.reread.content] := by
    have found : found.branch.content.outermost kind =
        feature.branch.reread.content.outermost kind :=
      congrArg _ again
    rw [Branch.content, Branch.content, Branch.outermost_map, Branch.outermost_map,
      Branch.outermost_reread, holds.alone] at found
    exact found
  obtain ⟨branch, alone, same⟩ := List.map_eq_singleton_iff.mp contents
  exact ⟨branch, itself.trans alone, same⟩

end Document

namespace Modeler

open Document

variable {release : Release} {active : Dialect} {pinned : Option Dialect} {indent : Text}

/-- The record of the only branch of a kind is located. -/
theorem exists_locate {kind : Kind} {record : Record} {branch : Branch Origin}
    (finds : Fragment.Finds kind (.fields record) [branch]) :
    ∃ found rooted, Fragment.locate kind record = .ok found ∧ found.rooted = .ok rooted ∧
      rooted.content = branch.content := by
  cases located : Fragment.find? kind (.fields record) with
  | none => cases finds.missing located
  | some value =>
      obtain ⟨inner, among, found, rfl, described⟩ := finds.found value located
      cases List.mem_singleton.mp among
      obtain ⟨origin, element, children⟩ := branch
      refine ⟨found, .node { origin with record := some found } element children, ?_, ?_, ?_⟩
      · rw [Fragment.locate, located]
        rfl
      · rw [Record.rooted, described]
        rfl
      · rw [Branch.content, Branch.content, Branch.map_node, Branch.map_node]

/-- A rendered fragment is modeled as it is read again in the feature that holds it. -/
theorem exists_element_of_holds {kind : Kind} {part : Branch Origin} {feature : Feature}
    (holds : Holds (pinned.getD active) kind depth part feature) (supported : release ∈ Release.all)
    (known : pinned.getD active ∈ Dialect.all) (admitted : feature.Admitted release)
    (blank : Text.IsBlank indent) (newlineFree : '\n' ∉ indent) (file : kind ≠ .featureFile)
    (cell : kind ≠ .cell) :
    ∃ again, (ofRelease active release pinned).element kind
        (renderAt Text.width indent depth part) = .ok again ∧
      again.content = part.content.reread := by
  obtain ⟨wrapped, found, whole, read, again⟩ :=
    @Holds.reads _ Text.width _ _ _ _ release _ (Fragment.fileName kind) holds known admitted blank
      newlineFree
  let document : Document := ⟨some found⟩
  let path : Text := if isTyped release.family then [] else Fragment.fileName kind
  obtain ⟨target, alone, content⟩ := holds.outermost again file path
  obtain ⟨record, rooted, located, built, contents⟩ :=
    exists_locate (alone ▸ finds cell path document)
  refine ⟨rooted, ?_, ?_⟩
  · unfold Modeler.element
    have normalized := normalize_of_read supported known read
    have wraps : Fragment.wrap (ofRelease active release pinned).parser.dialect kind _ = _ := whole
    rw [wraps]
    simp only [bind, Except.bind]
    rw [normalized]
    change (do
      let record ← Fragment.locate kind (document.record path)
      record.rooted) = _
    rw [located]
    exact built
  · rw [contents, content, Branch.content_reread]

/-- A rendered branch in normal form is modeled as it is read again. -/
theorem exists_element_render {branch : Branch α} (supported : release ∈ Release.all)
    (recent : 18 ≤ release.version) (known : pinned.getD active ∈ Dialect.all)
    (blank : Text.IsBlank indent) (newlineFree : '\n' ∉ indent)
    (normal : branch.IsNormal (pinned.getD active)) (slotted : branch.Slotted) :
    ∃ again, (ofRelease active release pinned).element branch.kind
        (render Text.width indent branch) = .ok again ∧
      again.content = branch.content.reread := by
  have regular := Dialect.regular_of_mem_all known
  obtain ⟨part, feature, same, holds⟩ := exists_holds regular normal slotted
  obtain ⟨_, file, cell⟩ := normal.kind_ne
  rw [← render_eq_of_content_eq same, ← renderAt_zero, ← same]
  exact exists_element_of_holds holds supported known (Feature.admitted_of_le recent feature) blank
    newlineFree file cell

/-- Rendering encodes every node in normal form: its text is modeled as an element of its kind,
and the new node says the same exactly when the lines of all doc strings can be read back. -/
theorem element_render_sameContent_iff {tree : Tree} {id : NodeId} {branch : Branch NodeId}
    (supported : release ∈ Release.all) (recent : 18 ≤ release.version)
    (known : pinned.getD active ∈ Dialect.all) (blank : Text.IsBlank indent)
    (newlineFree : '\n' ∉ indent) (found : tree.branch? id = some branch)
    (fits : ∀ node ∈ branch.labels, tree.Fits node)
    (normal : branch.IsNormal (pinned.getD active)) :
    ∃ again, (ofRelease active release pinned).element branch.kind (tree.render indent id) =
        .ok again ∧
      ∀ other : Tree, (other.plant again).sameContent other.size tree id = true ↔
        ∀ contents ∈ branch.docStrings, ∀ line ∈ Text.pieces contents,
          Layout.reread line = line := by
  have slotted := Tree.slotted_of_branchWithin found fits
  obtain ⟨again, modeled, content⟩ :=
    exists_element_render supported recent known blank newlineFree normal slotted
  have arranged : again.Arranged := by
    have reread := slotted.arranged.reread
    exact reread.of_content (content.trans (Branch.content_reread branch).symm)
  refine ⟨again, ?_, fun other => ?_⟩
  · rw [Tree.render, found]
    exact modeled
  · obtain ⟨planted, here, same⟩ :=
      Tree.branch?_of_linedBranch? (Tree.linedBranch?_plant arranged other)
    rw [Branch.content_map, content] at same
    rw [Tree.sameContent, here, found]
    have kept : branch.content.docStrings = branch.docStrings := Branch.docStrings_map _ branch
    rw [← kept, ← Branch.reread_eq_self_iff, ← same]
    exact ⟨normal.content_eq_of_same, Branch.same_of_content_eq⟩

/-- An outline that is written with a word for scenarios, with a tag, a doc string that holds a
delimiter and an empty line, and examples with a cell that needs escapes. -/
def sampleOutline : Branch Origin :=
  let node (element : Element) (children : List (Branch Origin)) : Branch Origin :=
    .node ⟨none, none⟩ element children
  node (.outline ⟨Text.word "Scenario", Text.word "s", []⟩)
    [node (.tag (Text.word "@slow")) [],
      node (.step (Text.word "Given") (Text.word "x <y>"))
        [node (.docString (some (Text.word "json")) (Text.word "  \"\"\"\n")) []],
      node (.example ⟨Text.word "Examples", [], []⟩)
        [node (.row [Text.word "y"]) [], node (.row [Text.word "a|\\"]) []]]

/-- The sample outline is rendered, and its text is modeled as what it was. -/
theorem element_render_sampleOutline :
    ∃ again, (ofRelease .german .newest (some .english)).element .outline
        ((Tree.empty.plant sampleOutline).render defaultIndent 0) = .ok again ∧
      ∀ other : Tree, (other.plant again).sameContent other.size
        (Tree.empty.plant sampleOutline) 0 = true := by
  have label {t : Text} (trimmed : Text.trim t = t) (oneLine : '\n' ∉ t) : Text.IsLabel t :=
    ⟨strip_eq_self_iff.mp trimmed, oneLine⟩
  have heading {construct : Construct} {keyword name : Text}
      (listed : keyword ∈ Dialect.english.keywords construct) (named : Text.IsLabel name) :
      Heading.IsNormal .english construct ⟨keyword, name, []⟩ := by
    refine ⟨listed, named, rfl, fun line member => .inr ?_⟩
    rw [List.mem_singleton.mp member]
    rfl
  have row {id : NodeId} {cell : Text} (value : IsCellValue cell) :
      Branch.IsNormal .english (.node id (.row [cell]) []) :=
    .node (List.forall_mem_singleton.mpr value) (by simp)
  have normal : Branch.IsNormal .english (.node (0 : NodeId)
      (.outline ⟨Text.word "Scenario", Text.word "s", []⟩)
      [.node 1 (.tag (Text.word "@slow")) [],
        .node 2 (.step (Text.word "Given") (Text.word "x <y>"))
          [.node 3 (.docString (some (Text.word "json")) (Text.word "  \"\"\"\n")) []],
        .node 4 (.example ⟨Text.word "Examples", [], []⟩)
          [.node 5 (.row [Text.word "y"]) [], .node 6 (.row [Text.word "a|\\"]) []]]) := by
    refine .node (.inr ⟨heading (by decide) (label rfl (by decide)),
      .example ⟨Text.word "Examples", [], []⟩, by simp [Branch.element], rfl⟩)
      (List.forall_mem_cons.mpr ⟨?tag, List.forall_mem_cons.mpr ⟨?step,
        List.forall_mem_singleton.mpr ?examples⟩⟩)
    case tag =>
      have solid : (Text.word "@slow").all (fun c => !Text.isBlank c) = true := by decide
      exact .node ⟨⟨_, _, rfl⟩, by simpa using List.all_eq_true.mp solid⟩ (by simp)
    case step =>
      refine .node ⟨⟨Text.word "Given ", by decide, rfl⟩, label rfl (by decide)⟩
        (List.forall_mem_singleton.mpr (.node ?_ (by simp)))
      rintro _ ⟨⟩
      exact ⟨by decide, label rfl (by decide)⟩
    case examples =>
      refine .node ⟨heading (by decide) (label rfl (by decide)), ?_⟩
        (List.forall_mem_cons.mpr ⟨row (strip_eq_self_iff.mp rfl),
          List.forall_mem_singleton.mpr (row (strip_eq_self_iff.mp rfl))⟩)
      simp [Element.AreEven, Branch.element, Element.cells]
  have fits : ∀ node ∈ List.range 7, (Tree.empty.plant sampleOutline).Fits node := by
    have each : ∀ node ∈ List.range 7, ∀ slot ∈ Slot.all,
        (∀ child ∈ (Tree.empty.plant sampleOutline).slot node slot,
          ((Tree.empty.plant sampleOutline).kind? child).bind Kind.home = some slot) ∧
        (slot.isSingle = true →
          ((Tree.empty.plant sampleOutline).slot node slot).length ≤ 1) := by
      decide
    intro node member
    refine ⟨fun slot child inside kind known => ?_,
      fun slot => (each node member slot (Slot.mem_all slot)).2⟩
    have home := (each node member slot (Slot.mem_all slot)).1 child inside
    rwa [Option.mem_def.mp known] at home
  have known : (some Dialect.english).getD .german ∈ Dialect.all := by decide
  obtain ⟨again, modeled, same⟩ := element_render_sameContent_iff
    (show Release.newest ∈ Release.all by decide) (by decide) known
    (List.all_eq_true.mp (show defaultIndent.all Text.isBlank = true by decide)) (by decide)
    (show (Tree.empty.plant sampleOutline).branch? 0 = some _ from rfl) fits normal
  exact ⟨again, modeled, fun other => (same other).mpr (by decide)⟩

end Modeler

end Gherkin
