import Gherkin.Proofs.Command
import Gherkin.Proofs.Document.Location
import Gherkin.Proofs.Normality

/-!
# What is modeled from source text

Documents, single elements, files and directories: whatever source text a modeler turns into
nodes, all that is not a directory or a feature file is in normal form in one of the dialects.
-/

namespace Gherkin

namespace Branch

variable {branch : Branch Origin}

/-- Directories and feature files around branches that are in normal form, each in a dialect. -/
inductive IsModeled : Branch Origin → Prop where
  | normal {dialect branch} : branch.IsNormal dialect → branch.Arranged → IsModeled branch
  | around {origin element children} : element.kind = .directory ∨ element.kind = .featureFile →
      (∀ child ∈ children, IsModeled child) → IsModeled (.node origin element children)

theorem IsModeled.children (modeled : branch.IsModeled) :
    ∀ child ∈ branch.children, child.IsModeled := by
  cases modeled with
  | around _ below => exact below
  | normal normal arranged =>
    intro child member
    obtain ⟨_, below⟩ := normal
    obtain ⟨_, each⟩ := arranged
    exact .normal (below child member) (each child member)

/-- It does not matter what a branch is made of. -/
theorem IsModeled.of_node {origin other : Origin} {element : Element}
    {children : List (Branch Origin)} (modeled : (node origin element children).IsModeled) :
    (node other element children).IsModeled := by
  cases modeled with
  | around outer below => exact .around outer below
  | normal normal arranged =>
    obtain ⟨here, below⟩ := normal
    obtain ⟨grouped, each⟩ := arranged
    exact .normal (.node here below) (.node grouped each)

end Branch

namespace Tree

variable {tree : Tree}

/-- Where a branch stands that was modeled, its elements are in normal form. -/
theorem exists_isNormalAt {branch : Branch Origin} {start inner : Nat} {parent : Option NodeId}
    (modeled : branch.IsModeled) (holds : tree.HoldsFrom start (branch.nodes start parent))
    (after : start ≤ inner) (before : inner < start + branch.size)
    (apart : tree.kind? inner ≠ some .directory ∧ tree.kind? inner ≠ some .featureFile) :
    ∃ dialect, tree.IsNormalAt dialect inner := by
  induction modeled generalizing start inner parent with
  | normal normal arranged => exact ⟨_, isNormalAt_of_holds normal arranged holds after before⟩
  | @around origin element children outer below ih =>
    rcases Nat.eq_or_lt_of_le after with rfl | later
    · have kind : tree.kind? start = some element.kind :=
        congrArg (Option.map Node.kind) holds.node?_top
      rw [kind] at apart
      rcases outer with outer | outer
      · exact absurd (congrArg some outer) apart.1
      · exact absurd (congrArg some outer) apart.2
    · rw [Branch.size] at before
      obtain ⟨child, inside, place, after, before, holds⟩ :=
        exists_child_of_holds holds.children later (by rw [Branch.children]; omega)
      exact ih child inside holds after before apart

end Tree

namespace Modeler

open Document

variable {release : Release} {active : Dialect} {pinned : Option Dialect} {source uri : Text}

/-- The branch of a document that can be read, with any origin and path. -/
theorem isModeled_of_read {document : Document} (known : pinned.getD active ∈ Dialect.all)
    (read : Document.read release (pinned.getD active) uri source = .ok document) (origin : Origin)
    (path : Text) : (Branch.node origin (.featureFile path)
      (document.feature.toList.map Feature.branch)).IsModeled := by
  obtain ⟨_, _, spelled, _⟩ := spelled_of_read known read
  refine .around (.inr rfl) (List.forall_mem_map.mpr fun feature given => ?_)
  exact .normal (Feature.isNormal_branch (spelled feature (Option.mem_toList.mp given)))
    feature.arranged_branch

section Parts

variable {branch : Branch Origin} (supported : release ∈ Release.all)
  (known : pinned.getD active ∈ Dialect.all)

include supported known

theorem isModeled_of_document
    (modeled : (ofRelease active release pinned).document source uri = .ok branch) :
    branch.IsModeled := by
  obtain ⟨document, read, rfl⟩ := (document_eq_ok_iff supported known).mp modeled
  exact isModeled_of_read known read _ _

theorem normalize_eq_ok {record : Record}
    (normalized : (ofRelease active release pinned).normalize source uri = .ok record) :
    ∃ document, Document.read release (pinned.getD active) uri source = .ok document ∧
      record = document.record (if isTyped release.family then [] else uri) := by
  cases read : Document.read release (pinned.getD active) uri source with
  | ok document =>
    rw [normalize_of_read supported known read] at normalized
    exact ⟨document, rfl, (Except.ok.inj normalized).symm⟩
  | error defect =>
    simp [normalize, parse, ofRelease, Parser.ofRelease, read, Except.map, Except.mapError, bind,
      Except.bind] at normalized

/-- The branch of an element is one of those in the document around its source text. -/
theorem isModeled_of_element {kind : Kind}
    (modeled : (ofRelease active release pinned).element kind source = .ok branch) :
    branch.IsModeled := by
  obtain ⟨wrapped, whole, modeled⟩ := Except.bind_eq_ok_iff.mp modeled
  obtain ⟨record, normalized, modeled⟩ := Except.bind_eq_ok_iff.mp modeled
  obtain ⟨found, located, rooted⟩ := Except.bind_eq_ok_iff.mp modeled
  have apart : kind ≠ .cell := by
    rintro rfl
    cases whole
  obtain ⟨document, read, rfl⟩ := normalize_eq_ok supported known normalized
  unfold Fragment.locate at located
  split at located
  · next value here =>
    obtain ⟨inner, inside, same, rfl, described⟩ := (finds apart _ document).found value here
    cases located
    have part := Branch.forall_outermost (fun _ modeled => modeled.children)
      (isModeled_of_read known read _ _) inner inside
    obtain ⟨⟨origin, element, children⟩, described', same⟩ := Except.bind_eq_ok_iff.mp rooted
    cases described.symm.trans described'
    cases same
    exact part.of_node
  · cases located

theorem isModeled_of_ofFile {path : Path} {text : Option Text}
    (modeled : (ofRelease active release pinned).ofFile path text = .ok branch) :
    branch.IsModeled := by
  cases text with
  | none => cases modeled
  | some source => exact isModeled_of_document supported known modeled

end Parts

theorem isModeled_of_loadDirectory (supported : release ∈ Release.all)
    (known : pinned.getD active ∈ Dialect.all) {disk : Entry} {path : Path}
    {branch : Branch Origin}
    (modeled : (ofRelease active release pinned).loadDirectory disk path = .ok branch) :
    branch.IsModeled :=
  loadDirectory_induction (fun _ _ _ read => isModeled_of_ofFile supported known read)
    (fun _ _ each => .around (.inl rfl) each) modeled

end Modeler

namespace Command

variable {tree : Tree} {command : Command}

/-- The modeler that makes nodes of source text for a command. -/
def modeler? : Command → Option Modeler
  | .document modeler _ _ | .element modeler _ _ | .file modeler _ _ | .directory modeler _ _ =>
    some modeler
  | _ => none

/-- A command that models source text plants what was modeled, or nothing. -/
theorem exists_plant_of_modeler? {release : Release} {active : Dialect} {pinned : Option Dialect}
    (linked : tree.Linked) (supported : release ∈ Release.all)
    (known : pinned.getD active ∈ Dialect.all)
    (models : command.modeler? = some (.ofRelease active release pinned)) :
    command.after tree = tree ∨
      ∃ branch : Branch Origin, branch.IsModeled ∧ command.after tree = tree.plant branch := by
  rw [after, perform_eq linked]
  cases done : command.effect tree with
  | error error => exact .inl rfl
  | ok grown =>
    cases command with
    | document modeler source uri =>
      cases models
      obtain ⟨branch, modeled, rfl⟩ := Except.map_eq_ok_iff.mp done
      exact .inr ⟨branch, Modeler.isModeled_of_document supported known modeled, rfl⟩
    | element modeler kind source =>
      cases models
      obtain ⟨branch, modeled, rfl⟩ := Except.map_eq_ok_iff.mp done
      exact .inr ⟨branch, Modeler.isModeled_of_element supported known modeled, rfl⟩
    | file modeler disk path =>
      cases models
      obtain ⟨branch, modeled, rfl⟩ := Except.map_eq_ok_iff.mp done
      exact .inr ⟨branch, Modeler.isModeled_of_ofFile supported known modeled, rfl⟩
    | directory modeler disk path =>
      cases models
      obtain ⟨branch, modeled, rfl⟩ := Except.map_eq_ok_iff.mp done
      exact .inr ⟨branch, Modeler.isModeled_of_loadDirectory supported known modeled, rfl⟩
    | _ => cases models

/-- Every node that a command makes of source text is in normal form in some dialect, if it is
neither a directory nor a feature file. -/
theorem exists_isNormalAt_of_modeler? {release : Release} {active : Dialect}
    {pinned : Option Dialect} (linked : tree.Linked) (supported : release ∈ Release.all)
    (known : pinned.getD active ∈ Dialect.all)
    (models : command.modeler? = some (.ofRelease active release pinned)) {id : NodeId}
    (new : tree.size ≤ id) (here : id < (command.after tree).size)
    (apart : (command.after tree).kind? id ≠ some .directory ∧
      (command.after tree).kind? id ≠ some .featureFile) :
    ∃ dialect, (command.after tree).IsNormalAt dialect id := by
  rcases exists_plant_of_modeler? linked supported known models with same | ⟨branch, modeled, same⟩
  · rw [same] at here
    exact absurd here (Nat.not_lt_of_le new)
  · rw [same] at here apart ⊢
    rw [Tree.size_plant] at here
    exact Tree.exists_isNormalAt modeled (tree.holdsFrom_plant branch) new here apart

/-- The children of a node that a command makes of source text are made by it as well. -/
theorem size_le_of_modeler? {release : Release} {active : Dialect} {pinned : Option Dialect}
    (linked : tree.Linked) (supported : release ∈ Release.all)
    (known : pinned.getD active ∈ Dialect.all)
    (models : command.modeler? = some (.ofRelease active release pinned)) {id child : NodeId}
    (new : tree.size ≤ id) (below : (command.after tree).parent? child = some id) :
    tree.size ≤ child := by
  have apart : tree.parent? child ≠ some id := fun found =>
    Nat.not_lt_of_le new (linked.closed child id found)
  rcases exists_plant_of_modeler? linked supported known models with same | ⟨branch, _, same⟩
  · rw [same] at below
    exact absurd below apart
  · by_contra old
    rw [same, Tree.parent?, Tree.node?_plant_of_lt branch (Nat.lt_of_not_le old)] at below
    exact apart below

end Command

end Gherkin
