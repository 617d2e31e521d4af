import Gherkin.Proofs.Document.Normality
import Gherkin.Proofs.Modeler
import Gherkin.Proofs.Stability

/-!
# Modeled documents in normal form

Whatever text a modeler accepts, the nodes it adds are in normal form in the dialect the text was
read with: each of them with the elements of its children.
-/

namespace Gherkin

namespace Tree

variable {tree : Tree} {dialect : Dialect} {id : NodeId}

/-- The element of a node is in normal form, with the elements of the children of the node. -/
def IsNormalAt (tree : Tree) (dialect : Dialect) (id : NodeId) : Prop :=
  ∃ element ∈ tree.element? id,
    element.IsNormal dialect ((tree.children id).filterMap tree.element?)

theorem filterMap_places {children : List (Branch Origin)} {next : NodeId}
    (holds : tree.HoldsFrom next (Branch.childNodes id next children)) :
    ((Branch.places next children).map Prod.snd).filterMap tree.element? =
      children.map Branch.element := by
  induction children generalizing next with
  | nil => rfl
  | cons child rest ih =>
    rw [Branch.childNodes] at holds
    have later := holds.append_right
    rw [Branch.length_nodes] at later
    rw [Branch.places, List.map_cons, List.filterMap_cons, holds.append_left.element?, ih later,
      List.map_cons]

/-- The children of a node have the elements of the branches below it. -/
theorem HoldsFrom.childElements {branch : Branch Origin} {parent : Option NodeId}
    (arranged : branch.Arranged) (holds : tree.HoldsFrom id (branch.nodes id parent)) :
    (tree.children id).filterMap tree.element? = branch.children.map Branch.element := by
  cases arranged with
  | @node origin element children grouped _ =>
    have order : tree.children id = (Branch.places (id + 1) children).map Prod.snd := by
      rw [Tree.children, holds.node?_top]
      exact Branch.children_ofPlaces grouped (id + 1)
    rw [order]
    exact filterMap_places holds.children

/-- Every node below another one is a node of one of its children. -/
theorem exists_child_of_holds {children : List (Branch Origin)} {next inner : Nat}
    (holds : tree.HoldsFrom next (Branch.childNodes id next children)) (after : next ≤ inner)
    (before : inner < next + Branch.sizes children) :
    ∃ child ∈ children, ∃ start : Nat, start ≤ inner ∧ inner < start + child.size ∧
      tree.HoldsFrom start (child.nodes start (some id)) := by
  induction children generalizing next with
  | nil =>
    rw [Branch.sizes] at before
    omega
  | cons child rest ih =>
    rw [Branch.childNodes] at holds
    rw [Branch.sizes] at before
    rcases Nat.lt_or_ge inner (next + child.size) with here | later
    · exact ⟨child, List.mem_cons_self, next, after, here, holds.append_left⟩
    · have others := holds.append_right
      rw [Branch.length_nodes] at others
      obtain ⟨other, inside, found⟩ := ih others later (by omega)
      exact ⟨other, List.mem_cons_of_mem _ inside, found⟩

/-- Where the nodes of a branch in normal form stand, they are in normal form. -/
theorem isNormalAt_of_holds {branch : Branch Origin} {start inner : Nat} {parent : Option NodeId}
    (normal : branch.IsNormal dialect) (arranged : branch.Arranged)
    (holds : tree.HoldsFrom start (branch.nodes start parent)) (after : start ≤ inner)
    (before : inner < start + branch.size) : tree.IsNormalAt dialect inner := by
  induction normal generalizing start inner parent with
  | @node origin element children here _ ih =>
    have elements := holds.childElements arranged
    obtain ⟨_, each⟩ := arranged
    rcases Nat.eq_or_lt_of_le after with rfl | below
    · refine ⟨element, holds.element?, ?_⟩
      rw [elements]
      exact here
    · rw [Branch.size] at before
      obtain ⟨child, inside, place, after, before, holds⟩ :=
        exists_child_of_holds holds.children below (by rw [Branch.children]; omega)
      exact ih child inside (each child inside) holds after before

end Tree

namespace Modeler

open Document

variable {release : Release} {active : Dialect} {pinned : Option Dialect} {source uri : Text}

/-- Every node of a document that was modeled, but for its feature file, is in normal form in the
dialect that the source text settles on. -/
theorem addDocument_isNormal (supported : release ∈ Release.all)
    (known : pinned.getD active ∈ Dialect.all) {tree grown : Tree} {root : NodeId}
    (modeled : (ofRelease active release pinned).addDocument source uri tree = .ok root grown) :
    root = tree.size ∧ grown.element? root = some (.featureFile uri) ∧
      ∀ id, root < id → id < grown.size →
        grown.IsNormalAt (settledDialect (pinned.getD active) source) id := by
  rw [addDocument_eq] at modeled
  cases read : (ofRelease active release pinned).document source uri with
  | error error =>
    rw [read] at modeled
    cases modeled
  | ok branch =>
    rw [read] at modeled
    cases modeled
    obtain ⟨document, arose, rfl⟩ := (document_eq_ok_iff supported known).mp read
    have spelled := (read_eq_ok_iff_feature.mp arose).2.spelled (classifies_settledLines _ source)
    have holds := tree.holdsFrom_plant (document.rootedBranch uri
      (document.record (if isTyped release.family then [] else uri)))
    refine ⟨rfl, holds.element?, fun id below bound => ?_⟩
    rw [Tree.size_plant, rootedBranch, Branch.size, ← Nat.add_assoc] at bound
    obtain ⟨child, inside, start, after, before, stands⟩ :=
      Tree.exists_child_of_holds holds.children below bound
    obtain ⟨feature, given, rfl⟩ := List.mem_map.mp inside
    exact Tree.isNormalAt_of_holds
      (Feature.isNormal_branch (spelled feature (Option.mem_toList.mp given)))
      feature.arranged_branch stands after before

/-- The sample is modeled by the oldest release, and all its nodes are in normal form. -/
theorem addDocument_isNormal_sampleSource :
    ∃ grown, (ofRelease .german ⟨3, .typedTree⟩ (some .english)).addDocument sampleSource
        (Text.word "a.feature") .empty = .ok 0 grown ∧
      grown.element? 0 = some (.featureFile (Text.word "a.feature")) ∧
      ∀ id, 0 < id → id < grown.size → grown.IsNormalAt .english id := by
  have supported : (⟨3, .typedTree⟩ : Release) ∈ Release.all := by decide
  have known : (some Dialect.english).getD .german ∈ Dialect.all := by decide
  have accepted : (Document.read ⟨3, .typedTree⟩ .english (Text.word "a.feature")
      sampleSource).isOk = true := by decide +kernel
  have settled : settledDialect .english sampleSource = .english := by decide
  cases read : Document.read ⟨3, .typedTree⟩ .english (Text.word "a.feature") sampleSource with
  | error error => simp [read, Except.isOk, Except.toBool] at accepted
  | ok document =>
    have modeled := addDocument_eq (ofRelease .german ⟨3, .typedTree⟩ (some .english)) sampleSource
      (Text.word "a.feature") .empty
    rw [document_of_read supported known read] at modeled
    obtain ⟨_, top, normal⟩ := addDocument_isNormal supported known modeled
    simp only [Option.getD_some, settled] at normal
    exact ⟨_, modeled, top, normal⟩

end Modeler

end Gherkin
