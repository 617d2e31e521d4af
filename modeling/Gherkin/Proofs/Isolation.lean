import Gherkin.Proofs.Document.Margins
import Gherkin.Proofs.Modeled
import Gherkin.Proofs.Record.Tidy
import Gherkin.Proofs.Tree.Subtrees

/-!
# Fragments by themselves

A fragment is modeled within a document that is put around it, and the element that it spells is
built of its own record there. Nothing of what is around it reaches the tree: the tree has a node
for each record of an element in this record, all lines are those of the fragment, and the element
is as it would be in the tree of the whole document.
-/

namespace Gherkin

/-! ## The text around a fragment -/

namespace Fragment

variable {dialect : Dialect} {kind : Kind} {source wrapped : Text} {above below : List Text}

theorem wrap_eq_ok_iff : wrap dialect kind source = .ok wrapped ↔
    ∃ above below, surroundings dialect kind = .ok (above, below) ∧
      wrapped = Text.unlines (above ++ source :: below) := by
  unfold wrap
  cases surroundings dialect kind with
  | error => simp [bind, Except.bind]
  | ok around =>
    obtain ⟨above, below⟩ := around
    simp [bind, Except.bind, pure, Except.pure, eq_comm]

theorem newline_not_mem_surroundings (regular : dialect.Regular)
    (around : surroundings dialect kind = .ok (above, below)) :
    ∀ line ∈ above ++ below, '\n' ∉ line := by
  have header {construct : Construct} (other : construct ≠ .step) :
      '\n' ∉ headerLine dialect construct := by
    have listed := regular.primary construct (by cases construct <;> decide)
    have known := Dialect.mem_headerKeywords_iff.mpr ⟨other, listed⟩
    have oneLine := (regular.headerWord _ known).2.2.2
    simp [headerLine, oneLine]
  have step : '\n' ∉ dialect.primary .step ++ Text.word "step" := by
    have listed := regular.given _ (regular.primary .step (by decide))
    exact List.not_mem_append (regular.stepWord _ listed).2.2.2 (by decide)
  cases kind <;> cases around <;> simp [header, step]

/-- The pieces of a wrapped text are those of the fragment between the lines around it. -/
theorem pieces_wrapped (regular : dialect.Regular)
    (around : surroundings dialect kind = .ok (above, below))
    (whole : wrap dialect kind source = .ok wrapped) :
    Text.pieces wrapped = above ++ Text.pieces source ++ below := by
  obtain ⟨front, back, again, rfl⟩ := wrap_eq_ok_iff.1 whole
  cases around.symm.trans again
  have oneLine := newline_not_mem_surroundings regular around
  rw [List.forall_mem_append] at oneLine
  have lines : above ++ Text.pieces source ++ below ≠ [] := by simp [Text.pieces_ne_nil]
  have blocks := Text.unlines_block above below (Text.pieces_ne_nil source)
  rw [Text.unlines_pieces] at blocks
  rw [blocks, Text.pieces_unlines lines]
  refine List.forall_mem_append.mpr ⟨List.forall_mem_append.mpr ⟨oneLine.1, ?_⟩, oneLine.2⟩
  exact fun line member => Text.not_mem_of_mem_pieces member

end Fragment

/-! ## What is modeled of a fragment -/

theorem Release.mem_all_of_lookup {version : Nat} {release : Release}
    (found : lookup version = .ok release) : release ∈ all := by
  unfold lookup at found
  split at found
  · next family known =>
    cases found
    have bounds := List.find?_some known
    rw [Bool.and_eq_true, decide_eq_true_iff, decide_eq_true_iff] at bounds
    refine List.mem_flatMap.mpr ⟨family, List.mem_of_find?_eq_some known, ?_⟩
    refine List.mem_map.mpr ⟨version, List.mem_map.mpr ⟨family.last - version, ?_, ?_⟩, rfl⟩
    · exact List.mem_range.mpr (by omega)
    · omega
  · cases found

theorem Dialect.mem_all_of_lookup {code : Text} {dialect : Dialect}
    (found : lookup code = .ok dialect) : dialect ∈ all := by
  unfold lookup at found
  split at found
  · next known =>
    cases found
    exact mem_all_of_find? known
  · cases found

namespace Modeler

open Record

variable {modeler : Modeler} {kind : Kind} {source wrapped : Text} {tree grown : Tree}
  {root : NodeId} {above below : List Text} {document found : Record}

/-- A modeler that reads by lines, as some release does, with a known dialect. -/
def IsBundled (modeler : Modeler) : Prop :=
  ∃ release ∈ Release.all, ∃ active pinned, pinned.getD active ∈ Dialect.all ∧
    modeler = ofRelease active release pinned

/-- Every modeler of a supported version and a known dialect is one of these. -/
theorem isBundled_of_configure {active : Dialect} {version : Option Nat} {code : Option Text}
    (known : active ∈ Dialect.all) (configured : configure active version code = .ok modeler) :
    modeler.IsBundled := by
  have bundled {release : Release} {pinned : Option Dialect} (supported : release ∈ Release.all)
      (chosen : pinned.getD active ∈ Dialect.all) : (ofRelease active release pinned).IsBundled :=
    ⟨release, supported, active, pinned, chosen, rfl⟩
  have mem_all_of_pinned {code : Text} {pinned : Option Dialect}
      (chosen : (Dialect.lookup code).map some = .ok pinned) :
      pinned.getD active ∈ Dialect.all := by
    obtain ⟨dialect, found, rfl⟩ := Except.map_eq_ok_iff.mp chosen
    exact Dialect.mem_all_of_lookup found
  cases version with
  | none =>
    cases code with
    | none =>
      cases configured
      exact bundled (by decide) known
    | some code =>
      obtain ⟨_, newest, configured⟩ := Except.bind_eq_ok_iff.mp configured
      obtain ⟨pinned, chosen, same⟩ := Except.bind_eq_ok_iff.mp configured
      cases newest
      cases same
      exact bundled (by decide) (mem_all_of_pinned chosen)
  | some version =>
    obtain ⟨release, found, configured⟩ := Except.bind_eq_ok_iff.mp configured
    have supported := Release.mem_all_of_lookup found
    cases code with
    | none =>
      cases configured
      exact bundled supported known
    | some code =>
      obtain ⟨pinned, chosen, same⟩ := Except.bind_eq_ok_iff.mp configured
      cases same
      exact bundled supported (mem_all_of_pinned chosen)

/-- A fragment is wrapped in some lines, and a record is located in the document that is read. -/
structure Locates (modeler : Modeler) (kind : Kind) (source : Text) (above below : List Text)
    (wrapped : Text) (document found : Record) : Prop where
  around : Fragment.surroundings modeler.parser.dialect kind = .ok (above, below)
  whole : Fragment.wrap modeler.parser.dialect kind source = .ok wrapped
  normalized : modeler.normalize wrapped (Fragment.fileName kind) = .ok document
  located : Fragment.locate kind document = .ok found

/-- A tree has grown by the element of a record: the topmost node is of its kind, has no parent
and keeps the record, and there is a node for each record of an element in the record. -/
structure Adds (tree : Tree) (kind : Kind) (found : Record) (grown : Tree) (root : NodeId) :
    Prop where
  kind : grown.kind? root = some kind
  detached : grown.parent? root = none
  record : grown.record? root = some found
  size : grown.size = tree.size + (Json.fields found).elements.length
  older : ∀ id < tree.size, grown.node? id = tree.node? id

/-- A record is one of those that a document reaches, and its node in a tree built of the document
says the same as a node by itself, with the same lines. -/
structure AgreesWith (grown : Tree) (root : NodeId) (found : Record) (whole : Tree) (top : NodeId)
    (document : Record) : Prop where
  reached : found ∈ document.reached
  shows : ∀ place ∈ document.reached.zipIdx top, place.1 = found → whole.Shows place.2 found
  content : ∀ place ∈ document.reached.zipIdx top, place.1 = found →
    grown.sameContent root whole place.2 = true
  lined : ∃ branch, grown.linedBranch? root = some branch ∧
    ∀ place ∈ document.reached.zipIdx top, place.1 = found →
      whole.linedBranch? place.2 = some branch

/-- The lines around a fragment stay outside: the whole document can be built, its text has the
lines of the fragment between the others, and all new nodes are on lines of the fragment. -/
structure KeepsToFragment (source : Text) (above below : List Text) (wrapped : Text)
    (document : Record) (tree grown : Tree) : Prop where
  builds : ∀ base : Tree, ∃ whole top, base.build document = .ok (whole, top)
  pieces : Text.pieces wrapped = above ++ Text.pieces source ++ below
  lines : ∀ id line, tree.size ≤ id → grown.line? id = some line →
    above.length < line ∧ line ≤ above.length + (Text.pieces source).length

variable {branch : Branch Origin}

theorem exists_locates (modeled : modeler.element kind source = .ok branch) :
    ∃ above below wrapped document found,
      modeler.Locates kind source above below wrapped document found ∧
        found.rooted = .ok branch := by
  obtain ⟨wrapped, whole, modeled⟩ := Except.bind_eq_ok_iff.mp modeled
  obtain ⟨document, normalized, modeled⟩ := Except.bind_eq_ok_iff.mp modeled
  obtain ⟨found, located, rooted⟩ := Except.bind_eq_ok_iff.mp modeled
  obtain ⟨above, below, around, _⟩ := Fragment.wrap_eq_ok_iff.1 whole
  exact ⟨above, below, wrapped, document, found, ⟨around, whole, normalized, located⟩, rooted⟩

section

variable (locates : modeler.Locates kind source above below wrapped document found)

include locates

theorem Locates.apart : kind ≠ .cell := by
  have around := locates.around
  rintro rfl
  cases around

theorem Locates.tidy : (Json.fields document).Tidy := by
  obtain ⟨_, _, normalized⟩ := Except.bind_eq_ok_iff.mp locates.normalized
  exact Release.tidy_of_normalize normalized

theorem Locates.mem_elements : found ∈ (Json.fields document).elements ∧ found.Declares kind :=
  Fragment.mem_elements_of_locate locates.apart locates.located

theorem Locates.adds (rooted : found.rooted = .ok branch) (tree : Tree) :
    Adds tree kind found (tree.plant branch) tree.size := by
  obtain ⟨inside, declared⟩ := locates.mem_elements
  have gains := Tree.gains_plant tree rooted
  obtain ⟨⟨origin, element, children⟩, described, same⟩ := Except.bind_eq_ok_iff.mp rooted
  cases same
  have kinds := kind_of_branch described
  rw [kind_eq_ok_iff.mpr declared] at kinds
  have perm := (legal_of_branch described).perm_elements (locates.tidy.of_mem_elements _ inside)
  refine ⟨?_, gains.detached, gains.kept, ?_, gains.older⟩
  · rw [Tree.kind?_plant_self]
    exact congrArg some (Except.ok.inj kinds).symm
  · rw [gains.size, perm.length_eq]

theorem Locates.agreesWith (rooted : found.rooted = .ok branch) (tree : Tree) {base whole : Tree}
    {top : NodeId} (built : base.build document = .ok (whole, top)) :
    AgreesWith (tree.plant branch) tree.size found whole top document := by
  obtain ⟨inside, _⟩ := locates.mem_elements
  obtain ⟨planted, outer, same⟩ := Except.bind_eq_ok_iff.mp built
  cases same
  obtain ⟨_, described, _⟩ := Except.bind_eq_ok_iff.mp outer
  obtain ⟨part, itself, here⟩ := Tree.linedBranch?_of_reached rooted tree
    (found, tree.size) (by rw [reached_eq, List.zipIdx_cons]; exact List.mem_cons_self)
  have there : ∀ place ∈ document.reached.zipIdx base.size, place.1 = found →
      (base.plant planted).linedBranch? place.2 = some (part.bySlots.map Origin.line) := by
    rintro place member rfl
    obtain ⟨other, again, there⟩ := Tree.linedBranch?_of_reached outer base place member
    cases itself.symm.trans again
    exact there
  refine ⟨?_, ?_, fun place member same => ?_, _, here, there⟩
  · exact ((legal_of_branch described).perm_elements locates.tidy).subset inside
  · rintro place member rfl
    exact (Tree.gains_plant base outer).shows place member
  · exact Tree.sameContent_of_linedBranch? here (there place member same) rfl

/-- What was found in a document that was read keeps clear of the lines around the fragment. -/
theorem Locates.spans (bundled : modeler.IsBundled) (rooted : found.rooted = .ok branch) :
    branch.Spans (Fragment.linesAbove kind)
      ((Text.lines wrapped).length - Fragment.linesBelow kind) := by
  obtain ⟨release, supported, active, pinned, known, rfl⟩ := bundled
  obtain ⟨parsed, read, rfl⟩ := normalize_eq_ok supported known locates.normalized
  have located := locates.located
  unfold Fragment.locate at located
  split at located
  · next value first =>
    obtain ⟨inner, inside, record, rfl, described⟩ :=
      (Document.finds locates.apart _ parsed).found value first
    cases located
    have spans := (Document.spans_of_read read _).outermost ⟨rfl, rfl⟩ inner inside
    obtain ⟨⟨origin, element, children⟩, described', same⟩ := Except.bind_eq_ok_iff.mp rooted
    cases described.symm.trans described'
    cases same
    obtain ⟨here, parts⟩ := spans
    exact .node here parts
  · cases located

theorem Locates.keepsToFragment (bundled : modeler.IsBundled) (rooted : found.rooted = .ok branch)
    (tree : Tree) :
    KeepsToFragment source above below wrapped document tree (tree.plant branch) := by
  have spans := locates.spans bundled rooted
  obtain ⟨release, supported, active, pinned, known, rfl⟩ := bundled
  have pieces := Fragment.pieces_wrapped (Dialect.regular_of_mem_all known) locates.around
    locates.whole
  refine ⟨fun base => ?_, pieces, fun id line new here => ?_⟩
  · obtain ⟨parsed, _, rfl⟩ := normalize_eq_ok supported known locates.normalized
    rw [Tree.build, Document.rooted_record]
    exact ⟨_, _, rfl⟩
  · obtain ⟨node, held, given⟩ := Option.bind_eq_some_iff.mp here
    have before : id < tree.size + (branch.nodes tree.size none).length := by
      have bound := Tree.lt_size_of_node? held
      rwa [Tree.size_plant, ← Branch.length_nodes tree.size none] at bound
    have bounds := spans.of_mem_nodes ((tree.holdsFrom_plant branch).mem new before held) line given
    obtain ⟨lengthAbove, lengthBelow⟩ := Fragment.length_surroundings locates.around
    have lines : (Text.lines wrapped).length ≤ (Text.pieces wrapped).length :=
      Text.length_linesOfPieces_le _
    rw [pieces, List.length_append, List.length_append] at lines
    omega

end

/-- What a fragment is modeled as has nothing of what is put around the fragment. Whatever the
parser says, the new nodes are those of the record that is located, and say what its node in the
whole document says. Lines are what the parser makes them; those of a parser that reads by lines
are lines of the fragment. -/
theorem addElement_isolated (added : modeler.addElement kind source tree = .ok root grown) :
    ∃ above below wrapped document found,
      modeler.Locates kind source above below wrapped document found ∧
      Adds tree kind found grown root ∧
      (∀ (base whole : Tree) (top : NodeId), base.build document = .ok (whole, top) →
        AgreesWith grown root found whole top document) ∧
      (modeler.IsBundled →
        KeepsToFragment source above below wrapped document tree grown) := by
  rw [addElement_eq] at added
  cases modeled : modeler.element kind source with
  | error error =>
    rw [modeled] at added
    cases added
  | ok branch =>
    rw [modeled] at added
    cases added
    obtain ⟨above, below, wrapped, document, found, locates, rooted⟩ := exists_locates modeled
    exact ⟨above, below, wrapped, document, found, locates, locates.adds rooted tree,
      fun base whole top built => locates.agreesWith rooted tree built,
      fun bundled => locates.keepsToFragment bundled rooted tree⟩

/-- An examples block with a tag and two rows. -/
def sampleBlock : Text := Text.word "@slow\nExamples: e\n| a |\n| 1 |"

/-- The sample block is modeled by itself. -/
theorem addElement_sampleBlock :
    ∃ root grown above below wrapped document found,
      (ofRelease .english .newest none).addElement .example sampleBlock .empty = .ok root grown ∧
      (ofRelease .english .newest none).Locates .example sampleBlock above below wrapped document
        found ∧
      Adds .empty .example found grown root ∧
      (∀ (base whole : Tree) (top : NodeId), base.build document = .ok (whole, top) →
        AgreesWith grown root found whole top document) ∧
      KeepsToFragment sampleBlock above below wrapped document .empty grown := by
  have modeled : ((ofRelease .english .newest none).element .example sampleBlock).isOk = true := by
    decide +kernel
  have bundled : (ofRelease .english .newest none).IsBundled :=
    ⟨.newest, by decide, .english, none, by decide, rfl⟩
  cases added : (ofRelease .english .newest none).addElement .example sampleBlock .empty with
  | ok root grown =>
    obtain ⟨above, below, wrapped, document, found, locates, adds, agrees, keeps⟩ :=
      addElement_isolated added
    exact ⟨root, grown, above, below, wrapped, document, found, rfl, locates, adds, agrees,
      keeps bundled⟩
  | error error tree =>
    rw [addElement_eq] at added
    cases found : (ofRelease .english .newest none).element .example sampleBlock with
    | ok branch =>
      rw [found] at added
      cases added
    | error error =>
      rw [found] at modeled
      cases modeled

end Modeler

end Gherkin
