import Gherkin.Proofs.Isolation
import Gherkin.Proofs.SameContent

/-!
# Fragments in every release

Two releases that both accept a fragment find the same element in it: they read the document
around it alike, and their records of it differ in the path alone. Only the record of the whole
file has the path, which the releases up to 5 leave empty. A document is given its path again when
it is modeled, but a feature file that is modeled as a fragment keeps the path of its record.
-/

namespace Gherkin

variable {release other : Release} {active active' dialect : Dialect}
  {pinned pinned' : Option Dialect} {kind : Kind} {source uri : Text} {document : Document}

/-! ## What is located -/

namespace Fragment

theorem kind_record (uri : Text) (document : Document) :
    (Fields.get? "kind" (document.record uri)).bind Json.asText? =
      some (Text.word Kind.featureFile.symbol) := by
  simp [Document.record, Json.asText?, Json.word]

theorem locate_featureFile (uri : Text) (document : Document) :
    locate .featureFile (document.record uri) = .ok (document.record uri) := by
  rw [locate, find?, kind_record]
  simp [Record.ofJson, Json.asFields?]

theorem find?_record_of_ne (apart : kind ≠ .featureFile) (uri : Text) (document : Document) :
    find? kind (.fields (document.record uri)) =
      find? kind ((document.feature.map Document.Feature.record).getD .null) := by
  have symbols : Text.word Kind.featureFile.symbol ≠ Text.word kind.symbol := by
    cases kind <;> first | decide | exact absurd rfl apart
  have behind : ¬ "uri" < "kind" := by decide
  have front : "feature" < "kind" := by decide
  rw [find?, kind_record]
  simp [symbols, Document.record, Fields.ofList, Fields.set, findInFields?, find?, behind, front]

/-- Below the file its path does not matter. -/
theorem locate_record_of_ne (apart : kind ≠ .featureFile) (uri uri' : Text) (document : Document) :
    locate kind (document.record uri) = locate kind (document.record uri') := by
  rw [locate, locate, find?_record_of_ne apart, find?_record_of_ne apart]

end Fragment

/-! ## What is modeled -/

theorem Document.read_unique {first second : Document}
    (here : Document.read release dialect uri source = .ok first)
    (there : Document.read other dialect uri source = .ok second) : first = second := by
  rcases Nat.le_total release.version other.version with older | older
  · exact Except.ok.inj ((read_mono older here).symm.trans there)
  · exact Except.ok.inj (here.symm.trans (read_mono older there))

namespace Branch

/-- Files say the same exactly when their paths do, if all else is of one document. -/
theorem same_rootedBranch_iff (path path' : Path) (record record' : Record)
    (document : Document) :
    (document.rootedBranch path record).same (document.rootedBranch path' record') = true ↔
      path.same path' = true := by
  rw [Document.rootedBranch, Document.rootedBranch, same_node_iff]
  exact and_iff_left (List.forall₂_same.mpr fun branch _ => same_of_content_eq rfl)

end Branch

namespace Tree

/-- Planted branches have the same content exactly when they say the same. -/
theorem sameContent_plant_iff {first second : Branch Origin} (arranged : first.Arranged)
    (arranged' : second.Arranged) (tree tree' : Tree) :
    (tree.plant first).sameContent tree.size (tree'.plant second) tree'.size = true ↔
      first.same second = true := by
  obtain ⟨a, here, sameA⟩ := branch?_of_linedBranch? (linedBranch?_plant arranged tree)
  obtain ⟨b, there, sameB⟩ := branch?_of_linedBranch? (linedBranch?_plant arranged' tree')
  rw [Branch.content_map] at sameA sameB
  rw [sameContent, here, there, Branch.same_iff,
    Branch.same_iff.1 (Branch.same_of_content_eq sameA),
    Branch.same_iff.1 (Branch.same_of_content_eq sameB), Branch.same_iff]

/-- A record comes to the same content in every tree. -/
theorem sameContent_plant_of_rooted {found : Record} {branch : Branch Origin}
    (rooted : found.rooted = .ok branch) (tree tree' : Tree) :
    (tree.plant branch).sameContent tree.size (tree'.plant branch) tree'.size = true := by
  have itself (start : Nat) : (found, start) ∈ found.reached.zipIdx start := by
    rw [Record.reached_eq, List.zipIdx_cons]
    exact List.mem_cons_self
  obtain ⟨part, described, here⟩ := linedBranch?_of_reached rooted tree _ (itself _)
  obtain ⟨part', described', there⟩ := linedBranch?_of_reached rooted tree' _ (itself _)
  cases described.symm.trans described'
  exact sameContent_of_linedBranch? here there rfl

end Tree

namespace Modeler

/-- What a release makes of a fragment: the record that is located in the document, which has
the path that the release records. -/
theorem exists_document_of_element {branch : Branch Origin} (supported : release ∈ Release.all)
    (known : pinned.getD active ∈ Dialect.all)
    (modeled : (ofRelease active release pinned).element kind source = .ok branch) :
    ∃ wrapped document found, Fragment.wrap (pinned.getD active) kind source = .ok wrapped ∧
      Document.read release (pinned.getD active) (Fragment.fileName kind) wrapped = .ok document ∧
      Fragment.locate kind (document.record (release.recordedPath (Fragment.fileName kind))) =
        .ok found ∧
      found.rooted = .ok branch := by
  obtain ⟨_, _, wrapped, _, found, locates, rooted⟩ := exists_locates modeled
  obtain ⟨document, read, rfl⟩ := normalize_eq_ok supported known locates.normalized
  rw [Release.recordedPath_eq supported]
  exact ⟨wrapped, document, found, locates.whole, read, locates.located, rooted⟩

/-- The elements that two releases make of a fragment are built of the same record, unless this is
the record of the file. -/
theorem sameContent_of_elements {branch branch' : Branch Origin}
    (supported : release ∈ Release.all) (supported' : other ∈ Release.all)
    (known : pinned.getD active ∈ Dialect.all) (same : pinned'.getD active' = pinned.getD active)
    (modeled : (ofRelease active release pinned).element kind source = .ok branch)
    (modeled' : (ofRelease active' other pinned').element kind source = .ok branch')
    (tree tree' : Tree) :
    (tree.plant branch).sameContent tree.size (tree'.plant branch') tree'.size = true ↔
      (kind = .featureFile → (release.version ≤ 5 ↔ other.version ≤ 5)) := by
  obtain ⟨wrapped, document, found, whole, read, located, rooted⟩ :=
    exists_document_of_element supported known modeled
  obtain ⟨wrapped', document', found', whole', read', located', rooted'⟩ :=
    exists_document_of_element supported' (same ▸ known) modeled'
  rw [same] at whole' read'
  cases whole.symm.trans whole'
  cases Document.read_unique read read'
  by_cases file : kind = .featureFile
  · subst file
    rw [Fragment.locate_featureFile] at located located'
    cases located
    cases located'
    rw [Document.rooted_record] at rooted rooted'
    cases rooted
    cases rooted'
    refine (Tree.sameContent_plant_iff (document.arranged_branch _ _)
      (document.arranged_branch _ _) _ _).trans ?_
    refine (Branch.same_rootedBranch_iff _ _ _ _ document).trans ?_
    rw [forall_prop_of_true rfl, Release.recordedPath, Release.recordedPath]
    -- An empty path and the name of the file have different components.
    split <;> split <;> simp [*] <;> decide
  · rw [Fragment.locate_record_of_ne file _ (other.recordedPath _)] at located
    cases located.symm.trans located'
    cases rooted.symm.trans rooted'
    exact ⟨fun _ same => absurd same file, fun _ => Tree.sameContent_plant_of_rooted rooted _ _⟩

/-- Fragments are independent of the release that reads them, but for the path of a feature file:
the releases up to 5 leave it empty, and the later ones name the file that the fragment is read
as. -/
theorem addElement_sameContent_iff {tree tree' grown grown' : Tree} {root root' : NodeId}
    (supported : release ∈ Release.all) (supported' : other ∈ Release.all)
    (known : dialect ∈ Dialect.all) (chosen : pinned.getD active = dialect)
    (chosen' : pinned'.getD active' = dialect)
    (added : (ofRelease active release pinned).addElement kind source tree = .ok root grown)
    (added' : (ofRelease active' other pinned').addElement kind source tree' = .ok root' grown') :
    grown.sameContent root grown' root' = true ↔
      (kind = .featureFile → (release.version ≤ 5 ↔ other.version ≤ 5)) := by
  subst chosen
  obtain ⟨branch, modeled, rfl, rfl⟩ := exists_element_of_addElement added
  obtain ⟨branch', modeled', rfl, rfl⟩ := exists_element_of_addElement added'
  exact sameContent_of_elements supported supported' known chosen' modeled modeled' tree tree'

/-- The oldest and the newest release model a block of examples alike. -/
theorem addElement_sameContent_sampleBlock :
    ∃ root grown root' grown',
      (ofRelease .english ⟨3, .typedTree⟩ none).addElement .example sampleBlock .empty =
        .ok root grown ∧
      (ofRelease .german .newest (some .english)).addElement .example sampleBlock .empty =
        .ok root' grown' ∧
      grown.sameContent root grown' root' = true := by
  obtain ⟨branch, modeled⟩ : ∃ branch,
      (ofRelease .english ⟨3, .typedTree⟩ none).element .example sampleBlock = .ok branch :=
    Except.exists_of_isOk (by decide +kernel)
  obtain ⟨branch', modeled'⟩ : ∃ branch,
      (ofRelease .german .newest (some .english)).element .example sampleBlock = .ok branch :=
    Except.exists_of_isOk (by decide +kernel)
  have added := addElement_eq (ofRelease .english ⟨3, .typedTree⟩ none) .example sampleBlock .empty
  have added' := addElement_eq (ofRelease .german .newest (some .english)) .example sampleBlock
    .empty
  rw [modeled] at added
  rw [modeled'] at added'
  have known : Dialect.english ∈ Dialect.all := by decide
  exact ⟨_, _, _, _, added, added', (addElement_sameContent_iff (by decide) (by decide) known rfl
    rfl added added').mpr fun file => by cases file⟩

/-- A feature by itself. -/
def sampleFile : Text := Text.word "Feature: f"

/-- The releases 5 and 27 give a feature file that is modeled as a fragment different paths. -/
theorem addElement_not_sameContent_sampleFile :
    ¬ ∀ (root root' : NodeId) (grown grown' : Tree),
      (ofRelease .english ⟨5, .typedTree⟩ none).addElement .featureFile sampleFile .empty =
        .ok root grown →
      (ofRelease .english .newest none).addElement .featureFile sampleFile .empty =
        .ok root' grown' →
      grown.sameContent root grown' root' = true := by
  intro alike
  have apart : (match (ofRelease .english ⟨5, .typedTree⟩ none).addElement .featureFile sampleFile
        .empty, (ofRelease .english .newest none).addElement .featureFile sampleFile .empty with
      | .ok root grown, .ok root' grown' => !grown.sameContent root grown' root'
      | _, _ => false) = true := by
    decide +kernel
  split at apart
  · next added added' =>
    rw [alike _ _ _ _ added added'] at apart
    cases apart
  · cases apart

end Modeler

end Gherkin
