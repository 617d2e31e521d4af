import Gherkin.Modeler
import Gherkin.Proofs.Document.Arrangement
import Gherkin.Proofs.Document.Recognition
import Gherkin.Proofs.Document.Schema
import Gherkin.Proofs.Document.Source
import Gherkin.Proofs.Tree.Planting
import Gherkin.Tree.Views

/-!
# From source text to trees

A parser, the normalization of its result and the building of the record fit: what
the parser of a supported release accepts is modeled, by that release, by a later
one, and by the release that is detected for the result. All of them come to the
branch of the document that was read.
-/

namespace Gherkin

variable {release : Release} {active dialect : Dialect} {pinned : Option Dialect}
  {source uri : Text}

namespace Parser

theorem parse_eq_ok_iff {raw : Json} :
    (ofRelease release dialect).parse source uri = .ok raw ↔
      ∃ document, Document.read release dialect uri source = .ok document ∧
        raw = document.result release.family uri := by
  cases read : Document.read release dialect uri source with
  | error error => simp [ofRelease, read, Except.map]
  | ok document => simp [ofRelease, read, Except.map, eq_comm]

end Parser

namespace Document

/-- The branch of a document that was modeled at a path, with the record it is made of. -/
def rootedBranch (path : Text) (record : Record) (document : Document) : Branch Origin :=
  .node ⟨none, some record⟩ (.featureFile path) (document.feature.toList.map Feature.branch)

theorem linedBranch?_plant_rootedBranch (tree : Tree) (path : Text) (record : Record)
    (document : Document) :
    (tree.plant (document.rootedBranch path record)).linedBranch? tree.size =
      some ((document.branch path).map Origin.line) :=
  Tree.linedBranch?_plant (document.arranged_branch path _) tree

/-- What a parser makes of a document is normalized to the record of the document. -/
theorem normalize_result_of_read {document : Document} (supported : release ∈ Release.all)
    (known : dialect ∈ Dialect.all)
    (read : Document.read release dialect uri source = .ok document) (active : Dialect) :
    release.normalize active (document.result release.family uri) =
      .ok (document.record (if isTyped release.family then [] else uri)) := by
  obtain ⟨settled, still, spelled, admitted⟩ := spelled_of_read known read
  exact Release.normalize_result supported still spelled admitted
    ((Release.accepts_result_iff release release.family uri document).mpr rfl)

end Document

namespace Modeler

open Document

theorem normalize_of_read {document : Document} (supported : release ∈ Release.all)
    (known : pinned.getD active ∈ Dialect.all)
    (read : Document.read release (pinned.getD active) uri source = .ok document) :
    (ofRelease active release pinned).normalize source uri =
      .ok (document.record (if isTyped release.family then [] else uri)) := by
  have parsed : (ofRelease active release pinned).parse source uri =
      .ok (document.result release.family uri) := by
    unfold parse
    rw [ofRelease, Parser.parse_eq_ok_iff.2 ⟨document, read, rfl⟩]
    rfl
  rw [normalize, parsed]
  exact normalize_result_of_read supported known read active

/-- A document that can be read is modeled as its branch. -/
theorem document_of_read {document : Document} (supported : release ∈ Release.all)
    (known : pinned.getD active ∈ Dialect.all)
    (read : Document.read release (pinned.getD active) uri source = .ok document) :
    (ofRelease active release pinned).document source uri =
      .ok (document.rootedBranch uri
        (document.record (if isTyped release.family then [] else uri))) := by
  unfold Modeler.document
  rw [normalize_of_read supported known read]
  simp only [bind, Except.bind, rooted_record]
  rfl

/-- A result of unknown origin is modeled as the branch of its document. Only messages name
the path. -/
theorem ofResult_of_read {document : Document} (supported : release ∈ Release.all)
    (known : dialect ∈ Dialect.all)
    (read : Document.read release dialect uri source = .ok document) (active : Dialect) :
    ∃ path, ofResult active (document.result release.family uri) =
      .ok (document.rootedBranch path (document.record path)) := by
  -- The release that is detected is the newest of the family, which reads all that this one does.
  have newest : (⟨release.family.last, release.family⟩ : Release) ∈ Release.all ∧
      release.version ≤ release.family.last := by
    clear read
    revert release
    decide
  have again : Document.read ⟨release.family.last, release.family⟩ dialect uri source = _ :=
    read_mono newest.2 read
  have normalized := normalize_result_of_read newest.1 known again active
  refine ⟨if isTyped release.family then [] else uri, ?_⟩
  unfold ofResult
  rw [Release.detect_result]
  simp only [bind, Except.bind]
  rw [normalized]
  simp only [rooted_record]
  rfl

theorem document_of_refused {defect : SyntaxError}
    (refused : Document.read release (pinned.getD active) uri source = .error defect) :
    (ofRelease active release pinned).document source uri = .error (.invalidSource defect) := by
  simp [Modeler.document, normalize, parse, ofRelease, Parser.ofRelease, refused, Except.map,
    Except.mapError, bind, Except.bind]

/-- Modeling fails only where the source text cannot be read. -/
theorem document_eq_error {error : Error} (supported : release ∈ Release.all)
    (known : pinned.getD active ∈ Dialect.all)
    (failed : (ofRelease active release pinned).document source uri = .error error) :
    ∃ syntaxError, Document.read release (pinned.getD active) uri source = .error syntaxError ∧
      error = .invalidSource syntaxError := by
  cases read : Document.read release (pinned.getD active) uri source with
  | ok document =>
      rw [document_of_read supported known read] at failed
      cases failed
  | error syntaxError =>
      rw [document_of_refused read] at failed
      cases failed
      exact ⟨syntaxError, rfl, rfl⟩

end Modeler

/-! ## Trees with the same nodes -/

namespace Tree

theorem branch?_of_linedBranch? {tree : Tree} {id : NodeId} {lined : Branch (Option Nat)}
    (found : tree.linedBranch? id = some lined) :
    ∃ branch, tree.branch? id = some branch ∧ branch.content = lined.content := by
  obtain ⟨branch, read, rfl⟩ := Option.map_eq_some_iff.mp found
  exact ⟨branch, read, (Branch.content_map _ branch).symm⟩

theorem sameContent_of_linedBranch? {tree other : Tree} {id otherId : NodeId}
    {lined lined' : Branch (Option Nat)} (here : tree.linedBranch? id = some lined)
    (there : other.linedBranch? otherId = some lined') (same : lined.content = lined'.content) :
    tree.sameContent id other otherId = true := by
  obtain ⟨a, foundA, sameA⟩ := branch?_of_linedBranch? here
  obtain ⟨b, foundB, sameB⟩ := branch?_of_linedBranch? there
  rw [sameContent, foundA, foundB]
  exact Branch.same_of_content_eq (sameA.trans (same.trans sameB.symm))

end Tree

/-! ## Releases agree -/

/-- The path in the record of a document: the releases up to 5 leave it empty. -/
def Release.recordedPath (release : Release) (uri : Text) : Text :=
  if release.version ≤ 5 then [] else uri

theorem Release.recordedPath_eq (supported : release ∈ Release.all) (uri : Text) :
    release.recordedPath uri = if Document.isTyped release.family then [] else uri := by
  have typed : release.version ≤ 5 ↔ Document.isTyped release.family = true := by
    revert release
    decide
  simp [recordedPath, typed]

theorem Document.set_uri_record (path other : Text) (value : Json) (document : Document) :
    (document.record path).set "uri" value = (document.record other).set "uri" value := by
  have kind : ¬ "uri" < "kind" := by decide
  have feature : ¬ "uri" < "feature" := by decide
  have first : "feature" < "kind" := by decide
  simp [Document.record, Fields.ofList, Fields.set, kind, feature, first]

/-- A later release comes to the same as an earlier one did: it accepts the source text, the
records differ in the path at most, and the trees have the same content and lines. -/
structure Release.Confirms (earlier later : Release) (active : Dialect) (pinned : Option Dialect)
    (source uri : Text) (raw : Json) : Prop where
  accepted : ∃ raw', (Parser.ofRelease later (pinned.getD active)).parse source uri = .ok raw' ∧
    ∃ record record', earlier.normalize active raw = .ok record ∧
      later.normalize active raw' = .ok record' ∧
      (∀ value, record.set "uri" value = record'.set "uri" value) ∧
      record.text? "uri" = some (earlier.recordedPath uri) ∧
      record'.text? "uri" = some (later.recordedPath uri)
  modeled : ∃ branch branch',
    (Modeler.ofRelease active earlier pinned).document source uri = .ok branch ∧
    (Modeler.ofRelease active later pinned).document source uri = .ok branch' ∧
    ∀ tree tree' : Tree,
      (tree.plant branch).sameContent tree.size (tree'.plant branch') tree'.size = true ∧
      (tree.plant branch).linedBranch? tree.size = (tree'.plant branch').linedBranch? tree'.size

/-- All releases agree: what one accepts, every later one accepts, with the same record and
the same tree. -/
theorem Release.confirms_of_le {earlier later : Release} {active : Dialect}
    {pinned : Option Dialect} {raw : Json} (earlierSupported : earlier ∈ all)
    (laterSupported : later ∈ all) (older : earlier.version ≤ later.version)
    (known : pinned.getD active ∈ Dialect.all) (source uri : Text)
    (accepted : (Parser.ofRelease earlier (pinned.getD active)).parse source uri = .ok raw) :
    Confirms earlier later active pinned source uri raw := by
  obtain ⟨document, read, rfl⟩ := Parser.parse_eq_ok_iff.1 accepted
  have again := Document.read_mono older read
  have path (uri : Text) :
      Record.text? "uri" (document.record uri) = some uri := by
    simp [Record.text?, Document.record, Json.asText?]
  constructor
  · refine ⟨_, Parser.parse_eq_ok_iff.2 ⟨document, again, rfl⟩, _, _,
      Document.normalize_result_of_read earlierSupported known read active,
      Document.normalize_result_of_read laterSupported known again active, ?_, ?_, ?_⟩
    · exact fun value => Document.set_uri_record _ _ value document
    · rw [recordedPath_eq earlierSupported]
      exact path _
    · rw [recordedPath_eq laterSupported]
      exact path _
  · refine ⟨_, _, Modeler.document_of_read earlierSupported known read,
      Modeler.document_of_read laterSupported known again, fun tree tree' => ?_⟩
    have here := Document.linedBranch?_plant_rootedBranch tree uri
      (document.record (if Document.isTyped earlier.family then [] else uri)) document
    have there := Document.linedBranch?_plant_rootedBranch tree' uri
      (document.record (if Document.isTyped later.family then [] else uri)) document
    exact ⟨Tree.sameContent_of_linedBranch? here there rfl, here.trans there.symm⟩

/-- A document with tags, an outline, a doc string and examples. -/
def sampleSource : Text :=
  Text.unlines (["@slow", "Feature: f", "  words", "", "  Scenario Outline: s", "    Given x <y>",
    "      \"\"\" json", "      a", "      \"\"\"", "", "    @few", "    Examples:", "      | y |",
    "      | 1 |"].map Text.word)

/-- The oldest and the newest release agree on a document with every kind of block. -/
theorem Release.confirms_sampleSource :
    ∃ raw, (Parser.ofRelease ⟨3, .typedTree⟩ .english).parse sampleSource
        (Text.word "a.feature") = .ok raw ∧
      Confirms ⟨3, .typedTree⟩ .newest .german (some .english) sampleSource
        (Text.word "a.feature") raw := by
  have accepted : ((Parser.ofRelease ⟨3, .typedTree⟩ .english).parse sampleSource
      (Text.word "a.feature")).isOk = true := by decide +kernel
  cases read : (Parser.ofRelease ⟨3, .typedTree⟩ .english).parse sampleSource
      (Text.word "a.feature") with
  | error error => simp [read, Except.isOk, Except.toBool] at accepted
  | ok raw =>
      exact ⟨raw, rfl, confirms_of_le (by decide) (by decide) (by decide) (by decide) _ _ read⟩

/-! ## The pipeline is closed -/

/-- The layers behind the parser of a release fit what it gives: its family and no other
recognizes a result, the record of a result carries all keys and can be built, and the tree of
a result of unknown origin is the one of the document but for the path. -/
structure Release.Fits (release : Release) (active : Dialect) (pinned : Option Dialect)
    (source uri : Text) (raw : Json) : Prop where
  recognized : ∀ other ∈ all, other.accepts raw = true ↔ other.family = release.family
  detected : detect raw = .ok ⟨release.family.last, release.family⟩
  built : ∃ record, release.normalize active raw = .ok record ∧
    Record.AllFollow (.fields record) ∧
    ∀ tree : Tree, ∃ grown, tree.build record = .ok grown
  modeled : ∃ branch rawBranch path below,
    (Modeler.ofRelease active release pinned).document source uri = .ok branch ∧
    Modeler.ofResult active raw = .ok rawBranch ∧
    ∀ tree : Tree,
      (tree.plant branch).linedBranch? tree.size = some (.node none (.featureFile uri) below) ∧
      (tree.plant rawBranch).linedBranch? tree.size = some (.node none (.featureFile path) below)

/-- What a parser accepts, the layers behind it model; so modeling fails only with a defect of
the source text. -/
structure Release.IsClosed (release : Release) (active : Dialect) (pinned : Option Dialect)
    (source uri : Text) : Prop where
  results : ∀ raw, (Parser.ofRelease release (pinned.getD active)).parse source uri = .ok raw →
    release.Fits active pinned source uri raw
  errors : ∀ error, (Modeler.ofRelease active release pinned).document source uri = .error error →
    ∃ defect, (Parser.ofRelease release (pinned.getD active)).parse source uri = .error defect ∧
      error = .invalidSource defect

/-- The bundled pipeline is closed, for every source text. -/
theorem Release.pipeline_closed {release : Release} {active : Dialect} {pinned : Option Dialect}
    (supported : release ∈ all) (known : pinned.getD active ∈ Dialect.all) (source uri : Text) :
    release.IsClosed active pinned source uri := by
  constructor
  · intro raw accepted
    obtain ⟨document, read, rfl⟩ := Parser.parse_eq_ok_iff.1 accepted
    obtain ⟨path, unknown⟩ := Modeler.ofResult_of_read supported known read active
    refine ⟨fun other _ => accepts_result_iff other release.family uri document,
      detect_result release.family uri document, ?_, ?_⟩
    · refine ⟨_, Document.normalize_result_of_read supported known read active,
        Document.record_follows _ document, fun tree => ?_⟩
      rw [Tree.build, Document.rooted_record]
      exact ⟨_, rfl⟩
    · exact ⟨_, _, path, _, Modeler.document_of_read supported known read, unknown, fun tree =>
        ⟨Document.linedBranch?_plant_rootedBranch tree uri _ document,
          Document.linedBranch?_plant_rootedBranch tree path _ document⟩⟩
  · intro error failed
    obtain ⟨defect, refused, rfl⟩ := Modeler.document_eq_error supported known failed
    refine ⟨defect, ?_, rfl⟩
    simp [Parser.ofRelease, refused, Except.map]

/-- The pipeline of the oldest release is closed at a document that its parser accepts. -/
theorem Release.pipeline_closed_sampleSource :
    ((Parser.ofRelease ⟨3, .typedTree⟩ .english).parse sampleSource
      (Text.word "a.feature")).isOk = true ∧
    IsClosed ⟨3, .typedTree⟩ .german (some .english) sampleSource (Text.word "a.feature") :=
  ⟨by decide +kernel, pipeline_closed (by decide) (by decide) _ _⟩

end Gherkin
