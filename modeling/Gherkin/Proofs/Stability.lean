import Gherkin.Proofs.Document.Stability
import Gherkin.Proofs.Pipeline
import Gherkin.Tree.Render

/-!
# Modeling what was rendered

A document that was modeled is rendered, and the text is modeled and rendered once more.
Whether this gives the same text depends on two things: an English document has no language
header, and a doc string does not keep the carriage returns at the ends of its lines and
the delimiters that were escaped in it already.
-/

namespace Gherkin

open Layout

variable {release : Release} {active : Dialect} {pinned : Option Dialect} {source uri indent : Text}

namespace Branch

variable {α : Type}

/-- The language of the feature in a feature file. -/
def language? : Branch α → Option Text
  | .node _ (.featureFile _) (.node _ (.feature _ language) _ :: _) => some language
  | _ => none

/-- A feature file that says the same when it is rendered and read where a dialect is the one
of documents that name none. -/
structure IsRereadable (dialect : Dialect) (branch : Branch α) : Prop where
  language : ∀ language ∈ branch.language?, language = Dialect.english.code → dialect = .english
  docStrings : ∀ contents ∈ branch.docStrings, ∀ line ∈ Text.pieces contents,
    line.getLast? ≠ some '\r' ∧
      contentLine (Text.replace escapedQuotes quotes (contentLine line)) = contentLine line

instance (dialect : Dialect) (branch : Branch α) : Decidable (branch.IsRereadable dialect) :=
  decidable_of_iff ((∀ language ∈ branch.language?, language = Dialect.english.code →
      dialect = .english) ∧ ∀ contents ∈ branch.docStrings, ∀ line ∈ Text.pieces contents,
        line.getLast? ≠ some '\r' ∧
          contentLine (Text.replace escapedQuotes quotes (contentLine line)) = contentLine line)
    ⟨fun both => ⟨both.1, both.2⟩, fun branch => ⟨branch.language, branch.docStrings⟩⟩

end Branch

namespace Document

variable {dialect : Dialect} {document : Document}

theorem content_rootedBranch (path : Text) (record : Record) (document : Document) :
    (document.rootedBranch path record).content = (document.branch path).content := by
  rw [rootedBranch, branch, Branch.content, Branch.content, Branch.map_node, Branch.map_node]

theorem render_plant_rootedBranch (tree : Tree) (path : Text) (record : Record)
    (document : Document) (indent : Text) :
    (tree.plant (document.rootedBranch path record)).render indent tree.size =
      render Text.width indent (document.branch path) := by
  obtain ⟨branch, found, same⟩ :=
    Tree.branch?_of_linedBranch? (linedBranch?_plant_rootedBranch tree path record document)
  rw [Branch.content_map] at same
  rw [Tree.render, found, Option.map_some, Option.getD_some, render_eq_of_content_eq same]

theorem language?_rootedBranch (path : Text) (record : Record) (document : Document) :
    (document.rootedBranch path record).language? = document.feature.map Feature.language := by
  obtain ⟨_ | feature⟩ := document <;> rfl

theorem isRereadable_rootedBranch (path : Text) (record : Record) :
    (document.rootedBranch path record).IsRereadable dialect ↔
      (∀ feature ∈ document.feature, Understands dialect feature.language) ∧
        (document.branch path).IsStable := by
  have language := language?_rootedBranch path record document
  have stable : (document.branch path).IsStable ↔
      ∀ contents ∈ (document.rootedBranch path record).docStrings,
        ∀ line ∈ Text.pieces contents, Layout.IsStable line := by
    rw [Branch.docStrings_eq_of_content_eq (content_rootedBranch path record document)]
    rfl
  rw [stable]
  unfold Layout.IsStable Understands
  simp only [contentLine_reread_eq_iff]
  constructor
  · rintro ⟨known, lines⟩
    rw [language] at known
    exact ⟨fun feature here => known _ (Option.mem_map_of_mem _ here), lines⟩
  · rintro ⟨known, lines⟩
    refine ⟨fun spoken here => ?_, lines⟩
    rw [language] at here
    obtain ⟨feature, present, rfl⟩ := Option.map_eq_some_iff.mp here
    exact known feature present

/-- What a rendered document is read as is rendered alike when the doc strings are stable. -/
theorem render_again_iff {again : Document} {text : Text}
    (known : dialect ∈ Dialect.all) (newlineFree : '\n' ∉ indent)
    (arose : Document.read release dialect uri text = .ok document)
    (read : Document.read release dialect uri source = .ok again)
    (rereads : (again.branch uri).Rereads (document.branch uri)) :
    render Text.width indent (again.branch uri) = render Text.width indent (document.branch uri) ↔
      (document.branch uri).IsStable := by
  have tidy {source : Text} {document : Document}
      (read : Document.read release dialect uri source = .ok document) :
      Tidy (items Text.width 0 (document.branch uri)) := by
    obtain ⟨spoken, spokenKnown, spelled, _⟩ := spelled_of_read known read
    exact tidy_branch spokenKnown spelled
  have items : items Text.width 0 (again.branch uri) =
      items Text.width 0 (document.branch uri).reread := items_eq_of_content_eq rereads
  rw [render, items, ← render]
  exact Branch.render_reread_iff (document.arranged_branch uri _)
    (fun directory => by cases directory) newlineFree (tidy arose) (items ▸ tidy read)

end Document

namespace Modeler

open Document

/-- The text of a branch is modeled again, and rendered as it was. -/
def IsStable (modeler : Modeler) (uri indent : Text) (branch : Branch Origin) : Prop :=
  ∀ tree : Tree, ∃ again,
    modeler.document ((tree.plant branch).render indent tree.size) uri = .ok again ∧
      ∀ other : Tree, (other.plant again).render indent other.size =
        (tree.plant branch).render indent tree.size

theorem document_eq_ok_iff {branch : Branch Origin} (supported : release ∈ Release.all)
    (known : pinned.getD active ∈ Dialect.all) :
    (ofRelease active release pinned).document source uri = .ok branch ↔
      ∃ document, Document.read release (pinned.getD active) uri source = .ok document ∧
        branch = document.rootedBranch uri
          (document.record (if isTyped release.family then [] else uri)) := by
  constructor
  · intro modeled
    cases read : Document.read release (pinned.getD active) uri source with
    | error syntaxError =>
        rw [document_of_refused read] at modeled
        cases modeled
    | ok document =>
        rw [document_of_read supported known read] at modeled
        exact ⟨document, rfl, (Except.ok.inj modeled).symm⟩
  · rintro ⟨document, read, rfl⟩
    exact document_of_read supported known read

theorem isStable_rootedBranch_iff (supported : release ∈ Release.all)
    (known : pinned.getD active ∈ Dialect.all) (document : Document) (record : Record) :
    (ofRelease active release pinned).IsStable uri indent (document.rootedBranch uri record) ↔
      ∃ again, Document.read release (pinned.getD active) uri
          (render Text.width indent (document.branch uri)) = .ok again ∧
        render Text.width indent (again.branch uri) =
          render Text.width indent (document.branch uri) := by
  unfold IsStable
  simp only [render_plant_rootedBranch, document_eq_ok_iff supported known]
  constructor
  · intro stable
    obtain ⟨_, ⟨again, read, rfl⟩, same⟩ := stable ⟨#[]⟩
    have here := same ⟨#[]⟩
    rw [render_plant_rootedBranch] at here
    exact ⟨again, read, here⟩
  · rintro ⟨again, read, same⟩ _
    refine ⟨_, ⟨again, read, rfl⟩, fun other => ?_⟩
    rw [render_plant_rootedBranch, same]

/-- A document is stable exactly when it can be reread: an English document where English is
the dialect of documents that name none, and doc strings with lines that keep their ends and
their escapes. -/
theorem document_isStable_iff {branch : Branch Origin} (supported : release ∈ Release.all)
    (known : pinned.getD active ∈ Dialect.all) (blank : Text.IsBlank indent)
    (newlineFree : '\n' ∉ indent)
    (modeled : (ofRelease active release pinned).document source uri = .ok branch) :
    (ofRelease active release pinned).IsStable uri indent branch ↔
      branch.IsRereadable (pinned.getD active) := by
  obtain ⟨document, read, rfl⟩ := (document_eq_ok_iff supported known).mp modeled
  obtain ⟨spoken, spokenKnown, spelled, admitted⟩ := spelled_of_read known read
  rw [isStable_rootedBranch_iff supported known, isRereadable_rootedBranch]
  constructor
  · rintro ⟨again, readAgain, same⟩
    have understood : ∀ feature ∈ document.feature,
        Understands (pinned.getD active) feature.language := by
      intro feature here
      by_contra foreign
      obtain ⟨_ | _⟩ := document
      · cases here
      · cases here
        exact not_read_render known spokenKnown blank newlineFree (spelled _ rfl) foreign
          again readAgain
    obtain ⟨other, readOther, rereads⟩ :=
      exists_read_render spokenKnown blank newlineFree spelled admitted understood
    cases readAgain.symm.trans readOther
    exact ⟨understood, (render_again_iff known newlineFree read readAgain rereads).mp same⟩
  · rintro ⟨understood, stable⟩
    obtain ⟨again, readAgain, rereads⟩ :=
      exists_read_render spokenKnown blank newlineFree spelled admitted understood
    exact ⟨again, readAgain, (render_again_iff known newlineFree read readAgain rereads).mpr stable⟩

/-- The doc string of the sample document keeps its line, so the document is stable. -/
theorem document_isStable_sampleSource :
    ∃ branch, (ofRelease .english .newest none).document sampleSource (Text.word "a.feature") =
        .ok branch ∧
      (ofRelease .english .newest none).IsStable (Text.word "a.feature") defaultIndent branch := by
  have rereadable : ((ofRelease .english .newest none).document sampleSource
      (Text.word "a.feature")).toOption.any
        (fun branch => decide (branch.IsRereadable .english)) = true := by decide +kernel
  cases modeled : (ofRelease .english .newest none).document sampleSource
      (Text.word "a.feature") with
  | error error => simp [modeled, Except.toOption] at rereadable
  | ok branch =>
      rw [modeled] at rereadable
      exact ⟨branch, rfl, (document_isStable_iff (by decide) (by decide)
        (List.all_eq_true.mp (show defaultIndent.all Text.isBlank = true by decide)) (by decide)
        modeled).mpr (by simpa [Except.toOption] using rereadable)⟩

/-- What a German parser reads as an English document is rendered as text that it refuses. -/
theorem exists_read_not_read_render :
    ∃ document, Document.read .newest .german (Text.word "a.feature")
        (Text.word "# language: en\nFeature: f") = .ok document ∧
      document.feature.isSome = true ∧
      ∀ again, Document.read .newest .german (Text.word "a.feature")
        (render Text.width defaultIndent (document.branch (Text.word "a.feature"))) ≠ .ok again := by
  have rendered : (Document.read .newest .german (Text.word "a.feature")
      (Text.word "# language: en\nFeature: f")).toOption.map (fun document =>
        (document.feature.isSome,
          render Text.width defaultIndent (document.branch (Text.word "a.feature")))) =
      some (true, Text.word "Feature: f") := by decide +kernel
  have refused : (Document.read .newest .german (Text.word "a.feature")
      (Text.word "Feature: f")).isOk = false := by decide +kernel
  cases read : Document.read .newest .german (Text.word "a.feature")
      (Text.word "# language: en\nFeature: f") with
  | error defect => simp [read, Except.toOption] at rendered
  | ok document =>
      rw [read] at rendered
      obtain ⟨speaks, text⟩ := Prod.mk.inj (Option.some.inj rendered)
      refine ⟨document, rfl, speaks, fun again accepted => ?_⟩
      rw [text] at accepted
      rw [accepted] at refused
      cases refused

/-- An English document of a German modeler is not stable: its text has no language header. -/
theorem document_not_isStable_english :
    ∃ branch, (ofRelease .german .newest none).document (Text.word "# language: en\nFeature: f")
        (Text.word "a.feature") = .ok branch ∧
      ¬ (ofRelease .german .newest none).IsStable (Text.word "a.feature") defaultIndent branch := by
  have supported : Release.newest ∈ Release.all := by decide
  have known : (none : Option Dialect).getD .german ∈ Dialect.all := by decide
  obtain ⟨document, read, _, refused⟩ := exists_read_not_read_render
  refine ⟨_, document_of_read supported known read, ?_⟩
  rw [isStable_rootedBranch_iff supported known]
  rintro ⟨again, accepted, _⟩
  exact refused again accepted

end Modeler

end Gherkin
