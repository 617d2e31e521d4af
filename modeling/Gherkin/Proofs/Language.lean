import Gherkin.Proofs.Stability

/-!
# The language of what was rendered

A rendered document names its language in a header, unless this is English. The header is
all that says which dialect the text is read in when it is modeled again, so it suffices for
every language but English, and for English where the modeler takes documents without a
header for English ones.
-/

namespace Gherkin

open Layout Line

variable {release : Release} {active dialect : Dialect} {pinned : Option Dialect}
  {source uri indent language : Text}

namespace Document

variable {document : Document}

theorem settledDialect_mem_all (known : dialect ∈ Dialect.all) (source : Text) :
    settledDialect dialect source ∈ Dialect.all := by
  unfold settledDialect settle
  cases named : ((openingLines dialect 1 (Text.lines source)).filterMap
      Line.languageCode?).getLast?.bind Dialect.find? with
  | none => exact known
  | some chosen =>
      obtain ⟨code, _, found⟩ := Option.bind_eq_some_iff.mp named
      exact Dialect.mem_all_of_find? found

/-- A feature has the language of the dialect that its source settles on. -/
theorem language_of_read (read : Document.read release dialect uri source = .ok document) :
    ∀ feature ∈ document.feature, feature.language = (settledDialect dialect source).code := by
  obtain ⟨_, found⟩ := read_eq_ok_iff_feature.mp read
  intro feature here
  exact (found.spelled (classifies_settledLines dialect source) feature here).language

/-- Texts with features of one language settle on one dialect. -/
theorem settledDialect_eq_of_language {other : Text} {again : Document}
    {feature found : Feature} (known : dialect ∈ Dialect.all)
    (read : Document.read release dialect uri source = .ok document)
    (readAgain : Document.read release dialect uri other = .ok again)
    (here : feature ∈ document.feature) (there : found ∈ again.feature)
    (same : found.language = feature.language) :
    settledDialect dialect other = settledDialect dialect source := by
  have codes : (settledDialect dialect other).code = (settledDialect dialect source).code := by
    rw [← language_of_read readAgain found there, same, language_of_read read feature here]
  have left := Dialect.find?_code (settledDialect_mem_all known other)
  have right := Dialect.find?_code (settledDialect_mem_all known source)
  rw [codes] at left
  exact Option.some.inj (left.symm.trans right)

/-- A document that is read for another one has its language. -/
theorem language_of_rereads {again : Document}
    (rereads : (again.branch uri).Rereads (document.branch uri)) :
    again.feature.map Feature.language = document.feature.map Feature.language := by
  obtain ⟨_ | found⟩ := again <;> obtain ⟨_ | feature⟩ := document
  · rfl
  · simp [Branch.Rereads, Document.branch, Branch.content] at rereads
  · simp [Branch.Rereads, Document.branch, Branch.content] at rereads
  · simp [Branch.Rereads, Document.branch, Branch.content, Feature.branch, Element.reread]
      at rereads
    simp [rereads]

end Document

namespace Modeler

open Document

/-- The text of a branch is read in the dialect that its source was read in, and modeled into
a feature file with the same language. -/
def KeepsLanguage (modeler : Modeler) (source uri indent : Text) (branch : Branch Origin) : Prop :=
  ∀ tree : Tree, settledDialect modeler.parser.dialect
      ((tree.plant branch).render indent tree.size) =
        settledDialect modeler.parser.dialect source ∧
    ∃ again, modeler.document ((tree.plant branch).render indent tree.size) uri = .ok again ∧
      again.language? = branch.language?

/-- The language header of a rendered feature file suffices exactly where the modeler does not
take an English feature for one of another language. -/
theorem document_keepsLanguage_iff {branch : Branch Origin} (supported : release ∈ Release.all)
    (known : pinned.getD active ∈ Dialect.all) (blank : Text.IsBlank indent)
    (newlineFree : '\n' ∉ indent)
    (modeled : (ofRelease active release pinned).document source uri = .ok branch)
    (speaks : branch.language? = some language) :
    (ofRelease active release pinned).KeepsLanguage source uri indent branch ↔
      (language = Dialect.english.code → pinned.getD active = .english) := by
  obtain ⟨document, read, rfl⟩ := (document_eq_ok_iff supported known).mp modeled
  obtain ⟨spoken, spokenKnown, spelled, admitted⟩ := spelled_of_read known read
  rw [language?_rootedBranch] at speaks
  obtain ⟨feature, here, rfl⟩ := Option.map_eq_some_iff.mp speaks
  obtain rfl : document = ⟨some feature⟩ := by cases document; exact congrArg _ here
  unfold KeepsLanguage
  simp only [render_plant_rootedBranch, language?_rootedBranch]
  constructor
  · intro kept
    by_contra foreign
    obtain ⟨_, _, modeledAgain, _⟩ := kept ⟨#[]⟩
    obtain ⟨again, readAgain, _⟩ := (document_eq_ok_iff supported known).mp modeledAgain
    exact not_read_render known spokenKnown blank newlineFree (spelled feature rfl) foreign
      again readAgain
  · intro understood _
    obtain ⟨again, readAgain, rereads⟩ := exists_read_render spokenKnown blank newlineFree spelled
      admitted (by rintro _ ⟨⟩; exact understood)
    have same := language_of_rereads rereads
    obtain ⟨found, there, language⟩ := Option.map_eq_some_iff.mp same
    refine ⟨settledDialect_eq_of_language known read readAgain rfl there language, _,
      (document_eq_ok_iff supported known).mpr ⟨again, readAgain, rfl⟩, ?_⟩
    rw [language?_rootedBranch, same]

/-- A German document keeps its language: the header says it to an English modeler. -/
theorem document_keepsLanguage_german :
    ∃ branch, (ofRelease .english .newest none).document
        (Text.word "# language: de\nFunktionalität: f") (Text.word "a.feature") = .ok branch ∧
      branch.language? = some (Text.word "de") ∧
      (ofRelease .english .newest none).KeepsLanguage
        (Text.word "# language: de\nFunktionalität: f") (Text.word "a.feature") defaultIndent
        branch := by
  have speaks : ((ofRelease .english .newest none).document
      (Text.word "# language: de\nFunktionalität: f")
      (Text.word "a.feature")).toOption.bind Branch.language? = some (Text.word "de") := by
    decide +kernel
  have blank : Text.IsBlank defaultIndent := by decide
  cases modeled : (ofRelease .english .newest none).document
      (Text.word "# language: de\nFunktionalität: f") (Text.word "a.feature") with
  | error error => simp [modeled, Except.toOption] at speaks
  | ok branch =>
      rw [modeled] at speaks
      exact ⟨branch, rfl, speaks, (document_keepsLanguage_iff (by decide) (by decide) blank
        (by decide) modeled speaks).mpr (by decide)⟩

/-- An English document does not keep its language where a German modeler reads its text. -/
theorem document_not_keepsLanguage_english :
    ∃ branch, (ofRelease .german .newest none).document (Text.word "# language: en\nFeature: f")
        (Text.word "a.feature") = .ok branch ∧
      branch.language?.isSome = true ∧
      ¬ (ofRelease .german .newest none).KeepsLanguage (Text.word "# language: en\nFeature: f")
        (Text.word "a.feature") defaultIndent branch := by
  have supported : Release.newest ∈ Release.all := by decide
  have known : (none : Option Dialect).getD .german ∈ Dialect.all := by decide
  obtain ⟨document, read, speaks, refused⟩ := exists_read_not_read_render
  refine ⟨_, document_of_read supported known read, ?_, ?_⟩
  · rw [language?_rootedBranch, Option.isSome_map]
    exact speaks
  · intro kept
    obtain ⟨_, _, modeled, _⟩ := kept ⟨#[]⟩
    rw [render_plant_rootedBranch] at modeled
    obtain ⟨again, accepted, _⟩ := (document_eq_ok_iff supported known).mp modeled
    exact refused again accepted

end Modeler

end Gherkin
