import Gherkin.Proofs.Document.Arrangement
import Gherkin.Proofs.Document.Preamble
import Gherkin.Proofs.Document.Rereading
import Gherkin.Proofs.Document.Source

/-!
# Reading rendered documents

A document that was read and is rendered can be read again, in the dialect it is written
in. A language header says which dialect this is unless it is English; so an English
document is not read again where another dialect is the one of documents that name none.
-/

namespace Gherkin

open Layout Line

namespace Document

variable {dialect spoken : Dialect} {release : Release} {indent : Text} {width : Text → Nat}
  {margin : Nat → Text}
  {depth : Nat} {lines : List Line} {document : Document} {feature : Feature} {uri : Text}

/-- The language header of a feature; English needs none. -/
def languageItems (depth : Nat) (language : Text) : List Item :=
  if language.isEmpty || language == Text.word "en" then []
  else [.line depth (Text.word "# language: " ++ language)]

theorem items_branch (feature : Feature) (uri : Text) :
    items width depth (Document.branch uri ⟨some feature⟩) =
      languageItems depth feature.language ++ items width depth feature.branch := by
  have alone : below width depth [feature.branch] = items width depth feature.branch := by
    simp [below, Feature.branch, Branch.kind, Branch.element, Element.kind, isInline, isSetOff]
  rw [Document.branch, items]
  exact congrArg _ alone

theorem isLabel_language (known : spoken ∈ Dialect.all) :
    Text.IsLabel (Text.word "# language: " ++ spoken.code) := by
  rcases List.mem_pair.mp known with rfl | rfl <;> decide

theorem tidy_branch (known : spoken ∈ Dialect.all)
    (spelled : ∀ feature ∈ document.feature, feature.Spelled spoken) :
    Tidy (items width depth (document.branch uri)) := by
  obtain ⟨_ | feature⟩ := document
  · exact Tidy.nil
  · have here := spelled feature rfl
    have language : Tidy (languageItems depth feature.language) := by
      unfold languageItems
      split
      · exact Tidy.nil
      · rw [here.language]
        exact Tidy.line depth (by simp [Text.word]) (isLabel_language known)
    rw [items_branch]
    exact language.append (here.tidy (Dialect.regular_of_mem_all known))

/-! ## The first line -/

theorem kept_of_startsWord {line : Line} {t : Text} (kind : line.kind = classify dialect t)
    (word : Dialect.startsWord t = true) : line.isIgnorable = false ∧ line.kind ≠ .tags := by
  rw [classify_of_startsWord word] at kind
  cases header : headerOf? dialect t with
  | some found =>
      obtain ⟨_, _, _, rfl, _⟩ := headerOf?_eq_some header
      simp [isIgnorable, kind, header]
  | none =>
      cases step : stepOf? dialect t with
      | some found =>
          obtain ⟨_, _, rfl, _⟩ := stepOf?_eq_some step
          simp [isIgnorable, kind, header, step]
      | none => simp [isIgnorable, kind, header, step]

/-- A rendered feature begins with tags and its header line, whatever dialect it is read in. -/
theorem exists_header_line (regular : spoken.Regular)
    (blank : ∀ depth, Text.IsBlank (margin depth))
    (spelled : feature.Spelled spoken)
    (written : Written dialect margin (items width depth feature.branch) lines) :
    ∃ front line below, lines = front ++ line :: below ∧ (∀ line ∈ front, line.kind = .tags) ∧
      line.kind = classify dialect (headerLine feature.header.heading) := by
  rw [feature.items_branch, headed, List.append_assoc] at written
  obtain ⟨front, behind, rfl, tags, header⟩ := written.exists_append
  have label : Text.IsLabel (headerLine feature.header.heading) :=
    isLabel_headerLine regular (by simp [spelled.construct]) spelled.header.keyword
      spelled.header.name
  obtain ⟨line, below, rfl, _, kind, _⟩ := header.of_label blank label
  refine ⟨front, line, below, rfl, ?_, kind⟩
  unfold tagItems at tags
  split at tags
  · cases tags
    simp
  · next some =>
    obtain ⟨joined, whole, label⟩ :=
      exists_join_tagNames (by simpa using some) (List.forall_mem_map.mpr spelled.tags)
    obtain ⟨first, none, rfl, _, kind, _, ended⟩ := tags.of_label blank (whole ▸ label)
    cases ended
    rw [List.forall_mem_singleton, kind, whole]
    exact classify_tags joined

theorem kept_head (regular : spoken.Regular) (blank : ∀ depth, Text.IsBlank (margin depth))
    (spelled : feature.Spelled spoken)
    (written : Written dialect margin (items width depth feature.branch) lines) :
    ∀ line ∈ lines.head?, line.isIgnorable = false := by
  obtain ⟨front, header, below, rfl, tags, kind⟩ :=
    exists_header_line regular blank spelled written
  cases front with
  | nil =>
      rintro _ ⟨⟩
      have listed := spelled.header.keyword
      exact (kept_of_startsWord kind (startsWord_headerLine regular
        (by simp [spelled.construct]) listed)).1
  | cons first front =>
      rintro _ ⟨⟩
      simp [isIgnorable, tags first List.mem_cons_self]

theorem tags_stop {front below rest : List Line} {line : Line} {found : List Tag}
    (tagged : ∀ line ∈ front, line.kind = .tags)
    (kept : line.isIgnorable = false ∧ line.kind ≠ .tags)
    (read : Grammar.Tags (front ++ line :: below) found rest) : rest = line :: below := by
  induction front generalizing found with
  | nil =>
      cases read with
      | skip ignorable => exact absurd ignorable (by simp [kept.1])
      | line kind => exact absurd kind kept.2
      | stop => rfl
  | cons first front ih =>
      obtain ⟨here, later⟩ := List.forall_mem_cons.mp tagged
      cases read with
      | skip ignorable => exact absurd ignorable (by simp [isIgnorable, here])
      | line _ _ read => exact ih later read
      | stop _ other => exact absurd here other

/-! ## Reading what was rendered -/

/-- The dialect of documents that name none is right for a document that names none. -/
def Understands (dialect : Dialect) (language : Text) : Prop :=
  language = Dialect.english.code → dialect = .english

theorem preamble_render (spokenKnown : spoken ∈ Dialect.all) (blank : Text.IsBlank indent)
    (spelled : feature.Spelled spoken)
    (understood : Understands dialect feature.language) (uri : Text) :
    ∃ number raws, preamble dialect 1
        ((settled indent false (items width 0 (Document.branch uri ⟨some feature⟩))).map
          Text.chopReturn) = .ok (spoken, number, raws) ∧
      Written spoken (Text.repeated · indent) (items width 0 feature.branch)
        (readAll spoken number raws) := by
  have regular := Dialect.regular_of_mem_all spokenKnown
  have tidy : Tidy (items width 0 feature.branch) := spelled.tidy regular
  rw [items_branch, spelled.language]
  rcases List.mem_pair.mp spokenKnown with rfl | rfl
  · cases understood spelled.language
    have written : Written .english (Text.repeated · indent) _ (readAll .english 1 _) :=
      @written_readAll _ _ false _ tidy 1
    exact ⟨1, _, preamble_stop (kept_head regular (Text.isBlank_repeated blank) spelled written),
      written⟩
  · let header : Text := Text.word "# language: " ++ Dialect.german.code
    have above : settled indent false (.line 0 header :: items width 0 feature.branch) =
        header :: settled indent true (items width 0 feature.branch) :=
      settled_line _ _ _ (List.cons_ne_nil _ _)
    have written : Written .german (Text.repeated · indent) _ (readAll .german 2 _) :=
      @written_readAll _ _ true _ tidy 2
    have kind : (Line.read dialect 1 header).kind = .language Dialect.german.code :=
      @classify_language dialect _ spokenKnown
    refine ⟨2, _, ?_, written⟩
    change preamble dialect 1 ((settled indent false
      (.line 0 header :: items width 0 feature.branch)).map Text.chopReturn) = _
    rw [above, List.map_cons, show Text.chopReturn header = header from rfl, preamble, kind]
    simp only [Dialect.find?_code spokenKnown]
    exact preamble_stop (kept_head regular (Text.isBlank_repeated blank) spelled written)

/-- A rendered document is read again, but for the lines of its doc strings, where English is
understood if it is written in English. -/
theorem exists_read_render (spokenKnown : spoken ∈ Dialect.all) (blank : Text.IsBlank indent)
    (newlineFree : '\n' ∉ indent)
    (spelled : ∀ feature ∈ document.feature, feature.Spelled spoken)
    (admitted : ∀ feature ∈ document.feature, feature.Admitted release)
    (understood : ∀ feature ∈ document.feature, Understands dialect feature.language) :
    ∃ again, Document.read release dialect uri (render width indent (document.branch uri)) =
        .ok again ∧ (again.branch uri).Rereads (document.branch uri) := by
  have tidy : Tidy (items width 0 (document.branch uri)) := tidy_branch spokenKnown spelled
  have lines := lines_render newlineFree tidy
  obtain ⟨_ | feature⟩ := document
  · refine ⟨⟨none⟩, read_eq_ok_iff.mpr ⟨dialect, 1, [], ?_, .none .done⟩,
      Branch.rereads_node rfl .nil⟩
    rw [lines]
    rfl
  · have regular := Dialect.regular_of_mem_all spokenKnown
    obtain ⟨number, raws, before, written⟩ := preamble_render spokenKnown blank
      (spelled feature rfl) (understood feature rfl) uri
    obtain ⟨found, read, again⟩ := reads_feature regular (Text.isBlank_repeated blank)
      (Text.not_mem_repeated newlineFree) (spelled feature rfl)
      (admitted feature rfl) written rfl
    refine ⟨⟨some found⟩, read_eq_ok_iff.mpr ⟨spoken, number, raws, ?_, read⟩,
      Branch.rereads_node rfl (.cons again .nil)⟩
    rw [lines, before]

/-- The header of an English feature begins no feature in another dialect. -/
theorem not_feature_of_english (known : dialect ∈ Dialect.all) (foreign : dialect ≠ .english)
    {heading : Heading} (listed : heading.keyword ∈ Dialect.english.keywords .feature)
    (keyword name : Text) :
    classify dialect (headerLine heading) ≠ .header .feature keyword name := by
  intro kind
  have colonFree {dialect : Dialect} (known : dialect ∈ Dialect.all) {word : Text}
      (listed : word ∈ dialect.keywords .feature) : ':' ∉ word :=
    ((Dialect.regular_of_mem_all known).headerWord _
      (Dialect.mem_headerKeywords_iff.mpr ⟨show Construct.feature ≠ .step from nofun, listed⟩)).2.2.1
  obtain ⟨other, behind, spelled, _⟩ := classify_eq_header kind
  obtain ⟨rest, itself⟩ : ∃ rest, headerLine heading = heading.keyword ++ ':' :: rest := by
    unfold headerLine
    split <;> exact ⟨_, rfl⟩
  obtain ⟨same, _⟩ := append_cons_inj_of_not_mem (colonFree (by decide) listed)
    (colonFree known other) (itself.symm.trans spelled)
  have apart : ∀ dialect ∈ Dialect.all, dialect ≠ .english →
      ∀ word ∈ Dialect.english.keywords .feature, word ∉ dialect.keywords .feature := by
    decide
  exact apart dialect known foreign _ listed (same ▸ other)

/-- An English document is not read as one of another dialect. -/
theorem not_read_render (known : dialect ∈ Dialect.all) (spokenKnown : spoken ∈ Dialect.all)
    (blank : Text.IsBlank indent) (newlineFree : '\n' ∉ indent)
    (spelled : feature.Spelled spoken) (foreign : ¬ Understands dialect feature.language) :
    ∀ again, Document.read release dialect uri
      (render width indent (Document.branch uri ⟨some feature⟩)) ≠ .ok again := by
  intro again read
  have regular := Dialect.regular_of_mem_all spokenKnown
  obtain ⟨named, foreign⟩ : spoken = .english ∧ dialect ≠ .english := by
    simp only [Understands, spelled.language] at foreign
    push Not at foreign
    refine foreign.imp_left fun code => ?_
    rcases List.mem_pair.mp spokenKnown with rfl | rfl
    · rfl
    · exact absurd code (by decide)
  subst named
  -- The document has no language header, so its first line is read in the other dialect.
  have whole : items width 0 (Document.branch uri ⟨some feature⟩) =
      items width 0 feature.branch := by
    rw [items_branch, spelled.language]
    rfl
  have tidy : Tidy (items width 0 (Document.branch uri ⟨some feature⟩)) :=
    tidy_branch spokenKnown (by rintro _ ⟨⟩; exact spelled)
  have lines := lines_render newlineFree tidy
  rw [whole] at tidy lines
  have written : Written dialect (Text.repeated · indent) _ (readAll dialect 1 _) :=
    @written_readAll _ _ false _ tidy 1
  obtain ⟨settled, number, raws, before, read⟩ := read_eq_ok_iff.mp read
  rw [lines,
    preamble_stop (kept_head regular (Text.isBlank_repeated blank) spelled written)] at before
  cases before
  obtain ⟨front, line, below, same, tagged, kind⟩ :=
    exists_header_line regular (Text.isBlank_repeated blank) spelled written
  have listed : feature.header.heading.keyword ∈ Dialect.english.keywords .feature := by
    have listed := spelled.header.keyword
    rwa [spelled.construct] at listed
  have word := startsWord_headerLine regular (show Construct.feature ≠ .step from nofun) listed
  have kept := kept_of_startsWord kind word
  rw [same] at read
  generalize again.feature = found at read
  cases read with
  | none tags => cases tags_stop tagged kept tags
  | some tags header =>
      cases tags_stop tagged kept tags
      exact not_feature_of_english known foreign listed _ _ (kind.symm.trans header)

end Document

end Gherkin
