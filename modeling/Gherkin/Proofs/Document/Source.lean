import Gherkin.Proofs.Document.Boundary
import Gherkin.Proofs.Document.Preamble
import Gherkin.Proofs.Document.Reading
import Gherkin.Proofs.Document.Spelling

/-!
# Documents read from source text

The preamble of source text settles on a known dialect, and everything behind it is
read in that dialect. What a release reads, every later release reads alike.
-/

namespace Gherkin

namespace Grammar

open Document

variable {earlier later : Release} {lines rest : List Line}

theorem Blocks.mono {allowed widened : Bool} (wider : allowed = true → widened = true)
    {found : List Examples} (read : Blocks allowed lines found rest) :
    Blocks widened lines found rest := by
  induction read with
  | done tags other => exact .done tags other
  | block allowed tags kind rows _ ih => exact .block (wider allowed) tags kind rows ih

/-- A later release knows every construct of an earlier one. -/
structure Widens (earlier later : Release) : Prop where
  rules : earlier.hasRules = true → later.hasRules = true
  ruleTags : earlier.hasRuleTags = true → later.hasRuleTags = true
  examples : earlier.hasScenarioExamples = true → later.hasScenarioExamples = true

theorem widens_of_le (older : earlier.version ≤ later.version) : Widens earlier later := by
  have wider (first : Nat) (known : decide (first ≤ earlier.version) = true) :
      decide (first ≤ later.version) = true := by
    rw [decide_eq_true_eq] at *
    exact Nat.le_trans known older
  exact ⟨wider 6, wider 18, wider 6⟩

theorem Test.mono (widens : Widens earlier later) {found : List Tag} {line : Line}
    {construct : Construct} {keyword name : Text} {test : Scenario}
    (read : Test earlier found line construct keyword name lines test rest) :
    Test later found line construct keyword name lines test rest := by
  cases read with
  | intro steps blocks =>
      refine .intro steps (blocks.mono ?_)
      simp only [Bool.or_eq_true]
      exact Or.imp_right widens.examples

theorem Tests.mono (widens : Widens earlier later) {found : List Scenario}
    (read : Tests earlier lines found rest) : Tests later lines found rest := by
  induction read with
  | done tags => exact .done tags
  | rule tags kind => exact .rule tags kind
  | test tags kind either test _ ih => exact .test tags kind either (test.mono widens) ih

theorem Body.mono (widens : Widens earlier later) {found : Document.Body}
    (read : Body earlier lines found rest) : Body later lines found rest := by
  cases read with
  | background tags kind steps tests => exact .background tags kind steps (tests.mono widens)
  | tests tests => exact .tests (tests.mono widens)

theorem Rules.mono (widens : Widens earlier later) {found : List Rule}
    (read : Rules earlier lines found) : Rules later lines found := by
  induction read with
  | done tags => exact .done tags
  | rule rules tags kind tagged body _ ih =>
      exact .rule (widens.rules rules) tags kind (tagged.imp_left widens.ruleTags)
        (body.mono widens) ih

theorem Feature.mono (widens : Widens earlier later) {language : Text}
    {found : Option Document.Feature} (read : Feature earlier language lines found) :
    Feature later language lines found := by
  cases read with
  | none tags => exact .none tags
  | some tags kind body rules => exact .some tags kind (body.mono widens) (rules.mono widens)

theorem feature_significant_iff {language : Text} {found : Option Document.Feature} :
    Feature release language (Line.significant lines) found ↔
      Feature release language lines found := by
  constructor
  · rintro (tags | ⟨tags, kind, body, rules⟩)
    · exact .none (tags_significant_iff.mp tags)
    · exact .some (tags_significant_iff.mp tags) kind body rules
  · rintro (tags | ⟨tags, kind, body, rules⟩)
    · exact .none (tags_significant_iff.mpr tags)
    · exact .some (tags_significant_iff.mpr tags) kind body rules

end Grammar

namespace Document

variable {release : Release} {dialect settled : Dialect} {file source : Text}
  {document : Document} {number next : Nat} {raws rest : List Text}

/-- The preamble settles on a known dialect when it starts from one. -/
theorem preamble_known (known : dialect ∈ Dialect.all)
    (read : preamble dialect number raws = .ok (settled, next, rest)) :
    settled ∈ Dialect.all ∧ rest <:+ raws := by
  induction raws generalizing dialect number with
  | nil =>
      cases read
      exact ⟨known, List.suffix_refl _⟩
  | cons raw raws ih =>
      unfold preamble at read
      dsimp only at read
      split at read
      · obtain ⟨still, suffix⟩ := ih known read
        exact ⟨still, suffix.trans (List.suffix_cons _ _)⟩
      · obtain ⟨still, suffix⟩ := ih known read
        exact ⟨still, suffix.trans (List.suffix_cons _ _)⟩
      · split at read
        · next chosen found =>
          obtain ⟨still, suffix⟩ := ih (Dialect.mem_all_of_find? found) read
          exact ⟨still, suffix.trans (List.suffix_cons _ _)⟩
        · cases read
      · cases read
        exact ⟨known, List.suffix_refl _⟩

theorem classifies_readAll (oneLine : ∀ raw ∈ raws, '\n' ∉ raw) :
    dialect.Classifies (Line.readAll dialect number raws) := by
  induction raws generalizing number with
  | nil => simp [Line.readAll, Dialect.Classifies]
  | cons raw raws ih =>
      exact List.forall_mem_cons.mpr ⟨⟨rfl, oneLine raw List.mem_cons_self⟩,
        ih fun other member => oneLine other (List.mem_cons_of_mem _ member)⟩

/-- A document is read when its preamble is and the lines behind it make up its feature. -/
theorem read_eq_ok_iff :
    read release dialect file source = .ok document ↔
      ∃ settled number raws, preamble dialect 1 (Text.lines source) = .ok (settled, number, raws) ∧
        Grammar.Feature release settled.code (Line.readAll settled number raws)
          document.feature := by
  have located (reading : Except Fault Document) (count : Nat) :
      reading.mapError (Fault.locate file count) = .ok document ↔ reading = .ok document := by
    cases reading <;> simp [Except.mapError]
  unfold read
  rw [located, ofLines, Except.bind_eq_ok_iff]
  constructor
  · rintro ⟨⟨settled, number, raws⟩, before, read⟩
    obtain ⟨feature, found, same⟩ := Except.bind_eq_ok_iff.mp read
    cases same
    exact ⟨settled, number, raws, before, feature?_eq_ok_iff.1 found⟩
  · rintro ⟨settled, number, raws, before, read⟩
    exact ⟨_, before, Except.bind_eq_ok_iff.mpr ⟨_, feature?_eq_ok_iff.2 read, rfl⟩⟩

theorem drop_readAll (dialect : Dialect) (number count : Nat) (raws : List Text) :
    (Line.readAll dialect number raws).drop count =
      Line.readAll dialect (number + count) (raws.drop count) := by
  induction raws generalizing number count with
  | nil => simp [Line.readAll]
  | cons raw raws ih =>
      cases count with
      | zero => rfl
      | succ count =>
          rw [Line.readAll, List.drop_succ_cons, List.drop_succ_cons, ih]
          congr 1
          omega

/-- The lines behind the opening ones are those from the first that means something. -/
theorem readAll_drop_openingLines (dialect settled : Dialect) (number : Nat) (raws : List Text) :
    Line.readAll settled (number + (openingLines dialect number raws).length)
      (raws.drop (openingLines dialect number raws).length) =
        Line.significant (Line.readAll settled number raws) := by
  rw [openingLines, ← Line.takeWhile_readAll dialect settled, ← drop_readAll, Line.significant]
  generalize Line.readAll settled number raws = lines
  conv_lhs => arg 2; rw [← List.takeWhile_append_dropWhile (p := Line.isIgnorable) (l := lines)]
  rw [List.drop_left]

theorem classifies_settledLines (dialect : Dialect) (source : Text) :
    (settledDialect dialect source).Classifies (settledLines dialect source) :=
  classifies_readAll fun _ member => Text.not_mem_of_mem_lines member

/-- A document is read when all its lines make up its feature in the dialect it settles on. -/
theorem read_eq_ok_iff_feature :
    read release dialect file source = .ok document ↔ HeadersKnown dialect source ∧
      Grammar.Feature release (settledDialect dialect source).code (settledLines dialect source)
        document.feature := by
  rw [read_eq_ok_iff, settledLines, ← Grammar.feature_significant_iff,
    ← readAll_drop_openingLines dialect]
  constructor
  · rintro ⟨settled, next, rest, before, feature⟩
    obtain ⟨known, rfl, rfl, rfl⟩ := preamble_eq_ok_iff.mp before
    exact ⟨known, feature⟩
  · rintro ⟨known, feature⟩
    exact ⟨_, _, _, preamble_eq_ok_iff.mpr ⟨known, rfl, rfl, rfl⟩, feature⟩

/-- A document that was read is spelled in a known dialect and admitted by its release. -/
theorem spelled_of_read (known : dialect ∈ Dialect.all)
    (read : Document.read release dialect file source = .ok document) :
    ∃ settled ∈ Dialect.all, (∀ feature ∈ document.feature, feature.Spelled settled) ∧
      ∀ feature ∈ document.feature, feature.Admitted release := by
  obtain ⟨settled, number, raws, before, read⟩ := read_eq_ok_iff.1 read
  obtain ⟨still, suffix⟩ := preamble_known known before
  have classified : settled.Classifies (Line.readAll settled number raws) :=
    classifies_readAll fun raw member => Text.not_mem_of_mem_lines (suffix.subset member)
  exact ⟨settled, still, read.spelled classified, read.admitted⟩

/-- What a release reads, a later release reads alike. -/
theorem read_mono {later : Release} (older : release.version ≤ later.version)
    (read : Document.read release dialect file source = .ok document) :
    Document.read later dialect file source = .ok document := by
  obtain ⟨settled, number, raws, before, read⟩ := read_eq_ok_iff.1 read
  exact read_eq_ok_iff.2
    ⟨settled, number, raws, before, read.mono (Grammar.widens_of_le older)⟩

end Document

end Gherkin
