import Gherkin.Proofs.Document.Refusal
import Gherkin.Proofs.Outcome

/-!
# Readers and the grammar

A reader gives the value and the lines behind it that the relation of its construct derives, and
fails with the fault that the relation of its faults derives. This is by induction on the
derivations, with one equation for each way in which a reader goes on to the next part. The
readers do nothing else, since whatever the lines are, they are read or refused.
-/

namespace Gherkin

namespace Document

variable {α β γ : Type} {lines below : List Line}

/-- A reading ends in a value and the lines behind it. -/
def Reading.Gives (reading : Reading α lines) (value : α) (rest : List Line) : Prop :=
  ∃ suffix, reading = .ok ⟨value, rest, suffix⟩

theorem Reading.gives_ok (parsed : Parsed α lines) :
    Reading.Gives (.ok parsed) parsed.value parsed.rest := ⟨parsed.suffix, rfl⟩

namespace Reading.Gives

variable {reading : Reading α below} {found : α} {rest : List Line}

theorem bind {next : Parsed α below → Reading β lines} {value : β} {left : List Line}
    (gives : reading.Gives found rest)
    (later : ∀ suffix, (next ⟨found, rest, suffix⟩).Gives value left) :
    Reading.Gives (reading >>= next) value left := by
  obtain ⟨suffix, rfl⟩ := gives
  exact later suffix

theorem bind_eq {next : Parsed α below → Except Fault γ} {outcome : Except Fault γ}
    (gives : reading.Gives found rest)
    (later : ∀ suffix, next ⟨found, rest, suffix⟩ = outcome) : (reading >>= next) = outcome := by
  obtain ⟨suffix, rfl⟩ := gives
  exact later suffix

end Reading.Gives

end Document

namespace Grammar

open Document

variable {release : Release} {lines rest : List Line} {fault : Fault}

/-! ## Tags and rows -/

theorem Tags.gives {found : List Tag} (read : Tags lines found rest) :
    (tags lines).Gives found rest := by
  induction read with
  | done => exact Reading.gives_ok _
  | skip ignorable _ ih =>
      simp only [tags, ignorable, if_true]
      exact ih.bind fun _ => Reading.gives_ok _
  | line kind spelled _ ih =>
      simp only [tags, Line.isIgnorable, kind, spelled, Bool.false_eq_true, if_false, if_true]
      exact ih.bind fun _ => Reading.gives_ok _
  | stop matters kind =>
      simp only [tags, matters, kind, Bool.false_eq_true, if_false]
      exact Reading.gives_ok _

theorem TagsFail.eq_error (fails : TagsFail lines fault) : tags lines = .error fault := by
  induction fails with
  | here kind broken =>
      simp only [tags, Line.isIgnorable, kind, broken, Bool.false_eq_true, if_false, if_true]
      rfl
  | skip ignorable _ ih =>
      simp only [tags, ignorable, ih, if_true]
      rfl
  | later kind spelled _ ih =>
      simp only [tags, Line.isIgnorable, kind, spelled, ih, Bool.false_eq_true, if_false, if_true]
      rfl

theorem Rows.gives {width : Option Nat} {found : List Row} (read : Rows width lines found rest) :
    (rows width lines).Gives found rest := by
  induction read with
  | done => exact Reading.gives_ok _
  | row kind fits _ ih =>
      simp only [rows, kind, any_ne_eq_false fits, Bool.false_eq_true, if_false]
      exact ih.bind fun _ => Reading.gives_ok _
  | comment kind _ ih =>
      simp only [rows, kind]
      exact ih.bind fun _ => Reading.gives_ok _
  | stop notRow notComment =>
      unfold rows
      split
      · contradiction
      · contradiction
      · exact Reading.gives_ok _

theorem RowsFail.eq_error {width : Option Nat} (fails : RowsFail width lines fault) :
    rows width lines = .error fault := by
  induction fails with
  | uneven kind given differs =>
      cases given
      simp [rows, kind, differs]
  | row kind fits _ ih =>
      simp only [rows, kind, any_ne_eq_false fits, Bool.false_eq_true, if_false]
      exact Except.bind_eq_error_of_error ih
  | comment kind _ ih =>
      simp only [rows, kind]
      exact Except.bind_eq_error_of_error ih

/-! ## Steps -/

theorem Content.eq_some {fence : Fence} {indent : Nat} {found : List Text}
    (read : Content fence indent lines found rest) :
    ∃ suffix, content fence indent lines = some ⟨found, rest, suffix⟩ := by
  induction read with
  | close closes => exact ⟨List.suffix_cons _ _, by simp [content, closes]⟩
  | line inside _ ih =>
      obtain ⟨suffix, read⟩ := ih
      exact ⟨suffix.trans (List.suffix_cons _ _), by simp [content, inside, read]⟩

theorem of_content_eq_some {fence : Fence} {indent : Nat} {parsed : Parsed (List Text) lines}
    (read : content fence indent lines = some parsed) :
    Content fence indent lines parsed.value parsed.rest := by
  induction lines with
  | nil => cases read
  | cons line lines ih =>
      unfold content at read
      split at read
      · next closes =>
        cases read
        exact .close closes
      · next inside =>
        obtain ⟨more, done, same⟩ := Option.bind_eq_some_iff.mp read
        cases same
        exact .line inside (ih done)

section

variable {line : Line} {below : List Line}

theorem argument_of_row (skipped : lines.dropWhile Line.isIgnorable = line :: below)
    (kind : line.kind = .row) :
    argument lines = rows none (line :: below) >>= fun table =>
      .ok ⟨some (.table line.place table.value), table.rest,
        table.suffix.trans (suffix_of_skipped skipped)⟩ := by
  unfold argument
  split
  · next nothing => cases skipped.symm.trans nothing
  · next there =>
    cases skipped.symm.trans there
    simp only [kind]
    rfl

theorem argument_of_fence {fence : Fence} {type : Text}
    (skipped : lines.dropWhile Line.isIgnorable = line :: below)
    (kind : line.kind = .fence fence type) :
    argument lines = match content fence (Text.indent line.raw) below with
      | none => .error ⟨.at line.place, .unexpectedEnd [.docStringSeparator]⟩
      | some inner => .ok ⟨some (.docString line.place fence
          (if type.isEmpty then none else some type) (Text.unlines inner.value)), inner.rest,
          inner.suffix.trans ((List.suffix_cons line below).trans
            (suffix_of_skipped skipped))⟩ := by
  unfold argument
  split
  · next nothing => cases skipped.symm.trans nothing
  · next there =>
    cases skipped.symm.trans there
    simp only [kind]
    cases content fence (Text.indent line.raw) below <;> rfl

theorem steps_of_step {keyword text : Text}
    (skipped : lines.dropWhile Line.isIgnorable = line :: below)
    (kind : line.kind = .step keyword text) :
    steps lines = argument below >>= fun inner => steps inner.rest >>= fun more =>
      .ok ⟨⟨line.place, keyword, text, inner.value⟩ :: more.value, more.rest,
        more.suffix.trans (inner.suffix.trans
          ((List.suffix_cons line below).trans (suffix_of_skipped skipped)))⟩ := by
  rw [steps]
  split
  · next nothing => cases skipped.symm.trans nothing
  · next there =>
    cases skipped.symm.trans there
    simp only [kind]
    rfl

end

theorem Argument.gives {found : Option Document.Argument} (read : Argument lines found rest) :
    (argument lines).Gives found rest := by
  cases read with
  | none skipped neither =>
      unfold argument
      split
      · next nothing =>
        cases skipped.symm.trans nothing
        exact Reading.gives_ok _
      · next line below there =>
        cases skipped.symm.trans there
        obtain ⟨notRow, notFence⟩ := neither line rfl
        split
        · contradiction
        · exact absurd ‹_› (notFence _ _)
        · exact Reading.gives_ok _
  | table skipped kind rows =>
      rw [argument_of_row skipped kind]
      exact rows.gives.bind fun _ => Reading.gives_ok _
  | docString skipped kind content =>
      obtain ⟨suffix, closed⟩ := content.eq_some
      rw [argument_of_fence skipped kind, closed]
      exact Reading.gives_ok _

theorem ArgumentFails.eq_error (fails : ArgumentFails lines fault) :
    argument lines = .error fault := by
  cases fails with
  | table skipped kind failed =>
      rw [argument_of_row skipped kind]
      exact Except.bind_eq_error_of_error failed.eq_error
  | docString skipped kind missing =>
      rw [argument_of_fence skipped kind]
      split
      · rfl
      · next closed => exact absurd (of_content_eq_some closed) (missing _ _)

theorem Steps.gives {found : List Step} (read : Steps lines found rest) :
    (steps lines).Gives found rest := by
  induction read with
  | done skipped other =>
      unfold steps
      split
      · next nothing =>
        cases skipped.symm.trans nothing
        exact Reading.gives_ok _
      · next line below there =>
        cases skipped.symm.trans there
        split
        · exact absurd ‹_› (other line rfl _ _)
        · exact Reading.gives_ok _
  | step skipped kind argument _ ih =>
      rw [steps_of_step skipped kind]
      exact argument.gives.bind fun _ => ih.bind fun _ => Reading.gives_ok _

theorem StepsFail.eq_error (fails : StepsFail lines fault) : steps lines = .error fault := by
  induction fails with
  | argument skipped kind failed =>
      rw [steps_of_step skipped kind]
      exact Except.bind_eq_error_of_error failed.eq_error
  | later skipped kind argument _ ih =>
      rw [steps_of_step skipped kind]
      exact argument.gives.bind_eq fun _ => Except.bind_eq_error_of_error ih

/-! ## Tests -/

theorem Rows.exampleRows_gives {found : List Row}
    (read : Rows none (lines.dropWhile Line.isIgnorable) found rest) :
    (exampleRows lines).Gives found rest := read.gives.bind fun _ => Reading.gives_ok _

section

variable {line : Line} {below : List Line} {found : List Tag} {keyword name : Text}
  {construct : Construct} {outline : Bool}

theorem examples_of_block (allowed : (outline || release.hasScenarioExamples) = true)
    (tagged : Tags lines found (line :: below))
    (kind : line.kind = .header .examples keyword name) :
    examples release outline lines =
      exampleRows (below.dropWhile Line.continuesDescription) >>= fun table =>
        examples release outline table.rest >>= fun more =>
          .ok ⟨⟨found, (header line .examples keyword name below).value, table.value⟩ :: more.value,
            more.rest, more.suffix.trans (table.suffix.trans ((List.dropWhile_suffix _).trans
              ((List.suffix_cons line below).trans tagged.suffix)))⟩ := by
  rw [examples]
  refine tagged.gives.bind_eq fun _ => ?_
  simp only [kind]
  rw [if_neg (by cases outline <;> simp_all)]
  rfl

theorem tests_of_test (tagged : Tags lines found (line :: below))
    (kind : line.kind = .header construct keyword name)
    (isTest : construct = .scenario ∨ construct = .outline) :
    tests release lines = scenario release found line construct keyword name below >>= fun test =>
      tests release test.rest >>= fun more =>
        .ok ⟨test.value :: more.value, more.rest, more.suffix.trans (test.suffix.trans
          ((List.suffix_cons line below).trans tagged.suffix))⟩ := by
  rw [tests]
  refine tagged.gives.bind_eq fun _ => ?_
  rcases isTest with rfl | rfl
  · simp only [kind]
    rfl
  · simp only [kind]
    rfl

theorem body_of_background (tagged : Tags lines found (line :: below))
    (kind : line.kind = .header .background keyword name) :
    body release lines = withoutTags .background found >>= fun _ =>
      steps (below.dropWhile Line.continuesDescription) >>= fun performed =>
        tests release performed.rest >>= fun list =>
          .ok ⟨⟨some ⟨(header line .background keyword name below).value, performed.value⟩,
            list.value⟩, list.rest, list.suffix.trans (performed.suffix.trans
              ((List.dropWhile_suffix _).trans
                ((List.suffix_cons line below).trans tagged.suffix)))⟩ := by
  rw [body]
  refine tagged.gives.bind_eq fun _ => ?_
  simp only [kind]
  rfl

theorem rules_of_rule (ruled : release.hasRules = true) (tagged : Tags lines found (line :: below))
    (kind : line.kind = .header .rule keyword name)
    (taggable : release.hasRuleTags = true ∨ found = []) :
    rules release lines =
      body release (below.dropWhile Line.continuesDescription) >>= fun inner =>
        rules release inner.rest >>= fun more =>
          .ok ⟨⟨found, (header line .rule keyword name below).value, inner.value⟩ :: more.value,
            more.rest, more.suffix.trans (inner.suffix.trans ((List.dropWhile_suffix _).trans
              ((List.suffix_cons line below).trans tagged.suffix)))⟩ := by
  rw [rules]
  refine tagged.gives.bind_eq fun _ => ?_
  rcases taggable with known | rfl
  · simp only [kind, ruled, known]
    rfl
  · -- Without tags it makes no difference whether they are looked at.
    simp only [kind, ruled]
    cases release.hasRuleTags <;> rfl

theorem feature?_of_header {language : Text} (tagged : Tags lines found (line :: below))
    (kind : line.kind = .header .feature keyword name) :
    feature? release language lines =
      body release (below.dropWhile Line.continuesDescription) >>= fun inner =>
        rules release inner.rest >>= fun list =>
          .ok (some ⟨language, found, (header line .feature keyword name below).value, inner.value,
            list.value⟩) := by
  rw [feature?]
  refine tagged.gives.bind_eq fun _ => ?_
  simp only [kind]
  rfl

end

theorem Blocks.gives {outline : Bool} {found : List Examples}
    (read : Blocks (outline || release.hasScenarioExamples) lines found rest) :
    (examples release outline lines).Gives found rest := by
  induction read with
  | @done lines found next tagged other =>
      rw [examples]
      refine tagged.gives.bind fun suffix => ?_
      cases next with
      | nil => exact Reading.gives_ok _
      | cons line below =>
        dsimp only
        split
        · exact absurd ‹_› (other line rfl _ _)
        · exact Reading.gives_ok _
  | block allowed tagged kind rows _ ih =>
      rw [examples_of_block allowed tagged kind]
      exact rows.exampleRows_gives.bind fun _ => ih.bind fun _ => Reading.gives_ok _

theorem BlocksFail.eq_error {outline : Bool}
    (fails : BlocksFail (outline || release.hasScenarioExamples) lines fault) :
    examples release outline lines = .error fault := by
  induction fails with
  | tags failed =>
      rw [examples]
      exact Except.bind_eq_error_of_error failed.eq_error
  | refused refused tagged kind =>
      rw [examples]
      refine tagged.gives.bind_eq fun suffix => ?_
      simp only [kind]
      rw [if_pos (by simpa using refused)]
  | rows allowed tagged kind failed =>
      rw [examples_of_block allowed tagged kind]
      exact Except.bind_eq_error_of_error (Except.bind_eq_error_of_error failed.eq_error)
  | later allowed tagged kind rows _ ih =>
      rw [examples_of_block allowed tagged kind]
      exact rows.exampleRows_gives.bind_eq fun _ => Except.bind_eq_error_of_error ih

section

variable {found : List Tag} {line : Line} {construct : Construct} {keyword name : Text}

theorem Test.gives {test : Scenario}
    (read : Test release found line construct keyword name lines test rest) :
    (scenario release found line construct keyword name lines).Gives test rest := by
  obtain ⟨performed, blocks⟩ := read
  exact performed.gives.bind fun _ => blocks.gives.bind fun _ => Reading.gives_ok _

theorem TestFails.eq_error (fails : TestFails release construct lines fault) :
    scenario release found line construct keyword name lines = .error fault := by
  cases fails with
  | steps failed => exact Except.bind_eq_error_of_error failed.eq_error
  | blocks performed failed =>
      exact performed.gives.bind_eq fun _ => Except.bind_eq_error_of_error failed.eq_error

end

theorem Tests.gives {found : List Scenario} (read : Tests release lines found rest) :
    (tests release lines).Gives found rest := by
  induction read with
  | done tagged =>
      rw [tests]
      exact tagged.gives.bind fun _ => Reading.gives_ok _
  | rule tagged kind =>
      rw [tests]
      refine tagged.gives.bind fun _ => ?_
      simp only [kind]
      exact Reading.gives_ok _
  | test tagged kind isTest here _ ih =>
      rw [tests_of_test tagged kind isTest]
      exact here.gives.bind fun _ => ih.bind fun _ => Reading.gives_ok _

theorem TestsFail.eq_error (fails : TestsFail release lines fault) :
    tests release lines = .error fault := by
  induction fails with
  | tags failed =>
      rw [tests]
      exact Except.bind_eq_error_of_error failed.eq_error
  | unfinished tagged =>
      rw [tests]
      exact tagged.gives.bind_eq fun _ => rfl
  | unexpected tagged neither =>
      rw [tests]
      refine tagged.gives.bind_eq fun _ => ?_
      dsimp only
      split
      · next kind =>
        split
        · exact absurd kind (neither _ (by simp) _ _)
        · exact absurd kind (neither _ (by simp) _ _)
        · exact absurd kind (neither _ (by simp) _ _)
        · rfl
      · rfl
  | test tagged kind isTest failed =>
      rw [tests_of_test tagged kind isTest]
      exact Except.bind_eq_error_of_error failed.eq_error
  | later tagged kind isTest here _ ih =>
      rw [tests_of_test tagged kind isTest]
      exact here.gives.bind_eq fun _ => Except.bind_eq_error_of_error ih

/-! ## Rules and features -/

/-- What tests begin with is no background. -/
theorem Tests.exists_tags {found : List Scenario} (read : Tests release lines found rest) :
    ∃ before next, Tags lines before next ∧
      ∀ line ∈ next.head?, ∀ keyword name, line.kind ≠ .header .background keyword name := by
  cases read with
  | done tagged => exact ⟨_, _, tagged, by simp⟩
  | rule tagged kind => exact ⟨_, _, tagged, by simp [kind]⟩
  | test tagged kind isTest =>
      refine ⟨_, _, tagged, ?_⟩
      rcases isTest with rfl | rfl <;> simp [kind]

/-- Where there is no background, the tests are read from the first line on. -/
theorem body_of_tests {found : List Tag} {next : List Line} (tagged : Tags lines found next)
    (other : ∀ line ∈ next.head?, ∀ keyword name, line.kind ≠ .header .background keyword name) :
    body release lines = tests release lines >>= fun list =>
      .ok ⟨⟨none, list.value⟩, list.rest, list.suffix⟩ := by
  rw [body]
  refine tagged.gives.bind_eq fun _ => ?_
  cases next with
  | nil => rfl
  | cons line below =>
      dsimp only
      split
      · exact absurd ‹_› (other line rfl _ _)
      · rfl

theorem Body.gives {found : Document.Body} (read : Body release lines found rest) :
    (body release lines).Gives found rest := by
  cases read with
  | background tagged kind performed listed =>
      rw [body_of_background tagged kind]
      exact performed.gives.bind fun _ => listed.gives.bind fun _ => Reading.gives_ok _
  | tests listed =>
      obtain ⟨_, _, tagged, other⟩ := listed.exists_tags
      rw [body_of_tests tagged other]
      exact listed.gives.bind fun _ => Reading.gives_ok _

theorem BodyFails.eq_error (fails : BodyFails release lines fault) :
    body release lines = .error fault := by
  cases fails with
  | tags failed =>
      rw [body]
      exact Except.bind_eq_error_of_error failed.eq_error
  | misplaced tagged kind =>
      rw [body_of_background tagged kind]
      rfl
  | steps tagged kind failed =>
      rw [body_of_background tagged kind]
      exact Except.bind_eq_error_of_ok rfl (Except.bind_eq_error_of_error failed.eq_error)
  | behind tagged kind performed failed =>
      rw [body_of_background tagged kind]
      exact Except.bind_eq_error_of_ok rfl (performed.gives.bind_eq fun _ =>
        Except.bind_eq_error_of_error failed.eq_error)
  | tests tagged other failed =>
      rw [body_of_tests tagged other]
      exact Except.bind_eq_error_of_error failed.eq_error

theorem Rules.gives {found : List Rule} (read : Rules release lines found) :
    (rules release lines).Gives found [] := by
  induction read with
  | done tagged =>
      rw [rules]
      exact tagged.gives.bind fun _ => Reading.gives_ok _
  | rule ruled tagged kind taggable inner _ ih =>
      rw [rules_of_rule ruled tagged kind taggable]
      exact inner.gives.bind fun _ => ih.bind fun _ => Reading.gives_ok _

theorem RulesFail.eq_error (fails : RulesFail release lines fault) :
    rules release lines = .error fault := by
  induction fails with
  | tags failed =>
      rw [rules]
      exact Except.bind_eq_error_of_error failed.eq_error
  | unfinished tagged =>
      rw [rules]
      exact tagged.gives.bind_eq fun _ => rfl
  | unexpected tagged other =>
      rw [rules]
      refine tagged.gives.bind_eq fun _ => ?_
      dsimp only
      split
      · exact absurd ‹_› (other _ _)
      · rfl
  | unsupported unruled tagged kind =>
      rw [rules]
      refine tagged.gives.bind_eq fun _ => ?_
      simp [kind, unruled]
  | misplaced ruled untaggable tagged kind =>
      rw [rules]
      refine tagged.gives.bind_eq fun _ => ?_
      simp only [kind, ruled, untaggable]
      rfl
  | body ruled tagged kind taggable failed =>
      rw [rules_of_rule ruled tagged kind taggable]
      exact Except.bind_eq_error_of_error failed.eq_error
  | later ruled tagged kind taggable inner _ ih =>
      rw [rules_of_rule ruled tagged kind taggable]
      exact inner.gives.bind_eq fun _ => Except.bind_eq_error_of_error ih

theorem Feature.eq_ok {language : Text} {found : Option Document.Feature}
    (read : Feature release language lines found) :
    feature? release language lines = .ok found := by
  cases read with
  | none tagged =>
      rw [feature?]
      exact tagged.gives.bind_eq fun _ => rfl
  | some tagged kind inner listed =>
      rw [feature?_of_header tagged kind]
      exact inner.gives.bind_eq fun _ => listed.gives.bind_eq fun _ => rfl

theorem FeatureFails.eq_error {language : Text} (fails : FeatureFails release lines fault) :
    feature? release language lines = .error fault := by
  cases fails with
  | tags failed =>
      rw [feature?]
      exact Except.bind_eq_error_of_error failed.eq_error
  | unfinished tagged =>
      rw [feature?]
      exact tagged.gives.bind_eq fun _ => rfl
  | unexpected tagged other =>
      rw [feature?]
      refine tagged.gives.bind_eq fun _ => ?_
      dsimp only
      split
      · exact absurd ‹_› (other _ _)
      · rfl
  | body tagged kind failed =>
      rw [feature?_of_header tagged kind]
      exact Except.bind_eq_error_of_error failed.eq_error
  | rules tagged kind inner failed =>
      rw [feature?_of_header tagged kind]
      exact inner.gives.bind_eq fun _ => Except.bind_eq_error_of_error failed.eq_error

end Grammar

namespace Document

open Grammar (feature_or_fails)

variable {release : Release} {language : Text} {lines : List Line}

theorem feature?_eq_ok_iff {found : Option Feature} :
    feature? release language lines = .ok found ↔
      Grammar.Feature release language lines found := by
  refine ⟨fun read => ?_, Grammar.Feature.eq_ok⟩
  rcases feature_or_fails release language lines with ⟨other, derived⟩ | ⟨fault, fails⟩
  · cases read.symm.trans derived.eq_ok
    exact derived
  · cases read.symm.trans fails.eq_error

theorem feature?_eq_error_iff {fault : Fault} :
    feature? release language lines = .error fault ↔
      Grammar.FeatureFails release lines fault := by
  refine ⟨fun failed => ?_, Grammar.FeatureFails.eq_error⟩
  rcases feature_or_fails release language lines with ⟨found, derived⟩ | ⟨other, fails⟩
  · cases failed.symm.trans derived.eq_ok
  · cases failed.symm.trans fails.eq_error
    exact fails

end Document

end Gherkin
