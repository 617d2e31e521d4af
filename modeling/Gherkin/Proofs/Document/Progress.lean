import Gherkin.Proofs.Document.Walk
import Gherkin.Proofs.Document.Source

/-!
# Progress

A walk comes to what the readers come to, for each construct and for whole documents, whether
they are read or refused. So no loop ever uses up its turns, every turn that goes on ends
further down than it began although the cursor is moved back to tags that it has passed, and
the cursor is behind the last line when a document was read.
-/

namespace Gherkin

namespace Grammar

open Document
open Document.Walk (Ends Fails LoopEnds LoopFails ends_peek ends_advance ends_check ends_moveTo
  fails_check fails_fail ends_pass ends_skip ends_gap fails_gap ends_header)

variable {release : Release} {all lines next rest below : List Line} {line : Line} {fault : Fault}

/-! ## Steps -/

theorem Content.ends {opening : Line} {fence : Fence} {found : List Text}
    (read : Content fence (Text.indent opening.raw) lines found rest) :
    Ends all (Walk.content all opening fence) lines found rest := by
  obtain ⟨⟨closing, behind⟩, rfl⟩ := content_iff.mp read
  refine (ends_pass all .content _ lines).bind ?_
  rw [behind]
  exact (ends_peek all _).bind ((ends_advance closing rest).bind (.pure _ rest))

theorem fails_content {opening : Line} {fence : Fence}
    (missing : ∀ found rest, ¬ Content fence (Text.indent opening.raw) lines found rest) :
    Fails all (Walk.content all opening fence) lines
      ⟨.at opening.place, .unexpectedEnd [.docStringSeparator]⟩ := by
  have none : lines.dropWhile (fun line => line.trimmed ≠ fence.text) = [] := by
    cases behind : lines.dropWhile (fun line => line.trimmed ≠ fence.text) with
    | nil => rfl
    | cons closing rest => exact absurd (content_iff.mpr ⟨⟨closing, behind⟩, rfl⟩) (missing _ rest)
  refine (ends_pass all .content _ lines).bind_fails ?_
  rw [none]
  exact (ends_peek all []).bind_fails (fails_fail _ [])

theorem Argument.ends {found : Option Document.Argument} (read : Argument lines found rest) :
    Ends all (Walk.argument all) lines found rest := by
  cases read with
  | none skipped neither =>
      refine ends_gap skipped ?_
      cases rest with
      | nil => exact .pure _ _
      | cons line below =>
          obtain ⟨notRow, notFence⟩ := neither line rfl
          dsimp only [List.head?_cons]
          split
          · contradiction
          · exact absurd ‹_› (notFence _ _)
          · exact .pure _ _
  | table skipped kind rows =>
      refine ends_gap skipped ?_
      simp only [List.head?_cons, kind]
      exact rows.ends.bind (.pure _ rest)
  | docString skipped kind content =>
      refine ends_gap skipped ?_
      simp only [List.head?_cons, kind]
      exact (ends_advance _ _).bind (content.ends.bind (.pure _ rest))

theorem ArgumentFails.fails (fails : ArgumentFails lines fault) :
    Fails all (Walk.argument all) lines fault := by
  cases fails with
  | table skipped kind failed =>
      refine fails_gap skipped ?_
      simp only [List.head?_cons, kind]
      exact failed.fails.bind
  | docString skipped kind missing =>
      refine fails_gap skipped ?_
      simp only [List.head?_cons, kind]
      exact (ends_advance _ _).bind_fails (fails_content missing).bind

theorem ends_stepsTurn {keyword text : Text} {argument : Option Document.Argument}
    (skipped : lines.dropWhile Line.isIgnorable = line :: below)
    (kind : line.kind = .step keyword text) (argued : Argument below argument next)
    (before : List Step) :
    Ends all (Walk.stepsTurn all before) lines
      (.yield (before ++ [⟨line.place, keyword, text, argument⟩])) next := by
  refine ends_gap skipped ?_
  simp only [List.head?_cons, kind]
  exact (ends_advance line below).bind (argued.ends.bind (.pure _ next))

theorem Steps.loopEnds {found : List Step} (read : Steps lines found rest) (before : List Step) :
    LoopEnds all .steps (Walk.stepsTurn all) before lines (before ++ found) rest := by
  induction read generalizing before with
  | @done lines rest skipped other =>
      rw [List.append_nil]
      refine .done (ends_gap skipped ?_)
      cases rest with
      | nil => exact .pure _ _
      | cons line below =>
          dsimp only [List.head?_cons]
          split
          · exact absurd ‹_› (other line rfl _ _)
          · exact .pure _ _
  | step skipped kind argument _ ih =>
      rw [List.append_cons]
      exact .yield (ends_stepsTurn skipped kind argument before)
        (length_lt_of_suffix (suffix_of_skipped skipped) argument.suffix) (ih _)

theorem Steps.ends {found : List Step} (read : Steps lines found rest) :
    Ends all (Walk.steps all) lines found rest := (read.loopEnds []).ends

theorem StepsFail.loopFails (fails : StepsFail lines fault) (before : List Step) :
    LoopFails all .steps (Walk.stepsTurn all) before lines fault := by
  induction fails generalizing before with
  | @argument lines line below keyword text fault skipped kind failed =>
      refine .here (fails_gap skipped ?_)
      simp only [List.head?_cons, kind]
      exact (ends_advance line below).bind_fails failed.fails.bind
  | later skipped kind argument _ ih =>
      exact .later (ends_stepsTurn skipped kind argument before)
        (length_lt_of_suffix (suffix_of_skipped skipped) argument.suffix) (ih _)

theorem StepsFail.fails (fails : StepsFail lines fault) :
    Fails all (Walk.steps all) lines fault := (fails.loopFails []).fails

/-! ## Tests -/

variable {outline : Bool} {found : List Tag} {construct : Construct} {keyword name : Text}

theorem ends_examplesTurn {table : List Row}
    (allowed : (outline || release.hasScenarioExamples) = true)
    (tagged : Tags lines found (line :: below)) (kind : line.kind = .header .examples keyword name)
    (rows : Rows none ((below.dropWhile Line.continuesDescription).dropWhile Line.isIgnorable)
      table next) (before : List Examples) :
    Ends all (Walk.examplesTurn all release outline before) lines
      (.yield (before ++ [⟨found, (header line .examples keyword name below).value, table⟩]))
      next := by
  refine .marked fun mark _ _ => tagged.ends_behind ?_
  simp only [List.head?_cons, kind]
  rw [if_neg (by cases outline <;> simp_all)]
  exact (ends_header all line .examples keyword name below).bind
    ((ends_skip all _).bind (rows.ends.bind (.pure _ next)))

theorem Blocks.loopEnds {blocks : List Examples}
    (read : Blocks (outline || release.hasScenarioExamples) lines blocks rest)
    (before : List Examples) :
    LoopEnds all .examples (Walk.examplesTurn all release outline) before lines (before ++ blocks)
      rest := by
  induction read generalizing before with
  | @done lines found next tagged other =>
      rw [List.append_nil]
      -- The tags belong to what stands behind the blocks, and are left in front of the cursor.
      refine .done (.marked fun mark inside here => tagged.ends_behind ?_)
      cases next with
      | nil => exact (ends_moveTo inside here).bind (.pure _ lines)
      | cons line below =>
          dsimp only [List.head?_cons]
          split
          · exact absurd ‹_› (other line rfl _ _)
          · exact (ends_moveTo inside here).bind (.pure _ lines)
  | block allowed tagged kind rows _ ih =>
      rw [List.append_cons]
      exact .yield (ends_examplesTurn allowed tagged kind rows before)
        (length_lt_of_rows tagged rows) (ih _)

theorem Blocks.ends {blocks : List Examples}
    (read : Blocks (outline || release.hasScenarioExamples) lines blocks rest) :
    Ends all (Walk.examples all release outline) lines blocks rest := (read.loopEnds []).ends

theorem BlocksFail.loopFails
    (fails : BlocksFail (outline || release.hasScenarioExamples) lines fault)
    (before : List Examples) :
    LoopFails all .examples (Walk.examplesTurn all release outline) before lines fault := by
  induction fails generalizing before with
  | tags failed => exact .here (.marked fun mark _ _ => failed.fails.bind)
  | refused refused tagged kind =>
      refine .here (.marked fun mark _ _ => tagged.fails_behind ?_)
      simp only [List.head?_cons, kind]
      rw [if_pos (by simpa using refused)]
      exact fails_fail _ _
  | @rows lines found line below keyword name fault allowed tagged kind failed =>
      refine .here (.marked fun mark _ _ => tagged.fails_behind ?_)
      simp only [List.head?_cons, kind]
      rw [if_neg (by cases outline <;> simp_all)]
      exact (ends_header all line .examples keyword name below).bind_fails
        ((ends_skip all _).bind_fails failed.fails.bind)
  | later allowed tagged kind rows _ ih =>
      exact .later (ends_examplesTurn allowed tagged kind rows before)
        (length_lt_of_rows tagged rows) (ih _)

theorem BlocksFail.fails (fails : BlocksFail (outline || release.hasScenarioExamples) lines fault) :
    Fails all (Walk.examples all release outline) lines fault := (fails.loopFails []).fails

theorem Test.ends {test : Scenario}
    (read : Test release found line construct keyword name lines test rest) :
    Ends all (Walk.scenario all release found line construct keyword name) (line :: lines) test
      rest := by
  obtain ⟨steps, blocks⟩ := read
  exact (ends_header all line construct keyword name lines).bind
    (steps.ends.bind (blocks.ends.bind (.pure _ rest)))

theorem TestFails.fails (fails : TestFails release construct lines fault) :
    Fails all (Walk.scenario all release found line construct keyword name) (line :: lines)
      fault := by
  refine (ends_header all line construct keyword name lines).bind_fails ?_
  rcases fails with failed | ⟨steps, failed⟩
  · exact failed.fails.bind
  · exact steps.ends.bind_fails failed.fails.bind

theorem ends_bodyTurn_test {test : Scenario} (tagged : Tags lines found (line :: below))
    (kind : line.kind = .header construct keyword name)
    (either : construct = .scenario ∨ construct = .outline)
    (read : Test release found line construct keyword name below test next)
    (before : Document.Body) :
    Ends all (Walk.bodyTurn all release before) lines
      (.yield { before with tests := before.tests ++ [test] }) next := by
  refine .marked fun mark _ _ => tagged.ends_behind ?_
  simp only [List.head?_cons, kind]
  rcases either with rfl | rfl
  · exact read.ends.bind (.pure _ next)
  · exact read.ends.bind (.pure _ next)

theorem Tests.loopEnds {tests : List Scenario} (read : Tests release lines tests rest)
    (loop : Loop) (before : Document.Body) :
    LoopEnds all loop (Walk.bodyTurn all release) before lines
      { before with tests := before.tests ++ tests } rest := by
  induction read generalizing before with
  | done tagged =>
      rw [List.append_nil]
      exact .done (.marked fun mark _ _ => tagged.ends_behind (.pure _ []))
  | @rule lines found line below keyword name tagged kind =>
      rw [List.append_nil]
      refine .done (.marked fun mark inside here => tagged.ends_behind ?_)
      simp only [List.head?_cons, kind]
      exact (ends_moveTo inside here).bind (.pure _ lines)
  | test tagged kind either read _ ih =>
      rw [List.append_cons]
      exact .yield (ends_bodyTurn_test tagged kind either read before)
        (length_lt_of_suffix tagged.suffix read.suffix) (ih _)

/-- What stands behind the tags is found once. -/
theorem Tags.unique {other : List Tag} (read : Tags lines found next)
    (again : Tags lines other rest) : found = other ∧ next = rest := by
  obtain ⟨_, read⟩ := read.gives
  obtain ⟨_, again⟩ := again.gives
  cases read.symm.trans again
  exact ⟨rfl, rfl⟩

/-- Behind the tags there is no background. -/
def OpensOther (lines : List Line) : Prop :=
  ∀ found next, Tags lines found next →
    ∀ line ∈ next.head?, ∀ keyword name, line.kind ≠ .header .background keyword name

theorem isFresh_append_tests (before : Document.Body) (test : Scenario) :
    Walk.isFresh { before with tests := before.tests ++ [test] } = false := by
  simp [Walk.isFresh]

theorem fails_bodyTurn_unexpected {before : Document.Body}
    (tagged : Tags lines found (line :: below))
    (neither : ∀ construct ∈ [Construct.scenario, .outline, .rule], ∀ keyword name,
      line.kind ≠ .header construct keyword name)
    (opens : Walk.isFresh before = true → OpensOther lines) :
    Fails all (Walk.bodyTurn all release before) lines
      (unexpected line [.scenarioLine, .ruleLine, .tagLine]) := by
  refine .marked fun mark _ _ => tagged.fails_behind ?_
  dsimp only [List.head?_cons]
  split
  · next construct keyword name kind =>
    split
    · split
      · next fresh => exact absurd kind (opens fresh _ _ tagged line rfl _ _)
      · exact fails_fail _ _
    · exact absurd kind (neither _ (by simp) _ _)
    · exact absurd kind (neither _ (by simp) _ _)
    · exact absurd kind (neither _ (by simp) _ _)
    · exact fails_fail _ _
  · exact fails_fail _ _

theorem TestsFail.loopFails (fails : TestsFail release lines fault) (loop : Loop)
    {before : Document.Body} (opens : Walk.isFresh before = true → OpensOther lines) :
    LoopFails all loop (Walk.bodyTurn all release) before lines fault := by
  induction fails generalizing before with
  | tags failed => exact .here (.marked fun mark _ _ => failed.fails.bind)
  | unfinished tagged =>
      exact .here (.marked fun mark _ _ => tagged.fails_behind (fails_fail _ []))
  | unexpected tagged neither => exact .here (fails_bodyTurn_unexpected tagged neither opens)
  | test tagged kind either failed =>
      refine .here (.marked fun mark _ _ => tagged.fails_behind ?_)
      simp only [List.head?_cons, kind]
      rcases either with rfl | rfl
      · exact failed.fails.bind
      · exact failed.fails.bind
  | later tagged kind either read _ ih =>
      refine .later (ends_bodyTurn_test tagged kind either read before)
        (length_lt_of_suffix tagged.suffix read.suffix) (ih fun fresh => ?_)
      rw [isFresh_append_tests] at fresh
      cases fresh

/-! ## Features and rules -/

theorem ends_bodyTurn_background {steps : List Step} (tagged : Tags lines [] (line :: below))
    (kind : line.kind = .header .background keyword name)
    (performed : Steps (below.dropWhile Line.continuesDescription) steps next) :
    Ends all (Walk.bodyTurn all release ⟨none, []⟩) lines
      (.yield ⟨some ⟨(header line .background keyword name below).value, steps⟩, []⟩) next := by
  refine .marked fun mark _ _ => tagged.ends_behind ?_
  simp only [List.head?_cons, kind]
  exact (ends_check rfl _).bind ((ends_header all line .background keyword name below).bind
    (performed.ends.bind (.pure _ next)))

theorem length_lt_of_steps {steps : List Step} (tagged : Tags lines found (line :: below))
    (performed : Steps (below.dropWhile Line.continuesDescription) steps next) :
    next.length < lines.length :=
  length_lt_of_suffix tagged.suffix (performed.suffix.trans (List.dropWhile_suffix _))

theorem Body.ends {body : Document.Body} (read : Body release lines body rest) (loop : Loop) :
    Ends all (Walk.body loop all release) lines body rest := by
  cases read with
  | background tagged kind performed tests =>
      exact (LoopEnds.yield (ends_bodyTurn_background tagged kind performed)
        (length_lt_of_steps tagged performed) (tests.loopEnds loop _)).ends
  | tests tests => exact (tests.loopEnds loop ⟨none, []⟩).ends

theorem BodyFails.fails (fails : BodyFails release lines fault) (loop : Loop) :
    Fails all (Walk.body loop all release) lines fault := by
  cases fails with
  | tags failed => exact (LoopFails.here (.marked fun mark _ _ => failed.fails.bind)).fails
  | misplaced tagged kind =>
      refine (LoopFails.here (.marked fun mark _ _ => tagged.fails_behind ?_)).fails
      simp only [List.head?_cons, kind]
      exact (fails_check rfl _).bind
  | @steps line below keyword name fault tagged kind failed =>
      refine (LoopFails.here (.marked fun mark _ _ => tagged.fails_behind ?_)).fails
      simp only [List.head?_cons, kind]
      exact (ends_check rfl _).bind_fails
        ((ends_header all line .background keyword name below).bind_fails failed.fails.bind)
  | behind tagged kind performed failed =>
      exact (LoopFails.later (ends_bodyTurn_background tagged kind performed)
        (length_lt_of_steps tagged performed) (failed.loopFails loop nofun)).fails
  | tests tagged other failed =>
      refine (failed.loopFails loop fun _ found next again => ?_).fails
      obtain ⟨rfl, rfl⟩ := tagged.unique again
      exact other

theorem withoutTags_of_taggable (taggable : release.hasRuleTags = true ∨ found = []) :
    (if release.hasRuleTags then .ok () else withoutTags .rule found : Except Fault Unit) =
      .ok () := by
  rcases taggable with taggable | rfl
  · rw [if_pos taggable]
  · exact ite_self _

theorem ends_rulesTurn {inner : Document.Body} (ruled : release.hasRules = true)
    (tagged : Tags lines found (line :: below)) (kind : line.kind = .header .rule keyword name)
    (taggable : release.hasRuleTags = true ∨ found = [])
    (read : Body release (below.dropWhile Line.continuesDescription) inner next)
    (before : List Rule) :
    Ends all (Walk.rulesTurn all release before) lines
      (.yield (before ++ [⟨found, (header line .rule keyword name below).value, inner⟩])) next := by
  refine tagged.ends_behind ?_
  simp only [List.head?_cons, kind, ruled, Bool.not_true, Bool.false_eq_true, if_false]
  exact (ends_check (withoutTags_of_taggable taggable) _).bind
    ((ends_header all line .rule keyword name below).bind
    ((read.ends .rule).bind (.pure _ next)))

theorem Rules.loopEnds {list : List Rule} (read : Rules release lines list) (before : List Rule) :
    LoopEnds all .rules (Walk.rulesTurn all release) before lines (before ++ list) [] := by
  induction read generalizing before with
  | done tagged =>
      rw [List.append_nil]
      exact .done (tagged.ends_behind (.pure _ []))
  | rule ruled tagged kind taggable read _ ih =>
      rw [List.append_cons]
      exact .yield (ends_rulesTurn ruled tagged kind taggable read before)
        (length_lt_of_body tagged read) (ih _)

theorem Rules.ends {list : List Rule} (read : Rules release lines list) :
    Ends all (Walk.rules all release) lines list [] := (read.loopEnds []).ends

theorem RulesFail.loopFails (fails : RulesFail release lines fault) (before : List Rule) :
    LoopFails all .rules (Walk.rulesTurn all release) before lines fault := by
  induction fails generalizing before with
  | tags failed => exact .here failed.fails.bind
  | unfinished tagged =>
      exact .here (tagged.fails_behind (fails_fail _ []))
  | unexpected tagged other =>
      refine .here (tagged.fails_behind ?_)
      dsimp only [List.head?_cons]
      split
      · exact absurd ‹_› (other _ _)
      · exact fails_fail _ _
  | unsupported unruled tagged kind =>
      refine .here (tagged.fails_behind ?_)
      simp only [List.head?_cons, kind, unruled, Bool.not_false, if_true]
      exact fails_fail _ _
  | misplaced ruled untaggable tagged kind =>
      refine .here (tagged.fails_behind ?_)
      simp only [List.head?_cons, kind, ruled, untaggable, Bool.not_true, Bool.false_eq_true,
        if_false]
      exact (fails_check rfl _).bind
  | @body lines found line below keyword name fault ruled tagged kind taggable failed =>
      refine .here (tagged.fails_behind ?_)
      simp only [List.head?_cons, kind, ruled, Bool.not_true, Bool.false_eq_true, if_false]
      exact (ends_check (withoutTags_of_taggable taggable) _).bind_fails
        ((ends_header all line .rule keyword name below).bind_fails (failed.fails .rule).bind)
  | later ruled tagged kind taggable read _ ih =>
      exact .later (ends_rulesTurn ruled tagged kind taggable read before)
        (length_lt_of_body tagged read) (ih _)

theorem RulesFail.fails (fails : RulesFail release lines fault) :
    Fails all (Walk.rules all release) lines fault := (fails.loopFails []).fails

theorem Feature.ends {language : Text} {feature : Option Document.Feature}
    (read : Feature release language lines feature) :
    Ends all (Walk.feature? all release language) lines feature [] := by
  cases read with
  | none tagged => exact tagged.ends_behind (.pure _ [])
  | @some found line below keyword name body next rules tagged kind inner listed =>
      refine tagged.ends_behind ?_
      simp only [List.head?_cons, kind]
      exact (ends_header all line .feature keyword name below).bind
        ((inner.ends .feature).bind (listed.ends.bind (.pure _ [])))

theorem FeatureFails.fails {language : Text} (fails : FeatureFails release lines fault) :
    Fails all (Walk.feature? all release language) lines fault := by
  cases fails with
  | tags failed => exact failed.fails.bind
  | unfinished tagged =>
      exact tagged.fails_behind (fails_fail _ [])
  | unexpected tagged other =>
      refine tagged.fails_behind ?_
      dsimp only [List.head?_cons]
      split
      · exact absurd ‹_› (other _ _)
      · exact fails_fail _ _
  | @body found line below keyword name fault tagged kind failed =>
      refine tagged.fails_behind ?_
      simp only [List.head?_cons, kind]
      exact (ends_header all line .feature keyword name below).bind_fails
        (failed.fails .feature).bind
  | @rules found line below keyword name body next fault tagged kind inner failed =>
      refine tagged.fails_behind ?_
      simp only [List.head?_cons, kind]
      exact (ends_header all line .feature keyword name below).bind_fails
        ((inner.ends .feature).bind_fails failed.fails.bind)

/-- Nothing is left behind a feature. -/
theorem Feature.ends_whole {language : Text} {feature : Option Document.Feature}
    (read : Feature release language lines feature) :
    Ends all (Walk.whole all release language) lines ⟨feature⟩ [] :=
  read.ends.bind (ends_gap rfl (.pure _ []))

theorem FeatureFails.fails_whole {language : Text} (fails : FeatureFails release lines fault) :
    Fails all (Walk.whole all release language) lines fault := fails.fails.bind

end Grammar

namespace Document

open Walk (Ends Fails LoopEnds LoopFails ends_peek ends_advance fails_fail)

variable {release : Release} {dialect settled : Dialect} {all front rest : List Text}
  {number next : Nat} {fault : Fault}

/-! ## Opening lines -/

/-- A loop comes to what a reader does: a value and the lines that are left, or a fault. -/
def LoopComes {σ γ : Type} (all : List γ) (name : Loop) (turn : σ → Walk (ForInStep σ)) (state : σ)
    (front : List γ) : Except Fault (σ × List γ) → Prop
  | .ok (final, rest) => LoopEnds all name turn state front final rest
  | .error fault => LoopFails all name turn state front fault

theorem LoopComes.onward {σ γ : Type} {all front next : List γ} {name : Loop}
    {turn : σ → Walk (ForInStep σ)} {state after : σ} {outcome : Except Fault (σ × List γ)}
    (turned : Ends all (turn state) front (.yield after) next)
    (shorter : next.length < front.length) (later : LoopComes all name turn after next outcome) :
    LoopComes all name turn state front outcome := by
  cases outcome with
  | ok found => exact LoopEnds.yield turned shorter later
  | error fault => exact LoopFails.later turned shorter later

/-- The number of a line from the lines that are left. -/
theorem succ_mark_eq {mark : Nat} (numbered : number + front.length = all.length + 1)
    (inside : mark ≤ all.length) (here : all.drop mark = front) : mark + 1 = number := by
  have left := congrArg List.length here
  rw [List.length_drop] at left
  omega

/-- A turn over an opening line, with what it says about the dialect. -/
theorem ends_preambleTurn {raw : Text} {chosen : Dialect}
    (numbered : number + (raw :: front).length = all.length + 1)
    (passes : ((Line.read dialect number raw).kind = .blank ∨
        (Line.read dialect number raw).kind = .comment) ∧ chosen = dialect ∨
      ∃ code, (Line.read dialect number raw).kind = .language code ∧
        Dialect.find? code = some chosen) :
    Ends all (Walk.preambleTurn all dialect) (raw :: front) (.yield chosen) front := by
  refine .marked fun mark inside here => (ends_peek all _).bind ?_
  have onward : Ends all (do Walk.advance; pure (.yield chosen)) (raw :: front)
      (ForInStep.yield chosen) front := (ends_advance raw front).bind (.pure _ front)
  simp only [List.head?_cons, succ_mark_eq numbered inside here]
  rcases passes with ⟨kind | kind, rfl⟩ | ⟨code, kind, known⟩
  · simpa only [kind] using onward
  · simpa only [kind] using onward
  · simpa only [kind, known] using onward

theorem preamble_comes (numbered : number + front.length = all.length + 1) :
    LoopComes all .preamble (Walk.preambleTurn all) dialect front
      ((preamble dialect number front).map fun found => (found.1, found.2.2)) := by
  induction front generalizing dialect number with
  | nil => exact LoopEnds.done (.marked fun mark _ _ => (ends_peek all []).bind (.pure _ []))
  | cons raw front ih =>
      have shorter : front.length < (raw :: front).length := Nat.lt_succ_self _
      have below : number + 1 + front.length = all.length + 1 := by
        rw [List.length_cons] at numbered
        omega
      unfold preamble
      dsimp only
      split
      · next kind =>
        exact .onward (ends_preambleTurn numbered (.inl ⟨.inl kind, rfl⟩)) shorter (ih below)
      · next kind =>
        exact .onward (ends_preambleTurn numbered (.inl ⟨.inr kind, rfl⟩)) shorter (ih below)
      · next code kind =>
        split
        · next chosen known =>
          exact .onward (ends_preambleTurn numbered (.inr ⟨code, kind, known⟩)) shorter (ih below)
        · next unknown =>
          refine LoopFails.here (.marked fun mark inside here => (ends_peek all _).bind_fails ?_)
          simp only [List.head?_cons, succ_mark_eq numbered inside here, kind, unknown]
          exact fails_fail _ _
      · next notBlank notComment notLanguage =>
        refine LoopEnds.done (.marked fun mark inside here => (ends_peek all _).bind ?_)
        simp only [List.head?_cons, succ_mark_eq numbered inside here]
        exact .pure _ _

theorem preamble_ends (read : preamble dialect 1 all = .ok (settled, number, rest)) :
    Ends all (Walk.preamble all dialect) all settled rest := by
  have comes : LoopComes all .preamble (Walk.preambleTurn all) dialect all _ :=
    preamble_comes (Nat.add_comm 1 all.length)
  rw [read] at comes
  exact LoopEnds.ends comes

theorem preamble_fails (failed : preamble dialect 1 all = .error fault) :
    Fails all (Walk.preamble all dialect) all fault := by
  have comes : LoopComes all .preamble (Walk.preambleTurn all) dialect all _ :=
    preamble_comes (Nat.add_comm 1 all.length)
  rw [failed] at comes
  exact LoopFails.fails comes

/-- The lines that the preamble leaves, among all lines in the dialect that it settles on. -/
theorem drop_readAll_of_preamble {position : Nat}
    (read : preamble dialect 1 all = .ok (settled, number, rest)) (inside : position ≤ all.length)
    (here : all.drop position = rest) :
    (Line.readAll settled 1 all).drop position = Line.readAll settled number rest := by
  obtain ⟨_, rfl, rfl, rfl⟩ := preamble_eq_ok_iff.mp read
  have opening : (openingLines dialect 1 all).length ≤ all.length :=
    (List.takeWhile_prefix _).length_le.trans (Line.length_readAll dialect 1 all).le
  have left := congrArg List.length here
  rw [List.length_drop, List.length_drop] at left
  obtain rfl : position = (openingLines dialect 1 all).length := by omega
  exact drop_readAll ..

/-! ## Whole documents -/

/-- Behind its preamble, a walk over a document is one over its feature. -/
theorem document_walk_eq (release : Release)
    (read : preamble dialect 1 all = .ok (settled, number, rest)) :
    ∃ cursor : Cursor, Walk.document release dialect all .start =
        Walk.whole (Line.readAll settled 1 all) release settled.code cursor ∧
      cursor.IsSound (Line.readAll settled 1 all).length ∧
      (Line.readAll settled 1 all).drop cursor.position = Line.readAll settled number rest := by
  obtain ⟨cursor, walked, sound, here⟩ := preamble_ends read .start (Cursor.isSound_start _) rfl
  refine ⟨cursor, ?_, Line.length_readAll settled 1 all ▸ sound,
    drop_readAll_of_preamble read sound.position here⟩
  rw [Walk.document, Walk.bind_apply, walked]

/-- A walk comes to the document that is read, with all lines behind it. -/
theorem walk_of_ok {document : Document} (read : ofLines release dialect all = .ok document) :
    ∃ cursor, walk release dialect all = (.ok document, cursor) ∧ cursor.IsSound all.length ∧
      cursor.position = all.length := by
  obtain ⟨⟨settled, number, rest⟩, before, behind⟩ := Except.bind_eq_ok_iff.mp read
  obtain ⟨found, given, same⟩ := Except.bind_eq_ok_iff.mp behind
  cases same
  obtain ⟨middle, walked, sound, here⟩ := document_walk_eq release before
  obtain ⟨cursor, ended, still, none⟩ :=
    (feature?_eq_ok_iff.1 given).ends_whole middle sound here
  rw [Line.length_readAll] at still
  refine ⟨cursor, ?_, still, ?_⟩
  · rw [walk, walked, ended]
  · have size := List.drop_eq_nil_iff.mp none
    rw [Line.length_readAll] at size
    exact Nat.le_antisymm still.position size

/-- A walk stops at the fault for which a document is refused. -/
theorem walk_of_error (failed : ofLines release dialect all = .error fault) :
    ∃ cursor, walk release dialect all = (.error (.fault fault), cursor) ∧
      cursor.IsSound all.length := by
  rcases Except.bind_eq_error_iff.mp failed with failed | ⟨⟨settled, number, rest⟩, before, failed⟩
  · obtain ⟨cursor, stopped, still⟩ :=
      (preamble_fails failed).bind .start (Cursor.isSound_start _) rfl
    exact ⟨cursor, by rw [walk, Walk.document, stopped], still⟩
  · replace failed := Except.eq_error_of_bind_pure failed
    obtain ⟨middle, walked, sound, here⟩ := document_walk_eq release before
    obtain ⟨cursor, stopped, still⟩ :=
      (feature?_eq_error_iff.1 failed).fails_whole middle sound here
    rw [Line.length_readAll] at still
    exact ⟨cursor, by rw [walk, walked, stopped], still⟩

/-- A walk over the lines of a text comes to what the text is read as, so no loop uses up its
turns. The cursor stays among the lines, each turn that does not leave its loop moves it on, and
it is behind the last line when a document was read. -/
structure Progresses (release : Release) (dialect : Dialect) (file source : Text) : Prop where
  ends : (walk release dialect (Text.lines source)).1 =
    (ofLines release dialect (Text.lines source)).mapError .fault
  sound : (walk release dialect (Text.lines source)).2.IsSound (Text.lines source).length
  consumed : ∀ document, Document.read release dialect file source = .ok document →
    (walk release dialect (Text.lines source)).2.position = (Text.lines source).length

theorem walk_progresses (release : Release) (dialect : Dialect) (file source : Text) :
    Progresses release dialect file source := by
  cases comes : ofLines release dialect (Text.lines source) with
  | error fault =>
      obtain ⟨cursor, stopped, sound⟩ := walk_of_error comes
      refine ⟨by rw [stopped, comes]; rfl, by rw [stopped]; exact sound, fun document read => ?_⟩
      rw [Document.read, comes] at read
      cases read
  | ok document =>
      obtain ⟨cursor, walked, sound, behind⟩ := walk_of_ok comes
      exact ⟨by rw [walked, comes]; rfl, by rw [walked]; exact sound,
        fun _ _ => by rw [walked]; exact behind⟩

/-- The tags of the rule are passed three times, and the cursor is moved back to them twice. -/
example :
    let cursor := (walk .newest .english
      (Text.lines (Text.word "Feature: f\n  Scenario: s\n  @t\n  Rule: r"))).2
    cursor.visited = [4, 3, 2, 3, 2, 3, 2, 1] ∧
      cursor.turns.filter (fun turn => turn.loop ≠ .tags) =
        [⟨.rules, 2, 4⟩, ⟨.feature, 1, 2⟩] := by
  decide

end Document

end Gherkin
