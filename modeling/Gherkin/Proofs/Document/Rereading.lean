import Gherkin.Proofs.Document.StepRereading

/-!
# Rendered documents are read back

What a spelled feature is rendered as is read as a feature with the same branch but for
the lines of its doc strings, by every release that admits it. What ends a list of parts is
the header of another construct or the end of the document, with the tags above it.
-/

namespace Gherkin

open Layout Line

namespace Document

variable {dialect : Dialect} {release : Release} {margin : Nat → Text} {width : Text → Nat}
  {depth : Nat} {lines all rest : List Line} {constructs : List Construct}

/-! ## Parts with headers -/

/-- A branch is laid out below a gap, beginning with the header of one of some constructs. -/
structure IsHeaded (dialect : Dialect) (constructs : List Construct) (branch : Branch Origin) :
    Prop where
  setOff : isSetOff branch.kind = true
  opening : ∃ header names, Header.Spelled dialect header ∧ header.construct ∈ constructs ∧
    header.construct ≠ .step ∧ (∀ name ∈ names, IsTagName name) ∧
    ∀ width depth, ∃ more, items width depth branch = headed depth names header.heading ++ more

theorem below_headed {child : Branch Origin} (headed : IsHeaded dialect constructs child)
    (rest : List (Branch Origin)) :
    below width depth (child :: rest) =
      .gap :: (items width depth child ++ below width depth rest) := by
  have setOff := headed.setOff
  have inline : isInline child.kind = false := by
    cases kind : child.kind <;> rw [kind] at setOff <;> first | rfl | cases setOff
  rw [below, inline, if_neg Bool.false_ne_true, setOff, if_pos rfl, List.append_assoc]
  rfl

theorem Background.Spelled.isHeaded {background : Background}
    (spelled : background.Spelled dialect) :
    IsHeaded dialect [.background] background.branch :=
  ⟨rfl, background.header, [], spelled.header, by simp [spelled.construct],
    by simp [spelled.construct], by simp, fun _ _ => ⟨_, background.items_branch⟩⟩

theorem Examples.Spelled.isHeaded {examples : Examples} (spelled : examples.Spelled dialect) :
    IsHeaded dialect [.examples] examples.branch :=
  ⟨rfl, examples.header, _, spelled.header, by simp [spelled.construct],
    by simp [spelled.construct], List.forall_mem_map.mpr spelled.tags,
    fun _ _ => ⟨_, examples.items_branch⟩⟩

theorem Scenario.Spelled.isHeaded {scenario : Scenario} (spelled : scenario.Spelled dialect) :
    IsHeaded dialect [.scenario, .outline] scenario.branch := by
  refine ⟨?_, scenario.header, _, spelled.header, by simpa using spelled.construct, ?_,
    List.forall_mem_map.mpr spelled.tags, fun _ _ => ⟨_, scenario.items_branch⟩⟩
  · rw [kind_scenario_branch]
    split <;> rfl
  · rcases spelled.construct with construct | construct <;> simp [construct]

theorem Rule.Spelled.isHeaded {rule : Rule} (spelled : rule.Spelled dialect) :
    IsHeaded dialect [.rule] rule.branch :=
  ⟨rfl, rule.header, _, spelled.header, by simp [spelled.construct], by simp [spelled.construct],
    List.forall_mem_map.mpr spelled.tags, fun _ _ => ⟨_, rule.items_branch⟩⟩

/-- Parts with headers are written one below the other, with blank lines between them. -/
theorem written_below_cons {child : Branch Origin} {children : List (Branch Origin)}
    (headed : IsHeaded dialect constructs child)
    (written : Written dialect margin (below width depth (child :: children)) lines) :
    ∃ here behind, Written dialect margin (items width depth child) here ∧
      Written dialect margin (below width depth children) behind ∧
      ∀ rest, significant (lines ++ rest) = significant (here ++ (behind ++ rest)) := by
  rw [below_headed headed] at written
  obtain ⟨front, both, rfl, empty, written⟩ := written.of_gap
  obtain ⟨here, behind, rfl, first, others⟩ := written.exists_append
  refine ⟨here, behind, first, others, fun rest => ?_⟩
  rw [List.append_assoc, List.append_assoc]
  exact significant_append (fun line inside => by simp [isIgnorable, empty line inside]) _

section Reading

variable (regular : dialect.Regular) (blank : ∀ depth, Text.IsBlank (margin depth))
  (newlineFree : ∀ depth, '\n' ∉ margin depth)

include regular blank

/-- Some parts in front of a boundary make a boundary. -/
theorem boundary_below {children : List (Branch Origin)}
    (headed : ∀ child ∈ children, IsHeaded dialect constructs child)
    (written : Written dialect margin (below width depth children) lines)
    {ends : List Construct} (boundary : Grammar.Boundary ends rest) :
    Grammar.Boundary (constructs ++ ends) (lines ++ rest) := by
  cases children with
  | nil =>
      cases written
      exact boundary.mono (List.subset_append_right _ _)
  | cons child children =>
      obtain ⟨here, behind, first, _, same⟩ :=
        written_below_cons (headed child List.mem_cons_self) written
      obtain ⟨header, names, spelled, member, other, tags, opening⟩ :=
        (headed child List.mem_cons_self).opening
      obtain ⟨more, whole⟩ := opening width depth
      obtain ⟨above, below, rfl, first, _⟩ := (whole ▸ first).exists_append
      have boundary := boundary_headed regular blank spelled other tags first
        (below ++ (behind ++ rest))
      refine (boundary.mono (by simp [member])).of_significant ?_
      rw [same, List.append_assoc]

/-! ## Examples -/

include newlineFree

omit regular newlineFree in
/-- The table of an examples block is read back, or there is none. -/
theorem reads_exampleRows {rows : List Row} (spelled : Rows.Spelled rows)
    (written : Written dialect margin (table width depth (rows.map Row.values)) lines)
    (boundary : Grammar.Boundary constructs rest) :
    (∀ line ∈ (significant (lines ++ rest)).head?, line.kind ≠ .other) ∧
      ∃ found left, Grammar.Rows none (significant (lines ++ rest)) found left ∧
        significant left = significant rest ∧
        List.Forall₂ Branch.Rereads (found.map Row.branch) (rows.map Row.branch) := by
  have ends : ∀ line ∈ (significant rest).head?, line.kind ≠ .row := by
    intro line first
    rcases boundary.head line first with kind | ⟨_, _, _, kind⟩ <;> simp [kind]
  by_cases empty : rows = []
  · subst empty
    cases written
    have ended : ∀ line ∈ (significant (significant rest)).head?, line.kind ≠ .row := by
      rwa [significant_significant]
    obtain ⟨left, read, same⟩ := rows_stop none ended
    rw [significant_significant] at same
    exact ⟨boundary.ne_other, [], left, read, same, .nil⟩
  · obtain ⟨filled, rows, left, read, same, again⟩ := reads_tableRows blank spelled written ends
    obtain ⟨line, below, rfl, isRow⟩ := filled empty
    rw [List.cons_append, significant_cons _ (by simp [isIgnorable, isRow])]
    refine ⟨?_, rows, left, read, same, again⟩
    rintro _ ⟨⟩
    simp [isRow]

omit regular blank newlineFree in
theorem rereads_tags {found tags : List Tag} (same : found.map Tag.name = tags.map Tag.name) :
    List.Forall₂ Branch.Rereads (found.map Tag.branch) (tags.map Tag.branch) :=
  Branch.forall₂_map_of_eq same fun _ _ same =>
    Branch.rereads_node (congrArg Element.tag same) .nil

theorem reads_blocks {blocks : List Examples} (spelled : ∀ block ∈ blocks, block.Spelled dialect)
    {allowed : Bool} (admitted : blocks ≠ [] → allowed = true)
    (written : Written dialect margin (below width depth (blocks.map Examples.branch)) lines)
    (boundary : Grammar.Boundary constructs rest) (apart : .examples ∉ constructs)
    (same : significant all = significant (lines ++ rest)) :
    ∃ found left, Grammar.Blocks allowed all found left ∧ significant left = significant rest ∧
      List.Forall₂ Branch.Rereads (found.map Examples.branch) (blocks.map Examples.branch) := by
  induction blocks generalizing lines all with
  | nil =>
      cases written
      obtain ⟨found, next, read, _, header⟩ := (boundary.of_significant same).read
      refine ⟨[], all, .done read fun line first keyword name kind => ?_, same, .nil⟩
      obtain ⟨construct, member, _, _, other⟩ := header line first
      rw [kind] at other
      cases other
      exact apart member
  | cons block blocks ih =>
      obtain ⟨here, later⟩ := List.forall_mem_cons.mp spelled
      obtain ⟨first, behind, itself, others, skipped⟩ := written_below_cons here.isHeaded written
      rw [block.items_branch] at itself
      obtain ⟨above, tableLines, rfl, opening, table⟩ := itself.exists_append
      have next := boundary_below regular blank
        (List.forall_mem_map.mpr fun block member => (later block member).isHeaded) others boundary
      obtain ⟨ends, rows, left, read, final, again⟩ :=
        reads_exampleRows blank here.rows table next
      obtain ⟨tags, line, below, opened⟩ := opens_headed regular blank newlineFree here.header
        here.construct nofun (List.forall_mem_map.mpr here.tags) opening
        ((same.trans (skipped rest)).trans (by rw [List.append_assoc])) ends
      obtain ⟨more, last, blocks, same, ended⟩ := ih later (fun _ => admitted nofun) others final
      refine ⟨_, last, .block (admitted nofun) opened.tags opened.kind ?_ blocks, same,
        .cons (Branch.rereads_node (congrArg Element.example opened.heading)
          (List.rel_append (rereads_tags opened.names) again)) ended⟩
      change Grammar.Rows none (significant _) rows left
      rwa [opened.rest, significant_significant]

/-! ## Tests -/

omit regular blank newlineFree in
theorem Scenario.rereads {found original : Scenario}
    (heading : found.header.heading = original.header.heading)
    (construct : found.header.construct = original.header.construct)
    (tags : List.Forall₂ Branch.Rereads (found.tags.map Tag.branch) (original.tags.map Tag.branch))
    (steps : List.Forall₂ Branch.Rereads (found.steps.map Step.branch)
      (original.steps.map Step.branch))
    (blocks : List.Forall₂ Branch.Rereads (found.examples.map Examples.branch)
      (original.examples.map Examples.branch)) :
    found.branch.Rereads original.branch := by
  have outline := isOutline_congr construct (by simpa using blocks.length_eq)
  unfold Scenario.branch
  rw [outline, heading]
  split
  · exact Branch.rereads_node rfl (List.rel_append (List.rel_append tags steps) blocks)
  · exact Branch.rereads_node rfl (List.rel_append tags steps)

/-- Steps below a header are read back, and end its description. -/
theorem reads_headedSteps {header : Header} {steps : List Step} {names : List Text}
    (spelled : header.Spelled dialect) {construct : Construct}
    (named : header.construct = construct) (other : construct ≠ .step)
    (tags : ∀ name ∈ names, IsTagName name) (stepsSpelled : ∀ step ∈ steps, step.Spelled dialect)
    (written : Written dialect margin (headed depth names header.heading ++
      below width (depth + 1) (steps.map Step.branch)) lines)
    (boundary : Grammar.Boundary constructs rest)
    (same : significant all = significant (lines ++ rest)) :
    ∃ found line below, (∃ rest, Opens construct header.heading names all found line below rest) ∧
      ∃ read left, Grammar.Steps
        (Document.header line construct header.heading.keyword header.heading.name below).rest
        read left ∧
        significant left = significant rest ∧
        List.Forall₂ Branch.Rereads (read.map Step.branch) (steps.map Step.branch) := by
  obtain ⟨above, stepLines, rfl, opening, steps⟩ := written.exists_append
  have ends : ∀ line ∈ (significant (stepLines ++ rest)).head?, line.kind ≠ .other := by
    intro line first
    rcases head_steps regular blank stepsSpelled steps boundary line first with
      ⟨_, _, kind⟩ | kind | ⟨_, _, _, kind⟩ <;> simp [kind]
  obtain ⟨found, line, below, opened⟩ := opens_headed regular blank newlineFree spelled named other
    tags opening (same.trans (by rw [List.append_assoc])) ends
  refine ⟨found, line, below, ⟨_, opened⟩, ?_⟩
  exact reads_steps regular blank stepsSpelled steps boundary opened.significant_rest

theorem reads_test {test : Scenario} (spelled : test.Spelled dialect)
    (admitted : test.Admitted release)
    (written : Written dialect margin (items width depth test.branch) lines)
    (boundary : Grammar.Boundary constructs rest) (apart : .examples ∉ constructs)
    (same : significant all = significant (lines ++ rest)) :
    ∃ found line below read left, Grammar.Tags all found (line :: below) ∧
      line.kind = .header test.header.construct test.header.keyword test.header.name ∧
      Grammar.Test release found line test.header.construct test.header.keyword test.header.name
        below read left ∧
      significant left = significant rest ∧ read.branch.Rereads test.branch := by
  rw [test.items_branch, ← List.append_assoc] at written
  obtain ⟨above, blockLines, rfl, opening, blocks⟩ := written.exists_append
  have other : test.header.construct ≠ .step := by
    rcases spelled.construct with construct | construct <;> simp [construct]
  have next := boundary_below regular blank
    (List.forall_mem_map.mpr fun block member => (spelled.examples block member).isHeaded)
    blocks boundary
  obtain ⟨found, line, below, ⟨_, opened⟩, steps, behind, read, left, stepsAgain⟩ :=
    reads_headedSteps regular blank newlineFree spelled.header rfl other
      (List.forall_mem_map.mpr spelled.tags) spelled.steps opening next
      (same.trans (by rw [List.append_assoc]))
  have allowed : test.examples ≠ [] →
      (test.header.construct == .outline || release.hasScenarioExamples) = true := by
    intro some
    rcases admitted with known | outline | none
    · simp [known]
    · simp [outline]
    · exact absurd none some
  obtain ⟨more, last, blocksRead, final, blocksAgain⟩ := reads_blocks regular blank newlineFree
    spelled.examples allowed blocks boundary apart left
  exact ⟨found, line, below, _, last, opened.tags, opened.kind, .intro read blocksRead, final,
    Scenario.rereads opened.heading rfl (rereads_tags opened.names) stepsAgain blocksAgain⟩

theorem reads_tests {tests : List Scenario} (spelled : ∀ test ∈ tests, test.Spelled dialect)
    (admitted : ∀ test ∈ tests, test.Admitted release)
    (written : Written dialect margin (below width depth (tests.map Scenario.branch)) lines)
    (boundary : Grammar.Boundary [.rule] rest)
    (same : significant all = significant (lines ++ rest)) :
    ∃ found left, Grammar.Tests release all found left ∧ significant left = significant rest ∧
      List.Forall₂ Branch.Rereads (found.map Scenario.branch) (tests.map Scenario.branch) := by
  induction tests generalizing lines all with
  | nil =>
      cases written
      obtain ⟨found, next, read, ended, header⟩ := (boundary.of_significant same).read
      cases next with
      | nil =>
          obtain ⟨rfl, nothing⟩ := ended rfl
          exact ⟨[], [], .done read, nothing.symm.trans same, .nil⟩
      | cons line below =>
          obtain ⟨construct, member, keyword, name, kind⟩ := header line rfl
          cases List.mem_singleton.mp member
          exact ⟨[], all, .rule read kind, same, .nil⟩
  | cons test tests ih =>
      obtain ⟨here, later⟩ := List.forall_mem_cons.mp spelled
      obtain ⟨admittedHere, admitted⟩ := List.forall_mem_cons.mp admitted
      obtain ⟨first, behind, itself, others, skipped⟩ := written_below_cons here.isHeaded written
      have next := boundary_below regular blank
        (List.forall_mem_map.mpr fun test member => (later test member).isHeaded) others boundary
      obtain ⟨found, line, below, read, left, tags, kind, testRead, final, again⟩ :=
        reads_test regular blank newlineFree here admittedHere itself next (by simp)
          (same.trans (skipped rest))
      obtain ⟨more, last, testsRead, ended, testsAgain⟩ := ih later admitted others final
      exact ⟨_, last, .test tags kind here.construct testRead testsRead, ended,
        .cons again testsAgain⟩

/-! ## Bodies, rules and features -/

theorem reads_body {body : Body} (spelled : body.Spelled dialect) (admitted : body.Admitted release)
    (written : Written dialect margin (below width depth body.branches) lines)
    (boundary : Grammar.Boundary [.rule] rest)
    (same : significant all = significant (lines ++ rest)) :
    ∃ found left, Grammar.Body release all found left ∧ significant left = significant rest ∧
      List.Forall₂ Branch.Rereads found.branches body.branches := by
  obtain ⟨background, tests⟩ := body
  rw [Body.below_branches] at written
  obtain ⟨above, testLines, rfl, first, others⟩ := written.exists_append
  cases background with
  | none =>
      cases first
      obtain ⟨found, left, read, final, again⟩ :=
        reads_tests regular blank newlineFree spelled.tests admitted others boundary same
      exact ⟨⟨none, found⟩, left, .tests read, final, again⟩
  | some background =>
      have here := spelled.background background rfl
      obtain ⟨backgroundLines, behind, itself, ended, skipped⟩ :=
        written_below_cons here.isHeaded first
      cases ended
      rw [background.items_branch] at itself
      have next := boundary_below regular blank
        (List.forall_mem_map.mpr fun test member => (spelled.tests test member).isHeaded)
        others boundary
      obtain ⟨found, line, below, ⟨_, opened⟩, steps, left, read, stepsLeft, stepsAgain⟩ :=
        reads_headedSteps regular blank newlineFree here.header here.construct nofun (by simp)
          here.steps itself next (same.trans (by rw [List.append_assoc, skipped]; rfl))
      cases List.map_eq_nil_iff.mp opened.names
      obtain ⟨tests, last, testsRead, final, again⟩ :=
        reads_tests regular blank newlineFree spelled.tests admitted others boundary stepsLeft
      refine ⟨_, last, .background opened.tags opened.kind read testsRead, final, ?_⟩
      exact .cons (Branch.rereads_node (congrArg Element.background opened.heading) stepsAgain) again

omit newlineFree in
/-- The parts of a rule or a feature end its description. -/
theorem body_ne_other {body : Body} (spelled : body.Spelled dialect)
    (written : Written dialect margin (below width depth body.branches) lines)
    (boundary : Grammar.Boundary constructs rest) :
    ∀ line ∈ (significant (lines ++ rest)).head?, line.kind ≠ .other := by
  rw [Body.below_branches] at written
  obtain ⟨above, testLines, rfl, background, tests⟩ := written.exists_append
  have next := boundary_below regular blank
    (List.forall_mem_map.mpr fun test member => (spelled.tests test member).isHeaded)
    tests boundary
  have headed : ∀ child ∈ body.background.toList.map Background.branch,
      IsHeaded dialect [.background] child :=
    List.forall_mem_map.mpr fun background member =>
      (spelled.background background (by simpa using member)).isHeaded
  rw [List.append_assoc]
  exact (boundary_below regular blank headed background next).ne_other

theorem reads_rules {rules : List Rule} (spelled : ∀ rule ∈ rules, rule.Spelled dialect)
    (admitted : ∀ rule ∈ rules, rule.Admitted release)
    (written : Written dialect margin (below width depth (rules.map Rule.branch)) lines)
    (same : significant all = significant lines) :
    ∃ found, Grammar.Rules release all found ∧
      List.Forall₂ Branch.Rereads (found.map Rule.branch) (rules.map Rule.branch) := by
  induction rules generalizing lines all with
  | nil =>
      cases written
      exact ⟨[], .done (Grammar.Tags.done.of_significant same), .nil⟩
  | cons rule rules ih =>
      obtain ⟨here, later⟩ := List.forall_mem_cons.mp spelled
      obtain ⟨admittedHere, admitted⟩ := List.forall_mem_cons.mp admitted
      obtain ⟨first, behind, itself, others, skipped⟩ := written_below_cons here.isHeaded written
      have next : Grammar.Boundary [.rule] (behind ++ []) := boundary_below regular blank
        (List.forall_mem_map.mpr fun rule member => (later rule member).isHeaded) others
        (show Grammar.Boundary [] [] from .nil)
      rw [List.append_nil] at next
      have whole : significant lines = significant (first ++ behind) := by
        simpa using skipped []
      rw [rule.items_branch] at itself
      obtain ⟨above, bodyLines, rfl, opening, body⟩ := itself.exists_append
      obtain ⟨found, line, below, opened⟩ := opens_headed regular blank newlineFree here.header
        here.construct nofun (List.forall_mem_map.mpr here.tags) opening
        ((same.trans whole).trans (by rw [List.append_assoc]))
        (body_ne_other regular blank here.body body next)
      obtain ⟨inner, left, read, final, bodyAgain⟩ := reads_body regular blank newlineFree here.body
        admittedHere.body body next opened.significant_rest
      obtain ⟨more, rulesRead, again⟩ := ih later admitted others final
      have tagged : release.hasRuleTags = true ∨ found = [] := by
        refine admittedHere.tags.imp_right fun none => ?_
        have names := opened.names
        rw [none] at names
        exact List.map_eq_nil_iff.mp names
      refine ⟨_, .rule admittedHere.rules opened.tags opened.kind tagged read rulesRead,
        .cons (Branch.rereads_node (congrArg Element.rule opened.heading) ?_) again⟩
      exact List.rel_append (rereads_tags opened.names) bodyAgain

/-- A rendered feature is read back by a release that admits it, but for the lines of its doc
strings. -/
theorem reads_feature {feature : Feature} (spelled : feature.Spelled dialect)
    (admitted : feature.Admitted release)
    (written : Written dialect margin (items width depth feature.branch) lines)
    (same : significant all = significant lines) :
    ∃ found, Grammar.Feature release dialect.code all (some found) ∧
      found.branch.Rereads feature.branch := by
  rw [feature.items_branch] at written
  obtain ⟨above, parts, rfl, opening, inside⟩ := written.exists_append
  obtain ⟨bodyLines, ruleLines, rfl, body, rules⟩ := inside.exists_append
  have next : Grammar.Boundary [.rule] (ruleLines ++ []) := boundary_below regular blank
    (List.forall_mem_map.mpr fun rule member => (spelled.rules rule member).isHeaded) rules
    (show Grammar.Boundary [] [] from .nil)
  rw [List.append_nil] at next
  obtain ⟨found, line, below, opened⟩ := opens_headed regular blank newlineFree spelled.header
    spelled.construct nofun (List.forall_mem_map.mpr spelled.tags) opening same
    (body_ne_other regular blank spelled.body body next)
  obtain ⟨inner, left, read, final, bodyAgain⟩ := reads_body regular blank newlineFree spelled.body
    admitted.body body next opened.significant_rest
  obtain ⟨more, rulesRead, rulesAgain⟩ :=
    reads_rules regular blank newlineFree spelled.rules admitted.rules rules final
  refine ⟨_, .some opened.tags opened.kind read rulesRead, Branch.rereads_node ?_ ?_⟩
  · rw [opened.heading, spelled.language]
    rfl
  · exact List.rel_append (rereads_tags opened.names) (List.rel_append bodyAgain rulesAgain)

end Reading

end Document

end Gherkin
