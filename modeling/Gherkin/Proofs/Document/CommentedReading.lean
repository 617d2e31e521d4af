import Gherkin.Proofs.Branch
import Gherkin.Proofs.Document.Branch
import Gherkin.Proofs.Document.Commented
import Gherkin.Proofs.Line.Tags
import Gherkin.Proofs.Text.Description

/-!
# Reading lines with comments among them

Each reader finds the same content with comments among its lines. The relation between the
lines and those with comments is kept by every reader: it holds of the lines in front of a
construct and of the lines behind it.
-/

namespace Gherkin

open Document Line

theorem Document.Scenario.content_branch_congr {found original : Scenario}
    (heading : found.header.heading = original.header.heading)
    (construct : found.header.construct = original.header.construct)
    (tags : (found.tags.map Tag.branch).map Branch.content =
      (original.tags.map Tag.branch).map Branch.content)
    (steps : (found.steps.map Step.branch).map Branch.content =
      (original.steps.map Step.branch).map Branch.content)
    (blocks : (found.examples.map Examples.branch).map Branch.content =
      (original.examples.map Examples.branch).map Branch.content) :
    found.branch.content = original.branch.content := by
  have outline := isOutline_congr construct (by simpa using congrArg List.length blocks)
  rw [Scenario.branch, Scenario.branch, outline, heading]
  split
  · refine Branch.content_node_eq _ ?_
    simp only [List.map_append, tags, steps, blocks]
  · refine Branch.content_node_eq _ ?_
    rw [List.map_append, List.map_append, tags, steps]

namespace Grammar

variable {dialect : Dialect} {release : Release} {spot : Spot} {lines others rest : List Line}

/-! ## Tags -/

/-- What stands behind some tags means something. -/
theorem Tags.significant_rest {found : List Tag} (read : Tags lines found rest) :
    significant rest = rest := by
  induction read with
  | done => rfl
  | skip _ _ ih => exact ih
  | line _ _ _ ih => exact ih
  | stop kept => exact significant_cons _ kept

theorem Tags.commented {found : List Tag} (read : Tags lines found rest)
    (commented : Commented dialect spot lines others) (outside : spot.IsOutside) :
    ∃ again left, Tags others again left ∧ again.map Tag.name = found.map Tag.name ∧
      Commented dialect .elsewhere rest left := by
  induction commented generalizing found rest with
  | nil =>
      cases read
      exact ⟨[], [], .done, rfl, .nil⟩
  | insert _ note _ _ ih =>
      obtain ⟨again, left, readAgain, names, behind⟩ := ih read outside
      exact ⟨again, left, .skip note.isIgnorable readAgain, names, behind⟩
  | @keep spot line other lines others alike below ih =>
      cases read with
      | skip ignorable read =>
          obtain ⟨again, left, readAgain, names, behind⟩ :=
            ih read (outside.after (passes_isIgnorable.closed ignorable))
          exact ⟨again, left, .skip (alike.isIgnorable.trans ignorable) readAgain, names, behind⟩
      | line kind here read =>
          obtain ⟨again, left, readAgain, names, behind⟩ :=
            ih read (outside.after (by simp [kind]))
          obtain ⟨valid, rfl⟩ := lineTags_eq_ok_iff.1 here
          refine ⟨_, left, .line (alike.kind.trans kind)
            (lineTags_eq_ok_iff.2 ⟨alike.words ▸ valid, rfl⟩) readAgain, ?_, behind⟩
          rw [List.map_append, List.map_append, names, alike.words, List.map_map, List.map_map]
          rfl
      | stop kept notTags =>
          have keptAgain := alike.isIgnorable.trans kept
          exact ⟨[], other :: others, .stop keptAgain (alike.kind ▸ notTags), rfl,
            (Commented.keep alike below).elsewhere outside⟩

/-- Tags in front of a header are read there again. -/
theorem Tags.commented_cons {found : List Tag} {line : Line} {below : List Line}
    (read : Tags lines found (line :: below)) (commented : Commented dialect spot lines others)
    (outside : spot.IsOutside) {construct : Construct} {keyword name : Text}
    (kind : line.kind = .header construct keyword name) :
    ∃ again other left, Tags others again (other :: left) ∧
      again.map Tag.name = found.map Tag.name ∧ other.kind = .header construct keyword name ∧
      Commented dialect .elsewhere below left := by
  obtain ⟨again, front, readAgain, names, behind⟩ := read.commented commented outside
  obtain ⟨other, left, whole, alike, later⟩ :=
    behind.exists_cons Spot.isOutside_elsewhere read.significant_rest
  rw [readAgain.significant_rest] at whole
  have stays : Spot.elsewhere.after line = .elsewhere := by simp [Spot.after, kind]
  exact ⟨again, other, left, whole ▸ readAgain, names, alike.kind.trans kind, stays ▸ later⟩

/-- Where there are no tags up to the end, there are none among comments. -/
theorem Tags.commented_nil (read : Tags lines [] [])
    (commented : Commented dialect spot lines others) (outside : spot.IsOutside) :
    Tags others [] [] := by
  obtain ⟨again, left, readAgain, names, behind⟩ := read.commented commented outside
  obtain rfl : again = [] := List.map_eq_nil_iff.mp names
  have none := behind.significant_eq_nil Spot.isOutside_elsewhere rfl
  rw [readAgain.significant_rest] at none
  exact none ▸ readAgain

/-! ## Tables -/

theorem Rows.eq_of_not_continuesTable {width : Option Nat} {found : List Row}
    (read : Rows width lines found rest) (ended : ¬ ContinuesTable lines) :
    found = [] ∧ rest = lines.dropWhile fun line => line.kind == .comment := by
  induction read with
  | done => exact ⟨rfl, rfl⟩
  | @row _ line lines _ _ kind =>
      refine absurd ⟨line, ?_, kind⟩ ended
      rw [List.dropWhile_cons_of_neg (by simp [kind])]
      rfl
  | @comment _ line lines _ _ kind _ ih =>
      have passed : (line :: lines).dropWhile (fun line => line.kind == .comment) =
          lines.dropWhile fun line => line.kind == .comment :=
        List.dropWhile_cons_of_pos (by simp [kind])
      rw [ContinuesTable, passed] at ended
      rw [passed]
      exact ih ended
  | stop _ notComment => exact ⟨rfl, (List.dropWhile_cons_of_neg (by simp [notComment])).symm⟩

theorem Rows.commented {width : Option Nat} {found : List Row}
    (read : Rows width lines found rest) (commented : Commented dialect .belowRow lines others) :
    ∃ again left, Rows width others again left ∧
      (again.map Row.branch).map Branch.content = (found.map Row.branch).map Branch.content ∧
      Commented dialect .elsewhere rest left := by
  generalize here : Spot.belowRow = spot at commented
  induction commented generalizing width found rest with
  | nil =>
      cases read
      exact ⟨[], [], .done, rfl, .nil⟩
  | @insert _ note lines others outside isNote apart later ih =>
      by_cases comment : note.kind = .comment
      · obtain ⟨again, left, readAgain, values, behind⟩ := ih read here
        exact ⟨again, left, .comment comment readAgain, values, behind⟩
      · -- The table ends here, and nothing more of it follows.
        obtain ⟨rfl, rfl⟩ := read.eq_of_not_continuesTable (apart comment here.symm)
        have notRow : note.kind ≠ .row := by
          rcases isNote with kind | ⟨code, kind⟩ <;> simp [kind]
        refine ⟨[], note :: others, .stop notRow comment, rfl, ?_⟩
        exact ((Commented.insert outside isNote apart later).dropComments outside).elsewhere outside
  | @keep _ line other lines others alike later ih =>
      subst here
      cases read with
      | row kind fits read =>
          have below : Spot.belowRow = Spot.belowRow.after line := by simp [Spot.after, kind]
          obtain ⟨again, left, readAgain, values, behind⟩ := ih read below
          rw [← alike.length_cells] at fits readAgain
          refine ⟨_, left, .row (alike.kind.trans kind) fits readAgain, ?_, behind⟩
          have same : (⟨other.place, Cell.split other.raw⟩ : Row).branch.content =
              (⟨line.place, Cell.split line.raw⟩ : Row).branch.content := by
            rw [Row.branch, Row.branch, alike.values]
            exact Branch.content_node_eq _ rfl
          simp only [List.map_cons, same, values]
      | comment kind read =>
          have below : Spot.belowRow = Spot.belowRow.after line := by simp [Spot.after, kind]
          obtain ⟨again, left, readAgain, values, behind⟩ := ih read below
          exact ⟨again, left, .comment (alike.kind.trans kind) readAgain, values, behind⟩
      | stop notRow notComment =>
          refine ⟨[], other :: others, ?_, rfl, ?_⟩
          · exact .stop (alike.kind ▸ notRow) (alike.kind ▸ notComment)
          · exact (Commented.keep alike later).elsewhere Spot.isOutside_belowRow

/-! ## Doc strings -/

theorem Content.commented {fence : Fence} {indent : Nat} {found : List Text}
    (read : Content fence indent lines found rest)
    (commented : Commented dialect (.inside fence) lines others) :
    ∃ left, Content fence indent others found left ∧ Commented dialect .elsewhere rest left := by
  induction read generalizing others with
  | close closed =>
      cases commented with
      | insert outside => exact absurd rfl (outside fence)
      | keep alike later =>
          rw [Spot.after, if_pos closed] at later
          exact ⟨_, .close (alike.trimmed.trans closed), later⟩
  | line apart _ ih =>
      cases commented with
      | insert outside => exact absurd rfl (outside fence)
      | keep alike later =>
          rw [Spot.after, if_neg apart] at later
          obtain ⟨left, readAgain, behind⟩ := ih later
          rw [← alike.inside fence rfl apart]
          exact ⟨left, .line (alike.trimmed ▸ apart) readAgain, behind⟩

/-! ## Steps and their arguments -/

theorem Argument.commented {found : Option Document.Argument} (read : Argument lines found rest)
    (commented : Commented dialect spot lines others) (outside : spot.IsOutside) :
    ∃ again left, Argument others again left ∧
      (again.map Argument.branch).map Branch.content =
        (found.map Argument.branch).map Branch.content ∧
      Commented dialect .elsewhere rest left := by
  cases read with
  | none skipped ends =>
      subst skipped
      have endsAgain := commented.head_kind outside
        (fun kind => kind ≠ .row ∧ ∀ fence type, kind ≠ .fence fence type) ends
      exact ⟨Option.none, _, .none rfl endsAgain, rfl, commented.significant outside⟩
  | table skipped kind rows =>
      obtain ⟨other, behind, whole, alike, _⟩ := commented.exists_cons outside skipped
      rw [← skipped] at rows
      obtain ⟨again, left, readAgain, same, later⟩ := rows.commented (commented.belowRow outside)
      rw [whole] at readAgain
      refine ⟨_, left, .table whole (alike.kind.trans kind) readAgain, congrArg some ?_, later⟩
      exact Branch.content_node_eq _ same
  | @docString line below fence type found _ skipped kind inside =>
      obtain ⟨other, behind, whole, alike, later⟩ := commented.exists_cons outside skipped
      have opened : Spot.elsewhere.after line = .inside fence := by simp [Spot.after, kind]
      obtain ⟨left, readAgain, behind⟩ := inside.commented (opened ▸ later)
      rw [← alike.indent (by simp [kind])] at readAgain
      refine ⟨_, left, .docString whole (alike.kind.trans kind) readAgain, ?_, behind⟩
      exact congrArg some (Branch.content_node_eq _ rfl)

theorem Steps.commented {found : List Step} (read : Steps lines found rest)
    (commented : Commented dialect spot lines others) (outside : spot.IsOutside) :
    ∃ again left, Steps others again left ∧
      (again.map Step.branch).map Branch.content = (found.map Step.branch).map Branch.content ∧
      Commented dialect .elsewhere rest left := by
  induction read generalizing spot others with
  | done skipped ends =>
      subst skipped
      have endsAgain := commented.head_kind outside
        (fun kind => ∀ keyword text, kind ≠ .step keyword text) ends
      exact ⟨[], _, .done rfl endsAgain, rfl, commented.significant outside⟩
  | @step lines line below keyword text argument next more rest skipped kind given _ ih =>
      obtain ⟨other, behind, whole, alike, later⟩ := commented.exists_cons outside skipped
      have stays : Spot.elsewhere.after line = .elsewhere := by simp [Spot.after, kind]
      obtain ⟨found, front, givenAgain, same, later⟩ :=
        given.commented (stays ▸ later) Spot.isOutside_elsewhere
      obtain ⟨again, left, readAgain, sameMore, ended⟩ := ih later Spot.isOutside_elsewhere
      refine ⟨_, left, .step whole (alike.kind.trans kind) givenAgain readAgain, ?_, ended⟩
      simp only [List.map_cons, sameMore]
      refine congrArg (· :: _) (Branch.content_node_eq _ ?_)
      simp only [← Option.toList_map, same]

/-! ## Headers -/

/-- A description has the same lines, but for the blanks at their ends. -/
theorem descriptionLines_commented (commented : Commented dialect spot lines others)
    (outside : spot.IsOutside) :
    List.Forall₂ (Alike dialect .elsewhere) (descriptionLines lines) (descriptionLines others) := by
  refine strip_rel (fun line other alike => by rw [alike.kind]) ?_
  induction commented with
  | nil => exact .nil
  | @insert _ note lines others _ isNote _ _ ih =>
      have dropped : ¬ (note.kind == .other || note.kind == .blank) = true := by
        rcases isNote with kind | ⟨code, kind⟩ <;> simp [kind]
      rw [List.takeWhile_cons_of_pos (passes_continuesDescription.note isNote),
        List.filter_cons, if_neg dropped]
      exact ih outside
  | @keep spot line other lines others alike later ih =>
      have same := passes_continuesDescription.same alike.kind
      by_cases continues : line.continuesDescription = true
      · have below := ih (outside.after (passes_continuesDescription.closed continues))
        rw [List.takeWhile_cons_of_pos continues,
          List.takeWhile_cons_of_pos (same.trans continues), List.filter_cons, List.filter_cons,
          alike.kind]
        split
        · exact .cons alike.elsewhere below
        · exact below
      · rw [List.takeWhile_cons_of_neg continues, List.takeWhile_cons_of_neg (same ▸ continues)]
        exact .nil

/-- A header and what is below its description are read again. -/
theorem header_commented (line other : Line) (construct : Construct) (keyword name : Text)
    (commented : Commented dialect spot lines others) (outside : spot.IsOutside) :
    Commented dialect .elsewhere (header line construct keyword name lines).rest
        (header other construct keyword name others).rest ∧
      (header other construct keyword name others).value.heading =
        (header line construct keyword name lines).value.heading := by
  refine ⟨commented.dropWhile passes_continuesDescription outside, ?_⟩
  obtain ⟨ends, classified, classifiedAgain⟩ :=
    Alike.all (descriptionLines_commented commented outside)
  have same : Description.trim (Text.unlines ((descriptionLines others).map Line.raw)) =
      Description.trim (Text.unlines ((descriptionLines lines).map Line.raw)) := by
    apply Description.trim_unlines_congr ends
    · exact List.forall_mem_map.mpr fun line member => (classifiedAgain line member).2
    · exact List.forall_mem_map.mpr fun line member => (classified line member).2
    · intro last found blank
      rw [List.getLast?_map, Option.mem_def, Option.map_eq_some_iff] at found
      obtain ⟨line, found, rfl⟩ := found
      have written := (isStripped_strip (fun line : Line => line.kind == .blank) _).2 line found
      have kind := (classified line (List.mem_of_getLast? found)).1
      rw [Line.trimmed, Text.trim_eq_nil_iff.mpr blank] at kind
      simp [kind, classify] at written
  simp only [header, Header.heading, same]

/-! ## Tests -/

theorem content_tags {found tags : List Tag} (same : found.map Tag.name = tags.map Tag.name) :
    (found.map Tag.branch).map Branch.content = (tags.map Tag.branch).map Branch.content := by
  have named (tags : List Tag) : (tags.map Tag.branch).map Branch.content =
      (tags.map Tag.name).map fun name => .node () (.tag name) [] := by
    rw [List.map_map, List.map_map]
    refine List.map_congr_left fun tag _ => ?_
    rw [Function.comp_apply, Tag.branch, Branch.content, Branch.map_node]
    rfl
  rw [named, named, same]

theorem Blocks.commented {allowed : Bool} {found : List Examples}
    (read : Blocks allowed lines found rest) (commented : Commented dialect spot lines others)
    (outside : spot.IsOutside) :
    ∃ again left, Blocks allowed others again left ∧
      (again.map Examples.branch).map Branch.content =
        (found.map Examples.branch).map Branch.content ∧
      Commented dialect .elsewhere rest left := by
  induction read generalizing spot others with
  | done tags ends =>
      obtain ⟨_, left, tagsAgain, _, behind⟩ := tags.commented commented outside
      rw [← tags.significant_rest] at ends
      have endsAgain := behind.head_kind Spot.isOutside_elsewhere
        (fun kind => ∀ keyword name, kind ≠ .header .examples keyword name) ends
      rw [tagsAgain.significant_rest] at endsAgain
      exact ⟨[], others, .done tagsAgain endsAgain, rfl, commented.elsewhere outside⟩
  | @block lines tags line below keyword name rows next more rest allow above kind table _ ih =>
      obtain ⟨tagsAgain, other, behind, aboveAgain, names, kindAgain, later⟩ :=
        above.commented_cons commented outside kind
      obtain ⟨later, heading⟩ :=
        header_commented line other .examples keyword name later Spot.isOutside_elsewhere
      obtain ⟨rowsAgain, left, tableAgain, sameRows, later⟩ :=
        table.commented (later.belowRow Spot.isOutside_elsewhere)
      obtain ⟨again, last, readAgain, same, ended⟩ := ih later Spot.isOutside_elsewhere
      refine ⟨_, last, .block allow aboveAgain kindAgain tableAgain readAgain, ?_, ended⟩
      simp only [List.map_cons, same, Examples.branch, heading]
      refine congrArg (· :: _) (Branch.content_node_eq _ ?_)
      rw [List.map_append, List.map_append, content_tags names, sameRows]

theorem Test.commented {found tags : List Tag} {line : Line} {construct : Construct}
    {keyword name : Text} {test : Scenario}
    (read : Test release found line construct keyword name lines test rest)
    (names : tags.map Tag.name = found.map Tag.name) (other : Line)
    (commented : Commented dialect spot lines others) (outside : spot.IsOutside) :
    ∃ again left, Test release tags other construct keyword name others again left ∧
      again.branch.content = test.branch.content ∧ Commented dialect .elsewhere rest left := by
  cases read with
  | intro steps blocks =>
      obtain ⟨later, heading⟩ :=
        header_commented line other construct keyword name commented outside
      obtain ⟨stepsAgain, front, readSteps, sameSteps, later⟩ :=
        steps.commented later Spot.isOutside_elsewhere
      obtain ⟨blocksAgain, left, readBlocks, sameBlocks, ended⟩ :=
        blocks.commented later Spot.isOutside_elsewhere
      exact ⟨_, left, .intro readSteps readBlocks,
        Scenario.content_branch_congr heading rfl (content_tags names) sameSteps sameBlocks, ended⟩

theorem Tests.commented {found : List Scenario} (read : Tests release lines found rest)
    (commented : Commented dialect spot lines others) (outside : spot.IsOutside) :
    ∃ again left, Tests release others again left ∧
      (again.map Scenario.branch).map Branch.content =
        (found.map Scenario.branch).map Branch.content ∧
      Commented dialect .elsewhere rest left := by
  induction read generalizing spot others with
  | done tags => exact ⟨[], [], .done (tags.commented_nil commented outside), rfl, .nil⟩
  | rule above kind =>
      obtain ⟨_, _, _, aboveAgain, _, kindAgain, _⟩ := above.commented_cons commented outside kind
      exact ⟨[], others, .rule aboveAgain kindAgain, rfl, commented.elsewhere outside⟩
  | test above kind construct test _ ih =>
      obtain ⟨tagsAgain, other, behind, aboveAgain, names, kindAgain, later⟩ :=
        above.commented_cons commented outside kind
      obtain ⟨testAgain, next, readTest, sameTest, later⟩ :=
        test.commented names other later Spot.isOutside_elsewhere
      obtain ⟨again, left, readAgain, same, ended⟩ := ih later Spot.isOutside_elsewhere
      refine ⟨_, left, .test aboveAgain kindAgain construct readTest readAgain, ?_, ended⟩
      simp only [List.map_cons, sameTest, same]

/-! ## Rules and features -/

theorem Body.commented {found : Document.Body} (read : Body release lines found rest)
    (commented : Commented dialect spot lines others) (outside : spot.IsOutside) :
    ∃ again left, Body release others again left ∧
      again.branches.map Branch.content = found.branches.map Branch.content ∧
      Commented dialect .elsewhere rest left := by
  cases read with
  | @background line below keyword name _ _ _ _ above kind steps tests =>
      obtain ⟨tagsAgain, other, behind, aboveAgain, names, kindAgain, later⟩ :=
        above.commented_cons commented outside kind
      obtain rfl : tagsAgain = [] := List.map_eq_nil_iff.mp names
      obtain ⟨later, heading⟩ :=
        header_commented line other .background keyword name later Spot.isOutside_elsewhere
      obtain ⟨stepsAgain, front, readSteps, sameSteps, later⟩ :=
        steps.commented later Spot.isOutside_elsewhere
      obtain ⟨testsAgain, left, readTests, sameTests, ended⟩ :=
        tests.commented later Spot.isOutside_elsewhere
      refine ⟨_, left, .background aboveAgain kindAgain readSteps readTests, ?_, ended⟩
      rw [Body.branches, Body.branches, List.map_append, List.map_append, sameTests]
      refine congrArg (· ++ _) (congrArg (· :: []) ?_)
      rw [Background.branch, Background.branch, heading]
      exact Branch.content_node_eq _ sameSteps
  | tests tests =>
      obtain ⟨testsAgain, left, readTests, sameTests, ended⟩ := tests.commented commented outside
      exact ⟨_, left, .tests readTests, sameTests, ended⟩

theorem Rules.commented {found : List Rule} (read : Rules release lines found)
    (commented : Commented dialect spot lines others) (outside : spot.IsOutside) :
    ∃ again, Rules release others again ∧
      (again.map Rule.branch).map Branch.content = (found.map Rule.branch).map Branch.content := by
  induction read generalizing spot others with
  | done tags => exact ⟨[], .done (tags.commented_nil commented outside), rfl⟩
  | @rule lines tags line below keyword name body next more known above kind admitted inner _ ih =>
      obtain ⟨tagsAgain, other, behind, aboveAgain, names, kindAgain, later⟩ :=
        above.commented_cons commented outside kind
      have admittedAgain : release.hasRuleTags = true ∨ tagsAgain = [] := by
        refine admitted.imp_right ?_
        rintro rfl
        exact List.map_eq_nil_iff.mp names
      obtain ⟨later, heading⟩ :=
        header_commented line other .rule keyword name later Spot.isOutside_elsewhere
      obtain ⟨bodyAgain, front, readBody, sameBody, later⟩ :=
        inner.commented later Spot.isOutside_elsewhere
      obtain ⟨again, readAgain, same⟩ := ih later Spot.isOutside_elsewhere
      refine ⟨_, .rule known aboveAgain kindAgain admittedAgain readBody readAgain, ?_⟩
      simp only [List.map_cons, same, Rule.branch, heading]
      refine congrArg (· :: _) (Branch.content_node_eq _ ?_)
      rw [List.map_append, List.map_append, content_tags names, sameBody]

/-- A feature with comments among its lines has the same content. -/
theorem Feature.commented {language : Text} {found : Option Document.Feature}
    (read : Feature release language lines found) (commented : Commented dialect spot lines others)
    (outside : spot.IsOutside) :
    ∃ again, Feature release language others again ∧
      (again.map Feature.branch).map Branch.content =
        (found.map Feature.branch).map Branch.content := by
  cases read with
  | none tags => exact ⟨_, .none (tags.commented_nil commented outside), rfl⟩
  | @some tags line below keyword name body next rules above kind inner behind =>
      obtain ⟨tagsAgain, other, front, aboveAgain, names, kindAgain, later⟩ :=
        above.commented_cons commented outside kind
      obtain ⟨later, heading⟩ :=
        header_commented line other .feature keyword name later Spot.isOutside_elsewhere
      obtain ⟨bodyAgain, left, readBody, sameBody, later⟩ :=
        inner.commented later Spot.isOutside_elsewhere
      obtain ⟨rulesAgain, readRules, sameRules⟩ := behind.commented later Spot.isOutside_elsewhere
      refine ⟨_, .some aboveAgain kindAgain readBody readRules, congrArg Option.some ?_⟩
      rw [Feature.branch, Feature.branch, heading]
      refine Branch.content_node_eq _ ?_
      simp only [List.map_append, content_tags names, sameBody, sameRules]

end Grammar

end Gherkin
