import Gherkin.Proofs.Fragment

/-!
# Doc strings at every depth

A step with a doc string is rendered at some depth, and the text is modeled as a step. The
content type comes back as it was, and so do the contents, but for lines that end with a
carriage return and for delimiters that were escaped in them already: where such a delimiter
cannot be told from one that rendering has escaped, it loses its escapes.
-/

namespace Gherkin

open Layout

variable {α : Type} {dialect : Dialect} {depth : Nat}

/-- A step with a doc string below it. -/
def Branch.withDocString (step block : α) (keyword text : Text) (contentType : Option Text)
    (contents : Text) : Branch α :=
  .node step (.step keyword text) [.node block (.docString contentType contents) []]

namespace Document

/-- A step is held at every depth by a feature that every release admits. -/
theorem exists_holds_step {step : Step} (regular : dialect.Regular)
    (spelled : step.Spelled dialect) (depth : Nat) :
    ∃ feature, Holds dialect .step depth step.branch feature ∧
      ∀ release, feature.Admitted release := by
  have encloses : Encloses .step _ 1 step.branch (step.scenario dialect).branch :=
    encloses_scenario step nofun
  have first (width : Text → Nat) :
      ∃ text rest, items width 0 step.branch = .line 0 text :: rest := by
    rw [Step.items_branch]
    exact ⟨_, _, rfl⟩
  refine ⟨_, holds_test encloses regular rfl nofun (Step.spelled_scenario regular spelled) rfl first
    depth, fun release => ⟨?_, by simp [Feature.around]⟩⟩
  exact List.forall_mem_singleton.mpr (.inr (.inr rfl))

end Document

namespace Modeler

open Document

variable {release : Release} {active : Dialect} {pinned : Option Dialect}
  {indent keyword text contents : Text} {contentType : Option Text} {step block : α}

/-- A doc string survives exactly when no line of its contents ends with a carriage return and
all escaped delimiters in them can be told from those that rendering escapes. -/
theorem element_docString_iff (supported : release ∈ Release.all)
    (known : pinned.getD active ∈ Dialect.all) (blank : Text.IsBlank indent)
    (newlineFree : '\n' ∉ indent)
    (listed : ∃ word ∈ (pinned.getD active).stepKeywords, keyword = Text.trimEnd word)
    (label : Text.IsLabel text) (typed : ∀ type ∈ contentType, type ≠ [] ∧ Text.IsLabel type)
    (depth : Nat) :
    ∃ again found, (ofRelease active release pinned).element .step
        (renderAt Text.width indent depth
          (.withDocString step block keyword text contentType contents)) = .ok again ∧
      again.content = .withDocString () () keyword text contentType found ∧
      (found = contents ↔ ∀ line ∈ Text.pieces contents,
        line.getLast? ≠ some '\r' ∧ IsUnambiguous line) := by
  obtain ⟨word, member, rfl⟩ := listed
  have regular := Dialect.regular_of_mem_all known
  let given : Step := ⟨⟨0, 0⟩, word, text, some (.docString ⟨0, 0⟩ .quotes contentType contents)⟩
  have spelled : given.Spelled (pinned.getD active) :=
    ⟨member, label, by rintro _ ⟨⟩; exact typed⟩
  have same : given.branch.content =
      (Branch.withDocString step block (Text.trimEnd word) text contentType contents).content := rfl
  obtain ⟨feature, holds, admitted⟩ := exists_holds_step regular spelled depth
  obtain ⟨again, modeled, content⟩ := exists_element_of_holds holds supported known
    (admitted release) blank newlineFree nofun nofun
  have text : renderAt Text.width indent depth given.branch = renderAt Text.width indent depth
      (.withDocString step block (Text.trimEnd word) text contentType contents) := by
    rw [renderAt, items_eq_of_content_eq same, renderAt]
  refine ⟨again, _, text ▸ modeled, content, ?_⟩
  rw [unlines_reread_eq_iff]
  exact forall₂_congr fun line _ => reread_eq_self_iff

/-- Contents with a delimiter, and with an escaped one that ends in another delimiter. -/
def sampleContents : Text := Text.word "  say \"\"\"\n\n\\\"\\\"\\\"\"\""

/-- The sample contents survive two levels deep. -/
theorem element_docString_sampleContents :
    ∃ again, (ofRelease .german .newest (some .english)).element .step
        (renderAt Text.width defaultIndent 2 (.withDocString 0 1 (Text.word "Given")
          (Text.word "x") (some (Text.word "json")) sampleContents)) = .ok again ∧
      again.content = .withDocString () () (Text.word "Given") (Text.word "x")
        (some (Text.word "json")) sampleContents := by
  have supported : Release.newest ∈ Release.all := by decide
  have known : (some Dialect.english).getD .german ∈ Dialect.all := by decide
  have blank : Text.IsBlank defaultIndent := by decide
  have label : Text.IsLabel (Text.word "x") := by decide
  have typed : ∀ type ∈ some (Text.word "json"), type ≠ [] ∧ Text.IsLabel type := by decide
  have survives : ∀ line ∈ Text.pieces sampleContents,
      line.getLast? ≠ some '\r' ∧ IsUnambiguous line := by decide
  obtain ⟨again, found, modeled, content, same⟩ := element_docString_iff supported known blank
    (by decide) ⟨Text.word "Given ", by decide, rfl⟩ label typed 2
  rw [same.mpr survives] at content
  exact ⟨again, modeled, content⟩

/-- An escaped delimiter alone on its line comes back without its escapes. -/
theorem element_docString_escaped :
    (∀ line ∈ Text.pieces escapedQuotes, line.getLast? ≠ some '\r') ∧
    ∃ again, (ofRelease .english .newest none).element .step
        (renderAt Text.width defaultIndent 0 (.withDocString 0 1 (Text.word "Given")
          (Text.word "x") none escapedQuotes)) = .ok again ∧
      again.docStrings = [quotes] ∧ quotes ≠ escapedQuotes := by
  have found : ((ofRelease .english .newest none).element .step
      (renderAt Text.width defaultIndent 0 (.withDocString 0 1 (Text.word "Given")
        (Text.word "x") none escapedQuotes))).toOption.map Branch.docStrings = some [quotes] := by
    decide +kernel
  cases modeled : (ofRelease .english .newest none).element .step
      (renderAt Text.width defaultIndent 0 (.withDocString 0 1 (Text.word "Given")
        (Text.word "x") none escapedQuotes)) with
  | error error =>
      rw [modeled] at found
      cases found
  | ok again =>
      rw [modeled] at found
      exact ⟨by decide, again, rfl, Option.some.inj found, by decide⟩

end Modeler

end Gherkin
