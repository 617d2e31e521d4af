import Gherkin.Proofs.Dialect
import Gherkin.Proofs.Text.Lines
import Gherkin.Line

/-!
# What a classified line is made of

A keyword that was found on a line is one of the dialect, and the text behind it
was trimmed.
-/

namespace Gherkin

variable {dialect : Dialect} {t : Text}

theorem headerOf?_eq_some {kind : LineKind} (found : headerOf? dialect t = some kind) :
    ∃ construct keyword name, kind = .header construct keyword (Text.trim name) ∧
      construct ≠ .step ∧ keyword ∈ dialect.keywords construct ∧ t = keyword ++ ':' :: name := by
  obtain ⟨⟨keyword, construct⟩, member, found⟩ := List.exists_of_findSome?_eq_some found
  obtain ⟨rest, behind, found⟩ := Option.bind_eq_some_iff.mp found
  obtain ⟨name, colon, found⟩ := Option.bind_eq_some_iff.mp found
  obtain ⟨header, listed⟩ := Dialect.mem_headerKeywords_iff.1 member
  refine ⟨construct, keyword, name, (Option.some.inj found).symm, header, listed, ?_⟩
  rw [Text.after?_eq_some_iff.mp behind, Text.after?_eq_some_iff.mp colon]
  rfl

theorem stepOf?_eq_some {kind : LineKind} (found : stepOf? dialect t = some kind) :
    ∃ keyword text, kind = .step keyword (Text.trim text) ∧ keyword ∈ dialect.stepKeywords ∧
      (t = keyword ++ text ∨ t = Text.trimEnd keyword ∧ text = []) := by
  obtain ⟨keyword, member, found⟩ := List.exists_of_findSome?_eq_some found
  have listed := Dialect.mem_stepsByLength_iff.1 member
  split at found
  · next text behind =>
    exact ⟨keyword, text, (Option.some.inj found).symm, listed,
      .inl (Text.after?_eq_some_iff.mp behind)⟩
  · split at found
    · next whole =>
      exact ⟨keyword, [], (Option.some.inj found).symm, listed, .inr ⟨whole, rfl⟩⟩
    · cases found

theorem fenceOf?_eq_some {kind : LineKind} (found : fenceOf? t = some kind) :
    ∃ fence type, kind = .fence fence (Text.trim type) ∧ t = fence.text ++ type := by
  obtain ⟨fence, _, found⟩ := List.exists_of_findSome?_eq_some found
  obtain ⟨type, behind, same⟩ := Option.map_eq_some_iff.mp found
  exact ⟨fence, type, same.symm, Text.after?_eq_some_iff.mp behind⟩

/-- A text without blanks around it, and a meaning it can have. -/
inductive Spells (dialect : Dialect) : Text → LineKind → Prop where
  | blank : Spells dialect [] .blank
  | comment (rest : Text) : Spells dialect ('#' :: rest) .comment
  | language (rest code : Text) : Spells dialect ('#' :: rest) (.language code)
  | tags (rest : Text) : Spells dialect ('@' :: rest) .tags
  | row (rest : Text) : Spells dialect ('|' :: rest) .row
  | fence (fence : Fence) (behind : Text) :
      Spells dialect (fence.text ++ behind) (.fence fence (Text.trim behind))
  | header {construct : Construct} {keyword : Text} (behind : Text) : construct ≠ .step →
      keyword ∈ dialect.keywords construct →
      Spells dialect (keyword ++ ':' :: behind) (.header construct keyword (Text.trim behind))
  | step {keyword : Text} (behind : Text) : keyword ∈ dialect.stepKeywords →
      Spells dialect (keyword ++ behind) (.step keyword (Text.trim behind))
  | bareStep {keyword : Text} : keyword ∈ dialect.stepKeywords →
      Spells dialect (Text.trimEnd keyword) (.step keyword [])
  | other (t : Text) : Spells dialect t .other

theorem spells_classify (dialect : Dialect) (t : Text) : Spells dialect t (classify dialect t) := by
  unfold classify
  split
  · exact .blank
  · split
    · exact .language _ _
    · exact .comment _
  · exact .tags _
  · exact .row _
  · cases fenced : fenceOf? t with
    | some kind =>
        obtain ⟨fence, behind, rfl, rfl⟩ := fenceOf?_eq_some fenced
        simpa [fenced] using Spells.fence fence behind
    | none =>
        cases headed : headerOf? dialect t with
        | some kind =>
            obtain ⟨construct, keyword, behind, rfl, header, listed, rfl⟩ :=
              headerOf?_eq_some headed
            simpa using Spells.header behind header listed
        | none =>
            cases stepped : stepOf? dialect t with
            | some kind =>
                obtain ⟨keyword, behind, rfl, listed, rfl | ⟨rfl, rfl⟩⟩ := stepOf?_eq_some stepped
                · simpa using Spells.step behind listed
                · simpa [Text.trim_eq_self Text.isTrimmed_nil] using Spells.bareStep listed
            | none => simpa using Spells.other t

theorem classify_eq_blank_iff : classify dialect t = .blank ↔ t = [] := by
  constructor
  · intro kind
    have spelled := spells_classify dialect t
    rw [kind] at spelled
    cases spelled
    rfl
  · rintro rfl
    rfl

theorem classify_eq_header {construct : Construct} {keyword name : Text}
    (kind : classify dialect t = .header construct keyword name) :
    keyword ∈ dialect.keywords construct ∧
      ∃ behind, t = keyword ++ ':' :: behind ∧ name = Text.trim behind := by
  have spelled := spells_classify dialect t
  rw [kind] at spelled
  cases spelled with
  | header behind _ listed => exact ⟨listed, behind, rfl, rfl⟩

theorem classify_eq_step {keyword text : Text} (kind : classify dialect t = .step keyword text) :
    keyword ∈ dialect.stepKeywords ∧ ∃ behind, text = Text.trim behind ∧
      (t = keyword ++ behind ∨ t = Text.trimEnd keyword ∧ behind = []) := by
  have spelled := spells_classify dialect t
  rw [kind] at spelled
  cases spelled with
  | step behind listed => exact ⟨listed, behind, rfl, .inl rfl⟩
  | bareStep listed => exact ⟨listed, [], rfl, .inr ⟨rfl, rfl⟩⟩

theorem classify_eq_fence {fence : Fence} {type : Text}
    (kind : classify dialect t = .fence fence type) :
    ∃ behind, t = fence.text ++ behind ∧ type = Text.trim behind := by
  have spelled := spells_classify dialect t
  rw [kind] at spelled
  cases spelled with
  | fence _ behind => exact ⟨behind, rfl, rfl⟩

end Gherkin
