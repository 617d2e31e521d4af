import Gherkin.Proofs.Line.Classification
import Gherkin.Proofs.Line.Tags
import Gherkin.Proofs.Text.Lines
import Gherkin.Layout.Render

/-!
# The meaning of rendered lines

A line that was rendered for a header, a step, tags, a row or a delimiter is read
as one. The keywords have to be those of the dialect it is read in.
-/

namespace Gherkin

variable {dialect : Dialect}

/-- A search finds what all successful tries agree on. -/
theorem findSome?_eq_of_unique {α β : Type} {f : α → Option β} {items : List α} {item : α}
    {value : β} (member : item ∈ items) (found : f item = some value)
    (unique : ∀ other ∈ items, ∀ result, f other = some result → result = value) :
    items.findSome? f = some value := by
  cases searched : items.findSome? f with
  | none =>
      have := List.findSome?_eq_none_iff.mp searched item member
      rw [found] at this
      cases this
  | some result =>
      obtain ⟨other, inside, same⟩ := List.exists_of_findSome?_eq_some searched
      rw [unique other inside result same]

/-- The first occurrence of a character tells where a text is cut. -/
theorem append_cons_inj_of_not_mem {c : Char} {a b x y : Text} (notLeft : c ∉ a) (notRight : c ∉ b)
    (same : a ++ c :: x = b ++ c :: y) : a = b ∧ x = y := by
  rcases List.append_eq_append_iff.mp same with ⟨d, rfl, rest⟩ | ⟨d, rfl, rest⟩
  · cases d with
    | nil => simpa using rest
    | cons e d =>
        cases (List.cons.inj rest).1
        exact absurd (List.mem_append_right _ List.mem_cons_self) notRight
  · cases d with
    | nil => simpa [eq_comm] using rest
    | cons e d =>
        cases (List.cons.inj rest).1
        exact absurd (List.mem_append_right _ List.mem_cons_self) notLeft

theorem headerOf?_header (regular : dialect.Regular) {construct : Construct} {keyword : Text}
    (listed : (keyword, construct) ∈ dialect.headerKeywords) (behind : Text) :
    headerOf? dialect (keyword ++ ':' :: behind) =
      some (.header construct keyword (Text.trim behind)) := by
  have colon : ':' ∉ keyword := (regular.headerWord _ listed).2.2.1
  refine findSome?_eq_of_unique listed ?_ ?_
  · have first : Text.after? keyword (keyword ++ ':' :: behind) = some (':' :: behind) :=
      Text.after?_eq_some_iff.mpr rfl
    simp [first, Text.after?]
  · rintro ⟨other, construct'⟩ inside result found
    obtain ⟨rest, before, found⟩ := Option.bind_eq_some_iff.mp found
    obtain ⟨name, sign, found⟩ := Option.bind_eq_some_iff.mp found
    have whole : keyword ++ ':' :: behind = other ++ ':' :: name := by
      rw [Text.after?_eq_some_iff.mp before, Text.after?_eq_some_iff.mp sign]
      rfl
    have otherColon : ':' ∉ other := (regular.headerWord _ inside).2.2.1
    obtain ⟨rfl, rfl⟩ := append_cons_inj_of_not_mem colon otherColon whole
    cases regular.headerUnique _ listed _ inside rfl
    exact (Option.some.inj found).symm

theorem stepOf?_step (regular : dialect.Regular) {keyword : Text}
    (listed : keyword ∈ dialect.stepKeywords) (behind : Text) :
    stepOf? dialect (keyword ++ behind) = some (.step keyword (Text.trim behind)) := by
  refine findSome?_eq_of_unique (Dialect.mem_stepsByLength_iff.mpr listed) ?_ ?_
  · have first : Text.after? keyword (keyword ++ behind) = some behind :=
      Text.after?_eq_some_iff.mpr rfl
    simp [first]
  · intro other inside result found
    have known := Dialect.mem_stepsByLength_iff.mp inside
    split at found
    · next text split =>
      have whole := Text.after?_eq_some_iff.mp split
      have same : keyword = other := by
        rcases List.prefix_or_prefix_of_prefix (List.prefix_append keyword behind)
          (whole ▸ List.prefix_append other text) with here | here
        · exact regular.stepUnique _ listed _ known here
        · exact (regular.stepUnique _ known _ listed here).symm
      subst same
      rw [List.append_cancel_left whole]
      exact (Option.some.inj found).symm
    · split at found
      · next whole =>
        -- A bare keyword is shorter than any step it could be confused with.
        have longer := (regular.stepWord _ known).2.1
        have before : keyword <+: other := by
          rw [← longer, ← whole, List.append_assoc]
          exact List.prefix_append _ _
        cases regular.stepUnique _ listed _ known before
        have := congrArg List.length whole
        have := congrArg List.length longer
        simp only [List.length_append, List.length_singleton] at *
        omega
      · cases found

theorem stepOf?_bare (regular : dialect.Regular) {keyword : Text}
    (listed : keyword ∈ dialect.stepKeywords) :
    stepOf? dialect (Text.trimEnd keyword) = some (.step keyword []) := by
  have longer := (regular.stepWord _ listed).2.1
  have apart (other : Text) (known : other ∈ dialect.stepKeywords) :
      Text.after? other (Text.trimEnd keyword) = none := by
    cases found : Text.after? other (Text.trimEnd keyword) with
    | none => rfl
    | some rest =>
        have whole := Text.after?_eq_some_iff.mp found
        have before : other <+: keyword := by
          rw [← longer, whole, List.append_assoc]
          exact List.prefix_append _ _
        cases regular.stepUnique _ known _ listed before
        have := congrArg List.length whole
        have := congrArg List.length longer
        simp only [List.length_append, List.length_singleton] at *
        omega
  refine findSome?_eq_of_unique (Dialect.mem_stepsByLength_iff.mpr listed) ?_ ?_
  · simp [apart keyword listed]
  · intro other inside result found
    have known := Dialect.mem_stepsByLength_iff.mp inside
    rw [apart other known] at found
    dsimp only at found
    split at found
    · next whole =>
      have same : keyword = other := by
        rw [← longer, ← (regular.stepWord _ known).2.1, whole]
      subst same
      exact (Option.some.inj found).symm
    · cases found

theorem fenceOf?_of_startsWord {t : Text} (word : Dialect.startsWord t = true) :
    fenceOf? t = none := by
  cases found : fenceOf? t with
  | none => rfl
  | some kind =>
      obtain ⟨fence, behind, _, rfl⟩ := fenceOf?_eq_some found
      cases fence <;> exact absurd word (by simp [Fence.text, Dialect.startsWord])

theorem classify_of_startsWord {t : Text} (word : Dialect.startsWord t = true) :
    classify dialect t = ((headerOf? dialect t).or (stepOf? dialect t)).getD .other := by
  have noFence := fenceOf?_of_startsWord word
  unfold classify
  split
  · exact absurd word (by simp [Dialect.startsWord])
  · exact absurd word (by simp [Dialect.startsWord])
  · exact absurd word (by simp [Dialect.startsWord])
  · exact absurd word (by simp [Dialect.startsWord])
  · rw [noFence, Option.none_or]

theorem startsWord_append {t : Text} (word : Dialect.startsWord t = true) (behind : Text) :
    Dialect.startsWord (t ++ behind) = true := by
  cases t with
  | nil => exact absurd word (by simp [Dialect.startsWord])
  | cons c t => exact word

theorem classify_header (regular : dialect.Regular) {construct : Construct} {keyword : Text}
    (header : construct ≠ .step) (listed : keyword ∈ dialect.keywords construct) (behind : Text) :
    classify dialect (keyword ++ ':' :: behind) =
      .header construct keyword (Text.trim behind) := by
  have entry := Dialect.mem_headerKeywords_iff.mpr ⟨header, listed⟩
  rw [classify_of_startsWord (startsWord_append (regular.headerWord _ entry).1 _),
    headerOf?_header regular entry]
  rfl

/-- No header begins a step line. -/
theorem headerOf?_step (regular : dialect.Regular) {keyword : Text}
    (listed : keyword ∈ dialect.stepKeywords) {t : Text}
    (step : keyword <+: t ∨ t = Text.trimEnd keyword) : headerOf? dialect t = none := by
  cases found : headerOf? dialect t with
  | none => rfl
  | some kind =>
      obtain ⟨construct, word, behind, -, header, known, rfl⟩ := headerOf?_eq_some found
      have entry := Dialect.mem_headerKeywords_iff.mpr ⟨header, known⟩
      obtain ⟨headerFirst, stepFirst, -⟩ := regular.apart _ entry _ listed
      have before : word ++ [':'] <+: word ++ ':' :: behind := ⟨behind, by simp⟩
      rcases step with begins | bare
      · rcases List.prefix_or_prefix_of_prefix before begins with here | here
        · exact absurd here headerFirst
        · exact absurd here stepFirst
      · have longer := (regular.stepWord _ listed).2.1
        rw [bare] at before
        exact absurd (before.trans ⟨[' '], longer⟩) headerFirst

theorem classify_step (regular : dialect.Regular) {keyword : Text}
    (listed : keyword ∈ dialect.stepKeywords) (behind : Text) :
    classify dialect (keyword ++ behind) = .step keyword (Text.trim behind) := by
  rw [classify_of_startsWord (startsWord_append (regular.stepWord _ listed).1 _),
    headerOf?_step regular listed (.inl (List.prefix_append _ _)), stepOf?_step regular listed]
  rfl

/-- The keyword of a step is a word without the blank that ends it, too. -/
theorem startsWord_bareStep (regular : dialect.Regular) {keyword : Text}
    (listed : keyword ∈ dialect.stepKeywords) :
    Dialect.startsWord (Text.trimEnd keyword) = true := by
  obtain ⟨word, longer, _⟩ := regular.stepWord _ listed
  cases whole : Text.trimEnd keyword with
  | nil =>
      rw [← longer, whole] at word
      exact absurd word (by simp [Dialect.startsWord, Text.isBlank_space])
  | cons c rest =>
      rw [← longer, whole] at word
      exact word

theorem classify_bareStep (regular : dialect.Regular) {keyword : Text}
    (listed : keyword ∈ dialect.stepKeywords) :
    classify dialect (Text.trimEnd keyword) = .step keyword [] := by
  rw [classify_of_startsWord (startsWord_bareStep regular listed),
    headerOf?_step regular listed (.inr rfl),
    stepOf?_bare regular listed]
  rfl

namespace Layout

/-! ## Headers -/

theorem isTrimmed_append {front back : Text} (starts : Dialect.startsWord front = true)
    (some : back ≠ []) (ends : ∀ c ∈ back.getLast?, Text.isBlank c = false) :
    Text.IsTrimmed (front ++ back) := by
  constructor
  · cases front with
    | nil => exact absurd starts (by simp [Dialect.startsWord])
    | cons c front =>
        intro d first
        cases first
        simp only [Dialect.startsWord, Bool.and_eq_true, Bool.not_eq_true'] at starts
        exact starts.1
  · rw [List.getLast?_append_of_ne_nil _ some]
    exact ends

theorem isLabel_headerLine (regular : dialect.Regular) {construct : Construct}
    {heading : Heading} (header : construct ≠ .step)
    (listed : heading.keyword ∈ dialect.keywords construct) (name : Text.IsLabel heading.name) :
    Text.IsLabel (headerLine heading) := by
  obtain ⟨word, _, _, oneLine⟩ :=
    regular.headerWord _ (Dialect.mem_headerKeywords_iff.mpr ⟨header, listed⟩)
  unfold headerLine
  split
  · refine ⟨isTrimmed_append word (by simp) (by simp [Text.isBlank]), ?_⟩
    simp [oneLine]
  · next named =>
    have written : heading.name ≠ [] := by simpa using named
    refine ⟨isTrimmed_append word (by simp) fun c last => name.trimmed.2 c ?_, ?_⟩
    · rw [List.getLast?_cons_of_ne_nil (by simp), List.getLast?_cons_of_ne_nil written] at last
      exact last
    · simp [oneLine, name.oneLine]

theorem classify_headerLine (regular : dialect.Regular) {construct : Construct}
    {heading : Heading} (header : construct ≠ .step)
    (listed : heading.keyword ∈ dialect.keywords construct) (name : Text.IsLabel heading.name) :
    classify dialect (headerLine heading) = .header construct heading.keyword heading.name := by
  unfold headerLine
  split
  · next empty =>
    rw [classify_header regular header listed, List.isEmpty_iff.mp empty]
    rfl
  · rw [classify_header regular header listed, ← List.singleton_append,
      Text.trim_append_left _ (by simp [Text.IsBlank, Text.isBlank_space]),
      Text.trim_eq_self name.trimmed]

theorem startsWord_headerLine (regular : dialect.Regular) {construct : Construct}
    {heading : Heading} (header : construct ≠ .step)
    (listed : heading.keyword ∈ dialect.keywords construct) :
    Dialect.startsWord (headerLine heading) = true := by
  have word :=
    (regular.headerWord _ (Dialect.mem_headerKeywords_iff.mpr ⟨header, listed⟩)).1
  unfold headerLine
  split <;> exact startsWord_append word _

theorem headerLine_ne_nil (heading : Heading) : headerLine heading ≠ [] := by
  unfold headerLine
  split <;> simp

/-! ## Steps -/

theorem stepLine_ne_nil (regular : dialect.Regular) {keyword : Text}
    (listed : keyword ∈ dialect.stepKeywords) (text : Text) :
    stepLine (Text.trimEnd keyword) text ≠ [] := by
  unfold stepLine
  split
  · intro none
    have begins := startsWord_bareStep regular listed
    rw [none] at begins
    cases begins
  · simp

theorem isLabel_stepLine (regular : dialect.Regular) {keyword text : Text}
    (listed : keyword ∈ dialect.stepKeywords) (label : Text.IsLabel text) :
    Text.IsLabel (stepLine (Text.trimEnd keyword) text) := by
  obtain ⟨word, longer, trimmed, oneLine⟩ := regular.stepWord _ listed
  have inside : '\n' ∉ Text.trimEnd keyword := fun member =>
    oneLine (Text.mem_of_mem_trimEnd member)
  unfold stepLine
  split
  · exact ⟨trimmed ▸ Text.isTrimmed_trim keyword, inside⟩
  · next named =>
    have written : text ≠ [] := by simpa using named
    have regrouped : Text.trimEnd keyword ++ ' ' :: text = keyword ++ text := by
      conv_rhs => rw [← longer]
      simp
    rw [regrouped]
    exact ⟨isTrimmed_append word written label.trimmed.2, by simp [oneLine, label.oneLine]⟩

theorem classify_stepLine (regular : dialect.Regular) {keyword text : Text}
    (listed : keyword ∈ dialect.stepKeywords) (label : Text.IsLabel text) :
    classify dialect (stepLine (Text.trimEnd keyword) text) = .step keyword text := by
  obtain ⟨_, longer, _⟩ := regular.stepWord _ listed
  unfold stepLine
  split
  · next empty => rw [classify_bareStep regular listed, List.isEmpty_iff.mp empty]
  · have regrouped : Text.trimEnd keyword ++ ' ' :: text = keyword ++ text := by
      conv_rhs => rw [← longer]
      simp
    rw [regrouped, classify_step regular listed, Text.trim_eq_self label.trimmed]

/-! ## Tags, delimiters and the language -/

/-- The line of some tags begins with an at sign. -/
theorem exists_join_tagNames {names : List Text} (some : names ≠ [])
    (tags : ∀ name ∈ names, IsTagName name) :
    ∃ rest, Text.join [' '] names = '@' :: rest ∧ Text.IsLabel ('@' :: rest) := by
  induction names with
  | nil => exact absurd rfl some
  | cons name rest ih =>
      obtain ⟨here, later⟩ := List.forall_mem_cons.mp tags
      obtain ⟨c, behind, rfl⟩ := here.shape
      have oneLine : '\n' ∉ '@' :: c :: behind := fun newline =>
        absurd (here.solid _ newline) (by decide)
      have first : ∀ d ∈ ('@' :: behind).head?, Text.isBlank d = false := by rintro d ⟨⟩; rfl
      by_cases more : rest = []
      · refine ⟨c :: behind, by rw [more, Text.join_singleton], ⟨first, fun d last => ?_⟩, oneLine⟩
        exact here.solid d (List.mem_of_getLast? last)
      · obtain ⟨others, joined, label⟩ := ih more later
        refine ⟨c :: behind ++ [' '] ++ '@' :: others, ?_, ⟨first, fun d last => ?_⟩, ?_⟩
        · rw [Text.join_cons _ _ more, joined]
          rfl
        · refine label.trimmed.2 d ?_
          rw [← List.cons_append, List.getLast?_append_of_ne_nil _ (List.cons_ne_nil _ _)] at last
          exact last
        · intro newline
          simp_all [label.oneLine]

theorem classify_tags (rest : Text) : classify dialect ('@' :: rest) = .tags := rfl

theorem classify_row (rest : Text) : classify dialect ('|' :: rest) = .row := rfl

theorem classify_quotes (behind : Text) :
    classify dialect (Fence.quotes.text ++ behind) = .fence .quotes (Text.trim behind) := by
  have opened : fenceOf? (Fence.quotes.text ++ behind) =
      Option.some (.fence .quotes (Text.trim behind)) := rfl
  unfold classify
  split <;> simp_all [Fence.text]

theorem classify_language {chosen : Dialect} (known : chosen ∈ Dialect.all) :
    classify dialect (Text.word "# language: " ++ chosen.code) = .language chosen.code := by
  rcases List.mem_pair.mp known with rfl | rfl <;> rfl

end Layout

end Gherkin
