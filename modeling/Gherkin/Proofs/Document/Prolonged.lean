import Gherkin.Proofs.Document.CommentedReading

/-!
# Lines that go on

Reading a construct ends at a line that the construct cannot have. So what is read in front of
some line does not change when more lines are put below, while the end of a document can turn
out to be the middle of a construct. Only tags, and lines that mean nothing, leave open what they
belong to.
-/

namespace Gherkin

open Document Line

namespace Line

/-- The other lines begin with lines that are alike and have the same numbers. -/
inductive Prolonged (dialect : Dialect) : List Line → List Line → Prop where
  | nil {others} : Prolonged dialect [] others
  | cons {line other lines others} : Alike dialect .elsewhere line other →
      other.number = line.number → Prolonged dialect lines others →
      Prolonged dialect (line :: lines) (other :: others)

variable {dialect : Dialect} {line other : Line} {lines others rest : List Line}

theorem Alike.place {spot : Spot} (alike : Alike dialect spot line other)
    (number : other.number = line.number) (kind : line.kind ≠ .blank) :
    other.place = line.place := by
  rw [Line.place, Line.column, number, alike.indent kind, Line.place, Line.column]

theorem Alike.unexpected {spot : Spot} (alike : Alike dialect spot line other)
    (number : other.number = line.number) (kind : line.kind ≠ .blank) (expected : List Token) :
    Document.unexpected other expected = Document.unexpected line expected := by
  rw [Document.unexpected, alike.place number kind, alike.trimmed, Document.unexpected]

theorem Alike.lineTags {spot : Spot} (alike : Alike dialect spot line other)
    (number : other.number = line.number) (words : List Word) :
    Document.lineTags other words = Document.lineTags line words := by
  induction words with
  | nil => rfl
  | cons word rest ih => rw [Document.lineTags, Document.lineTags, ih, number, alike.trimmed]

namespace Prolonged

theorem exists_cons (prolonged : Prolonged dialect (line :: lines) others) :
    ∃ other rest, others = other :: rest ∧ Alike dialect .elsewhere line other ∧
      other.number = line.number ∧ Prolonged dialect lines rest := by
  cases prolonged with
  | cons alike number below => exact ⟨_, _, rfl, alike, number, below⟩

theorem dropWhile {p : Line → Bool} (passes : Passes p)
    (prolonged : Prolonged dialect lines others) :
    Prolonged dialect (lines.dropWhile p) (others.dropWhile p) := by
  induction prolonged with
  | nil => exact .nil
  | @cons line other lines others alike number below ih =>
    have same := passes.same alike.kind
    by_cases passed : p line = true
    · rw [List.dropWhile_cons_of_pos passed, List.dropWhile_cons_of_pos (same.trans passed)]
      exact ih
    · rw [List.dropWhile_cons_of_neg passed, List.dropWhile_cons_of_neg (same ▸ passed)]
      exact .cons alike number below

/-- Where a line stands, the other lines have one of the same kind. -/
theorem head_kind (prolonged : Prolonged dialect lines others) (some : lines ≠ [])
    (property : LineKind → Prop) (holds : ∀ line ∈ lines.head?, property line.kind) :
    ∀ other ∈ others.head?, property other.kind := by
  cases prolonged with
  | nil => exact absurd rfl some
  | cons alike =>
    rintro _ ⟨⟩
    rw [alike.kind]
    exact holds _ rfl

end Prolonged

/-- Nothing is known yet of what these lines belong to: they mean nothing, or are tags. -/
def Pending (lines : List Line) : Prop :=
  ∀ line ∈ lines, line.isIgnorable = true ∨ line.kind = .tags ∧
    ∃ here, lineTags line (Word.beforeComment (Word.split 1 line.raw)) = .ok here

theorem Pending.mono (pending : Pending lines) (suffix : rest <:+ lines) : Pending rest :=
  fun line member => pending line (suffix.subset member)

theorem not_pending_of_mem (member : line ∈ lines) (kept : line.isIgnorable = false)
    (notTags : line.kind ≠ .tags) : ¬ Pending lines := by
  intro pending
  rcases pending line member with ignorable | ⟨kind, _⟩
  · rw [kept] at ignorable
    cases ignorable
  · exact notTags kind

theorem ne_nil_of_not_pending (decided : ¬ Pending lines) : lines ≠ [] := by
  rintro rfl
  exact decided (List.forall_mem_nil _)

end Line

namespace Grammar

variable {dialect : Dialect} {release : Release} {line : Line} {lines others below rest : List Line}

theorem Tags.head {found : List Tag} (read : Tags lines found (line :: below)) :
    line.isIgnorable = false ∧ line.kind ≠ .tags := by
  generalize whole : line :: below = rest at read
  induction read with
  | done => cases whole
  | skip _ _ ih => exact ih whole
  | line _ _ _ ih => exact ih whole
  | stop kept notTags =>
    cases whole
    exact ⟨kept, notTags⟩

theorem Tags.pending {found : List Tag} (read : Tags lines found []) : Pending lines := by
  generalize ended : [] = rest at read
  induction read with
  | done => exact List.forall_mem_nil _
  | skip ignorable _ ih => exact List.forall_mem_cons.mpr ⟨.inl ignorable, ih ended⟩
  | line kind here _ ih => exact List.forall_mem_cons.mpr ⟨.inr ⟨kind, _, here⟩, ih ended⟩
  | stop => cases ended

theorem Tags.not_pending {found : List Tag} (read : Tags lines found (line :: below)) :
    ¬ Pending lines :=
  not_pending_of_mem (read.suffix.subset List.mem_cons_self) read.head.1 read.head.2

/-! ## What is read again -/

theorem Tags.prolonged {found : List Tag} (read : Tags lines found rest) (more : rest ≠ [])
    (prolonged : Prolonged dialect lines others) :
    ∃ left, Tags others found left ∧ Prolonged dialect rest left := by
  induction read generalizing others with
  | done => exact absurd rfl more
  | skip ignorable _ ih =>
    obtain ⟨other, others, rfl, alike, _, later⟩ := prolonged.exists_cons
    obtain ⟨left, again, behind⟩ := ih more later
    exact ⟨left, .skip (alike.isIgnorable.trans ignorable) again, behind⟩
  | line kind here _ ih =>
    obtain ⟨other, others, rfl, alike, number, later⟩ := prolonged.exists_cons
    obtain ⟨left, again, behind⟩ := ih more later
    rw [← alike.words, ← alike.lineTags number] at here
    exact ⟨left, .line (alike.kind.trans kind) here again, behind⟩
  | stop kept notTags =>
    obtain ⟨other, others, rfl, alike, _, _⟩ := prolonged.exists_cons
    exact ⟨_, .stop (alike.isIgnorable.trans kept) (alike.kind ▸ notTags), prolonged⟩

theorem Tags.prolonged_cons {found : List Tag} (read : Tags lines found (line :: below))
    (prolonged : Prolonged dialect lines others) :
    ∃ other left, Tags others found (other :: left) ∧ Alike dialect .elsewhere line other ∧
      other.number = line.number ∧ Prolonged dialect below left := by
  obtain ⟨_, again, behind⟩ := read.prolonged (List.cons_ne_nil _ _) prolonged
  obtain ⟨other, left, rfl, alike, number, later⟩ := behind.exists_cons
  exact ⟨other, left, again, alike, number, later⟩

theorem Rows.prolonged {width : Option Nat} {found : List Row} (read : Rows width lines found rest)
    (more : rest ≠ []) (prolonged : Prolonged dialect lines others) :
    ∃ again left, Rows width others again left ∧ Prolonged dialect rest left := by
  induction read generalizing others with
  | done => exact absurd rfl more
  | row kind fits _ ih =>
    obtain ⟨other, others, rfl, alike, _, later⟩ := prolonged.exists_cons
    obtain ⟨again, left, read, behind⟩ := ih more later
    rw [← alike.length_cells] at fits read
    exact ⟨_, left, .row (alike.kind.trans kind) fits read, behind⟩
  | comment kind _ ih =>
    obtain ⟨other, others, rfl, alike, _, later⟩ := prolonged.exists_cons
    obtain ⟨again, left, read, behind⟩ := ih more later
    exact ⟨again, left, .comment (alike.kind.trans kind) read, behind⟩
  | stop notRow notComment =>
    obtain ⟨other, others, rfl, alike, _, _⟩ := prolonged.exists_cons
    exact ⟨[], _, .stop (alike.kind ▸ notRow) (alike.kind ▸ notComment), prolonged⟩

/-- A doc string that is closed stays as it is. -/
theorem Content.prolonged {fence : Fence} {indent : Nat} {found : List Text}
    (read : Content fence indent lines found rest) (prolonged : Prolonged dialect lines others) :
    ∃ again left, Content fence indent others again left ∧ Prolonged dialect rest left := by
  induction read generalizing others with
  | close closes =>
    obtain ⟨other, others, rfl, alike, _, later⟩ := prolonged.exists_cons
    exact ⟨[], others, .close (alike.trimmed.trans closes), later⟩
  | line inside _ ih =>
    obtain ⟨other, others, rfl, alike, _, later⟩ := prolonged.exists_cons
    obtain ⟨again, left, read, behind⟩ := ih later
    exact ⟨_, left, .line (alike.trimmed ▸ inside) read, behind⟩

/-- The first line that means something is there again. -/
theorem exists_skipped (skipped : lines.dropWhile Line.isIgnorable = line :: below)
    (prolonged : Prolonged dialect lines others) :
    ∃ other left, others.dropWhile Line.isIgnorable = other :: left ∧
      Alike dialect .elsewhere line other ∧ other.number = line.number ∧
      Prolonged dialect below left := by
  have behind := prolonged.dropWhile passes_isIgnorable
  rw [skipped] at behind
  exact behind.exists_cons

theorem Argument.prolonged {found : Option Document.Argument} (read : Argument lines found rest)
    (more : rest ≠ []) (prolonged : Prolonged dialect lines others) :
    ∃ again left, Argument others again left ∧ Prolonged dialect rest left := by
  cases read with
  | none skipped neither =>
    have behind := prolonged.dropWhile passes_isIgnorable
    rw [skipped] at behind
    exact ⟨_, _, .none rfl (behind.head_kind more
      (fun kind => kind ≠ .row ∧ ∀ fence type, kind ≠ .fence fence type) neither), behind⟩
  | table skipped kind rows =>
    obtain ⟨other, left, first, alike, number, later⟩ := exists_skipped skipped prolonged
    obtain ⟨again, left, read, behind⟩ := rows.prolonged more (.cons alike number later)
    exact ⟨_, left, .table first (alike.kind.trans kind) read, behind⟩
  | docString skipped kind content =>
    obtain ⟨other, left, first, alike, _, later⟩ := exists_skipped skipped prolonged
    obtain ⟨again, left, read, behind⟩ := content.prolonged later
    rw [← alike.indent (by simp [kind])] at read
    exact ⟨_, left, .docString first (alike.kind.trans kind) read, behind⟩

theorem Steps.prolonged {found : List Step} (read : Steps lines found rest) (more : rest ≠ [])
    (prolonged : Prolonged dialect lines others) :
    ∃ again left, Steps others again left ∧ Prolonged dialect rest left := by
  induction read generalizing others with
  | done skipped other =>
    have behind := prolonged.dropWhile passes_isIgnorable
    rw [skipped] at behind
    exact ⟨[], _, .done rfl (behind.head_kind more
      (fun kind => ∀ keyword text, kind ≠ .step keyword text) other), behind⟩
  | step skipped kind argument steps ih =>
    obtain ⟨other, left, first, alike, _, later⟩ := exists_skipped skipped prolonged
    obtain ⟨_, left, below, behind⟩ := argument.prolonged (steps.suffix.ne_nil more) later
    obtain ⟨again, left, read, behind⟩ := ih more behind
    exact ⟨_, left, .step first (alike.kind.trans kind) below read, behind⟩

/-! ## Up to a line that decides

Blocks and tests are read up to where tags begin that belong to something else. What they belong
to has to be known for that. -/

theorem Blocks.prolonged {allowed : Bool} {found : List Examples}
    (read : Blocks allowed lines found rest) (decided : ¬ Pending rest)
    (prolonged : Prolonged dialect lines others) :
    ∃ again left, Blocks allowed others again left ∧ Prolonged dialect rest left := by
  induction read generalizing others with
  | @done lines found next tags other =>
    have more : next ≠ [] := by
      rintro rfl
      exact decided tags.pending
    obtain ⟨left, again, behind⟩ := tags.prolonged more prolonged
    exact ⟨[], others, .done again (behind.head_kind more
      (fun kind => ∀ keyword name, kind ≠ .header .examples keyword name) other), prolonged⟩
  | block allowed tags kind rows blocks ih =>
    obtain ⟨other, below, again, alike, _, later⟩ := tags.prolonged_cons prolonged
    have more := ne_nil_of_not_pending fun pending => decided (pending.mono blocks.suffix)
    obtain ⟨_, left, table, behind⟩ := rows.prolonged more
      ((later.dropWhile passes_continuesDescription).dropWhile passes_isIgnorable)
    obtain ⟨_, left, read, behind⟩ := ih decided behind
    exact ⟨_, left, .block allowed again (alike.kind.trans kind) table read, behind⟩

theorem Test.prolonged {found : List Tag} {line : Line} {construct : Construct}
    {keyword name : Text} {test : Scenario}
    (read : Test release found line construct keyword name lines test rest)
    (decided : ¬ Pending rest) (prolonged : Prolonged dialect lines others) (other : Line) :
    ∃ again left, Test release found other construct keyword name others again left ∧
      Prolonged dialect rest left := by
  cases read with
  | intro steps blocks =>
    have more := ne_nil_of_not_pending fun pending => decided (pending.mono blocks.suffix)
    obtain ⟨_, left, performed, behind⟩ :=
      steps.prolonged more (prolonged.dropWhile passes_continuesDescription)
    obtain ⟨_, left, read, behind⟩ := blocks.prolonged decided behind
    exact ⟨_, left, .intro performed read, behind⟩

theorem Tests.prolonged {found : List Scenario} (read : Tests release lines found rest)
    (decided : ¬ Pending rest) (prolonged : Prolonged dialect lines others) :
    ∃ again left, Tests release others again left ∧ Prolonged dialect rest left := by
  induction read generalizing others with
  | done => exact absurd (List.forall_mem_nil _) decided
  | rule tags kind =>
    obtain ⟨other, _, again, alike, _, _⟩ := tags.prolonged_cons prolonged
    exact ⟨[], others, .rule again (alike.kind.trans kind), prolonged⟩
  | test tags kind either test tests ih =>
    obtain ⟨other, _, again, alike, _, later⟩ := tags.prolonged_cons prolonged
    obtain ⟨_, _, here, behind⟩ :=
      test.prolonged (fun pending => decided (pending.mono tests.suffix)) later other
    obtain ⟨_, left, read, behind⟩ := ih decided behind
    exact ⟨_, left, .test again (alike.kind.trans kind) either here read, behind⟩

theorem Body.prolonged {found : Document.Body} (read : Body release lines found rest)
    (decided : ¬ Pending rest) (prolonged : Prolonged dialect lines others) :
    ∃ again left, Body release others again left ∧ Prolonged dialect rest left := by
  cases read with
  | background tags kind steps tests =>
    obtain ⟨other, _, again, alike, _, later⟩ := tags.prolonged_cons prolonged
    have more := ne_nil_of_not_pending fun pending => decided (pending.mono tests.suffix)
    obtain ⟨_, _, performed, behind⟩ :=
      steps.prolonged more (later.dropWhile passes_continuesDescription)
    obtain ⟨_, left, read, behind⟩ := tests.prolonged decided behind
    exact ⟨_, left, .background again (alike.kind.trans kind) performed read, behind⟩
  | tests tests =>
    obtain ⟨_, left, read, behind⟩ := tests.prolonged decided prolonged
    exact ⟨_, left, .tests read, behind⟩

end Grammar

end Gherkin
