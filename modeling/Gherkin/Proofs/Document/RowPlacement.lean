import Gherkin.Proofs.Document.Commented

/-!
# Where rows stand

A row that is read outside of a doc string stands below another row, with nothing but comments
between them, or begins the table of a step or of an examples block. So a line that is not a
comment cannot stand between two rows of one table.
-/

namespace Gherkin

open Document

namespace Line

/-- Whether a table can begin below a line, given whether it can begin at the line. -/
def opensTable (line : Line) (opened : Bool) : Bool :=
  match line.kind with
  | .step _ _ | .header .examples _ _ => true
  | .tags | .row | .fence _ _ | .header _ _ _ => false
  | _ => opened

/-- Every row outside of a doc string begins a table or is below another row. -/
def RowsPlaced : Spot → Bool → List Line → Prop
  | _, _, [] => True
  | spot, opened, line :: rest =>
    (line.kind = .row → spot.IsOutside → opened = true ∨ spot = .belowRow) ∧
      RowsPlaced (spot.after line) (line.opensTable opened) rest

namespace RowsPlaced

variable {spot other : Spot} {opened : Bool} {line : Line} {lines : List Line}

/-- What is placed where no row may stand is placed everywhere outside of doc strings. -/
theorem mono (placed : RowsPlaced spot opened lines) {more : Bool}
    (spots : other = spot ∨ spot = .elsewhere ∧ other = .belowRow)
    (wider : opened = true → more = true) : RowsPlaced other more lines := by
  induction lines generalizing spot other opened more with
  | nil => trivial
  | cons line rest ih =>
      obtain ⟨here, later⟩ := placed
      refine ⟨fun row outside => ?_, ih later ?_ ?_⟩
      · rcases spots with rfl | ⟨_, rfl⟩
        · exact (here row outside).imp_left wider
        · exact .inr rfl
      · rcases spots with rfl | ⟨rfl, rfl⟩
        · exact .inl rfl
        · by_cases comment : line.kind = .comment
          · exact .inr (by simp [Spot.after, comment])
          · exact .inl (Spot.isOutside_belowRow.after_eq comment)
      · intro wide
        unfold opensTable at wide ⊢
        split at wide <;> simp_all

theorem of_closed (placed : RowsPlaced .elsewhere false lines) (outside : spot.IsOutside) :
    RowsPlaced spot opened lines := by
  refine placed.mono ?_ nofun
  cases spot with
  | elsewhere => exact .inl rfl
  | belowRow => exact .inr ⟨rfl, rfl⟩
  | inside fence => exact absurd rfl (outside fence)

/-- A line that is neither a row nor a delimiter leaves it to the lines below. -/
theorem cons (notRow : line.kind ≠ .row) (notFence : ∀ fence type, line.kind ≠ .fence fence type)
    (placed : RowsPlaced .elsewhere (line.opensTable opened) lines) :
    RowsPlaced .elsewhere opened (line :: lines) := by
  have stays : Spot.elsewhere.after line = .elsewhere := by
    cases kind : line.kind <;> simp_all [Spot.after]
  refine ⟨fun row => absurd row notRow, ?_⟩
  rwa [stays]

theorem cons_of_continues (continues : line.continuesDescription = true)
    (placed : RowsPlaced .elsewhere opened lines) :
    RowsPlaced .elsewhere opened (line :: lines) := by
  have same : line.opensTable opened = opened ∧ line.kind ≠ .row := by
    cases kind : line.kind <;> simp_all [continuesDescription, isIgnorable, opensTable]
  apply cons same.2 (passes_continuesDescription.closed continues)
  rwa [same.1]

/-- Below tags and headers there is no row, but for the table of examples. -/
theorem cons_of_closed (notRow : line.kind ≠ .row)
    (notFence : ∀ fence type, line.kind ≠ .fence fence type)
    (placed : RowsPlaced .elsewhere false lines) : RowsPlaced .elsewhere opened (line :: lines) :=
  cons notRow notFence (placed.of_closed Spot.isOutside_elsewhere)

/-- What stands below some lines is placed there. No table can begin in the middle of another. -/
theorem of_append {front : List Line} (placed : RowsPlaced spot opened (front ++ lines))
    (within : spot = .belowRow → opened = false) :
    ∃ more, RowsPlaced (spot.below front) more lines ∧
      (spot.below front = .belowRow → more = false) := by
  induction front generalizing spot opened with
  | nil => exact ⟨opened, placed, within⟩
  | cons line front ih =>
      refine ih placed.2 fun below => ?_
      rcases Spot.after_eq_belowRow below with kind | ⟨kind, same⟩
      · simp [opensTable, kind]
      · simp [opensTable, kind, within same]

/-- A row does not stand below lines that end a table. -/
theorem not_continuesTable (placed : RowsPlaced .elsewhere false lines) :
    ¬ ContinuesTable lines := by
  rintro ⟨row, first, kind⟩
  induction lines with
  | nil => cases first
  | cons line rest ih =>
      obtain ⟨here, later⟩ := placed
      by_cases comment : line.kind = .comment
      · have same : line.opensTable false = false := by simp [opensTable, comment]
        rw [List.dropWhile_cons_of_pos (by simp [comment])] at first
        rw [Spot.isOutside_elsewhere.after_comment comment, same] at later
        exact ih later first
      · rw [List.dropWhile_cons_of_neg (by simp [comment])] at first
        cases first
        rcases here kind Spot.isOutside_elsewhere with opened | below
        · cases opened
        · cases below

/-- Lines between constructs and in descriptions can be passed over. -/
theorem of_dropWhile {p : Line → Bool} (passed : ∀ line, p line = true → line.continuesDescription)
    (placed : RowsPlaced .elsewhere opened (lines.dropWhile p)) :
    RowsPlaced .elsewhere opened lines := by
  induction lines with
  | nil => trivial
  | cons line rest ih =>
      by_cases goes : p line = true
      · rw [List.dropWhile_cons_of_pos goes] at placed
        exact cons_of_continues (passed line goes) (ih placed)
      · rwa [List.dropWhile_cons_of_neg goes] at placed

theorem of_significant (placed : RowsPlaced .elsewhere opened (significant lines)) :
    RowsPlaced .elsewhere opened lines :=
  placed.of_dropWhile fun line ignorable => by simp [continuesDescription, ignorable]

theorem of_header {construct : Construct} {keyword name : Text}
    (placed : RowsPlaced .elsewhere opened (header line construct keyword name lines).rest) :
    RowsPlaced .elsewhere opened lines :=
  placed.of_dropWhile fun _ continues => continues

end RowsPlaced

end Line

namespace Grammar

open Line

variable {release : Release} {spot : Spot} {opened : Bool} {lines rest : List Line}

theorem Tags.rowsPlaced {found : List Tag} (read : Tags lines found rest)
    (placed : RowsPlaced .elsewhere false rest) : RowsPlaced .elsewhere false lines := by
  induction read with
  | done => trivial
  | skip ignorable _ ih =>
      exact (ih placed).cons_of_continues (by simp [continuesDescription, ignorable])
  | line kind _ _ ih => exact (ih placed).cons_of_closed (by simp [kind]) (by simp [kind])
  | stop => exact placed

theorem Rows.rowsPlaced {width : Option Nat} {found : List Row} (read : Rows width lines found rest)
    (outside : spot.IsOutside) (allowed : opened = true ∨ spot = .belowRow)
    (placed : RowsPlaced .elsewhere false rest) : RowsPlaced spot opened lines := by
  induction read generalizing spot opened with
  | done => trivial
  | @row _ line _ _ _ kind _ _ ih =>
      have below : spot.after line = .belowRow := by
        rw [outside.after_eq (by simp [kind])]
        simp [Spot.after, kind]
      refine ⟨fun _ _ => allowed, ?_⟩
      rw [below]
      exact ih Spot.isOutside_belowRow (.inr rfl) placed
  | @comment _ line _ _ _ kind _ ih =>
      have stays : spot.after line = spot := outside.after_comment kind
      have same : line.opensTable opened = opened := by simp [opensTable, kind]
      refine ⟨fun row => absurd row (by simp [kind]), ?_⟩
      rw [stays, same]
      exact ih outside allowed placed
  | stop => exact placed.of_closed outside

theorem Content.rowsPlaced {fence : Fence} {indent : Nat} {found : List Text}
    (read : Content fence indent lines found rest) (placed : RowsPlaced .elsewhere false rest) :
    RowsPlaced (.inside fence) opened lines := by
  have within : ¬ (Spot.inside fence).IsOutside := fun outside => outside fence rfl
  induction read generalizing opened with
  | close closed =>
      refine ⟨fun _ outside => absurd outside within, ?_⟩
      rw [Spot.after, if_pos closed]
      exact placed.of_closed Spot.isOutside_elsewhere
  | line apart _ ih =>
      refine ⟨fun _ outside => absurd outside within, ?_⟩
      rw [Spot.after, if_neg apart]
      exact ih placed

theorem Argument.rowsPlaced {found : Option Document.Argument} (read : Argument lines found rest)
    (placed : RowsPlaced .elsewhere false rest) : RowsPlaced .elsewhere true lines := by
  apply RowsPlaced.of_significant
  cases read with
  | none skipped =>
      subst skipped
      exact placed.of_closed Spot.isOutside_elsewhere
  | table skipped _ rows =>
      rw [significant, skipped]
      exact rows.rowsPlaced Spot.isOutside_elsewhere (.inl rfl) placed
  | @docString line below fence type found _ skipped kind inside =>
      have opens : Spot.elsewhere.after line = .inside fence := by simp [Spot.after, kind]
      rw [significant, skipped]
      refine ⟨fun row => absurd row (by simp [kind]), ?_⟩
      rw [opens]
      exact inside.rowsPlaced placed

theorem Steps.rowsPlaced {found : List Step} (read : Steps lines found rest)
    (placed : RowsPlaced .elsewhere false rest) : RowsPlaced .elsewhere false lines := by
  apply RowsPlaced.of_significant
  induction read with
  | done skipped =>
      subst skipped
      exact placed
  | @step lines line below _ _ _ _ _ _ skipped kind given _ ih =>
      have opens : line.opensTable false = true := by simp [opensTable, kind]
      rw [significant, skipped]
      apply RowsPlaced.cons (by simp [kind]) (by simp [kind])
      rw [opens]
      exact given.rowsPlaced (RowsPlaced.of_significant (ih placed))

theorem Blocks.rowsPlaced {allowed : Bool} {found : List Examples}
    (read : Blocks allowed lines found rest) (placed : RowsPlaced .elsewhere false rest) :
    RowsPlaced .elsewhere false lines := by
  induction read with
  | done => exact placed
  | @block lines tags line below _ _ _ _ _ _ _ above kind rows _ ih =>
      have opens : line.opensTable false = true := by simp [opensTable, kind]
      apply above.rowsPlaced
      apply RowsPlaced.cons (by simp [kind]) (by simp [kind])
      rw [opens]
      apply RowsPlaced.of_header
      apply RowsPlaced.of_significant
      exact rows.rowsPlaced Spot.isOutside_elsewhere (.inl rfl) (ih placed)

theorem Test.rowsPlaced {found : List Tag} {line : Line} {construct : Construct}
    {keyword name : Text} {test : Scenario}
    (read : Test release found line construct keyword name lines test rest)
    (placed : RowsPlaced .elsewhere false rest) : RowsPlaced .elsewhere false lines := by
  cases read with
  | intro steps blocks =>
      exact RowsPlaced.of_header (steps.rowsPlaced (blocks.rowsPlaced placed))

theorem Tests.rowsPlaced {found : List Scenario} (read : Tests release lines found rest)
    (placed : RowsPlaced .elsewhere false rest) : RowsPlaced .elsewhere false lines := by
  induction read with
  | done tags => exact tags.rowsPlaced placed
  | rule => exact placed
  | test above kind _ test _ ih =>
      apply above.rowsPlaced
      exact (test.rowsPlaced (ih placed)).cons_of_closed (by simp [kind]) (by simp [kind])

theorem Body.rowsPlaced {found : Document.Body} (read : Body release lines found rest)
    (placed : RowsPlaced .elsewhere false rest) : RowsPlaced .elsewhere false lines := by
  cases read with
  | background above kind steps tests =>
      apply above.rowsPlaced
      apply RowsPlaced.cons_of_closed (by simp [kind]) (by simp [kind])
      exact RowsPlaced.of_header (steps.rowsPlaced (tests.rowsPlaced placed))
  | tests tests => exact tests.rowsPlaced placed

theorem Rules.rowsPlaced {found : List Rule} (read : Rules release lines found) :
    RowsPlaced .elsewhere false lines := by
  induction read with
  | done tags => exact tags.rowsPlaced trivial
  | rule _ above kind _ inner _ ih =>
      apply above.rowsPlaced
      apply RowsPlaced.cons_of_closed (by simp [kind]) (by simp [kind])
      exact RowsPlaced.of_header (inner.rowsPlaced ih)

/-- Every row of a document that is read belongs to a table. -/
theorem Feature.rowsPlaced {language : Text} {found : Option Document.Feature}
    (read : Feature release language lines found) : RowsPlaced .elsewhere false lines := by
  cases read with
  | none tags => exact tags.rowsPlaced trivial
  | some above kind inner behind =>
      apply above.rowsPlaced
      apply RowsPlaced.cons_of_closed (by simp [kind]) (by simp [kind])
      exact RowsPlaced.of_header (inner.rowsPlaced behind.rowsPlaced)

end Grammar

end Gherkin
