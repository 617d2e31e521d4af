import Gherkin.Proofs.Document.Boundary
import Gherkin.Proofs.Document.Spelling
import Gherkin.Proofs.Line.Fields

/-!
# Comments among lines

Lines that begin with a number sign can be put among the lines of a document, but not into a
doc string. A line that looks like a language header cannot stand between two rows either, as
it ends the table. Passing over what means nothing, one passes over the comments.
-/

namespace Gherkin

open Document Line

/-- Where a line stands: inside a doc string, below a row with nothing but comments between
them, or elsewhere. -/
inductive Spot where
  | elsewhere
  | belowRow
  | inside (fence : Fence)
deriving DecidableEq

namespace Spot

variable {spot : Spot} {line : Line}

/-- Where the line below a line stands. -/
def after (spot : Spot) (line : Line) : Spot :=
  match spot with
  | .inside fence => if line.trimmed = fence.text then .elsewhere else .inside fence
  | spot =>
    match line.kind with
    | .row => .belowRow
    | .fence fence _ => .inside fence
    | .comment => spot
    | _ => .elsewhere

/-- Where the line below some lines stands. -/
def below (spot : Spot) (lines : List Line) : Spot := lines.foldl Spot.after spot

/-- No doc string is open. -/
def IsOutside (spot : Spot) : Prop := ∀ fence, spot ≠ .inside fence

theorem isOutside_elsewhere : IsOutside .elsewhere := nofun

theorem isOutside_belowRow : IsOutside .belowRow := nofun

attribute [local simp] Spot.after

/-- Only a delimiter opens a doc string. -/
theorem IsOutside.after (outside : spot.IsOutside)
    (notFence : ∀ fence type, line.kind ≠ .fence fence type) : (spot.after line).IsOutside := by
  cases spot with
  | inside fence => exact absurd rfl (outside fence)
  | _ => cases kind : line.kind <;> simp_all [IsOutside]

theorem IsOutside.after_comment (outside : spot.IsOutside) (comment : line.kind = .comment) :
    spot.after line = spot := by
  cases spot with
  | inside fence => exact absurd rfl (outside fence)
  | _ => simp [comment]

/-- Only comments keep what was in front of them in mind. -/
theorem IsOutside.after_eq (outside : spot.IsOutside) (other : line.kind ≠ .comment) :
    spot.after line = elsewhere.after line := by
  cases spot with
  | inside fence => exact absurd rfl (outside fence)
  | _ => cases kind : line.kind <;> simp_all

theorem after_eq_belowRow (below : spot.after line = .belowRow) :
    line.kind = .row ∨ line.kind = .comment ∧ spot = .belowRow := by
  cases spot with
  | inside fence =>
      rw [after] at below
      split at below <;> cases below
  | _ => cases kind : line.kind <;> simp_all

end Spot

namespace Line

/-- A line that begins with a number sign: a comment, or what would be a language header in
front of the feature. -/
def IsNote (line : Line) : Prop := line.kind = .comment ∨ ∃ code, line.kind = .language code

theorem IsNote.isIgnorable {line : Line} (note : line.IsNote) : line.isIgnorable = true := by
  rcases note with kind | ⟨code, kind⟩ <;> simp [Line.isIgnorable, kind]

/-- A reader passes over lines, notes among them, and opens no doc string. -/
structure Passes (p : Line → Bool) : Prop where
  same : ∀ {line other : Line}, other.kind = line.kind → p other = p line
  note : ∀ {line : Line}, line.IsNote → p line = true
  closed : ∀ {line : Line}, p line = true → ∀ fence type, line.kind ≠ .fence fence type

theorem passes_isIgnorable : Passes isIgnorable where
  same kind := by rw [isIgnorable, isIgnorable, kind]
  note note := note.isIgnorable
  closed passed fence type kind := by simp [isIgnorable, kind] at passed

theorem passes_continuesDescription : Passes continuesDescription where
  same kind := by rw [continuesDescription, continuesDescription, isIgnorable, isIgnorable, kind]
  note note := by simp [continuesDescription, note.isIgnorable]
  closed passed fence type kind := by simp [continuesDescription, isIgnorable, kind] at passed

/-- The first line behind the comments is a row. -/
def ContinuesTable (lines : List Line) : Prop :=
  ∃ row ∈ (lines.dropWhile fun line => line.kind == .comment).head?, row.kind = .row

/-- A line is read like another one in its place: it differs in its number, and in the blanks at
its end unless it belongs to the contents of a doc string. -/
structure Alike (dialect : Dialect) (spot : Spot) (line other : Line) : Prop where
  classified : dialect.Classifies [line, other]
  ends : Text.trimEnd other.raw = Text.trimEnd line.raw
  inside : ∀ fence, spot = .inside fence → line.trimmed ≠ fence.text → other.raw = line.raw

namespace Alike

variable {dialect : Dialect} {spot : Spot} {line other : Line}

theorem of_read {raw other : Text} (here : '\n' ∉ raw) (there : '\n' ∉ other)
    (ends : Text.trimEnd other = Text.trimEnd raw)
    (inside : ∀ fence, spot = .inside fence → Text.trim raw ≠ fence.text → other = raw)
    (number number' : Nat) :
    Alike dialect spot (read dialect number raw) (read dialect number' other) :=
  ⟨List.forall_mem_cons.mpr ⟨⟨rfl, here⟩, List.forall_mem_singleton.mpr ⟨rfl, there⟩⟩, ends, inside⟩

theorem trimmed (alike : Alike dialect spot line other) : other.trimmed = line.trimmed := by
  rw [Line.trimmed, ← Text.trim_trimEnd, alike.ends, Text.trim_trimEnd, Line.trimmed]

theorem kind (alike : Alike dialect spot line other) : other.kind = line.kind := by
  rw [(alike.classified other (by simp)).1, alike.trimmed, (alike.classified line (by simp)).1]

theorem words (alike : Alike dialect spot line other) :
    Word.split 1 other.raw = Word.split 1 line.raw := by
  rw [← Word.split_trimEnd, alike.ends, Word.split_trimEnd]

theorem values (alike : Alike dialect spot line other) :
    (Cell.split other.raw).map Cell.value = (Cell.split line.raw).map Cell.value := by
  rw [← Cell.values_split_trimEnd, alike.ends, Cell.values_split_trimEnd]

theorem length_cells (alike : Alike dialect spot line other) :
    (Cell.split other.raw).length = (Cell.split line.raw).length := by
  simpa using congrArg List.length alike.values

theorem written (alike : Alike dialect spot line other) (kind : line.kind ≠ .blank) :
    ¬ Text.IsBlank line.raw := by
  intro blank
  apply kind
  rw [(alike.classified line (by simp)).1, classify_eq_blank_iff]
  exact Text.trim_eq_nil_iff.mpr blank

theorem indent (alike : Alike dialect spot line other) (kind : line.kind ≠ .blank) :
    Text.indent other.raw = Text.indent line.raw := by
  have here := alike.written kind
  have there : ¬ Text.IsBlank other.raw := by
    rwa [← Text.trimEnd_eq_nil_iff, alike.ends, Text.trimEnd_eq_nil_iff]
  rw [← Text.indent_trimEnd there, alike.ends, Text.indent_trimEnd here]

theorem isIgnorable (alike : Alike dialect spot line other) :
    other.isIgnorable = line.isIgnorable := by
  rw [Line.isIgnorable, Line.isIgnorable, alike.kind]

/-- Outside of doc strings it does not matter where lines that are alike stand. -/
theorem of_isOutside (alike : Alike dialect spot line other) {there : Spot}
    (outside : there.IsOutside) : Alike dialect there line other :=
  ⟨alike.classified, alike.ends, fun fence within => absurd within (outside fence)⟩

theorem elsewhere (alike : Alike dialect spot line other) : Alike dialect .elsewhere line other :=
  alike.of_isOutside Spot.isOutside_elsewhere

/-- What lists of lines have in common that are alike, one by one. -/
theorem all {as bs : List Line} (each : List.Forall₂ (Alike dialect spot) as bs) :
    (bs.map Line.raw).map Text.trimEnd = (as.map Line.raw).map Text.trimEnd ∧
      dialect.Classifies as ∧ dialect.Classifies bs := by
  induction each with
  | nil => exact ⟨rfl, nofun, nofun⟩
  | cons alike _ ih =>
      obtain ⟨ends, here, there⟩ := ih
      exact ⟨congrArg₂ List.cons alike.ends ends,
        List.forall_mem_cons.mpr ⟨alike.classified _ (by simp), here⟩,
        List.forall_mem_cons.mpr ⟨alike.classified _ (by simp), there⟩⟩

end Alike

/-- Lines with comments among them. A language header does not stand between two rows. -/
inductive Commented (dialect : Dialect) : Spot → List Line → List Line → Prop where
  | nil {spot} : Commented dialect spot [] []
  | insert {spot line lines others} : spot.IsOutside → line.IsNote →
      (line.kind ≠ .comment → spot = .belowRow → ¬ ContinuesTable lines) →
      Commented dialect spot lines others → Commented dialect spot lines (line :: others)
  | keep {spot line other lines others} : Alike dialect spot line other →
      Commented dialect (spot.after line) lines others →
      Commented dialect spot (line :: lines) (other :: others)

namespace Commented

variable {dialect : Dialect} {spot : Spot} {line : Line} {lines others below : List Line}

theorem elsewhere (commented : Commented dialect spot lines others) (outside : spot.IsOutside) :
    Commented dialect .elsewhere lines others := by
  induction commented with
  | nil => exact .nil
  | insert _ note _ _ ih => exact .insert Spot.isOutside_elsewhere note nofun (ih outside)
  | @keep spot line other lines others alike rest ih =>
      refine .keep alike.elsewhere ?_
      by_cases comment : line.kind = .comment
      · rw [Spot.isOutside_elsewhere.after_comment comment]
        exact ih (outside.after (by simp [comment]))
      · rw [← outside.after_eq comment]
        exact rest

/-- Passing over some lines, one passes over the comments. -/
theorem dropWhile {p : Line → Bool} (passes : Passes p)
    (commented : Commented dialect spot lines others) (outside : spot.IsOutside) :
    Commented dialect .elsewhere (lines.dropWhile p) (others.dropWhile p) := by
  induction commented with
  | nil => exact .nil
  | insert _ note _ _ ih =>
      rw [List.dropWhile_cons_of_pos (passes.note note)]
      exact ih outside
  | @keep spot line other lines others alike rest ih =>
      have same := passes.same alike.kind
      by_cases passed : p line = true
      · rw [List.dropWhile_cons_of_pos passed, List.dropWhile_cons_of_pos (same.trans passed)]
        exact ih (outside.after (passes.closed passed))
      · rw [List.dropWhile_cons_of_neg passed, List.dropWhile_cons_of_neg (same ▸ passed)]
        exact (Commented.keep alike rest).elsewhere outside

theorem significant (commented : Commented dialect spot lines others)
    (outside : spot.IsOutside) :
    Commented dialect .elsewhere (significant lines) (significant others) :=
  commented.dropWhile passes_isIgnorable outside

/-- The first line that means something is there with comments, too. -/
theorem exists_cons (commented : Commented dialect spot lines others) (outside : spot.IsOutside)
    (first : Line.significant lines = line :: below) :
    ∃ other rest, Line.significant others = other :: rest ∧ Alike dialect .elsewhere line other ∧
      Commented dialect (Spot.elsewhere.after line) below rest := by
  have later := commented.significant outside
  rw [first] at later
  generalize behind : Line.significant others = front at later
  cases later with
  | insert _ isNote =>
      exact absurd isNote.isIgnorable (by simp [not_isIgnorable_of_significant behind])
  | keep alike rest => exact ⟨_, _, rfl, alike, rest⟩

theorem significant_eq_nil (commented : Commented dialect spot lines others)
    (outside : spot.IsOutside) (none : Line.significant lines = []) :
    Line.significant others = [] := by
  have later := commented.significant outside
  rw [none] at later
  generalize behind : Line.significant others = front at later
  cases later with
  | nil => rfl
  | insert _ isNote =>
      exact absurd isNote.isIgnorable (by simp [not_isIgnorable_of_significant behind])

/-- Comments do not change of what kind the first line is that means something. -/
theorem head_kind (commented : Commented dialect spot lines others) (outside : spot.IsOutside)
    (property : LineKind → Prop)
    (holds : ∀ line ∈ (Line.significant lines).head?, property line.kind) :
    ∀ other ∈ (Line.significant others).head?, property other.kind := by
  intro other first
  cases front : Line.significant lines with
  | nil =>
      rw [commented.significant_eq_nil outside front] at first
      cases first
  | cons line below =>
      obtain ⟨same, _, whole, alike, _⟩ := commented.exists_cons outside front
      rw [whole] at first
      cases first
      rw [alike.kind]
      exact holds line (by rw [front]; rfl)

/-- Where no comment is in front, it makes no difference whether a row is above. -/
theorem belowRow (commented : Commented dialect spot lines others) (outside : spot.IsOutside) :
    Commented dialect .belowRow (Line.significant lines) (Line.significant others) := by
  cases front : Line.significant lines with
  | nil =>
      rw [commented.significant_eq_nil outside front]
      exact .nil
  | cons line below =>
      obtain ⟨other, rest, whole, alike, later⟩ := commented.exists_cons outside front
      have notComment : line.kind ≠ .comment := by
        intro comment
        simpa [isIgnorable, comment] using not_isIgnorable_of_significant front
      rw [whole]
      refine .keep (alike.of_isOutside Spot.isOutside_belowRow) ?_
      rwa [Spot.isOutside_belowRow.after_eq notComment]

/-- A comment can be among the comments that were put in. -/
theorem of_comment (commented : Commented dialect spot (line :: lines) others)
    (comment : line.kind = .comment) (outside : spot.IsOutside) :
    Commented dialect spot lines others := by
  have stays := outside.after_comment comment
  generalize whole : line :: lines = front at commented
  induction commented with
  | nil => cases whole
  | insert _ note apart _ ih =>
      refine .insert outside note (fun other below => ?_) (ih outside stays whole)
      have same := apart other below
      rw [← whole] at same
      simpa [ContinuesTable, comment] using same
  | keep alike rest =>
      cases whole
      rw [stays] at rest
      exact .insert outside (.inl (alike.kind.trans comment))
        (fun other => absurd (alike.kind.trans comment) other) rest

theorem dropComments (commented : Commented dialect spot lines others)
    (outside : spot.IsOutside) :
    Commented dialect spot (lines.dropWhile fun line => line.kind == .comment) others := by
  induction lines with
  | nil => exact commented
  | cons line lines ih =>
      by_cases comment : line.kind = .comment
      · rw [List.dropWhile_cons_of_pos (by simp [comment])]
        exact ih (commented.of_comment comment outside)
      · rw [List.dropWhile_cons_of_neg (by simp [comment])]
        exact commented

end Commented

/-- Lines that are alike one by one, from where the first of them stands. -/
inductive Aligned (dialect : Dialect) : Spot → List Line → List Line → Prop where
  | nil {spot} : Aligned dialect spot [] []
  | cons {spot line other lines others} : Alike dialect spot line other →
      Aligned dialect (spot.after line) lines others →
      Aligned dialect spot (line :: lines) (other :: others)

namespace Aligned

variable {dialect : Dialect} {spot : Spot} {lines others below rest : List Line}

theorem commented_append (aligned : Aligned dialect spot lines others)
    (commented : Commented dialect (spot.below lines) below rest) :
    Commented dialect spot (lines ++ below) (others ++ rest) := by
  induction aligned with
  | nil => exact commented
  | cons alike _ ih => exact .keep alike (ih commented)

theorem commented (aligned : Aligned dialect spot lines others) :
    Commented dialect spot lines others := by
  simpa using aligned.commented_append .nil

theorem below_eq (aligned : Aligned dialect spot lines others) :
    spot.below others = spot.below lines := by
  induction aligned with
  | nil => rfl
  | @cons spot line other lines others alike _ ih =>
      have same : spot.after other = spot.after line := by
        rw [Spot.after.eq_def, Spot.after.eq_def, alike.trimmed, alike.kind]
      rw [Spot.below, List.foldl_cons, same]
      exact ih

theorem continuesTable (aligned : Aligned dialect spot lines others)
    (continues : ContinuesTable lines) : ContinuesTable others := by
  obtain ⟨row, first, kind⟩ := continues
  induction aligned with
  | nil => cases first
  | @cons spot line other lines others alike _ ih =>
      by_cases comment : line.kind = .comment
      · rw [List.dropWhile_cons_of_pos (by simp [comment])] at first
        rw [ContinuesTable, List.dropWhile_cons_of_pos (by simp [alike.kind, comment])]
        exact ih first
      · rw [List.dropWhile_cons_of_neg (by simp [comment])] at first
        cases first
        refine ⟨other, ?_, alike.kind.trans kind⟩
        rw [List.dropWhile_cons_of_neg (by simp [alike.kind, comment])]
        rfl

end Aligned

end Line

end Gherkin
