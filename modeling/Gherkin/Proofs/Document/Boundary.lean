import Gherkin.Proofs.Document.Grammar
import Gherkin.Proofs.Text.Strip

/-!
# Where constructs begin

Every reader passes over the lines in front of it that mean nothing, so what it reads does
not depend on them. Behind some tags there is the header of a construct, or the end.
-/

namespace Gherkin

/-- The lines from the first one on that means something. -/
def Line.significant (lines : List Line) : List Line := lines.dropWhile Line.isIgnorable

namespace Line

theorem significant_cons {line : Line} (rest : List Line) (kept : line.isIgnorable = false) :
    significant (line :: rest) = line :: rest := List.dropWhile_cons_of_neg (by simp [kept])

theorem significant_append {front : List Line}
    (ignorable : ∀ line ∈ front, line.isIgnorable = true) (rest : List Line) :
    significant (front ++ rest) = significant rest := List.dropWhile_append_of_pos ignorable

theorem significant_significant (lines : List Line) :
    significant (significant lines) = significant lines := List.dropWhile_idempotent _ _

theorem not_isIgnorable_of_mem_head? {line : Line} {lines : List Line}
    (first : line ∈ (significant lines).head?) : line.isIgnorable = false :=
  head?_dropWhile_eq_false first

theorem not_isIgnorable_of_significant {line : Line} {lines rest : List Line}
    (first : significant lines = line :: rest) : line.isIgnorable = false :=
  not_isIgnorable_of_mem_head? (congrArg List.head? first)

end Line

namespace Grammar

open Document Line

variable {lines other rest : List Line} {found : List Tag}

theorem tags_significant_iff : Tags (significant lines) found rest ↔ Tags lines found rest := by
  induction lines with
  | nil => rfl
  | cons line lines ih =>
      by_cases ignorable : line.isIgnorable = true
      · have skipped : significant (line :: lines) = significant lines :=
          List.dropWhile_cons_of_pos ignorable
        rw [skipped, ih]
        constructor
        · exact .skip ignorable
        · intro read
          cases read with
          | skip _ read => exact read
          | line kind => simp [isIgnorable, kind] at ignorable
          | stop kept => exact absurd ignorable (by simp [kept])
      · rw [significant_cons _ (by simpa using ignorable)]

theorem Tags.of_significant (read : Tags lines found rest)
    (same : significant other = significant lines) : Tags other found rest :=
  tags_significant_iff.1 (same ▸ tags_significant_iff.2 read)

/-- Behind some tags there is the header of one of some constructs, or nothing at all. -/
structure Boundary (constructs : List Construct) (lines : List Line) : Prop where
  read : ∃ found next, Tags lines found next ∧ (next = [] → found = [] ∧ significant lines = []) ∧
    ∀ line ∈ next.head?, ∃ construct ∈ constructs, ∃ keyword name,
      line.kind = .header construct keyword name

variable {constructs : List Construct}

theorem Boundary.nil : Boundary constructs [] := ⟨[], [], .done, fun _ => ⟨rfl, rfl⟩, by simp⟩

theorem Boundary.of_significant (boundary : Boundary constructs lines)
    (same : significant other = significant lines) : Boundary constructs other := by
  obtain ⟨found, next, read, rest⟩ := boundary.read
  rw [← same] at rest
  exact ⟨found, next, read.of_significant same, rest⟩

theorem Boundary.mono {more : List Construct} (boundary : Boundary constructs lines)
    (subset : constructs ⊆ more) : Boundary more lines := by
  obtain ⟨found, next, read, none, header⟩ := boundary.read
  refine ⟨found, next, read, none, fun line first => ?_⟩
  obtain ⟨construct, member, kind⟩ := header line first
  exact ⟨construct, subset member, kind⟩

/-- The first line of a boundary has tags or is a header. -/
theorem Boundary.head (boundary : Boundary constructs lines) :
    ∀ line ∈ (significant lines).head?,
      line.kind = .tags ∨ ∃ construct keyword name, line.kind = .header construct keyword name := by
  intro line first
  have kept := not_isIgnorable_of_mem_head? first
  obtain ⟨found, next, read, _, header⟩ := boundary.read
  rw [← tags_significant_iff] at read
  generalize significant lines = front at first read
  cases read with
  | done => cases first
  | skip ignorable =>
      cases first
      exact absurd ignorable (by simp [kept])
  | line kind =>
      cases first
      exact .inl kind
  | stop =>
      obtain ⟨construct, _, keyword, name, kind⟩ := header line first
      exact .inr ⟨construct, keyword, name, kind⟩

theorem Boundary.ne_other (boundary : Boundary constructs lines) :
    ∀ line ∈ (significant lines).head?, line.kind ≠ .other := by
  intro line first
  rcases boundary.head line first with kind | ⟨_, _, _, kind⟩ <;> simp [kind]

end Grammar

end Gherkin
