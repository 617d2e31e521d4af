import Gherkin.Line.Cells
import Gherkin.Line.Tags
import Gherkin.Line
import Gherkin.Release
import Mathlib.Computability.Language
import Mathlib.Logic.Relation
import Mathlib.Order.CompletePartialOrder

/-!
# The language of documents

The grammar of documents as a formal language over classified lines, without regard to how
it is read. Lines that mean nothing can stand behind every construct; a description takes
those that stand among it.

`Takes` turns a language into a relation: from some lines it leads to those behind a word of
the language. Concatenation becomes composition and the star its closure, which is the form
in which the readers of a document are compared with their languages.
-/

namespace Gherkin

open scoped Computability

namespace Sentence

/-- One line of a sort. -/
def one (sort : Line → Prop) : Language Line := {lines | ∃ line, sort line ∧ lines = [line]}

/-- Lines that mean nothing. -/
def gap : Language Line := (one fun line => line.isIgnorable = true)∗

/-- A line of tags, each an at sign with at least one character behind it. -/
def tagLine : Language Line :=
  one fun line => line.kind = .tags ∧
    ∀ word ∈ Word.beforeComment (Word.split 1 line.raw), word.isTag = true

/-- The tags of a construct. -/
def tags : Language Line := tagLine * (tagLine + one fun line => line.isIgnorable = true)∗

/-- A header line. -/
def header (construct : Construct) : Language Line :=
  one fun line => ∃ keyword name, line.kind = .header construct keyword name

/-- The free text below a header. -/
def description : Language Line := (one fun line => line.continuesDescription = true)∗

/-- A table row with a number of cells. -/
def row (width : Nat) : Language Line :=
  one fun line => line.kind = .row ∧ (Cell.split line.raw).length = width

/-- A table. All rows have one number of cells, and comments can stand between them. -/
def table : Language Line :=
  ⨆ width, row width * (row width + one fun line => line.kind = .comment)∗

/-- The lines of a doc string, taken as they are, up to the first that is its delimiter. -/
def content (fence : Fence) : Language Line :=
  (one fun line => line.trimmed ≠ fence.text)∗ * one fun line => line.trimmed = fence.text

/-- A doc string. -/
def docString : Language Line :=
  ⨆ fence, (one fun line => ∃ type, line.kind = .fence fence type) * content fence

/-- The line of a step. -/
def stepLine : Language Line := one fun line => ∃ keyword text, line.kind = .step keyword text

/-- A step. -/
def step : Language Line := stepLine * gap * (1 + (table + docString)) * gap

/-- A background. -/
def background : Language Line := header .background * description * step∗

/-- An examples block. -/
def examples : Language Line :=
  (1 + tags) * header .examples * description * (1 + table) * gap

/-- The examples blocks of a test, which can have them by its header or by the release. -/
def blocks (allowed : Bool) : Language Line := if allowed then examples∗ else 1

/-- A test below its tags and its header line. -/
def testBelow (release : Release) (construct : Construct) : Language Line :=
  description * step∗ * blocks (construct == .outline || release.hasScenarioExamples)

/-- A test. Examples below the header of a scenario are known to some releases only. -/
def test (release : Release) : Language Line :=
  (1 + tags) * (header .scenario * testBelow release .scenario +
    header .outline * testBelow release .outline)

/-- What features and rules have in common. -/
def body (release : Release) : Language Line := (1 + background) * (test release)∗

/-- A rule, which can have tags in some releases only. -/
def rule (release : Release) : Language Line :=
  (if release.hasRuleTags then 1 + tags else 1) * header .rule * description * body release

/-- The rules of a feature, which some releases do not know. -/
def rules (release : Release) : Language Line := if release.hasRules then (rule release)∗ else 1

/-- A feature. -/
def feature (release : Release) : Language Line :=
  header .feature * description * body release * rules release

/-- The lines of a document. -/
def document (release : Release) : Language Line := gap * (1 + (1 + tags) * feature release)

/-! ## Words in front of lines -/

/-- Whether a word of a language leads from some lines to the lines behind it. -/
def Takes (l : Language Line) (lines rest : List Line) : Prop := ∃ front ∈ l, front ++ rest = lines

variable {l m : Language Line} {sort : Line → Prop} {lines next rest : List Line}

theorem takes_nil_iff : Takes l lines [] ↔ lines ∈ l := by simp [Takes]

theorem takes_one_iff : Takes 1 lines rest ↔ lines = rest := by simp [Takes, eq_comm]

theorem takes_add_iff : Takes (l + m) lines rest ↔ Takes l lines rest ∨ Takes m lines rest := by
  simp only [Takes, Language.mem_add, or_and_right, exists_or]

theorem takes_iSup_iff {ι : Type} {l : ι → Language Line} :
    Takes (⨆ i, l i) lines rest ↔ ∃ i, Takes (l i) lines rest := by
  simp only [Takes, Language.mem_iSup]
  tauto

theorem takes_mul_iff :
    Takes (l * m) lines rest ↔ ∃ next, Takes l lines next ∧ Takes m next rest := by
  constructor
  · rintro ⟨_, ⟨front, here, back, later, rfl⟩, rfl⟩
    exact ⟨back ++ rest, ⟨front, here, by simp⟩, back, later, rfl⟩
  · rintro ⟨_, ⟨front, here, rfl⟩, back, later, rfl⟩
    exact ⟨front ++ back, Language.append_mem_mul here later, by simp⟩

theorem takes_line_iff :
    Takes (one sort) lines rest ↔ ∃ line, sort line ∧ lines = line :: rest := by
  constructor
  · rintro ⟨_, ⟨line, here, rfl⟩, rfl⟩
    exact ⟨line, here, rfl⟩
  · rintro ⟨line, here, rfl⟩
    exact ⟨[line], ⟨line, here, rfl⟩, rfl⟩

theorem takes_line {line : Line} (here : sort line) (lines : List Line) :
    Takes (one sort) (line :: lines) lines :=
  takes_line_iff.2 ⟨line, here, rfl⟩

theorem takes_kstar_iff : Takes l∗ lines rest ↔ Relation.ReflTransGen (Takes l) lines rest := by
  constructor
  · rintro ⟨_, ⟨words, rfl, all⟩, rfl⟩
    induction words with
    | nil => exact .refl
    | cons word words ih =>
        obtain ⟨here, later⟩ := List.forall_mem_cons.mp all
        exact .head ⟨word, here, by simp⟩ (ih later)
  · intro path
    induction path using Relation.ReflTransGen.head_induction_on with
    | refl => exact ⟨[], Language.nil_mem_kstar l, rfl⟩
    | head first _ ih =>
        rw [← Language.one_add_self_mul_kstar_eq_kstar]
        exact takes_add_iff.2 (.inr (takes_mul_iff.2 ⟨_, first, ih⟩))

theorem Takes.mono (takes : Takes l lines rest) (le : l ≤ m) : Takes m lines rest :=
  let ⟨front, here, same⟩ := takes
  ⟨front, le here, same⟩

theorem Takes.mul (first : Takes l lines next) (second : Takes m next rest) :
    Takes (l * m) lines rest :=
  takes_mul_iff.2 ⟨next, first, second⟩

theorem Takes.refl_star (l : Language Line) (lines : List Line) : Takes l∗ lines lines :=
  takes_kstar_iff.2 .refl

theorem Takes.head_star (later : Takes l∗ next rest) (first : Takes l lines next) :
    Takes l∗ lines rest :=
  takes_kstar_iff.2 (.head first (takes_kstar_iff.1 later))

@[elab_as_elim]
theorem Takes.star_induction {motive : ∀ lines, Takes l∗ lines rest → Prop}
    (refl : motive rest (.refl_star l rest))
    (head : ∀ {lines next} (first : Takes l lines next) (later : Takes l∗ next rest),
      motive next later → motive lines (later.head_star first))
    {lines : List Line} (takes : Takes l∗ lines rest) : motive lines takes := by
  induction takes_kstar_iff.1 takes using Relation.ReflTransGen.head_induction_on with
  | refl => exact refl
  | head first later ih => exact head first (takes_kstar_iff.2 later) (ih _)

theorem Takes.cons_star {line : Line} (later : Takes (one sort)∗ lines rest) (here : sort line) :
    Takes (one sort)∗ (line :: lines) rest :=
  later.head_star (takes_line here lines)

theorem takes_gap_refl (lines : List Line) : Takes gap lines lines := .refl_star _ lines

/-- The lines that begin with a run of one sort, and what is behind the run. -/
theorem takes_dropWhile (p : Line → Bool) (lines : List Line) :
    Takes (one fun line => p line = true)∗ lines (lines.dropWhile p) := by
  rw [takes_kstar_iff]
  induction lines with
  | nil => exact .refl
  | cons line lines ih =>
      rw [List.dropWhile_cons]
      split
      · next here => exact .head (takes_line here lines) ih
      · exact .refl

/-- A run of one sort ends where a line of another sort stands. -/
theorem dropWhile_eq_of_takes {p : Line → Bool}
    (takes : Takes (one fun line => p line = true)∗ lines rest)
    (ends : ∀ line ∈ rest.head?, p line = false) : lines.dropWhile p = rest := by
  induction takes using Takes.star_induction with
  | refl =>
      cases rest with
      | nil => rfl
      | cons line rest => exact List.dropWhile_cons_of_neg (by simp [ends line rfl])
  | head first _ ih =>
      obtain ⟨line, here, rfl⟩ := takes_line_iff.1 first
      rw [List.dropWhile_cons_of_pos here, ih]

/-! ## Languages that take the lines without meaning behind their words -/

/-- Whether lines that mean nothing can stand behind every word of a language. -/
def Absorbs (l : Language Line) : Prop := l * gap ≤ l

theorem Absorbs.takes (absorbs : Absorbs l) (first : Takes l lines next)
    (second : Takes gap next rest) : Takes l lines rest :=
  (first.mul second).mono absorbs

theorem Absorbs.mul (absorbs : Absorbs m) (l : Language Line) : Absorbs (l * m) := by
  rw [Absorbs, mul_assoc]
  exact mul_le_mul' le_rfl absorbs

theorem Absorbs.add (here : Absorbs l) (there : Absorbs m) : Absorbs (l + m) := by
  rw [Absorbs, add_mul]
  exact add_le_add here there

theorem Absorbs.mul_kstar (first : Absorbs l) (second : Absorbs m) : Absorbs (l * m∗) := by
  have swap : m∗ * gap ≤ gap * m∗ := by
    refine kstar_mul_le (le_mul_of_one_le_right' one_le_kstar) ?_
    calc m * (gap * m∗) = m * gap * m∗ := (mul_assoc ..).symm
      _ ≤ m * m∗ := mul_le_mul' second le_rfl
      _ ≤ m∗ := mul_kstar_le_kstar
      _ ≤ gap * m∗ := le_mul_of_one_le_left' one_le_kstar
  calc l * m∗ * gap = l * (m∗ * gap) := mul_assoc ..
    _ ≤ l * (gap * m∗) := mul_le_mul' le_rfl swap
    _ = l * gap * m∗ := (mul_assoc ..).symm
    _ ≤ l * m∗ := mul_le_mul' first le_rfl

theorem absorbs_gap : Absorbs gap := (kstar_mul_kstar _).le

theorem absorbs_description : Absorbs description := by
  refine (mul_le_mul' le_rfl (kstar_mono ?_)).trans (kstar_mul_kstar _).le
  rintro _ ⟨line, ignorable, rfl⟩
  exact ⟨line, by simp [Line.continuesDescription, ignorable], rfl⟩

theorem absorbs_step : Absorbs step := .mul absorbs_gap _

theorem absorbs_examples : Absorbs examples := .mul absorbs_gap _

theorem absorbs_background : Absorbs background :=
  .mul_kstar (.mul absorbs_description _) absorbs_step

theorem absorbs_testBelow (release : Release) (construct : Construct) :
    Absorbs (testBelow release construct) := by
  unfold testBelow blocks
  split
  · exact .mul_kstar (.mul_kstar absorbs_description absorbs_step) absorbs_examples
  · rw [mul_one]
    exact .mul_kstar absorbs_description absorbs_step

theorem absorbs_test (release : Release) : Absorbs (test release) :=
  (((absorbs_testBelow release .scenario).mul _).add
    ((absorbs_testBelow release .outline).mul _)).mul _

theorem Absorbs.mul_body (first : Absorbs l) (release : Release) : Absorbs (l * body release) := by
  rw [body, ← mul_assoc, mul_add, mul_one]
  exact (first.add (.mul absorbs_background l)).mul_kstar (absorbs_test release)

theorem absorbs_rule (release : Release) : Absorbs (rule release) :=
  .mul_body (.mul absorbs_description _) release

end Sentence

end Gherkin
