import Gherkin.Proofs.Document.Sentence
import Gherkin.Proofs.Document.Source

/-!
# What is accepted

The readers of a document accept exactly its language. That what they read is a sentence is
shown from the front: each reader extends a word in front of its lines by a word of its
construct. That a sentence is read is shown against what stands behind it, since a reader
takes all it can: it must find a line there that it does not take.
-/

namespace Gherkin

open scoped Computability

open Document (Tag Row Step Examples Scenario Rule lineTags_eq_ok_iff)
open Sentence

variable {dialect : Dialect} {release : Release} {l : Language Line}
  {start lines next rest : List Line}

/-- A line of tags has a tag. -/
theorem Line.exists_word_of_tags {line : Line} (kind : line.kind = .tags)
    (meaning : line.kind = classify dialect line.trimmed) :
    Word.beforeComment (Word.split 1 line.raw) ≠ [] := by
  have spelled := spells_classify dialect line.trimmed
  rw [← meaning, kind] at spelled
  generalize same : line.trimmed = t at spelled
  cases spelled with
  | tags behind =>
      obtain ⟨front, back, whole, blank, _⟩ := exists_append_strip_append Text.isBlank line.raw
      rw [← Text.trim_eq_strip, show Text.trim line.raw = _ from same] at whole
      obtain ⟨text, words, first⟩ := Word.exists_split_cons (c := '@') rfl (1 + front.length)
        (behind ++ back)
      rw [whole, List.append_assoc, Word.split_append_of_isBlank blank, List.cons_append, first]
      simp [Word.beforeComment]

namespace Grammar

/-! ## What is read is a sentence -/

theorem takes_skipped (absorbs : Absorbs l) (before : Takes l start lines)
    (skipped : lines.dropWhile Line.isIgnorable = rest) : Takes l start rest :=
  absorbs.takes before (skipped ▸ takes_dropWhile Line.isIgnorable lines)

theorem takes_header (before : Takes l start lines) (line : Line) (construct : Construct)
    (keyword name : Text) :
    Takes (l * description) start (Document.header line construct keyword name lines).rest :=
  before.mul (takes_dropWhile Line.continuesDescription lines)

theorem takes_headerLine {line : Line} {construct : Construct} {keyword name : Text}
    (kind : line.kind = .header construct keyword name) (lines : List Line) :
    Takes (Sentence.header construct) (line :: lines) lines :=
  takes_line ⟨keyword, name, kind⟩ lines

theorem Tags.takes_gap_mul {found : List Tag} (read : Tags lines found rest) :
    Takes (gap * (1 + tags)) lines rest := by
  have nothing (lines : List Line) : Takes (gap * (1 + tags)) lines lines :=
    (Takes.refl_star _ _).mul (takes_add_iff.mpr (.inl (takes_one_iff.mpr rfl)))
  induction read with
  | done => exact nothing _
  | stop => exact nothing _
  | skip ignorable _ ih =>
      obtain ⟨next, mute, tagged⟩ := takes_mul_iff.mp ih
      exact (mute.cons_star ignorable).mul tagged
  | @line line lines _ _ _ kind spelled _ ih =>
      have first : Takes tagLine (line :: lines) lines :=
        takes_line ⟨kind, (lineTags_eq_ok_iff.mp spelled).1⟩ lines
      have among : gap * (1 + tags) ≤
          (tagLine + one fun line => line.isIgnorable = true)∗ := by
        refine (mul_le_mul' (kstar_mono (le_add_of_nonneg_left zero_le)) ?_).trans
          (kstar_mul_kstar _).le
        exact add_le one_le_kstar ((mul_le_mul' (le_add_of_nonneg_right zero_le) le_rfl).trans
          mul_kstar_le_kstar)
      exact (Takes.refl_star _ _).mul (takes_add_iff.mpr (.inr ((first.mul ih).mono
        (mul_le_mul' le_rfl among))))

theorem Tags.takes {found : List Tag} (read : Tags lines found rest) (absorbs : Absorbs l)
    (before : Takes l start lines) : Takes (l * (1 + tags)) start rest := by
  obtain ⟨next, mute, tagged⟩ := takes_mul_iff.mp read.takes_gap_mul
  exact (absorbs.takes before mute).mul tagged

/-- Where no tags were found, only lines without meaning were passed over. -/
theorem Tags.takes_gap (read : Tags lines [] rest) (classified : dialect.Classifies lines) :
    Takes gap lines rest := by
  generalize nothing : [] = found at read
  induction read with
  | done => exact .refl_star _ _
  | stop => exact .refl_star _ _
  | skip ignorable _ ih =>
      exact (ih (classified.mono (List.suffix_cons _ _)) nothing).cons_star ignorable
  | line kind spelled _ _ =>
      have some := Line.exists_word_of_tags kind (classified _ List.mem_cons_self).1
      obtain ⟨_, rfl⟩ := lineTags_eq_ok_iff.mp spelled
      simp [some] at nothing

theorem Rows.takes_of_some {width : Nat} {found : List Row}
    (read : Rows (some width) lines found rest) :
    Takes (Sentence.row width + one fun line => line.kind = .comment)∗ lines rest := by
  generalize decided : some width = known at read
  induction read with
  | done => exact .refl_star _ _
  | stop => exact .refl_star _ _
  | row kind fits _ ih =>
      have same := fits width (decided ▸ rfl)
      exact (ih (by rw [same])).head_star
        (takes_add_iff.mpr (.inl (takes_line ⟨kind, same.symm⟩ _)))
  | comment kind _ ih =>
      exact (ih decided).head_star (takes_add_iff.mpr (.inr (takes_line kind _)))

theorem Rows.takes {found : List Row} (read : Rows none lines found rest)
    (begins : ∀ line ∈ lines.head?, line.kind ≠ .comment) :
    Takes (1 + Sentence.table) lines rest := by
  rw [takes_add_iff, takes_one_iff]
  cases read with
  | done => exact .inl rfl
  | stop => exact .inl rfl
  | row kind _ more =>
      exact .inr (takes_iSup_iff.mpr
        ⟨_, (takes_line ⟨kind, rfl⟩ _).mul more.takes_of_some⟩)
  | comment kind => exact absurd kind (begins _ rfl)

theorem Content.takes {fence : Fence} {indent : Nat} {found : List Text}
    (read : Content fence indent lines found rest) :
    Takes (Sentence.content fence) lines rest := by
  induction read with
  | close closes => exact (Takes.refl_star _ _).mul (takes_line closes _)
  | line stays _ ih =>
      obtain ⟨next, inside, closing⟩ := takes_mul_iff.mp ih
      exact (inside.cons_star stays).mul closing

theorem Argument.takes {found : Option Document.Argument} (read : Argument lines found rest)
    (absorbs : Absorbs l) (before : Takes l start lines) :
    Takes (l * (1 + (Sentence.table + Sentence.docString))) start rest := by
  cases read with
  | none skipped _ =>
      exact (takes_skipped absorbs before skipped).mul
        (takes_add_iff.mpr (.inl (takes_one_iff.mpr rfl)))
  | table skipped kind rows =>
      have taken := rows.takes (by rintro _ ⟨⟩; simp [kind])
      exact (takes_skipped absorbs before skipped).mul
        (taken.mono (add_le_add le_rfl (le_add_of_nonneg_right zero_le)))
  | @docString line below fence type _ _ skipped kind content =>
      have taken : Takes Sentence.docString (line :: below) rest :=
        takes_iSup_iff.mpr ⟨fence, (takes_line ⟨type, kind⟩ below).mul content.takes⟩
      exact (takes_skipped absorbs before skipped).mul
        (taken.mono ((le_add_of_nonneg_left zero_le).trans (le_add_of_nonneg_left zero_le)))

theorem Steps.takes {found : List Step} (read : Steps lines found rest) (absorbs : Absorbs l)
    (before : Takes l start lines) : Takes (l * Sentence.step∗) start rest := by
  induction read generalizing l with
  | done skipped _ =>
      exact (takes_skipped absorbs before skipped).mul (Takes.refl_star _ _)
  | @step _ line below _ _ _ next _ _ skipped kind argument _ ih =>
      have first : Takes stepLine (line :: below) below := takes_line ⟨_, _, kind⟩ below
      have behind := argument.takes (absorbs_gap.mul _)
        (((takes_skipped absorbs before skipped).mul first).mul (Takes.refl_star _ _))
      have here : Takes (l * Sentence.step) start next := by
        simpa only [Sentence.step, mul_assoc] using behind.mul (takes_gap_refl next)
      have later := ih (absorbs_step.mul l) here
      rw [mul_assoc] at later
      exact later.mono (mul_le_mul' le_rfl mul_kstar_le_kstar)

theorem Blocks.takes {allowed : Bool} {found : List Examples}
    (read : Blocks allowed lines found rest) (absorbs : Absorbs l) (before : Takes l start lines) :
    Takes (l * blocks allowed) start rest := by
  induction read generalizing l with
  | done _ _ =>
      refine before.mul (Takes.mono (takes_one_iff.mpr rfl) ?_)
      unfold blocks
      split
      · exact one_le_kstar
      · exact le_rfl
  | @block _ _ line below keyword name _ next _ _ allowed tags kind rows _ ih =>
      have head := takes_header ((tags.takes absorbs before).mul (takes_headerLine kind below))
        line .examples keyword name
      have taken := rows.takes fun other first comment => by
        have kept := head?_dropWhile_eq_false first
        simp [Line.isIgnorable, comment] at kept
      have here : Takes (l * examples) start next := by
        simpa only [examples, mul_assoc] using
          ((takes_skipped (absorbs_description.mul _) head rfl).mul taken).mul (takes_gap_refl next)
      have later := ih (absorbs_examples.mul l) here
      simp only [blocks, allowed, if_true, mul_assoc] at later ⊢
      exact later.mono (mul_le_mul' le_rfl mul_kstar_le_kstar)

theorem Test.takes {found : List Tag} {line : Line} {construct : Construct} {keyword name : Text}
    {test : Scenario} (read : Test release found line construct keyword name lines test rest)
    (before : Takes l start lines) : Takes (l * testBelow release construct) start rest := by
  cases read with
  | intro steps blocks =>
      have head := takes_header before line construct keyword name
      have below := steps.takes (absorbs_description.mul l) head
      simpa only [testBelow, mul_assoc] using
        blocks.takes ((absorbs_description.mul l).mul_kstar absorbs_step) below

theorem Tests.takes {found : List Scenario} (read : Tests release lines found rest)
    (classified : dialect.Classifies lines) (absorbs : Absorbs l) (before : Takes l start lines) :
    Takes (l * (Sentence.test release)∗) start rest := by
  induction read generalizing l with
  | done tags => exact (absorbs.takes before (tags.takes_gap classified)).mul (Takes.refl_star _ _)
  | rule => exact before.mul (Takes.refl_star _ _)
  | @test _ _ line below construct keyword name _ next _ _ tags kind either test _ ih =>
      have taken := test.takes ((tags.takes absorbs before).mul (takes_headerLine kind below))
      have here : Takes (l * Sentence.test release) start next := by
        simp only [mul_assoc] at taken
        refine taken.mono (mul_le_mul' le_rfl (mul_le_mul' le_rfl ?_))
        rcases either with rfl | rfl
        · exact le_add_of_nonneg_right zero_le
        · exact le_add_of_nonneg_left zero_le
      have later := ih (classified.mono (test.suffix.trans
        ((List.suffix_cons _ _).trans tags.suffix))) ((absorbs_test release).mul l) here
      rw [mul_assoc] at later
      exact later.mono (mul_le_mul' le_rfl mul_kstar_le_kstar)

theorem Body.takes {found : Document.Body} (read : Body release lines found rest)
    (classified : dialect.Classifies lines) (absorbs : Absorbs l) (before : Takes l start lines) :
    Takes (l * body release) start rest := by
  rw [body, ← mul_assoc]
  cases read with
  | @background line below keyword name _ next _ _ tags kind steps tests =>
      have here := classified.mono tags.suffix
      have head := takes_header ((absorbs.takes before (tags.takes_gap classified)).mul
        (takes_headerLine kind below)) line .background keyword name
      have taken : Takes (l * Sentence.background) start next := by
        simpa only [Sentence.background, mul_assoc] using
          steps.takes (absorbs_description.mul _) head
      have whole := tests.takes ((classifies_header here).mono steps.suffix)
        (absorbs_background.mul l) taken
      exact whole.mono (mul_le_mul' (mul_le_mul' le_rfl (le_add_of_nonneg_left zero_le)) le_rfl)
  | tests tests =>
      refine (tests.takes classified absorbs before).mono (mul_le_mul' ?_ le_rfl)
      exact le_mul_of_one_le_right' (le_add_of_nonneg_right zero_le)

theorem Rules.takes {found : List Rule} (read : Rules release lines found)
    (classified : dialect.Classifies lines) (absorbs : Absorbs l) (before : Takes l start lines) :
    Takes (l * rules release) start [] := by
  induction read generalizing l with
  | done tags =>
      refine (absorbs.takes before (tags.takes_gap classified)).mul
        (Takes.mono (takes_one_iff.mpr rfl) ?_)
      unfold rules
      split
      · exact one_le_kstar
      · exact le_rfl
  | @rule lines found line below keyword name _ next _ known tags kind tagged body _ ih =>
      have here := classified.mono tags.suffix
      have front : Takes (l * if release.hasRuleTags then 1 + Sentence.tags else 1) start
          (line :: below) := by
        split
        · exact tags.takes absorbs before
        · next without =>
          rw [mul_one]
          obtain rfl := tagged.resolve_left without
          exact absorbs.takes before (tags.takes_gap classified)
      have head := takes_header (front.mul (takes_headerLine kind below)) line .rule keyword name
      have taken : Takes (l * Sentence.rule release) start next := by
        simpa only [Sentence.rule, mul_assoc] using
          body.takes (classifies_header here) (absorbs_description.mul _) head
      have later := ih ((classifies_header here).mono body.suffix)
        ((absorbs_rule release).mul l) taken
      simp only [rules, known, if_true, mul_assoc] at later ⊢
      exact later.mono (mul_le_mul' le_rfl mul_kstar_le_kstar)

theorem Feature.mem_document {language : Text} {found : Option Document.Feature}
    (read : Feature release language lines found) (classified : dialect.Classifies lines) :
    lines ∈ document release := by
  rw [← takes_nil_iff, document, mul_add, mul_one, takes_add_iff]
  cases read with
  | none tags => exact .inl (tags.takes_gap classified)
  | @some _ line below keyword name _ next _ tags kind body rules =>
      have here := classified.mono tags.suffix
      have head := takes_header ((tags.takes absorbs_gap (Takes.refl_star _ _)).mul
        (takes_headerLine kind below)) line .feature keyword name
      have taken := body.takes (classifies_header here) (absorbs_description.mul _) head
      have whole := rules.takes ((classifies_header here).mono body.suffix)
        ((absorbs_description.mul _).mul_body release) taken
      simp only [mul_assoc] at whole
      simpa only [feature, mul_assoc] using Or.inr whole

/-! ## A sentence is read -/

theorem Tags.of_takes_gap {found : List Tag} (takes : Takes gap lines next)
    (read : Tags next found rest) : Tags lines found rest := by
  induction takes using Takes.star_induction with
  | refl => exact read
  | head first _ ih =>
      obtain ⟨line, ignorable, rfl⟩ := takes_line_iff.mp first
      exact .skip ignorable ih

theorem Tags.exists_of_tagLine {found : List Tag} (takes : Takes tagLine lines next)
    (read : Tags next found rest) : ∃ found, Tags lines found rest := by
  obtain ⟨line, ⟨kind, tags⟩, rfl⟩ := takes_line_iff.mp takes
  exact ⟨_, .line kind (lineTags_eq_ok_iff.mpr ⟨tags, rfl⟩) read⟩

theorem Tags.exists_of_takes {found : List Tag} (takes : Takes (1 + tags) lines next)
    (read : Tags next found rest) : ∃ found, Tags lines found rest := by
  rcases takes_add_iff.mp takes with none | some
  · exact ⟨found, takes_one_iff.mp none ▸ read⟩
  · obtain ⟨behind, first, later⟩ := takes_mul_iff.mp some
    obtain ⟨found, read⟩ : ∃ found, Tags behind found rest := by
      clear first some
      induction later using Takes.star_induction with
      | refl => exact ⟨found, read⟩
      | head first _ ih =>
          obtain ⟨found, read⟩ := ih
          rcases takes_add_iff.mp first with tags | mute
          · exact read.exists_of_tagLine tags
          · obtain ⟨line, ignorable, rfl⟩ := takes_line_iff.mp mute
            exact ⟨found, .skip ignorable read⟩
    exact read.exists_of_tagLine first

/-- The tags in front of a header are read up to it. -/
theorem exists_tags_of_header {construct : Construct} {below : List Line}
    (mute : Takes gap start lines) (takes : Takes ((1 + tags) * header construct) lines below) :
    ∃ found line keyword name, Tags start found (line :: below) ∧
      line.kind = .header construct keyword name := by
  obtain ⟨next, tags, head⟩ := takes_mul_iff.mp takes
  obtain ⟨line, ⟨keyword, name, kind⟩, rfl⟩ := takes_line_iff.mp head
  obtain ⟨found, read⟩ := Tags.exists_of_takes tags
    (.stop (by simp [Line.isIgnorable, kind]) (by simp [kind]) : Tags (line :: below) [] _)
  exact ⟨found, line, keyword, name, .of_takes_gap mute read, kind⟩

/-- A header without tags in front of it is found there. -/
theorem exists_of_header {construct : Construct} {below : List Line} (mute : Takes gap start lines)
    (takes : Takes (header construct) lines below) :
    ∃ line keyword name, Tags start [] (line :: below) ∧
      line.kind = .header construct keyword name := by
  obtain ⟨line, ⟨keyword, name, kind⟩, rfl⟩ := takes_line_iff.mp takes
  exact ⟨line, keyword, name, .of_takes_gap mute
    (.stop (by simp [Line.isIgnorable, kind]) (by simp [kind])), kind⟩

/-- Whether a line begins a step, or the tags or the header of another construct. -/
def BeginsConstruct (line : Line) : Prop :=
  line.kind = .tags ∨ (∃ construct keyword name, line.kind = .header construct keyword name) ∨
    ∃ keyword text, line.kind = .step keyword text

theorem BeginsConstruct.kind {line : Line} (begins : BeginsConstruct line) :
    line.continuesDescription = false ∧ line.isIgnorable = false ∧ line.kind ≠ .row ∧
      ∀ fence type, line.kind ≠ .fence fence type := by
  rcases begins with kind | ⟨_, _, _, kind⟩ | ⟨_, _, kind⟩ <;>
    simp [Line.continuesDescription, Line.isIgnorable, kind]

/-- Nothing is left, or the tags and the header of a construct of some sort are in front. -/
def Opens (sort : Construct → Prop) (lines : List Line) : Prop :=
  lines = [] ∨ ∃ construct below, sort construct ∧ Takes ((1 + tags) * header construct) lines below

theorem Opens.head {sort : Construct → Prop} (opens : Opens sort lines) :
    ∀ line ∈ lines.head?,
      line.kind = .tags ∨ ∃ construct keyword name, line.kind = .header construct keyword name := by
  rcases opens with rfl | ⟨construct, below, _, takes⟩
  · simp
  · obtain ⟨next, tags, head⟩ := takes_mul_iff.mp takes
    rcases takes_add_iff.mp tags with none | some
    · obtain rfl := takes_one_iff.mp none
      obtain ⟨line, ⟨keyword, name, kind⟩, rfl⟩ := takes_line_iff.mp head
      rintro _ ⟨⟩
      exact .inr ⟨construct, keyword, name, kind⟩
    · obtain ⟨_, first, _⟩ := takes_mul_iff.mp some
      obtain ⟨line, ⟨kind, _⟩, rfl⟩ := takes_line_iff.mp first
      rintro _ ⟨⟩
      exact .inl kind

theorem Opens.begins {sort : Construct → Prop} (opens : Opens sort lines) :
    ∀ line ∈ lines.head?, BeginsConstruct line :=
  fun line first => (opens.head line first).imp_right .inl

theorem exists_rows_of_gap {width : Option Nat} (takes : Takes gap lines rest)
    (ends : ∀ line ∈ rest.head?, BeginsConstruct line) :
    ∃ next, Rows width lines [] next ∧ Takes gap next rest := by
  induction takes using Takes.star_induction with
  | refl =>
      refine ⟨rest, ?_, takes_gap_refl rest⟩
      cases rest with
      | nil => exact .done
      | cons line rest =>
          obtain ⟨_, kept, row, _⟩ := (ends line rfl).kind
          exact .stop row fun comment => by simp [Line.isIgnorable, comment] at kept
  | @head lines below first later ih =>
      obtain ⟨line, ignorable, rfl⟩ := takes_line_iff.mp first
      by_cases comment : line.kind = .comment
      · obtain ⟨next, rows, mute⟩ := ih
        exact ⟨next, .comment comment rows, mute⟩
      · have row : line.kind ≠ .row := fun row => by simp [Line.isIgnorable, row] at ignorable
        exact ⟨line :: below, .stop row comment, later.cons_star ignorable⟩

theorem exists_rows_of_some {width : Nat}
    (takes : Takes (row width + one fun line => line.kind = .comment)∗ lines next)
    (mute : Takes gap next rest) (ends : ∀ line ∈ rest.head?, BeginsConstruct line) :
    ∃ found next, Rows (some width) lines found next ∧ Takes gap next rest := by
  induction takes using Takes.star_induction with
  | refl => exact ⟨[], exists_rows_of_gap mute ends⟩
  | head first _ ih =>
      obtain ⟨found, next, rows, mute⟩ := ih
      rcases takes_add_iff.mp first with row | comment
      · obtain ⟨line, ⟨kind, same⟩, rfl⟩ := takes_line_iff.mp row
        exact ⟨_, next, .row kind (by simp [same]) (same ▸ rows), mute⟩
      · obtain ⟨line, kind, rfl⟩ := takes_line_iff.mp comment
        exact ⟨found, next, .comment kind rows, mute⟩

theorem exists_rows (takes : Takes table lines next) (mute : Takes gap next rest)
    (ends : ∀ line ∈ rest.head?, BeginsConstruct line) :
    (∃ line below, lines = line :: below ∧ line.kind = .row) ∧
      ∃ found next, Rows none lines found next ∧ Takes gap next rest := by
  obtain ⟨width, takes⟩ := takes_iSup_iff.mp takes
  obtain ⟨_, first, later⟩ := takes_mul_iff.mp takes
  obtain ⟨line, ⟨kind, same⟩, rfl⟩ := takes_line_iff.mp first
  obtain ⟨found, next, rows, mute⟩ := exists_rows_of_some later mute ends
  exact ⟨⟨line, _, rfl, kind⟩, _, next, .row kind (by simp) (same ▸ rows), mute⟩

theorem exists_content {fence : Fence} (indent : Nat) (takes : Takes (content fence) lines rest) :
    ∃ found, Content fence indent lines found rest := by
  obtain ⟨next, inside, last⟩ := takes_mul_iff.mp takes
  obtain ⟨line, closes, rfl⟩ := takes_line_iff.mp last
  clear takes last
  induction inside using Takes.star_induction with
  | refl => exact ⟨[], .close closes⟩
  | head first _ ih =>
      obtain ⟨line, stays, rfl⟩ := takes_line_iff.mp first
      obtain ⟨found, read⟩ := ih
      exact ⟨_, .line stays read⟩

theorem exists_argument (before : Takes gap start lines)
    (takes : Takes (1 + (table + docString)) lines next) (mute : Takes gap next rest)
    (ends : ∀ line ∈ rest.head?, BeginsConstruct line) :
    ∃ found next, Argument start found next ∧ Takes gap next rest := by
  rcases takes_add_iff.mp takes with none | some
  · obtain rfl := takes_one_iff.mp none
    refine ⟨_, rest, .none (dropWhile_eq_of_takes (absorbs_gap.takes before mute) ?_) ?_,
      takes_gap_refl rest⟩
    · exact fun line first => (ends line first).kind.2.1
    · exact fun line first => (ends line first).kind.2.2
  · rcases takes_add_iff.mp some with takes | takes
    · obtain ⟨⟨line, below, rfl, kind⟩, found, next, rows, mute⟩ := exists_rows takes mute ends
      have skipped : start.dropWhile Line.isIgnorable = line :: below :=
        dropWhile_eq_of_takes before (by rintro _ ⟨⟩; simp [Line.isIgnorable, kind])
      exact ⟨_, next, .table skipped kind rows, mute⟩
    · obtain ⟨fence, takes⟩ := takes_iSup_iff.mp takes
      obtain ⟨below, first, inside⟩ := takes_mul_iff.mp takes
      obtain ⟨line, ⟨type, kind⟩, rfl⟩ := takes_line_iff.mp first
      have skipped : start.dropWhile Line.isIgnorable = line :: below :=
        dropWhile_eq_of_takes before (by rintro _ ⟨⟩; simp [Line.isIgnorable, kind])
      obtain ⟨found, content⟩ := exists_content (Text.indent line.raw) inside
      exact ⟨_, next, .docString skipped kind content, mute⟩

/-- A word of steps begins with a step, or there is none. -/
theorem begins_of_steps (takes : Takes step∗ lines rest)
    (ends : ∀ line ∈ rest.head?, BeginsConstruct line) :
    ∀ line ∈ lines.head?, BeginsConstruct line := by
  induction takes using Takes.star_induction with
  | refl => exact ends
  | head first _ _ =>
      simp only [step, mul_assoc] at first
      obtain ⟨_, first, _⟩ := takes_mul_iff.mp first
      obtain ⟨line, ⟨keyword, text, kind⟩, rfl⟩ := takes_line_iff.mp first
      rintro _ ⟨⟩
      exact .inr (.inr ⟨keyword, text, kind⟩)

theorem exists_steps {sort : Construct → Prop} (before : Takes gap start lines)
    (takes : Takes step∗ lines rest) (opens : Opens sort rest) :
    ∃ found, Steps start found rest := by
  induction takes using Takes.star_induction generalizing start with
  | refl =>
      refine ⟨[], .done (dropWhile_eq_of_takes before ?_) ?_⟩
      · exact fun line first => (opens.begins line first).kind.2.1
      · intro line first
        rcases opens.head line first with kind | ⟨_, _, _, kind⟩ <;> simp [kind]
  | head first later ih =>
      obtain ⟨behind, first, mute⟩ := takes_mul_iff.mp first
      obtain ⟨_, first, below⟩ := takes_mul_iff.mp first
      obtain ⟨_, first, inner⟩ := takes_mul_iff.mp first
      obtain ⟨line, ⟨keyword, text, kind⟩, rfl⟩ := takes_line_iff.mp first
      have skipped := dropWhile_eq_of_takes before (by rintro _ ⟨⟩; simp [Line.isIgnorable, kind])
      obtain ⟨argument, next, read, mute⟩ :=
        exists_argument inner below mute (begins_of_steps later opens.begins)
      obtain ⟨more, steps⟩ := ih mute
      exact ⟨_, .step skipped kind read steps⟩

theorem header_rest_eq (takes : Takes description lines rest)
    (ends : ∀ line ∈ rest.head?, line.continuesDescription = false) (line : Line)
    (construct : Construct) (keyword name : Text) :
    (Document.header line construct keyword name lines).rest = rest :=
  dropWhile_eq_of_takes takes ends

theorem Opens.mono {sort other : Construct → Prop} (opens : Opens sort lines)
    (wider : ∀ construct, sort construct → other construct) : Opens other lines :=
  opens.imp_right fun ⟨construct, below, here, takes⟩ =>
    ⟨construct, below, wider construct here, takes⟩

theorem opens_of_star {sort : Construct → Prop} (first : ∀ lines rest, Takes l lines rest →
    Opens sort lines) (takes : Takes l∗ lines rest) (opens : Opens sort rest) :
    Opens sort lines := by
  induction takes using Takes.star_induction with
  | refl => exact opens
  | head here _ _ => exact first _ _ here

theorem opens_of_examples (takes : Takes examples lines rest) :
    Opens (· = .examples) lines := by
  simp only [examples, mul_assoc (_ * _)] at takes
  obtain ⟨below, first, _⟩ := takes_mul_iff.mp takes
  exact .inr ⟨_, below, rfl, first⟩

theorem opens_of_test (takes : Takes (Sentence.test release) lines rest) :
    Opens (fun construct => construct = .scenario ∨ construct = .outline) lines := by
  rw [Sentence.test, mul_add, ← mul_assoc, ← mul_assoc, takes_add_iff] at takes
  rcases takes with takes | takes
  · obtain ⟨below, first, _⟩ := takes_mul_iff.mp takes
    exact .inr ⟨_, below, .inl rfl, first⟩
  · obtain ⟨below, first, _⟩ := takes_mul_iff.mp takes
    exact .inr ⟨_, below, .inr rfl, first⟩

theorem opens_of_rule (takes : Takes (Sentence.rule release) lines rest) :
    Opens (· = .rule) lines := by
  simp only [Sentence.rule, mul_assoc (_ * _)] at takes
  obtain ⟨below, first, _⟩ := takes_mul_iff.mp takes
  refine .inr ⟨_, below, rfl, first.mono (mul_le_mul' ?_ le_rfl)⟩
  split
  · exact le_rfl
  · exact le_add_of_nonneg_right zero_le

theorem exists_exampleRows {below behind : List Line} (text : Takes description below lines)
    (takes : Takes (1 + table) lines next) (mute : Takes gap next behind)
    (ends : ∀ line ∈ behind.head?, BeginsConstruct line) (line : Line) (construct : Construct)
    (keyword name : Text) :
    ∃ found next, Rows none ((Document.header line construct keyword name below).rest.dropWhile
      Line.isIgnorable) found next ∧ Takes gap next behind := by
  rcases takes_add_iff.mp takes with none | some
  · obtain rfl := takes_one_iff.mp none
    rw [header_rest_eq (absorbs_description.takes text mute)
      (fun line first => (ends line first).kind.1),
      dropWhile_eq_of_takes (takes_gap_refl behind)
        (fun line first => (ends line first).kind.2.1)]
    exact ⟨[], exists_rows_of_gap (takes_gap_refl behind) ends⟩
  · obtain ⟨⟨first, others, rfl, kind⟩, found, next, rows, mute⟩ := exists_rows some mute ends
    have kept : first.continuesDescription = false := by
      simp [Line.continuesDescription, Line.isIgnorable, kind]
    rw [header_rest_eq text (by rintro _ ⟨⟩; exact kept),
      List.dropWhile_cons_of_neg (by simp [Line.isIgnorable, kind])]
    exact ⟨found, next, rows, mute⟩

theorem exists_blocks {allowed : Bool} (before : Takes gap start lines)
    (takes : Takes (blocks allowed) lines rest) (opens : Opens (· ≠ .examples) rest) :
    ∃ found next, Blocks allowed start found next ∧ Takes gap next rest := by
  have none {start : List Line} (before : Takes gap start rest) :
      ∃ found next, Blocks allowed start found next ∧ Takes gap next rest := by
    refine ⟨[], start, ?_, before⟩
    rcases opens with rfl | ⟨construct, below, other, takes⟩
    · exact .done (.of_takes_gap before .done) (by simp)
    · obtain ⟨found, line, keyword, name, read, kind⟩ := exists_tags_of_header before takes
      refine .done read ?_
      rintro _ ⟨⟩ keyword' name' examples
      exact other (LineKind.header.inj (kind.symm.trans examples)).1
  unfold blocks at takes
  split at takes
  · next allowed =>
    induction takes using Takes.star_induction generalizing start with
    | refl => exact none before
    | head first later ih =>
        have ends := (opens_of_star (fun _ _ here => (opens_of_examples here).mono
          fun _ _ => trivial) later (opens.mono fun _ _ => trivial)).begins
        obtain ⟨_, first, mute⟩ := takes_mul_iff.mp first
        obtain ⟨_, first, rows⟩ := takes_mul_iff.mp first
        obtain ⟨_, head, text⟩ := takes_mul_iff.mp first
        obtain ⟨found, line, keyword, name, tags, kind⟩ := exists_tags_of_header before head
        obtain ⟨table, next, rows, mute⟩ :=
          exists_exampleRows text rows mute ends line .examples keyword name
        obtain ⟨more, next, blocks, mute⟩ := ih mute
        exact ⟨_, next, .block allowed tags kind rows blocks, mute⟩
  · exact none (takes_one_iff.mp takes ▸ before)

/-- What stands behind the steps of a test is examples or what stands behind the test. -/
theorem opens_of_blocks {sort : Construct → Prop} {allowed : Bool}
    (takes : Takes (blocks allowed) lines rest) (opens : Opens sort rest) :
    Opens (fun _ => True) lines := by
  unfold blocks at takes
  split at takes
  · exact opens_of_star (fun _ _ here => (opens_of_examples here).mono fun _ _ => trivial) takes
      (opens.mono fun _ _ => trivial)
  · exact takes_one_iff.mp takes ▸ opens.mono fun _ _ => trivial

theorem exists_test {construct : Construct} (takes : Takes (testBelow release construct) lines rest)
    (opens : Opens (· ≠ .examples) rest) (found : List Tag) (line : Line) (keyword name : Text) :
    ∃ test next, Test release found line construct keyword name lines test next ∧
      Takes gap next rest := by
  obtain ⟨behind, takes, blocks⟩ := takes_mul_iff.mp takes
  obtain ⟨below, text, steps⟩ := takes_mul_iff.mp takes
  have ends := opens_of_blocks blocks opens
  have same := header_rest_eq text
    (fun line first => (begins_of_steps steps ends.begins line first).kind.1)
  obtain ⟨performed, steps⟩ := exists_steps (takes_gap_refl below) steps ends
  obtain ⟨list, next, blocks, mute⟩ := exists_blocks (takes_gap_refl behind) blocks opens
  exact ⟨_, next, .intro (same line construct keyword name ▸ steps) blocks, mute⟩

theorem exists_tests (before : Takes gap start lines)
    (takes : Takes (Sentence.test release)∗ lines rest) (opens : Opens (· = .rule) rest) :
    ∃ found next, Tests release start found next ∧ Takes gap next rest := by
  induction takes using Takes.star_induction generalizing start with
  | refl =>
      rcases opens with rfl | ⟨_, below, rfl, takes⟩
      · exact ⟨[], [], .done (.of_takes_gap before .done), takes_gap_refl []⟩
      · obtain ⟨found, line, keyword, name, read, kind⟩ := exists_tags_of_header before takes
        exact ⟨[], start, .rule read kind, before⟩
  | head first later ih =>
      have ends : Opens (· ≠ .examples) _ := opens_of_star
        (fun _ _ here => (opens_of_test here).mono (by rintro _ (rfl | rfl) <;> simp)) later
        (opens.mono (by rintro _ rfl; simp))
      rw [Sentence.test, mul_add, ← mul_assoc, ← mul_assoc, takes_add_iff] at first
      obtain ⟨construct, either, first⟩ : ∃ construct, (construct = .scenario ∨
          construct = .outline) ∧ Takes ((1 + tags) * header construct *
            testBelow release construct) _ _ :=
        first.elim (fun first => ⟨_, .inl rfl, first⟩) fun first => ⟨_, .inr rfl, first⟩
      obtain ⟨below, head, inner⟩ := takes_mul_iff.mp first
      obtain ⟨found, line, keyword, name, tags, kind⟩ := exists_tags_of_header before head
      obtain ⟨test, next, read, mute⟩ := exists_test inner ends found line keyword name
      obtain ⟨more, next, tests, mute⟩ := ih mute
      exact ⟨_, next, .test tags kind either read tests, mute⟩

theorem exists_body (before : Takes gap start lines) (takes : Takes (body release) lines rest)
    (opens : Opens (· = .rule) rest) :
    ∃ found next, Body release start found next ∧ Takes gap next rest := by
  obtain ⟨behind, takes, tests⟩ := takes_mul_iff.mp takes
  rcases takes_add_iff.mp takes with none | some
  · obtain rfl := takes_one_iff.mp none
    obtain ⟨found, next, tests, mute⟩ := exists_tests before tests opens
    exact ⟨_, next, .tests tests, mute⟩
  · have ends : Opens (fun _ => True) behind := opens_of_star
      (fun _ _ here => (opens_of_test here).mono fun _ _ => trivial) tests
      (opens.mono fun _ _ => trivial)
    obtain ⟨below, some, steps⟩ := takes_mul_iff.mp some
    obtain ⟨text, head, text⟩ := takes_mul_iff.mp some
    obtain ⟨line, keyword, name, tags, kind⟩ := exists_of_header before head
    have same := header_rest_eq text
      (fun line first => (begins_of_steps steps ends.begins line first).kind.1)
    obtain ⟨performed, steps⟩ := exists_steps (takes_gap_refl below) steps ends
    obtain ⟨found, next, tests, mute⟩ := exists_tests (takes_gap_refl behind) tests opens
    exact ⟨_, next, .background tags kind (same line .background keyword name ▸ steps) tests, mute⟩

theorem opens_of_body {sort : Construct → Prop} (takes : Takes (body release) lines rest)
    (opens : Opens sort rest) : Opens (fun _ => True) lines := by
  obtain ⟨behind, takes, tests⟩ := takes_mul_iff.mp takes
  rcases takes_add_iff.mp takes with none | some
  · obtain rfl := takes_one_iff.mp none
    exact opens_of_star (fun _ _ here => (opens_of_test here).mono fun _ _ => trivial) tests
      (opens.mono fun _ _ => trivial)
  · rw [background, mul_assoc] at some
    obtain ⟨below, head, _⟩ := takes_mul_iff.mp some
    exact .inr ⟨_, below, trivial, head.mono (le_mul_of_one_le_left'
      (le_add_of_nonneg_right zero_le))⟩

theorem exists_tags_of_rule {below : List Line} (before : Takes gap start lines)
    (takes : Takes ((if release.hasRuleTags then 1 + tags else 1) * header .rule) lines below) :
    ∃ found line keyword name, Tags start found (line :: below) ∧
      line.kind = .header .rule keyword name ∧ (release.hasRuleTags = true ∨ found = []) := by
  split at takes
  · next known =>
    obtain ⟨found, line, keyword, name, tags, kind⟩ := exists_tags_of_header before takes
    exact ⟨found, line, keyword, name, tags, kind, .inl known⟩
  · rw [one_mul] at takes
    obtain ⟨line, keyword, name, tags, kind⟩ := exists_of_header before takes
    exact ⟨[], line, keyword, name, tags, kind, .inr rfl⟩

theorem exists_rules (before : Takes gap start lines) (takes : Takes (rules release) lines []) :
    ∃ found, Rules release start found := by
  unfold rules at takes
  split at takes
  · next known =>
    induction takes using Takes.star_induction generalizing start with
    | refl => exact ⟨[], .done (.of_takes_gap before .done)⟩
    | head first later ih =>
        have ends := opens_of_star (fun _ _ here => opens_of_rule here) later (.inl rfl)
        obtain ⟨_, first, inner⟩ := takes_mul_iff.mp first
        obtain ⟨_, head, text⟩ := takes_mul_iff.mp first
        obtain ⟨found, line, keyword, name, tags, kind, tagged⟩ := exists_tags_of_rule before head
        have same := header_rest_eq text
          (fun line first => ((opens_of_body inner ends).begins line first).kind.1)
        obtain ⟨body, next, read, mute⟩ := exists_body (takes_gap_refl _) inner ends
        obtain ⟨more, rules⟩ := ih mute
        exact ⟨_, .rule known tags kind tagged (same line .rule keyword name ▸ read) rules⟩
  · exact ⟨[], .done (.of_takes_gap (takes_one_iff.mp takes ▸ before) .done)⟩

theorem opens_of_rules (takes : Takes (rules release) lines []) : Opens (· = .rule) lines := by
  unfold rules at takes
  split at takes
  · exact opens_of_star (fun _ _ here => opens_of_rule here) takes (.inl rfl)
  · exact .inl (takes_one_iff.mp takes)

theorem exists_feature (member : lines ∈ document release) (language : Text) :
    ∃ found, Feature release language lines found := by
  obtain ⟨next, mute, takes⟩ := takes_mul_iff.mp (takes_nil_iff.mpr member)
  rcases takes_add_iff.mp takes with none | some
  · obtain rfl := takes_one_iff.mp none
    exact ⟨.none, .none (.of_takes_gap mute .done)⟩
  · simp only [feature, ← mul_assoc] at some
    obtain ⟨_, some, rules⟩ := takes_mul_iff.mp some
    obtain ⟨_, some, inner⟩ := takes_mul_iff.mp some
    obtain ⟨_, head, text⟩ := takes_mul_iff.mp some
    have ends := opens_of_rules rules
    obtain ⟨found, line, keyword, name, tags, kind⟩ := exists_tags_of_header mute head
    have same := header_rest_eq text
      (fun line first => ((opens_of_body inner ends).begins line first).kind.1)
    obtain ⟨body, next, read, mute⟩ := exists_body (takes_gap_refl _) inner ends
    obtain ⟨list, rules⟩ := exists_rules mute rules
    exact ⟨_, .some tags kind (same line .feature keyword name ▸ read) rules⟩

end Grammar

namespace Document

/-- Whether source text is a document: every language header in front of its feature names
a known dialect, and in the dialect they settle on its lines are a sentence. -/
structure IsWellFormed (release : Release) (dialect : Dialect) (source : Text) : Prop where
  known : HeadersKnown dialect source
  sentence : settledLines dialect source ∈ Sentence.document release

/-- Source text is read exactly when its lines make up a document. -/
theorem read_isOk_iff (release : Release) (dialect : Dialect) (file source : Text) :
    (∃ document, Document.read release dialect file source = .ok document) ↔
      IsWellFormed release dialect source := by
  constructor
  · rintro ⟨document, read⟩
    obtain ⟨known, feature⟩ := read_eq_ok_iff_feature.1 read
    exact ⟨known, feature.mem_document (classifies_settledLines dialect source)⟩
  · rintro ⟨known, sentence⟩
    obtain ⟨found, feature⟩ := Grammar.exists_feature sentence (settledDialect dialect source).code
    exact ⟨⟨found⟩, read_eq_ok_iff_feature.2 ⟨known, feature⟩⟩

end Document

end Gherkin
