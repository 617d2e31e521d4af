import Gherkin.Proofs.Document.Prolonged
import Gherkin.Proofs.Document.Refusal

/-!
# Faults that are settled

A fault is settled when the lines up to it decide it: it is at a place where something is written,
and it stays when the lines go on. All faults are settled but the ones of a document that ends too
early, also those that are only found when tags are read for another construct.
-/

namespace Gherkin

open Document Line

/-- Whether a document ends too early for a reader. -/
def Defect.EndsEarly (defect : Defect) : Prop := ∃ expected, defect = .unexpectedEnd expected

/-- A place where something is written on a line: its first character that is not blank, or where
one of its words begins. -/
inductive Line.Marks (line : Line) : Place → Prop where
  | start : line.kind ≠ .blank → line.Marks line.place
  | word {word} : word ∈ Word.split 1 line.raw → line.Marks ⟨line.number, word.column⟩

namespace Grammar

variable {dialect : Dialect} {release : Release} {line : Line} {lines others below next : List Line}
  {fault : Fault} {place : Place}

/-- A fault of some lines that the lines up to it decide. -/
structure Settled (dialect : Dialect) (Fails : List Line → Fault → Prop) (lines : List Line)
    (fault : Fault) : Prop where
  decided : ¬ Pending lines
  marked : ∃ line ∈ lines, ∃ place, fault.stop = .at place ∧ line.Marks place
  stays : ∀ others, Prolonged dialect lines others → Fails others fault

variable {Inner Outer : List Line → Fault → Prop}

/-- A fault that is settled behind what is read again is settled. -/
theorem Settled.behind (inner : Settled dialect Inner next fault) (suffix : next <:+ lines)
    (again : ∀ others, Prolonged dialect lines others →
      ∃ left, Prolonged dialect next left ∧ (Inner left fault → Outer others fault)) :
    Settled dialect Outer lines fault where
  decided pending := inner.decided (pending.mono suffix)
  marked := by
    obtain ⟨line, inside, marked⟩ := inner.marked
    exact ⟨line, suffix.subset inside, marked⟩
  stays others prolonged := by
    obtain ⟨left, behind, passes⟩ := again others prolonged
    exact passes (inner.stays left behind)

theorem Tags.not_blank {found : List Tag} (read : Tags lines found (line :: below)) :
    line.kind ≠ .blank := by
  intro blank
  have kept := read.head.1
  simp [isIgnorable, blank] at kept

/-- A fault that is settled below the header of a construct is settled. -/
theorem Settled.belowHeader {found : List Tag} (inner : Settled dialect Inner next fault)
    (read : Tags lines found (line :: below)) (suffix : next <:+ below)
    (again : ∀ others other left, Tags others found (other :: left) → other.kind = line.kind →
      Prolonged dialect below left →
      ∃ behind, Prolonged dialect next behind ∧ (Inner behind fault → Outer others fault)) :
    Settled dialect Outer lines fault := by
  refine inner.behind (suffix.trans ((List.suffix_cons _ _).trans read.suffix))
    fun others longer => ?_
  obtain ⟨other, left, same, alike, _, later⟩ := read.prolonged_cons longer
  exact again others other left same alike.kind later

/-- A fault of a construct itself is settled by the line behind its tags. -/
theorem Tags.settled {found : List Tag} (read : Tags lines found (line :: below))
    (marked : ∃ line ∈ lines, ∃ place, fault.stop = .at place ∧ line.Marks place)
    (again : ∀ others other left, Tags others found (other :: left) →
      Alike dialect .elsewhere line other → other.number = line.number → Outer others fault) :
    Settled dialect Outer lines fault where
  decided := read.not_pending
  marked := marked
  stays others longer := by
    obtain ⟨other, left, same, alike, number, _⟩ := read.prolonged_cons longer
    exact again others other left same alike number

theorem Tags.settled_unexpected {found : List Tag} {expected : List Token}
    (read : Tags lines found (line :: below))
    (again : ∀ others other left, Tags others found (other :: left) → other.kind = line.kind →
      Outer others (unexpected other expected)) :
    Settled dialect Outer lines (unexpected line expected) := by
  refine read.settled ⟨line, read.suffix.subset List.mem_cons_self, _, rfl, .start read.not_blank⟩
    fun others other left same alike number => ?_
  rw [← alike.unexpected number read.not_blank]
  exact again others other left same alike.kind

theorem Tags.exists_marks {found : List Tag} {rest : List Line} (read : Tags lines found rest) :
    ∀ tag ∈ found, ∃ line ∈ lines, line.Marks tag.place := by
  induction read with
  | done => exact List.forall_mem_nil _
  | skip _ _ ih =>
    intro tag member
    obtain ⟨line, inside, marks⟩ := ih tag member
    exact ⟨line, List.mem_cons_of_mem _ inside, marks⟩
  | line _ here _ ih =>
    intro tag member
    rcases List.mem_append.mp member with member | member
    · obtain ⟨_, rfl⟩ := lineTags_eq_ok_iff.mp here
      obtain ⟨word, inside, rfl⟩ := List.mem_map.mp member
      exact ⟨_, List.mem_cons_self, .word ((List.takeWhile_prefix _).subset inside)⟩
    · obtain ⟨line, inside, marks⟩ := ih tag member
      exact ⟨line, List.mem_cons_of_mem _ inside, marks⟩
  | stop => exact List.forall_mem_nil _

theorem TagsFail.settled (fails : TagsFail lines fault) :
    Settled dialect TagsFail lines fault := by
  induction fails with
  | @here line lines fault kind broken =>
    obtain ⟨word, first, rfl⟩ := lineTags_eq_error_iff.mp broken
    refine ⟨fun pending => ?_, ⟨line, List.mem_cons_self, _, rfl, .word ?_⟩,
      fun others longer => ?_⟩
    · rcases pending line List.mem_cons_self with ignorable | ⟨_, _, here⟩
      · simp [isIgnorable, kind] at ignorable
      · cases here.symm.trans broken
    · exact (List.takeWhile_prefix _).subset (List.mem_of_find?_eq_some first)
    · obtain ⟨other, others, rfl, alike, number, _⟩ := longer.exists_cons
      rw [← alike.words, ← alike.lineTags number] at broken
      exact .here (alike.kind.trans kind) broken
  | skip ignorable _ ih =>
    refine ih.behind (List.suffix_cons _ _) fun others longer => ?_
    obtain ⟨other, others, rfl, alike, _, later⟩ := longer.exists_cons
    exact ⟨others, later, .skip (alike.isIgnorable.trans ignorable)⟩
  | later kind here _ ih =>
    refine ih.behind (List.suffix_cons _ _) fun others longer => ?_
    obtain ⟨other, others, rfl, alike, number, later⟩ := longer.exists_cons
    rw [← alike.words, ← alike.lineTags number] at here
    exact ⟨others, later, .later (alike.kind.trans kind) here⟩

theorem RowsFail.settled {width : Option Nat} (fails : RowsFail width lines fault) :
    Settled dialect (RowsFail width) lines fault := by
  induction fails with
  | @uneven width line lines known kind given differs =>
    refine ⟨?_, ⟨line, List.mem_cons_self, _, rfl, .start (by simp [kind])⟩,
      fun others longer => ?_⟩
    · exact not_pending_of_mem List.mem_cons_self (by simp [isIgnorable, kind]) (by simp [kind])
    · obtain ⟨other, others, rfl, alike, number, _⟩ := longer.exists_cons
      rw [← alike.length_cells] at differs
      rw [← alike.place number (by simp [kind])]
      exact .uneven (alike.kind.trans kind) given differs
  | row kind fits _ ih =>
    refine ih.behind (List.suffix_cons _ _) fun others longer => ?_
    obtain ⟨other, others, rfl, alike, _, later⟩ := longer.exists_cons
    rw [← alike.length_cells] at fits ⊢
    exact ⟨others, later, .row (alike.kind.trans kind) fits⟩
  | comment kind _ ih =>
    refine ih.behind (List.suffix_cons _ _) fun others longer => ?_
    obtain ⟨other, others, rfl, alike, _, later⟩ := longer.exists_cons
    exact ⟨others, later, .comment (alike.kind.trans kind)⟩

theorem ArgumentFails.settled (fails : ArgumentFails lines fault)
    (inside : ¬ fault.defect.EndsEarly) : Settled dialect ArgumentFails lines fault := by
  cases fails with
  | table skipped kind failed =>
    refine failed.settled.behind (suffix_of_skipped skipped) fun others longer => ?_
    obtain ⟨other, left, first, alike, number, later⟩ := exists_skipped skipped longer
    exact ⟨_, .cons alike number later, .table first (alike.kind.trans kind)⟩
  | docString => exact absurd ⟨_, rfl⟩ inside

theorem StepsFail.settled (fails : StepsFail lines fault) (inside : ¬ fault.defect.EndsEarly) :
    Settled dialect StepsFail lines fault := by
  induction fails with
  | argument skipped kind failed =>
    have suffix := (List.suffix_cons _ _).trans (suffix_of_skipped skipped)
    refine (failed.settled inside).behind suffix fun others longer => ?_
    obtain ⟨other, left, first, alike, _, later⟩ := exists_skipped skipped longer
    exact ⟨left, later, .argument first (alike.kind.trans kind)⟩
  | later skipped kind argument _ ih =>
    have inner := ih inside
    have suffix := (List.suffix_cons _ _).trans (suffix_of_skipped skipped)
    refine inner.behind (argument.suffix.trans suffix) fun others longer => ?_
    obtain ⟨other, left, first, alike, _, later⟩ := exists_skipped skipped longer
    obtain ⟨_, left, read, behind⟩ :=
      argument.prolonged (ne_nil_of_not_pending inner.decided) later
    exact ⟨left, behind, .later first (alike.kind.trans kind) read⟩

theorem BlocksFail.settled {allowed : Bool} (fails : BlocksFail allowed lines fault) :
    Settled dialect (BlocksFail allowed) lines fault := by
  have passed (below : List Line) :
      (below.dropWhile continuesDescription).dropWhile isIgnorable <:+ below :=
    (List.dropWhile_suffix _).trans (List.dropWhile_suffix _)
  induction fails with
  | tags failed => exact failed.settled.behind (List.suffix_refl _) fun others longer =>
      ⟨others, longer, .tags⟩
  | refused refused read kind =>
    exact read.settled_unexpected fun others other left again same =>
      .refused refused again (same.trans kind)
  | rows allowed read kind failed =>
    refine failed.settled.belowHeader read (passed _) fun others other left again same later => ?_
    exact ⟨_, (later.dropWhile passes_continuesDescription).dropWhile passes_isIgnorable,
      .rows allowed again (same.trans kind)⟩
  | later allowed read kind rows _ ih =>
    refine ih.belowHeader read (rows.suffix.trans (passed _))
      fun others other left again same later => ?_
    obtain ⟨_, left, table, behind⟩ := rows.prolonged (ne_nil_of_not_pending ih.decided)
      ((later.dropWhile passes_continuesDescription).dropWhile passes_isIgnorable)
    exact ⟨left, behind, .later allowed again (same.trans kind) table⟩

theorem TestFails.settled {construct : Construct} (fails : TestFails release construct lines fault)
    (inside : ¬ fault.defect.EndsEarly) :
    Settled dialect (TestFails release construct) lines fault := by
  cases fails with
  | steps failed =>
    refine (failed.settled inside).behind (List.dropWhile_suffix _) fun others longer => ?_
    exact ⟨_, longer.dropWhile passes_continuesDescription, .steps⟩
  | blocks steps failed =>
    have inner : Settled dialect (BlocksFail _) _ _ := failed.settled
    refine inner.behind (steps.suffix.trans (List.dropWhile_suffix _)) fun others longer => ?_
    obtain ⟨_, left, read, behind⟩ := steps.prolonged (ne_nil_of_not_pending inner.decided)
      (longer.dropWhile passes_continuesDescription)
    exact ⟨left, behind, .blocks read⟩

theorem TestsFail.settled (fails : TestsFail release lines fault)
    (inside : ¬ fault.defect.EndsEarly) : Settled dialect (TestsFail release) lines fault := by
  induction fails with
  | tags failed => exact failed.settled.behind (List.suffix_refl _) fun others longer =>
      ⟨others, longer, .tags⟩
  | unfinished => exact absurd ⟨_, rfl⟩ inside
  | unexpected read neither =>
    exact read.settled_unexpected fun others other left again same =>
      .unexpected again (same ▸ neither)
  | test read kind either failed =>
    refine (failed.settled inside).belowHeader read (List.suffix_refl _)
      fun others other left again same later => ?_
    exact ⟨left, later, .test again (same.trans kind) either⟩
  | later read kind either test _ ih =>
    have inner := ih inside
    refine inner.belowHeader read test.suffix fun others other left again same later => ?_
    obtain ⟨_, left, here, behind⟩ := test.prolonged inner.decided later other
    exact ⟨left, behind, .later again (same.trans kind) either here⟩

theorem BodyFails.settled (fails : BodyFails release lines fault)
    (inside : ¬ fault.defect.EndsEarly) : Settled dialect (BodyFails release) lines fault := by
  cases fails with
  | tags failed => exact failed.settled.behind (List.suffix_refl _) fun others longer =>
      ⟨others, longer, .tags⟩
  | misplaced read kind =>
    obtain ⟨line, member, marks⟩ := read.exists_marks _ List.mem_cons_self
    exact read.settled ⟨line, member, _, rfl, marks⟩ fun others other left again alike _ =>
      .misplaced again (alike.kind.trans kind)
  | steps read kind failed =>
    refine (failed.settled inside).belowHeader read (List.dropWhile_suffix _)
      fun others other left again same later => ?_
    exact ⟨_, later.dropWhile passes_continuesDescription, .steps again (same.trans kind)⟩
  | behind read kind steps failed =>
    have inner : Settled dialect (TestsFail release) _ _ := failed.settled inside
    refine inner.belowHeader read (steps.suffix.trans (List.dropWhile_suffix _))
      fun others other left again same later => ?_
    obtain ⟨_, left, performed, behind⟩ := steps.prolonged (ne_nil_of_not_pending inner.decided)
      (later.dropWhile passes_continuesDescription)
    exact ⟨left, behind, .behind again (same.trans kind) performed⟩
  | @tests found next _ read other failed =>
    have inner : Settled dialect (TestsFail release) _ _ := failed.settled inside
    have more : next ≠ [] := by
      rintro rfl
      exact inner.decided read.pending
    refine inner.behind (List.suffix_refl _) fun others longer => ?_
    obtain ⟨left, again, behind⟩ := read.prolonged more longer
    exact ⟨others, longer, .tests again (behind.head_kind more
      (fun kind => ∀ keyword name, kind ≠ .header .background keyword name) other)⟩

theorem RulesFail.settled (fails : RulesFail release lines fault)
    (inside : ¬ fault.defect.EndsEarly) : Settled dialect (RulesFail release) lines fault := by
  induction fails with
  | tags failed => exact failed.settled.behind (List.suffix_refl _) fun others longer =>
      ⟨others, longer, .tags⟩
  | unfinished => exact absurd ⟨_, rfl⟩ inside
  | unexpected read other =>
    exact read.settled_unexpected fun others _ left again same =>
      .unexpected again (same ▸ other)
  | @unsupported lines found line below keyword name unruled read kind =>
    refine read.settled
      ⟨line, read.suffix.subset List.mem_cons_self, _, rfl, .start read.not_blank⟩
      fun others other left again alike number => ?_
    rw [← alike.place number read.not_blank]
    exact .unsupported unruled again (alike.kind.trans kind)
  | misplaced ruled untaggable read kind =>
    obtain ⟨line, member, marks⟩ := read.exists_marks _ List.mem_cons_self
    exact read.settled ⟨line, member, _, rfl, marks⟩ fun others other left again alike _ =>
      .misplaced ruled untaggable again (alike.kind.trans kind)
  | body ruled read kind taggable failed =>
    refine (failed.settled inside).belowHeader read (List.dropWhile_suffix _)
      fun others other left again same later => ?_
    exact ⟨_, later.dropWhile passes_continuesDescription,
      .body ruled again (same.trans kind) taggable⟩
  | later ruled read kind taggable body _ ih =>
    have inner := ih inside
    refine inner.belowHeader read (body.suffix.trans (List.dropWhile_suffix _))
      fun others other left again same later => ?_
    obtain ⟨_, left, here, behind⟩ :=
      body.prolonged inner.decided (later.dropWhile passes_continuesDescription)
    exact ⟨left, behind, .later ruled again (same.trans kind) taggable here⟩

theorem FeatureFails.settled (fails : FeatureFails release lines fault)
    (inside : ¬ fault.defect.EndsEarly) : Settled dialect (FeatureFails release) lines fault := by
  cases fails with
  | tags failed => exact failed.settled.behind (List.suffix_refl _) fun others longer =>
      ⟨others, longer, .tags⟩
  | unfinished => exact absurd ⟨_, rfl⟩ inside
  | unexpected read other =>
    exact read.settled_unexpected fun others _ left again same =>
      .unexpected again (same ▸ other)
  | body read kind failed =>
    refine (failed.settled inside).belowHeader read (List.dropWhile_suffix _)
      fun others other left again same later => ?_
    exact ⟨_, later.dropWhile passes_continuesDescription, .body again (same.trans kind)⟩
  | rules read kind body failed =>
    have inner : Settled dialect (RulesFail release) _ _ := failed.settled inside
    refine inner.belowHeader read (body.suffix.trans (List.dropWhile_suffix _))
      fun others other left again same later => ?_
    obtain ⟨_, left, here, behind⟩ :=
      body.prolonged inner.decided (later.dropWhile passes_continuesDescription)
    exact ⟨left, behind, .rules again (same.trans kind) here⟩

end Grammar

end Gherkin
