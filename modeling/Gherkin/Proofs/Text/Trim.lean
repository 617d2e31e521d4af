import Gherkin.Proofs.Text.Strip
import Gherkin.Text.Basic

/-!
# Trimmed texts

What trimming leaves of a text, in particular of one that was written behind an
indentation or in front of a blank.
-/

namespace Gherkin

namespace Text

/-- A text neither begins nor ends with a blank. -/
def IsTrimmed (t : Text) : Prop := IsStripped isBlank t

/-- A text that can stand behind a word on one line and is read back as it is. -/
structure IsLabel (t : Text) : Prop where
  trimmed : IsTrimmed t
  oneLine : '\n' ∉ t

instance (t : Text) : Decidable (IsTrimmed t) :=
  decidable_of_iff (strip isBlank t = t) strip_eq_self_iff

instance (t : Text) : Decidable (IsLabel t) :=
  decidable_of_iff (IsTrimmed t ∧ '\n' ∉ t)
    ⟨fun label => ⟨label.1, label.2⟩, fun label => ⟨label.trimmed, label.oneLine⟩⟩

/-- A text consists of blanks. -/
def IsBlank (t : Text) : Prop := ∀ c ∈ t, isBlank c = true

instance (t : Text) : Decidable (IsBlank t) := List.decidableBAll _ t

theorem not_mem_of_isBlank {t : Text} {c : Char} (blank : IsBlank t) (solid : isBlank c = false) :
    c ∉ t := by
  intro member
  rw [blank c member] at solid
  cases solid

theorem trim_eq_strip (t : Text) : trim t = strip isBlank t := rfl

theorem isTrimmed_nil : IsTrimmed [] := isStripped_nil

theorem isTrimmed_trim (t : Text) : IsTrimmed (trim t) := isStripped_strip isBlank t

theorem trim_eq_self {t : Text} (trimmed : IsTrimmed t) : trim t = t := strip_eq_self trimmed

theorem trim_trim (t : Text) : trim (trim t) = trim t := trim_eq_self (isTrimmed_trim t)

theorem mem_of_mem_trim {c : Char} {t : Text} (member : c ∈ trim t) : c ∈ t :=
  mem_of_mem_strip member

theorem trim_eq_nil_iff {t : Text} : trim t = [] ↔ IsBlank t := strip_eq_nil_iff

theorem trim_append_append {front back : Text} (t : Text) (before : IsBlank front)
    (behind : IsBlank back) : trim (front ++ t ++ back) = trim t :=
  strip_append_append t before behind

theorem trim_append_left {front : Text} (t : Text) (before : IsBlank front) :
    trim (front ++ t) = trim t := by
  simpa using @trim_append_append _ [] t before (by simp [IsBlank])

theorem trim_append_right {back : Text} (t : Text) (behind : IsBlank back) :
    trim (t ++ back) = trim t := by
  simpa using @trim_append_append [] _ t (by simp [IsBlank]) behind

theorem isLabel_nil : IsLabel [] := ⟨isTrimmed_nil, List.not_mem_nil⟩

theorem isLabel_trim {t : Text} (oneLine : '\n' ∉ t) : IsLabel (trim t) :=
  ⟨isTrimmed_trim t, fun member => oneLine (mem_of_mem_trim member)⟩

theorem isBlank_space : isBlank ' ' = true := rfl

/-! ## Blanks at the end -/

theorem trimEnd_eq_rdropWhile (t : Text) : trimEnd t = t.rdropWhile isBlank := rfl

/-- A text that does not end with a blank keeps its end. -/
theorem trimEnd_eq_self {t : Text} (ends : ∀ c ∈ t.getLast?, isBlank c = false) :
    trimEnd t = t := by
  simpa [trimEnd] using @rdropWhile_eq_of_getLast _ isBlank [] _ (by simp) ends

theorem trimEnd_of_isTrimmed {t : Text} (trimmed : IsTrimmed t) : trimEnd t = t :=
  trimEnd_eq_self trimmed.2

/-- A text is what trimming its end leaves, with blanks behind it. -/
theorem exists_trimEnd_append (t : Text) :
    ∃ back, IsBlank back ∧ t = trimEnd t ++ back ∧
      ∀ c ∈ (trimEnd t).getLast?, isBlank c = false := by
  refine ⟨t.rtakeWhile isBlank, fun c member => List.mem_rtakeWhile_imp member, ?_, ?_⟩
  · exact List.rdropWhile_append_rtakeWhile.symm
  · intro c last
    have nonempty : t.rdropWhile isBlank ≠ [] := by
      intro empty
      rw [trimEnd_eq_rdropWhile, empty] at last
      exact absurd last (by simp)
    have same : (t.rdropWhile isBlank).getLast nonempty = c :=
      Option.some.inj ((List.getLast?_eq_some_getLast nonempty).symm.trans last)
    exact same ▸ by simpa using List.rdropWhile_last_not isBlank t nonempty

theorem trimEnd_trimEnd (t : Text) : trimEnd (trimEnd t) = trimEnd t := by
  obtain ⟨_, _, _, ends⟩ := exists_trimEnd_append t
  exact trimEnd_eq_self ends

theorem trimEnd_append_right {back : Text} (t : Text) (behind : IsBlank back) :
    trimEnd (t ++ back) = trimEnd t := by
  rw [trimEnd, List.reverse_append, List.dropWhile_append_of_pos, trimEnd]
  exact fun c member => behind c (List.mem_reverse.mp member)

/-- The end of a text does not depend on what stands in front of it. -/
theorem trimEnd_append_left {t : Text} (front : Text) (ends : trimEnd t = t) (written : t ≠ []) :
    trimEnd (front ++ t) = front ++ t := by
  obtain ⟨_, _, _, stays⟩ := exists_trimEnd_append t
  rw [ends] at stays
  apply trimEnd_eq_self
  intro c last
  rw [List.getLast?_append_of_ne_nil front written] at last
  exact stays c last

theorem getLast?_ne_return {t : Text} (ends : trimEnd t = t) : t.getLast? ≠ some '\r' := by
  intro last
  obtain ⟨_, _, _, stays⟩ := exists_trimEnd_append t
  rw [ends] at stays
  exact absurd (stays '\r' last) (by decide)

theorem trim_trimEnd (t : Text) : trim (trimEnd t) = trim t := by
  obtain ⟨back, blank, whole, _⟩ := exists_trimEnd_append t
  conv_rhs => rw [whole]
  exact (trim_append_right _ blank).symm

theorem mem_of_mem_trimEnd {c : Char} {t : Text} (member : c ∈ trimEnd t) : c ∈ t := by
  obtain ⟨back, _, whole, _⟩ := exists_trimEnd_append t
  rw [whole]
  exact List.mem_append_left _ member

theorem trimEnd_eq_nil_iff {t : Text} : trimEnd t = [] ↔ IsBlank t := by
  simp [trimEnd, IsBlank]

/-! ## Indentation -/

/-- A text that is not blank is its indentation and what begins with a character that is no
blank. -/
theorem exists_indent_append {t : Text} (written : ¬ IsBlank t) :
    ∃ front c rest, t = front ++ c :: rest ∧ IsBlank front ∧ isBlank c = false ∧
      indent t = front.length := by
  have whole := List.takeWhile_append_dropWhile (p := isBlank) (l := t)
  cases behind : t.dropWhile isBlank with
  | nil => exact absurd (List.dropWhile_eq_nil_iff.mp behind) written
  | cons c rest =>
    rw [behind] at whole
    exact ⟨_, c, rest, whole.symm, fun d member => List.mem_takeWhile_imp member,
      head?_dropWhile_eq_false (congrArg List.head? behind), rfl⟩

theorem indent_append {front t : Text} (before : IsBlank front)
    (starts : ∀ c ∈ t.head?, isBlank c = false) : indent (front ++ t) = front.length := by
  unfold indent
  rw [List.takeWhile_append_of_pos before]
  cases t with
  | nil => simp
  | cons c t => simp [starts c rfl]

/-- Blanks at the end do not count as indentation unless there is nothing else. -/
theorem indent_append_right {t : Text} (back : Text) (written : ¬ IsBlank t) :
    indent (t ++ back) = indent t := by
  induction t with
  | nil => exact absurd (by simp [IsBlank]) written
  | cons c t ih =>
      by_cases blank : isBlank c = true
      · have later : ¬ IsBlank t := fun rest => written (List.forall_mem_cons.mpr ⟨blank, rest⟩)
        have same := ih later
        unfold indent at same ⊢
        rw [List.cons_append, List.takeWhile_cons_of_pos blank, List.takeWhile_cons_of_pos blank,
          List.length_cons, List.length_cons, same]
      · unfold indent
        rw [List.cons_append, List.takeWhile_cons_of_neg blank, List.takeWhile_cons_of_neg blank]

theorem indent_trimEnd {t : Text} (written : ¬ IsBlank t) : indent (trimEnd t) = indent t := by
  obtain ⟨back, blank, whole, _⟩ := exists_trimEnd_append t
  have kept : ¬ IsBlank (trimEnd t) := by
    intro none
    apply written
    rw [whole]
    exact List.forall_mem_append.mpr ⟨none, blank⟩
  conv_rhs => rw [whole]
  exact (indent_append_right back kept).symm

/-- Dropping the indentation that a line was given gives the line back, also when
the line begins with blanks of its own. -/
theorem dropIndent_append {front : Text} (t : Text) (before : IsBlank front) :
    dropIndent front.length (front ++ t) = t := by
  induction front with
  | nil => rfl
  | cons c front ih =>
      simp only [List.length_cons, List.cons_append, dropIndent, before c List.mem_cons_self,
        if_true]
      exact ih fun d member => before d (List.mem_cons_of_mem _ member)

@[simp]
theorem dropIndent_suffix (limit : Nat) (t : Text) : dropIndent limit t <:+ t := by
  induction limit generalizing t with
  | zero => exact List.suffix_refl _
  | succ limit ih =>
      cases t with
      | nil => exact List.suffix_refl _
      | cons c t =>
          unfold dropIndent
          split
          · exact (ih t).trans (List.suffix_cons c t)
          · exact List.suffix_refl _

theorem dropIndent_nil (limit : Nat) : dropIndent limit [] = [] := by cases limit <;> rfl

theorem isBlank_repeated {indent : Text} (blank : IsBlank indent) (depth : Nat) :
    IsBlank (repeated depth indent) := by
  intro c member
  obtain ⟨copy, inside, here⟩ := List.mem_flatten.mp member
  exact blank c (List.eq_of_mem_replicate inside ▸ here)

theorem not_mem_repeated {c : Char} {indent : Text} (absent : c ∉ indent) (depth : Nat) :
    c ∉ repeated depth indent := by
  intro member
  obtain ⟨copy, inside, here⟩ := List.mem_flatten.mp member
  exact absent (List.eq_of_mem_replicate inside ▸ here)

end Text

end Gherkin
