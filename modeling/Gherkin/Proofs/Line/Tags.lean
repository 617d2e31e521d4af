import Gherkin.Proofs.Outcome
import Gherkin.Proofs.Text.Trim
import Gherkin.Document.Reader

/-!
# Tag lines

The words of a line have no blanks in them, and names written with a blank
between each two are the words of their line.
-/

namespace Gherkin

/-- The name of a tag: an at sign, at least one character more, and no blanks. -/
structure IsTagName (name : Text) : Prop where
  shape : ∃ c rest, name = '@' :: c :: rest
  solid : ∀ c ∈ name, Text.isBlank c = false

namespace Word

attribute [local simp] split

theorem split_cons_of_isBlank {c : Char} (blank : Text.isBlank c = true) (column : Nat)
    (t : Text) : split column (c :: t) = split (column + 1) t := by
  cases t with
  | nil => simp [blank]
  | cons d t => simp [blank]

theorem split_append_of_isBlank {front : Text} (blank : Text.IsBlank front) (column : Nat)
    (t : Text) : split column (front ++ t) = split (column + front.length) t := by
  induction front generalizing column with
  | nil => rfl
  | cons c front ih =>
      rw [List.cons_append, split_cons_of_isBlank (blank c List.mem_cons_self),
        ih (fun d member => blank d (List.mem_cons_of_mem _ member)), List.length_cons]
      congr 1
      omega

/-- Blanks at the end of a line belong to no word. -/
theorem split_append_right {back : Text} (blank : Text.IsBlank back) (column : Nat) (t : Text) :
    split column (t ++ back) = split column t := by
  have behind (column : Nat) : split column back = [] := by
    simpa using split_append_of_isBlank blank column []
  fun_induction split column t with
  | case1 column => exact behind column
  | case2 column c here => exact (split_cons_of_isBlank here column back).trans (behind _)
  | case3 column c here =>
      cases back with
      | nil => simp [here]
      | cons b back =>
          have first := blank b List.mem_cons_self
          simp [here, first, behind]
  | case4 column c d t rest here ih =>
      rw [List.cons_append, List.cons_append, split_cons_of_isBlank here, ← List.cons_append]
      exact ih
  | case5 column c d t rest here there ih =>
      rw [List.cons_append, List.cons_append, split, if_neg here, if_pos there, ← List.cons_append]
      exact congrArg _ ih
  | case6 column c d t rest here there ih =>
      rw [List.cons_append, List.cons_append, split, if_neg here, if_neg there, ← List.cons_append]
      exact congrArg _ ih

theorem split_trimEnd (column : Nat) (t : Text) :
    split column (Text.trimEnd t) = split column t := by
  obtain ⟨back, blank, whole, _⟩ := Text.exists_trimEnd_append t
  conv_rhs => rw [whole]
  exact (split_append_right blank column _).symm

/-- A run of characters that are not blank is one word when a blank or the end follows. -/
theorem split_solid {name rest : Text} (written : name ≠ [])
    (solid : ∀ c ∈ name, Text.isBlank c = false) (ends : ∀ c ∈ rest.head?, Text.isBlank c = true)
    (column : Nat) :
    split column (name ++ rest) = ⟨column, name⟩ :: split (column + name.length) rest := by
  induction name generalizing column with
  | nil => exact absurd rfl written
  | cons c name ih =>
      have first := solid c List.mem_cons_self
      cases name with
      | nil =>
          cases rest with
          | nil => simp [first]
          | cons d rest => simp [first, ends d rfl]
      | cons d name =>
          have second := solid d (List.mem_cons_of_mem _ List.mem_cons_self)
          have later := ih (List.cons_ne_nil _ _)
            (fun e member => solid e (List.mem_cons_of_mem _ member)) (column + 1)
          rw [List.cons_append] at later
          simp only [List.cons_append, split, first, second, later, Bool.false_eq_true, if_false,
            extend, List.length_cons]
          congr 2
          omega

/-- A text that begins with a character that is not blank begins with a word. -/
theorem exists_split_cons {c : Char} (solid : Text.isBlank c = false) (column : Nat) (t : Text) :
    ∃ text rest, split column (c :: t) = ⟨column, c :: text⟩ :: rest := by
  cases t with
  | nil => exact ⟨[], [], by simp [solid]⟩
  | cons d t =>
      simp only [split, solid, Bool.false_eq_true, if_false]
      split
      · exact ⟨[], _, rfl⟩
      · unfold extend
        split
        · exact ⟨[], [], rfl⟩
        · exact ⟨_, _, rfl⟩

/-- Names with a blank between each two are the words of their line. -/
theorem map_text_split_join {names : List Text}
    (solid : ∀ name ∈ names, name ≠ [] ∧ ∀ c ∈ name, Text.isBlank c = false) (column : Nat) :
    (split column (Text.join [' '] names)).map Word.text = names := by
  induction names generalizing column with
  | nil => rfl
  | cons name rest ih =>
      obtain ⟨written, here⟩ := solid name List.mem_cons_self
      have later := ih fun other member => solid other (List.mem_cons_of_mem _ member)
      cases rest with
      | nil =>
          have whole : Text.join [' '] [name] = name ++ [] := by simp [Text.join, List.intercalate]
          rw [whole, split_solid written here (by simp)]
          rfl
      | cons next rest =>
          have whole : Text.join [' '] (name :: next :: rest) =
              name ++ ' ' :: Text.join [' '] (next :: rest) := by
            simp [Text.join, List.intercalate, List.intersperse]
          rw [whole, split_solid written here (by simp [Text.isBlank_space]),
            split_cons_of_isBlank Text.isBlank_space, List.map_cons, later]

theorem solid_of_mem_split {word : Word} {column : Nat} {t : Text}
    (member : word ∈ split column t) : ∀ c ∈ word.text, Text.isBlank c = false := by
  induction t generalizing column word with
  | nil => exact absurd member List.not_mem_nil
  | cons c t ih =>
      cases t with
      | nil =>
          unfold split at member
          split at member
          · exact absurd member List.not_mem_nil
          · next solid =>
            rw [List.mem_singleton.mp member]
            simpa using solid
      | cons d t =>
          unfold split at member
          dsimp only at member
          split at member
          · exact ih member
          · next solid =>
            have solid : Text.isBlank c = false := by simpa using solid
            split at member
            · rcases List.mem_cons.mp member with rfl | later
              · simpa using solid
              · exact ih later
            · unfold extend at member
              split at member
              · rw [List.mem_singleton.mp member]
                simpa using solid
              · next first rest found =>
                rcases List.mem_cons.mp member with rfl | later
                · intro e inside
                  rcases List.mem_cons.mp inside with rfl | inside
                  · exact solid
                  · exact ih (found ▸ List.mem_cons_self) e inside
                · exact ih (found ▸ List.mem_cons_of_mem _ later)

/-- The words of a line stand one behind the other. -/
theorem pairwise_split (column : Nat) (t : Text) :
    (split column t).Pairwise (·.column < ·.column) ∧
      ∀ word ∈ split column t, column ≤ word.column := by
  induction t generalizing column with
  | nil => simp
  | cons c t ih =>
      cases t with
      | nil =>
          unfold split
          split <;> simp
      | cons d t =>
          obtain ⟨apart, behind⟩ := ih (column + 1)
          have later := fun word member => Nat.le_of_succ_le (behind word member)
          unfold split
          dsimp only
          split
          · exact ⟨apart, later⟩
          · split
            · exact ⟨List.pairwise_cons.mpr ⟨behind, apart⟩,
                List.forall_mem_cons.mpr ⟨Nat.le_refl _, later⟩⟩
            · generalize split (column + 1) (d :: t) = words at apart behind later
              cases words with
              | nil => simp [extend]
              | cons first rest =>
                  obtain ⟨_, apart⟩ := List.pairwise_cons.mp apart
                  obtain ⟨_, behind⟩ := List.forall_mem_cons.mp behind
                  exact ⟨List.pairwise_cons.mpr ⟨behind, apart⟩,
                    List.forall_mem_cons.mpr ⟨Nat.le_refl _,
                      (List.forall_mem_cons.mp later).2⟩⟩

/-- A word of a line stands where its column says. -/
theorem exists_char_of_mem_split {word : Word} {column : Nat} {t : Text}
    (member : word ∈ split column t) :
    ∃ c, t[word.column - column]? = some c ∧ Text.isBlank c = false := by
  induction t generalizing column word with
  | nil => exact absurd member List.not_mem_nil
  | cons c t ih =>
      cases t with
      | nil =>
          unfold split at member
          split at member
          · exact absurd member List.not_mem_nil
          · next solid =>
            rw [List.mem_singleton.mp member]
            exact ⟨c, by simp, by simpa using solid⟩
      | cons d t =>
          have later (word : Word) (member : word ∈ split (column + 1) (d :: t)) :
              ∃ e, (c :: d :: t)[word.column - column]? = some e ∧ Text.isBlank e = false := by
            have behind := (pairwise_split (column + 1) (d :: t)).2 word member
            have index : word.column - column = word.column - (column + 1) + 1 := by omega
            rw [index, List.getElem?_cons_succ]
            exact ih member
          unfold split at member
          dsimp only at member
          split at member
          · exact later word member
          · next solid =>
            have here (text : Text) : ∃ e, (c :: d :: t)[(⟨column, text⟩ : Word).column - column]? =
                some e ∧ Text.isBlank e = false := ⟨c, by simp, by simpa using solid⟩
            split at member
            · rcases List.mem_cons.mp member with rfl | member
              · exact here _
              · exact later word member
            · unfold extend at member
              split at member
              · rw [List.mem_singleton.mp member]
                exact here _
              · next first rest found =>
                rcases List.mem_cons.mp member with rfl | member
                · exact here _
                · exact later word (found ▸ List.mem_cons_of_mem _ member)

theorem isTag_iff {word : Word} : word.isTag = true ↔ ∃ c rest, word.text = '@' :: c :: rest := by
  unfold isTag
  split
  · next c rest whole => simp [whole]
  · next other => simpa using fun c rest whole => other c rest whole

end Word

namespace Document

/-- The tags of a line are its words, in order. -/
theorem lineTags_eq_ok_iff {line : Line} {words : List Word} {found : List Tag} :
    lineTags line words = .ok found ↔ (∀ word ∈ words, word.isTag = true) ∧
      found = words.map fun word => ⟨⟨line.number, word.column⟩, word.text⟩ := by
  induction words generalizing found with
  | nil =>
      constructor
      · rintro ⟨⟩
        exact ⟨by simp, rfl⟩
      · rintro ⟨_, rfl⟩
        rfl
  | cons word rest ih =>
      unfold lineTags
      split
      · next tag =>
        constructor
        · intro read
          obtain ⟨others, later, same⟩ := Except.bind_eq_ok_iff.mp read
          obtain ⟨all, rfl⟩ := ih.mp later
          cases same
          exact ⟨List.forall_mem_cons.mpr ⟨tag, all⟩, rfl⟩
        · rintro ⟨all, rfl⟩
          exact Except.bind_eq_ok_iff.mpr
            ⟨_, ih.mpr ⟨fun other member => all other (List.mem_cons_of_mem _ member), rfl⟩, rfl⟩
      · next broken => simp [broken]

theorem lineTags_eq_error_iff {line : Line} {words : List Word} {fault : Fault} :
    lineTags line words = .error fault ↔ ∃ word ∈ words.find? fun word => !word.isTag,
      fault = ⟨.at ⟨line.number, word.column⟩, .brokenTag line.trimmed⟩ := by
  induction words with
  | nil => simp [lineTags]
  | cons word rest ih =>
      unfold lineTags
      by_cases tag : word.isTag = true
      · rw [if_pos tag, List.find?_cons_of_neg (by simp [tag]), ← ih, Except.bind_eq_error_iff]
        simp [pure, Except.pure]
      · rw [if_neg tag, List.find?_cons_of_pos (by simpa using tag)]
        simp [eq_comm]

end Document

end Gherkin
