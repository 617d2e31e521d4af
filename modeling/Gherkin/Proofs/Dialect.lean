import Gherkin.Proofs.Text.Trim
import Gherkin.Line

/-!
# The words of a dialect

Ordering words by their length keeps each of them, so a header or step word is
one that the dialect lists for its construct. What a line means can be told from
these words because they are regular: no word is in the way of another one.
-/

namespace Gherkin

namespace Dialect

variable {α : Type}

theorem mem_insertByLength_iff {entry other : Text × α} {entries : List (Text × α)} :
    other ∈ insertByLength entry entries ↔ other = entry ∨ other ∈ entries := by
  induction entries with
  | nil => simp [insertByLength]
  | cons first rest ih =>
      unfold insertByLength
      split
      · exact List.mem_cons
      · rw [List.mem_cons, ih, List.mem_cons, or_left_comm]

theorem mem_longestFirst_iff {entry : Text × α} {entries : List (Text × α)} :
    entry ∈ longestFirst entries ↔ entry ∈ entries := by
  have inserted (sorted : List (Text × α)) :
      entry ∈ entries.foldl (fun sorted other => insertByLength other sorted) sorted ↔
        entry ∈ entries ∨ entry ∈ sorted := by
    induction entries generalizing sorted with
    | nil => simp
    | cons first rest ih =>
        rw [List.foldl_cons, ih, mem_insertByLength_iff, List.mem_cons, or_left_comm, or_assoc]
  rw [longestFirst, inserted]
  simp

theorem mem_headerKeywords_iff {dialect : Dialect} {word : Text} {construct : Construct} :
    (word, construct) ∈ dialect.headerKeywords ↔
      construct ≠ .step ∧ word ∈ dialect.keywords construct := by
  rw [headerKeywords, mem_longestFirst_iff]
  cases construct <;> simp

theorem mem_stepsByLength_iff {dialect : Dialect} {word : Text} :
    word ∈ dialect.stepsByLength ↔ word ∈ dialect.stepKeywords := by
  simp [stepsByLength, mem_longestFirst_iff]

/-- Whether a text begins with a character that no other sign of a document begins with. -/
def startsWord : Text → Bool
  | [] => false
  | c :: _ => !Text.isBlank c && !(['#', '@', '|', '"', Char.ofNat 0x60].contains c)

/-- The words of a dialect can be told from each other and from the other signs of a
document. -/
structure Regular (dialect : Dialect) : Prop where
  headerWord : ∀ entry ∈ dialect.headerKeywords,
    startsWord entry.1 = true ∧ Text.trim entry.1 = entry.1 ∧ ':' ∉ entry.1 ∧ '\n' ∉ entry.1
  headerUnique : ∀ entry ∈ dialect.headerKeywords, ∀ other ∈ dialect.headerKeywords,
    entry.1 = other.1 → entry = other
  stepWord : ∀ word ∈ dialect.stepKeywords, startsWord word = true ∧
    Text.trimEnd word ++ [' '] = word ∧ Text.trim word = Text.trimEnd word ∧ '\n' ∉ word
  stepUnique : ∀ word ∈ dialect.stepKeywords, ∀ other ∈ dialect.stepKeywords,
    word <+: other → word = other
  apart : ∀ entry ∈ dialect.headerKeywords, ∀ word ∈ dialect.stepKeywords,
    ¬ entry.1 ++ [':'] <+: word ∧ ¬ word <+: entry.1 ++ [':'] ∧ Text.trimEnd word ≠ entry.1
  primary : ∀ construct ∈ Construct.all,
    dialect.primary construct ∈ dialect.keywords construct
  given : ∀ word ∈ dialect.given, word ∈ dialect.stepKeywords
  code : dialect.code ≠ [] ∧ dialect.code.all isCodeChar = true

theorem regular_english : Regular english := by
  constructor <;> decide

theorem regular_german : Regular german := by
  constructor <;> decide

theorem regular_of_mem_all {dialect : Dialect} (known : dialect ∈ all) : dialect.Regular := by
  rcases List.mem_pair.mp known with rfl | rfl
  · exact regular_english
  · exact regular_german

/-- A header word introduces its own construct and nothing else. -/
theorem constructOf?_keyword {dialect : Dialect} (regular : dialect.Regular)
    {construct : Construct} {keyword : Text} (header : construct ≠ .step)
    (listed : keyword ∈ dialect.keywords construct) :
    dialect.constructOf? keyword = some construct := by
  have entry := mem_headerKeywords_iff.2 ⟨header, listed⟩
  obtain ⟨_, trimmed, _⟩ := regular.headerWord _ entry
  have kept : Text.trimEnd keyword = keyword :=
    Text.trimEnd_of_isTrimmed (strip_eq_self_iff.mp trimmed)
  have noStep : dialect.stepKeywords.any (fun word => Text.trimEnd word == keyword) = false := by
    rw [List.any_eq_false]
    intro word known same
    exact (regular.apart _ entry _ known).2.2 (by simpa using same)
  unfold constructOf?
  simp only [kept, noStep, Bool.false_eq_true, if_false]
  cases found : dialect.headerKeywords.find? (fun entry => entry.1 == keyword) with
  | none => exact absurd (List.find?_eq_none.mp found _ entry) (by simp)
  | some other =>
      have same : other.1 = keyword := by simpa using List.find?_some found
      rw [← regular.headerUnique _ entry _ (List.mem_of_find?_eq_some found) same.symm]
      rfl

theorem find?_code {dialect : Dialect} (known : dialect ∈ all) :
    find? dialect.code = some dialect := by
  rcases List.mem_pair.mp known with rfl | rfl <;> decide

theorem mem_all_of_find? {dialect : Dialect} {code : Text} (found : find? code = some dialect) :
    dialect ∈ all := List.mem_of_find?_eq_some found

end Dialect

end Gherkin
