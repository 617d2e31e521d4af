import Gherkin.Proofs.Line.Classification
import Gherkin.Document.Reader

/-!
# What a document begins with

The blank lines and comments above a feature mean the same in every dialect, so the lines
of the preamble are known before it has settled on one. It settles on the dialect of its
last language header, and fails at a header that names none.
-/

namespace Gherkin

variable {dialect other : Dialect} {number : Nat} {raw : Text} {raws : List Text}

namespace Line

/-- The code in a language header. -/
def languageCode? (line : Line) : Option Text :=
  match line.kind with
  | .language code => some code
  | _ => none

/-- Lines without meaning are those that every dialect has. -/
theorem read_eq_of_isIgnorable (ignorable : (read dialect number raw).isIgnorable = true)
    (other : Dialect) : read other number raw = read dialect number raw := by
  have same : classify other (Text.trim raw) = classify dialect (Text.trim raw) := by
    have spelled := spells_classify dialect (Text.trim raw)
    simp only [isIgnorable, read] at ignorable
    generalize Text.trim raw = t at spelled ignorable
    generalize kind : classify dialect t = meaning at spelled ignorable
    cases spelled with
    | blank | comment rest | language rest code => exact kind
    | _ => cases ignorable
  simp only [read, same]

theorem isIgnorable_read (dialect other : Dialect) (number : Nat) (raw : Text) :
    (read other number raw).isIgnorable = (read dialect number raw).isIgnorable := by
  rw [Bool.eq_iff_iff]
  constructor <;> intro ignorable
  · rwa [read_eq_of_isIgnorable ignorable]
  · rwa [read_eq_of_isIgnorable ignorable]

/-- The lines of a text up to the first that means something in some dialect. -/
theorem takeWhile_readAll (dialect other : Dialect) (number : Nat) (raws : List Text) :
    (readAll other number raws).takeWhile isIgnorable =
      (readAll dialect number raws).takeWhile isIgnorable := by
  induction raws generalizing number with
  | nil => rfl
  | cons raw raws ih =>
      simp only [readAll, List.takeWhile_cons, isIgnorable_read dialect other, ih]
      split
      · next ignorable => rw [read_eq_of_isIgnorable ignorable]
      · rfl

end Line

namespace Document

/-- The lines of a text in front of its feature. -/
def openingLines (dialect : Dialect) (number : Nat) (raws : List Text) : List Line :=
  (Line.readAll dialect number raws).takeWhile Line.isIgnorable

/-- The dialect that some lines settle on: the one of the last language header, or else the
one that was given. -/
def settle (dialect : Dialect) (opening : List Line) : Dialect :=
  ((opening.filterMap Line.languageCode?).getLast?.bind Dialect.find?).getD dialect

/-- The dialect that source text settles on. -/
def settledDialect (dialect : Dialect) (source : Text) : Dialect :=
  settle dialect (openingLines dialect 1 (Text.lines source))

/-- The lines of source text in the dialect it settles on. -/
def settledLines (dialect : Dialect) (source : Text) : List Line :=
  Line.readAll (settledDialect dialect source) 1 (Text.lines source)

/-- Whether the language headers in front of the feature name known dialects. -/
def HeadersKnown (dialect : Dialect) (source : Text) : Prop :=
  ∀ code ∈ (openingLines dialect 1 (Text.lines source)).filterMap Line.languageCode?,
    (Dialect.find? code).isSome = true

theorem settle_cons_of_none {line : Line} (silent : line.languageCode? = none)
    (opening : List Line) : settle dialect (line :: opening) = settle dialect opening := by
  rw [settle, List.filterMap_cons_none silent, settle]

theorem settle_cons_of_some {line : Line} {code : Text} {chosen : Dialect} {opening : List Line}
    (names : line.languageCode? = some code) (known : Dialect.find? code = some chosen)
    (later : ∀ code ∈ opening.filterMap Line.languageCode?, (Dialect.find? code).isSome = true) :
    settle dialect (line :: opening) = settle chosen opening := by
  rw [settle, List.filterMap_cons_some names, settle, List.getLast?_cons]
  cases last : (opening.filterMap Line.languageCode?).getLast? with
  | none => simp [known]
  | some code =>
      obtain ⟨found, same⟩ :=
        Option.isSome_iff_exists.mp (later code (List.mem_of_getLast? last))
      simp [same]

theorem openingLines_cons_of_isIgnorable
    (ignorable : (Line.read dialect number raw).isIgnorable = true) :
    openingLines dialect number (raw :: raws) =
      Line.read dialect number raw :: openingLines dialect (number + 1) raws := by
  rw [openingLines, Line.readAll, List.takeWhile_cons_of_pos ignorable, openingLines]

theorem preamble_stop (kept : ∀ line ∈ (Line.readAll dialect number raws).head?,
    line.isIgnorable = false) : preamble dialect number raws = .ok (dialect, number, raws) := by
  cases raws with
  | nil => rfl
  | cons raw rest =>
      have here := kept _ rfl
      unfold Line.isIgnorable at here
      unfold preamble
      dsimp only
      split <;> simp_all

theorem preamble_cons_of_silent (ignorable : (Line.read dialect number raw).isIgnorable = true)
    (silent : (Line.read dialect number raw).languageCode? = none) :
    preamble dialect number (raw :: raws) = preamble dialect (number + 1) raws := by
  unfold Line.isIgnorable at ignorable
  unfold Line.languageCode? at silent
  conv_lhs => unfold preamble
  dsimp only
  split <;> simp_all

private theorem ok_triple_iff {α β γ ε : Type} {a a' : α} {b b' : β} {c c' : γ} :
    (.ok (a, b, c) : Except ε (α × β × γ)) = .ok (a', b', c') ↔ a' = a ∧ b' = b ∧ c' = c := by
  simp only [Except.ok.injEq, Prod.mk.injEq, @eq_comm _ a, @eq_comm _ b, @eq_comm _ c]

/-- The preamble ends behind the opening lines when every language header among them names a
known dialect. -/
theorem preamble_eq_ok_iff {settled : Dialect} {next : Nat} {rest : List Text} :
    preamble dialect number raws = .ok (settled, next, rest) ↔
      (∀ code ∈ (openingLines dialect number raws).filterMap Line.languageCode?,
        (Dialect.find? code).isSome = true) ∧
      settled = settle dialect (openingLines dialect number raws) ∧
      next = number + (openingLines dialect number raws).length ∧
      rest = raws.drop (openingLines dialect number raws).length := by
  induction raws generalizing dialect number with
  | nil =>
      have none : openingLines dialect number [] = [] := rfl
      rw [preamble, none, ok_triple_iff]
      simp [settle]
  | cons raw raws ih =>
      cases ignorable : (Line.read dialect number raw).isIgnorable with
      | false =>
          have none : openingLines dialect number (raw :: raws) = [] := by
            rw [openingLines, Line.readAll, List.takeWhile_cons_of_neg (by simp [ignorable])]
          rw [preamble_stop (by rintro _ ⟨⟩; exact ignorable), none, ok_triple_iff]
          simp [settle]
      | true =>
          rw [openingLines_cons_of_isIgnorable ignorable, List.length_cons, List.drop_succ_cons,
            Nat.add_comm (List.length _), ← Nat.add_assoc]
          cases names : (Line.read dialect number raw).languageCode? with
          | none =>
              rw [preamble_cons_of_silent ignorable names, ih, List.filterMap_cons_none names,
                settle_cons_of_none names]
          | some code =>
              have kind : (Line.read dialect number raw).kind = .language code := by
                unfold Line.languageCode? at names
                split at names
                · next kind => rw [kind, Option.some.inj names]
                · cases names
              rw [List.filterMap_cons_some names, List.forall_mem_cons]
              simp only [preamble, kind]
              cases known : Dialect.find? code with
              | none => simp
              | some chosen =>
                  -- The chosen dialect reads the lines below, but it has the same opening lines.
                  have below : openingLines chosen (number + 1) raws =
                      openingLines dialect (number + 1) raws := Line.takeWhile_readAll ..
                  simp only [ih, below, Option.isSome_some, true_and, and_congr_right_iff]
                  intro later
                  rw [settle_cons_of_some names known later]

end Document

end Gherkin
