import Gherkin.Proofs.Text.Replace
import Gherkin.Document.Reader
import Gherkin.Layout.Render

/-!
# Lines of doc strings

A delimiter inside a doc string is rendered with a backslash before each of its
characters, so no line of a doc string can end it. Reading takes the escapes away
again, and a carriage return from the end of the line.
-/

namespace Gherkin

namespace Layout

/-- A delimiter. -/
abbrev quotes : Text := Fence.quotes.text

/-- A delimiter as it is written inside a doc string. -/
abbrev escapedQuotes : Text := Document.Fence.escaped .quotes

/-- What a rendered line of a doc string is read as. -/
def reread (line : Text) : Text :=
  Text.replace escapedQuotes quotes (Text.chopReturn (contentLine line))

theorem contentLine_eq_replace (line : Text) :
    contentLine line = Text.replace quotes escapedQuotes line := rfl

theorem quotes_ne_nil : quotes ≠ [] := by decide

theorem escapedQuotes_ne_nil : escapedQuotes ≠ [] := by decide

@[simp]
theorem contentLine_nil : contentLine [] = [] := rfl

@[simp]
theorem reread_nil : reread [] = [] := rfl

theorem contentLine_eq_nil_iff {line : Text} : contentLine line = [] ↔ line = [] :=
  Text.replace_eq_nil_iff quotes_ne_nil escapedQuotes_ne_nil

theorem not_newline_mem_contentLine {line : Text} (oneLine : '\n' ∉ line) :
    '\n' ∉ contentLine line := fun member =>
  (Text.mem_of_mem_replace quotes_ne_nil member).elim (by decide) oneLine

theorem not_newline_mem_reread {line : Text} (oneLine : '\n' ∉ line) : '\n' ∉ reread line :=
  fun member => (Text.mem_of_mem_replace escapedQuotes_ne_nil member).elim (by decide)
    fun inside => not_newline_mem_contentLine oneLine (Text.mem_of_mem_chopReturn inside)

/-- The line of a doc string never looks like its delimiter. -/
theorem trim_contentLine_ne (line : Text) : Text.trim (contentLine line) ≠ quotes := by
  intro same
  obtain ⟨front, back, whole, before, behind, _⟩ :=
    exists_append_strip_append Text.isBlank (contentLine line)
  rw [← Text.trim_eq_strip, same] at whole
  have inside : quotes <:+: contentLine line := ⟨front, back, whole.symm⟩
  -- A line with a delimiter has a backslash once it is escaped; blanks and quotes are none.
  have slash : '\\' ∈ contentLine line := by
    by_cases present : quotes <:+: line
    · exact (Text.infix_replace escapedQuotes quotes_ne_nil present).subset (by decide)
    · rw [contentLine_eq_replace, Text.replace_of_not_infix _ present] at inside
      exact absurd inside present
  rw [whole] at slash
  rcases List.mem_append.mp slash with slash | slash
  · rcases List.mem_append.mp slash with slash | slash
    · exact absurd (before _ slash) (by decide)
    · exact absurd slash (by decide)
  · exact absurd (behind _ slash) (by decide)

theorem chopReturn_contentLine (line : Text) :
    Text.chopReturn (contentLine line) = contentLine (Text.chopReturn line) :=
  Text.chopReturn_replace quotes_ne_nil escapedQuotes_ne_nil (by decide) (by decide) line

/-- Behind an escaped line that begins with a quote, the line begins with a quote, and not
with a delimiter. -/
theorem contentLine_eq_quote_cons {t rest : Text} (starts : contentLine t = '"' :: rest) :
    ¬ quotes <+: t ∧ ∃ t', t = '"' :: t' ∧ contentLine t' = rest := by
  rw [contentLine_eq_replace] at starts
  rcases Text.replace_eq_cons quotes_ne_nil starts with ⟨t', rfl, escaped⟩ | ⟨here, t', rfl, later⟩
  · exact absurd (List.cons.inj escaped).1 (by decide)
  · exact ⟨here, t', rfl, (contentLine_eq_replace t').trans later⟩

/-- A backslash that is not the first of an escaped delimiter was there before. -/
theorem contentLine_eq_slash_cons {t rest : Text} (apart : ¬ quotes <+: '"' :: t)
    (starts : contentLine t = '\\' :: rest) : ∃ t', t = '\\' :: t' ∧ contentLine t' = rest := by
  rw [contentLine_eq_replace] at starts
  rcases Text.replace_eq_cons quotes_ne_nil starts with ⟨t', rfl, _⟩ | ⟨_, t', rfl, later⟩
  · exact absurd ⟨'"' :: t', rfl⟩ apart
  · exact ⟨t', rfl, (contentLine_eq_replace t').trans later⟩

/-- Escaping makes an escaped delimiter only out of a delimiter. -/
theorem begins_of_begins_escaped {c : Char} {t : Text} (apart : ¬ quotes <+: c :: t)
    (starts : escapedQuotes <+: c :: contentLine t) : escapedQuotes <+: c :: t := by
  obtain ⟨rest, whole⟩ := starts
  obtain ⟨rfl, first⟩ := List.cons.inj whole.symm
  obtain ⟨apart₁, t₁, rfl, second⟩ := contentLine_eq_quote_cons first
  obtain ⟨t₂, rfl, third⟩ := contentLine_eq_slash_cons apart₁ second
  obtain ⟨apart₃, t₃, rfl, fourth⟩ := contentLine_eq_quote_cons third
  obtain ⟨t₄, rfl, fifth⟩ := contentLine_eq_slash_cons apart₃ fourth
  obtain ⟨_, t₅, rfl, _⟩ := contentLine_eq_quote_cons fifth
  exact ⟨t₅, rfl⟩

/-- A delimiter that is escaped in a line already can be told from one that rendering escapes
when two more quotes stand behind it: its last quote begins a delimiter then. -/
def IsUnambiguous (line : Text) : Prop :=
  ∀ front behind, line = front ++ (escapedQuotes ++ behind) → ['"', '"'] <+: behind

theorem IsUnambiguous.of_suffix {line t : Text} (unambiguous : IsUnambiguous line)
    (suffix : t <:+ line) : IsUnambiguous t := by
  obtain ⟨above, rfl⟩ := suffix
  intro front behind whole
  apply unambiguous (above ++ front) behind
  rw [whole, List.append_assoc]

/-- An escaped delimiter begins with a backslash, so none begins inside of a delimiter. -/
theorem isUnambiguous_quotes_append_iff {t : Text} :
    IsUnambiguous (quotes ++ t) ↔ IsUnambiguous t := by
  refine ⟨fun all => all.of_suffix (List.suffix_append _ _), ?_⟩
  intro later front behind whole
  change '"' :: '"' :: '"' :: t = front ++ ('\\' :: _) at whole
  rcases front with _ | ⟨_, _ | ⟨_, _ | ⟨_, front⟩⟩⟩
  · cases whole
  · cases whole
  · cases whole
  · exact later front behind (List.cons.inj (List.cons.inj (List.cons.inj whole).2).2).2

theorem contentLine_slash_append (t : Text) :
    contentLine (['\\', '"', '\\', '"', '\\'] ++ t) =
      ['\\', '"', '\\', '"', '\\'] ++ contentLine t := by
  have step {c : Char} {t : Text} (plain : ¬ quotes <+: c :: t) :
      contentLine (c :: t) = c :: contentLine t := Text.replace_cons _ plain
  have slash (t : Text) : ¬ quotes <+: '\\' :: t := by simp [quotes, Fence.text]
  have quote (t : Text) : ¬ quotes <+: '"' :: '\\' :: t := by simp [quotes, Fence.text]
  simp only [List.cons_append, List.nil_append]
  rw [step (slash _), step (quote _), step (slash _), step (quote _), step (slash _)]

/-- Rendering leaves an escaped delimiter alone, unless its last quote begins another one. -/
theorem contentLine_escaped_append {behind : Text} (apart : ¬ ['"', '"'] <+: behind) :
    contentLine (escapedQuotes ++ behind) = escapedQuotes ++ contentLine behind := by
  have last : contentLine ('"' :: behind) = '"' :: contentLine behind :=
    Text.replace_cons _ fun starts => apart ((List.prefix_cons_inj _).mp starts)
  have front := contentLine_slash_append ('"' :: behind)
  rw [last] at front
  exact front

theorem not_escaped_prefix_contentLine {behind : Text} (ends : ['"', '"'] <+: behind) :
    ¬ escapedQuotes <+: contentLine (escapedQuotes ++ behind) := by
  obtain ⟨rest, rfl⟩ := ends
  have last : contentLine ('"' :: (['"', '"'] ++ rest)) = escapedQuotes ++ contentLine rest :=
    Text.replace_append _ quotes_ne_nil rest
  have front := contentLine_slash_append ('"' :: (['"', '"'] ++ rest))
  rw [last] at front
  intro starts
  obtain ⟨more, whole⟩ := show escapedQuotes <+: ['\\', '"', '\\', '"', '\\'] ++
    (escapedQuotes ++ contentLine rest) from front ▸ starts
  simp [escapedQuotes, Document.Fence.escaped, Fence.text] at whole

/-- Induction along a line by what happens to it: delimiters are escaped and read back, escaped
delimiters lose their escapes unless rendering takes them apart, and all else stays. -/
theorem content_induction {motive : Text → Prop} (nil : motive [])
    (delimiter : ∀ t, motive t → motive (quotes ++ t))
    (escaped : ∀ t, ¬ ['"', '"'] <+: t → motive t → motive (escapedQuotes ++ t))
    (plain : ∀ c t, ¬ quotes <+: c :: t → ¬ escapedQuotes <+: c :: contentLine t → motive t →
      motive (c :: t)) (t : Text) : motive t := by
  induction length : t.length using Nat.strongRecOn generalizing t with
  | ind size ih =>
      cases t with
      | nil => exact nil
      | cons c t =>
          have shorter {front rest : Text} (written : front ≠ []) (whole : front ++ rest = c :: t) :
              motive rest := by
            have longer := List.length_pos_of_ne_nil written
            have sum := congrArg List.length whole
            rw [List.length_append] at sum
            exact ih rest.length (by omega) rest rfl
          by_cases here : quotes <+: c :: t
          · obtain ⟨rest, whole⟩ := here
            exact whole ▸ delimiter rest (shorter quotes_ne_nil whole)
          by_cases there : escapedQuotes <+: c :: contentLine t
          · obtain ⟨rest, whole⟩ := begins_of_begins_escaped here there
            have apart : ¬ ['"', '"'] <+: rest := by
              intro ends
              apply not_escaped_prefix_contentLine ends
              rw [whole, contentLine_eq_replace, Text.replace_cons _ here]
              exact there
            exact whole ▸ escaped rest apart (shorter escapedQuotes_ne_nil whole)
          · exact plain c t here there (shorter (List.cons_ne_nil c []) rfl)

/-- A line is read as it was exactly when none of its escaped delimiters is taken for one that
rendering has escaped. -/
theorem replace_contentLine_eq_self_iff {line : Text} :
    Text.replace escapedQuotes quotes (contentLine line) = line ↔ IsUnambiguous line := by
  induction line using content_induction with
  | nil =>
      refine iff_of_true rfl fun front behind whole => ?_
      simp [escapedQuotes_ne_nil] at whole
  | delimiter t ih =>
      rw [contentLine_eq_replace, Text.replace_append _ quotes_ne_nil,
        Text.replace_append _ escapedQuotes_ne_nil, ← contentLine_eq_replace,
        List.append_cancel_left_eq, ih, isUnambiguous_quotes_append_iff]
  | escaped t apart _ =>
      rw [contentLine_escaped_append apart, Text.replace_append _ escapedQuotes_ne_nil]
      refine iff_of_false (fun same => ?_) fun all => apart (all [] t rfl)
      exact absurd (List.cons.inj same).1 (by decide)
  | plain c t here there ih =>
      have back : IsUnambiguous (c :: t) ↔ IsUnambiguous t := by
        refine ⟨fun all => all.of_suffix (List.suffix_cons _ _), fun later front behind whole => ?_⟩
        cases front with
        | nil =>
            by_contra apart
            apply there
            have line := Text.replace_cons escapedQuotes here
            rw [← contentLine_eq_replace, whole, List.nil_append,
              contentLine_escaped_append apart] at line
            exact ⟨_, line⟩
        | cons d front => exact later front behind (List.cons.inj whole).2
      rw [contentLine_eq_replace, Text.replace_cons _ here, ← contentLine_eq_replace,
        Text.replace_cons _ there, List.cons.injEq, ih, back]
      simp

instance (line : Text) : Decidable (IsUnambiguous line) :=
  decidable_of_iff _ replace_contentLine_eq_self_iff

theorem reread_of_ends {line : Text} (ends : line.getLast? ≠ some '\r') :
    reread line = Text.replace escapedQuotes quotes (contentLine line) := by
  rw [reread, chopReturn_contentLine, Text.chopReturn_eq_self ends]

/-- A carriage return at the end of a line is all that reading takes away of them. -/
theorem ends_of_count_reread {line : Text}
    (same : (reread line).count '\r' = line.count '\r') : line.getLast? ≠ some '\r' := by
  intro ends
  have whole : line.dropLast ++ ['\r'] = line := List.dropLast_append_getLast? _ ends
  rw [reread, chopReturn_contentLine, contentLine_eq_replace,
    Text.count_replace escapedQuotes_ne_nil (by decide) (by decide),
    Text.count_replace quotes_ne_nil (by decide) (by decide), ← whole,
    Text.chopReturn_append_return, List.count_append] at same
  simp at same

/-- A line is read as it was when it does not end with a carriage return and its own escapes
can be told from those of rendering, and only then. -/
theorem reread_eq_self_iff {line : Text} :
    reread line = line ↔ line.getLast? ≠ some '\r' ∧ IsUnambiguous line := by
  constructor
  · intro same
    have ends := ends_of_count_reread (congrArg _ same)
    rw [reread_of_ends ends] at same
    exact ⟨ends, replace_contentLine_eq_self_iff.1 same⟩
  · rintro ⟨ends, all⟩
    rw [reread_of_ends ends]
    exact replace_contentLine_eq_self_iff.2 all

/-- Rendering a line again gives the same text exactly when the line keeps its end and
its escapes. -/
theorem contentLine_reread_eq_iff {line : Text} :
    contentLine (reread line) = contentLine line ↔ line.getLast? ≠ some '\r' ∧
      contentLine (Text.replace escapedQuotes quotes (contentLine line)) = contentLine line := by
  constructor
  · intro same
    have counted := congrArg (List.count '\r') same
    simp only [contentLine_eq_replace] at counted
    rw [Text.count_replace quotes_ne_nil (by decide) (by decide),
      Text.count_replace quotes_ne_nil (by decide) (by decide)] at counted
    have ends := ends_of_count_reread counted
    rw [reread_of_ends ends] at same
    exact ⟨ends, same⟩
  · rintro ⟨ends, same⟩
    rw [reread_of_ends ends]
    exact same

/-! ## Lines that were read

Reading takes the escapes of all escaped delimiters away at once. An escaped delimiter in what
it leaves can only come about at the border of another one, and two quotes stand behind it then.
So rendering what was read and reading it again changes nothing.
-/

/-- What begins with a quote once its delimiters lost their escapes began with one, or with an
escaped delimiter. -/
theorem replace_escapedQuotes_eq_quote_cons {t rest : Text}
    (starts : Text.replace escapedQuotes quotes t = '"' :: rest) :
    (∃ t', t = '"' :: t' ∧ Text.replace escapedQuotes quotes t' = rest) ∨
      ['"', '"'] <+: rest := by
  rcases Text.replace_eq_cons escapedQuotes_ne_nil starts with ⟨t', rfl, made⟩ | ⟨_, before⟩
  · exact .inr ⟨_, (List.cons.inj made).2⟩
  · exact .inl before

/-- A backslash that is left stood there before. -/
theorem replace_escapedQuotes_eq_slash_cons {t rest : Text}
    (starts : Text.replace escapedQuotes quotes t = '\\' :: rest) :
    ∃ t', t = '\\' :: t' ∧ Text.replace escapedQuotes quotes t' = rest := by
  rcases Text.replace_eq_cons escapedQuotes_ne_nil starts with ⟨t', rfl, made⟩ | ⟨_, before⟩
  · exact absurd (List.cons.inj made).1 (by decide)
  · exact before

/-- A quote between two backslashes stood there before, with the second one. -/
theorem replace_escapedQuotes_eq_quote_slash_cons {t rest : Text}
    (starts : Text.replace escapedQuotes quotes t = '"' :: '\\' :: rest) :
    ∃ t', t = '"' :: '\\' :: t' ∧ Text.replace escapedQuotes quotes t' = rest := by
  rcases replace_escapedQuotes_eq_quote_cons starts with ⟨t', rfl, later⟩ | ends
  · obtain ⟨t'', rfl, behind⟩ := replace_escapedQuotes_eq_slash_cons later
    exact ⟨t'', rfl, behind⟩
  · exact absurd (List.cons_prefix_cons.mp ends).1 (by decide)

/-- Escaped delimiters in a line that was read can be told from those that rendering escapes. -/
theorem isUnambiguous_replace (line : Text) :
    IsUnambiguous (Text.replace escapedQuotes quotes line) := by
  induction line using Text.search_induction escapedQuotes_ne_nil with
  | nil =>
      intro front behind whole
      simp [escapedQuotes_ne_nil] at whole
  | found t ih =>
      rw [Text.replace_append _ escapedQuotes_ne_nil]
      exact isUnambiguous_quotes_append_iff.2 ih
  | absent c t apart ih =>
      intro front behind whole
      rw [Text.replace_cons _ apart] at whole
      cases front with
      | cons d front => exact ih front behind (List.cons.inj whole).2
      | nil =>
          -- All but its last quote stood in the line, and with that it would have been replaced.
          obtain ⟨rfl, first⟩ := List.cons.inj whole
          obtain ⟨t₁, rfl, second⟩ := replace_escapedQuotes_eq_quote_slash_cons first
          obtain ⟨t₂, rfl, third⟩ := replace_escapedQuotes_eq_quote_slash_cons second
          rcases replace_escapedQuotes_eq_quote_cons third with ⟨t₃, rfl, _⟩ | ends
          · exact absurd ⟨t₃, rfl⟩ apart
          · exact ends

/-- The front of an escaped delimiter, right before a whole one, is completed by its quotes. -/
example : Text.replace escapedQuotes quotes (Text.word "\\\"\\\"\\\\\"\\\"\\\"") =
    escapedQuotes ++ ['"', '"'] := by decide +kernel

/-- A line that was read, whatever its indentation, is read as itself once it is rendered, and
so is every line without an escaped delimiter. No such line is taken for the delimiter. -/
theorem contentLine_isStable (indent : Nat) (line : Text) :
    Document.contentLine .quotes 0 (contentLine (Document.contentLine .quotes indent line)) =
        Document.contentLine .quotes indent line ∧
      (¬ escapedQuotes <:+: line →
        Document.contentLine .quotes 0 (contentLine line) = line ∧
          Text.trim (contentLine line) ≠ quotes) := by
  refine ⟨replace_contentLine_eq_self_iff.2 (isUnambiguous_replace _), fun absent => ?_⟩
  have unambiguous : IsUnambiguous line := fun front behind whole =>
    absurd ⟨front, behind, by rw [whole, List.append_assoc]⟩ absent
  exact ⟨replace_contentLine_eq_self_iff.2 unambiguous, trim_contentLine_ne line⟩

/-- A delimiter with backslashes and a further quote beside it. -/
def sampleLine : Text := Text.word "\\\"\\\"\"\"\"\\\""

/-- The sample line is escaped in its middle and read as it was. -/
theorem contentLine_isStable_sampleLine :
    ¬ escapedQuotes <:+: sampleLine ∧
      contentLine sampleLine = Text.word "\\\"\\\\\"\\\"\\\"\"\\\"" ∧
      Document.contentLine .quotes 0 (contentLine sampleLine) = sampleLine ∧
      Text.trim (contentLine sampleLine) ≠ quotes := by
  have absent : ¬ escapedQuotes <:+: sampleLine := by decide +kernel
  exact ⟨absent, by decide +kernel, (contentLine_isStable 0 sampleLine).2 absent⟩

/-! ## All lines of a doc string -/

theorem pieces_reread (contents : Text) :
    Text.pieces (Text.unlines ((Text.pieces contents).map reread)) =
      (Text.pieces contents).map reread := by
  refine Text.pieces_unlines (by simpa using Text.pieces_ne_nil contents) ?_
  exact List.forall_mem_map.mpr fun line member =>
    not_newline_mem_reread (Text.not_mem_of_mem_pieces member)

/-- Contents stay as they are when all their lines do. -/
theorem unlines_reread_eq_iff {contents : Text} :
    Text.unlines ((Text.pieces contents).map reread) = contents ↔
      ∀ line ∈ Text.pieces contents, reread line = line := by
  constructor
  · intro same line member
    have pieces := congrArg Text.pieces same
    rw [pieces_reread] at pieces
    exact List.map_inj_left.mp (pieces.trans (List.map_id _).symm) line member
  · intro same
    rw [List.map_congr_left same, List.map_id', Text.unlines_pieces]

end Layout

end Gherkin
