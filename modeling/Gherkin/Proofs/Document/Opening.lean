import Gherkin.Proofs.Document.Boundary
import Gherkin.Proofs.Document.Layout
import Gherkin.Proofs.Document.Normality

/-!
# Rendered openings are read back

The tags, the header and the description that a spelled construct is rendered with are
read as they were, whatever stands below them, as long as nothing there continues the
description. The lines that are read may lack some at the front that mean nothing, as every
reader passes over those first.
-/

namespace Gherkin

open Layout

namespace Layout

open Document Line Grammar
open Description (indented indented_of_ne_nil trim_indented)

variable {dialect : Dialect} {margin : Nat → Text} {width : Text → Nat} {depth : Nat}
  {items : List Item} {lines : List Line}

/-! ## Single lines -/

theorem Written.of_gap (written : Written dialect margin (.gap :: items) lines) :
    ∃ front below, lines = front ++ below ∧ (∀ line ∈ front, line.kind = .blank) ∧
      Written dialect margin items below := by
  cases written with
  | gap written => exact ⟨[], lines, rfl, by simp, written⟩
  | @blank line _ below kind _ written =>
      exact ⟨[line], below, rfl, by simpa using kind, written⟩

/-- A line for a label is read with the meaning of the label. -/
theorem Written.of_label {text : Text} (blank : ∀ depth, Text.IsBlank (margin depth))
    (written : Written dialect margin (.line depth text :: items) lines)
    (label : Text.IsLabel text) :
    ∃ line below, lines = line :: below ∧
      line.raw = indented (margin depth) text ∧
      line.kind = classify dialect text ∧ line.trimmed = text ∧
      Written dialect margin items below := by
  cases written with
  | @line _ _ line _ below raw kind written =>
      have ends := Description.trimEnd_indented (margin depth)
        (Text.trimEnd_of_isTrimmed label.trimmed)
      rw [Text.chopReturn_of_trimEnd ends] at raw
      have trimmed : line.trimmed = text := by
        rw [Line.trimmed, raw, trim_indented (blank depth),
          Text.trim_eq_self label.trimmed]
      exact ⟨line, below, rfl, raw, trimmed ▸ kind, trimmed, written⟩

/-- Lines of one depth are read one by one. -/
theorem Written.each {ls : List Text} (blank : ∀ depth, Text.IsBlank (margin depth))
    (written : Written dialect margin (ls.map (Item.line depth)) lines) :
    lines.map Line.raw =
        ls.map (fun text => Text.chopReturn (indented (margin depth) text)) ∧
      lines.map Line.trimmed = ls.map Text.trim ∧
      ∀ line ∈ lines, line.kind = classify dialect line.trimmed := by
  induction ls generalizing lines with
  | nil =>
      cases written
      exact ⟨rfl, rfl, by simp⟩
  | cons text ls ih =>
      cases written with
      | @line _ _ line _ below raw kind written =>
          obtain ⟨raws, trimmed, kinds⟩ := ih written
          have here : line.trimmed = Text.trim text := by
            rw [Line.trimmed, raw, Text.trim_chopReturn,
              trim_indented (blank depth)]
          simp only [List.map_cons, raw, raws, here, trimmed, true_and]
          exact List.forall_mem_cons.mpr ⟨kind, kinds⟩

/-! ## Openings -/

/-- The names of tags on a line are read as these tags. -/
theorem exists_lineTags {names : List Text} {indent joined : Text} {line : Line}
    (blank : Text.IsBlank indent) (tags : ∀ name ∈ names, IsTagName name)
    (whole : Text.join [' '] names = '@' :: joined)
    (raw : line.raw = indented indent (Text.join [' '] names)) :
    ∃ found : List Tag, found.map Tag.name = names ∧
      lineTags line (Word.beforeComment (Word.split 1 line.raw)) = .ok found := by
  have solid : ∀ name ∈ names, name ≠ [] ∧ ∀ c ∈ name, Text.isBlank c = false := by
    intro name member
    obtain ⟨c, rest, rfl⟩ := (tags name member).shape
    exact ⟨List.cons_ne_nil _ _, (tags _ member).solid⟩
  have texts : (Word.split 1 line.raw).map Word.text = names := by
    rw [raw, indented_of_ne_nil _ (whole ▸ List.cons_ne_nil _ _),
      Word.split_append_of_isBlank blank, Word.map_text_split_join solid]
  have isTag : ∀ word ∈ Word.split 1 line.raw, ∃ c rest, word.text = '@' :: c :: rest := by
    intro word member
    exact (tags word.text (texts ▸ List.mem_map_of_mem member)).shape
  have before : Word.beforeComment (Word.split 1 line.raw) = Word.split 1 line.raw := by
    refine List.takeWhile_eq_self_iff.mpr fun word member => ?_
    obtain ⟨c, rest, shape⟩ := isTag word member
    simp [shape]
  refine ⟨(Word.split 1 line.raw).map fun word => ⟨⟨line.number, word.column⟩, word.text⟩, ?_, ?_⟩
  · rw [← texts, List.map_map]
    rfl
  · rw [before]
    exact lineTags_eq_ok_iff.mpr ⟨fun word member => Word.isTag_iff.mpr (isTag word member), rfl⟩

theorem tags_stop {rest : List Line}
    (first : ∀ line ∈ rest.head?, line.isIgnorable = false ∧ line.kind ≠ .tags) :
    Tags rest [] rest := by
  cases rest with
  | nil => exact .done
  | cons line rest =>
      obtain ⟨kept, other⟩ := first line rfl
      exact .stop kept other

theorem written_tagItems {names : List Text} (blank : ∀ depth, Text.IsBlank (margin depth))
    (tags : ∀ name ∈ names, IsTagName name)
    (written : Written dialect margin (tagItems depth names) lines) :
    ∃ found : List Tag, found.map Tag.name = names ∧
      ∀ rest, (∀ line ∈ rest.head?, line.isIgnorable = false ∧ line.kind ≠ .tags) →
        Tags (lines ++ rest) found rest := by
  unfold tagItems at written
  split at written
  · next none =>
    cases written
    exact ⟨[], by rw [List.isEmpty_iff.mp none, List.map_nil], fun rest => tags_stop⟩
  · next some =>
    obtain ⟨joined, whole, label⟩ := exists_join_tagNames (by simpa using some) tags
    obtain ⟨line, below, rfl, raw, kind, _, written⟩ := written.of_label blank (whole ▸ label)
    cases written
    obtain ⟨found, same, read⟩ := exists_lineTags (blank depth) tags whole raw
    refine ⟨found, same, fun rest first => ?_⟩
    have here := Tags.line (kind.trans (whole ▸ classify_tags joined)) read (tags_stop first)
    rwa [List.append_nil] at here

/-- Tags and a header are read in front of whatever stands below them. -/
theorem written_headed (regular : dialect.Regular) (blank : ∀ depth, Text.IsBlank (margin depth))
    {header : Header} (spelled : header.Spelled dialect) (other : header.construct ≠ .step)
    {names : List Text}
    (tags : ∀ name ∈ names, IsTagName name)
    (written : Written dialect margin (headed depth names header.heading) lines) :
    ∃ (found : List Tag) (line : Line) (below : List Line), found.map Tag.name = names ∧
      line.kind = .header header.construct header.keyword header.name ∧
      Written dialect margin (description depth header.heading.description) below ∧
      ∀ rest, Tags (lines ++ rest) found (line :: (below ++ rest)) := by
  obtain ⟨above, behind, rfl, tagLines, written⟩ := written.exists_append
  obtain ⟨found, same, read⟩ := written_tagItems blank tags tagLines
  have label : Text.IsLabel (headerLine header.heading) :=
    isLabel_headerLine regular other spelled.keyword spelled.name
  obtain ⟨line, below, rfl, _, kind, _, written⟩ := written.of_label blank label
  have headerKind : line.kind = .header header.construct header.keyword header.name :=
    kind.trans (classify_headerLine regular other spelled.keyword spelled.name)
  refine ⟨found, line, below, same, headerKind, written, fun rest => ?_⟩
  rw [List.append_assoc]
  refine read _ ?_
  rintro _ ⟨⟩
  simp [isIgnorable, headerKind]

/-! ## Descriptions -/

theorem significant_append_rest {below rest : List Line}
    (continues : ∀ line ∈ below, line.continuesDescription = true)
    (ends : ∀ line ∈ (significant rest).head?, line.kind ≠ .other) :
    (below ++ rest).dropWhile continuesDescription = significant rest ∧
      ∃ passed, (∀ line ∈ passed, line.isIgnorable = true) ∧
        (below ++ rest).takeWhile continuesDescription = below ++ passed := by
  have stops : rest.dropWhile continuesDescription = significant rest ∧
      ∀ line ∈ rest.takeWhile continuesDescription, line.isIgnorable = true := by
    induction rest with
    | nil => exact ⟨rfl, by simp⟩
    | cons line rest ih =>
        by_cases ignorable : line.isIgnorable = true
        · have skipped : significant (line :: rest) = significant rest :=
            List.dropWhile_cons_of_pos ignorable
          have passed : line.continuesDescription = true := by
            simp [continuesDescription, ignorable]
          rw [skipped] at ends ⊢
          rw [List.dropWhile_cons_of_pos passed, List.takeWhile_cons_of_pos passed]
          exact (ih ends).imp_right fun all => List.forall_mem_cons.mpr ⟨ignorable, all⟩
        · have kept := significant_cons rest (by simpa using ignorable)
          rw [kept] at ends ⊢
          have other := ends line rfl
          have ended : ¬ line.continuesDescription = true := by
            simp [continuesDescription, ignorable, other]
          rw [List.dropWhile_cons_of_neg ended, List.takeWhile_cons_of_neg ended]
          exact ⟨rfl, by simp⟩
  refine ⟨?_, _, stops.2, List.takeWhile_append_of_pos continues⟩
  rw [List.dropWhile_append_of_pos continues, stops.1]

/-- The lines of a description between two gaps. -/
theorem written_description (blank : ∀ depth, Text.IsBlank (margin depth))
    (newlineFree : ∀ depth, '\n' ∉ margin depth) {text : Text}
    (trimmed : Description.trim text = text)
    (free : ∀ line ∈ Text.pieces text, dialect.IsFree line)
    (written : Written dialect margin (description depth text) lines) :
    ∃ front ls back, lines = front ++ ls ++ back ∧ (∀ line ∈ front, line.kind = .blank) ∧
      (∀ line ∈ back, line.kind = .blank) ∧ (∀ line ∈ ls, line.kind = .other ∨ line.kind = .blank) ∧
      IsStripped (fun line => line.kind == .blank) ls ∧
      Description.trim (Text.unlines (ls.map Line.raw)) = text := by
  by_cases empty : text = []
  · subst empty
    cases written
    exact ⟨[], [], [], rfl, by simp, by simp, by simp, isStripped_nil, rfl⟩
  have block := Description.isBlock_pieces trimmed empty
  have some : text.isEmpty = false := by simp [empty]
  rw [description, some, if_neg Bool.false_ne_true] at written
  obtain ⟨front, below, rfl, above, written⟩ := written.of_gap
  obtain ⟨ls, last, rfl, middle, ended⟩ := written.exists_append
  obtain ⟨back, none, rfl, behind, ended⟩ := ended.of_gap
  cases ended
  obtain ⟨raws, trimmedLines, kinds⟩ := middle.each blank
  refine ⟨front, ls, back, by simp, above, behind, ?_, ?_, ?_⟩
  · intro line member
    have inside : line.trimmed ∈ (Text.pieces text).map Text.trim :=
      trimmedLines ▸ List.mem_map_of_mem member
    obtain ⟨piece, original, same⟩ := List.mem_map.mp inside
    rw [kinds line member, ← same]
    exact (free piece original).imp_right classify_eq_blank_iff.mpr
  · have stripped : IsStripped List.isEmpty (ls.map Line.trimmed) := by
      rw [trimmedLines]
      refine block.stripped.map fun piece member kept => ?_
      have ends : Text.trimEnd piece ≠ [] := by
        rw [block.ends piece member]
        simpa using kept
      simpa [Text.trim_eq_nil_iff] using fun blank => ends (Text.trimEnd_eq_nil_iff.mpr blank)
    refine (isStripped_map_iff.mp stripped).congr fun line member => ?_
    rw [kinds line member, Bool.eq_iff_iff, beq_iff_eq, classify_eq_blank_iff, List.isEmpty_iff]
  · have unchopped : (Text.pieces text).map (fun line =>
        Text.chopReturn (indented (margin depth) line)) =
        (Text.pieces text).map (indented (margin depth)) :=
      List.map_congr_left fun line member =>
        Text.chopReturn_of_trimEnd (Description.trimEnd_indented _ (block.ends line member))
    rw [raws, unchopped]
    exact Description.trim_indented_pieces (blank depth)
      (newlineFree depth) trimmed

theorem trim_description {line : Line} {construct : Construct} {keyword name text : Text}
    {front ls back rest : List Line} (above : ∀ line ∈ front, line.kind = .blank)
    (behind : ∀ line ∈ back, line.kind = .blank)
    (free : ∀ line ∈ ls, line.kind = .other ∨ line.kind = .blank)
    (stripped : IsStripped (fun line => line.kind == .blank) ls)
    (trimmed : Description.trim (Text.unlines (ls.map Line.raw)) = text)
    (ends : ∀ line ∈ (significant rest).head?, line.kind ≠ .other) :
    (header line construct keyword name (front ++ ls ++ back ++ rest)).rest = significant rest ∧
      (header line construct keyword name (front ++ ls ++ back ++ rest)).value.heading =
        ⟨keyword, name, text⟩ := by
  have plain : ∀ line ∈ front ++ ls ++ back, line.kind = .other ∨ line.kind = .blank := by
    intro line member
    rcases List.mem_append.mp member with member | member
    · rcases List.mem_append.mp member with member | member
      · exact .inr (above line member)
      · exact free line member
    · exact .inr (behind line member)
  have continues : ∀ line ∈ front ++ ls ++ back, line.continuesDescription = true := by
    intro line member
    rcases plain line member with kind | kind <;> simp [continuesDescription, isIgnorable, kind]
  obtain ⟨dropped, passed, ignorable, taken⟩ := significant_append_rest continues ends
  let keeps (line : Line) : Bool := line.kind == .other || line.kind == .blank
  have kept : (front ++ ls ++ back ++ passed).filter keeps =
      front ++ ls ++ (back ++ passed.filter keeps) := by
    have all : ∀ line ∈ front ++ ls ++ back, keeps line = true := by simpa [keeps] using plain
    rw [List.filter_append, List.filter_eq_self.mpr all, List.append_assoc]
  have lines : descriptionLines (front ++ ls ++ back ++ rest) = ls := by
    unfold descriptionLines
    rw [taken]
    change strip _ ((front ++ ls ++ back ++ passed).filter keeps) = ls
    rw [kept]
    refine strip_eq_of_append (by simpa using above) (fun line member => ?_) stripped
    rcases List.mem_append.mp member with member | member
    · simpa using behind line member
    · obtain ⟨inside, keep⟩ := List.mem_filter.mp member
      have notOther : line.kind ≠ .other := fun other => by
        simpa [isIgnorable, other] using ignorable line inside
      simpa [keeps, notOther] using keep
  refine ⟨dropped, ?_⟩
  rw [header, Header.heading, lines, trimmed]

/-- Tags and a header with its description are read, and something is left below them. -/
structure Opens (construct : Construct) (heading : Heading) (names : List Text)
    (lines : List Line) (found : List Tag) (line : Line) (below rest : List Line) : Prop where
  tags : Tags lines found (line :: below)
  names : found.map Tag.name = names
  kind : line.kind = .header construct heading.keyword heading.name
  rest : (header line construct heading.keyword heading.name below).rest = rest
  heading : (header line construct heading.keyword heading.name below).value.heading = heading

theorem Opens.significant_rest {construct : Construct} {heading : Heading} {names : List Text}
    {found : List Tag} {line : Line} {below rest : List Line}
    (opened : Opens construct heading names lines found line below (significant rest)) :
    significant (header line construct heading.keyword heading.name below).rest =
      significant rest := by
  rw [opened.rest, significant_significant]

/-- What is rendered above the parts of a construct opens it. -/
theorem opens_headed (regular : dialect.Regular) (blank : ∀ depth, Text.IsBlank (margin depth))
    (newlineFree : ∀ depth, '\n' ∉ margin depth) {header : Header}
    (spelled : header.Spelled dialect)
    {construct : Construct} (named : header.construct = construct) (other : construct ≠ .step)
    {names : List Text} (tags : ∀ name ∈ names, IsTagName name)
    (written : Written dialect margin (headed depth names header.heading) lines)
    {all rest : List Line} (same : significant all = significant (lines ++ rest))
    (ends : ∀ line ∈ (significant rest).head?, line.kind ≠ .other) :
    ∃ found line below, Opens construct header.heading names all found line below
      (significant rest) := by
  subst named
  obtain ⟨found, line, below, named, kind, written, read⟩ :=
    written_headed regular blank spelled other tags written
  obtain ⟨front, ls, back, rfl, above, behind, free, stripped, trimmed⟩ :=
    written_description blank newlineFree header.trim_heading spelled.isFree written
  obtain ⟨left, heading⟩ := trim_description above behind free stripped trimmed ends
  exact ⟨found, line, _, (read rest).of_significant same, named, kind, left, heading⟩

/-- Tags and a header are a boundary. -/
theorem boundary_headed (regular : dialect.Regular) (blank : ∀ depth, Text.IsBlank (margin depth))
    {header : Header} (spelled : header.Spelled dialect) (other : header.construct ≠ .step)
    {names : List Text}
    (tags : ∀ name ∈ names, IsTagName name)
    (written : Written dialect margin (headed depth names header.heading) lines)
    (rest : List Line) : Boundary [header.construct] (lines ++ rest) := by
  obtain ⟨found, line, below, _, kind, _, read⟩ :=
    written_headed regular blank spelled other tags written
  refine ⟨found, _, read rest, by simp, ?_⟩
  rintro _ ⟨⟩
  exact ⟨_, List.mem_singleton_self _, _, _, kind⟩

end Layout

end Gherkin
