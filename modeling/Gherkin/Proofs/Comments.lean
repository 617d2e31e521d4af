import Gherkin.Proofs.Document.CommentedReading
import Gherkin.Proofs.Document.RowPlacement
import Gherkin.Proofs.Stability

/-!
# Comments in source text

A line that begins with a number sign is put below some lines of a document that is read, from
the header of its feature on and outside of its doc strings. The document is modeled as before,
unless the line looks like a language header and stands between two rows: these are no longer
rows of one table then, and the text is refused.
-/

namespace Gherkin

open Document Line

variable {release : Release} {active dialect : Dialect} {pinned : Option Dialect}
  {source uri line : Text} {count : Nat}

namespace Line

/-- Only the numbers of lines change when they move. -/
theorem aligned_readAll {spot : Spot} {raws : List Text} (oneLine : ∀ raw ∈ raws, '\n' ∉ raw)
    (number other : Nat) :
    Aligned dialect spot (readAll dialect number raws) (readAll dialect other raws) := by
  induction raws generalizing spot number other with
  | nil => exact .nil
  | cons raw raws ih =>
      obtain ⟨here, later⟩ := List.forall_mem_cons.mp oneLine
      exact .cons (.of_read here here rfl (fun _ _ _ => rfl) _ _) (ih later _ _)

/-- A line without its carriage return is read like the line with it, but inside of a doc string,
where it is not the last one. -/
theorem alike_chopReturn {spot : Spot} {piece first : Text} (number other : Nat)
    (oneLine : '\n' ∉ piece) (same : first = Text.chopReturn piece ∨
      first = piece ∧ (spot.after (read dialect number first)).IsOutside) :
    Alike dialect spot (read dialect number first)
      (read dialect other (Text.chopReturn piece)) := by
  have chopped : '\n' ∉ Text.chopReturn piece := fun newline =>
    oneLine (Text.mem_of_mem_chopReturn newline)
  rcases same with rfl | ⟨rfl, outside⟩
  · exact .of_read chopped chopped rfl (fun _ _ _ => rfl) _ _
  · refine .of_read oneLine chopped (Text.trimEnd_chopReturn first) ?_ _ _
    intro fence within apart
    have still : spot.after (read dialect number first) = .inside fence := by
      rw [within]
      exact if_neg apart
    exact absurd still (outside fence)

/-- The lines of some pieces and of those with another one among them. -/
theorem exists_insertIdx {spot : Spot} {ps : List Text} (oneLine : ∀ piece ∈ ps, '\n' ∉ piece)
    (written : line ≠ []) (bound : count ≤ (Text.linesOfPieces ps).length) (number other : Nat)
    (outside : (spot.below
      ((readAll dialect number (Text.linesOfPieces ps)).take count)).IsOutside) :
    ∃ front note back,
      readAll dialect other (Text.linesOfPieces (ps.insertIdx count line)) =
        front ++ note :: back ∧
      note.kind = classify dialect (Text.trim line) ∧
      Aligned dialect spot ((readAll dialect number (Text.linesOfPieces ps)).take count) front ∧
      Aligned dialect (spot.below ((readAll dialect number (Text.linesOfPieces ps)).take count))
        ((readAll dialect number (Text.linesOfPieces ps)).drop count) back := by
  induction count generalizing ps number other spot with
  | zero =>
      obtain ⟨first, whole, same⟩ := @Text.linesOfPieces_cons line ps (.inl written)
      have trimmed : Text.trim first = Text.trim line := by
        rcases same with rfl | ⟨_, rfl⟩
        · exact Text.trim_chopReturn line
        · rfl
      have kind : (read dialect other first).kind = classify dialect (Text.trim line) :=
        congrArg (classify dialect) trimmed
      refine ⟨[], read dialect other first, _, ?_, kind, .nil, aligned_readAll ?_ _ (other + 1)⟩
      · rw [List.insertIdx_zero, whole]
        rfl
      · exact fun raw member => Text.not_mem_of_mem_linesOfPieces oneLine member
  | succ count ih =>
      cases ps with
      | nil => cases bound
      | cons piece ps =>
          have some : piece ≠ [] ∨ ps ≠ [] := by
            by_contra none
            obtain ⟨rfl, rfl⟩ : piece = [] ∧ ps = [] := by simpa using none
            cases bound
          obtain ⟨here, later⟩ := List.forall_mem_cons.mp oneLine
          obtain ⟨first, whole, same⟩ := Text.linesOfPieces_cons some
          rw [whole] at bound outside ⊢
          have below : count ≤ (Text.linesOfPieces ps).length := Nat.le_of_succ_le_succ bound
          have more : ps.insertIdx count line ≠ [] :=
            Text.insertIdx_ne_nil (Nat.le_trans below (Text.length_linesOfPieces_le ps)) line
          obtain ⟨again, wholeAgain, sameAgain⟩ := Text.linesOfPieces_cons (.inr more)
          obtain rfl := sameAgain.resolve_right fun last => more last.1
          obtain ⟨front, note, back, rest, kind, aligned, behind⟩ :=
            ih later below (number + 1) (other + 1) outside
          have alike : Alike dialect spot (read dialect number first)
              (read dialect other (Text.chopReturn piece)) := by
            refine alike_chopReturn number other here (same.imp_right fun last => ⟨last.2, ?_⟩)
            obtain ⟨rfl, _⟩ := last
            obtain rfl : count = 0 := Nat.le_zero.mp below
            exact outside
          refine ⟨_, note, back, ?_, kind, .cons alike aligned, behind⟩
          rw [List.insertIdx_succ_cons, wholeAgain, readAll, rest]
          rfl

/-- Lines that are alike up to one that means something have the same language headers in front
of it. -/
theorem Aligned.codes {spot : Spot} {lines others : List Line}
    (aligned : Aligned dialect spot lines others) (kept : ∃ line ∈ lines, line.isIgnorable = false)
    (below rest : List Line) :
    ((others ++ rest).takeWhile isIgnorable).filterMap Line.languageCode? =
      ((lines ++ below).takeWhile isIgnorable).filterMap Line.languageCode? := by
  induction aligned with
  | nil =>
      obtain ⟨_, member, _⟩ := kept
      cases member
  | @cons spot line other lines others alike _ ih =>
      have same := alike.isIgnorable
      rw [List.cons_append, List.cons_append]
      by_cases ignorable : line.isIgnorable = true
      · have later : ∃ line ∈ lines, line.isIgnorable = false := by
          obtain ⟨found, member, matters⟩ := kept
          refine ⟨found, (List.mem_cons.mp member).resolve_left ?_, matters⟩
          rintro rfl
          exact absurd ignorable (by simp [matters])
        have code : other.languageCode? = line.languageCode? := by
          rw [Line.languageCode?, Line.languageCode?, alike.kind]
        rw [List.takeWhile_cons_of_pos ignorable, List.takeWhile_cons_of_pos (same.trans ignorable),
          List.filterMap_cons, List.filterMap_cons, code, ih later]
      · rw [List.takeWhile_cons_of_neg ignorable, List.takeWhile_cons_of_neg (same ▸ ignorable)]

end Line

namespace Document

/-- Where a line stands that is put below the first lines of source text. -/
def spotBelow (dialect : Dialect) (source : Text) (count : Nat) : Spot :=
  Spot.elsewhere.below ((settledLines dialect source).take count)

/-- A line that begins with a number sign can be put below the first lines of source text, from
the header of the feature on and outside of doc strings. -/
structure Annotates (dialect : Dialect) (source : Text) (count : Nat) (line : Text) : Prop where
  oneLine : '\n' ∉ line
  sign : (Text.trim line).head? = some '#'
  bound : count ≤ (Text.lines source).length
  header : ∃ header ∈ (settledLines dialect source).take count,
    ∃ keyword name, header.kind = .header .feature keyword name
  outside : (spotBelow dialect source count).IsOutside

/-- A line that looks like a language header is put between two rows. -/
structure Severs (dialect : Dialect) (source : Text) (count : Nat) (line : Text) : Prop where
  language : ∃ code, classify (settledDialect dialect source) (Text.trim line) = .language code
  above : spotBelow dialect source count = .belowRow
  below : ContinuesTable ((settledLines dialect source).drop count)

namespace Annotates

/-- The lines of a text and of the one with another line in it. -/
theorem exists_lines (annotates : Annotates dialect source count line) :
    ∃ front note back,
      readAll (settledDialect dialect source) 1 (Text.lines (Text.insertLine line count source)) =
        front ++ note :: back ∧
      note.kind = classify (settledDialect dialect source) (Text.trim line) ∧
      Aligned (settledDialect dialect source) .elsewhere
        ((settledLines dialect source).take count) front ∧
      Aligned (settledDialect dialect source) (spotBelow dialect source count)
        ((settledLines dialect source).drop count) back := by
  have written : line ≠ [] := by
    rintro rfl
    exact absurd annotates.sign (by decide)
  rw [Text.lines, Text.pieces_insertLine annotates.oneLine annotates.bound]
  exact exists_insertIdx (fun _ inside => Text.not_mem_of_mem_pieces inside) written
    annotates.bound 1 1 annotates.outside

/-- The line is below all that chooses the dialect. -/
theorem codes_eq (annotates : Annotates dialect source count line) :
    (openingLines dialect 1 (Text.lines (Text.insertLine line count source))).filterMap
        Line.languageCode? =
      (openingLines dialect 1 (Text.lines source)).filterMap Line.languageCode? := by
  obtain ⟨front, note, back, whole, _, aligned, _⟩ := annotates.exists_lines
  obtain ⟨header, member, _, _, kind⟩ := annotates.header
  have kept : header.isIgnorable = false := by simp [isIgnorable, kind]
  have same := aligned.codes ⟨header, member, kept⟩ ((settledLines dialect source).drop count)
    (note :: back)
  rw [List.take_append_drop, ← whole, settledLines,
    takeWhile_readAll dialect (settledDialect dialect source),
    takeWhile_readAll dialect (settledDialect dialect source)] at same
  exact same

theorem settledDialect_eq (annotates : Annotates dialect source count line) :
    settledDialect dialect (Text.insertLine line count source) = settledDialect dialect source := by
  rw [settledDialect, settle, annotates.codes_eq, settledDialect, settle]

theorem headersKnown_iff (annotates : Annotates dialect source count line) :
    HeadersKnown dialect (Text.insertLine line count source) ↔ HeadersKnown dialect source := by
  rw [HeadersKnown, annotates.codes_eq, HeadersKnown]

theorem isNote (annotates : Annotates dialect source count line) {spoken : Dialect} {note : Line}
    (kind : note.kind = classify spoken (Text.trim line)) : note.IsNote := by
  obtain ⟨rest, whole⟩ := List.head?_eq_some_iff.mp annotates.sign
  rw [whole, classify] at kind
  cases code : Gherkin.languageCode? rest with
  | none => exact .inl (by rw [kind, code])
  | some code' => exact .inr ⟨code', by rw [kind, code]⟩

/-- With the line among them, the lines are read as before, unless a table is severed. -/
theorem exists_read {document : Document} (annotates : Annotates dialect source count line)
    (whole : ¬ Severs dialect source count line)
    (read : Document.read release dialect uri source = .ok document) :
    ∃ again, Document.read release dialect uri (Text.insertLine line count source) = .ok again ∧
      (again.branch uri).content = (document.branch uri).content := by
  obtain ⟨known, feature⟩ := read_eq_ok_iff_feature.mp read
  obtain ⟨front, note, back, lines, kind, above, below⟩ := annotates.exists_lines
  have isNote : note.IsNote := annotates.isNote kind
  have apart (header : note.kind ≠ .comment)
      (belowRow : spotBelow dialect source count = .belowRow) :
      ¬ ContinuesTable ((settledLines dialect source).drop count) := by
    obtain ⟨code, language⟩ := isNote.resolve_left header
    exact fun continues => whole ⟨⟨code, kind ▸ language⟩, belowRow, continues⟩
  have commented : Commented (settledDialect dialect source) .elsewhere
      (settledLines dialect source) (front ++ note :: back) := by
    rw [← List.take_append_drop count (settledLines dialect source)]
    exact above.commented_append (.insert annotates.outside isNote apart below.commented)
  obtain ⟨again, readAgain, same⟩ := feature.commented commented Spot.isOutside_elsewhere
  refine ⟨⟨again⟩, read_eq_ok_iff_feature.mpr ⟨annotates.headersKnown_iff.mpr known, ?_⟩, ?_⟩
  · rw [settledLines, annotates.settledDialect_eq, lines]
    exact readAgain
  · refine Branch.content_node_eq _ ?_
    simp only [← Option.toList_map, same]

/-- Rows with a language header between them are not read. -/
theorem not_read {document : Document} (annotates : Annotates dialect source count line)
    (severs : Severs dialect source count line) :
    Document.read release dialect uri (Text.insertLine line count source) ≠ .ok document := by
  intro read
  obtain ⟨_, feature⟩ := read_eq_ok_iff_feature.mp read
  obtain ⟨front, note, back, lines, kind, above, below⟩ := annotates.exists_lines
  obtain ⟨code, language⟩ := severs.language
  have header : note.kind = .language code := kind.trans language
  rw [settledLines, annotates.settledDialect_eq, lines] at feature
  have belowRow : Spot.elsewhere.below front = .belowRow := above.below_eq.trans severs.above
  obtain ⟨opened, placed, closed⟩ := feature.rowsPlaced.of_append fun _ => rfl
  rw [belowRow] at placed closed
  have ended : Spot.belowRow.after note = .elsewhere ∧ note.opensTable opened = false := by
    simp [Spot.after, opensTable, header, closed rfl]
  obtain ⟨_, later⟩ := placed
  rw [ended.1, ended.2] at later
  exact later.not_continuesTable (below.continuesTable severs.below)

end Annotates

end Document

namespace Modeler

/-- A text is modeled with the content of a branch. -/
def Reproduces (modeler : Modeler) (text uri : Text) (branch : Branch Origin) : Prop :=
  ∃ again, modeler.document text uri = .ok again ∧ ∀ tree other : Tree,
    (tree.plant branch).sameContent tree.size (other.plant again) other.size = true

/-- A comment in a document changes nothing in its content, wherever it stands from the header
of the feature on and outside of doc strings. Of the lines that begin with a number sign just
those that look like a language header are an exception, where they stand between two rows. -/
theorem document_insertLine_iff {branch : Branch Origin} (supported : release ∈ Release.all)
    (known : pinned.getD active ∈ Dialect.all)
    (modeled : (ofRelease active release pinned).document source uri = .ok branch)
    (annotates : Annotates (pinned.getD active) source count line) :
    (ofRelease active release pinned).Reproduces (Text.insertLine line count source) uri branch ↔
      ¬ Severs (pinned.getD active) source count line := by
  obtain ⟨document, read, rfl⟩ := (document_eq_ok_iff supported known).mp modeled
  constructor
  · rintro ⟨_, modeledAgain, _⟩ severs
    obtain ⟨again, readAgain, _⟩ := (document_eq_ok_iff supported known).mp modeledAgain
    exact annotates.not_read severs readAgain
  · intro whole
    obtain ⟨again, readAgain, same⟩ := annotates.exists_read whole read
    refine ⟨_, document_of_read supported known readAgain, fun tree other => ?_⟩
    apply Tree.sameContent_of_linedBranch? (linedBranch?_plant_rootedBranch _ _ _ _)
      (linedBranch?_plant_rootedBranch _ _ _ _)
    rw [Branch.content_map, Branch.content_map, same]

/-- A document with a table of two rows. -/
def sampleTable : Text :=
  Text.unlines (["Feature: f", "  Scenario: s", "    Given x", "      | a |", "      | b |"].map
    Text.word)

/-- A line that begins with a number sign can be put between the rows of the sample. -/
theorem annotates_sampleTable {line : Text} (oneLine : '\n' ∉ line)
    (sign : (Text.trim line).head? = some '#') : Annotates .english sampleTable 4 line where
  oneLine := oneLine
  sign := sign
  bound := by decide
  header := by
    have found : ∃ header ∈ (settledLines .english sampleTable).take 4,
        header.kind = .header .feature (Text.word "Feature") (Text.word "f") := by decide
    obtain ⟨header, member, kind⟩ := found
    exact ⟨header, member, _, _, kind⟩
  outside := by
    have below : spotBelow .english sampleTable 4 = .belowRow := by decide
    rw [below]
    exact Spot.isOutside_belowRow

theorem exists_document_sampleTable : ∃ branch,
    (ofRelease .english .newest none).document sampleTable (Text.word "a.feature") = .ok branch :=
  Except.exists_of_isOk (by decide +kernel)

/-- A comment between the rows of the sample changes nothing. -/
theorem document_insertLine_sampleTable :
    ∃ branch, (ofRelease .english .newest none).document sampleTable (Text.word "a.feature") =
        .ok branch ∧
      (ofRelease .english .newest none).Reproduces
        (Text.insertLine (Text.word "# note") 4 sampleTable) (Text.word "a.feature") branch := by
  have comment : classify (settledDialect .english sampleTable)
      (Text.trim (Text.word "# note")) = .comment := by decide
  obtain ⟨branch, modeled⟩ := exists_document_sampleTable
  refine ⟨branch, modeled, (document_insertLine_iff (by decide) (by decide) modeled
    (annotates_sampleTable (by decide) (by decide))).mpr ?_⟩
  rintro ⟨⟨code, language⟩, _, _⟩
  exact absurd (comment.symm.trans language) nofun

/-- A line that looks like a language header between the rows of the sample is refused. -/
theorem document_not_insertLine_language :
    ∃ branch, (ofRelease .english .newest none).document sampleTable (Text.word "a.feature") =
        .ok branch ∧
      Annotates .english sampleTable 4 (Text.word "# language: en") ∧
      ¬ (ofRelease .english .newest none).Reproduces
        (Text.insertLine (Text.word "# language: en") 4 sampleTable) (Text.word "a.feature")
        branch := by
  have refused : ((ofRelease .english .newest none).document
      (Text.insertLine (Text.word "# language: en") 4 sampleTable)
      (Text.word "a.feature")).isOk = false := by decide +kernel
  obtain ⟨branch, modeled⟩ := exists_document_sampleTable
  refine ⟨branch, modeled, annotates_sampleTable (by decide) (by decide), ?_⟩
  rintro ⟨again, modeledAgain, _⟩
  rw [modeledAgain] at refused
  cases refused

end Modeler

end Gherkin
