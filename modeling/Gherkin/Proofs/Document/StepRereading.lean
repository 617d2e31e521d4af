import Gherkin.Proofs.Document.Opening

/-!
# Rendered steps are read back

What spelled steps are rendered as is read as steps with the same branches but for the
lines of doc strings. The statements go from the rows of a table and the lines of a doc
string to a list of steps; each is about what is rendered in front of some lines that do
not belong to it.
-/

namespace Gherkin

open Layout Line

namespace Branch

variable {α β : Type}

/-- A branch says what another one says when it is read again. -/
def Rereads (read : Branch α) (original : Branch β) : Prop :=
  read.content = original.reread.content

theorem rereads_node {label : α} {label' : β} {element element' : Element}
    {children : List (Branch α)} {children' : List (Branch β)} (same : element = element'.reread)
    (below : List.Forall₂ Rereads children children') :
    Rereads (node label element children) (node label' element' children') := by
  have contents : children.map content = (children'.map reread).map content := by
    induction below with
    | nil => rfl
    | cons here _ ih => rw [List.map_cons, ih, here, List.map_cons, List.map_cons]
  rw [Rereads, reread_node, content, content, map_node, map_node, same]
  exact congrArg _ contents

theorem forall₂_map_of_eq {γ δ : Type} {as bs : List α} {key : α → γ} {f : α → δ}
    {r : δ → δ → Prop} (same : as.map key = bs.map key)
    (related : ∀ a b, key a = key b → r (f a) (f b)) : List.Forall₂ r (as.map f) (bs.map f) := by
  have keys : List.Forall₂ Eq (as.map key) (bs.map key) := by
    rw [List.forall₂_eq_eq_eq]
    exact same
  rw [List.forall₂_map_left_iff, List.forall₂_map_right_iff] at keys ⊢
  exact keys.imp related

end Branch

namespace Document

variable {dialect : Dialect} {margin : Nat → Text} {width : Text → Nat} {depth : Nat}
  {lines all rest : List Line}

/-! ## Tables -/

theorem rows_stop (known : Option Nat)
    (ends : ∀ line ∈ (significant rest).head?, line.kind ≠ .row) :
    ∃ left, Grammar.Rows known rest [] left ∧ significant left = significant rest := by
  induction rest with
  | nil => exact ⟨[], .done, rfl⟩
  | cons line rest ih =>
      by_cases comment : line.kind = .comment
      · have skipped : significant (line :: rest) = significant rest :=
          List.dropWhile_cons_of_pos (by simp [isIgnorable, comment])
        rw [skipped] at ends ⊢
        obtain ⟨left, read, same⟩ := ih ends
        exact ⟨left, .comment comment read, same⟩
      · have other : line.kind ≠ .row := by
          intro row
          have kept : line.isIgnorable = false := by simp [isIgnorable, row]
          rw [significant_cons _ kept] at ends
          exact ends line rfl row
        exact ⟨_, .stop other comment, rfl⟩

theorem written_row (blank : ∀ depth, Text.IsBlank (margin depth)) {columns : List Nat}
    {row : List Text}
    {items : List Item} (values : ∀ value ∈ row, IsCellValue value)
    (enough : row.length ≤ columns.length)
    (written : Written dialect margin
      (.line depth (rowLine width columns (row.map Cell.escape)) :: items) lines) :
    ∃ line below, lines = line :: below ∧ line.kind = .row ∧
      (Cell.split line.raw).map Cell.value = row ∧ Written dialect margin items below := by
  obtain ⟨rest, whole, _⟩ := exists_rowLine_eq width columns (row.map Cell.escape)
  obtain ⟨line, below, rfl, raw, kind, _, written⟩ :=
    written.of_label blank (isLabel_rowLine enough)
  refine ⟨line, below, rfl, ?_, ?_, written⟩
  · rw [kind, whole, classify_row]
  · rw [raw, Description.indented_of_ne_nil _ (rowLine_ne_nil _ _)]
    exact values_split_rowLine (blank depth) values enough

theorem reads_rows (blank : ∀ depth, Text.IsBlank (margin depth)) {columns : List Nat}
    {rows : List (List Text)}
    (values : ∀ row ∈ rows, ∀ value ∈ row, IsCellValue value)
    (enough : ∀ row ∈ rows, row.length ≤ columns.length)
    (even : ∀ row ∈ rows, ∀ other ∈ rows, row.length = other.length) {known : Option Nat}
    (fits : ∀ row ∈ rows, ∀ count ∈ known, count = row.length)
    (written : Written dialect margin
      ((rows.map fun row => rowLine width columns (row.map Cell.escape)).map (Item.line depth))
      lines)
    (ends : ∀ line ∈ (significant rest).head?, line.kind ≠ .row) :
    ∃ found left, Grammar.Rows known (lines ++ rest) found left ∧
      significant left = significant rest ∧ found.map Row.values = rows := by
  induction rows generalizing known lines with
  | nil =>
      cases written
      obtain ⟨left, read, same⟩ := rows_stop known ends
      exact ⟨[], left, read, same, rfl⟩
  | cons row rows ih =>
      obtain ⟨here, values⟩ := List.forall_mem_cons.mp values
      obtain ⟨room, enough⟩ := List.forall_mem_cons.mp enough
      obtain ⟨line, below, rfl, isRow, split, written⟩ := written_row blank here room written
      have count : (Cell.split line.raw).length = row.length := by
        rw [← split, List.length_map]
      have fitsBelow : ∀ other ∈ rows, ∀ width ∈ some (Cell.split line.raw).length,
          width = other.length := by
        rintro other member _ ⟨⟩
        rw [count]
        exact even row List.mem_cons_self other (List.mem_cons_of_mem _ member)
      obtain ⟨found, left, read, same, rest⟩ := ih values enough
        (fun row member other inside => even row (List.mem_cons_of_mem _ member) other
          (List.mem_cons_of_mem _ inside)) fitsBelow written
      refine ⟨_, left, .row isRow (fun width inside => ?_) read, same, ?_⟩
      · rw [count]
        exact fits row List.mem_cons_self width inside
      · rw [List.map_cons, rest, Row.values, split]

/-- The rows of a table are read back. -/
theorem reads_tableRows (blank : ∀ depth, Text.IsBlank (margin depth)) {rows : List Row}
    (spelled : Rows.Spelled rows)
    (written : Written dialect margin (table width depth (rows.map Row.values)) lines)
    (ends : ∀ line ∈ (significant rest).head?, line.kind ≠ .row) :
    (rows ≠ [] → ∃ line below, lines = line :: below ∧ line.kind = .row) ∧
      ∃ found left, Grammar.Rows none (lines ++ rest) found left ∧
        significant left = significant rest ∧
        List.Forall₂ Branch.Rereads (found.map Row.branch) (rows.map Row.branch) := by
  obtain ⟨columns, enough, whole⟩ : ∃ columns : List Nat, (∀ row ∈ rows.map Row.values,
      row.length ≤ columns.length) ∧ table width depth (rows.map Row.values) = _ := table_eq _
  rw [whole] at written
  have values : ∀ row ∈ rows.map Row.values, ∀ value ∈ row, IsCellValue value :=
    List.forall_mem_map.mpr fun row member => List.forall_mem_map.mpr (spelled.values row member)
  constructor
  · intro filled
    obtain ⟨row, others, rfl⟩ := List.exists_cons_of_ne_nil filled
    obtain ⟨line, below, whole, isRow, _⟩ := written_row blank
      (values _ List.mem_cons_self) (enough _ List.mem_cons_self) written
    exact ⟨line, below, whole, isRow⟩
  · have even : ∀ row ∈ rows.map Row.values, ∀ other ∈ rows.map Row.values,
        row.length = other.length := by
      refine List.forall_mem_map.mpr fun row member =>
        List.forall_mem_map.mpr fun other inside => ?_
      simpa [Row.values] using spelled.even row member other inside
    have fits : ∀ row ∈ rows.map Row.values, ∀ count ∈ (none : Option Nat), count = row.length := by
      simp
    obtain ⟨found, left, read, behind, texts⟩ :=
      reads_rows blank values enough even fits written ends
    refine ⟨found, left, read, behind, Branch.forall₂_map_of_eq texts fun row other texts => ?_⟩
    exact Branch.rereads_node (congrArg Element.row texts) .nil

/-! ## Doc strings -/

theorem reads_content (blank : ∀ depth, Text.IsBlank (margin depth)) {contents : List Text}
    {close : Line}
    (closed : close.trimmed = quotes)
    (written : Written dialect margin ((contents.map Layout.contentLine).map (Item.line depth))
      lines) :
    Grammar.Content .quotes (margin depth).length (lines ++ close :: rest)
      (contents.map reread) rest := by
  induction contents generalizing lines with
  | nil =>
      cases written
      exact .close closed
  | cons content contents ih =>
      cases written with
      | @line _ _ line _ below raw _ written =>
          have front := blank depth
          have apart : line.trimmed ≠ quotes := by
            rw [Line.trimmed, raw, Text.trim_chopReturn, Description.trim_indented front]
            exact trim_contentLine_ne content
          have reading : contentLine .quotes (margin depth).length line.raw =
              reread content := by
            rw [raw, contentLine, reread]
            by_cases empty : content = []
            · subst empty
              exact congrArg _ (Text.dropIndent_nil _)
            · have some : Layout.contentLine content ≠ [] := fun none =>
                empty (contentLine_eq_nil_iff.1 none)
              rw [Description.indented_of_ne_nil _ some, Text.chopReturn_append _ some,
                Text.dropIndent_append _ front]
          rw [List.map_cons, ← reading]
          exact .line apart (ih written)

theorem classify_openingLine {contentType : Option Text}
    (type : ∀ type ∈ contentType, type ≠ [] ∧ Text.IsLabel type) :
    classify dialect (openingLine contentType) = .fence .quotes (contentType.getD []) := by
  cases contentType with
  | none => exact classify_quotes []
  | some type' =>
      have behind : Text.trim (' ' :: type') = type' := by
        rw [← List.singleton_append,
          Text.trim_append_left _ (by simp [Text.IsBlank, Text.isBlank_space]),
          Text.trim_eq_self (type type' rfl).2.trimmed]
      rw [openingLine, classify_quotes, behind]
      rfl

/-! ## Arguments -/

theorem reads_table (blank : ∀ depth, Text.IsBlank (margin depth)) {place : Place} {rows : List Row}
    (filled : rows ≠ []) (spelled : Rows.Spelled rows)
    (written : Written dialect margin (items width depth (Argument.table place rows).branch) lines)
    (ends : ∀ line ∈ (significant rest).head?, line.kind ≠ .row)
    (same : significant all = significant (lines ++ rest)) :
    ∃ found left, Grammar.Argument all (some found) left ∧ significant left = significant rest ∧
      found.branch.Rereads (Argument.table place rows).branch := by
  rw [Argument.items_table] at written
  obtain ⟨first, found, left, read, behind, again⟩ := reads_tableRows blank spelled written ends
  obtain ⟨line, below, rfl, isRow⟩ := first filled
  rw [List.cons_append, significant_cons _ (by simp [isIgnorable, isRow])] at same
  exact ⟨_, left, .table same isRow read, behind, Branch.rereads_node rfl again⟩

theorem reads_docString (blank : ∀ depth, Text.IsBlank (margin depth)) {place : Place}
    {fence : Fence}
    {contentType : Option Text} {content : Text}
    (spelled : ∀ type ∈ contentType, type ≠ [] ∧ Text.IsLabel type)
    (written : Written dialect margin (docString depth contentType content) lines)
    (same : significant all = significant (lines ++ rest)) :
    ∃ found left, Grammar.Argument all (some found) left ∧ significant left = significant rest ∧
      found.branch.Rereads (Argument.docString place fence contentType content).branch := by
  rw [docString_eq] at written
  obtain ⟨line, behind, rfl, raw, kind, trimmed, inside⟩ :=
    written.of_label blank (isLabel_openingLine spelled)
  obtain ⟨lines, closing, rfl, middle, close⟩ := inside.exists_append
  obtain ⟨last, none, rfl, _, _, closed, ended⟩ :=
    close.of_label blank (by decide)
  cases ended
  rw [classify_openingLine spelled] at kind
  have front := blank depth
  have written : openingLine contentType ≠ [] := by cases contentType <;> exact List.cons_ne_nil _ _
  have indentation : Text.indent line.raw = (margin depth).length := by
    rw [raw, Description.indented_of_ne_nil _ written]
    exact Text.indent_append front (isLabel_openingLine spelled).trimmed.1
  let pieces := if content.isEmpty then [] else Text.pieces content
  have pieceLines : contentLines content = pieces.map Layout.contentLine := by
    simp only [contentLines, pieces]
    split <;> rfl
  have again : Text.unlines (pieces.map reread) =
      Text.unlines ((Text.pieces content).map reread) := by
    simp only [pieces]
    split
    · next empty =>
      rw [List.isEmpty_iff.mp empty]
      rfl
    · rfl
  rw [pieceLines] at middle
  have read : Grammar.Content .quotes _ (lines ++ last :: rest) _ rest :=
    reads_content blank closed middle
  rw [List.cons_append, significant_cons _ (by simp [isIgnorable, kind]), List.append_assoc] at same
  refine ⟨_, rest, .docString same kind (indentation ▸ read), rfl, Branch.rereads_node ?_ .nil⟩
  rw [again, Element.reread]
  cases contentType with
  | none => rfl
  | some type => simp [(spelled type rfl).1]

/-- What stands below a step is read back, if nothing behind it could stand there too. -/
theorem reads_argument (blank : ∀ depth, Text.IsBlank (margin depth)) {argument : Option Argument}
    (spelled : ∀ given ∈ argument, given.Spelled)
    (written : Written dialect margin
      (below width depth (argument.toList.map Argument.branch)) lines)
    (ends : ∀ line ∈ (significant rest).head?,
      line.kind ≠ .row ∧ ∀ fence type, line.kind ≠ .fence fence type)
    (same : significant all = significant (lines ++ rest)) :
    ∃ found left, Grammar.Argument all found left ∧ significant left = significant rest ∧
      List.Forall₂ Branch.Rereads (found.toList.map Argument.branch)
        (argument.toList.map Argument.branch) := by
  cases argument with
  | none =>
      cases written
      exact ⟨none, _, .none same ends, significant_significant rest, .nil⟩
  | some argument =>
      have itself : Written dialect margin (items width depth argument.branch) lines := by
        cases argument <;> simpa [below, Argument.branch, Branch.kind, Branch.element, Element.kind,
          isInline, isSetOff] using written
      have given := spelled argument rfl
      cases argument with
      | table place rows =>
          obtain ⟨found, left, read, behind, again⟩ := reads_table blank given.1 given.2 itself
            (fun line first => (ends line first).1) same
          exact ⟨some found, left, read, behind, .cons again .nil⟩
      | docString place fence contentType content =>
          obtain ⟨found, left, read, behind, again⟩ := reads_docString blank given itself same
          exact ⟨some found, left, read, behind, .cons again .nil⟩

/-! ## Steps -/

section Constructs

variable (regular : dialect.Regular) (blank : ∀ depth, Text.IsBlank (margin depth))
  (newlineFree : ∀ depth, '\n' ∉ margin depth)
  {constructs : List Construct}

include regular blank

theorem written_step {step : Step} {items : List Item} (spelled : step.Spelled dialect)
    (written : Written dialect margin
      (.line depth (stepLine (Text.trimEnd step.keyword) step.text) :: items) lines) :
    ∃ line below, lines = line :: below ∧ line.kind = .step step.keyword step.text ∧
      Written dialect margin items below := by
  obtain ⟨line, below, rfl, _, kind, _, written⟩ :=
    written.of_label blank (isLabel_stepLine regular spelled.keyword spelled.text)
  exact ⟨line, below, rfl, kind.trans (classify_stepLine regular spelled.keyword spelled.text),
    written⟩

theorem head_steps {steps : List Step} (spelled : ∀ step ∈ steps, step.Spelled dialect)
    (written : Written dialect margin (below width depth (steps.map Step.branch)) lines)
    (boundary : Grammar.Boundary constructs rest) :
    ∀ line ∈ (significant (lines ++ rest)).head?, (∃ keyword text, line.kind = .step keyword text) ∨
      line.kind = .tags ∨ ∃ construct keyword name, line.kind = .header construct keyword name := by
  cases steps with
  | nil =>
      cases written
      exact fun line first => .inr (boundary.head line first)
  | cons step steps =>
      rw [below_steps, Step.items_branch, List.cons_append] at written
      obtain ⟨line, below, rfl, kind, _⟩ :=
        written_step regular blank (spelled step List.mem_cons_self) written
      rw [List.cons_append, significant_cons _ (by simp [isIgnorable, kind])]
      rintro _ ⟨⟩
      exact .inl ⟨_, _, kind⟩

theorem reads_steps {steps : List Step} (spelled : ∀ step ∈ steps, step.Spelled dialect)
    (written : Written dialect margin (below width depth (steps.map Step.branch)) lines)
    (boundary : Grammar.Boundary constructs rest)
    (same : significant all = significant (lines ++ rest)) :
    ∃ found left, Grammar.Steps all found left ∧ significant left = significant rest ∧
      List.Forall₂ Branch.Rereads (found.map Step.branch) (steps.map Step.branch) := by
  induction steps generalizing lines all with
  | nil =>
      cases written
      refine ⟨[], _, .done same ?_, significant_significant rest, .nil⟩
      intro line first keyword text kind
      rcases boundary.head line first with tags | ⟨_, _, _, header⟩ <;> simp_all
  | cons step steps ih =>
      obtain ⟨here, later⟩ := List.forall_mem_cons.mp spelled
      rw [below_steps, Step.items_branch] at written
      obtain ⟨above, behind, rfl, first, others⟩ := written.exists_append
      obtain ⟨line, below, rfl, kind, arguments⟩ := written_step regular blank here first
      have ends : ∀ line ∈ (significant (behind ++ rest)).head?,
          line.kind ≠ .row ∧ ∀ fence type, line.kind ≠ .fence fence type := by
        intro line first
        rcases head_steps regular blank later others boundary line first with
          ⟨_, _, kind⟩ | kind | ⟨_, _, _, kind⟩ <;> simp [kind]
      obtain ⟨argument, next, read, left, below⟩ :=
        reads_argument blank here.argument arguments ends rfl
      obtain ⟨found, last, more, final, again⟩ := ih later others left
      rw [List.cons_append, List.cons_append, significant_cons _ (by simp [isIgnorable, kind]),
        List.append_assoc] at same
      exact ⟨_, last, .step same kind read more, final, .cons (Branch.rereads_node rfl below) again⟩

end Constructs

end Document

end Gherkin
