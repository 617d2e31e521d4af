import Gherkin.Proofs.Document.Layout
import Gherkin.Proofs.Layout.Framing

/-!
# Elements that stand by themselves

Where everything that belongs on one line is on one line, descriptions are trimmed, and steps and
tags say something, the items of an element are framed by lines with text. The one exception is a
table without rows, which has no items at all. A gap is left at the end only by the description of
an element with a header.
-/

namespace Gherkin

/-- Whether elements of a kind have a header. -/
def Kind.isHeaded : Kind → Bool
  | .feature | .rule | .background | .scenario | .outline | .example => true
  | _ => false

/-- Keyword and name of a heading belong on one line, and its description is trimmed. -/
def Heading.IsWritable (heading : Heading) : Prop :=
  '\n' ∉ heading.keyword ∧ '\n' ∉ heading.name ∧
    Description.trim heading.description = heading.description

instance (heading : Heading) : Decidable heading.IsWritable :=
  inferInstanceAs (Decidable (_ ∧ _ ∧ _))

namespace Element

/-- The heading of an element with a header. -/
def heading? : Element → Option Heading
  | .feature heading _ | .rule heading | .background heading | .scenario heading
  | .outline heading | .example heading => some heading
  | _ => none

/-- Whether the text of an element has the lines it is meant to have: what belongs on one line
has no newline, descriptions are trimmed, and the lines of steps and the names of tags say
something. -/
def IsWritable : Element → Prop
  | .feature heading _ | .rule heading | .background heading | .scenario heading
  | .outline heading | .example heading => heading.IsWritable
  | .step keyword text =>
    '\n' ∉ keyword ∧ '\n' ∉ text ∧ Layout.stepLine keyword text ≠ []
  | .docString contentType _ => ∀ type ∈ contentType, '\n' ∉ type
  | .tag name => '\n' ∉ name ∧ name ≠ []
  | .directory _ | .featureFile _ | .table | .row _ => True

instance : DecidablePred IsWritable
  | .feature heading _ | .rule heading | .background heading | .scenario heading
  | .outline heading | .example heading => inferInstanceAs (Decidable heading.IsWritable)
  | .step _ _ => inferInstanceAs (Decidable (_ ∧ _ ∧ _))
  | .docString contentType _ => inferInstanceAs (Decidable (∀ type ∈ contentType, _))
  | .tag _ => inferInstanceAs (Decidable (_ ∧ _))
  | .directory _ | .featureFile _ | .table | .row _ => .isTrue trivial

theorem IsWritable.heading {element : Element} (writable : element.IsWritable) :
    ∀ heading ∈ element.heading?, heading.IsWritable := by
  cases element <;> rintro _ ⟨⟩ <;> exact writable

theorem IsWritable.tagName {element : Element} (writable : element.IsWritable) :
    ∀ name ∈ element.tagName?, '\n' ∉ name ∧ name ≠ [] := by
  cases element <;> rintro _ ⟨⟩
  exact writable

end Element

namespace Branch

variable {α : Type}

/-- All elements of a branch are writable. -/
inductive Writable : Branch α → Prop where
  | node {label element children} : Element.IsWritable element →
      (∀ child ∈ children, Writable child) → Writable (.node label element children)

theorem Writable.element {branch : Branch α} (writable : branch.Writable) :
    branch.element.IsWritable := by
  cases writable with
  | node here _ => exact here

end Branch

namespace Layout

variable {α : Type} {width : Text → Nat} {indent : Text} {depth : Nat}

/-! ## Tags, header and description -/

/-- The lines of a description, below an empty one. -/
def descriptionLines (text : Text) : List Text :=
  if text.isEmpty then [] else [] :: Text.pieces text

/-- The lines of tags, header and description. -/
def headedLines (names : List Text) (heading : Heading) : List Text :=
  (if names.isEmpty then [] else [Text.join [' '] names]) ++
    headerLine heading :: descriptionLines heading.description

/-- The names of the tags among some children. -/
def tagNames (children : List (Branch α)) : List Text :=
  children.filterMap fun child => child.element.tagName?

theorem isStripped_singleton {line : Text} (written : line ≠ []) :
    IsStripped List.isEmpty [line] := by
  constructor <;> rintro _ ⟨⟩ <;> simp [written]

/-- A description settles into its lines, and the gap behind it into nothing. -/
theorem settled_description {text : Text} (trimmed : Description.trim text = text) :
    settled indent true (description 0 text) = descriptionLines text := by
  unfold description descriptionLines
  split
  · rfl
  · next some =>
    have block := Description.isBlock_pieces trimmed (by simpa using some)
    have ends := ends_lines 0 (Text.pieces_ne_nil _) block.stripped
    have lines : settled indent false _ = _ := ends.settled_append false [.gap]
    have nothing : settled indent true (gapIf false ++ [.gap]) = [] := settled_eq_nil rfl
    rw [settled_lines_of_stripped _ block.stripped, nothing, List.append_nil] at lines
    rw [settled_gap_true, lines, if_neg (Text.pieces_ne_nil _)]

section Tags

variable {names : List Text} (tags : ∀ name ∈ names, '\n' ∉ name ∧ name ≠ [])
include tags

theorem join_ne_nil (some : names ≠ []) : Text.join [' '] names ≠ [] := by
  obtain ⟨first, rest, rfl⟩ := List.exists_cons_of_ne_nil some
  have written := (tags first List.mem_cons_self).2
  by_cases more : rest = []
  · rwa [more, Text.join_singleton]
  · rw [Text.join_cons _ _ more]
    simp [written]

theorem not_newline_mem_join : '\n' ∉ Text.join [' '] names := by
  induction names with
  | nil => exact List.not_mem_nil
  | cons name rest ih =>
    obtain ⟨here, later⟩ := List.forall_mem_cons.mp tags
    by_cases more : rest = []
    · rw [more, Text.join_singleton]
      exact here.1
    · rw [Text.join_cons _ _ more]
      simp [here.1, ih later]

end Tags

section Headed

variable {heading : Heading} {names : List Text} (writable : heading.IsWritable)
include writable

theorem not_newline_mem_headerLine : '\n' ∉ headerLine heading := by
  obtain ⟨keyword, name, _⟩ := writable
  unfold headerLine
  split <;> simp [keyword, name]

theorem framed_header :
    Framed (!heading.description.isEmpty)
      (.line depth (headerLine heading) :: description depth heading.description) := by
  have header : Framed false [.line depth (headerLine heading)] :=
    framed_lines depth (List.cons_ne_nil _ _) (isStripped_singleton (headerLine_ne_nil heading))
  unfold description
  split
  · next empty =>
    rw [empty]
    exact header
  · next some =>
    have block := Description.isBlock_pieces writable.2.2 (by simpa using some)
    have described := (ends_lines depth (Text.pieces_ne_nil _) block.stripped).append_gap
    rw [Bool.eq_false_iff.mpr some]
    exact header.append (described.append_left [.gap])

variable (tags : ∀ name ∈ names, '\n' ∉ name ∧ name ≠ [])
include tags

theorem framed_headed :
    Framed (!heading.description.isEmpty) (headed depth names heading) := by
  unfold headed tagItems
  split
  · exact framed_header writable
  · next some =>
    have written := join_ne_nil tags (by simpa using some)
    have above := framed_lines depth (List.cons_ne_nil _ _) (isStripped_singleton written)
    exact above.append (framed_header writable).ends

/-- Tags, header and description settle into their lines. -/
theorem settled_headed :
    settled indent false (headed 0 names heading) = headedLines names heading := by
  have header (onText : Bool) : settled indent onText
      (.line 0 (headerLine heading) :: description 0 heading.description) =
      headerLine heading :: descriptionLines heading.description := by
    have written := headerLine_ne_nil heading
    rw [settled_line _ _ _ written, settled_description writable.2.2,
      Description.indented_of_ne_nil _ written]
    rfl
  unfold headed tagItems headedLines
  split
  · exact header false
  · next some =>
    have written := join_ne_nil tags (by simpa using some)
    rw [List.singleton_append, settled_line _ _ _ written, header,
      Description.indented_of_ne_nil _ written]
    rfl

theorem oneLine_headed : ∀ text ∈ texts (headed depth names heading), '\n' ∉ text := by
  have described : ∀ text ∈ texts (description depth heading.description), '\n' ∉ text :=
    (tidy_description writable.2.2).oneLine
  have header : ∀ text ∈ texts
      (.line depth (headerLine heading) :: description depth heading.description), '\n' ∉ text :=
    List.forall_mem_cons.mpr ⟨not_newline_mem_headerLine writable, described⟩
  unfold headed tagItems
  split
  · exact header
  · exact List.forall_mem_cons.mpr ⟨not_newline_mem_join tags, header⟩

end Headed

/-! ## Children in frames -/

/-- Items that are lines, and framed if there are any. Only an element that is not set off can be
without items, and only one with a header can end with a gap. -/
structure Standing (kind : Kind) (items : List Item) : Prop where
  oneLine : ∀ text ∈ texts items, '\n' ∉ text
  framed : items = [] ∧ isSetOff kind = false ∨
    ∃ trailing, Framed trailing items ∧ (trailing = true → kind.isHeaded = true)

section Below

variable {children : List (Branch α)}

theorem oneLine_below
    (each : ∀ child ∈ children, ∀ text ∈ texts (items width depth child), '\n' ∉ text) :
    ∀ text ∈ texts (below width depth children), '\n' ∉ text := by
  induction children with
  | nil => exact fun _ member => absurd member List.not_mem_nil
  | cons child rest ih =>
    obtain ⟨here, later⟩ := List.forall_mem_cons.mp each
    intro text member
    rw [below, texts_append] at member
    rcases List.mem_append.mp member with member | member
    · split at member
      · cases member
      · rw [texts_append] at member
        rcases List.mem_append.mp member with member | member
        · split at member <;> cases member
        · exact here text member
    · exact ih later text member

/-- What is below an element ends as its last child does. -/
theorem ends_below (each : ∀ child ∈ children, Standing child.kind (items width depth child)) :
    below width depth children = [] ∨
      ∃ trailing, Ends trailing (below width depth children) ∧
        (trailing = true → ∃ child ∈ children, child.kind.isHeaded = true) := by
  induction children with
  | nil => exact .inl rfl
  | cons child rest ih =>
    obtain ⟨here, later⟩ := List.forall_mem_cons.mp each
    rw [below]
    rcases ih later with nothing | ⟨trailing, ends, headed⟩
    · rw [nothing, List.append_nil]
      split
      · exact .inl rfl
      · rcases here.framed with ⟨empty, plain⟩ | ⟨trailing, framed, headed⟩
        · left
          rw [empty, plain]
          rfl
        · exact .inr ⟨trailing, framed.ends.append_left _,
            fun gap => ⟨child, List.mem_cons_self, headed gap⟩⟩
    · refine .inr ⟨trailing, ends.append_left _, fun gap => ?_⟩
      obtain ⟨other, member, headed⟩ := headed gap
      exact ⟨other, List.mem_cons_of_mem _ member, headed⟩

end Below

/-- A header and its description frame whatever stands below them. -/
theorem Standing.of_header {kind : Kind} {heading : Heading} {names : List Text}
    {back : List Item} (header : kind.isHeaded = true) (writable : heading.IsWritable)
    (tags : ∀ name ∈ names, '\n' ∉ name ∧ name ≠ []) (oneLine : ∀ text ∈ texts back, '\n' ∉ text)
    (ends : back = [] ∨ ∃ trailing, Ends trailing back) :
    Standing kind (headed depth names heading ++ back) := by
  have framed : Framed _ (headed depth names heading) := framed_headed writable tags
  constructor
  · rw [texts_append]
    exact List.forall_mem_append.mpr ⟨oneLine_headed writable tags, oneLine⟩
  · right
    rcases ends with rfl | ⟨trailing, ends⟩
    · rw [List.append_nil]
      exact ⟨_, framed, fun _ => header⟩
    · exact ⟨trailing, framed.append ends, fun _ => header⟩

theorem Standing.of_lines {kind : Kind} {ls : List Text} (some : ls ≠ [])
    (oneLine : ∀ line ∈ ls, '\n' ∉ line) (stripped : IsStripped List.isEmpty ls) :
    Standing kind (ls.map (Item.line depth)) := by
  refine ⟨?_, .inr ⟨false, framed_lines depth some stripped, nofun⟩⟩
  rw [texts_map_line]
  exact oneLine

theorem tagNames_writable {children : List (Branch α)}
    (each : ∀ child ∈ children, child.Writable) :
    ∀ name ∈ tagNames children, '\n' ∉ name ∧ name ≠ [] := by
  intro name member
  obtain ⟨child, inside, named⟩ := List.mem_filterMap.mp member
  exact (each child inside).element.tagName name named

theorem standing_table (kind : Kind) (rows : List (List Text)) (plain : isSetOff kind = false) :
    Standing kind (table width depth rows) := by
  obtain ⟨columns, enough, whole⟩ := @table_eq width depth rows
  refine ⟨(tidy_table rows).oneLine, ?_⟩
  by_cases none : rows = []
  · exact .inl ⟨by rw [whole, none]; rfl, plain⟩
  · refine .inr ⟨false, ?_, nofun⟩
    rw [whole]
    have written : ∀ line ∈ rows.map fun row => rowLine width columns (row.map Cell.escape),
        line.isEmpty = false :=
      List.forall_mem_map.mpr fun row _ => by simpa using rowLine_ne_nil _ _
    exact framed_lines depth (by simpa using none)
      ⟨fun line first => written line (List.mem_of_head? first),
        fun line last => written line (List.mem_of_getLast? last)⟩

theorem isStripped_docString (contentType : Option Text) (contents : Text) :
    IsStripped List.isEmpty (openingLine contentType :: (contentLines contents ++ [quotes])) := by
  constructor
  · rintro _ ⟨⟩
    cases contentType <;> rfl
  · intro line last
    rw [← List.cons_append, List.getLast?_concat] at last
    cases last
    rfl

theorem not_newline_mem_openingLine {contentType : Option Text}
    (oneLine : ∀ type ∈ contentType, '\n' ∉ type) : '\n' ∉ openingLine contentType := by
  cases contentType with
  | none => decide
  | some type => simp [openingLine, Fence.text, oneLine type rfl]

theorem standing_docString {contentType : Option Text} (oneLine : ∀ type ∈ contentType, '\n' ∉ type)
    (contents : Text) : Standing .docString (docString depth contentType contents) := by
  have whole : docString depth contentType contents = List.map (Item.line depth)
      (openingLine contentType :: (contentLines contents ++ [quotes])) := by
    rw [docString_eq, List.map_cons, List.map_append]
    rfl
  rw [whole]
  refine .of_lines (List.cons_ne_nil _ _) (List.forall_mem_cons.mpr ⟨?_, ?_⟩)
    (isStripped_docString contentType contents)
  · exact not_newline_mem_openingLine oneLine
  · exact List.forall_mem_append.mpr
      ⟨not_newline_mem_contentLines contents, List.forall_mem_singleton.mpr (by decide)⟩

theorem not_newline_mem_stepLine {keyword text : Text} (keywordLine : '\n' ∉ keyword)
    (textLine : '\n' ∉ text) : '\n' ∉ stepLine keyword text := by
  unfold stepLine
  split <;> simp [keywordLine, textLine]

/-- Children of steps have no headers. -/
theorem plain_block {children : List (Branch α)} (grouped : Branch.Grouped .step children) :
    ∀ child ∈ children, child.kind.isHeaded = false := by
  intro child member
  obtain ⟨slot, owned, home⟩ := grouped.home child member
  rw [List.mem_singleton.mp owned] at home
  cases kind : child.kind with
  | feature | rule | background | scenario | outline | «example» =>
    rw [kind] at home
    cases home
  | _ => rfl

/-- The line of a step frames what stands below it, as nothing there leaves a gap at the end. -/
theorem standing_step {keyword text : Text} {children : List (Branch α)} {back : List Item}
    (writable : (Element.step keyword text).IsWritable) (grouped : Branch.Grouped .step children)
    (oneLine : ∀ line ∈ texts back, '\n' ∉ line)
    (ends : back = [] ∨ ∃ trailing, Ends trailing back ∧
      (trailing = true → ∃ child ∈ children, child.kind.isHeaded = true)) :
    Standing .step (.line depth (stepLine keyword text) :: back) := by
  obtain ⟨keywordLine, textLine, written⟩ := writable
  have itself := not_newline_mem_stepLine keywordLine textLine
  have line : Framed false [.line depth (stepLine keyword text)] :=
    framed_lines depth (List.cons_ne_nil _ _) (isStripped_singleton written)
  refine ⟨List.forall_mem_cons.mpr ⟨itself, oneLine⟩, .inr ?_⟩
  rcases ends with rfl | ⟨trailing, ends, headed⟩
  · exact ⟨false, line, nofun⟩
  · refine ⟨trailing, line.append ends, fun gap => ?_⟩
    obtain ⟨child, member, header⟩ := headed gap
    rw [plain_block grouped child member] at header
    cases header

/-- The items of a writable branch are framed, unless there are none. -/
theorem standing_items (width : Text → Nat) {branch : Branch α} (arranged : branch.Arranged)
    (writable : branch.Writable) (file : branch.kind.hasPath = false) (depth : Nat) :
    Standing branch.kind (items width depth branch) := by
  induction branch using Branch.induction generalizing depth with
  | node label element children ih =>
    obtain ⟨grouped, arranged⟩ := arranged
    obtain ⟨here, writable⟩ := writable
    have directory : element.kind ≠ .directory := Kind.ne_directory file
    have each : ∀ child ∈ children, Standing child.kind (items width (depth + 1) child) := by
      intro child member
      obtain ⟨slot, owned, home⟩ := grouped.home child member
      exact ih child member (arranged child member) (writable child member)
        (Kind.hasPath_of_home directory owned home) (depth + 1)
    have tags := tagNames_writable writable
    have oneLine := oneLine_below fun child member => (each child member).oneLine
    have ends := ends_below each
    cases element with
    | directory | featureFile => cases file
    | feature | rule | background | scenario | outline =>
      exact .of_header rfl here tags oneLine (ends.imp_right (Exists.imp fun _ => And.left))
    | «example» heading =>
      have rows : Standing .table (table width (depth + 1) (cellRows children)) :=
        standing_table .table _ rfl
      have ends := rows.framed.imp And.left (Exists.imp fun _ framed => framed.1.ends)
      exact .of_header rfl here tags rows.oneLine ends
    | step keyword text =>
      exact standing_step here grouped oneLine ends
    | table => exact standing_table .table _ rfl
    | row cells => exact standing_table .row _ rfl
    | docString contentType contents => exact standing_docString here contents
    | tag name =>
      change Standing .tag ([name].map (Item.line depth))
      exact .of_lines (List.cons_ne_nil _ _) (List.forall_mem_singleton.mpr here.1)
        (isStripped_singleton here.2)

theorem standing_children (width : Text → Nat) {label : α} {element : Element}
    {children : List (Branch α)} (arranged : (Branch.node label element children).Arranged)
    (writable : (Branch.node label element children).Writable)
    (file : element.kind ≠ .directory) (depth : Nat) :
    ∀ child ∈ children, Standing child.kind (items width depth child) := by
  obtain ⟨grouped, arranged⟩ := arranged
  obtain ⟨_, writable⟩ := writable
  intro child member
  obtain ⟨slot, owned, home⟩ := grouped.home child member
  exact standing_items width (arranged child member) (writable child member)
    (Kind.hasPath_of_home file owned home) depth

end Layout

end Gherkin
