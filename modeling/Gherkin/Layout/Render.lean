import Gherkin.Layout.Table
import Gherkin.Branch
import Gherkin.Line
import Gherkin.Text.Replace

/-!
# Rendering

A branch is laid out as a list of items, lines at some depth and gaps, and the
items are then settled into text. A gap asks for an empty line between what is
above and what is below; it adds none at the start or below an empty line. The
text has no newline at its end.

Every background, test, rule and examples block stands below a gap, and a
description has one on either side.
-/

namespace Gherkin

namespace Layout

/-- A line at a depth, or a gap. -/
inductive Item where
  | line (depth : Nat) (text : Text)
  | gap
deriving DecidableEq, Repr

/-- The usual indentation of one level. -/
def defaultIndent : Text := Text.word "  "

/-- The line of a header. -/
def headerLine (heading : Heading) : Text :=
  if heading.name.isEmpty then heading.keyword ++ [':']
  else heading.keyword ++ ':' :: ' ' :: heading.name

/-- The line of a step. -/
def stepLine (keyword text : Text) : Text :=
  if text.isEmpty then keyword else keyword ++ ' ' :: text

/-- The lines of a description, between two gaps. -/
def description (depth : Nat) (text : Text) : List Item :=
  if text.isEmpty then []
  else .gap :: ((Text.pieces text).map (Item.line depth) ++ [.gap])

/-- The line of the tags among some children, if there are any. -/
def tagLine {α : Type} (depth : Nat) (children : List (Branch α)) : List Item :=
  let names := children.filterMap fun child => child.element.tagName?
  if names.isEmpty then [] else [.line depth (Text.join [' '] names)]

/-- Tags, header and description of an element. -/
def opening {α : Type} (depth : Nat) (heading : Heading) (children : List (Branch α)) :
    List Item :=
  tagLine depth children ++ .line depth (headerLine heading) ::
    description depth heading.description

/-- The cell values of the rows among some children. -/
def cellRows {α : Type} (children : List (Branch α)) : List (List Text) :=
  (Branch.ofKind .row children).map fun child => child.element.cells

/-- A table. -/
def table (width : Text → Nat) (depth : Nat) (rows : List (List Text)) : List Item :=
  (tableLines width rows).map (Item.line depth)

/-- A line of a doc string; a delimiter in it is escaped. -/
def contentLine (line : Text) : Text :=
  Text.replace Fence.quotes.text (Fence.quotes.text.flatMap fun c => ['\\', c]) line

/-- A doc string between its delimiters. -/
def docString (depth : Nat) (contentType : Option Text) (contents : Text) : List Item :=
  let opening := match contentType with
    | some contentType => Fence.quotes.text ++ ' ' :: contentType
    | none => Fence.quotes.text
  let lines := if contents.isEmpty then [] else (Text.pieces contents).map contentLine
  (opening :: (lines ++ [Fence.quotes.text])).map (Item.line depth)

/-- The language header of a feature file; English needs none. -/
def languageLine {α : Type} (depth : Nat) : List (Branch α) → List Item
  | .node _ (.feature _ language) _ :: _ =>
    if language.isEmpty || language == Text.word "en" then []
    else [.line depth (Text.word "# language: " ++ language)]
  | _ => []

/-- Whether elements of a kind stand below a gap. -/
def isSetOff : Kind → Bool
  | .rule | .background | .scenario | .outline | .example => true
  | _ => false

/-- Whether elements of a kind are written with their parent and not below it. -/
def isInline : Kind → Bool
  | .tag | .row => true
  | _ => false

mutual

/-- The items of a branch at a depth. -/
def items {α : Type} (width : Text → Nat) (depth : Nat) : Branch α → List Item
  | .node _ element children =>
    match element with
    | .directory path => [.line depth path]
    | .featureFile _ => languageLine depth children ++ below width depth children
    | .feature heading _ | .rule heading | .background heading | .scenario heading
    | .outline heading =>
      opening depth heading children ++ below width (depth + 1) children
    | .example heading =>
      opening depth heading children ++ table width (depth + 1) (cellRows children)
    | .step keyword text =>
      .line depth (stepLine keyword text) :: below width (depth + 1) children
    | .table => table width depth (cellRows children)
    | .row cells => table width depth [cells]
    | .docString contentType contents => docString depth contentType contents
    | .tag name => [.line depth name]

/-- The items of the children that stand below their parent. -/
def below {α : Type} (width : Text → Nat) (depth : Nat) : List (Branch α) → List Item
  | [] => []
  | child :: rest =>
    (if isInline child.kind then []
    else (if isSetOff child.kind then [.gap] else []) ++ items width depth child) ++
      below width depth rest

end

/-- The lines that items settle into, given whether they come below a line with text. -/
def settle (indent : Text) : (onText : Bool) → List Item → List Text
  | _, [] => []
  | onText, .gap :: rest =>
    if onText then [] :: settle indent false rest else settle indent false rest
  | _, .line depth text :: rest =>
    if text.isEmpty then [] :: settle indent false rest
    else (Text.repeated depth indent ++ text) :: settle indent true rest

/-- A text without the newlines at its end. -/
def dropFinalNewlines (t : Text) : Text := (t.reverse.dropWhile (· == '\n')).reverse

/-- The text of a branch with the given indentation of one level. -/
def render {α : Type} (width : Text → Nat) (indent : Text) (branch : Branch α) : Text :=
  dropFinalNewlines (Text.unlines (settle indent false (items width 0 branch)))

end Layout

end Gherkin
