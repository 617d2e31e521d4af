import Gherkin.Dialect
import Gherkin.Text.Lines

/-!
# Lines of a document

What a line of source text means is decided by its first characters that are
not blank. `Line.read` classifies a line with the keywords of one dialect.
-/

namespace Gherkin

/-- The two delimiters of doc strings. -/
inductive Fence where
  | quotes
  | backticks
deriving DecidableEq, Repr

/-- The characters of a delimiter. -/
def Fence.text : Fence → Text
  | .quotes => ['"', '"', '"']
  | .backticks => List.replicate 3 (Char.ofNat 0x60)

/-- The meaning of a line. -/
inductive LineKind where
  | blank
  | comment
  | language (code : Text)
  | tags
  | row
  | fence (delimiter : Fence) (contentType : Text)
  | header (construct : Construct) (keyword name : Text)
  | step (keyword text : Text)
  | other
deriving DecidableEq, Repr

/-- A line of source text with its number, counted from 1, and its meaning. -/
structure Line where
  number : Nat
  raw : Text
  kind : LineKind
deriving DecidableEq, Repr

/-- The characters of a language code. -/
def isCodeChar (c : Char) : Bool :=
  ('a' ≤ c && c ≤ 'z') || ('A' ≤ c && c ≤ 'Z') || c == '_' || c == '-'

/-- The code in a language header, given by what follows the number sign. -/
def languageCode? (t : Text) : Option Text := do
  let t ← Text.after? (Text.word "language") (Text.trimStart t)
  let t ← Text.after? [':'] (Text.trimStart t)
  let code := Text.trim t
  if code.isEmpty || !code.all isCodeChar then none else some code

/-- The header that a text without blanks around it begins with. -/
def headerOf? (dialect : Dialect) (t : Text) : Option LineKind :=
  dialect.headerKeywords.findSome? fun entry => do
    let rest ← Text.after? entry.1 t
    let name ← Text.after? [':'] rest
    pure (.header entry.2 entry.1 (Text.trim name))

/-- The step that a text without blanks around it begins with. A step without
text is its keyword alone. -/
def stepOf? (dialect : Dialect) (t : Text) : Option LineKind :=
  dialect.stepsByLength.findSome? fun keyword =>
    match Text.after? keyword t with
    | some text => some (.step keyword (Text.trim text))
    | none => if t = Text.trimEnd keyword then some (.step keyword []) else none

/-- The delimiter that a text begins with. -/
def fenceOf? (t : Text) : Option LineKind :=
  [Fence.quotes, .backticks].findSome? fun fence =>
    (Text.after? fence.text t).map fun rest => .fence fence (Text.trim rest)

/-- The meaning of a text without blanks around it. -/
def classify (dialect : Dialect) (t : Text) : LineKind :=
  match t with
  | [] => .blank
  | '#' :: rest =>
    match languageCode? rest with
    | some code => .language code
    | none => .comment
  | '@' :: _ => .tags
  | '|' :: _ => .row
  | t => (((fenceOf? t).or (headerOf? dialect t)).or (stepOf? dialect t)).getD .other

namespace Line

/-- The line with a given number and text. -/
def read (dialect : Dialect) (number : Nat) (raw : Text) : Line :=
  ⟨number, raw, classify dialect (Text.trim raw)⟩

/-- The lines of a text, counted from a given number. -/
def readAll (dialect : Dialect) : (number : Nat) → List Text → List Line
  | _, [] => []
  | number, raw :: rest => read dialect number raw :: readAll dialect (number + 1) rest

/-- The line without the blanks around it. -/
def trimmed (line : Line) : Text := Text.trim line.raw

/-- The column of the first character that is not blank, counted from 1. -/
def column (line : Line) : Nat := Text.indent line.raw + 1

/-- Whether a line can stand between any two constructs without meaning anything. -/
def isIgnorable (line : Line) : Bool :=
  match line.kind with
  | .blank | .comment | .language _ => true
  | _ => false

/-- Whether a line is part of a description, or is passed over in one. -/
def continuesDescription (line : Line) : Bool := line.isIgnorable || line.kind == .other

theorem length_readAll (dialect : Dialect) (number : Nat) (raws : List Text) :
    (readAll dialect number raws).length = raws.length := by
  induction raws generalizing number with
  | nil => rfl
  | cons raw rest ih => simp [readAll, ih]

end Line

end Gherkin
