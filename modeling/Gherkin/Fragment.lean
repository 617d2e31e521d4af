import Gherkin.Dialect
import Gherkin.Record.Basic
import Gherkin.Text.Lines

/-!
# Fragments

A single element cannot be read on its own. Its source text is put into the
smallest document that has a place for it, written with the keywords of a
dialect; the element is then found in the record of that document.
-/

namespace Gherkin

namespace Fragment

/-- The name of the file a fragment is read as. -/
def fileName (kind : Kind) : Text :=
  Text.word ("gherkin_tree_stand_alone_" ++ kind.symbol ++ ".feature")

/-- The header line of a construct, without a name. -/
def headerLine (dialect : Dialect) (construct : Construct) : Text :=
  dialect.primary construct ++ [':']

/-- The lines above and below a fragment of a kind. A directory is not made of
source text, and a cell has no line of its own. -/
def surroundings (dialect : Dialect) (kind : Kind) : Except Error (List Text × List Text) :=
  let feature := headerLine dialect .feature
  let scenario := headerLine dialect .scenario
  let outline := headerLine dialect .outline
  let step := dialect.primary .step ++ Text.word "step"
  match kind with
  | .featureFile | .feature => .ok ([], [])
  | .tag => .ok ([], [feature])
  | .rule | .background | .scenario | .outline => .ok ([feature], [])
  | .example => .ok ([feature, outline], [])
  | .step => .ok ([feature, scenario], [])
  | .table | .docString | .row => .ok ([feature, scenario, step], [])
  | .directory | .cell => .error (.argument (.withoutSource kind))

/-- A document that holds a fragment. -/
def wrap (dialect : Dialect) (kind : Kind) (fragment : Text) : Except Error Text := do
  let (above, below) ← surroundings dialect kind
  pure (Text.unlines (above ++ fragment :: below))

mutual

/-- The first record of a kind in a value, outer records before those in them. -/
def find? (kind : Kind) : Json → Option Json
  | .fields entries =>
    if (Fields.get? "kind" entries).bind Json.asText? == some (Text.word kind.symbol) then
      some (.fields entries)
    else findInFields? kind entries
  | .list items => findInItems? kind items
  | _ => none

/-- The first record of a kind among fields, in the order of their keys. -/
def findInFields? (kind : Kind) : List (String × Json) → Option Json
  | [] => none
  | (key, value) :: rest =>
    if key = "kind" then findInFields? kind rest
    else (find? kind value).or (findInFields? kind rest)

/-- The first record of a kind among items. -/
def findInItems? (kind : Kind) : List Json → Option Json
  | [] => none
  | item :: rest => (find? kind item).or (findInItems? kind rest)

end

/-- The first record of a kind in the record of a document. -/
def locate (kind : Kind) (document : Record) : Except Error Record :=
  match find? kind (.fields document) with
  | some found => Record.ofJson found
  | none => .error (.argument (.absentKind kind))

end Fragment

end Gherkin
