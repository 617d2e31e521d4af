import Gherkin.Settings.Layer
import Gherkin.Decimal.Notation
import Gherkin.Modeler

/-!
# Settings

Which release and dialect documents are read in, and how much a level of their
rendering is indented. Settings come from files and single values laid over the
defaults: a later file counts more than an earlier one, and single values count
more than all files.
-/

namespace Gherkin

/-- The settings of an application. -/
structure Settings where
  indent : Text
  dialect : Text
  version : Nat
deriving DecidableEq, Repr

namespace Settings

open Toml (Value Scalar)

/-- A source of settings. -/
inductive Source where
  /-- A file that has to be there. -/
  | file (path : Path)
  /-- A file that is passed over if it cannot be read. -/
  | optionalFile (path : Path)
  /-- A value for a key path. -/
  | value (key : Text) (scalar : Scalar)
deriving DecidableEq, Repr

/-- The values of all settings unless a source gives others. -/
def defaults : Value :=
  .table
    [(Text.word "formatting", .table
      [(Text.word "rules", .table
        [(Text.word "indent_string", .scalar (.text (Text.word "  ")))])]),
    (Text.word "parsing", .table
      [(Text.word "dialect", .scalar (.text (Text.word "en"))),
        (Text.word "parser_version", .scalar (.integer 27))])]

/-- The text of a settings file. A file is also found without its extension. -/
def fileText? (disk : Entry) (path : Path) : Option Text :=
  match disk.lookup? path with
  | some (.file text) => text
  | _ => (path.extend? (Text.word "toml")).bind disk.readText?

/-- Lays a file over the settings so far; only an optional file may be missing, but
every file has to be well formed. -/
def layFile? (disk : Entry) (required : Bool) (path : Path) (under : Value) : Option Value :=
  match fileText? disk path with
  | some text => (Toml.parse? text).map fun entries => overlayFile entries under
  | none => if required then none else some under

/-- Lays the files among some sources over the settings so far. -/
def layFiles? (disk : Entry) : List Source → Value → Option Value
  | [], under => some under
  | .file path :: rest, under => (layFile? disk true path under).bind (layFiles? disk rest)
  | .optionalFile path :: rest, under =>
    (layFile? disk false path under).bind (layFiles? disk rest)
  | .value _ _ :: rest, under => layFiles? disk rest under

/-- Lays the single values among some sources over the settings so far. -/
def layValues? : List Source → Value → Option Value
  | [], under => some under
  | .value key scalar :: rest, under =>
    (path? key).bind fun path => layValues? rest (overlayAt (.scalar scalar) path under)
  | _ :: rest, under => layValues? rest under

/-- The value of a field of a group. A group is a table, or a list with the values
of its fields in order. -/
def field? (position : Nat) (key : String) : Value → Option Value
  | .table entries => valueOf? (Text.word key) entries
  | .list items => items[position]?
  | .scalar _ => none

/-- The text a setting stands for. -/
def asText? : Value → Option Text
  | .scalar (.text t) => some t
  | .scalar (.date t) => some t
  | .scalar (.boolean true) => some (Text.word "true")
  | .scalar (.boolean false) => some (Text.word "false")
  | .scalar (.integer n) => some (Decimal.integer n)
  | .scalar (.float bits) => some (Decimal.Double.ofBits bits).plain
  | .list _ | .table _ => none

/-- The number that a text spells: a truth value, or digits behind an optional plus
sign. -/
def numberOfText? (t : Text) : Option Nat :=
  let lower := t.map Char.toLower
  if ["true", "on", "yes"].any (fun word => Text.word word == lower) then some 1
  else if ["false", "off", "no"].any (fun word => Text.word word == lower) then some 0
  else
    let digits := match t with
      | '+' :: rest => rest
      | rest => rest
    if digits.isEmpty || !digits.all Char.isDigit then none else Toml.digits? 10 digits

/-- The number a setting stands for, of at most 32 bits. A float is rounded, a half
away from zero. -/
def asNumber? (value : Value) : Option Nat :=
  (match value with
    | .scalar (.integer n) => if 0 ≤ n then some n.toNat else none
    | .scalar (.boolean b) => some (if b then 1 else 0)
    | .scalar (.float bits) => some (Float.ofBits bits).round.toUInt64.toNat
    | .scalar (.text t) => numberOfText? t
    | .scalar (.date t) => numberOfText? t
    | .list _ | .table _ => none).filter fun n => n < Nat.pow 2 32

/-- The settings that a table of values holds. -/
def ofValue? (value : Value) : Option Settings := do
  let formatting ← field? 0 "formatting" value
  let rules ← field? 0 "rules" formatting
  let indent ← field? 0 "indent_string" rules
  let parsing ← field? 1 "parsing" value
  let dialect ← field? 0 "dialect" parsing
  let version ← field? 1 "parser_version" parsing
  pure ⟨← asText? indent, ← asText? dialect, ← asNumber? version⟩

/-- The settings that come from some sources on top of the defaults. -/
def load? (disk : Entry) (sources : List Source) : Option Settings := do
  let files ← layFiles? disk sources defaults
  let values ← layValues? sources files
  ofValue? values

/-- The modeler that settings ask for. The dialect is looked up first. -/
def modeler (active : Dialect) (settings : Settings) : Except Error Modeler := do
  let dialect ← Dialect.lookup settings.dialect
  let release ← Release.lookup settings.version
  pure (Modeler.ofRelease active release (some dialect))

end Settings

end Gherkin
