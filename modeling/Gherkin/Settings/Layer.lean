import Gherkin.Toml.Reader

/-!
# Layers of settings

Settings are kept in a table of values. A layer puts its values over those that
are there: tables are merged entry by entry, anything else is replaced. A value
can also be put at a place given by a key path such as `a.b`. The entries of
tables are kept under their names in small letters; the tables inside a list are
kept as they are.
-/

namespace Gherkin

namespace Settings

open Toml (Value)

/-- One step of a key path. -/
inductive Step where
  | key (name : Text)
  | index (position : Int)
deriving DecidableEq, Repr

/-- The characters of the names in a key path. -/
def isNameChar (c : Char) : Bool := c.isAlphanum || c == ' ' || c == '_' || c == '-'

/-- A name in small letters. -/
def fold (name : Text) : Text := name.map Char.toLower

/-- The position between the brackets of a key path, if a word of 64 bits can hold it. -/
def position? (t : Text) : Option Int :=
  let t := ((t.dropWhile Toml.isSpace).reverse.dropWhile Toml.isSpace).reverse
  let (negative, digits) := match t with
    | '-' :: rest => (true, rest)
    | rest => (false, rest)
  if digits.isEmpty || !digits.all Char.isDigit then none
  else
    (Toml.digits? 10 digits).bind fun n => Toml.word? (if negative then -(n : Int) else n)

/-- The steps behind the first name of a key path. -/
def steps? : (fuel : Nat) → Text → Option (List Step)
  | _, [] => some []
  | 0, _ => none
  | fuel + 1, '.' :: t => do
    let name := t.takeWhile isNameChar
    if name.isEmpty then none
    else
      let rest ← steps? fuel (t.drop name.length)
      pure (.key name :: rest)
  | fuel + 1, '[' :: t => do
    let inside := t.takeWhile (· != ']')
    let position ← position? inside
    match t.drop inside.length with
    | _ :: t => do
      let rest ← steps? fuel t
      pure (.index position :: rest)
    | [] => none
  | _, _ => none

/-- The steps of a key path. -/
def path? (t : Text) : Option (List Step) :=
  let name := t.takeWhile isNameChar
  if name.isEmpty then none
  else (steps? (t.length + 1) (t.drop name.length)).map (Step.key name :: ·)

/-- The entries of a table; other values have none. -/
def entriesOf : Value → List (Text × Value)
  | .table entries => entries
  | _ => []

/-- The items of a list; other values have none. -/
def itemsOf : Value → List Value
  | .list items => items
  | _ => []

/-- The entry of a key. -/
def valueOf? (key : Text) : List (Text × Value) → Option Value
  | [] => none
  | (other, value) :: rest => if other = key then some value else valueOf? key rest

/-- Sets the entry of a key. -/
def setEntry (key : Text) (value : Value) : List (Text × Value) → List (Text × Value)
  | [] => [(key, value)]
  | (other, old) :: rest =>
    if other = key then (key, value) :: rest else (other, old) :: setEntry key value rest

mutual

/-- Puts a value over the entry of a key. What is no table becomes one. -/
def overlay (key : Text) : (value : Value) → (under : Value) → Value
  | .table incoming, under =>
    let entries := entriesOf under
    let old := (valueOf? (fold key) entries).getD (.table [])
    .table (setEntry (fold key) (overlayAll incoming old) entries)
  | value, under => .table (setEntry (fold key) value (entriesOf under))

/-- Puts several entries over those of a value. -/
def overlayAll : (incoming : List (Text × Value)) → (under : Value) → Value
  | [], under => under
  | (key, value) :: rest, under => overlayAll rest (overlay key value under)

end

/-- The items of a list with one of them changed; a position behind the end makes
the list longer, and a negative one counts from the end. -/
def changeItem (position : Int) (change : Value → Value) (items : List Value) : List Value :=
  let index :=
    if 0 ≤ position then position.toNat else items.length - position.natAbs
  let items := items ++ List.replicate (index + 1 - items.length) (.list [])
  items.modify index change

/-- Puts a value over the place that a key path leads to. -/
def overlayAt (value : Value) : (path : List Step) → (under : Value) → Value
  | [], _ => value
  | [.key name], under => overlay name value under
  | .key name :: rest, under =>
    let entries := entriesOf under
    let old := (valueOf? (fold name) entries).getD (.table [])
    .table (setEntry (fold name) (overlayAt value rest old) entries)
  | .index position :: rest, under =>
    .list (changeItem position (overlayAt value rest) (itemsOf under))

/-- Puts the entries of a file over a value. The keys of a file can be key paths. -/
def overlayFile (entries : List (Text × Value)) (under : Value) : Value :=
  entries.foldl (fun under entry =>
    match path? entry.1 with
    | some path => overlayAt entry.2 path under
    | none => overlay entry.1 entry.2 under) under

end Settings

end Gherkin
