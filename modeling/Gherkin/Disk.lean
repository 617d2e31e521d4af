import Gherkin.Path

/-!
# Files on disk

What reading from a disk can show: directories with named entries, and files that
hold text or cannot be read as text. Paths are looked up from the directory that
is the current one.
-/

namespace Gherkin

/-- A file or a directory. -/
inductive Entry where
  /-- A file with its text, if it can be read as text. -/
  | file (text : Option Text)
  | directory (entries : List (Text × Entry))

namespace Entry

/-- Whether an entry is a directory. -/
def isDirectory : Entry → Bool
  | .directory _ => true
  | .file _ => false

/-- The entry of a given name. -/
def named? (name : Text) : List (Text × Entry) → Option Entry
  | [] => none
  | (other, entry) :: rest => if other = name then some entry else named? name rest

/-- The entry that some components lead to. `above` are the directories passed on
the way, the nearest first; two dots go back to the nearest one. -/
def follow? : (above : List Entry) → (here : Entry) → List Text → Option Entry
  | _, here, [] => some here
  | above, .directory entries, name :: rest =>
    if name = ['.'] then follow? above (.directory entries) rest
    else if name = ['.', '.'] then
      match above with
      | [] => none
      | outer :: above => follow? above outer rest
    else
      match named? name entries with
      | some entry => follow? (.directory entries :: above) entry rest
      | none => none
  | _, .file _, _ :: _ => none

/-- Whether a path asks for a directory by its last characters. -/
def asksForDirectory (path : Path) : Bool :=
  match path.names.getLast? with
  | some last => last.isEmpty || last == ['.'] || last == ['.', '.']
  | none => false

/-- The entry at a path below a directory. -/
def lookup? (root : Entry) (path : Path) : Option Entry :=
  if path.isEmpty || path.isAbsolute then none
  else
    (follow? [] root path.components).filter fun entry =>
      entry.isDirectory || !asksForDirectory path

/-- The text of the file at a path. -/
def readText? (root : Entry) (path : Path) : Option Text :=
  match root.lookup? path with
  | some (.file text) => text
  | _ => none

/-- Puts an entry among others by the order of their names, replacing the one of
its name. -/
def insert (name : Text) (entry : Entry) : List (Text × Entry) → List (Text × Entry)
  | [] => [(name, entry)]
  | (other, old) :: rest =>
    if name = other then (name, entry) :: rest
    else if Text.before name other then (name, entry) :: (other, old) :: rest
    else (other, old) :: insert name entry rest

/-- The entries of a directory. -/
def entries : Entry → List (Text × Entry)
  | .directory entries => entries
  | .file _ => []

/-- The directory with an entry put at a place below it; directories on the way are
made, and a directory that is there already is kept. -/
def put (entry : Entry) : (components : List Text) → (root : Entry) → Entry
  | [], root => if entry.isDirectory && root.isDirectory then root else entry
  | name :: rest, root =>
    let inner := (named? name root.entries).getD (.directory [])
    .directory (insert name (put entry rest inner) root.entries)

end Entry

end Gherkin
