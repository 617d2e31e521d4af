import Gherkin.Text.Basic

/-!
# Paths

A path is kept as it was given. Its components are the names between slashes;
empty names do not count, and a dot counts only as the first component of a
relative path. Two paths are the same when their components are.
-/

namespace Gherkin

/-- A path as it was given. -/
abbrev Path := Text

namespace Path

/-- The names between slashes. -/
def names (path : Path) : List Text := path.splitOn '/'

/-- Whether a path begins at the root. -/
def isAbsolute (path : Path) : Bool := path.head? == some '/'

/-- The components of a path; the root is a component of its own. -/
def components (path : Path) : List Text :=
  let named := path.names.filter fun name => !name.isEmpty && name != ['.']
  if path.isAbsolute then ['/'] :: named
  else if path.names.head? == some ['.'] then ['.'] :: named
  else named

/-- Whether two paths have the same components. -/
def same (a b : Path) : Bool := a.components == b.components

/-- The last component, unless it is the root, a dot or two dots. -/
def fileName? (path : Path) : Option Text :=
  path.components.getLast?.filter fun name =>
    name != ['/'] && name != ['.'] && name != ['.', '.']

/-- The last component, or nothing. -/
def fileName (path : Path) : Text := path.fileName?.getD []

/-- An entry of the directory at a path. -/
def join (path : Path) (name : Text) : Path :=
  if path.isEmpty || path.getLast? == some '/' then path ++ name else path ++ '/' :: name

/-- A path with an extension behind its last component, which has to be a name. -/
def extend? (path : Path) (extension : Text) : Option Path :=
  path.fileName?.map fun _ =>
    let names := path.names.reverse.dropWhile fun name => name.isEmpty || name == ['.']
    Text.join ['/'] names.reverse ++ '.' :: extension

/-- What follows the last dot of a name that does not begin with that dot. -/
def extension? (name : Text) : Option Text :=
  let reversed := name.reverse
  let tail := reversed.takeWhile (· != '.')
  let stem := (reversed.drop tail.length).drop 1
  if stem.isEmpty then none else some tail.reverse

end Path

end Gherkin
