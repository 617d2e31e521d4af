import Gherkin.Document.Reader
import Gherkin.Document.Result
import Gherkin.Record.OfResult
import Gherkin.Record.Branch
import Gherkin.Dialect.Scope
import Gherkin.Fragment
import Gherkin.Disk

/-!
# Modeling

A modeler turns source text into branches. It asks a parser for a result, reads
the result as the release of the parser writes it, and makes a branch of the
record. Everything is made before anything is planted, so an operation that fails
has changed nothing.
-/

namespace Gherkin

/-- A parser: the release it behaves like, the dialect of documents that name
none, and what it makes of source text. -/
structure Parser where
  version : Nat
  dialect : Dialect
  parse : (source uri : Text) → Except SyntaxError Json

namespace Parser

/-- The parser of a release, reading by lines. -/
def ofRelease (release : Release) (dialect : Dialect) : Parser where
  version := release.version
  dialect := dialect
  parse source uri :=
    (Document.read release dialect uri source).map (Document.result release.family uri)

/-- A parser that gives the same result for every source text. -/
def constant (version : Nat) (dialect : Dialect) (result : Json) : Parser where
  version := version
  dialect := dialect
  parse _ _ := .ok result

end Parser

/-- A parser with the release that its results are read as. -/
structure Modeler where
  parser : Parser
  release : Release
  /-- The dialect that counts where a result names none that is known. -/
  active : Dialect

namespace Modeler

/-- The modeler of a parser; the parser has to be of a supported release. -/
def ofParser (active : Dialect) (parser : Parser) : Except Error Modeler := do
  let release ← Release.lookup parser.version
  pure ⟨parser, release, active⟩

/-- The modeler of a release with a dialect of its own or the active one. -/
def ofRelease (active : Dialect) (release : Release) (pinned : Option Dialect) : Modeler :=
  ⟨.ofRelease release (pinned.getD active), release, active⟩

/-- The modeler of a version and the code of a dialect; the newest release and the
active dialect stand in for what is missing. The version is looked up first. -/
def configure (active : Dialect) (version : Option Nat) (code : Option Text) :
    Except Error Modeler := do
  let release ← match version with
    | some version => Release.lookup version
    | none => pure Release.newest
  let pinned ← match code with
    | some code => (Dialect.lookup code).map some
    | none => pure none
  pure (ofRelease active release pinned)

/-- The parse result of source text. -/
def parse (modeler : Modeler) (source uri : Text) : Except Error Json :=
  (modeler.parser.parse source uri).mapError .invalidSource

/-- The record of source text. -/
def normalize (modeler : Modeler) (source uri : Text) : Except Error Record := do
  let result ← modeler.parse source uri
  modeler.release.normalize modeler.active result

/-- The branch of a document. The feature file has the path that was given, as not
every result names it. -/
def document (modeler : Modeler) (source uri : Text) : Except Error (Branch Origin) := do
  let record ← modeler.normalize source uri
  let branch ← record.rooted
  match branch.element with
  | .featureFile _ => pure (branch.withElement (.featureFile uri))
  | _ => pure branch

/-- The branch of a fragment that spells an element of a kind. -/
def element (modeler : Modeler) (kind : Kind) (source : Text) : Except Error (Branch Origin) := do
  let wrapped ← Fragment.wrap modeler.parser.dialect kind source
  let document ← modeler.normalize wrapped (Fragment.fileName kind)
  let record ← Fragment.locate kind document
  record.rooted

/-- The branch of a parse result of unknown origin. -/
def ofResult (active : Dialect) (result : Json) : Except Error (Branch Origin) := do
  let release ← Release.detect result
  let record ← release.normalize active result
  record.rooted

/-- The branch of a file with some text, which is missing if it cannot be read. -/
def ofFile (modeler : Modeler) (path : Path) : Option Text → Except Error (Branch Origin)
  | some source => modeler.document source path
  | none => .error (.unreadable path)

/-- Whether the name of a file is that of a feature file. -/
def isFeatureFile (name : Text) : Bool := Path.extension? name == some (Text.word "feature")

/-- A directory with what is in it. -/
def directoryNode (path : Path) (children : List (Branch Origin)) : Branch Origin :=
  .node ⟨none, none⟩ (.directory path) children

mutual

/-- The branch of an entry of a directory; a file that is no feature file has none. -/
def ofEntry (modeler : Modeler) (directory : Path) (name : Text) :
    Entry → Except Error (Option (Branch Origin))
  | .directory entries => do
    let path := Path.join directory name
    let children ← ofEntries modeler path entries
    pure (some (directoryNode path children))
  | .file text =>
    if isFeatureFile name then (modeler.ofFile (Path.join directory name) text).map some
    else .ok none

/-- The branches of the entries of a directory, in order. -/
def ofEntries (modeler : Modeler) (directory : Path) :
    List (Text × Entry) → Except Error (List (Branch Origin))
  | [] => .ok []
  | (name, entry) :: rest => do
    let branch ← ofEntry modeler directory name entry
    let others ← ofEntries modeler directory rest
    pure (branch.toList ++ others)

end

/-- The branch of the feature file at a path. -/
def loadFile (modeler : Modeler) (disk : Entry) (path : Path) : Except Error (Branch Origin) :=
  modeler.ofFile path (disk.readText? path)

/-- The branch of the directory at a path, with every feature file and directory
below it, in the order of their names. -/
def loadDirectory (modeler : Modeler) (disk : Entry) (path : Path) :
    Except Error (Branch Origin) :=
  match disk.lookup? path with
  | some (.directory entries) => (modeler.ofEntries path entries).map (directoryNode path)
  | _ => .error (.unreadable path)

end Modeler

end Gherkin
