import Gherkin.Modeler
import Gherkin.Tree.Change

/-!
# Commands

Everything that can be done to a tree, in place. A command that fails is done as far as it
came before it failed and then undone, if it has to be.
-/

namespace Gherkin

namespace Tree

/-- Gives a feature file its path; other elements stay as they are. -/
def setPath (tree : Tree) (id : NodeId) (path : Path) : Tree :=
  tree.modify id fun node =>
    match node.element with
    | .featureFile _ => { node with element := .featureFile path }
    | _ => node

end Tree

namespace Modeler

/-- Adds the feature file of a document. -/
def addDocument (modeler : Modeler) (source uri : Text) : Change NodeId := do
  let record ← Change.ofExcept (modeler.normalize source uri)
  let root ← Change.build record
  modify fun tree => tree.setPath root uri
  pure root

/-- Adds an element that a fragment spells. -/
def addElement (modeler : Modeler) (kind : Kind) (source : Text) : Change NodeId := do
  let wrapped ← Change.ofExcept (Fragment.wrap modeler.parser.dialect kind source)
  let document ← Change.ofExcept (modeler.normalize wrapped (Fragment.fileName kind))
  let record ← Change.ofExcept (Fragment.locate kind document)
  Change.build record

/-- Adds what a parse result of unknown origin describes. -/
def addResult (active : Dialect) (result : Json) : Change NodeId := do
  let release ← Change.ofExcept (Release.detect result)
  let record ← Change.ofExcept (release.normalize active result)
  Change.build record

/-- Adds the feature file of a file with some text. -/
def addFile (modeler : Modeler) (path : Path) : Option Text → Change NodeId
  | some source => modeler.addDocument source path
  | none => throw (.unreadable path)

mutual

/-- Adds an entry of a directory below its node; a file that is no feature file is passed
over. -/
def addEntry (modeler : Modeler) (directory : Path) (parent : NodeId) (name : Text) :
    Entry → Change Unit
  | .directory entries => do
    let path := Path.join directory name
    let child ← Change.insert (.directory path) none
    addEntries modeler path child entries
    Change.update fun tree => tree.pushChild parent .directories child
  | .file text =>
    if isFeatureFile name then do
      let child ← modeler.addFile (Path.join directory name) text
      Change.update fun tree => tree.pushChild parent .featureFiles child
    else pure ()

/-- Adds the entries of a directory below its node, in order. -/
def addEntries (modeler : Modeler) (directory : Path) (parent : NodeId) :
    List (Text × Entry) → Change Unit
  | [] => pure ()
  | (name, entry) :: rest => do
    addEntry modeler directory parent name entry
    addEntries modeler directory parent rest

end

/-- Adds a directory with everything below it, or nothing. -/
def addDirectory (modeler : Modeler) (disk : Entry) (path : Path) : Change NodeId :=
  Change.undone do
    match disk.lookup? path with
    | some (.directory entries) =>
      let root ← Change.insert (.directory path) none
      modeler.addEntries path root entries
      pure root
    | _ => throw (.unreadable path)

end Modeler

/-- What can be done to a tree. -/
inductive Command where
  | add (added : Element)
  | edit (id : NodeId) (change : Element.Edit)
  | setRecord (id : NodeId) (record : Record)
  | detach (id : NodeId)
  | assign (parent : NodeId) (slot : Slot) (ids : List NodeId)
  | addRow (id : NodeId) (values : RowValues)
  | removeRow (id : NodeId) (values : RowValues)
  | build (record : Record)
  | document (modeler : Modeler) (source uri : Text)
  | element (modeler : Modeler) (kind : Kind) (source : Text)
  | result (active : Dialect) (parsed : Json)
  | file (modeler : Modeler) (disk : Entry) (path : Path)
  | directory (modeler : Modeler) (disk : Entry) (path : Path)

namespace Command

/-- Does a command in place. -/
def perform : Command → Change Unit
  | .add added => modify fun tree => tree.add added
  | .edit id change => modify fun tree => tree.edit id change
  | .setRecord id record => modify fun tree => tree.setRecord id record
  | .detach id => modify fun tree => tree.detach id
  | .assign parent slot ids => Change.assign parent slot ids
  | .addRow id values => discard (Change.addRow id values)
  | .removeRow id values => Change.update fun tree => (tree.removeRow id values).map Prod.fst
  | .build record => discard (Change.build record)
  | .document modeler source uri => discard (modeler.addDocument source uri)
  | .element modeler kind source => discard (modeler.addElement kind source)
  | .result active parsed => discard (Modeler.addResult active parsed)
  | .file modeler disk path => discard (modeler.addFile path (disk.readText? path))
  | .directory modeler disk path => discard (modeler.addDirectory disk path)

/-- The tree that a command makes of another one at once. -/
def effect (tree : Tree) : Command → Except Error Tree
  | .add added => .ok (tree.add added)
  | .edit id change => .ok (tree.edit id change)
  | .setRecord id record => .ok (tree.setRecord id record)
  | .detach id => .ok (tree.detach id)
  | .assign parent slot ids => tree.assign parent slot ids
  | .addRow id values => (tree.addRow id values).map Prod.fst
  | .removeRow id values => (tree.removeRow id values).map Prod.fst
  | .build record => (tree.build record).map Prod.fst
  | .document modeler source uri => (modeler.document source uri).map tree.plant
  | .element modeler kind source => (modeler.element kind source).map tree.plant
  | .result active parsed => (Modeler.ofResult active parsed).map tree.plant
  | .file modeler disk path => (modeler.loadFile disk path).map tree.plant
  | .directory modeler disk path => (modeler.loadDirectory disk path).map tree.plant

/-- The tree there is after a command, whether it has failed or not. -/
def after (command : Command) (tree : Tree) : Tree :=
  match command.perform tree with
  | .ok _ changed => changed
  | .error _ changed => changed

/-- The tree there is after several commands, of which each may fail. -/
def run (commands : List Command) (tree : Tree) : Tree :=
  commands.foldl (fun tree command => command.after tree) tree

end Command

end Gherkin
