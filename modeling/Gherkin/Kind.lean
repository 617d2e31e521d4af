import Gherkin.Text.Basic

/-!
# Element kinds and slots

A document is made of elements of fourteen kinds. An element keeps its children
in slots; each kind of child has one slot it can live in, its home, and
`Kind.slots` lists the slots an element of a kind has, in rendering order.
-/

namespace Gherkin

/-- The kinds a record may declare. A cell is part of its row and never an
element of its own. -/
inductive Kind where
  | directory
  | featureFile
  | feature
  | rule
  | background
  | scenario
  | outline
  | example
  | step
  | table
  | row
  | cell
  | docString
  | tag
deriving DecidableEq, Repr

/-- The named collections in which elements keep their children. -/
inductive Slot where
  | featureFiles
  | directories
  | feature
  | background
  | tests
  | rules
  | tags
  | steps
  | examples
  | rows
  | block
deriving DecidableEq, Repr

namespace Kind

/-- Every kind, outermost first. -/
def all : List Kind :=
  [.directory, .featureFile, .feature, .rule, .background, .scenario, .outline, .example,
    .step, .table, .row, .cell, .docString, .tag]

/-- The name of a kind in records and messages. -/
def symbol : Kind → String
  | .directory => "directory"
  | .featureFile => "feature_file"
  | .feature => "feature"
  | .rule => "rule"
  | .background => "background"
  | .scenario => "scenario"
  | .outline => "outline"
  | .example => "example"
  | .step => "step"
  | .table => "table"
  | .row => "row"
  | .cell => "cell"
  | .docString => "doc_string"
  | .tag => "tag"

/-- The kind with a given name. -/
def ofSymbol? (name : Text) : Option Kind :=
  all.find? fun kind => Text.word kind.symbol == name

/-- Whether elements of a kind carry tags. -/
def isTaggable : Kind → Bool
  | .feature | .rule | .scenario | .outline | .example => true
  | _ => false

/-- Whether elements of a kind are tests. -/
def isTest : Kind → Bool
  | .scenario | .outline => true
  | _ => false

/-- The one slot that elements of a kind can live in. -/
def home : Kind → Option Slot
  | .directory => some .directories
  | .featureFile => some .featureFiles
  | .feature => some .feature
  | .rule => some .rules
  | .background => some .background
  | .scenario | .outline => some .tests
  | .example => some .examples
  | .step => some .steps
  | .table | .docString => some .block
  | .row => some .rows
  | .cell => none
  | .tag => some .tags

/-- The slots of an element of a kind, in rendering order. -/
def slots : Kind → List Slot
  | .directory => [.featureFiles, .directories]
  | .featureFile => [.feature]
  | .feature => [.tags, .background, .tests, .rules]
  | .rule => [.tags, .background, .tests]
  | .background => [.steps]
  | .scenario => [.tags, .steps]
  | .outline => [.tags, .steps, .examples]
  | .example => [.tags, .rows]
  | .step => [.block]
  | .table => [.rows]
  | .row | .cell | .docString | .tag => []

theorem mem_all (kind : Kind) : kind ∈ all := by cases kind <;> decide

theorem ofSymbol?_symbol (kind : Kind) : ofSymbol? (Text.word kind.symbol) = some kind := by
  cases kind <;> decide

theorem isTaggable_iff (kind : Kind) : kind.isTaggable = true ↔ Slot.tags ∈ kind.slots := by
  cases kind <;> decide

end Kind

namespace Slot

/-- Every slot. -/
def all : List Slot :=
  [.featureFiles, .directories, .feature, .background, .tests, .rules, .tags, .steps,
    .examples, .rows, .block]

/-- The name of a slot in messages. -/
def name : Slot → String
  | .featureFiles => "feature files"
  | .directories => "directories"
  | .feature => "feature"
  | .background => "background"
  | .tests => "tests"
  | .rules => "rules"
  | .tags => "tags"
  | .steps => "steps"
  | .examples => "examples"
  | .rows => "rows"
  | .block => "block"

/-- Whether a slot holds at most one child. -/
def isSingle : Slot → Bool
  | .feature | .background | .block => true
  | _ => false

/-- Whether children of a kind can live in a slot. -/
def accepts (slot : Slot) (kind : Kind) : Bool := kind.home == some slot

/-- The position of a slot among all slots. -/
def index : Slot → Fin 11
  | .featureFiles => 0
  | .directories => 1
  | .feature => 2
  | .background => 3
  | .tests => 4
  | .rules => 5
  | .tags => 6
  | .steps => 7
  | .examples => 8
  | .rows => 9
  | .block => 10

theorem mem_all (slot : Slot) : slot ∈ all := by cases slot <;> decide

theorem index_injective {a b : Slot} (same : a.index = b.index) : a = b := by
  cases a <;> cases b <;> first | rfl | exact absurd same (by decide)

theorem accepts_iff {slot : Slot} {kind : Kind} :
    slot.accepts kind = true ↔ kind.home = some slot := by
  simp [accepts]

end Slot

end Gherkin
