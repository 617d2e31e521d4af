import Gherkin.Kind
import Gherkin.Path

/-!
# Elements

An element is what one node of a document says by itself: its keyword, name,
text or cells, but none of its children.
-/

namespace Gherkin

/-- Keyword, name and description of an element with a header line. -/
structure Heading where
  keyword : Text
  name : Text
  description : Text
deriving DecidableEq, Repr

/-- The elements of a document. -/
inductive Element where
  | directory (path : Path)
  | featureFile (path : Path)
  | feature (heading : Heading) (language : Text)
  | rule (heading : Heading)
  | background (heading : Heading)
  | scenario (heading : Heading)
  | outline (heading : Heading)
  | example (heading : Heading)
  | step (keyword text : Text)
  | table
  | row (cells : List Text)
  | docString (contentType : Option Text) (contents : Text)
  | tag (name : Text)
deriving DecidableEq, Repr

namespace Element

/-- The kind of an element. -/
def kind : Element → Kind
  | .directory _ => .directory
  | .featureFile _ => .featureFile
  | .feature _ _ => .feature
  | .rule _ => .rule
  | .background _ => .background
  | .scenario _ => .scenario
  | .outline _ => .outline
  | .example _ => .example
  | .step _ _ => .step
  | .table => .table
  | .row _ => .row
  | .docString _ _ => .docString
  | .tag _ => .tag

/-- The cells of a row; other elements have none. -/
def cells : Element → List Text
  | .row cells => cells
  | _ => []

/-- The name of a tag. -/
def tagName? : Element → Option Text
  | .tag name => some name
  | _ => none

/-- Whether two elements say the same. Paths are compared by their components. -/
def agrees : Element → Element → Bool
  | .directory a, .directory b => Path.same a b
  | .featureFile a, .featureFile b => Path.same a b
  | a, b => a == b

/-- A new element of a kind, with the fields of that kind taken from those given.
A new feature has no language yet. Cells are no elements. -/
def make? (kind : Kind) (heading : Heading) (path text : Text) (cells : List Text)
    (contentType : Option Text) (contents : Text) : Option Element :=
  match kind with
  | .directory => some (.directory path)
  | .featureFile => some (.featureFile path)
  | .feature => some (.feature heading [])
  | .rule => some (.rule heading)
  | .background => some (.background heading)
  | .scenario => some (.scenario heading)
  | .outline => some (.outline heading)
  | .example => some (.example heading)
  | .step => some (.step heading.keyword text)
  | .table => some .table
  | .row => some (.row cells)
  | .cell => none
  | .docString => some (.docString contentType contents)
  | .tag => some (.tag heading.name)

/-- A new value for a field of an element. -/
inductive Edit where
  | keyword (value : Text)
  | name (value : Text)
  | description (value : Text)
  | language (value : Text)
  | text (value : Text)
  | path (value : Path)
  | cells (value : List Text)
  | contentType (value : Option Text)
  | contents (value : Text)
deriving DecidableEq, Repr

/-- Changes the heading of an element that has one. -/
def mapHeading (f : Heading → Heading) : Element → Element
  | .feature heading language => .feature (f heading) language
  | .rule heading => .rule (f heading)
  | .background heading => .background (f heading)
  | .scenario heading => .scenario (f heading)
  | .outline heading => .outline (f heading)
  | .example heading => .example (f heading)
  | element => element

/-- Gives a field its new value; an element without the field stays as it is. -/
def edit (element : Element) (change : Edit) : Element :=
  match change, element with
  | .keyword value, .step _ text => .step value text
  | .keyword value, element => element.mapHeading fun heading => { heading with keyword := value }
  | .name value, .tag _ => .tag value
  | .name value, element => element.mapHeading fun heading => { heading with name := value }
  | .description value, element =>
    element.mapHeading fun heading => { heading with description := value }
  | .language value, .feature heading _ => .feature heading value
  | .text value, .step keyword _ => .step keyword value
  | .path value, .directory _ => .directory value
  | .path value, .featureFile _ => .featureFile value
  | .cells value, .row _ => .row value
  | .contentType value, .docString _ contents => .docString value contents
  | .contents value, .docString contentType _ => .docString contentType value
  | _, element => element

theorem kind_edit (element : Element) (change : Edit) :
    (element.edit change).kind = element.kind := by
  cases change <;> cases element <;> rfl

end Element

end Gherkin
