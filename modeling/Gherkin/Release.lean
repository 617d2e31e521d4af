import Gherkin.Error

/-!
# Parser releases

The supported parser releases fall into three families, whose results have one
shape each. A release also decides which constructs its grammar knows.
-/

namespace Gherkin

/-- The shapes that parse results have. -/
inductive Family where
  | jsonSchema
  | protobuf
  | typedTree
deriving DecidableEq, Repr

namespace Family

/-- The families, newest first. -/
def all : List Family := [.jsonSchema, .protobuf, .typedTree]

/-- The name of a family. -/
def title : Family → String
  | .jsonSchema => "json schema messages"
  | .protobuf => "protobuf messages"
  | .typedTree => "typed ast"

/-- The oldest release of a family. -/
def first : Family → Nat
  | .jsonSchema => 20
  | .protobuf => 6
  | .typedTree => 3

/-- The newest release of a family. -/
def last : Family → Nat
  | .jsonSchema => 27
  | .protobuf => 19
  | .typedTree => 5

/-- The releases of a family, newest first. -/
def versions (family : Family) : List Nat :=
  (List.range (family.last + 1 - family.first)).map fun age => family.last - age

/-- The family a release belongs to. -/
def ofVersion? (version : Nat) : Option Family :=
  all.find? fun family => family.first ≤ version && version ≤ family.last

end Family

/-- A supported parser release. -/
structure Release where
  version : Nat
  family : Family
deriving DecidableEq, Repr

namespace Release

/-- The newest release. -/
def newest : Release := ⟨27, .jsonSchema⟩

/-- The supported releases, newest first. -/
def all : List Release :=
  Family.all.flatMap fun family => family.versions.map fun version => ⟨version, family⟩

/-- The release with a given number. -/
def lookup (version : Nat) : Except Error Release :=
  match Family.ofVersion? version with
  | some family => .ok ⟨version, family⟩
  | none => .error (.unsupportedVersion version)

/-- The name of a release in settings. -/
def name (release : Release) : String := "gherkin_" ++ toString release.version

/-- Whether documents can have rules. -/
def hasRules (release : Release) : Bool := 6 ≤ release.version

/-- Whether rules can have tags. -/
def hasRuleTags (release : Release) : Bool := 18 ≤ release.version

/-- Whether a scenario can have examples without an outline keyword. -/
def hasScenarioExamples (release : Release) : Bool := 6 ≤ release.version

end Release

end Gherkin
