import Gherkin.Kind
import Gherkin.Json.Printer

/-!
# Errors

Each constructor is one cause of a failure; `Error.message` is the only place
that words them.
-/

namespace Gherkin

/-- What a reader of lines can ask for. -/
inductive Token where
  | feature
  | scenarioLine
  | ruleLine
  | tagLine
  | stepLine
  | docStringSeparator
deriving DecidableEq, Repr

/-- The name of a token in messages. -/
def Token.symbol : Token → String
  | .feature => "#Feature"
  | .scenarioLine => "#ScenarioLine"
  | .ruleLine => "#RuleLine"
  | .tagLine => "#TagLine"
  | .stepLine => "#StepLine"
  | .docStringSeparator => "#DocStringSeparator"

/-- What is wrong with source text. -/
inductive Defect where
  | unknownLanguage (code : Text)
  | unexpectedLine (expected : List Token) (line : Text)
  | unexpectedEnd (expected : List Token)
  | brokenTag (line : Text)
  | misplacedTags (construct : Kind)
  | unsupportedRule
  | unevenTable
deriving DecidableEq, Repr

/-- Source text that cannot be read, with the place of the defect. -/
structure SyntaxError where
  file : Text
  line : Nat
  column : Nat
  defect : Defect
deriving DecidableEq, Repr

/-- What is wrong with a record. -/
inductive Flaw where
  | withoutKind
  | notAList (key : String)
  | notRecords (key : String)
  | notAnObject (found : Json)
  | missingEnvelope
  | occupied (parent : Kind) (slot : Slot)

/-- What is wrong with the arguments of an operation. -/
inductive Misuse where
  | loneCell
  | withoutSlot (parent : Kind) (slot : Slot)
  | tooManyChildren (parent : Kind) (slot : Slot)
  | repeatedChild (kind : Kind)
  | beneathItself (kind : Kind)
  | otherKind (expected found : Kind)
  | withoutParameters
  | valueCount (expected found : Nat)
  | missingValue (parameter : Text)
  | notARow (found : Json)
  | notAScalar (found : Json)
  | withoutSource (kind : Kind)
  | absentKind (kind : Kind)
  | absentNode (id : Nat)

/-- The causes for which an operation on documents fails. -/
inductive Error where
  | unsupportedVersion (version : Nat)
  | unrecognizedShape (found : Json)
  | shapeMismatch (version : Nat)
  | unknownDialect (code : Text)
  | invalidSource (error : SyntaxError)
  | unknownKind (name : Text)
  | misplaced (parent child : Kind)
  | malformed (flaw : Flaw)
  | argument (misuse : Misuse)
  | unreadable (path : Text)

/-- The tokens a reader asked for, as messages list them. -/
def Token.list (tokens : List Token) : Text :=
  Text.join (Text.word ", ") (tokens.map fun token => Text.word token.symbol)

/-- The wording of a defect. -/
def Defect.message : Defect → Text
  | .unknownLanguage code => Text.word "Language not supported: " ++ code
  | .unexpectedLine expected line =>
    Text.word "expected: " ++ Token.list expected ++ Text.word ", got '" ++ line ++ Text.word "'"
  | .unexpectedEnd expected =>
    Text.word "unexpected end of file, expected: " ++ Token.list expected
  | .brokenTag line => Text.word "A tag may not contain whitespace: " ++ line
  | .misplacedTags construct =>
    Text.word "Tags are not allowed before a " ++ Text.word construct.symbol
  | .unsupportedRule => Text.word "Rule is not supported by this parser version"
  | .unevenTable => Text.word "inconsistent cell count within the table"

/-- The wording of a syntax error. -/
def SyntaxError.message (error : SyntaxError) : Text :=
  Text.word "Error encountered while parsing '" ++ error.file ++ Text.word "' (" ++
    Text.word (toString error.line) ++ Text.word ":" ++ Text.word (toString error.column) ++
    Text.word "): " ++ error.defect.message

/-- The wording of a flaw. -/
def Flaw.message : Flaw → Text
  | .withoutKind => Text.word "record has no kind"
  | .notAList key => Text.word "'" ++ Text.word key ++ Text.word "' must be a list"
  | .notRecords key => Text.word "'" ++ Text.word key ++ Text.word "' must hold records"
  | .notAnObject found =>
    Text.word "a canonical record must be an object, found " ++ found.render
  | .missingEnvelope => Text.word "missing gherkinDocument"
  | .occupied parent slot =>
    Text.word ("a " ++ parent.symbol ++ " holds at most one " ++ slot.name)

/-- The wording of a misuse. -/
def Misuse.message : Misuse → Text
  | .loneCell => Text.word "A cell is part of its row and cannot be built on its own"
  | .withoutSlot parent slot => Text.word ("A " ++ parent.symbol ++ " has no " ++ slot.name)
  | .tooManyChildren parent slot =>
    Text.word ("A " ++ parent.symbol ++ " holds at most one " ++ slot.name)
  | .repeatedChild kind => Text.word ("The same " ++ kind.symbol ++ " was given twice")
  | .beneathItself kind =>
    Text.word ("A " ++ kind.symbol ++ " cannot be attached beneath itself")
  | .otherKind expected found =>
    Text.word ("Expected a " ++ expected.symbol ++ " but received a " ++ found.symbol)
  | .withoutParameters => Text.word "Cannot add a row. No parameters have been set."
  | .valueCount expected found =>
    Text.word ("Expected " ++ toString expected ++
      " values to match the parameters but received " ++ toString found)
  | .missingValue parameter =>
    Text.word "No value given for parameter '" ++ parameter ++ Text.word "'"
  | .notARow found =>
    Text.word ("Can only add or remove a row from a mapping or a list but received " ++
      found.typeName)
  | .notAScalar found => Text.word ("Row values must be scalars but received " ++ found.typeName)
  | .withoutSource kind =>
    Text.word ("A " ++ kind.symbol ++ " cannot be built from source text")
  | .absentKind kind =>
    Text.word ("The given source text does not contain an element of kind '" ++
      kind.symbol ++ "'")
  | .absentNode id => Text.word ("There is no node " ++ toString id)

/-- A parse result as the message about an unknown shape describes it. -/
def describeShape : Json → Text
  | .fields entries =>
    Text.word "an object with keys [" ++
      Text.join (Text.word ", ") (entries.map fun entry => Text.word entry.1) ++ Text.word "]"
  | value => Text.word value.typeName

/-- The wording of an error. -/
def Error.message : Error → Text
  | .unsupportedVersion version =>
    Text.word ("Unsupported parser version: " ++ toString version)
  | .unrecognizedShape found =>
    Text.word "Unrecognized parse result shape (" ++ describeShape found ++
      Text.word "); no adapter supports it"
  | .shapeMismatch version =>
    Text.word ("Parse result does not match the output of gherkin " ++ toString version)
  | .unknownDialect code => Text.word "Unknown dialect '" ++ code ++ Text.word "'"
  | .invalidSource error => error.message
  | .unknownKind name => Text.word "Unknown element kind '" ++ name ++ Text.word "'"
  | .misplaced parent child =>
    Text.word ("A " ++ child.symbol ++ " cannot be placed inside a " ++ parent.symbol)
  | .malformed flaw => Text.word "Malformed record: " ++ flaw.message
  | .argument misuse => misuse.message
  | .unreadable path => Text.word "Unable to read '" ++ path ++ Text.word "'"

end Gherkin
