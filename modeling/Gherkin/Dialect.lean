import Gherkin.Text.Basic

/-!
# Dialects

A dialect lists the words that introduce the constructs of a document in one
natural language. Header words are followed by a colon; step words carry the
blank that separates them from the text of the step.
-/

namespace Gherkin

/-- What a keyword introduces. -/
inductive Construct where
  | feature
  | rule
  | background
  | scenario
  | outline
  | examples
  | step
deriving DecidableEq, Repr

namespace Construct

/-- Every construct, outermost first. -/
def all : List Construct :=
  [.feature, .rule, .background, .scenario, .outline, .examples, .step]

/-- The name of a construct. -/
def symbol : Construct → String
  | .feature => "feature"
  | .rule => "rule"
  | .background => "background"
  | .scenario => "scenario"
  | .outline => "scenario_outline"
  | .examples => "examples"
  | .step => "step"

end Construct

/-- The keywords of one natural language. -/
structure Dialect where
  code : Text
  name : Text
  feature : List Text
  rule : List Text
  background : List Text
  scenario : List Text
  outline : List Text
  examples : List Text
  given : List Text
  action : List Text
  outcome : List Text
  conjunction : List Text
  contrast : List Text
deriving DecidableEq, Repr

namespace Dialect

/-- The texts of constant words. -/
def words (list : List String) : List Text := list.map Text.word

/-- The English keywords. -/
def english : Dialect where
  code := Text.word "en"
  name := Text.word "English"
  feature := words ["Feature", "Business Need", "Ability"]
  rule := words ["Rule"]
  background := words ["Background"]
  scenario := words ["Example", "Scenario"]
  outline := words ["Scenario Outline", "Scenario Template"]
  examples := words ["Examples", "Scenarios"]
  given := words ["* ", "Given "]
  action := words ["* ", "When "]
  outcome := words ["* ", "Then "]
  conjunction := words ["* ", "And "]
  contrast := words ["* ", "But "]

/-- The German keywords. -/
def german : Dialect where
  code := Text.word "de"
  name := Text.word "German"
  feature := words ["Funktionalität", "Funktion"]
  rule := words ["Rule", "Regel"]
  background := words ["Grundlage", "Hintergrund", "Voraussetzungen", "Vorbedingungen"]
  scenario := words ["Beispiel", "Szenario"]
  outline := words ["Szenariogrundriss", "Szenarien"]
  examples := words ["Beispiele"]
  given := words ["* ", "Angenommen ", "Gegeben sei ", "Gegeben seien "]
  action := words ["* ", "Wenn "]
  outcome := words ["* ", "Dann "]
  conjunction := words ["* ", "Und "]
  contrast := words ["* ", "Aber "]

/-- The known dialects. -/
def all : List Dialect := [english, german]

/-- The dialect with a given code. -/
def find? (code : Text) : Option Dialect := all.find? fun dialect => dialect.code == code

/-- Puts an entry behind those whose word is at least as long. -/
def insertByLength {α : Type} (entry : Text × α) : List (Text × α) → List (Text × α)
  | [] => [entry]
  | other :: rest =>
    if other.1.length < entry.1.length then entry :: other :: rest
    else other :: insertByLength entry rest

/-- Entries ordered by the length of their word, longest first; equal lengths keep
their order. -/
def longestFirst {α : Type} (entries : List (Text × α)) : List (Text × α) :=
  entries.foldl (fun sorted entry => insertByLength entry sorted) []

/-- The words that introduce a construct. For steps these are the words of the
first step group. -/
def keywords (dialect : Dialect) : Construct → List Text
  | .feature => dialect.feature
  | .rule => dialect.rule
  | .background => dialect.background
  | .scenario => dialect.scenario
  | .outline => dialect.outline
  | .examples => dialect.examples
  | .step => dialect.given

/-- The step words in table order, each once. -/
def stepKeywords (dialect : Dialect) : List Text :=
  (dialect.given ++ dialect.action ++ dialect.outcome ++ dialect.conjunction ++
    dialect.contrast).foldl
    (fun seen word => if seen.contains word then seen else seen ++ [word]) []

/-- The header words with what they introduce, longest first. -/
def headerKeywords (dialect : Dialect) : List (Text × Construct) :=
  longestFirst <|
    [Construct.feature, .rule, .background, .scenario, .outline, .examples].flatMap
      fun construct => (dialect.keywords construct).map fun word => (word, construct)

/-- The step words, longest first. -/
def stepsByLength (dialect : Dialect) : List Text :=
  (longestFirst (dialect.stepKeywords.map fun word => (word, ()))).map Prod.fst

/-- What a keyword introduces; blanks at its end do not count. -/
def constructOf? (dialect : Dialect) (keyword : Text) : Option Construct :=
  let keyword := Text.trimEnd keyword
  if dialect.stepKeywords.any (fun word => Text.trimEnd word == keyword) then some .step
  else (dialect.headerKeywords.find? (fun entry => entry.1 == keyword)).map Prod.snd

/-- The first word that introduces a construct, passing over the star that every
dialect has for steps. -/
def primary (dialect : Dialect) (construct : Construct) : Text :=
  let words := dialect.keywords construct
  ((words.find? fun word => Text.trim word != ['*']).or words.head?).getD []

end Dialect

end Gherkin
