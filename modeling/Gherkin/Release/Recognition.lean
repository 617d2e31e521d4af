import Gherkin.Release

/-!
# Recognizing parse results

A parse result of unknown origin is told by its shape. `Family.recognizes` says
which values carry the signature of a family; `Release.detect` takes the newest
release of the first family that recognizes a value.
-/

namespace Gherkin

mutual

/-- Whether a doc string anywhere in a value has a given field. -/
def Json.hasDocStringField (key : String) : Json → Bool
  | .fields entries => fieldsHaveDocStringField key entries
  | .list items => itemsHaveDocStringField key items
  | _ => false

/-- Whether a doc string among fields has a given field. -/
def fieldsHaveDocStringField (key : String) : List (String × Json) → Bool
  | [] => false
  | (name, value) :: rest =>
    (name == "docString" && (value.get? key).isSome) || Json.hasDocStringField key value ||
      fieldsHaveDocStringField key rest

/-- Whether a doc string among items has a given field. -/
def itemsHaveDocStringField (key : String) : List Json → Bool
  | [] => false
  | item :: rest => Json.hasDocStringField key item || itemsHaveDocStringField key rest

end

/-- The envelope around a document of a message family. -/
def envelope? (result : Json) : Option Fields := (result.get? "gherkinDocument").bind Json.asFields?

/-- Whether a value has the shape of a family. -/
def Family.recognizes (family : Family) (result : Json) : Bool :=
  match family with
  | .typedTree => (result.get? "type").bind Json.asText? == some (Text.word "GherkinDocument")
  | .jsonSchema =>
    match envelope? result with
    | none => false
    | some document =>
      (document.get? "comments").any Json.isList && !result.hasDocStringField "contentType"
  | .protobuf =>
    match envelope? result with
    | none => false
    | some document =>
      let commented :=
        match (document.get? "comments").bind Json.asList? with
        | some comments => !comments.isEmpty
        | none => true
      (commented || result.hasDocStringField "contentType") &&
        !result.hasDocStringField "mediaType"

namespace Release

/-- Whether a value has the shape of the results of a release. -/
def accepts (release : Release) (result : Json) : Bool := release.family.recognizes result

/-- The newest release whose results have the shape of a value. -/
def detect (result : Json) : Except Error Release :=
  match all.find? fun release => release.accepts result with
  | some release => .ok release
  | none => .error (.unrecognizedShape result)

end Release

end Gherkin
