import Gherkin.Record.Messages
import Gherkin.Record.TypedTree
import Gherkin.Release.Recognition

/-!
# The record of a parse result

Each release turns the results of its family into a record. A result of another
shape is refused, never guessed at.
-/

namespace Gherkin

namespace Release

/-- The record of a parse result. The active dialect counts where the document
does not name a known one. -/
def normalize (release : Release) (active : Dialect) (result : Json) : Except Error Record :=
  if release.accepts result then
    match release.family with
    | .typedTree => .ok (Record.TypedTree.document result)
    | family =>
      match result.get? "gherkinDocument" with
      | some envelope =>
        .ok (Record.Messages.document active release.hasRuleTags
          (Document.contentTypeKey family) envelope)
      | none => .error (.malformed .missingEnvelope)
  else .error (.shapeMismatch release.version)

end Release

end Gherkin
