import Gherkin.Settings
import Gherkin.Json.Reader
import Gherkin.Tree.Rows
import Gherkin.Tree.Tags
import Gherkin.Tree.Ancestry
import Gherkin.Proofs.Command
import Gherkin.Proofs.Fragment
import Gherkin.Proofs.Stability
import Gherkin.Proofs.Document.Acceptance
import Gherkin.Proofs.Document.Trace
import Gherkin.Proofs.Record.Legality
import Gherkin.Proofs.Record.Reached
import Gherkin.Proofs.Tree.Built
import Gherkin.Proofs.Record.Foreign
import Gherkin.Proofs.Directory
import Gherkin.Proofs.Normality
import Gherkin.Proofs.Line.Fields
import Gherkin.Proofs.Language
import Gherkin.Proofs.DocString
import Gherkin.Proofs.Document.CommentedReading
import Gherkin.Proofs.Document.RowPlacement
import Gherkin.Proofs.Comments
import Gherkin.Proofs.Tree.OwnRows
import Gherkin.Proofs.Tree.Assignment
import Gherkin.Proofs.Tree.Navigation
import Gherkin.Proofs.SameContent
import Gherkin.Proofs.Composition
import Gherkin.Proofs.Record.Defaults
import Gherkin.Proofs.Document.Emission
import Gherkin.Proofs.Isolation
import Gherkin.Proofs.Independence
import Gherkin.Proofs.Description
import Gherkin.Proofs.Tree.Inheritance
import Gherkin.Proofs.SyntaxErrors
import Gherkin.Proofs.Tree.TestCount
import Gherkin.Proofs.Layout.Alignment
import Gherkin.Proofs.Document.Columns
import Gherkin.Proofs.Dialect.Scopes
import Gherkin.Proofs.Document.Progress
