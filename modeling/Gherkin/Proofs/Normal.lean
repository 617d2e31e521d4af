import Gherkin.Description
import Gherkin.Proofs.Branch
import Gherkin.Proofs.Document.Spelling

/-!
# Branches in normal form

A branch in normal form says nothing that rendering cannot write down: its keywords are
words of the dialect, its texts are trimmed as lines are, no line of a description looks
like anything else, and its tables are even.
-/

namespace Gherkin

/-- A heading that is written with a word for a construct. -/
structure Heading.IsNormal (dialect : Dialect) (construct : Construct) (heading : Heading) :
    Prop where
  keyword : heading.keyword ∈ dialect.keywords construct
  name : Text.IsLabel heading.name
  trimmed : Description.trim heading.description = heading.description
  free : ∀ line ∈ Text.pieces heading.description, dialect.IsFree line

/-- The rows among some elements have one width. -/
def Element.AreEven (elements : List Element) : Prop :=
  ∀ row ∈ elements, ∀ other ∈ elements, row.kind = .row → other.kind = .row →
    row.cells.length = other.cells.length

/-- An element in normal form, with the elements of its children. An outline may be written
with a word for scenarios if it has examples; an examples block may be without rows. -/
def Element.IsNormal (dialect : Dialect) (below : List Element) : Element → Prop
  | .directory _ | .featureFile _ => False
  | .feature heading language => heading.IsNormal dialect .feature ∧ language = dialect.code
  | .rule heading => heading.IsNormal dialect .rule
  | .background heading => heading.IsNormal dialect .background
  | .scenario heading => heading.IsNormal dialect .scenario
  | .outline heading => heading.IsNormal dialect .outline ∨
      heading.IsNormal dialect .scenario ∧ ∃ child ∈ below, child.kind = .example
  | .example heading => heading.IsNormal dialect .examples ∧ AreEven below
  | .step keyword text => (∃ word ∈ dialect.stepKeywords, keyword = Text.trimEnd word) ∧
      Text.IsLabel text
  | .table => (∃ child ∈ below, child.kind = .row) ∧ AreEven below
  | .row cells => ∀ cell ∈ cells, IsCellValue cell
  | .docString contentType _ => ∀ type ∈ contentType, type ≠ [] ∧ Text.IsLabel type
  | .tag name => IsTagName name

/-- A branch whose elements are in normal form. -/
inductive Branch.IsNormal {α : Type} (dialect : Dialect) : Branch α → Prop where
  | node {label element children} :
      Element.IsNormal dialect (children.map Branch.element) element →
      (∀ child ∈ children, IsNormal dialect child) → IsNormal dialect (.node label element children)

/-- Directories and files have no normal form, for they are not made of source text. -/
theorem Branch.IsNormal.kind_ne {α : Type} {dialect : Dialect} {branch : Branch α}
    (normal : branch.IsNormal dialect) :
    branch.kind ≠ .directory ∧ branch.kind ≠ .featureFile ∧ branch.kind ≠ .cell := by
  cases normal with
  | @node label element children here below =>
      cases element <;> first | exact here.elim | exact ⟨nofun, nofun, nofun⟩

/-- What says the same as a branch in normal form has the same content. -/
theorem Branch.IsNormal.content_eq_of_same {α β : Type} {dialect : Dialect} {branch : Branch α}
    {other : Branch β} (normal : branch.IsNormal dialect) (same : other.same branch = true) :
    other.content = branch.content := by
  induction normal generalizing other with
  | @node label element children here each ih =>
      obtain ⟨label', element', children'⟩ := other
      obtain ⟨agrees, below⟩ := same_node_iff.mp same
      have elements : element' = element := by
        cases element <;> first
          | exact here.elim
          | cases element' <;> simp_all [Element.agrees]
      have contents : children'.map content = children.map content := by
        clear here same each
        induction below with
        | nil => rfl
        | cons first _ rest =>
            obtain ⟨ihFirst, ih⟩ := List.forall_mem_cons.mp ih
            rw [List.map_cons, List.map_cons, ihFirst first, rest ih]
      rw [content, content, map_node, map_node, elements]
      exact congrArg _ contents

end Gherkin
