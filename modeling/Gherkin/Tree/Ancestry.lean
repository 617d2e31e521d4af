import Gherkin.Tree.Basic

/-!
# Ancestors by kind

An ancestor is asked for by its kind, or as a test, which is a scenario or an
outline. Cells have no nodes of their own and stand for their row.
-/

namespace Gherkin

/-- What an ancestor is asked for by. -/
inductive AncestorKind where
  | exactly (kind : Kind)
  | test
deriving DecidableEq, Repr

namespace AncestorKind

/-- Whether a kind is asked for. -/
def covers : AncestorKind → Kind → Bool
  | .exactly wanted, kind => wanted == kind
  | .test, kind => kind.isTest

/-- What a kind stands for above a node. -/
def ofKind : Kind → AncestorKind
  | .cell => .exactly .row
  | kind => .exactly kind

/-- The ancestor kind with a given name. -/
def ofSymbol (name : Text) : Except Error AncestorKind :=
  if name = Text.word "test" then .ok .test
  else
    match Kind.ofSymbol? name with
    | some .cell | none => .error (.unknownKind name)
    | some kind => .ok (.exactly kind)

/-- The kinds asked for. -/
def kinds (wanted : AncestorKind) : List Kind := Kind.all.filter wanted.covers

end AncestorKind

/-- The kind with a given name. -/
def Kind.ofSymbol (name : Text) : Except Error Kind :=
  match Kind.ofSymbol? name with
  | some kind => .ok kind
  | none => .error (.unknownKind name)

/-- The nearest ancestor of a kind. -/
def Tree.ancestorOf? (tree : Tree) (wanted : AncestorKind) (id : NodeId) : Option NodeId :=
  (tree.ancestors id).find? fun above => (tree.kind? above).any wanted.covers

end Gherkin
