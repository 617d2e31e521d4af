import Gherkin.Dialect
import Gherkin.Error

/-!
# The active dialect

Documents without a language header are read in the active dialect. A scope
changes it for a while: opening one remembers the dialect that was active, and
closing it makes that dialect active again.
-/

namespace Gherkin

/-- The dialect with a given code, or the error that names the code. -/
def Dialect.lookup (code : Text) : Except Error Dialect :=
  match Dialect.find? code with
  | some dialect => .ok dialect
  | none => .error (.unknownDialect code)

/-- The active dialect and the scopes opened so far. A scope that is closed is
`none`; the others hold the dialect to go back to. -/
structure ActiveDialect where
  current : Dialect
  scopes : List (Option Dialect)
deriving DecidableEq, Repr

namespace ActiveDialect

/-- English is active until something else is asked for. -/
def initial : ActiveDialect := ⟨.english, []⟩

/-- Makes the dialect with a given code active. -/
def activate (code : Text) (active : ActiveDialect) : Except Error ActiveDialect := do
  let dialect ← Dialect.lookup code
  pure { active with current := dialect }

/-- Opens a scope in which the dialect with a given code is active. -/
def openScope (code : Text) (active : ActiveDialect) : Except Error ActiveDialect := do
  let dialect ← Dialect.lookup code
  pure ⟨dialect, active.scopes ++ [some active.current]⟩

/-- Closes a scope; nothing happens if it is not open. -/
def closeScope (scope : Nat) (active : ActiveDialect) : ActiveDialect :=
  match active.scopes[scope]? with
  | some (some previous) => ⟨previous, active.scopes.set scope none⟩
  | _ => active

end ActiveDialect

end Gherkin
