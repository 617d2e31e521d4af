import Gherkin.Dialect.Scope

/-!
# Calls that change the active dialect

The active dialect is one setting that calls change in place, step by step. A guard keeps the
dialect that its scope took the place of, and puts it back when it is dropped.
`ActiveDialect.activate`, `ActiveDialect.openScope` and `ActiveDialect.closeScope` say at once
what comes out in the end.
-/

namespace Gherkin

/-- A change of the active dialect. When it fails, the setting stays as it is then. -/
abbrev DialectChange (α : Type) := EStateM Error ActiveDialect α

namespace DialectChange

/-- The dialect with a given code, or a failure. -/
def lookup (code : Text) : DialectChange Dialect :=
  match Dialect.lookup code with
  | .ok dialect => pure dialect
  | .error error => throw error

/-- Makes a dialect active; the outcome is the one that was active. -/
def replace (dialect : Dialect) : DialectChange Dialect :=
  modifyGet fun active => (active.current, { active with current := dialect })

/-- Makes the dialect with a given code active. -/
def setActive (code : Text) : DialectChange Unit := do
  let dialect ← lookup code
  discard (replace dialect)

/-- Makes the dialect with a given code active until the guard is dropped whose number is the
outcome. -/
def enter (code : Text) : DialectChange Nat := do
  let dialect ← lookup code
  let previous ← replace dialect
  modifyGet fun active =>
    (active.scopes.length, { active with scopes := active.scopes ++ [some previous] })

/-- Drops a guard; nothing happens if it is dropped already. -/
def dropGuard (scope : Nat) : DialectChange Unit := do
  let active ← get
  match active.scopes[scope]? with
  | some (some previous) =>
    discard (replace previous)
    modify fun active => { active with scopes := active.scopes.set scope none }
  | _ => pure ()

end DialectChange

namespace ActiveDialect

/-- What can be done to the active dialect. -/
inductive Call where
  | activate (code : Text)
  | openScope (code : Text)
  | closeScope (scope : Nat)
deriving DecidableEq, Repr

namespace Call

/-- Does a call in place. -/
def perform : Call → DialectChange Unit
  | .activate code => DialectChange.setActive code
  | .openScope code => discard (DialectChange.enter code)
  | .closeScope scope => DialectChange.dropGuard scope

/-- The setting that a call makes of another one at once. -/
def effect (active : ActiveDialect) : Call → Except Error ActiveDialect
  | .activate code => active.activate code
  | .openScope code => active.openScope code
  | .closeScope scope => .ok (active.closeScope scope)

/-- The setting there is after a call, whether it has failed or not. -/
def after (call : Call) (active : ActiveDialect) : ActiveDialect :=
  match call.perform active with
  | .ok _ changed => changed
  | .error _ changed => changed

/-- The setting there is after several calls, of which each may fail. -/
def run (calls : List Call) (active : ActiveDialect) : ActiveDialect :=
  calls.foldl (fun active call => call.after active) active

end Call

end ActiveDialect

end Gherkin
