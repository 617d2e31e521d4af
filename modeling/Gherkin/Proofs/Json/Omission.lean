import Mathlib.Data.List.Forall2
import Gherkin.Proofs.Json.Lookup

/-!
# Leaving out default fields

Fields whose value is null, an empty text or an empty list are left out, at any depth and in any
number. A field that is read as a text or as a list reads the same as before, the items of a list
up to what is left out in them; only a look-up tells a field that was left out.
-/

namespace Gherkin

namespace Json

/-- Whether a value is null, an empty text or an empty list. -/
def isDefault : Json → Bool
  | .null | .text [] | .list [] => true
  | _ => false

end Json

/-- Some fields with default values have been left out of an object, which has each key once; the
others hold related values. -/
inductive Fields.Omits (related : Json → Json → Prop) : Fields → Fields → Prop where
  | nil : Omits related [] []
  | keep {key : String} {value other : Json} {rest others : Fields} (inner : related value other)
      (later : Omits related rest others) :
      Omits related ((key, value) :: rest) ((key, other) :: others)
  | drop {key : String} {value : Json} {rest others : Fields} (vacant : value.isDefault = true)
      (once : Fields.get? key rest = none) (later : Omits related rest others) :
      Omits related ((key, value) :: rest) others

namespace Json

/-- Some fields with default values have been left out somewhere in a value. -/
inductive Omits : Json → Json → Prop where
  | same (value : Json) : Omits value value
  | list {items others : List Json} (each : List.Forall₂ Omits items others) :
      Omits (.list items) (.list others)
  | fields {entries others : Fields} (each : Fields.Omits Omits entries others) :
      Omits (.fields entries) (.fields others)

/-- What a look-up gives where fields have been left out. -/
inductive OmitsField : Option Json → Option Json → Prop where
  | absent : OmitsField none none
  | kept {value other : Json} (inner : Omits value other) : OmitsField (some value) (some other)
  | dropped {value : Json} (vacant : value.isDefault = true) : OmitsField (some value) none

end Json

namespace Fields

open Json

theorem Omits.get? {entries others : Fields} (omits : Omits Json.Omits entries others)
    (key : String) : OmitsField (entries.get? key) (others.get? key) := by
  induction omits with
  | nil => exact .absent
  | @keep name value other rest others inner _ ih =>
    by_cases same : key = name
    · rw [Fields.get?, Fields.get?, if_pos same, if_pos same]
      exact .kept inner
    · rw [Fields.get?, Fields.get?, if_neg same, if_neg same]
      exact ih
  | @drop name value rest others vacant once _ ih =>
    by_cases same : key = name
    · subst same
      rw [once] at ih
      rw [Fields.get?, if_pos rfl]
      generalize Fields.get? key others = found at ih
      cases ih
      exact .dropped vacant
    · rw [Fields.get?, if_neg same]
      exact ih

end Fields

namespace Json

variable {value other : Json} {key : String}

theorem eq_of_isDefault (vacant : value.isDefault = true) :
    value = .null ∨ value = .text [] ∨ value = .list [] := by
  unfold isDefault at vacant
  split at vacant
  · exact .inl rfl
  · exact .inr (.inl rfl)
  · exact .inr (.inr rfl)
  · cases vacant

theorem asText?_of_isDefault (vacant : value.isDefault = true) : value.asText?.getD [] = [] := by
  rcases eq_of_isDefault vacant with rfl | rfl | rfl <;> rfl

theorem asList?_of_isDefault (vacant : value.isDefault = true) : value.asList?.getD [] = [] := by
  rcases eq_of_isDefault vacant with rfl | rfl | rfl <;> rfl

theorem asNatural?_of_isDefault (vacant : value.isDefault = true) : value.asNatural? = none := by
  rcases eq_of_isDefault vacant with rfl | rfl | rfl <;> rfl

theorem get?_of_isDefault (vacant : value.isDefault = true) : value.get? key = none := by
  rcases eq_of_isDefault vacant with rfl | rfl | rfl <;> rfl

theorem Omits.asText? (omits : value.Omits other) : value.asText? = other.asText? := by
  cases omits <;> rfl

theorem Omits.asNatural? (omits : value.Omits other) : value.asNatural? = other.asNatural? := by
  cases omits <;> rfl

theorem Omits.isNull (omits : value.Omits other) : value.isNull = other.isNull := by
  cases omits <;> rfl

theorem Omits.items (omits : value.Omits other) :
    List.Forall₂ Omits (value.asList?.getD []) (other.asList?.getD []) := by
  cases omits with
  | same value => exact List.forall₂_same.mpr fun item _ => .same item
  | list each => exact each
  | fields each => exact .nil

theorem Omits.get? (omits : value.Omits other) (key : String) :
    OmitsField (value.get? key) (other.get? key) := by
  cases omits with
  | same value =>
    cases value.get? key with
    | none => exact .absent
    | some inner => exact .kept (.same inner)
  | list each => exact .absent
  | fields each => exact each.get? key

theorem OmitsField.text {field remaining : Option Json} (omits : OmitsField field remaining) :
    (field.bind Json.asText?).getD [] = (remaining.bind Json.asText?).getD [] := by
  cases omits with
  | absent => rfl
  | kept inner => exact congrArg (·.getD []) inner.asText?
  | dropped vacant => exact asText?_of_isDefault vacant

theorem OmitsField.items {field remaining : Option Json} (omits : OmitsField field remaining) :
    List.Forall₂ Omits ((field.bind asList?).getD []) ((remaining.bind asList?).getD []) := by
  cases omits with
  | absent => exact .nil
  | kept inner => exact inner.items
  | dropped vacant =>
    rw [Option.bind_some, asList?_of_isDefault vacant]
    exact .nil

/-- A text that is left out reads as the empty one. -/
theorem Omits.textAt (omits : value.Omits other) (key : String) :
    value.textAt key = other.textAt key := (omits.get? key).text

/-- A list that is left out reads as the empty one. -/
theorem Omits.itemsAt (omits : value.Omits other) (key : String) :
    List.Forall₂ Omits (value.itemsAt key) (other.itemsAt key) := (omits.get? key).items

end Json

end Gherkin
