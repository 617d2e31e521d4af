import Gherkin.Text.Basic

/-!
# JSON values

Parse results and records are JSON values. An object is its list of fields in
ascending order of the keys, each key once; `Json.object` makes one from fields
in any order, the last of two equal keys winning.
-/

namespace Gherkin

/-- A number is an integer or a double given by its bits. -/
inductive Number where
  | integer (value : Int)
  | double (bits : UInt64)
deriving DecidableEq

/-- A JSON value. -/
inductive Json where
  | null
  | bool (value : Bool)
  | number (value : Number)
  | text (value : Text)
  | list (items : List Json)
  | fields (entries : List (String × Json))

/-- The fields of an object, in ascending order of the keys. -/
abbrev Fields := List (String × Json)

namespace Fields

/-- Sets a field, keeping the order of the keys. -/
def set (key : String) (value : Json) : Fields → Fields
  | [] => [(key, value)]
  | (k, v) :: rest =>
    if key = k then (key, value) :: rest
    else if key < k then (key, value) :: (k, v) :: rest
    else (k, v) :: set key value rest

/-- The fields given by a list, a later one replacing an earlier one of its key. -/
def ofList (entries : List (String × Json)) : Fields :=
  entries.foldl (fun fields entry => set entry.1 entry.2 fields) []

/-- The value of a field. -/
def get? (key : String) : Fields → Option Json
  | [] => none
  | (k, v) :: rest => if key = k then some v else get? key rest

theorem get?_set_self (key : String) (value : Json) (fields : Fields) :
    (fields.set key value).get? key = some value := by
  induction fields with
  | nil => simp [set, get?]
  | cons entry rest ih =>
    obtain ⟨k, v⟩ := entry
    by_cases same : key = k
    · simp [set, get?, same]
    · by_cases less : key < k
      · simp [set, get?, same, less]
      · simp [set, get?, same, less, ih]

theorem get?_set_of_ne {key other : String} (value : Json) (fields : Fields)
    (differ : other ≠ key) : (fields.set key value).get? other = fields.get? other := by
  induction fields with
  | nil => simp [set, get?, differ]
  | cons entry rest ih =>
    obtain ⟨k, v⟩ := entry
    by_cases same : key = k
    · subst same
      simp [set, get?, differ]
    · by_cases less : key < k
      · simp [set, get?, same, less, differ]
      · simp [set, get?, same, less, ih]

theorem sizeOf_get? {key : String} {fields : Fields} {value : Json}
    (found : fields.get? key = some value) : sizeOf value < sizeOf fields := by
  induction fields with
  | nil => simp [get?] at found
  | cons entry rest ih =>
    obtain ⟨k, v⟩ := entry
    by_cases same : key = k
    · simp only [get?, same, if_true, Option.some.injEq] at found
      subst found
      simp only [List.cons.sizeOf_spec, Prod.mk.sizeOf_spec]
      omega
    · simp only [get?, same, if_false] at found
      have smaller := ih found
      simp only [List.cons.sizeOf_spec]
      omega

end Fields

namespace Json

/-- The object with the given fields. -/
def object (entries : List (String × Json)) : Json := .fields (Fields.ofList entries)

/-- A text from a constant word. -/
def word (s : String) : Json := .text (Text.word s)

/-- A natural number. -/
def natural (n : Nat) : Json := .number (.integer n)

/-- A field of an object; other values have none. -/
def get? (key : String) : Json → Option Json
  | .fields entries => Fields.get? key entries
  | _ => none

/-- The text a value holds. -/
def asText? : Json → Option Text
  | .text t => some t
  | _ => none

/-- The items a list holds. -/
def asList? : Json → Option (List Json)
  | .list items => some items
  | _ => none

/-- The fields an object holds. -/
def asFields? : Json → Option Fields
  | .fields entries => some entries
  | _ => none

/-- The number a non-negative integer stands for. -/
def asNatural? : Json → Option Nat
  | .number (.integer n) => if 0 ≤ n then some n.toNat else none
  | _ => none

/-- Whether a value is `null`. -/
def isNull : Json → Bool
  | .null => true
  | _ => false

/-- Whether a value is a list. -/
def isList : Json → Bool
  | .list _ => true
  | _ => false

/-- A text field; one that is missing or no text reads as empty. -/
def textAt (key : String) (value : Json) : Text := ((value.get? key).bind asText?).getD []

/-- The items of a list field; one that is missing or no list has none. -/
def itemsAt (key : String) (value : Json) : List Json := ((value.get? key).bind asList?).getD []

/-- What a value is, as messages name it. -/
def typeName : Json → String
  | .null => "null"
  | .bool _ => "a boolean"
  | .number _ => "a number"
  | .text _ => "a string"
  | .list _ => "a list"
  | .fields _ => "a mapping"

end Json

end Gherkin
