import Gherkin.Proofs.Json.Ordered

/-!
# Condensed values

A message result is condensed by leaving out the fields that hold an empty text or an empty list,
and by giving the content types of doc strings the key that the protobuf family has for them. The
members of a key are collected from any depth.
-/

namespace Gherkin

namespace Json

/-- Whether a value is an empty text or an empty list. -/
def isVacant : Json → Bool
  | .text [] | .list [] => true
  | _ => false

/-- The keys of texts that are written even if empty: names of files and values of cells. -/
def keptKeys : List String := ["uri", "value"]

/-- An object in which the field of one key has got another key. -/
def renamed (old new : String) : Json → Json
  | .fields entries => object (entries.map fun entry =>
      (if entry.1 = old then new else entry.1, entry.2))
  | value => value

mutual

/-- A value without the fields that hold an empty text or an empty list, but for those that are
always written, and with `contentType` for `mediaType` in doc strings. -/
def condensed : Json → Json
  | .fields entries => .fields (condensedFields entries)
  | .list items => .list (condensedItems items)
  | value => value

/-- The fields of an object that remain, condensed. -/
def condensedFields : Fields → Fields
  | [] => []
  | (key, value) :: rest =>
    if value.isVacant && !keptKeys.contains key then condensedFields rest
    else if key = "docString" then
      (key, (condensed value).renamed "mediaType" "contentType") :: condensedFields rest
    else (key, condensed value) :: condensedFields rest

/-- The condensed items of a list. -/
def condensedItems : List Json → List Json
  | [] => []
  | item :: rest => condensed item :: condensedItems rest

end

mutual

/-- The values of all fields of a key, at any depth. -/
def members (key : String) : Json → List Json
  | .fields entries => fieldMembers key entries
  | .list items => itemMembers key items
  | _ => []

/-- The values of all fields of a key among and in fields. -/
def fieldMembers (key : String) : Fields → List Json
  | [] => []
  | (name, value) :: rest =>
    (if name = key then [value] else []) ++ members key value ++ fieldMembers key rest

/-- The values of all fields of a key in the items of a list. -/
def itemMembers (key : String) : List Json → List Json
  | [] => []
  | item :: rest => members key item ++ itemMembers key rest

end

variable {entries others : Fields} {items : List Json} {key name : String} {value : Json}

/-! ### Condensing objects and lists -/

attribute [local simp] condensed condensedFields condensedItems

theorem condensedItems_eq : condensedItems items = items.map condensed := by
  induction items with
  | nil => rfl
  | cons item rest ih => simp [ih]

@[simp]
theorem condensed_list (items : List Json) :
    (Json.list items).condensed = .list (items.map condensed) := by
  simp [condensedItems_eq]

@[simp]
theorem condensed_text (text : Text) : (Json.text text).condensed = .text text := by
  rw [condensed]
  · exact fun _ same => nomatch same
  · exact fun _ same => nomatch same

/-- What remains of a field. -/
def condensedEntry (entry : String × Json) : Option (String × Json) :=
  if entry.2.isVacant && !keptKeys.contains entry.1 then none
  else if entry.1 = "docString" then
    some (entry.1, entry.2.condensed.renamed "mediaType" "contentType")
  else some (entry.1, entry.2.condensed)

theorem condensedFields_eq : condensedFields entries = entries.filterMap condensedEntry := by
  induction entries with
  | nil => rfl
  | cons entry rest ih =>
    obtain ⟨key, value⟩ := entry
    rw [condensedFields, List.filterMap_cons, condensedEntry, ih]
    dsimp only
    split
    · rfl
    · split <;> rfl

@[simp]
theorem condensedFields_nil : condensedFields [] = [] := rfl

@[simp]
theorem condensedFields_append :
    condensedFields (entries ++ others) = condensedFields entries ++ condensedFields others := by
  rw [condensedFields_eq, condensedFields_eq, condensedFields_eq, List.filterMap_append]

theorem condensedFields_of_isVacant (vacant : value.isVacant = true)
    (dropped : key ∉ keptKeys) : condensedFields [(key, value)] = [] := by
  rw [condensedFields, if_pos (by simpa [vacant] using dropped)]
  rfl

/-- A field remains if it holds anything or is always kept. -/
theorem condensedFields_singleton (remains : value.isVacant = false ∨ key ∈ keptKeys)
    (plain : key ≠ "docString") : condensedFields [(key, value)] = [(key, value.condensed)] := by
  rw [condensedFields, if_neg, if_neg plain]
  · rfl
  · rcases remains with given | kept
    · simp [given]
    · simp only [List.contains_iff_mem.mpr kept, Bool.not_true, Bool.and_false, Bool.false_eq_true,
        not_false_eq_true]

theorem condensedFields_docString (given : value.isVacant = false) :
    condensedFields [("docString", value)] =
      [("docString", value.condensed.renamed "mediaType" "contentType")] := by
  rw [condensedFields, if_neg (by simp [given]), if_pos rfl]
  rfl

theorem condensed_object (distinct : (entries.map Prod.fst).Nodup) :
    (object entries).condensed = object (condensedFields entries) := by
  rw [object, condensed, condensedFields_eq, condensedFields_eq, Fields.filterMap_ofList ?_ distinct]
  · rfl
  · intro entry other remains
    unfold condensedEntry at remains
    split at remains
    · cases remains
    · split at remains <;> cases remains <;> rfl

theorem renamed_object {old new : String} (distinct : (entries.map Prod.fst).Nodup)
    (apart : (entries.map fun entry => if entry.1 = old then new else entry.1).Nodup) :
    (object entries).renamed old new =
      object (entries.map fun entry => (if entry.1 = old then new else entry.1, entry.2)) := by
  refine congrArg Json.fields (Fields.ofList_eq_of_perm ?_ ((Fields.perm_ofList distinct).map _))
  rw [List.map_map]
  exact (((Fields.perm_ofList distinct).map _).nodup_iff).mpr apart

/-! ### Members of objects and lists -/

theorem itemMembers_eq : itemMembers key items = items.flatMap (members key) := by
  induction items with
  | nil => rfl
  | cons item rest ih => rw [itemMembers, ih, List.flatMap_cons]

theorem fieldMembers_eq : fieldMembers key entries = entries.flatMap fun entry =>
    (if entry.1 = key then [entry.2] else []) ++ members key entry.2 := by
  induction entries with
  | nil => rfl
  | cons entry rest ih => rw [fieldMembers, ih, List.flatMap_cons]

@[simp]
theorem fieldMembers_append :
    fieldMembers key (entries ++ others) = fieldMembers key entries ++ fieldMembers key others := by
  rw [fieldMembers_eq, fieldMembers_eq, fieldMembers_eq, List.flatMap_append]

theorem members_object (key : String) (distinct : (entries.map Prod.fst).Nodup) :
    (members key (object entries)).Perm (fieldMembers key entries) := by
  rw [object, members, fieldMembers_eq, fieldMembers_eq]
  exact (Fields.perm_ofList distinct).flatMap_right _

end Json

end Gherkin
