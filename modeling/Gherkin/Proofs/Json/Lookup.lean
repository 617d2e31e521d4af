import Gherkin.Json.Basic

/-!
# Looking up fields

An object made from a list of entries answers a look-up with the last entry of
the key, whatever the order its fields are kept in.
-/

namespace Gherkin

namespace Fields

/-- The value that the last entry of a key gives it. -/
def last? (key : String) : List (String × Json) → Option Json
  | [] => none
  | (k, v) :: rest => (last? key rest).or (if key = k then some v else none)

@[simp]
theorem last?_nil (key : String) : last? key [] = none := rfl

@[simp]
theorem last?_cons (key : String) (entry : String × Json) (rest : List (String × Json)) :
    last? key (entry :: rest) =
      (last? key rest).or (if key = entry.1 then some entry.2 else none) := rfl

@[simp]
theorem last?_append (key : String) (front back : List (String × Json)) :
    last? key (front ++ back) = (last? key back).or (last? key front) := by
  induction front with
  | nil => simp
  | cons entry rest ih => simp [ih, Option.or_assoc]

theorem last?_eq_none {key : String} {entries : List (String × Json)}
    (absent : key ∉ entries.map Prod.fst) : last? key entries = none := by
  induction entries with
  | nil => rfl
  | cons entry rest ih =>
      obtain ⟨differ, absent⟩ := List.ne_and_not_mem_of_not_mem_cons absent
      rw [last?_cons, ih absent, if_neg differ, Option.none_or]

theorem last?_of_mem {entries : List (String × Json)} (distinct : (entries.map Prod.fst).Nodup)
    {entry : String × Json} (member : entry ∈ entries) : last? entry.1 entries = some entry.2 := by
  induction entries with
  | nil => exact absurd member List.not_mem_nil
  | cons first rest ih =>
      obtain ⟨absent, distinct⟩ := List.nodup_cons.mp distinct
      rw [last?_cons]
      rcases List.mem_cons.mp member with rfl | later
      · rw [last?_eq_none absent, if_pos rfl, Option.none_or]
      · rw [ih distinct later, Option.some_or]

theorem get?_foldl_set (key : String) (entries : List (String × Json)) (fields : Fields) :
    (entries.foldl (fun fields entry => set entry.1 entry.2 fields) fields).get? key =
      (last? key entries).or (fields.get? key) := by
  induction entries generalizing fields with
  | nil => simp
  | cons entry rest ih =>
      rw [List.foldl_cons, ih, last?_cons, Option.or_assoc]
      by_cases same : key = entry.1
      · simp [same, get?_set_self]
      · simp [same, get?_set_of_ne _ _ same]

@[simp]
theorem get?_ofList (key : String) (entries : List (String × Json)) :
    (ofList entries).get? key = last? key entries := by
  unfold ofList
  rw [get?_foldl_set]
  simp [get?]

theorem mem_of_mem_set {key : String} {value : Json} {fields : Fields} {entry : String × Json}
    (member : entry ∈ set key value fields) : entry = (key, value) ∨ entry ∈ fields := by
  induction fields with
  | nil => exact .inl (List.mem_singleton.mp member)
  | cons other rest ih =>
      unfold set at member
      split at member
      · rcases List.mem_cons.mp member with here | later
        · exact .inl here
        · exact .inr (List.mem_cons_of_mem _ later)
      · split at member
        · rcases List.mem_cons.mp member with here | later
          · exact .inl here
          · exact .inr later
        · rcases List.mem_cons.mp member with here | later
          · exact .inr (List.mem_cons.mpr (.inl here))
          · exact (ih later).imp_right (List.mem_cons_of_mem _)

/-- An object has no fields but those it was made from. -/
theorem mem_of_mem_ofList {entries : List (String × Json)} {entry : String × Json}
    (member : entry ∈ ofList entries) : entry ∈ entries := by
  have all (fields : Fields) (found : entry ∈
      entries.foldl (fun fields entry => set entry.1 entry.2 fields) fields) :
      entry ∈ entries ∨ entry ∈ fields := by
    clear member
    induction entries generalizing fields with
    | nil => exact .inr found
    | cons first rest ih =>
        rcases ih _ found with later | here
        · exact .inl (List.mem_cons_of_mem _ later)
        · rcases mem_of_mem_set here with same | old
          · exact .inl (List.mem_cons.mpr (.inl same))
          · exact .inr old
  exact (all [] member).resolve_right List.not_mem_nil

theorem mem_of_get? {key : String} {value : Json} {fields : Fields}
    (found : fields.get? key = some value) : (key, value) ∈ fields := by
  induction fields with
  | nil => cases found
  | cons entry rest ih =>
      unfold get? at found
      split at found
      · next same =>
        cases found
        exact List.mem_cons.mpr (.inl (Prod.ext same rfl))
      · exact List.mem_cons_of_mem _ (ih found)

end Fields

namespace Json

@[simp]
theorem get?_object (key : String) (entries : List (String × Json)) :
    (object entries).get? key = Fields.last? key entries :=
  Fields.get?_ofList key entries

@[simp]
theorem textAt_object (key : String) (entries : List (String × Json)) :
    (object entries).textAt key = ((Fields.last? key entries).bind asText?).getD [] := by
  rw [textAt, get?_object]

@[simp]
theorem itemsAt_object (key : String) (entries : List (String × Json)) :
    (object entries).itemsAt key = ((Fields.last? key entries).bind asList?).getD [] := by
  rw [itemsAt, get?_object]

end Json

end Gherkin
