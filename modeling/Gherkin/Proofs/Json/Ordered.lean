import Mathlib.Data.List.Induction
import Mathlib.Data.List.Sort
import Mathlib.Data.String.Basic
import Gherkin.Proofs.Json.Lookup

/-!
# The order of fields

An object that is made from entries with different keys has these entries, in the order of the
keys, whatever order they are given in. So entries can be left out or get other keys before or
after the object is made.
-/

namespace Gherkin

namespace Fields

variable {key : String} {value : Json} {fields : Fields} {entries others : List (String × Json)}

/-- The fields are in ascending order of the keys, each key once. -/
def Ordered (fields : Fields) : Prop := fields.Pairwise fun entry later => entry.1 < later.1

theorem Ordered.set (ordered : Ordered fields) : Ordered (fields.set key value) := by
  induction fields with
  | nil => exact List.pairwise_singleton _ _
  | cons entry rest ih =>
    obtain ⟨name, held⟩ := entry
    obtain ⟨first, later⟩ := List.pairwise_cons.mp ordered
    unfold Fields.set
    split
    · next same =>
      subst same
      exact List.pairwise_cons.mpr ⟨first, later⟩
    · split
      · next less =>
        refine List.pairwise_cons.mpr ⟨?_, ordered⟩
        exact List.forall_mem_cons.mpr ⟨less, fun other member => less.trans (first other member)⟩
      · next differ notLess =>
        refine List.pairwise_cons.mpr ⟨fun other member => ?_, ih later⟩
        rcases mem_of_mem_set member with rfl | member
        · exact lt_of_le_of_ne (not_lt.mp notLess) (Ne.symm differ)
        · exact first other member

theorem perm_set (fresh : key ∉ fields.map Prod.fst) :
    (fields.set key value).Perm ((key, value) :: fields) := by
  induction fields with
  | nil => exact .refl _
  | cons entry rest ih =>
    obtain ⟨name, held⟩ := entry
    obtain ⟨differ, fresh⟩ := List.ne_and_not_mem_of_not_mem_cons fresh
    unfold Fields.set
    rw [if_neg differ]
    split
    · exact .refl _
    · exact ((ih fresh).cons _).trans (.swap ..)

theorem ordered_ofList (entries : List (String × Json)) : Ordered (ofList entries) := by
  induction entries using List.reverseRecOn with
  | nil => exact List.Pairwise.nil
  | append_singleton front entry ih =>
    rw [ofList, List.foldl_append]
    exact ih.set

/-- Entries with different keys are the fields of the object that is made from them. -/
theorem perm_ofList (distinct : (entries.map Prod.fst).Nodup) :
    (ofList entries).Perm entries := by
  induction entries using List.reverseRecOn with
  | nil => exact .refl _
  | append_singleton front entry ih =>
    rw [List.map_append, List.nodup_append] at distinct
    obtain ⟨distinct, -, apart⟩ := distinct
    have alike := ih distinct
    have fresh : entry.1 ∉ (ofList front).map Prod.fst := by
      intro member
      exact apart _ ((alike.map Prod.fst).subset member) _ (List.mem_singleton_self _) rfl
    rw [ofList, List.foldl_append]
    exact (perm_set fresh).trans ((alike.cons entry).trans (List.perm_append_singleton ..).symm)

theorem Ordered.eq_of_perm {other : Fields} (ordered : Ordered fields) (also : Ordered other)
    (alike : fields.Perm other) : fields = other :=
  alike.eq_of_pairwise (fun _ _ _ _ less greater => absurd (less.trans greater) (lt_irrefl _))
    ordered also

/-- The order in which entries with different keys are given does not matter. -/
theorem ofList_eq_of_perm (distinct : (entries.map Prod.fst).Nodup) (alike : entries.Perm others) :
    ofList entries = ofList others := by
  have also : (others.map Prod.fst).Nodup := (alike.map Prod.fst).nodup_iff.mp distinct
  exact (ordered_ofList _).eq_of_perm (ordered_ofList _)
    ((perm_ofList distinct).trans (alike.trans (perm_ofList also).symm))

/-- Entries that keep their keys can be left out and changed before or after an object is made. -/
theorem filterMap_ofList {change : String × Json → Option (String × Json)}
    (keeps : ∀ entry other, change entry = some other → other.1 = entry.1)
    (distinct : (entries.map Prod.fst).Nodup) :
    (ofList entries).filterMap change = ofList (entries.filterMap change) := by
  have ordered : Ordered ((ofList entries).filterMap change) := by
    refine List.pairwise_filterMap.mpr ((ordered_ofList entries).imp ?_)
    intro entry later less first given second follows
    rw [keeps _ _ given, keeps _ _ follows]
    exact less
  have alike := (perm_ofList distinct).filterMap change
  refine ordered.eq_of_perm (ordered_ofList _) (alike.trans (perm_ofList ?_).symm)
  refine (alike.map Prod.fst).nodup_iff.mp (List.pairwise_map.mpr (ordered.imp ?_))
  exact fun less => ne_of_lt less

end Fields

end Gherkin
