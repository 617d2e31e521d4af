import Gherkin.Proofs.Text.Lines
import Gherkin.Text.Replace

/-!
# Replaced texts

Replacement goes through a text from the left: an occurrence at the front gives
way to the new text, and otherwise the first character stays.
-/

namespace Gherkin

namespace Text

variable {old new : Text}

theorem replaceFrom_eq_drop (old new : Text) (skipped : Nat) (t : Text) :
    replaceFrom old new skipped t = replaceFrom old new 0 (t.drop skipped) := by
  induction t generalizing skipped with
  | nil => cases skipped <;> rfl
  | cons c t ih =>
      cases skipped with
      | zero => rfl
      | succ skipped => exact ih skipped

@[simp]
theorem replace_nil (old new : Text) : replace old new [] = [] := rfl

theorem replace_append (new : Text) (written : old ≠ []) (t : Text) :
    replace old new (old ++ t) = new ++ replace old new t := by
  obtain ⟨c, rest, rfl⟩ := List.exists_cons_of_ne_nil written
  have here : (c :: rest).isPrefixOf (c :: rest ++ t) = true := by simp
  unfold replace
  rw [List.cons_append] at here ⊢
  rw [replaceFrom, if_pos here, replaceFrom_eq_drop]
  simp

theorem replace_cons (new : Text) {c : Char} {t : Text} (absent : ¬ old <+: c :: t) :
    replace old new (c :: t) = c :: replace old new t := by
  have apart : ¬ old.isPrefixOf (c :: t) = true :=
    fun found => absent (List.isPrefixOf_iff_prefix.mp found)
  unfold replace
  rw [replaceFrom, if_neg apart]

/-- The first character is one of the new text, for an occurrence at the front, or stood there
before. -/
theorem replace_eq_cons {t rest : Text} {c : Char} (written : old ≠ [])
    (starts : replace old new t = c :: rest) :
    (∃ t', t = old ++ t' ∧ new ++ replace old new t' = c :: rest) ∨
      ¬ old <+: t ∧ ∃ t', t = c :: t' ∧ replace old new t' = rest := by
  cases t with
  | nil => cases starts
  | cons d t =>
      by_cases here : old <+: d :: t
      · obtain ⟨t', whole⟩ := here
        rw [← whole, replace_append _ written] at starts
        exact .inl ⟨t', whole.symm, starts⟩
      · rw [replace_cons _ here] at starts
        obtain ⟨rfl, later⟩ := List.cons.inj starts
        exact .inr ⟨here, t, rfl, later⟩

/-- Induction along the search for a text. -/
theorem search_induction {motive : Text → Prop} (written : old ≠ []) (nil : motive [])
    (found : ∀ t, motive t → motive (old ++ t))
    (absent : ∀ c t, ¬ old <+: c :: t → motive t → motive (c :: t)) (t : Text) : motive t := by
  induction length : t.length using Nat.strongRecOn generalizing t with
  | ind size ih =>
      cases t with
      | nil => exact nil
      | cons c t =>
          by_cases here : old <+: c :: t
          · obtain ⟨rest, whole⟩ := here
            have longer := List.length_pos_of_ne_nil written
            have shorter : rest.length < size := by
              rw [← length, ← whole, List.length_append]
              omega
            exact whole ▸ found rest (ih _ shorter rest rfl)
          · exact absent c t here (ih t.length (by rw [← length]; simp) t rfl)

theorem replace_of_not_infix {t : Text} (new : Text) (absent : ¬ old <:+: t) :
    replace old new t = t := by
  induction t with
  | nil => rfl
  | cons c t ih =>
      rw [replace_cons new fun here => absent here.isInfix,
        ih fun inside => absent (inside.trans (List.suffix_cons c t).isInfix)]

/-- Where an occurrence was replaced, the new text stands. -/
theorem infix_replace {t : Text} (new : Text) (written : old ≠ []) (present : old <:+: t) :
    new <:+: replace old new t := by
  induction t using search_induction written with
  | nil => exact absurd (List.eq_nil_of_infix_nil present) written
  | found t _ =>
      rw [replace_append new written]
      exact (List.prefix_append _ _).isInfix
  | absent c t apart ih =>
      rw [replace_cons new apart]
      rcases List.infix_cons_iff.mp present with here | later
      · exact absurd here apart
      · exact (ih later).trans (List.suffix_cons _ _).isInfix

theorem mem_of_mem_replace {c : Char} {t : Text} (written : old ≠ [])
    (member : c ∈ replace old new t) : c ∈ new ∨ c ∈ t := by
  induction t using search_induction written with
  | nil => exact .inr member
  | found t ih =>
      rw [replace_append new written] at member
      rcases List.mem_append.mp member with here | later
      · exact .inl here
      · exact (ih later).imp_right (List.mem_append_right _)
  | absent d t apart ih =>
      rw [replace_cons new apart] at member
      rcases List.mem_cons.mp member with rfl | later
      · exact .inr List.mem_cons_self
      · exact (ih later).imp_right (List.mem_cons_of_mem _)

theorem replace_eq_nil_iff {t : Text} (written : old ≠ []) (filled : new ≠ []) :
    replace old new t = [] ↔ t = [] := by
  constructor
  · intro empty
    induction t using search_induction written with
    | nil => rfl
    | found t _ =>
        rw [replace_append new written] at empty
        exact absurd (List.append_eq_nil_iff.mp empty).1 filled
    | absent c t apart _ =>
        rw [replace_cons new apart] at empty
        cases empty
  · rintro rfl
    rfl

/-- A character that is no part of the search does not take part in it. -/
theorem replace_concat {c : Char} (new : Text) (written : old ≠ []) (other : c ∉ old) (t : Text) :
    replace old new (t ++ [c]) = replace old new t ++ [c] := by
  induction t using search_induction written with
  | nil =>
      rw [List.nil_append, replace_of_not_infix]
      · rfl
      · intro inside
        obtain ⟨d, rest, rfl⟩ := List.exists_cons_of_ne_nil written
        have same := List.mem_singleton.mp (inside.subset List.mem_cons_self)
        exact other (same ▸ List.mem_cons_self)
  | found t ih => rw [List.append_assoc, replace_append new written, ih, replace_append new written,
      List.append_assoc]
  | absent d t apart ih =>
      rw [replace_cons new apart, List.cons_append, replace_cons new, ih, List.cons_append]
      intro here
      rw [← List.cons_append, List.prefix_concat_iff] at here
      rcases here with whole | short
      · exact other (whole ▸ List.mem_append_right _ List.mem_cons_self)
      · exact apart short

/-- Replacement keeps the number of characters that neither text has. -/
theorem count_replace {c : Char} {t : Text} (written : old ≠ []) (notOld : c ∉ old)
    (notNew : c ∉ new) : (replace old new t).count c = t.count c := by
  induction t using search_induction written with
  | nil => rfl
  | found t ih =>
      rw [replace_append new written, List.count_append, List.count_append, ih,
        List.count_eq_zero.mpr notOld, List.count_eq_zero.mpr notNew]
  | absent d t apart ih => rw [replace_cons new apart, List.count_cons, List.count_cons, ih]

theorem getLast?_of_getLast?_replace {c : Char} {t : Text} (written : old ≠ [])
    (filled : new ≠ []) (other : c ∉ new) (last : (replace old new t).getLast? = some c) :
    t.getLast? = some c := by
  induction t using search_induction written with
  | nil => exact last
  | found t ih =>
      rw [replace_append new written] at last
      by_cases empty : replace old new t = []
      · rw [empty, List.append_nil] at last
        exact absurd (List.mem_of_getLast? last) other
      · rw [List.getLast?_append_of_ne_nil _ empty] at last
        have some_rest : t ≠ [] := fun none => empty (by rw [none]; rfl)
        rw [List.getLast?_append_of_ne_nil _ some_rest]
        exact ih last
  | absent d t apart ih =>
      rw [replace_cons new apart] at last
      by_cases empty : t = []
      · rw [empty] at last ⊢
        exact last
      · have more : replace old new t ≠ [] := mt (replace_eq_nil_iff written filled).mp empty
        rw [List.getLast?_cons_of_ne_nil more] at last
        rw [List.getLast?_cons_of_ne_nil empty]
        exact ih last

theorem chopReturn_replace (written : old ≠ []) (filled : new ≠ []) (notOld : '\r' ∉ old)
    (notNew : '\r' ∉ new) (t : Text) :
    chopReturn (replace old new t) = replace old new (chopReturn t) := by
  by_cases ends : t.getLast? = some '\r'
  · have whole : t.dropLast ++ ['\r'] = t := List.dropLast_append_getLast? _ ends
    rw [← whole, replace_concat new written notOld, chopReturn_append_return,
      chopReturn_append_return]
  · rw [chopReturn_eq_self ends]
    exact chopReturn_eq_self fun last =>
      ends (getLast?_of_getLast?_replace written filled notNew last)

end Text

end Gherkin
