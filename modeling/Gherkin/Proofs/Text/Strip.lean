import Mathlib.Data.List.DropRight
import Mathlib.Data.List.Forall2
import Mathlib.Data.List.TakeWhile

/-!
# Stripping a list at both ends

Blanks around a text, blank lines around a description and blanks around a cell
are all taken away in the same manner. What is left is determined by the list
being a front and a back that go, around a middle that begins and ends with
something that stays.
-/

namespace Gherkin

variable {α : Type} {p : α → Bool}

/-- A list without the elements at either end that have a property. -/
def strip (p : α → Bool) (l : List α) : List α :=
  ((l.dropWhile p).reverse.dropWhile p).reverse

/-- A list neither begins nor ends with an element that has a property. -/
def IsStripped (p : α → Bool) (l : List α) : Prop :=
  (∀ a ∈ l.head?, p a = false) ∧ ∀ a ∈ l.getLast?, p a = false

theorem isStripped_nil : IsStripped p [] := ⟨by simp, by simp⟩

theorem head?_dropWhile_eq_false {a : α} {l : List α} (first : a ∈ (l.dropWhile p).head?) :
    p a = false := by
  have kept := List.head?_dropWhile_not p l
  rwa [Option.mem_def.mp first] at kept

theorem dropWhile_eq_of_head {front l : List α} (gone : ∀ a ∈ front, p a = true)
    (stays : ∀ a ∈ l.head?, p a = false) : (front ++ l).dropWhile p = l := by
  rw [List.dropWhile_append_of_pos gone]
  cases l with
  | nil => rfl
  | cons a l => simp [stays a rfl]

theorem rdropWhile_eq_of_getLast {back l : List α} (gone : ∀ a ∈ back, p a = true)
    (stays : ∀ a ∈ l.getLast?, p a = false) :
    ((l ++ back).reverse.dropWhile p).reverse = l := by
  rw [List.reverse_append, dropWhile_eq_of_head, List.reverse_reverse]
  · simpa using gone
  · simpa using stays

/-- What stays between a front and a back that go is what stripping leaves. -/
theorem strip_eq_of_append {front middle back : List α} (before : ∀ a ∈ front, p a = true)
    (behind : ∀ a ∈ back, p a = true) (stays : IsStripped p middle) :
    strip p (front ++ middle ++ back) = middle := by
  unfold strip
  rw [List.append_assoc, List.dropWhile_append_of_pos before]
  cases middle with
  | nil =>
      rw [List.nil_append, List.dropWhile_eq_nil_iff.mpr behind]
      rfl
  | cons a middle =>
      have here := stays.1 a rfl
      rw [List.cons_append, List.dropWhile_cons_of_neg (by simp [here]), ← List.cons_append]
      exact rdropWhile_eq_of_getLast behind stays.2

/-- Stripping takes a front and a back away, and leaves a stripped list. -/
theorem exists_append_strip_append (p : α → Bool) (l : List α) :
    ∃ front back, l = front ++ strip p l ++ back ∧ (∀ a ∈ front, p a = true) ∧
      (∀ a ∈ back, p a = true) ∧ IsStripped p (strip p l) := by
  refine ⟨l.takeWhile p, (l.dropWhile p).rtakeWhile p, ?_, ?_, ?_, ?_, ?_⟩
  · have whole : strip p l ++ (l.dropWhile p).rtakeWhile p = l.dropWhile p :=
      List.rdropWhile_append_rtakeWhile ..
    rw [List.append_assoc, whole, List.takeWhile_append_dropWhile]
  · exact fun a member => List.mem_takeWhile_imp member
  · exact fun a member => List.mem_rtakeWhile_imp member
  · -- What is left is a prefix of a list that already begins with what stays.
    intro a first
    obtain ⟨back, whole⟩ := List.rdropWhile_prefix p (l.dropWhile p)
    have nonempty : l.dropWhile p ≠ [] := by
      intro empty
      change (List.rdropWhile p (l.dropWhile p)).head? = some a at first
      simp [empty] at first
    have same : (l.dropWhile p).head nonempty = a := by
      have := congrArg List.head? whole
      rw [List.head?_append, show (List.rdropWhile p (l.dropWhile p)).head? = some a from first,
        Option.some_or, List.head?_eq_some_head nonempty] at this
      exact (Option.some.inj this).symm
    exact same ▸ by simpa using List.head_dropWhile_not p nonempty
  · intro a last
    have nonempty : List.rdropWhile p (l.dropWhile p) ≠ [] := by
      intro empty
      change (List.rdropWhile p (l.dropWhile p)).getLast? = some a at last
      simp [empty] at last
    have same : (List.rdropWhile p (l.dropWhile p)).getLast nonempty = a :=
      Option.some.inj ((List.getLast?_eq_some_getLast nonempty).symm.trans last)
    exact same ▸ by simpa using List.rdropWhile_last_not p (l.dropWhile p) nonempty

theorem isStripped_strip (p : α → Bool) (l : List α) : IsStripped p (strip p l) := by
  obtain ⟨_, _, _, _, _, stripped⟩ := exists_append_strip_append p l
  exact stripped

theorem strip_eq_self {l : List α} (stays : IsStripped p l) : strip p l = l := by
  simpa using @strip_eq_of_append _ p [] _ [] (by simp) (by simp) stays

theorem strip_eq_self_iff {l : List α} : strip p l = l ↔ IsStripped p l :=
  ⟨fun same => same ▸ isStripped_strip p l, strip_eq_self⟩

theorem mem_of_mem_strip {a : α} {l : List α} (member : a ∈ strip p l) : a ∈ l := by
  obtain ⟨front, back, whole, _⟩ := exists_append_strip_append p l
  rw [whole]
  exact List.mem_append_left _ (List.mem_append_right _ member)

theorem filter_strip (p : α → Bool) (l : List α) :
    (strip p l).filter (fun a => !p a) = l.filter fun a => !p a := by
  obtain ⟨front, back, whole, before, behind, _⟩ := exists_append_strip_append p l
  have gone {l : List α} (all : ∀ a ∈ l, p a = true) : l.filter (fun a => !p a) = [] :=
    List.filter_eq_nil_iff.mpr fun a member => by simp [all a member]
  conv_rhs => rw [whole]
  rw [List.filter_append, List.filter_append, gone before, gone behind, List.nil_append,
    List.append_nil]

theorem strip_eq_nil_iff {l : List α} : strip p l = [] ↔ ∀ a ∈ l, p a = true := by
  constructor
  · intro empty
    obtain ⟨front, back, whole, before, behind, _⟩ := exists_append_strip_append p l
    rw [empty, List.append_nil] at whole
    rw [whole]
    intro a member
    exact (List.mem_append.mp member).elim (before a) (behind a)
  · intro all
    simpa using @strip_eq_of_append _ p _ [] [] all (by simp) isStripped_nil

/-- Stripping leaves the first element that stays in the first place. -/
theorem head?_strip_cons {a : α} (stays : p a = false) (l : List α) :
    (strip p (a :: l)).head? = some a := by
  obtain ⟨front, back, whole, before, behind, _⟩ := exists_append_strip_append p (a :: l)
  have other {b : α} (gone : p b = true) : a ≠ b := by
    rintro rfl
    exact Bool.false_ne_true (stays.symm.trans gone)
  cases front with
  | cons b front => exact absurd (List.cons.inj whole).1 (other (before b List.mem_cons_self))
  | nil =>
    cases kept : strip p (a :: l) with
    | cons b kept' =>
      rw [kept] at whole
      exact congrArg some (List.cons.inj whole).1.symm
    | nil =>
      rw [kept, List.append_nil, List.nil_append] at whole
      subst whole
      exact absurd rfl (other (behind a List.mem_cons_self))

/-- Changing the elements keeps a list stripped when it keeps what stays. -/
theorem IsStripped.map {β : Type} {q : β → Bool} {f : α → β} {l : List α}
    (stripped : IsStripped p l) (kept : ∀ a ∈ l, p a = false → q (f a) = false) :
    IsStripped q (l.map f) := by
  constructor
  · intro b found
    rw [List.head?_map, Option.mem_def, Option.map_eq_some_iff] at found
    obtain ⟨a, first, rfl⟩ := found
    exact kept a (List.mem_of_head? first) (stripped.1 a first)
  · intro b found
    rw [List.getLast?_map, Option.mem_def, Option.map_eq_some_iff] at found
    obtain ⟨a, last, rfl⟩ := found
    exact kept a (List.mem_of_getLast? last) (stripped.2 a last)

theorem isStripped_map_iff {β : Type} {q : β → Bool} {f : α → β} {l : List α} :
    IsStripped q (l.map f) ↔ IsStripped (fun a => q (f a)) l := by
  simp [IsStripped]

theorem IsStripped.congr {q : α → Bool} {l : List α} (stripped : IsStripped p l)
    (same : ∀ a ∈ l, q a = p a) : IsStripped q l :=
  ⟨fun a first => (same a (List.mem_of_head? first)).trans (stripped.1 a first),
    fun a last => (same a (List.mem_of_getLast? last)).trans (stripped.2 a last)⟩

theorem strip_map {β : Type} (q : β → Bool) (f : α → β) (l : List α) :
    strip q (l.map f) = (strip (fun a => q (f a)) l).map f := by
  simp only [strip, List.dropWhile_map, ← List.map_reverse]
  rfl

/-- Lists that are related elementwise are so when both are stripped of the same elements. -/
theorem strip_rel {β : Type} {q : β → Bool} {related : α → β → Prop}
    (same : ∀ a b, related a b → q b = p a) {as : List α} {bs : List β}
    (each : List.Forall₂ related as bs) : List.Forall₂ related (strip p as) (strip q bs) := by
  have drop {as : List α} {bs : List β} (each : List.Forall₂ related as bs) :
      List.Forall₂ related (as.dropWhile p) (bs.dropWhile q) := by
    induction each with
    | nil => exact .nil
    | @cons a b as bs here later ih =>
        by_cases goes : p a = true
        · rwa [List.dropWhile_cons_of_pos goes,
            List.dropWhile_cons_of_pos ((same a b here).trans goes)]
        · rw [List.dropWhile_cons_of_neg goes, List.dropWhile_cons_of_neg (same a b here ▸ goes)]
          exact .cons here later
  exact List.rel_reverse (drop (List.rel_reverse (drop each)))

/-- Putting more of what goes around a list changes nothing. -/
theorem strip_append_append {front back : List α} (l : List α) (before : ∀ a ∈ front, p a = true)
    (behind : ∀ a ∈ back, p a = true) : strip p (front ++ l ++ back) = strip p l := by
  obtain ⟨more, rest, whole, hmore, hrest, stays⟩ := exists_append_strip_append p l
  have regrouped : front ++ l ++ back = (front ++ more) ++ strip p l ++ (rest ++ back) := by
    conv_lhs => rw [whole]
    simp
  rw [regrouped]
  apply strip_eq_of_append _ _ stays
  · intro a member
    exact (List.mem_append.mp member).elim (before a) (hmore a)
  · intro a member
    exact (List.mem_append.mp member).elim (hrest a) (behind a)

end Gherkin
