import Gherkin.Proofs.Outcome
import Gherkin.Tree.Rows
import Mathlib.Data.List.Nodup

/-!
# Values for parameters

Pairs give each parameter the value of the first pair whose key is its name, and are refused
for the first parameter that no key names. Where several pairs name one parameter there are
several readings of the pairs, and another order of the pairs can bring out each of them.
-/

namespace Gherkin

namespace RowValues

variable {parameters : List Text} {pairs others : List (Text × Text)} {cells : List Text}
  {parameter : Text} {error : Error}

/-- The number of values or of pairs. -/
def count : RowValues → Nat
  | .positional values => values.length
  | .keyed pairs => pairs.length

/-- One of the parameters is named by no pair. -/
def Lacks (pairs : List (Text × Text)) (parameters : List Text) : Prop :=
  ∃ parameter ∈ parameters, ∀ pair ∈ pairs, Text.trim pair.1 ≠ parameter

/-- Whether no pair is for a parameter. -/
def isUnnamed (pairs : List (Text × Text)) (parameter : Text) : Bool :=
  pairs.all fun pair => Text.trim pair.1 != parameter

/-- The value of the first pair for a parameter. -/
def firstValue (pairs : List (Text × Text)) (parameter : Text) : Text :=
  ((pairs.find? fun pair => Text.trim pair.1 == parameter).map fun pair => Text.trim pair.2).getD []

/-- Cells are a reading of pairs if each parameter has the value of one of the pairs for it, and
always the same one. -/
def IsReading (pairs : List (Text × Text)) (parameters cells : List Text) : Prop :=
  ∃ value : Text → Text, cells = parameters.map value ∧ ∀ parameter ∈ parameters,
    ∃ pair ∈ pairs, Text.trim pair.1 = parameter ∧ Text.trim pair.2 = value parameter

/-- Pairs that can be read in several ways. -/
def IsAmbiguous (pairs : List (Text × Text)) (parameters : List Text) : Prop :=
  ∃ cells other, IsReading pairs parameters cells ∧ IsReading pairs parameters other ∧
    cells ≠ other

/-- A value is that of the first pair for a parameter. -/
def IsFirst (pairs : List (Text × Text)) (parameter value : Text) : Prop :=
  ∃ front pair rest, pairs = front ++ pair :: rest ∧
    (∀ other ∈ front, Text.trim other.1 ≠ parameter) ∧ Text.trim pair.1 = parameter ∧
    Text.trim pair.2 = value

/-- Cells are what values come to for some parameters: the trimmed values as they stand, or for
each parameter the trimmed value of the first pair that names it. -/
def LaysOut (parameters cells : List Text) : RowValues → Prop
  | .positional values => values.length = parameters.length ∧ values.map Text.trim = cells
  | .keyed pairs => List.Forall₂ (IsFirst pairs) parameters cells

theorem isUnnamed_iff :
    isUnnamed pairs parameter = true ↔ ∀ pair ∈ pairs, Text.trim pair.1 ≠ parameter := by
  simp [isUnnamed]

theorem valueOf_eq (pairs : List (Text × Text)) (parameter : Text) :
    valueOf pairs parameter =
      if isUnnamed pairs parameter then .error (.argument (.missingValue parameter))
      else .ok (firstValue pairs parameter) := by
  unfold valueOf firstValue
  cases found : pairs.find? fun pair => Text.trim pair.1 == parameter with
  | none =>
    have unnamed : isUnnamed pairs parameter = true := by
      simpa [isUnnamed] using found
    rw [if_pos unnamed]
  | some pair =>
    have member := List.mem_of_find?_eq_some found
    have named : ¬ isUnnamed pairs parameter = true := fun unnamed =>
      isUnnamed_iff.1 unnamed pair member (by simpa using List.find?_some found)
    rw [if_neg named]
    rfl

/-- Pairs are laid out in the order of the parameters, or refused for the first parameter that
has no value. -/
theorem resolve_keyed (parameters : List Text) (pairs : List (Text × Text)) :
    resolve parameters (.keyed pairs) =
      match parameters.find? (isUnnamed pairs) with
      | some parameter => .error (.argument (.missingValue parameter))
      | none => .ok (parameters.map (firstValue pairs)) := by
  change parameters.mapM (valueOf pairs) = _
  induction parameters with
  | nil => rfl
  | cons parameter rest ih =>
    rw [List.mapM_cons, ih, valueOf_eq, List.find?_cons]
    cases isUnnamed pairs parameter with
    | true => rfl
    | false =>
      cases rest.find? (isUnnamed pairs) <;> rfl

theorem resolve_keyed_eq_ok_iff :
    resolve parameters (.keyed pairs) = .ok cells ↔
      (∀ parameter ∈ parameters, isUnnamed pairs parameter = false) ∧
        cells = parameters.map (firstValue pairs) := by
  rw [resolve_keyed]
  cases found : parameters.find? (isUnnamed pairs) with
  | none =>
    have named : ∀ parameter ∈ parameters, isUnnamed pairs parameter = false := by
      simpa using found
    exact ⟨fun same => ⟨named, (Except.ok.inj same).symm⟩, fun both => congrArg _ both.2.symm⟩
  | some parameter =>
    simp only [reduceCtorEq, false_iff]
    rintro ⟨named, -⟩
    have unnamed := List.find?_some found
    rw [named parameter (List.mem_of_find?_eq_some found)] at unnamed
    cases unnamed

theorem isFirst_firstValue (named : isUnnamed pairs parameter = false) :
    IsFirst pairs parameter (firstValue pairs parameter) := by
  unfold firstValue
  cases found : pairs.find? fun pair => Text.trim pair.1 == parameter with
  | none =>
    have unnamed : isUnnamed pairs parameter = true := by
      simpa [isUnnamed] using found
    rw [named] at unnamed
    cases unnamed
  | some pair =>
    obtain ⟨here, front, rest, whole, before⟩ := List.find?_eq_some_iff_append.mp found
    exact ⟨front, pair, rest, whole, by simpa using before, by simpa using here, rfl⟩

theorem IsFirst.eq_firstValue {value : Text} (stated : IsFirst pairs parameter value) :
    isUnnamed pairs parameter = false ∧ value = firstValue pairs parameter := by
  obtain ⟨front, pair, rest, rfl, before, here, rfl⟩ := stated
  have found : (front ++ pair :: rest).find? (fun pair => Text.trim pair.1 == parameter) =
      some pair :=
    List.find?_eq_some_iff_append.mpr
      ⟨by simpa using here, front, rest, rfl, by simpa using before⟩
  refine ⟨?_, by rw [firstValue, found]; rfl⟩
  rw [Bool.eq_false_iff, Ne, isUnnamed_iff]
  exact fun unnamed => unnamed pair (by simp) here

/-- Values are accepted exactly if they can be laid out, and then they are. -/
theorem resolve_eq_ok_iff {values : RowValues} :
    values.resolve parameters = .ok cells ↔ values.LaysOut parameters cells := by
  cases values with
  | positional values =>
    rw [resolve, LaysOut]
    split
    · next even => simp [even]
    · next differs => simp [differs]
  | keyed pairs =>
    rw [resolve_keyed_eq_ok_iff, LaysOut]
    constructor
    · rintro ⟨named, rfl⟩
      rw [List.forall₂_map_right_iff, List.forall₂_same]
      exact fun parameter member => isFirst_firstValue (named parameter member)
    · intro stated
      have each := stated.imp fun _ _ first => first.eq_firstValue
      clear stated
      induction each with
      | nil => exact ⟨List.forall_mem_nil _, rfl⟩
      | cons here _ ih =>
        obtain ⟨named, value⟩ := here
        exact ⟨List.forall_mem_cons.mpr ⟨named, ih.1⟩, congrArg₂ List.cons value ih.2⟩

/-- Values of another number than the parameters are refused, unless they are pairs that name
every parameter all the same. -/
theorem exists_resolve_eq_error_iff {values : RowValues}
    (differs : values.count ≠ parameters.length) :
    (∃ error, values.resolve parameters = .error error) ↔
      ∀ pairs, values = .keyed pairs → Lacks pairs parameters := by
  cases values with
  | positional values =>
    simp only [resolve, reduceCtorEq, false_implies, implies_true, iff_true]
    exact ⟨_, if_neg differs⟩
  | keyed pairs =>
    simp only [keyed.injEq, forall_eq']
    rw [resolve_keyed]
    cases found : parameters.find? (isUnnamed pairs) with
    | none =>
      simp only [reduceCtorEq, exists_false, false_iff]
      rintro ⟨parameter, member, unnamed⟩
      exact List.find?_eq_none.mp found parameter member (isUnnamed_iff.2 unnamed)
    | some parameter =>
      have unnamed := isUnnamed_iff.1 (List.find?_some found)
      exact ⟨fun _ => ⟨parameter, List.mem_of_find?_eq_some found, unnamed⟩, fun _ => ⟨_, rfl⟩⟩

/-- Values are never refused for anything but a misuse. -/
theorem exists_misuse_of_resolve {values : RowValues}
    (refused : values.resolve parameters = .error error) : ∃ misuse, error = .argument misuse := by
  cases values with
  | positional values =>
    simp only [resolve] at refused
    split at refused
    · cases refused
    · cases refused
      exact ⟨_, rfl⟩
  | keyed pairs =>
    rw [resolve_keyed] at refused
    split at refused
    · cases refused
      exact ⟨_, rfl⟩
    · cases refused

/-! ### Pairs in another order -/

theorem isUnnamed_of_perm (reordered : others.Perm pairs) : isUnnamed others = isUnnamed pairs :=
  funext fun _ => reordered.all_eq

/-- Pairs are refused in any order alike. -/
theorem resolve_eq_error_of_perm (reordered : others.Perm pairs)
    (refused : resolve parameters (.keyed pairs) = .error error) :
    resolve parameters (.keyed others) = .error error := by
  rw [resolve_keyed] at refused ⊢
  rw [isUnnamed_of_perm reordered]
  cases found : parameters.find? (isUnnamed pairs) with
  | none => simp [found] at refused
  | some parameter => simpa only [found] using refused

theorem IsReading.of_perm (reordered : others.Perm pairs)
    (reading : IsReading others parameters cells) : IsReading pairs parameters cells := by
  obtain ⟨value, laidOut, each⟩ := reading
  refine ⟨value, laidOut, fun parameter member => ?_⟩
  obtain ⟨pair, inside, stated⟩ := each parameter member
  exact ⟨pair, reordered.mem_iff.mp inside, stated⟩

theorem isReading_of_resolve (resolved : resolve parameters (.keyed pairs) = .ok cells) :
    IsReading pairs parameters cells := by
  obtain ⟨named, rfl⟩ := resolve_keyed_eq_ok_iff.1 resolved
  refine ⟨firstValue pairs, rfl, fun parameter member => ?_⟩
  obtain ⟨front, pair, rest, rfl, _, here, value⟩ := isFirst_firstValue (named parameter member)
  exact ⟨pair, by simp, here, value⟩

/-- Each reading of pairs is what they come to in some order: the pairs that are read come
before the others. -/
theorem IsReading.exists_perm (reading : IsReading pairs parameters cells) :
    ∃ others, others.Perm pairs ∧ resolve parameters (.keyed others) = .ok cells := by
  obtain ⟨value, rfl, each⟩ := reading
  let chosen (pair : Text × Text) : Bool := Text.trim pair.2 == value (Text.trim pair.1)
  have front (parameter : Text) (member : parameter ∈ parameters) :
      ∃ pair ∈ pairs.filter chosen, Text.trim pair.1 = parameter := by
    obtain ⟨pair, inside, rfl, stated⟩ := each parameter member
    exact ⟨pair, List.mem_filter.mpr ⟨inside, beq_iff_eq.mpr stated⟩, rfl⟩
  refine ⟨_, List.filter_append_perm chosen pairs, resolve_keyed_eq_ok_iff.2 ⟨?_, ?_⟩⟩
  · intro parameter member
    obtain ⟨pair, inside, named⟩ := front parameter member
    rw [Bool.eq_false_iff, Ne, isUnnamed_iff]
    exact fun unnamed => unnamed pair (List.mem_append_left _ inside) named
  · refine List.map_congr_left fun parameter member => ?_
    unfold firstValue
    rw [List.find?_append]
    cases found : (pairs.filter chosen).find? fun pair => Text.trim pair.1 == parameter with
    | none =>
      obtain ⟨pair, inside, named⟩ := front parameter member
      exact absurd (beq_iff_eq.mpr named) (List.find?_eq_none.mp found pair inside)
    | some pair =>
      have stated := (List.mem_filter.mp (List.mem_of_find?_eq_some found)).2
      have named : Text.trim pair.1 = parameter := by simpa using List.find?_some found
      rw [← named, Option.some_or, Option.map_some, Option.getD_some]
      exact (beq_iff_eq.mp stated).symm

theorem not_isAmbiguous_iff : ¬ IsAmbiguous pairs parameters ↔
    ∀ cells other, IsReading pairs parameters cells → IsReading pairs parameters other →
      cells = other := by
  constructor
  · intro clear cells other reading another
    by_contra differ
    exact clear ⟨cells, other, reading, another, differ⟩
  · rintro same ⟨cells, other, reading, another, differ⟩
    exact differ (same cells other reading another)

/-- What is made of the values is the same for all orders of the pairs exactly if it is the same
for all readings. -/
theorem map_resolve_of_perm_iff {α : Type} (result : List Text → α) :
    (∀ others, others.Perm pairs → (resolve parameters (.keyed others)).map result =
      (resolve parameters (.keyed pairs)).map result) ↔
    ∀ cells other, IsReading pairs parameters cells → IsReading pairs parameters other →
      result cells = result other := by
  constructor
  · intro same cells other reading another
    obtain ⟨order, reordered, resolved⟩ := reading.exists_perm
    obtain ⟨order', reordered', resolved'⟩ := another.exists_perm
    have outcomes := (same order reordered).trans (same order' reordered').symm
    rw [resolved, resolved'] at outcomes
    exact Except.ok.inj outcomes
  · intro same others reordered
    cases resolved : resolve parameters (.keyed pairs) with
    | error error => rw [resolve_eq_error_of_perm reordered resolved]
    | ok cells =>
      cases again : resolve parameters (.keyed others) with
      | error error =>
        rw [resolve_eq_error_of_perm reordered.symm again] at resolved
        cases resolved
      | ok other =>
        have reading := (isReading_of_resolve again).of_perm reordered
        exact congrArg Except.ok (same other cells reading (isReading_of_resolve resolved))

/-- Keys that differ but for blanks leave one reading at most. -/
theorem not_isAmbiguous_of_nodup (distinct : (pairs.map fun pair => Text.trim pair.1).Nodup)
    (parameters : List Text) : ¬ IsAmbiguous pairs parameters := by
  rintro ⟨cells, other, ⟨value, rfl, each⟩, ⟨value', rfl, each'⟩, differ⟩
  apply differ
  refine List.map_congr_left fun parameter member => ?_
  obtain ⟨pair, inside, named, stated⟩ := each parameter member
  obtain ⟨pair', inside', named', stated'⟩ := each' parameter member
  have same : pair = pair' :=
    List.inj_on_of_nodup_map distinct inside inside' (named.trans named'.symm)
  rw [← stated, ← stated', same]

end RowValues

end Gherkin
