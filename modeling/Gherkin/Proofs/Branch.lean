import Gherkin.Branch
import Mathlib.Data.List.Forall2

/-!
# Branches and their children

A branch is a tree of unbounded width, so what holds of all branches is shown from
what holds of the children of one. The children of a well-formed branch are grouped
by the slots they live in.
-/

namespace Gherkin

/-- Whether elements of a kind have a path. -/
def Kind.hasPath : Kind → Bool
  | .directory | .featureFile => true
  | _ => false

theorem Kind.ne_directory {kind : Kind} (file : kind.hasPath = false) : kind ≠ .directory := by
  rintro rfl
  cases file

/-- Only directories have children with a path. -/
theorem Kind.hasPath_of_home {kind child : Kind} {slot : Slot} (file : kind ≠ .directory)
    (owned : slot ∈ kind.slots) (home : child.home = some slot) : child.hasPath = false := by
  cases child with
  | directory | featureFile =>
    cases home
    cases kind <;> first | exact absurd rfl file | exact absurd owned (by decide)
  | _ => rfl

namespace Branch

variable {α β γ : Type}

/-- Induction over a branch, from its children to itself. -/
theorem induction {motive : Branch α → Prop}
    (node : ∀ label element children, (∀ child ∈ children, motive child) →
      motive (.node label element children)) : (branch : Branch α) → motive branch
  | .node label element children => node label element children fun child member =>
      have : sizeOf child < 1 + sizeOf label + sizeOf element + sizeOf children :=
        Nat.lt_of_lt_of_le (List.sizeOf_lt_of_mem member) (Nat.le_add_left _ _)
      induction node child
termination_by branch => sizeOf branch

mutual

/-- A branch with other labels. -/
def map (f : α → β) : Branch α → Branch β
  | .node label element children => .node (f label) element (mapAll f children)

/-- Branches with other labels. -/
def mapAll (f : α → β) : List (Branch α) → List (Branch β)
  | [] => []
  | branch :: rest => map f branch :: mapAll f rest

end

theorem mapAll_eq_map (f : α → β) (branches : List (Branch α)) :
    mapAll f branches = branches.map (map f) := by
  induction branches with
  | nil => rfl
  | cons branch rest ih => rw [mapAll, ih, List.map_cons]

@[simp]
theorem map_node (f : α → β) (label : α) (element : Element) (children : List (Branch α)) :
    (node label element children).map f = .node (f label) element (children.map (map f)) := by
  rw [map, mapAll_eq_map]

@[simp]
theorem element_map (f : α → β) (branch : Branch α) : (branch.map f).element = branch.element := by
  cases branch
  rfl

@[simp]
theorem kind_map (f : α → β) (branch : Branch α) : (branch.map f).kind = branch.kind := by
  rw [kind, element_map, kind]

theorem map_map (f : α → β) (g : β → γ) (branch : Branch α) :
    (branch.map f).map g = branch.map (g ∘ f) := by
  induction branch using induction with
  | node label element children ih =>
      simp only [map_node, List.map_map, node.injEq, Function.comp_apply, true_and]
      exact List.map_congr_left ih

/-- What a branch holds, whatever its labels are. -/
def content (branch : Branch α) : Branch Unit := branch.map fun _ => ()

/-- An element has the content of its parts, whatever its label is. -/
theorem content_node_eq {label : α} {label' : β} (element : Element)
    {children : List (Branch α)} {children' : List (Branch β)}
    (same : children.map content = children'.map content) :
    (node label element children).content = (node label' element children').content := by
  rw [content, content, map_node, map_node]
  exact congrArg _ same

theorem content_map (f : α → β) (branch : Branch α) : (branch.map f).content = branch.content :=
  map_map f _ branch

/-! ## Saying the same -/

theorem agrees_refl (element : Element) : element.agrees element = true := by
  cases element <;> simp [Element.agrees, Path.same]

theorem allSame_iff {as : List (Branch α)} {bs : List (Branch β)} :
    allSame as bs = true ↔ List.Forall₂ (fun a b => same a b = true) as bs := by
  induction as generalizing bs with
  | nil => cases bs <;> simp [allSame]
  | cons a as ih => cases bs <;> simp [allSame, ih]

theorem same_node_iff {label : α} {element : Element} {children : List (Branch α)} {label' : β}
    {element' : Element} {children' : List (Branch β)} :
    (node label element children).same (node label' element' children') = true ↔
      element.agrees element' = true ∧
        List.Forall₂ (fun a b => same a b = true) children children' := by
  rw [same, Bool.and_eq_true, allSame_iff]

/-- Branches of the same content say the same. -/
theorem same_of_content_eq {a : Branch α} {b : Branch β} (same : a.content = b.content) :
    a.same b = true := by
  induction a using induction generalizing b with
  | node label element children ih =>
      obtain ⟨label', element', children'⟩ := b
      simp only [content, map_node, node.injEq, true_and] at same
      obtain ⟨rfl, below⟩ := same
      refine same_node_iff.2 ⟨agrees_refl element, ?_⟩
      induction children generalizing children' with
      | nil =>
          rw [List.map_nil, eq_comm, List.map_eq_nil_iff] at below
          rw [below]
          exact .nil
      | cons child rest rest_ih =>
          rw [List.map_cons, eq_comm, List.map_eq_cons_iff] at below
          obtain ⟨other, others, rfl, here, later⟩ := below
          exact .cons (ih child List.mem_cons_self here.symm)
            (rest_ih (fun one member => ih one (List.mem_cons_of_mem _ member)) others later.symm)

/-! ## Children by their slots -/

/-- Taking children slot by slot changes nothing when they are grouped by slots. -/
theorem flatMap_filter_homes {ι : Type} (home : ι → Option Slot) {slots : List Slot}
    (distinct : slots.Nodup) (count : Slot → Nat) {items : List ι}
    (grouped : items.map home = slots.flatMap fun slot => List.replicate (count slot) (some slot)) :
    slots.flatMap (fun slot => items.filter fun item => home item == some slot) = items := by
  induction slots generalizing items with
  | nil => simpa [eq_comm] using grouped
  | cons slot rest ih =>
      obtain ⟨other, distinct⟩ := List.nodup_cons.mp distinct
      rw [List.flatMap_cons] at grouped
      obtain ⟨front, back, rfl, here, later⟩ := List.map_eq_append_iff.mp grouped
      have inFront : ∀ item ∈ front, home item = some slot := by
        intro item member
        exact List.eq_of_mem_replicate (here ▸ List.mem_map_of_mem member)
      have inBack : ∀ item ∈ back, ∃ next ∈ rest, home item = some next := by
        intro item member
        have found := later ▸ List.mem_map_of_mem (f := home) member
        obtain ⟨next, inside, same⟩ := List.mem_flatMap.mp found
        exact ⟨next, inside, List.eq_of_mem_replicate same⟩
      have kept : front.filter (fun item => home item == some slot) = front :=
        List.filter_eq_self.mpr fun item member => by simp [inFront item member]
      have none : back.filter (fun item => home item == some slot) = [] := by
        refine List.filter_eq_nil_iff.mpr fun item member => ?_
        obtain ⟨next, inside, same⟩ := inBack item member
        have differ : next ≠ slot := fun equal => other (equal ▸ inside)
        simp [same, differ]
      have passed : rest.flatMap (fun next => (front ++ back).filter fun item =>
          home item == some next) =
          rest.flatMap (fun next => back.filter fun item => home item == some next) := by
        refine List.flatMap_congr fun next inside => ?_
        have differ : slot ≠ next := fun equal => other (equal ▸ inside)
        rw [List.filter_append, List.append_left_eq_self, List.filter_eq_nil_iff]
        intro item member
        simp [inFront item member, differ]
      rw [List.flatMap_cons, passed, ih distinct later, List.filter_append, kept, none,
        List.append_nil]

theorem nodup_slots (kind : Kind) : kind.slots.Nodup := by cases kind <;> decide

/-- The children of an element of a kind are grouped by the slots they live in. -/
def Grouped (kind : Kind) (children : List (Branch α)) : Prop :=
  ∃ group : Slot → List (Branch α), children = kind.slots.flatMap group ∧
    ∀ slot, ∀ child ∈ group slot, child.kind.home = some slot

/-- Parts that live in the slots of a kind, one part a slot, make up its children. -/
theorem grouped_of_parts {kind : Kind} (parts : List (Slot × List (Branch α)))
    {children : List (Branch α)} (slots : parts.map Prod.fst = kind.slots)
    (homes : ∀ part ∈ parts, ∀ child ∈ part.2, child.kind.home = some part.1)
    (whole : parts.flatMap Prod.snd = children) : Grouped kind children := by
  subst whole
  refine ⟨fun slot => (parts.filter fun part => some part.1 == some slot).flatMap Prod.snd, ?_, ?_⟩
  · have single : parts.map (fun part => some part.1) =
        kind.slots.flatMap fun slot => List.replicate 1 (some slot) := by
      rw [← slots, List.flatMap_map, List.map_eq_flatMap]
      rfl
    have taken := flatMap_filter_homes _ (nodup_slots kind) _ single
    conv_lhs => rw [← taken]
    rw [List.flatMap_assoc]
  · intro slot child member
    obtain ⟨part, inside, here⟩ := List.mem_flatMap.mp member
    obtain ⟨inside, same⟩ := List.mem_filter.mp inside
    rw [homes part inside child here]
    simpa using same

/-- Whether children are grouped can be told from the slots they live in. -/
theorem grouped_iff {kind : Kind} {children : List (Branch α)} :
    Grouped kind children ↔ ∃ count : Slot → Nat, children.map (fun child => child.kind.home) =
      kind.slots.flatMap fun slot => List.replicate (count slot) (some slot) := by
  constructor
  · rintro ⟨group, rfl, homes⟩
    refine ⟨fun slot => (group slot).length, ?_⟩
    rw [List.map_flatMap]
    refine List.flatMap_congr fun slot _ => ?_
    rw [List.eq_replicate_iff]
    refine ⟨List.length_map _, fun home member => ?_⟩
    obtain ⟨child, inside, rfl⟩ := List.mem_map.mp member
    exact homes slot child inside
  · rintro ⟨count, grouped⟩
    refine ⟨fun slot => children.filter fun child => child.kind.home == some slot, ?_, ?_⟩
    · exact (flatMap_filter_homes _ (nodup_slots kind) count grouped).symm
    · exact fun slot child member => by simpa using (List.mem_filter.mp member).2

theorem Grouped.of_kinds {kind : Kind} {as : List (Branch α)} {bs : List (Branch β)}
    (grouped : Grouped kind as) (same : bs.map Branch.kind = as.map Branch.kind) :
    Grouped kind bs := by
  obtain ⟨count, homes⟩ := grouped_iff.1 grouped
  refine grouped_iff.2 ⟨count, homes ▸ ?_⟩
  have mapped := congrArg (List.map Kind.home) same
  rwa [List.map_map, List.map_map] at mapped

/-- The children of every node are grouped. -/
inductive Arranged : Branch α → Prop where
  | node {label element children} : Grouped (Element.kind element) children →
      (∀ child ∈ children, Arranged child) → Arranged (.node label element children)

theorem arranged_map_iff {f : α → β} {branch : Branch α} :
    (branch.map f).Arranged ↔ branch.Arranged := by
  induction branch using induction with
  | node label element children ih =>
      have kinds : (children.map (map f)).map kind = children.map kind := by
        rw [List.map_map]
        exact List.map_congr_left fun child _ => kind_map f child
      rw [map_node]
      constructor
      · rintro ⟨grouped, each⟩
        exact .node (grouped.of_kinds kinds.symm) fun child member =>
          (ih child member).mp (each _ (List.mem_map_of_mem member))
      · rintro ⟨grouped, each⟩
        exact .node (grouped.of_kinds kinds) (List.forall_mem_map.mpr fun child member =>
          (ih child member).mpr (each child member))

theorem Arranged.of_content {branch : Branch α} {other : Branch β} (arranged : other.Arranged)
    (same : branch.content = other.content) : branch.Arranged := by
  have content : other.content.Arranged := arranged_map_iff.2 arranged
  exact arranged_map_iff.1 (same ▸ content)

end Branch

end Gherkin
