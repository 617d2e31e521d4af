import Gherkin.Proofs.Record.Branch
import Gherkin.Proofs.Tree.Planting
import Gherkin.Proofs.Tree.Views

/-!
# Branches planted piece by piece

A branch can be planted without its children first, and then child by child: where each
child is planted behind the others and attached, the branch stands as if it had been planted
at once.
-/

namespace Gherkin

namespace Branch

variable {α : Type}

theorem places_append (next : NodeId) (front back : List (Branch α)) :
    places next (front ++ back) = places next front ++ places (next + sizes front) back := by
  induction front generalizing next with
  | nil => simp [sizes, places]
  | cons branch rest ih => simp [sizes, places, ih, Nat.add_assoc]

theorem childNodes_append (parent next : NodeId) (front back : List (Branch Origin)) :
    childNodes parent next (front ++ back) =
      childNodes parent next front ++ childNodes parent (next + sizes front) back := by
  induction front generalizing next with
  | nil => simp [sizes, childNodes]
  | cons branch rest ih => simp [sizes, childNodes, ih, Nat.add_assoc]

end Branch

namespace Tree

variable {tree : Tree}

/-! ### Where the nodes of a branch stand -/

section

variable {branch : Branch Origin} {id : NodeId} {parent : Option NodeId}

theorem HoldsFrom.element? (holds : tree.HoldsFrom id (branch.nodes id parent)) :
    tree.element? id = some branch.element := by
  rw [Tree.element?, holds.node?_top]
  cases branch
  rfl

theorem HoldsFrom.parent? (holds : tree.HoldsFrom id (branch.nodes id parent)) :
    tree.parent? id = parent := by
  rw [Tree.parent?, holds.node?_top]
  cases branch
  rfl

theorem HoldsFrom.slot (holds : tree.HoldsFrom id (branch.nodes id parent)) (slot : Slot) :
    tree.slot id slot = ((Branch.places (id + 1) branch.children).filter fun place =>
      place.1.home == some slot).map Prod.snd := by
  rw [Tree.slot, holds.node?_top, ← Links.get_ofPlaces]
  cases branch
  rfl

end

/-! ### Planting -/

theorem plant_eq (tree : Tree) (branch : Branch Origin) :
    tree.plant branch = ⟨(tree.nodes.toList ++ branch.nodes tree.size none).toArray⟩ := by
  simp [plant]

/-- Changes the node behind those in front of it. -/
theorem modify_split {front : List Node} {id : NodeId} (position : front.length = id)
    (back : List Node) (node : Node) (change : Node → Node) :
    Tree.modify ⟨(front ++ node :: back).toArray⟩ id change =
      ⟨(front ++ change node :: back).toArray⟩ := by
  have changed : (front ++ node :: back).modify id change = front ++ change node :: back := by
    subst position
    induction front with
    | nil => rfl
    | cons first rest ih => exact congrArg (first :: ·) ih
  simp [modify, changed]

theorem push_eq_plant (tree : Tree) (origin : Origin) (element : Element) :
    tree.push ⟨element, none, origin.line, origin.record, .empty⟩ =
      tree.plant (.node origin element []) := by
  simp [push, plant, Branch.nodes, Branch.childNodes, Branch.places, Links.ofPlaces]

theorem node?_plant_self (tree : Tree) (branch : Branch Origin) :
    (tree.plant branch).node? tree.size = some (branch.topNode tree.size none) := by
  rw [plant_eq, Branch.nodes_eq_cons]
  simp [node?, size]

theorem kind?_plant_self (tree : Tree) (branch : Branch Origin) :
    (tree.plant branch).kind? tree.size = some branch.kind := by
  rw [kind?, node?_plant_self]
  cases branch
  rfl

theorem parent?_plant_self (tree : Tree) (branch : Branch Origin) :
    (tree.plant branch).parent? tree.size = none := by
  rw [parent?, node?_plant_self]
  cases branch
  rfl

theorem slot_plant_self (tree : Tree) (branch : Branch Origin) (slot : Slot) :
    (tree.plant branch).slot tree.size slot =
      (Links.ofPlaces (Branch.places (tree.size + 1) branch.children)).get slot := by
  rw [Tree.slot, node?_plant_self]
  cases branch
  rfl

theorem size_lt_size_plant (tree : Tree) (branch : Branch Origin) :
    tree.size < (tree.plant branch).size :=
  lt_size_of_kind? (kind?_plant_self tree branch)

/-- Planting a branch with a new topmost node. -/
theorem modify_plant {branch changed : Branch Origin} {change : Node → Node}
    (top : change (branch.topNode tree.size none) = changed.topNode tree.size none)
    (below : branch.children = changed.children) :
    (tree.plant branch).modify tree.size change = tree.plant changed := by
  rw [plant_eq, plant_eq, Branch.nodes_eq_cons, Branch.nodes_eq_cons, ← top, below]
  exact modify_split rfl _ _ change

/-- Attaching a planted branch to the topmost node of the one before it plants the larger
branch. -/
theorem attach_plant {origin : Origin} {element : Element} {siblings : List (Branch Origin)}
    {child : Branch Origin} {slot : Slot} (home : child.kind.home = some slot) :
    ((tree.plant (.node origin element siblings)).plant child).attach tree.size slot
        (tree.plant (.node origin element siblings)).size =
      tree.plant (.node origin element (siblings ++ [child])) := by
  let front := tree.nodes.toList
  let below := Branch.childNodes tree.size (tree.size + 1) siblings
  let top : Node := ⟨element, none, origin.line, origin.record,
    Links.ofPlaces (Branch.places (tree.size + 1) siblings)⟩
  let last := tree.size + 1 + Branch.sizes siblings
  let back := Branch.childNodes last (last + 1) child.children
  let linked : Node := { top with links := top.links.push slot last }
  have start : front.length = tree.size := rfl
  have here (node : Node) : (front ++ node :: below).length = last := by
    simp only [front, below, last, List.length_append, List.length_cons, Array.length_toList,
      Branch.length_childNodes, size]
    omega
  have grown : tree.plant (.node origin element siblings) = ⟨(front ++ top :: below).toArray⟩ :=
    plant_eq ..
  have position : (tree.plant (.node origin element siblings)).size = last := by
    rw [grown, ← here top, size, List.size_toArray]
  have planted : (tree.plant (.node origin element siblings)).plant child =
      ⟨(front ++ top :: (below ++ child.topNode last none :: back)).toArray⟩ := by
    rw [plant_eq, position, Branch.nodes_eq_cons, grown]
    simp [back]
  calc
    _ = Tree.setParent (relink
          ⟨(front ++ top :: (below ++ child.topNode last none :: back)).toArray⟩
          tree.size fun links => links.push slot last) last (some tree.size) := by
      rw [attach_eq, planted, position]
    _ = Tree.setParent ⟨((front ++ linked :: below) ++ child.topNode last none :: back).toArray⟩
          last (some tree.size) := by
      rw [relink, modify_split start, List.append_assoc, List.cons_append]
    _ = ⟨((front ++ linked :: below) ++ child.topNode last (some tree.size) :: back).toArray⟩ := by
      rw [setParent, modify_split (here linked)]
      cases child
      rfl
    _ = tree.plant (.node origin element (siblings ++ [child])) := by
      rw [plant_eq, Branch.nodes, Branch.places_append, Branch.childNodes_append, Branch.places,
        Branch.places, Links.ofPlaces_append_singleton, home, Option.elim_some, Branch.childNodes,
        Branch.childNodes, Branch.nodes_eq_cons last, List.append_nil, List.append_assoc,
        List.cons_append]

theorem not_isAncestor_of_parent?_eq_none {id : NodeId} (alone : tree.parent? id = none)
    (above : NodeId) : tree.isAncestor above id = false := by
  rw [isAncestor, ancestors, alone]
  cases tree.size <;> rfl

theorem isEmpty_slot_plant (tree : Tree) (branch : Branch Origin) (slot : Slot) :
    ((tree.plant branch).slot tree.size slot).isEmpty =
      !branch.children.any fun sibling => sibling.kind.home == some slot := by
  have kinds := congrArg (List.any · fun kind => kind.home == some slot)
    (Branch.map_fst_places (tree.size + 1) branch.children)
  simp only [List.any_map, Function.comp_def] at kinds
  rw [slot_plant_self, Links.get_ofPlaces, List.isEmpty_map, ← kinds, Bool.eq_iff_iff]
  simp

/-- The topmost node of a branch does not change while another one is planted behind it. -/
theorem views_plant_plant (tree : Tree) (origin : Origin) (element : Element)
    (siblings : List (Branch Origin)) (child : Branch Origin) :
    let after := (tree.plant (.node origin element siblings)).plant child
    after.kind? tree.size = some element.kind ∧ after.parent? tree.size = none ∧
      ∀ slot, (after.slot tree.size slot).isEmpty =
        !siblings.any fun sibling => sibling.kind.home == some slot := by
  have kept : ((tree.plant (.node origin element siblings)).plant child).node? tree.size =
      (tree.plant (.node origin element siblings)).node? tree.size :=
    node?_plant_of_lt child (size_lt_size_plant tree _)
  simp only [kind?, parent?, Tree.slot, kept]
  exact ⟨kind?_plant_self tree (.node origin element siblings), parent?_plant_self tree _,
    isEmpty_slot_plant tree (.node origin element siblings)⟩

/-- A planted branch is attached to the topmost node of the one before it where it can be
placed, and refused as it is there. -/
theorem pushChild_plant {origin : Origin} {element : Element} {siblings : List (Branch Origin)}
    {child : Branch Origin} {slot : Slot} (home : child.kind.home = some slot) :
    ((tree.plant (.node origin element siblings)).plant child).pushChild tree.size slot
        (tree.plant (.node origin element siblings)).size =
      (Record.place element.kind slot siblings child).map fun children =>
        tree.plant (.node origin element children) := by
  have attached := @attach_plant tree origin element siblings child slot home
  obtain ⟨parentKind, above, full⟩ := views_plant_plant tree origin element siblings child
  have older := size_lt_size_plant tree (.node origin element siblings)
  set grown := tree.plant (.node origin element siblings)
  have childKind : (grown.plant child).kind? grown.size = some child.kind :=
    kind?_plant_self grown child
  have checked : (grown.plant child).checkChild tree.size element.kind slot grown.size =
      .ok () := by
    rw [checkChild, childKind]
    simp [Slot.accepts, home, not_isAncestor_of_parent?_eq_none above, Nat.ne_of_gt older]
  have stays : (grown.plant child).leave tree.size grown.size = grown.plant child := by
    rw [leave, parent?_plant_self]
  rw [pushChild, parentKind]
  simp only [checked, childKind, full, stays, attached, Record.place, Bool.not_not]
  change (if _ then _ else if _ then _ else _) = _
  split_ifs <;> rfl

theorem setRecord_plant (tree : Tree) (origin : Origin) (element : Element)
    (children : List (Branch Origin)) (record : Record) :
    (tree.plant (.node origin element children)).setRecord tree.size record =
      tree.plant (.node { origin with record := some record } element children) :=
  modify_plant rfl rfl

end Tree

end Gherkin
