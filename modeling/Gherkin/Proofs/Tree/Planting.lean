import Gherkin.Proofs.Branch
import Gherkin.Tree.Planting
import Mathlib.Data.List.Induction

/-!
# Planted branches

A branch that is planted stands in the tree with the children of each node taken slot
by slot: each node has the element and the line of its branch. So a branch whose children
are grouped by their slots stands there as it was.
-/

namespace Gherkin

namespace Links

/-- The last child joins the others in the slot where it lives. -/
theorem ofPlaces_append_singleton (places : List (Kind × NodeId)) (place : Kind × NodeId) :
    ofPlaces (places ++ [place]) =
      place.1.home.elim (ofPlaces places) fun slot => (ofPlaces places).push slot place.2 := by
  rw [ofPlaces, List.foldl_append, List.foldl_cons, List.foldl_nil, ← ofPlaces]
  cases place.1.home <;> rfl

theorem get_ofPlaces (places : List (Kind × NodeId)) (slot : Slot) :
    (ofPlaces places).get slot =
      (places.filter fun place => place.1.home == some slot).map Prod.snd := by
  induction places using List.reverseRecOn with
  | nil => simp [ofPlaces]
  | append_singleton before place ih =>
      rw [ofPlaces_append_singleton, List.filter_append, List.map_append, ← ih]
      cases home : place.1.home with
      | none => simp [home]
      | some other =>
          by_cases same : other = slot
          · subst same
            simp [home, push]
          · simp [home, push, same, get_set_of_ne _ _ (Ne.symm same)]

end Links

namespace Branch

variable {α : Type}

theorem map_fst_places (next : NodeId) (branches : List (Branch α)) :
    (places next branches).map Prod.fst = branches.map kind := by
  induction branches generalizing next with
  | nil => rfl
  | cons branch rest ih => simp [places, ih]

/-- The children of a planted node are its branches in order. -/
theorem children_ofPlaces {kind : Kind} {children : List (Branch α)}
    (grouped : Grouped kind children) (next : NodeId) :
    kind.slots.flatMap (Links.ofPlaces (places next children)).get =
      (places next children).map Prod.snd := by
  obtain ⟨count, homes⟩ := grouped_iff.mp grouped
  have replicated : (places next children).map (fun place => place.1.home) =
      kind.slots.flatMap fun slot => List.replicate (count slot) (some slot) := by
    have kinds := congrArg (List.map Kind.home) (map_fst_places next children)
    rw [List.map_map, List.map_map] at kinds
    exact kinds.trans homes
  have taken := flatMap_filter_homes (fun place : Kind × NodeId => place.1.home)
    (nodup_slots kind) _ replicated
  conv_rhs => rw [← taken, List.map_flatMap]
  exact List.flatMap_congr fun slot _ => Links.get_ofPlaces _ slot

/-- The topmost node of a planted branch. -/
def topNode (id : NodeId) (parent : Option NodeId) : Branch Origin → Node
  | .node origin element children =>
    ⟨element, parent, origin.line, origin.record, Links.ofPlaces (places (id + 1) children)⟩

theorem nodes_eq_cons (id : NodeId) (parent : Option NodeId) (branch : Branch Origin) :
    branch.nodes id parent =
      branch.topNode id parent :: childNodes id (id + 1) branch.children := by
  cases branch
  rfl

mutual

/-- A branch with the children of each node taken slot by slot. -/
def bySlots : Branch α → Branch α
  | .node label element children =>
    .node label element (element.kind.slots.flatMap fun slot =>
      (bySlotsAll children).filter fun child => child.kind.home == some slot)

/-- Branches with the children of each node taken slot by slot. -/
def bySlotsAll : List (Branch α) → List (Branch α)
  | [] => []
  | branch :: rest => bySlots branch :: bySlotsAll rest

end

theorem bySlots_node (label : α) (element : Element) (children : List (Branch α)) :
    (node label element children).bySlots =
      .node label element (element.kind.slots.flatMap fun slot =>
        (children.map bySlots).filter fun child => child.kind.home == some slot) := by
  have all (branches : List (Branch α)) : bySlotsAll branches = branches.map bySlots := by
    induction branches with
    | nil => rfl
    | cons branch rest ih => rw [bySlotsAll, ih, List.map_cons]
  rw [bySlots, all]

theorem kind_bySlots (branch : Branch α) : branch.bySlots.kind = branch.kind := by
  obtain ⟨label, element, children⟩ := branch
  rw [bySlots_node]
  rfl

/-- A branch with grouped children has them slot by slot. -/
theorem Arranged.bySlots_eq {branch : Branch α} (arranged : branch.Arranged) :
    branch.bySlots = branch := by
  induction arranged with
  | @node label element children grouped _ ih =>
    obtain ⟨count, homes⟩ := grouped_iff.mp grouped
    have same : children.map bySlots = children := (List.map_congr_left ih).trans (List.map_id _)
    rw [bySlots_node, same]
    exact congrArg _ (flatMap_filter_homes (fun child : Branch α => child.kind.home)
      (nodup_slots _) count homes)

end Branch

namespace Tree

/-- The line of source text a node was read from. -/
def line? (tree : Tree) (id : NodeId) : Option Nat := (tree.node? id).bind Node.line

/-- A node with all that is below it, each node with its line. -/
def linedBranch? (tree : Tree) (id : NodeId) : Option (Branch (Option Nat)) :=
  (tree.branch? id).map (Branch.map tree.line?)

/-- The nodes from a position on are those of a list. -/
def HoldsFrom (tree : Tree) (start : NodeId) (nodes : List Node) : Prop :=
  ∀ i < nodes.length, tree.node? (start + i) = nodes[i]?

theorem HoldsFrom.append_left {tree : Tree} {start : NodeId} {front back : List Node}
    (holds : tree.HoldsFrom start (front ++ back)) : tree.HoldsFrom start front := by
  intro i bound
  rw [holds i (by rw [List.length_append]; omega), List.getElem?_append_left bound]

theorem HoldsFrom.append_right {tree : Tree} {start : NodeId} {front back : List Node}
    (holds : tree.HoldsFrom start (front ++ back)) :
    tree.HoldsFrom (start + front.length) back := by
  intro i bound
  have here := holds (front.length + i) (by rw [List.length_append]; omega)
  rw [← Nat.add_assoc] at here
  rw [here, List.getElem?_append_right (Nat.le_add_right _ _), Nat.add_sub_cancel_left]

theorem size_le_sizes {α : Type} {branch : Branch α} {branches : List (Branch α)}
    (member : branch ∈ branches) : branch.size ≤ Branch.sizes branches := by
  induction branches with
  | nil => exact absurd member List.not_mem_nil
  | cons first rest ih =>
      rw [Branch.sizes]
      rcases List.mem_cons.mp member with rfl | later
      · exact Nat.le_add_right _ _
      · exact Nat.le_trans (ih later) (Nat.le_add_left _ _)

section

variable {tree : Tree} {branch : Branch Origin} {id : NodeId} {parent : Option NodeId}

theorem HoldsFrom.node?_top (holds : tree.HoldsFrom id (branch.nodes id parent)) :
    tree.node? id = some (branch.topNode id parent) := by
  rw [Branch.nodes_eq_cons] at holds
  exact holds 0 (Nat.succ_pos _)

theorem HoldsFrom.children (holds : tree.HoldsFrom id (branch.nodes id parent)) :
    tree.HoldsFrom (id + 1) (Branch.childNodes id (id + 1) branch.children) := by
  rw [Branch.nodes_eq_cons] at holds
  exact (show tree.HoldsFrom id ([_] ++ _) from holds).append_right

theorem HoldsFrom.line? (holds : tree.HoldsFrom id (branch.nodes id parent)) :
    tree.line? id = branch.label.line := by
  rw [Tree.line?, holds.node?_top]
  cases branch
  rfl

/-- Where the nodes of some children stand, the children in a slot are found. -/
theorem filterMap_branchWithin {children : List (Branch Origin)} {depth next : Nat}
    (each : ∀ child ∈ children, ∀ start, tree.HoldsFrom start (child.nodes start (some id)) →
      (tree.branchWithin depth start).map (Branch.map tree.line?) =
        some (child.bySlots.map Origin.line))
    (holds : tree.HoldsFrom next (Branch.childNodes id next children)) (slot : Slot) :
    (((((Branch.places next children).filter fun place => place.1.home == some slot).map
      Prod.snd).filterMap (tree.branchWithin depth)).map (Branch.map tree.line?)) =
        ((children.map Branch.bySlots).filter fun child => child.kind.home == some slot).map
          (Branch.map Origin.line) := by
  induction children generalizing next with
  | nil => rfl
  | cons child rest ih =>
    rw [Branch.childNodes] at holds
    have behind := holds.append_right
    rw [Branch.length_nodes] at behind
    have later := ih (fun other member => each other (List.mem_cons_of_mem _ member)) behind
    have here := each child List.mem_cons_self next holds.append_left
    rw [Branch.places, List.map_cons, List.filter_cons, List.filter_cons, Branch.kind_bySlots]
    split
    · obtain ⟨found, read, same⟩ := Option.map_eq_some_iff.mp here
      rw [List.map_cons, List.filterMap_cons, read, List.map_cons, List.map_cons, same, later]
    · exact later

/-- Where the nodes of a branch stand, it is found with the children of each node slot by slot. -/
theorem branchWithin_bySlots {depth : Nat} (holds : tree.HoldsFrom id (branch.nodes id parent))
    (deep : branch.size ≤ depth) :
    (tree.branchWithin depth id).map (Branch.map tree.line?) =
      some (branch.bySlots.map Origin.line) := by
  induction branch using Branch.induction generalizing id depth parent with
  | node origin element children ih =>
    rw [Branch.size] at deep
    obtain ⟨depth, rfl⟩ : ∃ more, depth = more + 1 := ⟨depth - 1, by omega⟩
    have shallow : Branch.sizes children ≤ depth := by omega
    have below := filterMap_branchWithin (fun child member start stands =>
      ih child member stands (Nat.le_trans (size_le_sizes member) shallow)) holds.children
    have order : (Branch.topNode id parent (.node origin element children)).children =
        element.kind.slots.flatMap fun slot => ((Branch.places (id + 1) children).filter
          fun place => place.1.home == some slot).map Prod.snd :=
      List.flatMap_congr fun slot _ => Links.get_ofPlaces _ slot
    have lined : tree.line? id = origin.line := holds.line?
    rw [branchWithin, holds.node?_top, Option.map_some, Option.map_some, Branch.map_node, order,
      lined, List.filterMap_flatMap, List.map_flatMap, Branch.bySlots_node, Branch.map_node,
      List.map_flatMap]
    exact congrArg _ (congrArg _ (List.flatMap_congr fun slot _ => below slot))

end

/-- The nodes of a planted branch stand behind those that were there. -/
theorem holdsFrom_plant (tree : Tree) (branch : Branch Origin) :
    (tree.plant branch).HoldsFrom tree.size (branch.nodes tree.size none) := by
  intro i bound
  simp only [plant, node?, size]
  rw [Array.getElem?_append_right (Nat.le_add_right _ _), Nat.add_sub_cancel_left,
    List.getElem?_toArray]

/-- A planted branch stands in the tree with its elements and lines. -/
theorem linedBranch?_plant {branch : Branch Origin} (arranged : branch.Arranged) (tree : Tree) :
    (tree.plant branch).linedBranch? tree.size = some (branch.map Origin.line) := by
  have deep : branch.size ≤ (tree.plant branch).size := by
    rw [size_plant]
    exact Nat.le_add_left _ _
  have found := branchWithin_bySlots (tree.holdsFrom_plant branch) deep
  rwa [arranged.bySlots_eq] at found

end Tree

end Gherkin
