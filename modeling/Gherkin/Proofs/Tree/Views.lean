import Gherkin.Tree.Change

/-!
# Views of changed trees

What a change of one node does to the kinds, the parents and the slots of all nodes.
-/

namespace Gherkin

namespace Links

theorem get_set (links : Links) (slot : Slot) (ids : List NodeId) (other : Slot) :
    (links.set slot ids).get other = if other = slot then ids else links.get other := by
  split
  · next same => rw [same, get_set_self]
  · next differ => rw [get_set_of_ne links ids differ]

theorem get_push (links : Links) (slot : Slot) (id : NodeId) (other : Slot) :
    (links.push slot id).get other =
      if other = slot then links.get other ++ [id] else links.get other := by
  rw [push, get_set]
  split
  · next same => rw [same]
  · rfl

theorem ext_get {a b : Links} (same : ∀ slot, a.get slot = b.get slot) : a = b := by
  obtain ⟨left⟩ := a
  obtain ⟨right⟩ := b
  refine congrArg Links.mk (Vector.ext fun i bound => ?_)
  obtain ⟨slot, rfl⟩ : ∃ slot : Slot, (slot.index : Nat) = i := by
    have found : ∀ i : Fin 11, ∃ slot ∈ Slot.all, slot.index = i := by decide
    obtain ⟨slot, -, here⟩ := found ⟨i, bound⟩
    exact ⟨slot, congrArg Fin.val here⟩
  exact same slot

end Links

namespace Tree

variable {tree : Tree} {id parent : NodeId}

theorem ext_node? {a b : Tree} (same : ∀ id, a.node? id = b.node? id) : a = b := by
  cases a
  cases b
  exact congrArg Tree.mk (Array.ext_getElem? same)

theorem isSome_node? : (tree.node? id).isSome = true ↔ id < tree.size := by
  simp [node?, size]

theorem node?_eq_none_of_le (outside : tree.size ≤ id) : tree.node? id = none :=
  Array.getElem?_eq_none outside

theorem lt_size_of_node? {node : Node} (found : tree.node? id = some node) : id < tree.size := by
  refine Nat.lt_of_not_le fun outside => ?_
  simp [node?_eq_none_of_le outside] at found

theorem lt_size_of_kind? {kind : Kind} (found : tree.kind? id = some kind) : id < tree.size := by
  refine Nat.lt_of_not_le fun outside => ?_
  simp [kind?, node?_eq_none_of_le outside] at found

theorem lt_size_of_parent? (found : tree.parent? id = some parent) : id < tree.size := by
  refine Nat.lt_of_not_le fun outside => ?_
  simp [parent?, node?_eq_none_of_le outside] at found

theorem lt_size_of_mem_slot {slot : Slot} {child : NodeId} (member : child ∈ tree.slot id slot) :
    id < tree.size := by
  refine Nat.lt_of_not_le fun outside => ?_
  simp [Tree.slot, node?_eq_none_of_le outside] at member

theorem node?_modify (tree : Tree) (id : NodeId) (change : Node → Node) (other : NodeId) :
    (tree.modify id change).node? other =
      if other = id then (tree.node? id).map change else tree.node? other := by
  split
  · next same => rw [same, node?_modify_self]
  · next differ => rw [node?_modify_of_ne tree change differ]

/-! ### Elements, children and parents of a node -/

/-- Changes the children of a node. -/
def relink (tree : Tree) (id : NodeId) (change : Links → Links) : Tree :=
  tree.modify id fun node => { node with links := change node.links }

/-- Gives a node a parent or none. -/
def setParent (tree : Tree) (id : NodeId) (parent : Option NodeId) : Tree :=
  tree.modify id fun node => { node with parent := parent }

@[simp]
theorem size_relink (tree : Tree) (id : NodeId) (change : Links → Links) :
    (tree.relink id change).size = tree.size :=
  size_modify ..

@[simp]
theorem size_setParent (tree : Tree) (id : NodeId) (parent : Option NodeId) :
    (tree.setParent id parent).size = tree.size :=
  size_modify ..

@[simp]
theorem parent?_relink (tree : Tree) (id : NodeId) (change : Links → Links) (other : NodeId) :
    (tree.relink id change).parent? other = tree.parent? other := by
  rw [parent?, parent?, relink, node?_modify]
  split
  · next same =>
    rw [same, Option.bind_map]
    rfl
  · rfl

theorem parent?_setParent (here : id < tree.size) (parent : Option NodeId) (other : NodeId) :
    (tree.setParent id parent).parent? other =
      if other = id then parent else tree.parent? other := by
  obtain ⟨node, found⟩ := Option.isSome_iff_exists.mp (isSome_node?.2 here)
  rw [parent?, parent?, setParent, node?_modify, found]
  split <;> rfl

@[simp]
theorem slot_setParent (tree : Tree) (id : NodeId) (parent : Option NodeId) (other : NodeId) :
    (tree.setParent id parent).slot other = tree.slot other := by
  funext slot
  rw [Tree.slot, Tree.slot, setParent, node?_modify]
  split
  · next same =>
    rw [same, Option.map_map]
    rfl
  · rfl

theorem slot_relink_of_ne {other : NodeId} (differ : other ≠ id) (tree : Tree)
    (change : Links → Links) : (tree.relink id change).slot other = tree.slot other := by
  funext slot
  rw [Tree.slot, Tree.slot, relink, node?_modify_of_ne tree _ differ]

theorem slot_relink_self (here : id < tree.size) {change : Links → Links} {slot : Slot}
    (edit : List NodeId → List NodeId)
    (effect : ∀ links, (change links).get slot = edit (links.get slot)) :
    (tree.relink id change).slot id slot = edit (tree.slot id slot) := by
  obtain ⟨node, found⟩ := Option.isSome_iff_exists.mp (isSome_node?.2 here)
  rw [Tree.slot, Tree.slot, relink, node?_modify_self, found]
  exact effect node.links

/-- What a change of one slot does to all slots. -/
theorem slot_relink (here : id < tree.size) {change : Links → Links} {slot : Slot}
    (edit : List NodeId → List NodeId)
    (effect : ∀ links other, (change links).get other =
      if other = slot then edit (links.get other) else links.get other)
    (node : NodeId) (other : Slot) :
    (tree.relink id change).slot node other =
      if node = id ∧ other = slot then edit (tree.slot node other) else tree.slot node other := by
  by_cases itself : node = id
  · subst itself
    by_cases same : other = slot
    · rw [if_pos ⟨rfl, same⟩]
      exact slot_relink_self here edit fun links => by rw [effect, if_pos same]
    · rw [if_neg fun both => same both.2]
      exact slot_relink_self here (fun ids => ids) fun links => by rw [effect, if_neg same]
  · rw [slot_relink_of_ne itself, if_neg fun both => itself both.1]

/-- A child that is not there is taken out of its slot without effect. -/
theorem filter_bne_of_not_mem {ids : List NodeId} {child : NodeId} (absent : child ∉ ids) :
    (ids.filter fun other => other != child) = ids := by
  refine List.filter_eq_self.mpr fun other member => ?_
  rw [bne_iff_ne]
  rintro rfl
  exact absent member

theorem slot_relink_erase (tree : Tree) (parent child id : NodeId) (slot : Slot) :
    (tree.relink parent fun links => links.erase child).slot id slot =
      if id = parent then (tree.slot id slot).filter fun other => other != child
      else tree.slot id slot := by
  split
  · next same =>
    rw [same, Tree.slot, Tree.slot, relink, node?_modify_self]
    cases tree.node? parent with
    | none => rfl
    | some node => exact Links.get_erase ..
  · next differ => rw [slot_relink_of_ne differ]

/-! ### What nodes say by themselves -/

/-- What a node says without its parent and its children. -/
def content? (tree : Tree) (id : NodeId) : Option (Element × Option Nat × Option Record) :=
  (tree.node? id).map fun node => (node.element, node.line, node.record)

theorem kind?_of_content? {a b : Tree} (same : a.content? id = b.content? id) :
    a.kind? id = b.kind? id := by
  have kinds := congrArg (Option.map fun content => content.1.kind) same
  unfold content? at kinds
  rwa [Option.map_map, Option.map_map] at kinds

theorem lt_size_of_content? {a b : Tree} (same : a.content? id = b.content? id)
    (here : id < b.size) : id < a.size := by
  have present := congrArg Option.isSome same
  simp only [content?, Option.isSome_map] at present
  rwa [← isSome_node?, present, isSome_node?]

/-- Trees are the same if their nodes say the same and have the same parents and children. -/
theorem ext_views {a b : Tree} (contents : ∀ id, a.content? id = b.content? id)
    (parents : ∀ id, a.parent? id = b.parent? id)
    (slots : ∀ id slot, a.slot id slot = b.slot id slot) : a = b := by
  refine ext_node? fun id => ?_
  have content := contents id
  have parent := parents id
  have links := slots id
  unfold content? at content
  unfold parent? at parent
  unfold Tree.slot at links
  cases left : a.node? id with
  | none =>
    cases right : b.node? id with
    | none => rfl
    | some node => simp [left, right] at content
  | some node =>
    cases right : b.node? id with
    | none => simp [left, right] at content
    | some other =>
      simp only [left, right, Option.map_some, Option.bind_some, Option.some.injEq,
        Prod.mk.injEq, Option.getD_some] at content parent links
      obtain ⟨element, line, record⟩ := content
      cases node
      cases other
      cases element
      cases line
      cases record
      cases parent
      cases Links.ext_get links
      rfl

@[simp]
theorem content?_relink (tree : Tree) (id : NodeId) (change : Links → Links) (other : NodeId) :
    (tree.relink id change).content? other = tree.content? other := by
  rw [content?, content?, relink, node?_modify]
  split
  · next same =>
    rw [same, Option.map_map]
    rfl
  · rfl

@[simp]
theorem content?_setParent (tree : Tree) (id : NodeId) (parent : Option NodeId)
    (other : NodeId) : (tree.setParent id parent).content? other = tree.content? other := by
  rw [content?, content?, setParent, node?_modify]
  split
  · next same =>
    rw [same, Option.map_map]
    rfl
  · rfl

/-! ### Adding a node -/

theorem node?_size (tree : Tree) : tree.node? tree.size = none :=
  node?_eq_none_of_le (Nat.le_refl _)

theorem node?_push (tree : Tree) (node : Node) (id : NodeId) :
    (tree.push node).node? id = if id = tree.size then some node else tree.node? id :=
  Array.getElem?_push

theorem kind?_push_self (tree : Tree) (node : Node) :
    (tree.push node).kind? tree.size = some node.kind := by
  rw [kind?, node?_push, if_pos rfl, Option.map_some]

theorem kind?_push_of_lt (here : id < tree.size) (node : Node) :
    (tree.push node).kind? id = tree.kind? id := by
  rw [kind?, kind?, node?_push, if_neg (Nat.ne_of_lt here)]

theorem parent?_push {node : Node} (bare : node.parent = none) (tree : Tree) (id : NodeId) :
    (tree.push node).parent? id = tree.parent? id := by
  rw [parent?, parent?, node?_push]
  split
  · next same => rw [same, node?_size, Option.bind_some, bare, Option.bind_none]
  · rfl

theorem parent?_add_size (tree : Tree) (element : Element) :
    (tree.add element).parent? tree.size = none := by
  refine (parent?_push rfl tree tree.size).trans ?_
  rw [parent?, node?_size, Option.bind_none]

theorem slot_push {node : Node} (bare : node.links = .empty) (tree : Tree) (id : NodeId) :
    (tree.push node).slot id = tree.slot id := by
  funext slot
  rw [Tree.slot, Tree.slot, node?_push]
  split
  · next same =>
    rw [same, node?_size, Option.map_some, bare, Links.get_empty]
    rfl
  · rfl

/-! ### Attaching and detaching -/

theorem adopt_eq (tree : Tree) (parent child : NodeId) :
    tree.adopt parent child = tree.setParent child (some parent) := rfl

theorem attach_eq (tree : Tree) (parent : NodeId) (slot : Slot) (child : NodeId) :
    tree.attach parent slot child =
      (tree.relink parent fun links => links.push slot child).setParent child (some parent) := rfl

theorem detach_of_parent?_eq_none {child : NodeId} (alone : tree.parent? child = none) :
    tree.detach child = tree := by
  rw [detach, alone]

theorem detach_eq {child : NodeId} (found : tree.parent? child = some parent) :
    tree.detach child =
      (tree.relink parent fun links => links.erase child).setParent child none := by
  rw [detach, found]
  rfl

theorem slot_attach (here : parent < tree.size) (slot : Slot) (child id : NodeId)
    (other : Slot) :
    (tree.attach parent slot child).slot id other =
      if id = parent ∧ other = slot then tree.slot id other ++ [child]
      else tree.slot id other := by
  rw [attach_eq, slot_setParent]
  exact slot_relink here (· ++ [child]) (Links.get_push · slot child) id other

theorem parent?_detach (tree : Tree) (child id : NodeId) :
    (tree.detach child).parent? id = if id = child then none else tree.parent? id := by
  cases found : tree.parent? child with
  | none =>
    rw [detach_of_parent?_eq_none found]
    split
    · next same => rw [same, found]
    · rfl
  | some parent =>
    have here : child < tree.size := lt_size_of_parent? found
    rw [detach_eq found, parent?_setParent (by simpa), parent?_relink]

theorem content?_detach (tree : Tree) (child id : NodeId) :
    (tree.detach child).content? id = tree.content? id := by
  cases found : tree.parent? child with
  | none => rw [detach_of_parent?_eq_none found]
  | some parent => rw [detach_eq found, content?_setParent, content?_relink]

theorem kind?_detach (tree : Tree) (child id : NodeId) :
    (tree.detach child).kind? id = tree.kind? id :=
  kind?_of_content? (content?_detach tree child id)

theorem slot_detach {child : NodeId} (found : tree.parent? child = some parent) (id : NodeId)
    (slot : Slot) :
    (tree.detach child).slot id slot =
      if id = parent then (tree.slot id slot).filter fun other => other != child
      else tree.slot id slot := by
  rw [detach_eq found, slot_setParent, slot_relink_erase]

end Tree

end Gherkin
