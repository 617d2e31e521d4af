import Gherkin.Proofs.Tree.Ancestry
import Gherkin.Proofs.Tree.Slots

/-!
# Linked trees

In a linked tree parents and slots say the same: a node is in a slot of exactly its parent,
once, and in the slot it can live in, and no node lies above itself. Taking a node away from
its parent keeps a tree linked, and so does putting nodes without a parent into a slot that
takes them, where none of them lies above the slot.
-/

namespace Gherkin

theorem Slot.nodup_all : Slot.all.Nodup := by decide

namespace Tree

open Relation

variable {tree after : Tree} {id parent child : NodeId} {slot : Slot}

/-- A slot of a node can hold a child. -/
structure Holds (tree : Tree) (parent : NodeId) (slot : Slot) (child : NodeId) : Prop where
  owner : ∃ kind, tree.kind? parent = some kind ∧ slot ∈ kind.slots
  home : ∃ kind, tree.kind? child = some kind ∧ kind.home = some slot

/-- Parents and slots say the same, and no node lies above itself. -/
structure Linked (tree : Tree) : Prop where
  mem_slot_iff : ∀ parent child, (∃ slot, child ∈ tree.slot parent slot) ↔
    tree.HasParent child parent
  nodup : ∀ parent slot, (tree.slot parent slot).Nodup
  holds : ∀ parent slot, ∀ child ∈ tree.slot parent slot, tree.Holds parent slot child
  single : ∀ parent slot, slot.isSingle = true → (tree.slot parent slot).length ≤ 1
  acyclic : tree.Acyclic

/-- The children in all slots of all nodes. -/
def stored (tree : Tree) : List NodeId :=
  (List.range tree.size).flatMap fun parent => Slot.all.flatMap (tree.slot parent)

namespace Linked

theorem hasParent (linked : tree.Linked) (member : child ∈ tree.slot parent slot) :
    tree.HasParent child parent :=
  (linked.mem_slot_iff parent child).mp ⟨slot, member⟩

theorem lt_size (linked : tree.Linked) (member : child ∈ tree.slot parent slot) :
    child < tree.size := by
  obtain ⟨kind, found, -⟩ := (linked.holds parent slot child member).home
  exact lt_size_of_kind? found

theorem closed (linked : tree.Linked) : tree.Closed := by
  intro child parent found
  obtain ⟨slot, member⟩ := (linked.mem_slot_iff parent child).mpr found
  exact lt_size_of_mem_slot member

/-- A node is in one slot only. -/
theorem slot_unique (linked : tree.Linked) {otherParent : NodeId} {otherSlot : Slot}
    (member : child ∈ tree.slot parent slot) (again : child ∈ tree.slot otherParent otherSlot) :
    parent = otherParent ∧ slot = otherSlot := by
  constructor
  · exact Option.some.inj ((linked.hasParent member).symm.trans (linked.hasParent again))
  · obtain ⟨kind, found, home⟩ := (linked.holds parent slot child member).home
    obtain ⟨same, found', home'⟩ := (linked.holds otherParent otherSlot child again).home
    cases found.symm.trans found'
    exact Option.some.inj (home.symm.trans home')

/-- A slot that a node does not have is empty. -/
theorem slot_eq_nil (linked : tree.Linked)
    (bare : ∀ kind, tree.kind? parent = some kind → slot ∉ kind.slots) :
    tree.slot parent slot = [] := by
  refine List.eq_nil_iff_forall_not_mem.mpr fun child member => ?_
  obtain ⟨kind, found, owned⟩ := (linked.holds parent slot child member).owner
  exact bare kind found owned

/-- Every node of a linked tree has the children that fit it. -/
theorem fits (linked : tree.Linked) (id : NodeId) : tree.Fits id where
  home slot child member kind found := by
    obtain ⟨same, here, home⟩ := (linked.holds id slot child member).home
    cases here.symm.trans found
    exact home
  single := linked.single id

/-- No node is twice in the slots of a tree. -/
theorem nodup_stored (linked : tree.Linked) : tree.stored.Nodup := by
  refine List.nodup_flatMap.mpr ⟨fun parent _ => List.nodup_flatMap.mpr ⟨fun slot _ => ?_, ?_⟩, ?_⟩
  · exact linked.nodup parent slot
  · refine Slot.nodup_all.imp fun differ child member again => ?_
    exact differ (linked.slot_unique member again).2
  · refine List.nodup_range.imp fun differ child member again => ?_
    obtain ⟨_, _, member⟩ := List.mem_flatMap.mp member
    obtain ⟨_, _, again⟩ := List.mem_flatMap.mp again
    exact differ (linked.slot_unique member again).1

/-- Changes of the elements keep a tree linked as long as they keep their kinds. -/
theorem of_same (linked : tree.Linked) (parents : ∀ id, after.parent? id = tree.parent? id)
    (slots : ∀ id, after.slot id = tree.slot id)
    (kinds : ∀ id kind, tree.kind? id = some kind → after.kind? id = some kind) :
    after.Linked := by
  have hasParent : after.HasParent = tree.HasParent := by
    funext child parent
    rw [HasParent, parents, HasParent]
  refine ⟨?_, ?_, ?_, ?_, ?_⟩
  · simpa only [slots, hasParent] using linked.mem_slot_iff
  · simpa only [slots] using linked.nodup
  · intro parent slot child member
    rw [slots] at member
    obtain ⟨⟨owner, named, owned⟩, ⟨kind, found, home⟩⟩ := linked.holds parent slot child member
    exact ⟨⟨owner, kinds parent owner named, owned⟩, ⟨kind, kinds child kind found, home⟩⟩
  · simpa only [slots] using linked.single
  · unfold Acyclic
    rw [hasParent]
    exact linked.acyclic

/-- A node may change in all but its kind, its parent and its children. -/
theorem modify (linked : tree.Linked) (id : NodeId) {change : Node → Node}
    (kind : ∀ node, (change node).kind = node.kind)
    (parent : ∀ node, (change node).parent = node.parent)
    (links : ∀ node, (change node).links = node.links) : (tree.modify id change).Linked := by
  refine linked.of_same (fun other => ?_) (fun other => funext fun slot => ?_)
    fun other found here => ?_
  · rw [parent?, parent?, node?_modify]
    split
    · next same => simp only [same, Option.bind_map, Function.comp_def, parent]
    · rfl
  · rw [Tree.slot, Tree.slot, node?_modify]
    split
    · next same => simp only [same, Option.map_map, Function.comp_def, links]
    · rfl
  · rw [← here, kind?, kind?, node?_modify]
    split
    · next same => simp only [same, Option.map_map, Function.comp_def, kind]
    · rfl

/-- A new node without a parent and without children may be of any kind. -/
theorem push (linked : tree.Linked) {node : Node} (alone : node.parent = none)
    (bare : node.links = .empty) : (tree.push node).Linked :=
  linked.of_same (parent?_push alone tree) (slot_push bare tree) fun _ _ found =>
    (kind?_push_of_lt (lt_size_of_kind? found) node).trans found

/-! ### Detaching -/

theorem filter_without_cons (ids : List NodeId) (first : NodeId) (rest : List NodeId) :
    ((ids.filter fun other => other != first).filter fun other => !rest.contains other) =
      ids.filter fun other => !(first :: rest).contains other := by
  rw [List.filter_filter]
  refine List.filter_congr fun other _ => ?_
  rw [List.contains_cons, Bool.not_or, Bool.and_comm]
  rfl

theorem slot_detach (linked : tree.Linked) (child id : NodeId) (slot : Slot) :
    (tree.detach child).slot id slot = (tree.slot id slot).filter fun other => other != child := by
  have absent (apart : ¬ tree.HasParent child id) :
      (tree.slot id slot).filter (fun other => other != child) = tree.slot id slot :=
    filter_bne_of_not_mem fun member => apart (linked.hasParent member)
  cases found : tree.parent? child with
  | none =>
    rw [detach_of_parent?_eq_none found, absent]
    simp [HasParent, found]
  | some parent =>
    rw [Tree.slot_detach found]
    split
    · rfl
    · next differ =>
      rw [absent]
      rw [HasParent, found]
      exact fun same => differ (Option.some.inj same).symm

theorem detach (linked : tree.Linked) (id : NodeId) : (tree.detach id).Linked := by
  have kept {child parent : NodeId} :
      (tree.detach id).HasParent child parent ↔ tree.HasParent child parent ∧ child ≠ id := by
    rw [HasParent, parent?_detach]
    split <;> simp [HasParent, *]
  refine ⟨fun parent child => ?_, fun parent slot => ?_, fun parent slot child member => ?_,
    fun parent slot one => ?_, fun node circle => ?_⟩
  · simp only [linked.slot_detach, List.mem_filter, bne_iff_ne, exists_and_right,
      linked.mem_slot_iff, kept]
  · rw [linked.slot_detach]
    exact (linked.nodup parent slot).filter _
  · rw [linked.slot_detach] at member
    have before := linked.holds parent slot child (List.mem_of_mem_filter member)
    exact ⟨by simpa only [kind?_detach] using before.owner,
      by simpa only [kind?_detach] using before.home⟩
  · rw [linked.slot_detach]
    exact Nat.le_trans (List.length_filter_le _ _) (linked.single parent slot one)
  · exact linked.acyclic node (circle.lift (fun id => id) fun _ _ step => (kept.mp step).1)

/-- What detaching several nodes does: they leave their slots and have no parent. -/
theorem detachAll (linked : tree.Linked) (ids : List NodeId) :
    (tree.detachAll ids).Linked ∧
      (∀ id, (tree.detachAll ids).content? id = tree.content? id) ∧
      (∀ id, (tree.detachAll ids).parent? id = if id ∈ ids then none else tree.parent? id) ∧
      ∀ id slot, (tree.detachAll ids).slot id slot =
        (tree.slot id slot).filter fun other => !ids.contains other := by
  induction ids generalizing tree with
  | nil => exact ⟨linked, fun _ => rfl, fun _ => by simp [Tree.detachAll], fun _ _ => by
      simp [Tree.detachAll]⟩
  | cons first rest ih =>
    obtain ⟨still, contents, parents, slots⟩ := ih (linked.detach first)
    refine ⟨still, fun id => ?_, fun id => ?_, fun id slot => ?_⟩
    · exact (contents id).trans (content?_detach tree first id)
    · refine (parents id).trans ?_
      rw [parent?_detach]
      by_cases itself : id = first <;> simp [itself]
    · refine (slots id slot).trans ?_
      rw [linked.slot_detach, filter_without_cons]

end Linked

theorem linked_empty : empty.Linked := by
  have alone (child parent : NodeId) : ¬ empty.HasParent child parent := nofun
  refine ⟨fun parent child => ⟨nofun, fun found => absurd found (alone child parent)⟩,
    fun _ _ => .nil, nofun, fun _ _ _ => Nat.zero_le 1, fun id circle => ?_⟩
  obtain ⟨parent, step, _⟩ := TransGen.head'_iff.mp circle
  exact alone id parent step

/-! ### Attaching -/

/-- Nodes without a parent can be put behind the children in a slot. -/
structure Attachable (tree : Tree) (parent : NodeId) (slot : Slot) (ids : List NodeId) :
    Prop where
  holds : ∀ id ∈ ids, tree.Holds parent slot id
  alone : ∀ id ∈ ids, tree.parent? id = none
  nodup : ids.Nodup
  room : slot.isSingle = true → (tree.slot parent slot ++ ids).length ≤ 1
  apart : ∀ id ∈ ids, ¬ ReflTransGen tree.HasParent parent id

/-- A tree in which some nodes have been put behind the children in a slot. -/
structure Attached (tree : Tree) (parent : NodeId) (slot : Slot) (ids : List NodeId)
    (after : Tree) : Prop where
  contents : ∀ id, after.content? id = tree.content? id
  parents : ∀ id, after.parent? id = if id ∈ ids then some parent else tree.parent? id
  slots : ∀ id other, after.slot id other =
    if id = parent ∧ other = slot then tree.slot id other ++ ids else tree.slot id other

theorem Attached.kinds {ids : List NodeId} (attached : Attached tree parent slot ids after)
    (id : NodeId) : after.kind? id = tree.kind? id :=
  kind?_of_content? (attached.contents id)

theorem Linked.of_attached {ids : List NodeId} (linked : tree.Linked)
    (attachable : tree.Attachable parent slot ids)
    (attached : Attached tree parent slot ids after) : after.Linked := by
  have fresh (id : NodeId) (member : id ∈ ids) (other : NodeId) (place : Slot) :
      id ∉ tree.slot other place := by
    intro inside
    have found : tree.parent? id = some other := linked.hasParent inside
    rw [attachable.alone id member] at found
    cases found
  have mem_slot {id other : NodeId} {place : Slot} : id ∈ after.slot other place ↔
      id ∈ tree.slot other place ∨ id ∈ ids ∧ other = parent ∧ place = slot := by
    rw [attached.slots]
    split
    · next here => simp [here]
    · next elsewhere => simp [elsewhere]
  have kept {id other : NodeId} {place : Slot} (before : tree.Holds other place id) :
      after.Holds other place id :=
    ⟨by simpa only [attached.kinds] using before.owner,
      by simpa only [attached.kinds] using before.home⟩
  refine ⟨fun other id => ?_, fun other place => ?_, fun other place id member => ?_,
    fun other place one => ?_, ?_⟩
  · rw [HasParent, attached.parents]
    split
    · next member =>
      simp [mem_slot, fresh id member, member, eq_comm]
    · next absent =>
      simp only [mem_slot, absent, false_and, or_false]
      exact linked.mem_slot_iff other id
  · rw [attached.slots]
    split
    · next here =>
      refine (linked.nodup other place).append attachable.nodup ?_
      exact fun id inside member => fresh id member other place inside
    · exact linked.nodup other place
  · rcases mem_slot.mp member with before | ⟨member, rfl, rfl⟩
    · exact kept (linked.holds other place id before)
    · exact kept (attachable.holds id member)
  · rw [attached.slots]
    split
    · next here =>
      obtain ⟨rfl, rfl⟩ := here
      exact attachable.room one
    · exact linked.single other place one
  · refine linked.acyclic.of_adopted (fun id other step => ?_) attachable.apart
    rw [HasParent, attached.parents] at step
    split at step
    · next member => exact .inr ⟨member, (Option.some.inj step).symm⟩
    · exact .inl step

theorem attached_attach (owner : parent < tree.size) (slot : Slot) (here : child < tree.size) :
    Attached tree parent slot [child] (tree.attach parent slot child) where
  contents id := by rw [attach_eq, content?_setParent, content?_relink]
  parents id := by
    rw [attach_eq, parent?_setParent (by rwa [size_relink]), parent?_relink]
    simp
  slots id other := slot_attach owner slot child id other

/-- A node without a parent is attached where the slot takes it and is not full. -/
theorem Linked.attach (linked : tree.Linked) (attachable : tree.Attachable parent slot [child]) :
    (tree.attach parent slot child).Linked := by
  have holds := attachable.holds child List.mem_cons_self
  obtain ⟨_, owner, -⟩ := holds.owner
  obtain ⟨_, here, -⟩ := holds.home
  exact linked.of_attached attachable
    (attached_attach (lt_size_of_kind? owner) slot (lt_size_of_kind? here))

end Tree

end Gherkin
