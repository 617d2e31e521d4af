import Gherkin.Proofs.Tree.Change
import Gherkin.Proofs.Tree.Linked

/-!
# Replacing the children in a slot

What may be put into a slot is checked beforehand. In a linked tree the children then come
into the slot in their order and into no other one, wherever they were before, and it makes
no difference whether all of them are detached first or each one leaves its parent when it is
taken over.
-/

namespace Gherkin

namespace Tree

open Relation

variable {tree : Tree} {parent : NodeId} {slot : Slot} {ids : List NodeId}

/-! ### What is checked -/

/-- Nodes can become the children in a slot of a node. -/
structure Assignable (tree : Tree) (parent : NodeId) (slot : Slot) (ids : List NodeId) :
    Prop where
  owner : ∃ kind, tree.kind? parent = some kind ∧ slot ∈ kind.slots
  home : ∀ id ∈ ids, ∃ kind, tree.kind? id = some kind ∧ kind.home = some slot
  room : slot.isSingle = true → ids.length ≤ 1
  nodup : ids.Nodup
  apart : ∀ id ∈ ids, id ≠ parent ∧ id ∉ tree.ancestors parent

theorem Assignable.owner_lt_size (assignable : tree.Assignable parent slot ids) :
    parent < tree.size := by
  obtain ⟨_, owner, -⟩ := assignable.owner
  exact lt_size_of_kind? owner

theorem Assignable.lt_size (assignable : tree.Assignable parent slot ids) {id : NodeId}
    (member : id ∈ ids) : id < tree.size := by
  obtain ⟨_, here, -⟩ := assignable.home id member
  exact lt_size_of_kind? here

theorem checkChild_eq_ok {kind : Kind} {id : NodeId}
    (checked : tree.checkChild parent kind slot id = .ok ()) :
    (∃ kind, tree.kind? id = some kind ∧ kind.home = some slot) ∧
      id ≠ parent ∧ id ∉ tree.ancestors parent := by
  unfold checkChild at checked
  split at checked
  · cases checked
  · next found here =>
    split at checked
    · cases checked
    · next accepted =>
      split at checked
      · cases checked
      · next apart =>
        rw [Bool.not_eq_true, Bool.not_eq_false', Slot.accepts_iff] at accepted
        rw [Bool.or_eq_true, decide_eq_true_eq, not_or, isAncestor, List.contains_iff_mem] at apart
        exact ⟨⟨found, here, accepted⟩, apart⟩

theorem checkChildren_eq_ok {kind : Kind} {seen : List NodeId}
    (checked : tree.checkChildren parent kind slot seen ids = .ok ()) :
    (∀ id ∈ ids, tree.checkChild parent kind slot id = .ok ()) ∧ ids.Nodup ∧
      ∀ id ∈ ids, id ∉ seen := by
  induction ids generalizing seen with
  | nil => exact ⟨nofun, .nil, nofun⟩
  | cons first rest ih =>
    obtain ⟨_, itself, checked⟩ := Except.bind_eq_ok_iff.mp checked
    split at checked
    · cases checked
    · next new =>
      obtain ⟨others, nodup, unseen⟩ := ih checked
      rw [List.contains_iff_mem] at new
      refine ⟨List.forall_mem_cons.mpr ⟨itself, others⟩, ?_, ?_⟩
      · refine List.nodup_cons.mpr ⟨fun again => unseen first again ?_, nodup⟩
        exact List.mem_append_right _ List.mem_cons_self
      · refine List.forall_mem_cons.mpr ⟨new, fun id member before => unseen id member ?_⟩
        exact List.mem_append_left _ before

theorem assignable_of_checkSlot (checked : tree.checkSlot parent slot ids = .ok ()) :
    tree.Assignable parent slot ids := by
  unfold checkSlot at checked
  split at checked
  · cases checked
  · next kind owner =>
    split at checked
    · cases checked
    · next owned =>
      split at checked
      · cases checked
      · next room =>
        obtain ⟨each, nodup, -⟩ := checkChildren_eq_ok checked
        refine ⟨⟨kind, owner, by simpa using owned⟩, fun id member => ?_, ?_, nodup,
          fun id member => ?_⟩
        · exact (checkChild_eq_ok (each id member)).1
        · simpa using room
        · exact (checkChild_eq_ok (each id member)).2

theorem assign_eq (tree : Tree) (parent : NodeId) (slot : Slot) (ids : List NodeId) :
    tree.assign parent slot ids = (tree.checkSlot parent slot ids).map fun _ =>
      ((tree.detachAll (tree.slot parent slot)).detachAll ids).fill parent slot ids := by
  unfold assign checkSlot
  cases tree.kind? parent with
  | none => rfl
  | some kind =>
    simp only
    split
    · rfl
    · split
      · rfl
      · cases tree.checkChildren parent kind slot [] ids <;> rfl

/-! ### At once -/

theorem views_setParents (here : ∀ id ∈ ids, id < tree.size) (parent : Option NodeId) :
    let after := ids.foldl (fun tree id => tree.setParent id parent) tree
    (∀ id, after.content? id = tree.content? id) ∧ (∀ id, after.slot id = tree.slot id) ∧
      ∀ id, after.parent? id = if id ∈ ids then parent else tree.parent? id := by
  induction ids generalizing tree with
  | nil => exact ⟨fun _ => rfl, fun _ => rfl, fun _ => by simp⟩
  | cons first rest ih =>
    rw [List.forall_mem_cons] at here
    obtain ⟨contents, slots, parents⟩ := @ih (tree.setParent first parent) (by simpa using here.2)
    refine ⟨fun id => ?_, fun id => ?_, fun id => ?_⟩
    · exact (contents id).trans (content?_setParent ..)
    · exact (slots id).trans (slot_setParent ..)
    · refine (parents id).trans ?_
      rw [parent?_setParent here.1]
      by_cases itself : id = first <;> simp [itself]

theorem attached_fill (owner : parent < tree.size) (here : ∀ id ∈ ids, id < tree.size)
    (empty : tree.slot parent slot = []) :
    Attached tree parent slot ids (tree.fill parent slot ids) := by
  obtain ⟨contents, slots, parents⟩ :=
    @views_setParents (tree.relink parent fun links => links.set slot ids) ids
      (by simpa using here) (some parent)
  refine ⟨fun id => ?_, fun id => ?_, fun id other => ?_⟩
  · exact (contents id).trans (content?_relink ..)
  · refine (parents id).trans ?_
    rw [parent?_relink]
  · refine (congrFun (slots id) other).trans ?_
    rw [slot_relink owner (fun _ => ids) (Links.get_set · slot ids)]
    split
    · next here => rw [here.1, here.2, empty, List.nil_append]
    · rfl

/-- The tree in which neither the children in a slot nor those it is given have a parent. -/
def cleared (tree : Tree) (parent : NodeId) (slot : Slot) (ids : List NodeId) : Tree :=
  (tree.detachAll (tree.slot parent slot)).detachAll ids

theorem Linked.cleared (linked : tree.Linked) (parent : NodeId) (slot : Slot)
    (ids : List NodeId) :
    (tree.cleared parent slot ids).Linked ∧
      (∀ id, (tree.cleared parent slot ids).content? id = tree.content? id) ∧
      (∀ id, (tree.cleared parent slot ids).parent? id =
        if id ∈ ids ∨ id ∈ tree.slot parent slot then none else tree.parent? id) ∧
      ∀ id other, (tree.cleared parent slot ids).slot id other =
        if id = parent ∧ other = slot then []
        else (tree.slot id other).filter fun id => !ids.contains id := by
  obtain ⟨first, contents₁, parents₁, slots₁⟩ := linked.detachAll (tree.slot parent slot)
  obtain ⟨second, contents₂, parents₂, slots₂⟩ := first.detachAll ids
  refine ⟨second, fun id => (contents₂ id).trans (contents₁ id), fun id => ?_, fun id other => ?_⟩
  · refine (parents₂ id).trans ?_
    rw [parents₁]
    by_cases given : id ∈ ids <;> simp [given]
  · refine (slots₂ id other).trans ?_
    rw [slots₁]
    split
    · next here => simp +contextual [here]
    · next elsewhere =>
      refine congrArg (List.filter _) (List.filter_eq_self.mpr fun child member => ?_)
      rw [Bool.not_eq_true', Bool.eq_false_iff, ne_eq, List.contains_iff_mem]
      exact fun inside => elsewhere (linked.slot_unique member inside)

theorem Linked.attachable_cleared (linked : tree.Linked)
    (assignable : tree.Assignable parent slot ids) :
    (tree.cleared parent slot ids).Attachable parent slot ids := by
  obtain ⟨still, contents, parents, slots⟩ := linked.cleared parent slot ids
  have kinds (id : NodeId) := kind?_of_content? (contents id)
  have empty : (tree.cleared parent slot ids).slot parent slot = [] := by simp [slots]
  have before {child other : NodeId} (step : (tree.cleared parent slot ids).HasParent child other) :
      tree.HasParent child other := by
    rw [HasParent, parents] at step
    split at step
    · cases step
    · exact step
  refine ⟨fun id member => ?_, fun id member => ?_, assignable.nodup, fun one => ?_,
    fun id member below => ?_⟩
  · exact ⟨by simpa only [kinds] using assignable.owner,
      by simpa only [kinds] using assignable.home id member⟩
  · rw [parents, if_pos (.inl member)]
  · rw [empty]
    exact assignable.room one
  · obtain ⟨differ, above⟩ := assignable.apart id member
    rw [mem_ancestors_iff linked.closed linked.acyclic] at above
    rcases reflTransGen_iff_eq_or_transGen.mp below with same | below
    · exact differ same
    · exact above (below.lift (fun id => id) fun _ _ => before)

theorem Linked.attached_fill (linked : tree.Linked)
    (assignable : tree.Assignable parent slot ids) :
    Attached (tree.cleared parent slot ids) parent slot ids
      ((tree.cleared parent slot ids).fill parent slot ids) := by
  obtain ⟨still, contents, parents, slots⟩ := linked.cleared parent slot ids
  exact Tree.attached_fill (lt_size_of_content? (contents parent) assignable.owner_lt_size)
    (fun id member => lt_size_of_content? (contents id) (assignable.lt_size member))
    (by simp [slots])

/-- Where the children in a slot are replaced, a linked tree stays linked. -/
theorem Linked.assign (linked : tree.Linked) {after : Tree}
    (assigned : tree.assign parent slot ids = .ok after) : after.Linked := by
  rw [assign_eq] at assigned
  cases checked : tree.checkSlot parent slot ids with
  | error error =>
    rw [checked] at assigned
    cases assigned
  | ok _ =>
    rw [checked] at assigned
    cases assigned
    have assignable := assignable_of_checkSlot checked
    exact (linked.cleared parent slot ids).1.of_attached (linked.attachable_cleared assignable)
      (linked.attached_fill assignable)

/-! ### One after the other -/

/-- A node that is in no slot but those of a parent it has to leave comes out of all slots when
it is taken over. -/
theorem views_takeOver {child : NodeId} (here : child < tree.size)
    (known : ∀ id slot, child ∈ tree.slot id slot → tree.HasParent child id ∧ id ≠ parent) :
    (∀ id, (tree.takeOver parent child).content? id = tree.content? id) ∧
      (∀ id slot, (tree.takeOver parent child).slot id slot =
        (tree.slot id slot).filter fun other => other != child) ∧
      ∀ id, (tree.takeOver parent child).parent? id =
        if id = child then some parent else tree.parent? id := by
  have absent {id : NodeId} {slot : Slot} (apart : ¬ (tree.HasParent child id ∧ id ≠ parent)) :
      (tree.slot id slot).filter (fun other => other != child) = tree.slot id slot :=
    filter_bne_of_not_mem fun member => apart (known id slot member)
  by_cases moves : ∃ previous, tree.parent? child = some previous ∧ previous ≠ parent
  · obtain ⟨previous, found, differ⟩ := moves
    have left : tree.leave parent child =
        tree.relink previous fun links => links.erase child := by
      rw [leave, found]
      exact if_neg differ
    rw [takeOver, left, adopt_eq]
    refine ⟨fun id => by simp, fun id slot => ?_, fun id => ?_⟩
    · rw [slot_setParent, slot_relink_erase]
      split
      · rfl
      · next other =>
        refine (absent fun both => other ?_).symm
        exact Option.some.inj (both.1.symm.trans found)
    · rw [parent?_setParent (by simpa), parent?_relink]
  · have left : tree.leave parent child = tree := by
      rw [leave]
      split
      · rfl
      · next previous found =>
        exact if_pos (not_not.mp fun differ => moves ⟨previous, found, differ⟩)
    rw [takeOver, left, adopt_eq]
    refine ⟨fun id => by simp, fun id slot => ?_, fun id => parent?_setParent here ..⟩
    rw [slot_setParent, absent]
    exact fun both => moves ⟨id, both⟩

theorem views_takeOverAll (here : ∀ id ∈ ids, id < tree.size) (nodup : ids.Nodup)
    (known : ∀ child ∈ ids, ∀ id slot, child ∈ tree.slot id slot →
      tree.HasParent child id ∧ id ≠ parent) :
    let after := ids.foldl (fun tree id => tree.takeOver parent id) tree
    (∀ id, after.content? id = tree.content? id) ∧
      (∀ id slot, after.slot id slot =
        (tree.slot id slot).filter fun other => !ids.contains other) ∧
      ∀ id, after.parent? id = if id ∈ ids then some parent else tree.parent? id := by
  induction ids generalizing tree with
  | nil => exact ⟨fun _ => rfl, fun _ _ => by simp, fun _ => by simp⟩
  | cons first rest ih =>
    rw [List.forall_mem_cons] at here known
    obtain ⟨fresh, nodup⟩ := List.nodup_cons.mp nodup
    obtain ⟨contents, slots, parents⟩ := views_takeOver here.1 known.1
    obtain ⟨contents', slots', parents'⟩ := @ih (tree.takeOver parent first)
      (fun id member => lt_size_of_content? (contents id) (here.2 id member)) nodup
      fun child member id slot inside => by
        rw [slots] at inside
        obtain ⟨found, differ⟩ := known.2 child member id slot (List.mem_of_mem_filter inside)
        have other : child ≠ first := fun same => fresh (same ▸ member)
        refine ⟨?_, differ⟩
        rw [HasParent, parents, if_neg other]
        exact found
    refine ⟨fun id => (contents' id).trans (contents id), fun id slot => ?_, fun id => ?_⟩
    · refine (slots' id slot).trans ?_
      rw [slots, Linked.filter_without_cons]
    · refine (parents' id).trans ?_
      rw [parents]
      by_cases itself : id = first <;> simp [itself]

/-- The tree in which a slot is empty, and the children that do not come back have no parent. -/
def emptied (tree : Tree) (parent : NodeId) (slot : Slot) (ids : List NodeId) : Tree :=
  ((tree.slot parent slot).filter fun id => !ids.contains id).foldl
    (fun tree id => tree.orphan id) (tree.setSlot parent slot [])

/-- The tree in which the children in a slot have been replaced one after the other. -/
def replaced (tree : Tree) (parent : NodeId) (slot : Slot) (ids : List NodeId) : Tree :=
  (ids.foldl (fun tree id => tree.takeOver parent id) (tree.emptied parent slot ids)).relink
    parent fun links => links.set slot ids

theorem Linked.views_emptied (linked : tree.Linked) (owner : parent < tree.size) (slot : Slot)
    (ids : List NodeId) :
    (∀ id, (tree.emptied parent slot ids).content? id = tree.content? id) ∧
      (∀ id other, (tree.emptied parent slot ids).slot id other =
        if id = parent ∧ other = slot then [] else tree.slot id other) ∧
      ∀ id, (tree.emptied parent slot ids).parent? id =
        if id ∈ tree.slot parent slot ∧ id ∉ ids then none else tree.parent? id := by
  obtain ⟨contents, slots, parents⟩ :=
    @views_setParents (tree.relink parent fun links => links.set slot [])
      ((tree.slot parent slot).filter fun id => !ids.contains id)
      (fun id member => by simpa using linked.lt_size (List.mem_of_mem_filter member)) none
  refine ⟨fun id => ?_, fun id other => ?_, fun id => ?_⟩
  · exact (contents id).trans (content?_relink ..)
  · exact (congrFun (slots id) other).trans
      (slot_relink owner (fun _ => []) (Links.get_set · slot []) id other)
  · refine (parents id).trans ?_
    simp [List.mem_filter]

/-- It makes no difference whether the children come into a slot at once or one after the
other. -/
theorem Linked.replaced_eq (linked : tree.Linked) (assignable : tree.Assignable parent slot ids) :
    tree.replaced parent slot ids = (tree.cleared parent slot ids).fill parent slot ids := by
  have owner := assignable.owner_lt_size
  obtain ⟨-, contents₀, parents₀, slots₀⟩ := linked.cleared parent slot ids
  have attached := linked.attached_fill assignable
  obtain ⟨contents₁, slots₁, parents₁⟩ := linked.views_emptied owner slot ids
  have known : ∀ child ∈ ids, ∀ id other, child ∈ (tree.emptied parent slot ids).slot id other →
      (tree.emptied parent slot ids).HasParent child id ∧ id ≠ parent := by
    intro child member id other inside
    rw [slots₁] at inside
    split at inside
    · cases inside
    · next elsewhere =>
      constructor
      · rw [HasParent, parents₁, if_neg fun gone => gone.2 member]
        exact linked.hasParent inside
      · -- The slots of a node hold different kinds, so a child is in no other slot of its parent.
        rintro rfl
        obtain ⟨kind, here, home⟩ := assignable.home child member
        exact elsewhere ⟨rfl, Option.some.inj ((linked.fits id).home other child inside kind here
          |>.symm.trans home)⟩
  obtain ⟨contents₂, slots₂, parents₂⟩ := views_takeOverAll
    (fun id member => lt_size_of_content? (contents₁ id) (assignable.lt_size member))
    assignable.nodup known
  have owner₂ := lt_size_of_content? ((contents₂ parent).trans (contents₁ parent)) owner
  refine ext_views (fun id => ?_) (fun id => ?_) fun id other => ?_
  · rw [attached.contents, contents₀]
    exact (content?_relink ..).trans ((contents₂ id).trans (contents₁ id))
  · rw [attached.parents, parents₀]
    refine (parent?_relink ..).trans ((parents₂ id).trans ?_)
    rw [parents₁]
    split
    · rfl
    · next absent => simp [absent]
  · rw [attached.slots, slots₀]
    refine (slot_relink owner₂ (fun _ => ids) (Links.get_set · slot ids) id other).trans ?_
    rw [slots₂, slots₁]
    split <;> rfl

end Tree

namespace Change

variable {α β : Type} {tree : Tree} {parent : NodeId} {slot : Slot} {ids : List NodeId}

theorem forM_modify (step : β → Tree → Tree) (items : List β) (tree : Tree) :
    (items.forM fun item => modify (step item) : Change Unit) tree =
      .ok () (items.foldl (fun tree item => step item tree) tree) := by
  induction items generalizing tree with
  | nil => rfl
  | cons item rest ih => exact ih (step item tree)

theorem assign_apply (tree : Tree) (parent : NodeId) (slot : Slot) (ids : List NodeId) :
    assign parent slot ids tree = outcome tree ((tree.checkSlot parent slot ids).map fun _ =>
      ((), tree.replaced parent slot ids)) := by
  change (ofExcept (tree.checkSlot parent slot ids) >>= _) tree = _
  cases tree.checkSlot parent slot ids with
  | error error => rfl
  | ok _ =>
    change EStateM.bind _ (fun _ => EStateM.bind _ fun _ => modify fun tree =>
      tree.setSlot parent slot ids) (tree.setSlot parent slot []) = _
    simp only [EStateM.bind, forM_modify]
    rfl

/-- Replacing the children of a linked tree one after the other comes to what replacing them at
once comes to. -/
theorem assign_eq (linked : tree.Linked) (parent : NodeId) (slot : Slot) (ids : List NodeId) :
    assign parent slot ids tree =
      outcome tree ((tree.assign parent slot ids).map fun after => ((), after)) := by
  rw [assign_apply, Tree.assign_eq]
  cases checked : tree.checkSlot parent slot ids with
  | error error => rfl
  | ok _ =>
    have same := linked.replaced_eq (Tree.assignable_of_checkSlot checked)
    change EStateM.Result.ok () (tree.replaced parent slot ids) = _
    rw [same]
    rfl

end Change

end Gherkin
