import Gherkin.Proofs.Command

/-!
# What replacing the children in a slot changes

The children in a slot are replaced exactly when the owner has the slot and the new ones can
live in it, none of them twice and none at or above the owner. Then the new children are taken
out of the slots they were in, the old ones that do not come back are left without a parent,
and all else stays as it was, however the old and the new children overlap.
-/

namespace Gherkin

namespace Tree

variable {tree after : Tree} {parent : NodeId} {slot : Slot} {ids : List NodeId}

/-! ### What is accepted -/

theorem checkChild_of_home {kind owner : Kind} {id : NodeId} (here : tree.kind? id = some kind)
    (home : kind.home = some slot) (differ : id ≠ parent) (apart : id ∉ tree.ancestors parent) :
    tree.checkChild parent owner slot id = .ok () := by
  have accepted : slot.accepts kind = true := Slot.accepts_iff.mpr home
  have above : tree.isAncestor id parent = false := by simpa [isAncestor] using apart
  simp [checkChild, here, accepted, differ, above]

theorem checkChildren_of_nodup {owner : Kind} {seen : List NodeId}
    (each : ∀ id ∈ ids, tree.checkChild parent owner slot id = .ok ()) (nodup : ids.Nodup)
    (unseen : ∀ id ∈ ids, id ∉ seen) : tree.checkChildren parent owner slot seen ids = .ok () := by
  induction ids generalizing seen with
  | nil => rfl
  | cons first rest ih =>
    obtain ⟨itself, each⟩ := List.forall_mem_cons.mp each
    obtain ⟨new, unseen⟩ := List.forall_mem_cons.mp unseen
    obtain ⟨fresh, nodup⟩ := List.nodup_cons.mp nodup
    have later : ∀ id ∈ rest, id ∉ seen ++ [first] := by
      intro id member before
      rcases List.mem_append.mp before with before | same
      · exact unseen id member before
      · exact fresh (List.mem_singleton.mp same ▸ member)
    refine Except.bind_eq_ok_iff.mpr ⟨(), itself, ?_⟩
    rw [if_neg (by simpa using new)]
    exact ih each nodup later

/-- Children that can be put into a slot are not refused. -/
theorem checkSlot_eq_ok_iff :
    tree.checkSlot parent slot ids = .ok () ↔ tree.Assignable parent slot ids := by
  refine ⟨assignable_of_checkSlot, fun assignable => ?_⟩
  obtain ⟨owner, found, owned⟩ := assignable.owner
  have room : (slot.isSingle && decide (ids.length > 1)) = false := by
    cases one : slot.isSingle with
    | false => rfl
    | true => simpa using assignable.room one
  have checked : tree.checkChildren parent owner slot [] ids = .ok () := by
    refine checkChildren_of_nodup (fun id member => ?_) assignable.nodup fun _ _ => nofun
    obtain ⟨kind, here, home⟩ := assignable.home id member
    obtain ⟨differ, apart⟩ := assignable.apart id member
    exact checkChild_of_home here home differ apart
  simp [checkSlot, found, owned, room, checked]

/-! ### What is changed -/

/-- The children in a slot have been replaced, and nothing else has changed. -/
structure Reassigned (tree : Tree) (parent : NodeId) (slot : Slot) (ids : List NodeId)
    (after : Tree) : Prop where
  filled : after.slot parent slot = ids
  adopted : ∀ id ∈ ids, after.parent? id = some parent
  dropped : ∀ id ∈ tree.slot parent slot, id ∉ ids → after.parent? id = none
  otherNodes : ∀ id, id ≠ parent → ∀ other,
    after.slot id other = (tree.slot id other).filter fun child => !ids.contains child
  otherSlots : ∀ other, other ≠ slot → after.slot parent other = tree.slot parent other
  otherParents : ∀ id, id ∉ ids → id ∉ tree.slot parent slot →
    after.parent? id = tree.parent? id
  contents : ∀ id, after.content? id = tree.content? id

/-- No child for a slot is in another slot of its owner, as each kind lives in one slot only. -/
theorem Linked.not_mem_of_assignable (linked : tree.Linked)
    (assignable : tree.Assignable parent slot ids) {other : Slot} (differ : other ≠ slot)
    {id : NodeId} (member : id ∈ tree.slot parent other) : id ∉ ids := by
  intro given
  obtain ⟨kind, here, home⟩ := assignable.home id given
  have inside := (linked.fits parent).home other id member kind here
  exact differ (Option.some.inj (inside.symm.trans home))

theorem Linked.reassigned (linked : tree.Linked) (assignable : tree.Assignable parent slot ids) :
    tree.Reassigned parent slot ids ((tree.cleared parent slot ids).fill parent slot ids) := by
  obtain ⟨-, contents, parents, slots⟩ := linked.cleared parent slot ids
  have attached := linked.attached_fill assignable
  refine ⟨?_, fun id member => ?_, fun id member absent => ?_, fun id differ other => ?_,
    fun other differ => ?_, fun id absent apart => ?_, fun id => ?_⟩
  · simp [attached.slots, slots]
  · rw [attached.parents, if_pos member]
  · rw [attached.parents, if_neg absent, parents, if_pos (.inr member)]
  · rw [attached.slots, if_neg fun both => differ both.1, slots, if_neg fun both => differ both.1]
  · rw [attached.slots, if_neg fun both => differ both.2, slots, if_neg fun both => differ both.2]
    refine List.filter_eq_self.mpr fun id member => ?_
    simpa using linked.not_mem_of_assignable assignable differ member
  · rw [attached.parents, if_neg absent, parents, if_neg (not_or.mpr ⟨absent, apart⟩)]
  · rw [attached.contents, contents]

theorem Linked.perform_assign (linked : tree.Linked) (parent : NodeId) (slot : Slot)
    (ids : List NodeId) :
    (Command.assign parent slot ids).perform tree =
      Change.outcome tree ((tree.checkSlot parent slot ids).map fun _ =>
        ((), (tree.cleared parent slot ids).fill parent slot ids)) := by
  rw [Command.perform_eq linked, Command.effect, assign_eq, Except.map_map]
  rfl

/-- Replacing the children in a slot succeeds exactly when the owner has the slot, a slot for one
child is given at most one, and each child exists, is of a kind that lives in the slot, is given
once, and is neither the owner nor one of its ancestors. On success the slot holds the given
children in their order, their parent is the owner, the old children that are not among them have
no parent, and they have been taken out of the slots of all other nodes. The other slots of the
owner, all other parents, and the elements, lines and records of all nodes are the same. -/
theorem assign_exact (reachable : tree.Reachable) (parent : NodeId) (slot : Slot)
    (ids : List NodeId) :
    ((∃ after, (Command.assign parent slot ids).perform tree = .ok () after) ↔
      (∃ kind, tree.kind? parent = some kind ∧ slot ∈ kind.slots) ∧
      (slot.isSingle = true → ids.length ≤ 1) ∧
      (∀ id ∈ ids, (∃ kind, tree.kind? id = some kind ∧ slot.accepts kind = true) ∧
        id ≠ parent ∧ id ∉ tree.ancestors parent) ∧
      ids.Nodup) ∧
    ∀ after, (Command.assign parent slot ids).perform tree = .ok () after →
      tree.Reassigned parent slot ids after := by
  have linked := reachable.linked
  rw [linked.perform_assign]
  constructor
  · have accepted : (∃ after, Change.outcome tree ((tree.checkSlot parent slot ids).map fun _ =>
        ((), (tree.cleared parent slot ids).fill parent slot ids)) = .ok () after) ↔
        tree.checkSlot parent slot ids = .ok () := by
      cases tree.checkSlot parent slot ids with
      | error error => exact ⟨nofun, nofun⟩
      | ok _ => exact ⟨fun _ => rfl, fun _ => ⟨_, rfl⟩⟩
    rw [accepted, checkSlot_eq_ok_iff]
    simp only [Slot.accepts_iff]
    constructor
    · intro assignable
      exact ⟨assignable.owner, assignable.room, fun id member =>
        ⟨assignable.home id member, assignable.apart id member⟩, assignable.nodup⟩
    · rintro ⟨owner, room, each, nodup⟩
      exact ⟨owner, fun id member => (each id member).1, room, nodup,
        fun id member => (each id member).2⟩
  · intro after done
    cases checked : tree.checkSlot parent slot ids with
    | error error =>
      rw [checked] at done
      cases done
    | ok _ =>
      rw [checked] at done
      cases done
      exact linked.reassigned (checkSlot_eq_ok_iff.1 checked)

/-- Two scenarios, the first with two steps and the second with a third one. -/
def sampleScenarios : List Command :=
  let scenario := Element.scenario ⟨Text.word "Scenario", [], []⟩
  let step := Element.step (Text.word "*") []
  [.add scenario, .add scenario, .add step, .add step, .add step, .assign 0 .steps [2, 3],
    .assign 1 .steps [4]]

/-- The first scenario is given the step of the second one and keeps one of its own: the other
one is left without a parent. -/
theorem assign_sampleScenarios :
    let tree := Command.run sampleScenarios .empty
    tree.Reachable ∧ ∃ after, (Command.assign 0 .steps [4, 2]).perform tree = .ok () after ∧
      tree.Reassigned 0 .steps [4, 2] after ∧ after.slot 0 .steps = [4, 2] ∧
      after.slot 1 .steps = [] ∧ after.parent? 4 = some 0 ∧ after.parent? 3 = none := by
  intro tree
  have reachable : tree.Reachable := ⟨_, rfl⟩
  obtain ⟨accepted, effect⟩ := assign_exact reachable 0 .steps [4, 2]
  obtain ⟨after, done⟩ := accepted.mpr
    ⟨⟨.scenario, rfl, by decide⟩, nofun, by decide, by decide⟩
  have reassigned := effect after done
  refine ⟨reachable, after, done, reassigned, reassigned.filled, ?_, ?_, ?_⟩
  · exact reassigned.otherNodes 1 (by decide) .steps
  · exact reassigned.adopted 4 List.mem_cons_self
  · exact reassigned.dropped 3 (by decide) (by decide)

end Tree

end Gherkin
