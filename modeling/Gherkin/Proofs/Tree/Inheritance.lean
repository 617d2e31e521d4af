import Gherkin.Proofs.Tree.Assignment
import Gherkin.Proofs.Tree.Descendants
import Gherkin.Tree.Tags
import Mathlib.Data.List.Chain

/-!
# Inherited tags

What applies to a node is found at its nearest taggable ancestor, which looks at its own nearest
taggable ancestor, and so on. In a linked tree this comes to the tags of all nodes on the path
from the root down to the node, in the order of the path: a node that is passed over cannot have
tags. When nodes are put elsewhere the path changes above them and nowhere else.
-/

namespace Gherkin

namespace Tree

open Relation

variable {tree after : Tree} {id child parent : NodeId} {path base above below ids : List NodeId}
  {slot : Slot}

/-! ## Paths from the root -/

/-- A path from a node without a parent down to a node, on which each is the parent of the next. -/
structure IsRootPath (tree : Tree) (path : List NodeId) (id : NodeId) : Prop where
  starts : ∀ top ∈ path.head?, tree.parent? top = none
  descends : path.IsChain fun above below => tree.HasParent below above
  ends : path.getLast? = some id

/-- The ancestors of a node, outermost first, and the node. -/
def rootPath (tree : Tree) (id : NodeId) : List NodeId := (tree.ancestors id).reverse ++ [id]

theorem ancestors_of_root (alone : tree.parent? id = none) : tree.ancestors id = [] := by
  rw [ancestors, alone, climb_none]

theorem rootPath_of_root (alone : tree.parent? id = none) : tree.rootPath id = [id] := by
  rw [rootPath, ancestors_of_root alone]
  rfl

theorem Linked.rootPath_of_hasParent (linked : tree.Linked) (step : tree.HasParent child parent) :
    tree.rootPath child = tree.rootPath parent ++ [child] := by
  rw [rootPath, linked.ancestors_of_hasParent step, List.reverse_cons, rootPath]

theorem isRootPath_singleton (alone : tree.parent? id = none) : tree.IsRootPath [id] id := by
  refine ⟨?_, .singleton id, rfl⟩
  rintro _ ⟨⟩
  exact alone

/-- A path goes on through a child and from there down. -/
theorem IsRootPath.append (front : tree.IsRootPath base parent)
    (step : tree.HasParent child parent)
    (descends : (child :: below).IsChain fun above below => tree.HasParent below above)
    (ends : (child :: below).getLast? = some id) : tree.IsRootPath (base ++ child :: below) id := by
  refine ⟨fun top first => ?_, ?_, ?_⟩
  · cases base with
    | nil => exact absurd front.ends (by simp)
    | cons _ _ => exact front.starts top first
  · refine List.isChain_append.mpr ⟨front.descends, descends, ?_⟩
    rintro last found first ⟨⟩
    rw [front.ends] at found
    cases found
    exact step
  · rw [List.getLast?_append_of_ne_nil _ (List.cons_ne_nil _ _), ends]

theorem Linked.isRootPath_rootPath (linked : tree.Linked) (id : NodeId) :
    tree.IsRootPath (tree.rootPath id) id := by
  induction id using linked.inductionDown with
  | root id alone =>
    rw [rootPath_of_root alone]
    exact isRootPath_singleton alone
  | step child parent step ih =>
    rw [linked.rootPath_of_hasParent step]
    exact ih.append step (.singleton child) rfl

/-- There is no other path from the root to a node. -/
theorem Linked.eq_rootPath (linked : tree.Linked) (leads : tree.IsRootPath path id) :
    path = tree.rootPath id := by
  induction path using List.reverseRecOn generalizing id with
  | nil => exact absurd leads.ends (by simp)
  | append_singleton front last ih =>
    obtain rfl : last = id := by simpa using leads.ends
    rcases List.eq_nil_or_concat' front with rfl | ⟨init, parent, rfl⟩
    · rw [rootPath_of_root (leads.starts last rfl)]
      rfl
    · have step : tree.HasParent last parent := by
        have chain := leads.descends
        rw [List.append_assoc, List.singleton_append, List.isChain_append_cons_cons] at chain
        exact chain.2.1
      have before : tree.IsRootPath (init ++ [parent]) parent := by
        refine ⟨fun top first => leads.starts top ?_, leads.descends.left_of_append, by simp⟩
        rw [List.head?_append_of_ne_nil _ (by simp)]
        exact first
      rw [ih before, linked.rootPath_of_hasParent step]

/-- The nodes of a path are those that its last node leads up to. -/
theorem Linked.mem_iff_of_isRootPath (linked : tree.Linked) (leads : tree.IsRootPath path id)
    {node : NodeId} : node ∈ path ↔ ReflTransGen tree.HasParent id node := by
  rw [linked.eq_rootPath leads, rootPath, List.mem_append, List.mem_reverse, List.mem_singleton,
    mem_ancestors_iff linked.closed linked.acyclic, reflTransGen_iff_eq_or_transGen, or_comm]

/-! ## Combined tags -/

/-- A node that cannot have tags has none. -/
theorem Linked.tags_eq_nil (linked : tree.Linked)
    (bare : (tree.kind? id).any Kind.isTaggable = false) : tree.tags id = [] := by
  refine linked.slot_eq_nil fun kind found owned => ?_
  rw [found, Option.any_some, kind.isTaggable_iff.mpr owned] at bare
  cases bare

theorem nearestTaggable?_of_root (alone : tree.parent? id = none) :
    tree.nearestTaggable? id = none := by
  rw [nearestTaggable?, ancestors_of_root alone]
  rfl

theorem Linked.nearestTaggable?_of_hasParent (linked : tree.Linked)
    (step : tree.HasParent child parent) :
    tree.nearestTaggable? child =
      if (tree.kind? parent).any Kind.isTaggable then some parent
      else tree.nearestTaggable? parent := by
  rw [nearestTaggable?, linked.ancestors_of_hasParent step, List.find?_cons]
  split <;> simp_all [nearestTaggable?]

/-- The nearest taggable ancestor has all that the ancestors have: those between cannot have
tags. -/
theorem Linked.flatMap_nearestTaggable? (linked : tree.Linked) (id : NodeId) :
    ((tree.nearestTaggable? id).map fun top => (tree.rootPath top).flatMap tree.tags).getD [] =
      (tree.ancestors id).reverse.flatMap tree.tags := by
  induction id using linked.inductionDown with
  | root id alone =>
    rw [nearestTaggable?_of_root alone, ancestors_of_root alone]
    rfl
  | step child parent step ih =>
    rw [linked.nearestTaggable?_of_hasParent step, linked.ancestors_of_hasParent step,
      List.reverse_cons]
    cases taggable : (tree.kind? parent).any Kind.isTaggable with
    | true => rfl
    | false =>
      rw [if_neg Bool.false_ne_true, ih, List.flatMap_append, List.flatMap_singleton,
        linked.tags_eq_nil taggable, List.append_nil]

theorem Linked.length_ancestors_lt_of_mem (linked : tree.Linked) {top : NodeId}
    (member : top ∈ tree.ancestors id) :
    (tree.ancestors top).length < (tree.ancestors id).length := by
  induction id using linked.inductionDown with
  | root id alone =>
    rw [ancestors_of_root alone] at member
    cases member
  | step child parent step ih =>
    rw [linked.ancestors_of_hasParent step] at member ⊢
    rw [List.length_cons]
    rcases List.mem_cons.mp member with rfl | higher
    · exact Nat.lt_succ_self _
    · exact Nat.lt_succ_of_lt (ih higher)

/-- Visiting as many taggable ancestors as there are ancestors misses none. -/
theorem Linked.allTagsWithin_eq (linked : tree.Linked) {fuel : Nat}
    (enough : (tree.ancestors id).length ≤ fuel) :
    tree.allTagsWithin fuel id = (tree.rootPath id).flatMap tree.tags := by
  have split (id : NodeId) : (tree.rootPath id).flatMap tree.tags =
      (tree.ancestors id).reverse.flatMap tree.tags ++ tree.tags id := by
    rw [rootPath, List.flatMap_append, List.flatMap_singleton]
  induction fuel generalizing id with
  | zero =>
    rw [split, List.length_eq_zero_iff.mp (Nat.le_zero.mp enough)]
    rfl
  | succ fuel ih =>
    have higher : (tree.nearestTaggable? id).map (tree.allTagsWithin fuel) =
        (tree.nearestTaggable? id).map fun top => (tree.rootPath top).flatMap tree.tags := by
      refine Option.map_congr fun top found => ih ?_
      have shorter := linked.length_ancestors_lt_of_mem (List.mem_of_find?_eq_some found)
      omega
    rw [allTagsWithin, higher, linked.flatMap_nearestTaggable?, split]

theorem Linked.allTags_eq (linked : tree.Linked) (id : NodeId) :
    tree.allTags id = (tree.rootPath id).flatMap tree.tags := by
  refine linked.allTagsWithin_eq ?_
  by_cases here : id < tree.size
  · exact (linked.length_ancestors_lt here).le
  · have alone : tree.parent? id = none := by
      rw [parent?, node?_eq_none_of_le (Nat.le_of_not_lt here)]
      rfl
    rw [ancestors_of_root alone]
    exact Nat.zero_le _

theorem Linked.appliedTags_eq (linked : tree.Linked) (id : NodeId) :
    tree.appliedTags id = (tree.ancestors id).reverse.flatMap tree.tags := by
  rw [appliedTags, funext linked.allTags_eq, linked.flatMap_nearestTaggable?]

/-- The tags of a node are those of all nodes on a path from the root down to it, and what applies
to it are those of the nodes above it. -/
structure Inherits (tree : Tree) (path : List NodeId) (id : NodeId) : Prop where
  leads : tree.IsRootPath path id
  all : tree.allTags id = path.flatMap tree.tags
  applied : tree.appliedTags id = path.dropLast.flatMap tree.tags

theorem Linked.inherits (linked : tree.Linked) (leads : tree.IsRootPath path id) :
    tree.Inherits path id := by
  obtain rfl := linked.eq_rootPath leads
  refine ⟨leads, linked.allTags_eq id, ?_⟩
  rw [rootPath, List.dropLast_concat, linked.appliedTags_eq]

/-! ## Nodes that are put elsewhere -/

/-- A path stays where the parents of its nodes stay. -/
theorem IsRootPath.of_parents (leads : tree.IsRootPath path id)
    (same : ∀ node ∈ path, after.parent? node = tree.parent? node) : after.IsRootPath path id := by
  refine ⟨fun top first => ?_, ?_, leads.ends⟩
  · rw [same top (List.mem_of_head? first)]
    exact leads.starts top first
  · refine leads.descends.imp_of_mem_imp fun upper lower _ member step => ?_
    exact (same lower member).trans step

/-- The lower end of a path leads down wherever it is put. -/
theorem IsRootPath.lower (leads : tree.IsRootPath (above ++ child :: below) id)
    (same : ∀ node ∈ below, after.parent? node = tree.parent? node) :
    ((child :: below).IsChain fun above below => after.HasParent below above) ∧
      (child :: below).getLast? = some id := by
  constructor
  · refine leads.descends.right_of_append.imp_of_mem_tail_imp fun upper lower _ member step => ?_
    exact (same lower member).trans step
  · have ends := leads.ends
    rwa [List.getLast?_append_of_ne_nil _ (List.cons_ne_nil _ _)] at ends

/-- What is below a node on a path leads up to it. -/
theorem IsRootPath.transGen_of_mem_below (leads : tree.IsRootPath (above ++ child :: below) id)
    {node : NodeId} (member : node ∈ below) : TransGen tree.HasParent node child := by
  have chain := leads.descends.right_of_append
  have pairs := (chain.imp fun _ _ => TransGen.single :
    (child :: below).IsChain (Function.swap (TransGen tree.HasParent))).pairwise
  exact (List.pairwise_cons.mp pairs).1 node member

section

variable (linked : tree.Linked) (assignable : tree.Assignable parent slot ids)
  (reassigned : tree.Reassigned parent slot ids after)

include linked

/-- Neither the old nor the new children of a node lie above it. -/
theorem Linked.not_reflTransGen_of_mem (assignable : tree.Assignable parent slot ids)
    (member : child ∈ ids ∨ child ∈ tree.slot parent slot) :
    ¬ ReflTransGen tree.HasParent parent child := by
  intro path
  rcases member with given | stored
  · obtain ⟨differ, apart⟩ := assignable.apart child given
    rcases reflTransGen_iff_eq_or_transGen.mp path with same | path
    · exact differ same
    · exact apart ((mem_ancestors_iff linked.closed linked.acyclic).mpr path)
  · exact linked.acyclic child (.head' (linked.hasParent stored) path)

include assignable reassigned

/-- A node from which the path goes up past the slot keeps its parent. -/
theorem Linked.parent?_of_reflTransGen {node : NodeId}
    (path : ReflTransGen tree.HasParent parent node) :
    after.parent? node = tree.parent? node := by
  refine reassigned.otherParents node (fun given => ?_) fun stored => ?_
  · exact linked.not_reflTransGen_of_mem assignable (.inl given) path
  · exact linked.not_reflTransGen_of_mem assignable (.inr stored) path

/-- What is below an old or a new child keeps its parent, unless it is a new child itself. -/
theorem Linked.parent?_of_transGen (member : child ∈ ids ∨ child ∈ tree.slot parent slot)
    {node : NodeId} (path : TransGen tree.HasParent node child) (other : node ∉ ids) :
    after.parent? node = tree.parent? node := by
  refine reassigned.otherParents node other fun stored => ?_
  obtain ⟨upper, step, path⟩ := TransGen.head'_iff.mp path
  obtain rfl : parent = upper := Option.some.inj ((linked.hasParent stored).symm.trans step)
  exact linked.not_reflTransGen_of_mem assignable member path

theorem Linked.tags_reassigned (id : NodeId) :
    after.tags id = if slot = .tags then
      if id = parent then ids else (tree.tags id).filter fun tag => !ids.contains tag
    else tree.tags id := by
  unfold tags
  by_cases tagged : slot = .tags
  · subst tagged
    rw [if_pos rfl]
    split
    · next same => rw [same, reassigned.filled]
    · next differ => exact reassigned.otherNodes id differ .tags
  · rw [if_neg tagged]
    by_cases same : id = parent
    · rw [same, reassigned.otherSlots .tags (Ne.symm tagged)]
    · rw [reassigned.otherNodes id same .tags]
      refine List.filter_eq_self.mpr fun tag member => ?_
      -- A tag lives in no other slot, and so is none of the new children.
      obtain ⟨kind, here, home⟩ := (linked.holds id .tags tag member).home
      have absent : tag ∉ ids := by
        intro given
        obtain ⟨_, found, home'⟩ := assignable.home tag given
        cases here.symm.trans found
        exact tagged (Option.some.inj (home'.symm.trans home))
      simpa using absent

end

/-- What replacing the children in a slot does to combined tags. A node inherits what the owner
of the slot has if the last of the children above it is a new one, and nothing from above the
last one if that is left out; elsewhere the paths are the same. Own tags change where the slot is
one for tags: at its owner, and where its new tags were taken from. -/
structure Regrafted (tree : Tree) (parent : NodeId) (slot : Slot) (ids : List NodeId)
    (after : Tree) : Prop where
  own : ∀ id, after.tags id = if slot = .tags then
      if id = parent then ids else (tree.tags id).filter fun tag => !ids.contains tag
    else tree.tags id
  moved : ∀ base above child below id, tree.IsRootPath base parent →
    tree.IsRootPath (above ++ child :: below) id → child ∈ ids → (∀ node ∈ below, node ∉ ids) →
      after.Inherits (base ++ child :: below) id
  left : ∀ above child below id, tree.IsRootPath (above ++ child :: below) id →
    child ∈ tree.slot parent slot → (∀ node ∈ child :: below, node ∉ ids) →
      after.Inherits (child :: below) id
  kept : ∀ path id, tree.IsRootPath path id →
    (∀ node ∈ path, node ∉ ids ∧ node ∉ tree.slot parent slot) → after.Inherits path id

/-- What taking a node away from its parent does to combined tags: what is below it inherits
nothing from above it any more, and elsewhere the paths are the same. -/
structure Released (tree : Tree) (child : NodeId) (after : Tree) : Prop where
  own : ∀ id, after.tags id = (tree.tags id).filter fun tag => tag != child
  left : ∀ above below id, tree.IsRootPath (above ++ child :: below) id →
    after.Inherits (child :: below) id
  kept : ∀ path id, tree.IsRootPath path id → child ∉ path → after.Inherits path id

theorem Linked.regrafted (linked : tree.Linked) (grown : after.Linked)
    (assignable : tree.Assignable parent slot ids)
    (reassigned : tree.Reassigned parent slot ids after) :
    tree.Regrafted parent slot ids after := by
  refine ⟨linked.tags_reassigned assignable reassigned, ?_, ?_, ?_⟩
  · intro base above child below id front leads given others
    have front : after.IsRootPath base parent := front.of_parents fun node member =>
      linked.parent?_of_reflTransGen assignable reassigned
        ((linked.mem_iff_of_isRootPath front).mp member)
    obtain ⟨descends, ends⟩ := leads.lower fun node member =>
      linked.parent?_of_transGen assignable reassigned (.inl given)
        (leads.transGen_of_mem_below member) (others node member)
    exact grown.inherits (front.append (reassigned.adopted child given) descends ends)
  · intro above child below id leads stored others
    obtain ⟨itself, others⟩ := List.forall_mem_cons.mp others
    obtain ⟨descends, ends⟩ := leads.lower fun node member =>
      linked.parent?_of_transGen assignable reassigned (.inr stored)
        (leads.transGen_of_mem_below member) (others node member)
    refine grown.inherits ⟨?_, descends, ends⟩
    rintro _ ⟨⟩
    exact reassigned.dropped child stored itself
  · intro path id leads others
    refine grown.inherits (leads.of_parents fun node member => ?_)
    exact reassigned.otherParents node (others node member).1 (others node member).2

theorem Linked.released (linked : tree.Linked) (child : NodeId) :
    tree.Released child (tree.detach child) := by
  have grown := linked.detach child
  have stays {node : NodeId} (differ : node ≠ child) :
      (tree.detach child).parent? node = tree.parent? node := by
    rw [parent?_detach, if_neg differ]
  refine ⟨fun id => linked.slot_detach child id .tags, ?_, ?_⟩
  · intro above below id leads
    obtain ⟨descends, ends⟩ := leads.lower fun node member => stays (by
      rintro rfl
      exact linked.acyclic node (leads.transGen_of_mem_below member))
    refine grown.inherits ⟨?_, descends, ends⟩
    rintro _ ⟨⟩
    rw [parent?_detach, if_pos rfl]
  · intro path id leads absent
    refine grown.inherits (leads.of_parents fun node member => stays ?_)
    exact ne_of_mem_of_not_mem member absent

/-- Children that were put into a slot could be put there, and replace the old ones. -/
theorem Linked.reassigned_of_perform (linked : tree.Linked)
    (done : (Command.assign parent slot ids).perform tree = .ok () after) :
    tree.Assignable parent slot ids ∧ tree.Reassigned parent slot ids after := by
  rw [linked.perform_assign] at done
  cases checked : tree.checkSlot parent slot ids with
  | error error =>
    rw [checked] at done
    cases done
  | ok _ =>
    rw [checked] at done
    cases done
    have assignable := checkSlot_eq_ok_iff.1 checked
    exact ⟨assignable, linked.reassigned assignable⟩

/-- Whatever commands lead from the empty tree to another one: there is one path from a root down
to each node, and the tags of the node are those of all nodes on the path, in its order, of which
the node's own do not apply to it from above. So when children are replaced, tags among them, or a
node is taken away, what each node inherits follows from what becomes of its path. -/
theorem inheritance_of_run (commands : List Command) :
    let tree := Command.run commands .empty
    (∀ id, ∃ path, tree.Inherits path id ∧ ∀ other, tree.IsRootPath other id → other = path) ∧
    (∀ parent slot ids after, (Command.assign parent slot ids).perform tree = .ok () after →
      tree.Regrafted parent slot ids after) ∧
    ∀ child after, (Command.detach child).perform tree = .ok () after →
      tree.Released child after := by
  intro tree
  have linked : tree.Linked := Command.linked_run linked_empty commands
  refine ⟨fun id => ?_, fun parent slot ids after done => ?_, fun child after done => ?_⟩
  · exact ⟨tree.rootPath id, linked.inherits (linked.isRootPath_rootPath id), fun other leads =>
      linked.eq_rootPath leads⟩
  · obtain ⟨assignable, reassigned⟩ := linked.reassigned_of_perform done
    have grown := linked.perform (.assign parent slot ids)
    rw [Command.after, done] at grown
    exact linked.regrafted grown assignable reassigned
  · cases done
    exact linked.released child

/-- A step in a scenario in a rule in a feature, where the feature and the rule have a tag. -/
def sampleRule : List Command :=
  let heading : Heading := ⟨[], [], []⟩
  [.add (.feature heading []), .add (.tag (Text.word "@f")), .add (.rule heading),
    .add (.tag (Text.word "@r")), .add (.scenario heading), .add (.step [] []),
    .assign 0 .tags [1], .assign 0 .rules [2], .assign 2 .tags [3], .assign 2 .tests [4],
    .assign 4 .steps [5]]

/-- The step has the tags of the feature and the rule, and those of the feature alone once the
scenario has been moved out of the rule. -/
theorem inheritance_of_sampleRule :
    let tree := Command.run sampleRule .empty
    tree.allTags 5 = [1, 3] ∧
      ∃ after, (Command.assign 0 .tests [4]).perform tree = .ok () after ∧
        after.Inherits [0, 4, 5] 5 ∧ after.allTags 5 = [1] := by
  intro tree
  obtain ⟨inherits, regrafted, -⟩ := inheritance_of_run sampleRule
  have outer : tree.IsRootPath [0] 0 := isRootPath_singleton rfl
  have inner : tree.IsRootPath ([0] ++ [2]) 2 := outer.append rfl (.singleton _) rfl
  have path : tree.IsRootPath ([0, 2] ++ [4, 5]) 5 :=
    inner.append rfl (.cons_cons rfl (.singleton _)) rfl
  have moved := (regrafted 0 .tests [4] _ rfl).moved [0] [0, 2] 4 [5] 5 outer path
    List.mem_cons_self (by decide)
  exact ⟨rfl, _, rfl, moved, moved.all⟩

end Tree

end Gherkin
