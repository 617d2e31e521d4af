import Gherkin.Proofs.Tree.Navigation
import Gherkin.Proofs.Tree.RowEdits
import Mathlib.Algebra.BigOperators.Group.List.Basic
import Mathlib.Algebra.Group.Action.Defs
import Mathlib.Algebra.Ring.Nat

/-!
# Test counts

The tests of a node are counted kind by kind, in the slots that lead to tests. They are the
scenarios in the subtree of the node and the argument rows of the examples blocks below it,
because scenarios and examples blocks lie nowhere else. A row that is added or removed changes
the subtrees that hold its block by this row alone, and so their counts by one.
-/

namespace Gherkin

namespace Kind

/-- Whether elements of a kind run as tests, by themselves or with what is below them. -/
def isCounted : Kind → Bool
  | .directory | .featureFile | .feature | .rule | .scenario | .outline => true
  | _ => false

/-- Examples blocks are below outlines only, and what is counted is below nothing but what is
counted by its children. -/
theorem child_cases {kind child : Kind} {slot : Slot} (owned : slot ∈ kind.slots)
    (home : child.home = some slot) :
    (child = .example → kind = .outline) ∧
      (child.isCounted = true → kind.isCounted = true ∧ kind.isTest = false) := by
  cases child <;> cases home <;> revert owned <;> cases kind <;> decide

end Kind

namespace Tree

open Relation

variable {tree after : Tree} {id block row : NodeId} {kind : Kind} {values : RowValues}

/-- The tests of a node of a kind, counted in the slots that lead to tests. -/
def viewedTests (tree : Tree) (id : NodeId) : Kind → Nat
  | .scenario => 1
  | .outline => ((tree.examples id).map fun block => (tree.argumentRows block).length).sum
  | .rule | .feature => ((tree.tests id ++ tree.rules id).map tree.testCount).sum
  | .featureFile => ((tree.feature? id).map tree.testCount).getD 0
  | .directory => ((tree.featureFiles id ++ tree.directories id).map tree.testCount).sum
  | _ => 0

/-- The number of scenarios among a node and its descendants. -/
def scenarioCount (tree : Tree) (id : NodeId) : Nat :=
  ((tree.subtree id).filter fun node => tree.kind? node = some .scenario).length

/-- The number of rows behind the first one in all examples blocks among the descendants of a
node. -/
def exampleRowCount (tree : Tree) (id : NodeId) : Nat :=
  (((tree.descendants id).filter fun node => tree.kind? node = some .example).map fun block =>
    (tree.rows block).tail.length).sum

/-- Whether a node is of a kind that is counted and lies above another one. -/
def countsAbove (tree : Tree) (id below : NodeId) : Bool :=
  (tree.kind? id).any Kind.isCounted && (tree.ancestors below).contains id

/-! ### Counting by children -/

theorem length_argumentRows (tree : Tree) (id : NodeId) :
    (tree.argumentRows id).length =
      if tree.kind? id = some .example then (tree.rows id).tail.length else 0 := by
  rw [argumentRows, exampleRows]
  split <;> rfl

theorem kind?_of_branch? {branch : Branch NodeId} (read : tree.branch? id = some branch) :
    tree.kind? id = some branch.kind :=
  kind?_of_branchWithin read

/-- What is counted in the branches of some nodes can be counted at the nodes. -/
theorem map_branches {ids : List NodeId} {branches : List (Branch NodeId)}
    (read : ids.map tree.branch? = branches.map some) (count : Branch NodeId → Nat) :
    ids.map (fun id => ((tree.branch? id).map count).getD 0) = branches.map count := by
  have counted := congrArg (List.map fun branch => (Option.map count branch).getD 0) read
  simpa only [List.map_map, Function.comp_def, Option.map_some, Option.getD_some] using counted

namespace Linked

/-- Branches of a kind are those of the nodes of this kind. -/
theorem length_ofKind (linked : tree.Linked) (kind : Kind) (ids : List NodeId) :
    (Branch.ofKind kind (ids.filterMap tree.branch?)).length =
      (ids.filter fun id => tree.kind? id == some kind).length := by
  induction ids with
  | nil => rfl
  | cons first rest ih =>
    cases read : tree.branch? first with
    | none =>
      have absent : tree.kind? first = none := by
        rw [linked.branch?_eq, Option.map_eq_none_iff] at read
        rw [kind?, read, Option.map_none]
      rw [List.filterMap_cons_none read, List.filter_cons_of_neg (by simp [absent]), ih]
    | some branch =>
      have same : (branch.kind == kind) = (tree.kind? first == some kind) := by
        rw [kind?_of_branch? read]
        rfl
      rw [List.filterMap_cons_some read]
      unfold Branch.ofKind at ih ⊢
      rw [List.filter_cons, List.filter_cons, ← same]
      split
      · rw [List.length_cons, List.length_cons, ih]
      · exact ih

/-- The rows of an examples block are its children of this kind. -/
theorem filter_children_row (linked : tree.Linked) (found : tree.kind? id = some .example) :
    (tree.children id).filter (fun child => tree.kind? child == some .row) = tree.rows id := by
  have kept (slot : Slot) (child : NodeId) (member : child ∈ tree.slot id slot) :
      (tree.kind? child == some .row) = (slot == .rows) := by
    obtain ⟨kind, same, home⟩ := (linked.holds id slot child member).home
    rw [same]
    cases kind <;> cases home <;> rfl
  rw [children_eq_flatMap found]
  change ((tree.slot id .tags ++ (tree.slot id .rows ++ [])).filter _) = _
  rw [List.append_nil, List.filter_append, List.filter_congr (kept .tags),
    List.filter_congr (kept .rows)]
  simp [rows]

theorem length_argumentRows_eq (linked : tree.Linked) (id : NodeId) :
    (tree.argumentRows id).length = ((tree.branch? id).map Branch.argumentCount).getD 0 := by
  rw [length_argumentRows, linked.branch?_eq, kind?]
  cases here : tree.node? id with
  | none => rfl
  | some node =>
    change _ = if node.kind = .example then
      (Branch.ofKind .row (node.children.filterMap tree.branch?)).length - 1 else 0
    rw [Option.map_some, linked.length_ofKind, ← children_eq here]
    by_cases block : node.kind = .example
    · have found : tree.kind? id = some .example := by rw [kind?, here, Option.map_some, block]
      rw [if_pos (congrArg some block), if_pos block, linked.filter_children_row found,
        List.length_tail]
    · rw [if_neg fun same => block (Option.some.inj same), if_neg block]

/-- The tests of a node are counted by its children. -/
theorem testCount_eq (linked : tree.Linked) {node : Node} (here : tree.node? id = some node) :
    tree.testCount id = match node.kind with
      | .scenario => 1
      | .outline => ((tree.children id).map fun child => (tree.argumentRows child).length).sum
      | .rule | .feature | .featureFile | .directory =>
        ((tree.children id).map tree.testCount).sum
      | _ => 0 := by
  obtain ⟨branches, below, read⟩ := linked.exists_branch? here
  have tests : (tree.children id).map tree.testCount = branches.map Branch.testCount := by
    rw [children_eq here]
    exact map_branches below _
  have arguments : (tree.children id).map (fun child => (tree.argumentRows child).length) =
      branches.map Branch.argumentCount := by
    simp only [linked.length_argumentRows_eq]
    rw [children_eq here]
    exact map_branches below _
  have counted : Branch.testCounts branches = (branches.map Branch.testCount).sum := by
    clear below read tests arguments
    induction branches with
    | nil => rfl
    | cons branch rest ih => rw [Branch.testCounts, ih, List.map_cons, List.sum_cons]
  rw [testCount, read, Option.map_some, Option.getD_some, tests, arguments, ← counted, Node.kind]
  cases node.element <;> rfl

theorem testCount_eq_zero (linked : tree.Linked)
    (other : ∀ kind, tree.kind? id = some kind → kind.isCounted = false) :
    tree.testCount id = 0 := by
  cases here : tree.node? id with
  | none =>
    rw [testCount, linked.branch?_eq, here]
    rfl
  | some node =>
    have idle := other node.kind (by rw [kind?, here, Option.map_some])
    rw [linked.testCount_eq here]
    generalize node.kind = kind at idle
    cases kind <;> first | rfl | exact absurd idle (by decide)

/-- A slot adds nothing when what can live in it counts for nothing. -/
theorem sum_slot_eq_zero (linked : tree.Linked) {slot : Slot} {count : NodeId → Nat}
    (nothing : ∀ child kind, tree.kind? child = some kind → kind.home = some slot →
      count child = 0) (id : NodeId) : ((tree.slot id slot).map count).sum = 0 := by
  refine List.sum_eq_zero fun number member => ?_
  obtain ⟨child, inside, rfl⟩ := List.mem_map.mp member
  obtain ⟨kind, same, home⟩ := (linked.holds id slot child inside).home
  exact nothing child kind same home

theorem sum_slot_testCount (linked : tree.Linked) (slot : Slot)
    (other : ∀ kind ∈ Kind.all, kind.home = some slot → kind.isCounted = false) (id : NodeId) :
    ((tree.slot id slot).map tree.testCount).sum = 0 := by
  refine linked.sum_slot_eq_zero (fun child kind found home => ?_) id
  refine linked.testCount_eq_zero fun again found' => ?_
  cases found.symm.trans found'
  exact other kind kind.mem_all home

theorem sum_slot_argumentRows (linked : tree.Linked) (slot : Slot) (other : slot ≠ .examples)
    (id : NodeId) :
    ((tree.slot id slot).map fun child => (tree.argumentRows child).length).sum = 0 := by
  refine linked.sum_slot_eq_zero (fun child kind found home => ?_) id
  rw [length_argumentRows, if_neg]
  intro block
  cases found.symm.trans block
  exact other (Option.some.inj home).symm

/-- The tests of a node are counted in the slots that lead to tests. -/
theorem testCount_eq_viewedTests (linked : tree.Linked) (found : tree.kind? id = some kind) :
    tree.testCount id = tree.viewedTests id kind := by
  have children := children_eq_flatMap found
  have single : (tree.slot id .feature).length ≤ 1 := linked.single id .feature rfl
  have tags := linked.sum_slot_testCount .tags (by decide) id
  have background := linked.sum_slot_testCount .background (by decide) id
  have tagRows := linked.sum_slot_argumentRows .tags (by decide) id
  have stepRows := linked.sum_slot_argumentRows .steps (by decide) id
  obtain ⟨node, here, rfl⟩ := Option.map_eq_some_iff.mp found
  rw [linked.testCount_eq here, children]
  generalize node.kind = kind at found
  cases kind with
  | outline => simp [Kind.slots, viewedTests, examples, tagRows, stepRows]
  | feature => simp [Kind.slots, viewedTests, tests, rules, tags, background]
  | rule =>
    have rules : tree.rules id = [] := linked.slot_eq_nil fun kind' found' => by
      cases found.symm.trans found'
      decide
    simp [Kind.slots, viewedTests, tests, rules, tags, background]
  | featureFile =>
    rw [viewedTests, feature?]
    rcases slot : tree.slot id .feature with _ | ⟨feature, _ | ⟨second, others⟩⟩
    · simp [Kind.slots, slot]
    · simp [Kind.slots, slot]
    · simp [slot] at single
  | directory => simp [Kind.slots, viewedTests, featureFiles, directories]
  | _ => rfl

end Linked

/-! ### Counting in the subtree -/

/-- What a node adds to the tests of the nodes above it, by itself: a scenario counts as one test,
and so does each row of an examples block but the first. -/
def ownTests (tree : Tree) (id : NodeId) : Nat :=
  (if tree.kind? id = some .scenario then 1 else 0) + (tree.argumentRows id).length

theorem ownTests_eq (found : tree.kind? id = some kind) :
    tree.ownTests id = if kind = .scenario then 1
      else if kind = .example then (tree.argumentRows id).length else 0 := by
  have rows := tree.length_argumentRows id
  rw [ownTests, rows, found]
  cases kind <;> simp

/-- The tests that a node adds to those of the nodes above it, with what is below it. An examples
block has no tests of its own, but its outline has those of its rows. -/
def addedTests (tree : Tree) (id : NodeId) : Nat :=
  if tree.kind? id = some .example then (tree.argumentRows id).length else tree.testCount id

/-- What is added up in a subtree counts the scenarios and the rows of examples in it. -/
theorem sum_ownTests (tree : Tree) (ids : List NodeId) :
    (ids.map tree.ownTests).sum =
      (ids.filter fun node => tree.kind? node = some .scenario).length +
        ((ids.filter fun node => tree.kind? node = some .example).map fun block =>
          (tree.rows block).tail.length).sum := by
  unfold ownTests
  simp only [length_argumentRows]
  rw [List.sum_map_add, List.sum_map_ite, List.sum_map_ite]
  simp

namespace Linked

theorem sum_subtree (linked : tree.Linked) (count : NodeId → Nat) (id : NodeId) :
    ((tree.subtree id).map count).sum = count id +
      ((tree.children id).map fun child => ((tree.subtree child).map count).sum).sum := by
  rw [subtree, linked.descendants_eq_subtrees, List.map_cons, List.sum_cons, List.map_flatMap,
    List.flatMap, List.sum_flatten, List.map_map]
  rfl

/-- Only outlines have examples, and only what is above the tests has children with tests. -/
theorem testCount_of_mem_children (linked : tree.Linked) (found : tree.kind? id = some kind)
    {child : NodeId} (member : child ∈ tree.children id) :
    (tree.kind? child = some .example → kind = .outline) ∧
      (kind.isCounted = false ∨ kind.isTest = true → tree.testCount child = 0) := by
  rw [children_eq_flatMap found] at member
  obtain ⟨slot, owned, inside⟩ := List.mem_flatMap.mp member
  obtain ⟨inner, same, home⟩ := (linked.holds id slot child inside).home
  obtain ⟨block, tests⟩ := Kind.child_cases owned home
  refine ⟨fun found' => block (Option.some.inj (same.symm.trans found')), fun quiet => ?_⟩
  refine linked.testCount_eq_zero fun again found' => ?_
  cases same.symm.trans found'
  refine Bool.eq_false_iff.mpr fun counted => ?_
  obtain ⟨counted', untested⟩ := tests counted
  rcases quiet with quiet | quiet
  · exact Bool.false_ne_true (quiet.symm.trans counted')
  · exact Bool.false_ne_true (untested.symm.trans quiet)

theorem map_addedTests (linked : tree.Linked) (found : tree.kind? id = some kind)
    (other : kind ≠ .outline) :
    (tree.children id).map tree.addedTests = (tree.children id).map tree.testCount :=
  List.map_congr_left fun _ member =>
    if_neg fun block => other ((linked.testCount_of_mem_children found member).1 block)

theorem map_addedTests_of_outline (linked : tree.Linked) (found : tree.kind? id = some .outline) :
    (tree.children id).map tree.addedTests =
      (tree.children id).map fun child => (tree.argumentRows child).length := by
  refine List.map_congr_left fun child member => ?_
  rw [addedTests]
  split
  · rfl
  · next other =>
    rw [(linked.testCount_of_mem_children found member).2 (.inr rfl), length_argumentRows,
      if_neg other]

theorem sum_testCount_children (linked : tree.Linked) (found : tree.kind? id = some kind)
    (idle : kind.isCounted = false ∨ kind.isTest = true) :
    ((tree.children id).map tree.testCount).sum = 0 := by
  refine List.sum_eq_zero fun count member => ?_
  obtain ⟨child, inside, rfl⟩ := List.mem_map.mp member
  exact (linked.testCount_of_mem_children found inside).2 idle

/-- What a node adds is what it counts by itself and what its children add. -/
theorem addedTests_eq (linked : tree.Linked) (id : NodeId) :
    tree.addedTests id = tree.ownTests id + ((tree.children id).map tree.addedTests).sum := by
  cases here : tree.node? id with
  | none =>
    have absent : tree.kind? id = none := by rw [kind?, here, Option.map_none]
    have idle : tree.testCount id = 0 := linked.testCount_eq_zero (by simp [absent])
    simp [addedTests, children, here, absent, idle, ownTests, length_argumentRows]
  | some node =>
    have found : tree.kind? id = some node.kind := by rw [kind?, here, Option.map_some]
    have counted := linked.testCount_eq here
    generalize node.kind = kind at found counted
    rw [ownTests_eq found, addedTests, found]
    cases kind with
    | outline =>
      rw [linked.map_addedTests_of_outline found, counted]
      exact (Nat.zero_add _).symm
    | scenario =>
      rw [linked.map_addedTests found (by decide), linked.sum_testCount_children found (.inr rfl),
        counted]
      rfl
    | rule | feature | featureFile | directory =>
      rw [linked.map_addedTests found (by decide), counted]
      exact (Nat.zero_add _).symm
    | _ =>
      rw [linked.map_addedTests found (by decide), linked.sum_testCount_children found (.inl rfl),
        counted]
      rfl

/-- What a node adds is added up in its subtree. -/
theorem sum_ownTests_subtree (linked : tree.Linked) (id : NodeId) :
    ((tree.subtree id).map tree.ownTests).sum = tree.addedTests id := by
  induction id using linked.induction with
  | step id ih => rw [linked.sum_subtree, List.map_congr_left ih, ← linked.addedTests_eq]

theorem sum_ownTests_subtree_of_ne (linked : tree.Linked)
    (other : ¬ tree.kind? id = some .example) :
    ((tree.subtree id).map tree.ownTests).sum = tree.testCount id :=
  (linked.sum_ownTests_subtree id).trans (if_neg other)

/-- The tests of a node are the scenarios in its subtree and the rows of the examples below it. -/
theorem testCount_eq_count (linked : tree.Linked) (found : tree.kind? id = some kind)
    (counted : kind.isCounted = true) :
    tree.testCount id = tree.scenarioCount id + tree.exampleRowCount id := by
  have other : ¬ tree.kind? id = some .example := by
    intro block
    cases found.symm.trans block
    cases counted
  have total := linked.sum_ownTests_subtree_of_ne other
  rw [sum_ownTests] at total
  rw [← total, scenarioCount, exampleRowCount]
  unfold subtree
  rw [List.filter_cons_of_neg (a := id) (p := fun node => tree.kind? node = some .example)
    (by simpa using other)]

end Linked

/-- An examples block is in the subtree of the nodes above it and in its own, which is that of no
counted node. -/
theorem Linked.countsAbove_iff (linked : tree.Linked) (found : tree.kind? block = some .example) :
    tree.countsAbove id block = true ↔
      (tree.kind? id).any Kind.isCounted = true ∧ block ∈ tree.subtree id := by
  rw [countsAbove, Bool.and_eq_true, List.contains_iff_mem, subtree, List.mem_cons,
    linked.mem_descendants_iff, mem_ancestors_iff linked.closed linked.acyclic]
  refine and_congr_right fun counted => (or_iff_right ?_).symm
  rintro rfl
  rw [found] at counted
  cases counted

/-! ### A row that comes or goes -/

/-- A tree in which an examples block has one row more, which was without a parent before if it
was there at all. -/
structure Rowed (tree : Tree) (block row : NodeId) (after : Tree) : Prop where
  owner : tree.kind? block = some .example
  before : ∀ kind, tree.kind? row = some kind → kind = .row
  alone : tree.parent? row = none
  now : after.kind? row = some .row
  kinds : ∀ id, id ≠ row → after.kind? id = tree.kind? id
  parents : ∀ id, after.parent? id = if id = row then some block else tree.parent? id
  rows : ∀ id, (after.argumentRows id).length =
    (tree.argumentRows id).length + if id = block then 1 else 0

namespace Rowed

variable (rowed : tree.Rowed block row after)

include rowed

theorem block_ne_row : block ≠ row := by
  rintro rfl
  cases rowed.before .example rowed.owner

theorem ownTests_eq (differ : id ≠ row) :
    after.ownTests id = tree.ownTests id + if id = block then 1 else 0 := by
  rw [ownTests, ownTests, rowed.kinds id differ, rowed.rows, Nat.add_assoc]

theorem ownTests_row : after.ownTests row = 0 := by
  rw [Tree.ownTests_eq rowed.now]
  rfl

variable (linked : tree.Linked) (grown : after.Linked)

include linked

/-- The row has no children. -/
theorem not_hasParent_row (child : NodeId) : ¬ tree.HasParent child row := by
  intro below
  obtain ⟨slot, inside⟩ := (linked.mem_slot_iff row child).mpr below
  obtain ⟨kind, found, owned⟩ := (linked.holds row slot child inside).owner
  cases rowed.before kind found
  cases owned

theorem not_mem_subtree (differ : id ≠ row) : row ∉ tree.subtree id := by
  rw [linked.mem_subtree_iff]
  intro path
  rcases path.cases_head with same | ⟨parent, step, -⟩
  · exact differ same.symm
  · exact Option.some_ne_none parent (step.symm.trans rowed.alone)

include grown

theorem mem_subtree_iff (differ : id ≠ row) (node : NodeId) :
    node ∈ after.subtree id ↔ node ∈ tree.subtree id ∨ node = row ∧ block ∈ tree.subtree id := by
  have stays {child parent : NodeId} (step : tree.HasParent child parent) :
      after.HasParent child parent := by
    have other : child ≠ row := by
      rintro rfl
      exact Option.some_ne_none parent (step.symm.trans rowed.alone)
    exact ((rowed.parents child).trans (if_neg other)).trans step
  have joins : after.HasParent row block := (rowed.parents row).trans (if_pos rfl)
  simp only [linked.mem_subtree_iff, grown.mem_subtree_iff]
  constructor
  · intro path
    induction path using ReflTransGen.head_induction_on with
    | refl => exact .inl .refl
    | @head child parent step _ ih =>
      have found := (rowed.parents child).symm.trans step
      split at found
      · next same =>
        cases found
        exact .inr ⟨same, ih.resolve_right fun both => rowed.block_ne_row both.1⟩
      · refine .inl (.head found (ih.resolve_right fun both => ?_))
        exact rowed.not_hasParent_row linked child (both.1 ▸ found)
  · rintro (path | ⟨rfl, path⟩)
    · exact ReflTransGen.mono (fun _ _ => stays) _ _ path
    · exact .head joins (ReflTransGen.mono (fun _ _ => stays) _ _ path)

/-- A subtree with the block in it has the row as well, and other subtrees are the same. -/
theorem perm_subtree (differ : id ≠ row) :
    (after.subtree id).Perm
      (if block ∈ tree.subtree id then row :: tree.subtree id else tree.subtree id) := by
  have nodup := linked.nodup_subtree id
  have members := rowed.mem_subtree_iff linked grown differ
  split
  · next inside =>
    refine (List.perm_ext_iff_of_nodup (grown.nodup_subtree id) ?_).mpr fun node => ?_
    · exact List.nodup_cons.mpr ⟨rowed.not_mem_subtree linked differ, nodup⟩
    · rw [members, List.mem_cons, or_comm]
      simp [inside]
  · next outside =>
    refine (List.perm_ext_iff_of_nodup (grown.nodup_subtree id) nodup).mpr fun node => ?_
    rw [members]
    simp [outside]

theorem sum_subtree (differ : id ≠ row) :
    ((after.subtree id).map after.ownTests).sum =
      ((tree.subtree id).map tree.ownTests).sum + if block ∈ tree.subtree id then 1 else 0 := by
  have others : (tree.subtree id).map after.ownTests =
      (tree.subtree id).map fun node => tree.ownTests node + if node = block then 1 else 0 := by
    refine List.map_congr_left fun node member => rowed.ownTests_eq ?_
    rintro rfl
    exact rowed.not_mem_subtree linked differ member
  have whole : ((after.subtree id).map after.ownTests).sum =
      ((tree.subtree id).map after.ownTests).sum := by
    rw [((rowed.perm_subtree linked grown differ).map _).sum_nat]
    split
    · rw [List.map_cons, List.sum_cons, rowed.ownTests_row, Nat.zero_add]
    · rfl
  have once : ((tree.subtree id).map fun node => if node = block then 1 else 0).sum =
      if block ∈ tree.subtree id then 1 else 0 := by
    rw [List.sum_map_eq_nsmul_single block _ fun other differ _ => if_neg differ,
      (linked.nodup_subtree id).count, if_pos rfl, smul_eq_mul, Nat.mul_one]
  rw [whole, others, List.sum_map_add, once]

omit linked grown in
theorem any_kind?_row : (tree.kind? row).any Kind.isCounted = false := by
  refine (Option.any_eq_false ..).mpr fun kind found => ?_
  rw [rowed.before kind found]
  rfl

/-- The row changes the number of tests of exactly the counted nodes above it, by one. -/
theorem testCount_eq (id : NodeId) :
    after.testCount id = tree.testCount id + if tree.countsAbove id block then 1 else 0 := by
  simp only [linked.countsAbove_iff rowed.owner]
  by_cases same : id = row
  · subst same
    have idle := rowed.any_kind?_row
    have now : (after.kind? id).any Kind.isCounted = false := by
      rw [rowed.now]
      rfl
    rw [linked.testCount_eq_zero ((Option.any_eq_false ..).mp idle),
      grown.testCount_eq_zero ((Option.any_eq_false ..).mp now), idle]
    simp
  · have kinds := rowed.kinds id same
    cases counted : (tree.kind? id).any Kind.isCounted with
    | false =>
      have idle := (Option.any_eq_false ..).mp counted
      rw [linked.testCount_eq_zero idle, grown.testCount_eq_zero (kinds ▸ idle)]
      simp
    | true =>
      obtain ⟨kind, found, counted'⟩ := (Option.any_eq_true ..).mp counted
      have other : ¬ tree.kind? id = some .example := by
        intro block
        cases found.symm.trans block
        cases counted'
      have before := linked.sum_ownTests_subtree_of_ne other
      have now := grown.sum_ownTests_subtree_of_ne (kinds ▸ other)
      rw [← before, ← now, rowed.sum_subtree linked grown same]
      simp only [true_and]

/-- The same nodes above the block are counted with and without the row. -/
theorem countsAbove_eq (id : NodeId) : after.countsAbove id block = tree.countsAbove id block := by
  have differ := rowed.block_ne_row
  have owner : after.kind? block = some .example := (rowed.kinds block differ).trans rowed.owner
  rw [Bool.eq_iff_iff, grown.countsAbove_iff owner, linked.countsAbove_iff rowed.owner]
  by_cases same : id = row
  · subst same
    rw [rowed.now, rowed.any_kind?_row]
    exact ⟨fun both => absurd both.1 nofun, fun both => absurd both.1 nofun⟩
  · rw [rowed.kinds id same, rowed.mem_subtree_iff linked grown same]
    simp [differ]

end Rowed

theorem argumentRows_congr {a b : Tree} (kind : a.kind? id = b.kind? id)
    (rows : a.slot id .rows = b.slot id .rows) : a.argumentRows id = b.argumentRows id := by
  rw [argumentRows, argumentRows, exampleRows, exampleRows, kind, Tree.rows, Tree.rows, rows]

section Edits

variable {header : NodeId} (linked : tree.Linked) (first : tree.parameterRow? block = some header)

include first

theorem rowed_withRow (cells : List Text) :
    tree.Rowed block tree.size (tree.withRow block cells) := by
  have owner := kind?_of_parameterRow? first
  have here := lt_size_of_kind? owner
  have absent := node?_size tree
  have kinds (id : NodeId) (differ : id ≠ tree.size) :
      (tree.withRow block cells).kind? id = tree.kind? id :=
    kind?_of_content? ((content?_withRow here cells id).trans (if_neg differ))
  have now : (tree.withRow block cells).kind? tree.size = some .row := by
    have content := content?_withRow here cells tree.size
    rw [if_pos rfl, content?, Option.map_eq_some_iff] at content
    obtain ⟨node, found, same⟩ := content
    rw [kind?, found, Option.map_some, Node.kind, (Prod.mk.inj same).1]
    rfl
  refine ⟨owner, fun kind found => ?_, ?_, now, kinds, parent?_withRow here cells, fun id => ?_⟩
  · rw [kind?, absent] at found
    cases found
  · rw [parent?, absent, Option.bind_none]
  · split
    · next same =>
      rw [same, (rows_withRow first cells).2, List.length_append, List.length_singleton]
    · next differ =>
      by_cases new : id = tree.size
      · have bare : tree.kind? tree.size = none := by rw [kind?, absent, Option.map_none]
        rw [length_argumentRows, length_argumentRows, new, now, bare]
        rfl
      · refine congrArg List.length (argumentRows_congr (kinds id new) ?_)
        exact (slot_withRow here cells id .rows).trans (if_neg fun both => differ both.1)

include linked

theorem rowed_detach (member : row ∈ tree.argumentRows block) :
    (tree.detach row).Rowed block row tree := by
  have stored := mem_rows_of_argumentRows first member
  have found : tree.kind? row = some .row := by
    obtain ⟨kind, found, home⟩ := (linked.holds block .rows row stored).home
    cases kind <;> cases home
    exact found
  have parent : tree.parent? row = some block := linked.hasParent stored
  refine ⟨?_, fun kind found' => ?_, ?_, found, fun id _ => (kind?_detach ..).symm, fun id => ?_,
    fun id => ?_⟩
  · rw [kind?_detach, kind?_of_parameterRow? first]
  · rw [kind?_detach] at found'
    exact (Option.some.inj (found.symm.trans found')).symm
  · rw [parent?_detach, if_pos rfl]
  · rw [parent?_detach]
    split
    · next same => rw [same, parent]
    · rfl
  · split
    · next same =>
      have nodup := linked.nodup block .rows
      rw [rows_of_parameterRow? first] at nodup
      have nodup := (List.nodup_cons.mp nodup).2
      rw [same, (rows_detach linked first member).2, ← nodup.erase_eq_filter,
        List.length_erase_add_one member]
    · next differ =>
      refine congrArg List.length (argumentRows_congr (kind?_detach ..).symm ?_)
      rw [linked.slot_detach, filter_bne_of_not_mem]
      exact fun again => differ (linked.slot_unique again stored).1

end Edits

/-- A row is added to a block that has a parameter row already. -/
theorem exists_of_addRow (added : tree.addRow block values = .ok (after, row)) :
    ∃ header cells, tree.parameterRow? block = some header ∧ after = tree.withRow block cells ∧
      row = tree.size := by
  cases first : tree.parameterRow? block with
  | none =>
    obtain ⟨error, refused⟩ := exists_addRow_eq_error first
    cases (refused values).symm.trans added
  | some header =>
    rw [addRow_eq first] at added
    obtain ⟨cells, -, same⟩ := Except.map_eq_ok_iff.mp added
    cases same
    exact ⟨header, cells, rfl, rfl, rfl⟩

/-- A row that is removed was an argument row. -/
theorem exists_of_removeRow (removed : tree.removeRow block values = .ok (after, some row)) :
    row ∈ tree.argumentRows block ∧ after = tree.detach row := by
  by_cases kind : tree.kind? block = some .example
  · rw [removeRow_eq kind] at removed
    split at removed
    · cases removed
    · obtain ⟨cells, -, same⟩ := Except.map_eq_ok_iff.mp removed
      rw [withoutRow] at same
      cases found : tree.rowWith? block cells with
      | none =>
        rw [found] at same
        cases same
      | some other =>
        rw [found] at same
        cases same
        exact ⟨List.mem_of_find?_eq_some found, rfl⟩
  · obtain ⟨error, refused⟩ := exists_removeRow_eq_error kind
    cases (refused values).symm.trans removed

/-- In every reachable tree the tests of a node are those in the slots that lead to tests, and they
are the scenarios among the node and its descendants with the rows behind the first one of all
examples blocks below it. A row that is added to an examples block or removed from it changes the
number of tests of exactly the nodes above the block that run as tests, by one. -/
theorem testCount_exact (reachable : tree.Reachable) :
    (∀ id kind, tree.kind? id = some kind → tree.testCount id = tree.viewedTests id kind ∧
      (kind.isCounted = true →
        tree.testCount id = tree.scenarioCount id + tree.exampleRowCount id)) ∧
    (∀ block values after row, tree.addRow block values = .ok (after, row) → ∀ id,
      after.testCount id = tree.testCount id + if tree.countsAbove id block then 1 else 0) ∧
    ∀ block values after row, tree.removeRow block values = .ok (after, some row) → ∀ id,
      tree.testCount id = after.testCount id + if tree.countsAbove id block then 1 else 0 := by
  have linked := reachable.linked
  refine ⟨fun id kind found => ?_, fun block values after row added id => ?_,
    fun block values after row removed id => ?_⟩
  · exact ⟨linked.testCount_eq_viewedTests found, linked.testCount_eq_count found⟩
  · have grown := linked.addRow added
    obtain ⟨header, cells, first, rfl, rfl⟩ := exists_of_addRow added
    exact (rowed_withRow first cells).testCount_eq linked grown id
  · obtain ⟨member, rfl⟩ := exists_of_removeRow removed
    obtain ⟨header, first⟩ := exists_parameterRow?_of_mem member
    have lower := linked.detach row
    have rowed := rowed_detach linked first member
    rw [rowed.countsAbove_eq lower linked]
    exact rowed.testCount_eq lower linked id

/-- A directory with a feature file, where a rule has a scenario and an outline with one argument
row. -/
def sampleDirectory : List Command :=
  let heading : Heading := ⟨[], [], []⟩
  [.add (.directory (Text.word "d")), .add (.featureFile (Text.word "d/f.feature")),
    .add (.feature heading []), .add (.rule heading), .add (.scenario heading),
    .add (.outline heading), .add (.example heading), .add (.row [Text.word "p"]),
    .assign 6 .rows [7], .assign 5 .examples [6], .assign 3 .tests [4, 5], .assign 2 .rules [3],
    .assign 1 .feature [2], .assign 0 .featureFiles [1], .addRow 6 (.positional [Text.word "1"])]

/-- The directory runs as two tests, as three with another row, and as one without the row it has;
the scenario beside the outline is one test all the time. -/
theorem testCount_sampleDirectory :
    let tree := Command.run sampleDirectory .empty
    tree.Reachable ∧ tree.testCount 0 = tree.scenarioCount 0 + tree.exampleRowCount 0 ∧
      tree.scenarioCount 0 = 1 ∧ tree.exampleRowCount 0 = 1 ∧
      (∃ after row, tree.addRow 6 (.positional [Text.word "2"]) = .ok (after, row) ∧
        after.testCount 0 = 3 ∧ after.testCount 4 = 1) ∧
      ∃ after row, tree.removeRow 6 (.positional [Text.word "1"]) = .ok (after, some row) ∧
        after.testCount 0 = 1 ∧ after.testCount 4 = 1 := by
  intro tree
  have reachable : tree.Reachable := ⟨sampleDirectory, rfl⟩
  obtain ⟨counts, adds, removes⟩ := testCount_exact reachable
  have whole := (counts 0 .directory rfl).2 rfl
  have scenarios : tree.scenarioCount 0 = 1 := by decide
  have rows : tree.exampleRowCount 0 = 1 := by decide
  have single : tree.testCount 4 = 1 := (counts 4 .scenario rfl).1
  have above : tree.countsAbove 0 6 = true := by decide
  have beside : tree.countsAbove 4 6 = false := by decide
  rw [scenarios, rows] at whole
  refine ⟨reachable, by rw [whole, scenarios, rows], scenarios, rows, ?_, ?_⟩
  · have added := adds 6 (.positional [Text.word "2"]) _ _ rfl
    refine ⟨_, _, rfl, ?_, ?_⟩
    · rw [added 0, whole, above]
      rfl
    · rw [added 4, single, beside]
      rfl
  · have removed := removes 6 (.positional [Text.word "1"]) _ 8 rfl
    refine ⟨_, 8, rfl, ?_, ?_⟩
    · have before := removed 0
      rw [whole, above] at before
      exact (Nat.succ.inj before).symm
    · have before := removed 4
      rw [single, beside] at before
      exact before.symm

end Tree

end Gherkin
