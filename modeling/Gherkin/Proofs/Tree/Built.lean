import Gherkin.Proofs.Record.Reached
import Gherkin.Proofs.Tree.Change

/-!
# Built trees

Building adds exactly what a legal record says: a node for each record that is reached, numbered
in preorder, with the element and the line of its record and with its children in their slots.
A record that is not legal adds nothing.
-/

namespace Gherkin

open Record

namespace Tree

variable {tree : Tree} {record : Record} {branch : Branch Origin} {id : NodeId}

/-- A node has the element and the line of a record, and the nodes of its child records are its
children: each slot holds those that live there, in their order. -/
structure Shows (tree : Tree) (id : NodeId) (record : Record) : Prop where
  element : ∃ kind element, record.Declares kind ∧ record.element kind = .ok element ∧
    tree.element? id = some element
  line : tree.line? id = record.line?
  slot : ∀ slot, tree.slot id slot =
    ((positions (id + 1) record.childRecords).filter fun place =>
      place.1.home? == some slot).map Prod.snd
  parent : ∀ place ∈ positions (id + 1) record.childRecords, tree.parent? place.2 = some id

/-- A tree has grown by the nodes of a record, and by nothing else. -/
structure Gains (tree : Tree) (record : Record) (grown : Tree) : Prop where
  older : ∀ id < tree.size, grown.node? id = tree.node? id
  size : grown.size = tree.size + record.reached.length
  shows : ∀ place ∈ record.reached.zipIdx tree.size, grown.Shows place.2 place.1
  detached : grown.parent? tree.size = none
  kept : grown.record? tree.size = some record
  bare : ∀ id ≠ tree.size, grown.record? id = tree.record? id

/-! ### Numbers of nodes -/

theorem filter_places {records : List Record} {children : List (Branch Origin)}
    (below : List.Forall₂ (fun inner child => inner.branch = .ok child) records children)
    (next : NodeId) (slot : Slot) :
    ((Branch.places next children).filter fun place => place.1.home == some slot).map Prod.snd =
      ((positions next records).filter fun place => place.1.home? == some slot).map Prod.snd := by
  induction below generalizing next with
  | nil => rfl
  | @cons inner child rest others here _ ih =>
    rw [Branch.places, positions, List.filter_cons, List.filter_cons, home?_of_branch here,
      size_of_branch here]
    split
    · rw [List.map_cons, List.map_cons, ih]
    · exact ih _

/-! ### What the nodes show -/

theorem HoldsFrom.mem {start : NodeId} {nodes : List Node} {node : Node}
    (holds : tree.HoldsFrom start nodes) (after : start ≤ id) (before : id < start + nodes.length)
    (found : tree.node? id = some node) : node ∈ nodes := by
  have here := holds (id - start) (Nat.sub_lt_left_of_lt_add after before)
  rw [Nat.add_sub_cancel' after, found] at here
  exact List.mem_of_getElem? here.symm

/-- What is true of all that is reached by the records of some branches, each at its place, if it
is where the nodes of one of the branches stand. -/
theorem forall_reached_of_children {holdsAt : Record × NodeId → Prop} {records : List Record}
    {children : List (Branch Origin)} {next : NodeId}
    (below : List.Forall₂ (fun inner child => inner.branch = .ok child) records children)
    (each : ∀ child ∈ children, ∀ (inner : Record) (start : NodeId), inner.branch = .ok child →
      tree.HoldsFrom start (child.nodes start (some id)) →
        ∀ place ∈ inner.reached.zipIdx start, holdsAt place)
    (holds : tree.HoldsFrom next (Branch.childNodes id next children)) :
    ∀ place ∈ (records.flatMap reached).zipIdx next, holdsAt place := by
  induction below generalizing next with
  | nil => exact nofun
  | @cons inner child rest others here _ ih =>
    rw [Branch.childNodes] at holds
    have later := holds.append_right
    rw [Branch.length_nodes] at later
    rw [List.flatMap_cons, List.zipIdx_append, List.forall_mem_append, ← size_of_branch here]
    exact ⟨each child List.mem_cons_self inner next here holds.append_left,
      ih (fun other member => each other (List.mem_cons_of_mem _ member)) later⟩

theorem parent?_of_children {records : List Record} {children : List (Branch Origin)}
    {next : NodeId}
    (below : List.Forall₂ (fun inner child => inner.branch = .ok child) records children)
    (holds : tree.HoldsFrom next (Branch.childNodes id next children)) :
    ∀ place ∈ positions next records, tree.parent? place.2 = some id := by
  induction below generalizing next with
  | nil => exact nofun
  | @cons inner child rest others here _ ih =>
    rw [Branch.childNodes] at holds
    have later := holds.append_right
    rw [Branch.length_nodes] at later
    rw [positions, List.forall_mem_cons, ← size_of_branch here]
    exact ⟨holds.append_left.parent?, ih later⟩

/-- The nodes of a branch show a record if its topmost node has the element and the line of the
record, and its children are those of the record. -/
theorem shows_of_node {kind : Kind} {element : Element} {children : List (Branch Origin)}
    {origin : Origin} {parent : Option NodeId} (named : record.kind = .ok kind)
    (itself : record.element kind = .ok element) (line : origin.line = record.line?)
    (below : List.Forall₂ (fun inner child => inner.branch = .ok child) record.childRecords
      children)
    (each : ∀ child ∈ children, ∀ (inner : Record) (start : NodeId), inner.branch = .ok child →
      tree.HoldsFrom start (child.nodes start (some id)) →
        ∀ place ∈ inner.reached.zipIdx start, tree.Shows place.2 place.1)
    (holds : tree.HoldsFrom id (Branch.nodes id parent (.node origin element children))) :
    ∀ place ∈ record.reached.zipIdx id, tree.Shows place.2 place.1 := by
  have shows := forall_reached_of_children below each holds.children
  have parents := parent?_of_children below holds.children
  rw [reached_eq, List.zipIdx_cons, List.forall_mem_cons]
  refine ⟨⟨⟨kind, element, kind_eq_ok_iff.mp named, itself, holds.element?⟩, holds.line?.trans line,
    fun slot => ?_, parents⟩, shows⟩
  rw [← filter_places below]
  exact holds.slot slot

/-- Where the nodes of the branch of a record stand, they show the records it reaches. -/
theorem shows_of_holds {parent : Option NodeId} (described : record.branch = .ok branch)
    (holds : tree.HoldsFrom id (branch.nodes id parent)) :
    ∀ place ∈ record.reached.zipIdx id, tree.Shows place.2 place.1 := by
  induction branch using Branch.induction generalizing record id parent with
  | node label element children ih =>
    obtain ⟨kind, _, _, named, itself, below, same⟩ := exists_children_of_branch described
    cases same
    apply shows_of_node named itself rfl below _ holds
    intro child member inner start described holds
    exact ih child member described holds

theorem exists_of_mem_childNodes {parent next : NodeId} {children : List (Branch Origin)}
    {node : Node} (member : node ∈ Branch.childNodes parent next children) :
    ∃ child ∈ children, ∃ start, node ∈ child.nodes start (some parent) := by
  induction children generalizing next with
  | nil => exact absurd member List.not_mem_nil
  | cons child rest ih =>
    rw [Branch.childNodes] at member
    rcases List.mem_append.mp member with here | later
    · exact ⟨child, List.mem_cons_self, next, here⟩
    · obtain ⟨other, inside, found⟩ := ih later
      exact ⟨other, List.mem_cons_of_mem _ inside, found⟩

/-- No node of the branch of a record keeps a record. -/
theorem record_of_mem_nodes {parent : Option NodeId} (described : record.branch = .ok branch) :
    ∀ node ∈ branch.nodes id parent, node.record = none := by
  induction branch using Branch.induction generalizing record id parent with
  | node label element children ih =>
    obtain ⟨kind, _, _, _, _, below, same⟩ := exists_children_of_branch described
    cases same
    rw [Branch.nodes, List.forall_mem_cons]
    refine ⟨rfl, fun node member => ?_⟩
    obtain ⟨child, inside, start, found⟩ := exists_of_mem_childNodes member
    obtain ⟨inner, _, described⟩ := exists_of_forall₂ below.flip child inside
    exact ih child inside described node found

/-! ### Building -/

/-- Planting the branch of a record adds what the record says. -/
theorem gains_plant (tree : Tree) (rooted : record.rooted = .ok branch) :
    tree.Gains record (tree.plant branch) := by
  obtain ⟨inner, described, same⟩ := Except.bind_eq_ok_iff.mp rooted
  obtain ⟨kind, element, children, named, itself, below, rfl⟩ := exists_children_of_branch described
  cases same
  have holds := tree.holdsFrom_plant (.node ⟨record.line?, some record⟩ element children)
  have top := holds.node?_top
  refine ⟨fun id old => node?_plant_of_lt _ old, ?_, ?_, parent?_plant_self .., ?_, ?_⟩
  · rw [size_plant, ← size_of_branch described, Branch.size, Branch.size]
  · apply shows_of_node named itself rfl below _ holds
    intro child member inner start described holds
    exact shows_of_holds described holds
  · rw [record?, top]
    rfl
  · intro id other
    rcases Nat.lt_or_gt_of_ne other with old | new
    · rw [record?, record?, node?_plant_of_lt _ old]
    · have absent : tree.node? id = none := node?_eq_none_of_le (Nat.le_of_lt new)
      rw [record?, record?, absent]
      cases found : (tree.plant (.node ⟨record.line?, some record⟩ element children)).node? id with
      | none => rfl
      | some node =>
        have within : id < tree.size + 1 + (Branch.childNodes tree.size (tree.size + 1)
            children).length := by
          have bound := lt_size_of_node? found
          rw [size_plant, Branch.size, ← Nat.add_assoc] at bound
          rwa [Branch.length_childNodes]
        obtain ⟨child, inside, start, here⟩ :=
          exists_of_mem_childNodes (holds.children.mem new within found)
        obtain ⟨inner, _, described⟩ := exists_of_forall₂ below.flip child inside
        exact record_of_mem_nodes described node here

/-- Every record that is reached is shown by a new node. -/
theorem Gains.exists_shows {grown : Tree} {inner : Record} (gains : tree.Gains record grown)
    (reaches : inner ∈ record.reached) : ∃ id, tree.size ≤ id ∧ grown.Shows id inner := by
  obtain ⟨i, bound, rfl⟩ := List.getElem_of_mem reaches
  have place : (record.reached[i], tree.size + i) ∈ record.reached.zipIdx tree.size :=
    List.mem_zipIdx_iff_le_and_getElem?_sub.mpr ⟨Nat.le_add_right _ _, by simp [bound]⟩
  exact ⟨tree.size + i, Nat.le_add_right _ _, gains.shows _ place⟩

/-- Building a record adds what it says if it is legal, and nothing otherwise, at once and step by
step alike. -/
theorem build_exact (tree : Tree) (record : Record) :
    (record.Legal ∧ ∃ grown, tree.build record = .ok (grown, tree.size) ∧
      Change.build record tree = .ok tree.size grown ∧ tree.Gains record grown) ∨
    (¬ record.Legal ∧ ∃ error, tree.build record = .error error ∧
      Change.build record tree = .error error tree) := by
  rw [Change.build_eq, build]
  cases rooted : record.rooted with
  | ok branch =>
    obtain ⟨_, described, _⟩ := Except.bind_eq_ok_iff.mp rooted
    exact .inl ⟨legal_of_branch described, tree.plant branch, rfl, rfl, gains_plant tree rooted⟩
  | error error =>
    refine .inr ⟨fun legal => ?_, error, rfl, rfl⟩
    obtain ⟨⟨origin, element, children⟩, described⟩ := legal.exists_branch
    rw [Record.rooted, described] at rooted
    cases rooted

end Tree

end Gherkin
