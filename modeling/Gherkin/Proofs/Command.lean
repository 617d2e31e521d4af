import Gherkin.Proofs.Modeler
import Gherkin.Proofs.Tree.Assign

/-!
# Commands and the trees they lead to

A command that fails leaves the tree as it was, however far it came. In a linked tree each
command comes to what it comes to at once, and the tree stays linked, so that every tree that
commands lead to is linked.
-/

namespace Gherkin

open Change

variable {tree after : Tree}

namespace Change

theorem discard_eq {α σ : Type} {change : Change α} {expected : Except Error σ}
    {value : σ → α} {after : σ → Tree}
    (ran : change tree = outcome tree (expected.map fun found => (value found, after found))) :
    (discard change : Change Unit) tree =
      outcome tree (expected.map fun found => ((), after found)) := by
  change EStateM.map (fun _ => ()) change tree = _
  rw [EStateM.map, ran]
  cases expected <;> rfl

end Change

namespace Command

/-- Every command either succeeds or leaves the tree as it was. -/
theorem exists_outcome (closed : tree.Closed) (command : Command) :
    ∃ expected, command.perform tree = outcome tree expected := by
  cases command with
  | add added => exact ⟨.ok ((), tree.add added), rfl⟩
  | edit id change => exact ⟨.ok ((), tree.edit id change), rfl⟩
  | setRecord id record => exact ⟨.ok ((), tree.setRecord id record), rfl⟩
  | detach id => exact ⟨.ok ((), tree.detach id), rfl⟩
  | assign parent slot ids => exact ⟨_, assign_apply tree parent slot ids⟩
  | addRow id values => exact ⟨_, discard_eq (addRow_eq closed id values)⟩
  | removeRow id values => exact ⟨_, update_eq _ tree⟩
  | build record => exact ⟨_, discard_eq (build_eq record tree)⟩
  | document modeler source uri => exact ⟨_, discard_eq (modeler.addDocument_eq source uri tree)⟩
  | element modeler kind source => exact ⟨_, discard_eq (modeler.addElement_eq kind source tree)⟩
  | result active parsed => exact ⟨_, discard_eq (Modeler.addResult_eq active parsed tree)⟩
  | file modeler disk path => exact ⟨_, discard_eq (modeler.addFile_eq path _ tree)⟩
  | directory modeler disk path =>
    exact ⟨_, discard_eq (modeler.addDirectory_eq disk path tree)⟩

/-- A linked tree is changed in place to what it is changed to at once. -/
theorem perform_eq (linked : tree.Linked) (command : Command) :
    command.perform tree =
      outcome tree ((command.effect tree).map fun after => ((), after)) := by
  cases command with
  | add added => rfl
  | edit id change => rfl
  | setRecord id record => rfl
  | detach id => rfl
  | assign parent slot ids => exact assign_eq linked parent slot ids
  | addRow id values =>
    rw [effect, Except.map_map]
    exact discard_eq (addRow_eq linked.closed id values)
  | removeRow id values => exact update_eq _ tree
  | build record =>
    have built : tree.build record =
        record.rooted.map fun branch => (tree.plant branch, tree.size) := by
      rw [Tree.build]
      cases record.rooted <;> rfl
    rw [effect, built, Except.map_map, Except.map_map]
    exact discard_eq (build_eq record tree)
  | document modeler source uri =>
    rw [effect, Except.map_map]
    exact discard_eq (modeler.addDocument_eq source uri tree)
  | element modeler kind source =>
    rw [effect, Except.map_map]
    exact discard_eq (modeler.addElement_eq kind source tree)
  | result active parsed =>
    rw [effect, Except.map_map]
    exact discard_eq (Modeler.addResult_eq active parsed tree)
  | file modeler disk path =>
    rw [effect, Except.map_map]
    exact discard_eq (modeler.addFile_eq path _ tree)
  | directory modeler disk path =>
    rw [effect, Except.map_map]
    exact discard_eq (modeler.addDirectory_eq disk path tree)

/-- A command that fails leaves no trace: there are the same nodes as before, with the same
elements, children, parents, lines and records. It need not be asked that the node of a record
exists, as a record is kept with its node; that parents exist holds wherever commands lead. -/
theorem unchanged_of_error (closed : tree.Closed) {command : Command} {error : Error}
    (failed : command.perform tree = .error error after) : after = tree := by
  obtain ⟨expected, ran⟩ := exists_outcome closed command
  rw [ran] at failed
  cases expected <;> cases failed
  rfl

/-- A tree with a tag. -/
def sampleTree : Tree := Tree.empty.add (.tag (Text.word "@kept"))

/-- A directory with a feature file that cannot be read. -/
def sampleDisk : Entry :=
  .directory [(Text.word "features", .directory [(Text.word "a.feature", .file none)])]

/-- The node of the directory is there when its file turns out to be unreadable, and is taken
back. -/
theorem unchanged_sampleTree :
    let node : Node := ⟨.directory (Text.word "features"), none, none, none, .empty⟩
    let modeler := Modeler.ofRelease .english .newest none
    (Command.directory modeler sampleDisk (Text.word "features")).perform sampleTree =
        .error (.unreadable (Text.word "features/a.feature"))
          ((sampleTree.push node).truncate sampleTree.size) ∧
      (sampleTree.push node).truncate sampleTree.size = sampleTree :=
  ⟨rfl, @unchanged_of_error sampleTree _ (Tree.linked_empty.push rfl rfl).closed
    (.directory (Modeler.ofRelease .english .newest none) sampleDisk (Text.word "features")) _ rfl⟩

end Command

/-! ### Linked trees -/

theorem Tree.Linked.addRow (linked : tree.Linked) {id row : NodeId} {values : RowValues}
    (added : tree.addRow id values = .ok (after, row)) : after.Linked := by
  obtain ⟨_, expected, added⟩ := Except.bind_eq_ok_iff.mp added
  have kind := Tree.expectKind_eq_ok expected
  cases parameters : tree.parameterRow? id with
  | none =>
    rw [parameters] at added
    cases added
  | some parameterRow =>
    rw [parameters] at added
    obtain ⟨cells, _, same⟩ := Except.bind_eq_ok_iff.mp added
    cases same
    have here : id < tree.size := Tree.lt_size_of_kind? kind
    have grown : (tree.add (.row cells)).Linked := linked.push rfl rfl
    refine grown.attach ⟨?_, ?_, List.nodup_singleton _, nofun, ?_⟩
    · refine List.forall_mem_singleton.mpr ⟨⟨.example, ?_, by decide⟩, ⟨.row, ?_, rfl⟩⟩
      · exact (Tree.kind?_push_of_lt here _).trans kind
      · exact Tree.kind?_push_self tree _
    · exact List.forall_mem_singleton.mpr (Tree.parent?_add_size ..)
    · refine List.forall_mem_singleton.mpr fun path => ?_
      rw [Tree.hasParent_add] at path
      rcases Relation.reflTransGen_iff_eq_or_transGen.mp path with same | path
      · exact Nat.ne_of_gt here same
      · exact linked.closed.not_transGen_size path

theorem Tree.Linked.removeRow (linked : tree.Linked) {id : NodeId} {row : Option NodeId}
    {values : RowValues} (removed : tree.removeRow id values = .ok (after, row)) :
    after.Linked := by
  obtain ⟨_, _, removed⟩ := Except.bind_eq_ok_iff.mp removed
  split at removed
  · cases removed
    exact linked
  · obtain ⟨cells, _, removed⟩ := Except.bind_eq_ok_iff.mp removed
    split at removed
    · cases removed
      exact linked.detach _
    · cases removed
      exact linked

/-- A command that succeeds keeps a tree linked. -/
theorem Tree.Linked.effect (linked : tree.Linked) {command : Command}
    (done : command.effect tree = .ok after) : after.Linked := by
  cases command with
  | add added =>
    cases done
    exact linked.push rfl rfl
  | edit id change =>
    cases done
    exact linked.modify id (fun node => node.element.kind_edit change) (fun _ => rfl) fun _ => rfl
  | setRecord id record =>
    cases done
    exact linked.modify id (fun _ => rfl) (fun _ => rfl) fun _ => rfl
  | detach id =>
    cases done
    exact linked.detach id
  | assign parent slot ids => exact linked.assign done
  | addRow id values =>
    obtain ⟨⟨changed, row⟩, added, rfl⟩ := Except.map_eq_ok_iff.mp done
    exact linked.addRow added
  | removeRow id values =>
    obtain ⟨⟨changed, row⟩, removed, rfl⟩ := Except.map_eq_ok_iff.mp done
    exact linked.removeRow removed
  | build record =>
    obtain ⟨⟨changed, root⟩, built, rfl⟩ := Except.map_eq_ok_iff.mp done
    obtain ⟨branch, rooted, same⟩ := Except.bind_eq_ok_iff.mp built
    cases same
    exact linked.plant (Modeler.grown_of_rooted rooted)
  | document modeler source uri =>
    obtain ⟨branch, modeled, rfl⟩ := Except.map_eq_ok_iff.mp done
    exact linked.plant (Modeler.grown_of_document modeled)
  | element modeler kind source =>
    obtain ⟨branch, modeled, rfl⟩ := Except.map_eq_ok_iff.mp done
    exact linked.plant (Modeler.grown_of_element modeled)
  | result active parsed =>
    obtain ⟨branch, modeled, rfl⟩ := Except.map_eq_ok_iff.mp done
    exact linked.plant (Modeler.grown_of_ofResult modeled)
  | file modeler disk path =>
    obtain ⟨branch, modeled, rfl⟩ := Except.map_eq_ok_iff.mp done
    exact linked.plant (Modeler.grown_of_ofFile modeled)
  | directory modeler disk path =>
    obtain ⟨branch, modeled, rfl⟩ := Except.map_eq_ok_iff.mp done
    exact linked.plant (Modeler.grown_of_loadDirectory modeled)

theorem Tree.Linked.perform (linked : tree.Linked) (command : Command) :
    (command.after tree).Linked := by
  rw [Command.after, command.perform_eq linked]
  cases done : command.effect tree with
  | ok changed => exact linked.effect done
  | error error => exact linked

theorem Command.linked_run (linked : tree.Linked) (commands : List Command) :
    (Command.run commands tree).Linked := by
  induction commands generalizing tree with
  | nil => exact linked
  | cons command rest ih => exact ih (linked.perform command)

/-- Some commands lead to a tree from the empty one. -/
def Tree.Reachable (tree : Tree) : Prop := ∃ commands, Command.run commands .empty = tree

theorem Tree.Reachable.linked (reachable : tree.Reachable) : tree.Linked := by
  obtain ⟨commands, rfl⟩ := reachable
  exact Command.linked_run Tree.linked_empty commands

/-- Whatever commands lead from the empty tree to another one, and whichever of them fail: a node
is in a slot of exactly its parent, no node is twice in the slots of the tree, every child is of
a kind that its slot takes and every slot is one its owner has, every parent and every child
exists, and no node is its own ancestor. -/
theorem Command.links_of_run (commands : List Command) :
    let tree := Command.run commands .empty
    (∀ parent child, (∃ slot, child ∈ tree.slot parent slot) ↔
      tree.parent? child = some parent) ∧
    tree.stored.Nodup ∧
    (∀ parent slot, ∀ child ∈ tree.slot parent slot,
      (∃ kind, tree.kind? child = some kind ∧ slot.accepts kind = true) ∧
        ∃ kind, tree.kind? parent = some kind ∧ slot ∈ kind.slots) ∧
    (∀ child parent, tree.parent? child = some parent → child < tree.size ∧ parent < tree.size) ∧
    ∀ id, ¬ Relation.TransGen tree.HasParent id id ∧ id ∉ tree.ancestors id := by
  intro tree
  have linked : tree.Linked := Command.linked_run Tree.linked_empty commands
  refine ⟨linked.mem_slot_iff, linked.nodup_stored, fun parent slot child member => ?_,
    fun child parent found => ?_, fun id => ?_⟩
  · obtain ⟨kind, found, home⟩ := (linked.holds parent slot child member).home
    exact ⟨⟨kind, found, Slot.accepts_iff.mpr home⟩, (linked.holds parent slot child member).owner⟩
  · exact ⟨Tree.lt_size_of_parent? found, linked.closed child parent found⟩
  · exact ⟨linked.acyclic id, fun above => linked.acyclic id (Tree.transGen_of_mem_ancestors above)⟩

end Gherkin
