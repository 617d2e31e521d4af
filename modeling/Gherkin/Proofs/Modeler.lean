import Gherkin.Command
import Gherkin.Proofs.Tree.Change
import Gherkin.Proofs.Tree.Grown

/-!
# Modeling in place

What a modeler adds to a tree step by step is the branch that it makes of the source, planted
at once. The branches it makes can grow, so they keep a tree linked.
-/

namespace Gherkin

namespace Tree

theorem setPath_plant (tree : Tree) (branch : Branch Origin) (path : Path) :
    (tree.plant branch).setPath tree.size path = tree.plant (match branch.element with
      | .featureFile _ => branch.withElement (.featureFile path)
      | _ => branch) := by
  obtain ⟨origin, element, children⟩ := branch
  cases element <;> exact modify_plant rfl rfl

end Tree

/-- The record of a parse result is that of a feature file. -/
theorem Release.kind_of_normalize {release : Release} {active : Dialect} {result : Json}
    {record : Record} (normalized : release.normalize active result = .ok record) :
    record.kind = .ok .featureFile := by
  have named (document feature : Json) :
      Record.kind (Record.featureFileOf document feature) = .ok .featureFile :=
    Record.kind_ofList (by simp [Record.textField])
  unfold normalize at normalized
  split at normalized
  · split at normalized
    · cases normalized
      exact named ..
    · split at normalized
      · cases normalized
        exact named ..
      · cases normalized
  · cases normalized

namespace Modeler

open Change

variable {modeler : Modeler} {tree : Tree}

/-! ### Documents, fragments and results -/

theorem addDocument_eq (modeler : Modeler) (source uri : Text) (tree : Tree) :
    modeler.addDocument source uri tree =
      outcome tree ((modeler.document source uri).map fun branch =>
        (tree.size, tree.plant branch)) := by
  rw [document, Except.map_bind]
  refine bind_eq (ofExcept_eq ..) fun record _ => ?_
  rw [Except.map_bind]
  refine bind_eq (build_eq record tree) fun branch _ => ?_
  obtain ⟨origin, element, children⟩ := branch
  change EStateM.Result.ok tree.size
    ((tree.plant (.node origin element children)).setPath tree.size uri) = _
  rw [Tree.setPath_plant]
  cases element <;> rfl

theorem addElement_eq (modeler : Modeler) (kind : Kind) (source : Text) (tree : Tree) :
    modeler.addElement kind source tree =
      outcome tree ((modeler.element kind source).map fun branch =>
        (tree.size, tree.plant branch)) := by
  rw [element, Except.map_bind]
  refine bind_eq (ofExcept_eq ..) fun wrapped _ => ?_
  rw [Except.map_bind]
  refine bind_eq (ofExcept_eq ..) fun document _ => ?_
  rw [Except.map_bind]
  refine bind_eq (ofExcept_eq ..) fun record _ => ?_
  exact build_eq record tree

/-- An element that was added is planted. -/
theorem exists_element_of_addElement {modeler : Modeler} {kind : Kind} {source : Text}
    {tree grown : Tree} {root : NodeId}
    (added : modeler.addElement kind source tree = .ok root grown) :
    ∃ branch, modeler.element kind source = .ok branch ∧ root = tree.size ∧
      grown = tree.plant branch := by
  rw [addElement_eq] at added
  cases modeled : modeler.element kind source with
  | ok branch =>
    rw [modeled] at added
    cases added
    exact ⟨branch, rfl, rfl, rfl⟩
  | error error =>
    rw [modeled] at added
    cases added

theorem addResult_eq (active : Dialect) (result : Json) (tree : Tree) :
    addResult active result tree =
      outcome tree ((ofResult active result).map fun branch => (tree.size, tree.plant branch)) := by
  rw [ofResult, Except.map_bind]
  refine bind_eq (ofExcept_eq ..) fun release _ => ?_
  rw [Except.map_bind]
  refine bind_eq (ofExcept_eq ..) fun record _ => ?_
  exact build_eq record tree

theorem addFile_eq (modeler : Modeler) (path : Path) (text : Option Text) (tree : Tree) :
    modeler.addFile path text tree =
      outcome tree ((modeler.ofFile path text).map fun branch =>
        (tree.size, tree.plant branch)) := by
  cases text with
  | none => rfl
  | some source => exact addDocument_eq modeler source path tree

/-! ### Directories -/

theorem kind_of_document {source uri : Text} {branch : Branch Origin}
    (modeled : modeler.document source uri = .ok branch) : branch.kind = .featureFile := by
  obtain ⟨record, normalized, modeled⟩ := Except.bind_eq_ok_iff.mp modeled
  obtain ⟨result, _, normalized⟩ := Except.bind_eq_ok_iff.mp normalized
  obtain ⟨_, rooted, modeled⟩ := Except.bind_eq_ok_iff.mp modeled
  obtain ⟨⟨origin, element, children⟩, described, same⟩ := Except.bind_eq_ok_iff.mp rooted
  cases same
  have kinds := (Record.kind_of_branch described).symm.trans
    (Release.kind_of_normalize normalized)
  have kind : element.kind = .featureFile := Except.ok.inj kinds
  cases element <;> cases kind
  cases modeled
  rfl

theorem kind_of_ofFile {path : Path} {text : Option Text} {branch : Branch Origin}
    (modeled : modeler.ofFile path text = .ok branch) : branch.kind = .featureFile := by
  cases text with
  | none => cases modeled
  | some source => exact kind_of_document modeled

/-- A directory has room for any number of files and directories. -/
theorem place_directory {α : Type} {slot : Slot} (taken : slot ∈ Kind.directory.slots)
    (siblings : List (Branch α)) (child : Branch α) :
    Record.place .directory slot siblings child = .ok (siblings ++ [child]) := by
  refine Record.place_eq_ok_iff.mpr ⟨taken, fun one => ?_, rfl⟩
  rcases List.mem_pair.mp taken with rfl | rfl <;> cases one

theorem yields_pushEntry {base : Tree} {path : Path} {siblings : List (Branch Origin)}
    {child : Branch Origin} {slot : Slot} (taken : slot ∈ Kind.directory.slots)
    (home : child.kind.home = some slot) :
    Yields base
      (update (fun grown => grown.pushChild base.size slot
          (base.plant (directoryNode path siblings)).size)
        ((base.plant (directoryNode path siblings)).plant child))
      (.ok ((), base.plant (directoryNode path (siblings ++ [child])))) := by
  have pushed := @yields_pushChild base ⟨none, none⟩ (.directory path) siblings child slot home
  rwa [show (Element.directory path).kind = .directory from rfl, place_directory taken] at pushed

mutual

/-- An entry is added behind those before it. -/
theorem yields_addEntry (modeler : Modeler) (directory : Path) (base : Tree)
    (siblings : List (Branch Origin)) (name : Text) (entry : Entry) :
    Yields base
      (modeler.addEntry directory base.size name entry
        (base.plant (directoryNode directory siblings)))
      ((modeler.ofEntry directory name entry).map fun branch =>
        ((), base.plant (directoryNode directory (siblings ++ branch.toList)))) := by
  cases entry with
  | directory entries =>
    rw [addEntry, ofEntry, insert_bind, Except.map_bind]
    refine Yields.bind ((yields_addEntries modeler (Path.join directory name)
      (base.plant (directoryNode directory siblings)) [] entries).weaken
        (Tree.within_plant ..)) fun children _ => ?_
    exact yields_pushEntry (by decide) rfl
  | file text =>
    rw [addEntry, ofEntry]
    split
    · rw [Except.map_map, Except.map_eq_bind]
      refine Yields.bind ?_ fun branch read =>
        yields_pushEntry (by decide) (by rw [kind_of_ofFile read]; rfl)
      rw [addFile_eq]
      exact yields_outcome (base.within_plant _) _
    · rw [Except.map, Option.toList_none, List.append_nil]
      exact .ok ..

/-- Entries are added one behind the other. -/
theorem yields_addEntries (modeler : Modeler) (directory : Path) (base : Tree)
    (siblings : List (Branch Origin)) (entries : List (Text × Entry)) :
    Yields base
      (modeler.addEntries directory base.size entries
        (base.plant (directoryNode directory siblings)))
      ((modeler.ofEntries directory entries).map fun children =>
        ((), base.plant (directoryNode directory (siblings ++ children)))) := by
  match entries with
  | [] =>
    rw [ofEntries, Except.map, List.append_nil]
    exact .ok ..
  | (name, entry) :: rest =>
    rw [addEntries, ofEntries, Except.map_bind]
    refine Yields.bind (yields_addEntry modeler directory base siblings name entry)
      fun branch _ => ?_
    have others := yields_addEntries modeler directory base (siblings ++ branch.toList) rest
    cases read : modeler.ofEntries directory rest with
    | ok children =>
      rw [read] at others
      simpa [Except.map] using others
    | error error => rwa [read] at others

end

theorem addDirectory_eq (modeler : Modeler) (disk : Entry) (path : Path) (tree : Tree) :
    modeler.addDirectory disk path tree =
      outcome tree ((modeler.loadDirectory disk path).map fun branch =>
        (tree.size, tree.plant branch)) := by
  refine undone_eq ?_
  rw [loadDirectory]
  cases disk.lookup? path with
  | none => exact .error (.refl tree)
  | some entry =>
    cases entry with
    | file text => exact .error (.refl tree)
    | directory entries =>
      change Yields tree ((insert (.directory path) none >>= _) tree) _
      rw [insert_bind, Except.map_map, Except.map_eq_bind]
      exact Yields.bind (yields_addEntries modeler path tree [] entries) fun _ _ => .ok ..

/-! ### Branches of directories -/

mutual

theorem ofEntry_induction {motive : Branch Origin → Prop}
    (file : ∀ path text branch, modeler.ofFile path text = .ok branch → motive branch)
    (inner : ∀ path children, (∀ child ∈ children, motive child) →
      motive (directoryNode path children)) {directory : Path} {name : Text} {entry : Entry}
    {branch : Branch Origin} (modeled : modeler.ofEntry directory name entry = .ok (some branch)) :
    motive branch := by
  cases entry with
  | directory entries =>
    obtain ⟨children, below, same⟩ := Except.bind_eq_ok_iff.mp modeled
    cases same
    exact inner _ _ (ofEntries_induction file inner below)
  | file text =>
    rw [ofEntry] at modeled
    split at modeled
    · obtain ⟨found, read, same⟩ := Except.map_eq_ok_iff.mp modeled
      cases same
      exact file _ _ _ read
    · cases modeled

/-- What holds of all files and of directories around what it holds of, holds of all that is in
a directory. -/
theorem ofEntries_induction {motive : Branch Origin → Prop}
    (file : ∀ path text branch, modeler.ofFile path text = .ok branch → motive branch)
    (inner : ∀ path children, (∀ child ∈ children, motive child) →
      motive (directoryNode path children)) {directory : Path} {entries : List (Text × Entry)}
    {children : List (Branch Origin)}
    (modeled : modeler.ofEntries directory entries = .ok children) :
    ∀ child ∈ children, motive child := by
  match entries with
  | [] =>
    cases modeled
    exact List.forall_mem_nil _
  | (name, entry) :: rest =>
    obtain ⟨first, read, modeled⟩ := Except.bind_eq_ok_iff.mp modeled
    obtain ⟨others, below, same⟩ := Except.bind_eq_ok_iff.mp modeled
    cases same
    refine List.forall_mem_append.mpr ⟨fun child member => ?_, ofEntries_induction file inner below⟩
    rw [Option.mem_toList.mp member] at read
    exact ofEntry_induction file inner read

end

theorem loadDirectory_induction {motive : Branch Origin → Prop}
    (file : ∀ path text branch, modeler.ofFile path text = .ok branch → motive branch)
    (inner : ∀ path children, (∀ child ∈ children, motive child) →
      motive (directoryNode path children)) {disk : Entry} {path : Path} {branch : Branch Origin}
    (modeled : modeler.loadDirectory disk path = .ok branch) : motive branch := by
  rw [loadDirectory] at modeled
  split at modeled
  · obtain ⟨children, below, rfl⟩ := Except.map_eq_ok_iff.mp modeled
    exact inner path children (ofEntries_induction file inner below)
  · cases modeled

/-! ### Branches that can grow -/

theorem grown_of_rooted {record : Record} {branch : Branch Origin}
    (rooted : record.rooted = .ok branch) : branch.Grown := by
  obtain ⟨⟨origin, element, children⟩, described, same⟩ := Except.bind_eq_ok_iff.mp rooted
  cases same
  exact (Record.grown_of_branch described).of_same rfl rfl

theorem grown_of_document {source uri : Text} {branch : Branch Origin}
    (modeled : modeler.document source uri = .ok branch) : branch.Grown := by
  obtain ⟨_, _, modeled⟩ := Except.bind_eq_ok_iff.mp modeled
  obtain ⟨⟨origin, element, children⟩, described, modeled⟩ := Except.bind_eq_ok_iff.mp modeled
  have grown := grown_of_rooted described
  cases element <;> cases modeled <;> exact grown.of_same rfl rfl

theorem grown_of_element {kind : Kind} {source : Text} {branch : Branch Origin}
    (modeled : modeler.element kind source = .ok branch) : branch.Grown := by
  obtain ⟨_, _, modeled⟩ := Except.bind_eq_ok_iff.mp modeled
  obtain ⟨_, _, modeled⟩ := Except.bind_eq_ok_iff.mp modeled
  obtain ⟨_, _, modeled⟩ := Except.bind_eq_ok_iff.mp modeled
  exact grown_of_rooted modeled

theorem grown_of_ofResult {active : Dialect} {result : Json} {branch : Branch Origin}
    (modeled : ofResult active result = .ok branch) : branch.Grown := by
  obtain ⟨_, _, modeled⟩ := Except.bind_eq_ok_iff.mp modeled
  obtain ⟨_, _, modeled⟩ := Except.bind_eq_ok_iff.mp modeled
  exact grown_of_rooted modeled

theorem grown_of_ofFile {path : Path} {text : Option Text} {branch : Branch Origin}
    (modeled : modeler.ofFile path text = .ok branch) : branch.Grown := by
  cases text with
  | none => cases modeled
  | some source => exact grown_of_document modeled

/-- What is in a directory can grow behind what is there already. -/
theorem grown_directoryNode {directory : Path} {children : List (Branch Origin)}
    (each : ∀ child ∈ children, child.Grown ∧
      ∃ slot ∈ Kind.directory.slots, child.kind.home = some slot) :
    (directoryNode directory children).Grown := by
  induction children using List.reverseRecOn with
  | nil => exact .bare ..
  | append_singleton siblings child ih =>
    obtain ⟨before, last⟩ := List.forall_mem_append.mp each
    obtain ⟨grown, slot, taken, home⟩ := List.forall_mem_singleton.mp last
    exact (ih before).child grown home (place_directory taken siblings child)

theorem grown_of_loadDirectory {disk : Entry} {path : Path} {branch : Branch Origin}
    (modeled : modeler.loadDirectory disk path = .ok branch) : branch.Grown := by
  have all : branch.Grown ∧ ∃ slot ∈ Kind.directory.slots, branch.kind.home = some slot := by
    refine loadDirectory_induction
      (motive := fun branch => branch.Grown ∧
        ∃ slot ∈ Kind.directory.slots, branch.kind.home = some slot) ?file ?inner modeled
    case file =>
      intro path text branch read
      exact ⟨grown_of_ofFile read, .featureFiles, by decide, by rw [kind_of_ofFile read]; rfl⟩
    case inner =>
      intro path children each
      exact ⟨grown_directoryNode each, .directories, by decide, rfl⟩
  exact all.1

end Modeler

end Gherkin
