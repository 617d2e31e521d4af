import Gherkin.Proofs.Modeler
import Gherkin.Proofs.Tree.Built

/-!
# Directories in trees

A directory that is loaded mirrors the one on disk: its feature files and directories are exactly
those in the listing, in the order of their names, and the same holds of every directory below it.
Loading succeeds when every feature file below can be read and modeled.
-/

namespace Gherkin

open Change

namespace Entry

/-- A listing comes in the order of names, and so do those of the directories below. -/
inductive Ordered : List (Text × Entry) → Prop where
  | intro {entries : List (Text × Entry)}
      (here : entries.Pairwise fun a b => Text.before a.1 b.1 = true)
      (below : ∀ name inner, (name, directory inner) ∈ entries → Ordered inner) : Ordered entries

/-- A feature file below a directory at a path, with its own path and what can be read of it. -/
inductive HasFeature : Path → List (Text × Entry) → Path → Option Text → Prop where
  | listed {path : Path} {entries : List (Text × Entry)} {name : Text} {text : Option Text}
      (member : (name, file text) ∈ entries) (feature : Modeler.isFeatureFile name = true) :
      HasFeature path entries (Path.join path name) text
  | nested {path inside : Path} {entries inner : List (Text × Entry)} {name : Text}
      {text : Option Text} (member : (name, directory inner) ∈ entries)
      (has : HasFeature (Path.join path name) inner inside text) :
      HasFeature path entries inside text

/-- The feature files in a listing. -/
def featureFiles (entries : List (Text × Entry)) : List (Text × Option Text) :=
  entries.filterMap fun entry =>
    match entry.2 with
    | file text => if Modeler.isFeatureFile entry.1 then some (entry.1, text) else none
    | directory _ => none

/-- The directories in a listing. -/
def directories (entries : List (Text × Entry)) : List (Text × List (Text × Entry)) :=
  entries.filterMap fun entry =>
    match entry.2 with
    | file _ => none
    | directory inner => some (entry.1, inner)

variable {path inside : Path} {entries : List (Text × Entry)} {name : Text} {text : Option Text}

theorem Ordered.pairwise_featureFiles (ordered : Ordered entries) :
    (featureFiles entries).Pairwise fun a b => Text.before a.1 b.1 = true := by
  obtain ⟨here, -⟩ := ordered
  apply List.Pairwise.filterMap _ _ here
  rintro ⟨name, _ | _⟩ ⟨other, _ | _⟩ before a first b second
  all_goals grind

theorem Ordered.pairwise_directories (ordered : Ordered entries) :
    (directories entries).Pairwise fun a b => Text.before a.1 b.1 = true := by
  obtain ⟨here, -⟩ := ordered
  apply List.Pairwise.filterMap _ _ here
  rintro ⟨name, _ | _⟩ ⟨other, _ | _⟩ before a first b second
  all_goals grind

theorem Ordered.tail {entry : Text × Entry} (ordered : Ordered (entry :: entries)) :
    Ordered entries := by
  obtain ⟨here, below⟩ := ordered
  exact ⟨(List.pairwise_cons.mp here).2, fun name inner member =>
    below name inner (List.mem_cons_of_mem _ member)⟩

theorem Ordered.inner {inner : List (Text × Entry)}
    (ordered : Ordered ((name, directory inner) :: entries)) : Ordered inner := by
  obtain ⟨-, below⟩ := ordered
  exact below name inner List.mem_cons_self

/-! ### Feature files below a directory -/

theorem hasFeature_nil : ¬ HasFeature path [] inside text := by
  intro has
  cases has with
  | listed member => exact List.not_mem_nil member
  | nested member => exact List.not_mem_nil member

theorem hasFeature_cons_iff {entry : Text × Entry} :
    HasFeature path (entry :: entries) inside text ↔
      HasFeature path [entry] inside text ∨ HasFeature path entries inside text := by
  constructor
  · intro has
    cases has with
    | listed member feature =>
      rcases List.mem_cons.mp member with rfl | later
      · exact .inl (.listed List.mem_cons_self feature)
      · exact .inr (.listed later feature)
    | nested member has =>
      rcases List.mem_cons.mp member with rfl | later
      · exact .inl (.nested List.mem_cons_self has)
      · exact .inr (.nested later has)
  · rintro (has | has) <;> cases has with
    | listed member feature => exact .listed (by simp_all) feature
    | nested member has => exact .nested (by simp_all) has

theorem hasFeature_file_iff {content : Option Text} :
    HasFeature path [(name, file content)] inside text ↔
      Modeler.isFeatureFile name = true ∧ inside = Path.join path name ∧ text = content := by
  constructor
  · intro has
    cases has with
    | listed member feature =>
      cases List.mem_singleton.mp member
      exact ⟨feature, rfl, rfl⟩
    | nested member => cases List.mem_singleton.mp member
  · rintro ⟨feature, rfl, rfl⟩
    exact .listed List.mem_cons_self feature

theorem hasFeature_directory_iff {inner : List (Text × Entry)} :
    HasFeature path [(name, directory inner)] inside text ↔
      HasFeature (Path.join path name) inner inside text := by
  constructor
  · intro has
    cases has with
    | listed member => cases List.mem_singleton.mp member
    | nested member has =>
      cases List.mem_singleton.mp member
      exact has
  · exact .nested List.mem_cons_self

end Entry

namespace Modeler

variable {modeler : Modeler}

theorem ofFile_eq_ok_iff {path : Path} {text : Option Text} {branch : Branch Origin} :
    modeler.ofFile path text = .ok branch ↔
      ∃ source, text = some source ∧ modeler.document source path = .ok branch := by
  cases text <;> simp [ofFile]

/-- A file is modeled if it can be read and its text is modeled. -/
theorem exists_ofFile_iff {path : Path} {text : Option Text} :
    (∃ branch, modeler.ofFile path text = .ok branch) ↔
      ∃ source branch, text = some source ∧ modeler.document source path = .ok branch := by
  simp only [ofFile_eq_ok_iff]
  exact exists_comm

theorem element_of_document {source uri : Text} {branch : Branch Origin}
    (modeled : modeler.document source uri = .ok branch) : branch.element = .featureFile uri := by
  have kind := kind_of_document modeled
  obtain ⟨record, _, modeled⟩ := Except.bind_eq_ok_iff.mp modeled
  obtain ⟨⟨origin, element, children⟩, _, modeled⟩ := Except.bind_eq_ok_iff.mp modeled
  cases element <;> cases modeled <;> first | rfl | cases kind

mutual

theorem exists_ofEntry_iff (modeler : Modeler) (directory : Path) (name : Text) (entry : Entry) :
    (∃ branch, modeler.ofEntry directory name entry = .ok branch) ↔
      ∀ path text, Entry.HasFeature directory [(name, entry)] path text →
        ∃ branch, modeler.ofFile path text = .ok branch := by
  cases entry with
  | directory inner =>
    simp only [Entry.hasFeature_directory_iff,
      ← exists_ofEntries_iff modeler (Path.join directory name) inner]
    rw [ofEntry]
    constructor
    · rintro ⟨_, read⟩
      obtain ⟨children, below, _⟩ := Except.bind_eq_ok_iff.mp read
      exact ⟨children, below⟩
    · rintro ⟨children, below⟩
      rw [below]
      exact ⟨_, rfl⟩
  | file content =>
    rw [ofEntry]
    simp only [Entry.hasFeature_file_iff]
    split
    · next feature =>
      constructor
      · rintro ⟨_, read⟩ path text ⟨_, rfl, rfl⟩
        obtain ⟨branch, read, _⟩ := Except.map_eq_ok_iff.mp read
        exact ⟨branch, read⟩
      · intro each
        obtain ⟨branch, read⟩ := each _ _ ⟨feature, rfl, rfl⟩
        exact ⟨_, Except.map_eq_ok_iff.mpr ⟨branch, read, rfl⟩⟩
    · next other => exact ⟨fun _ path text has => absurd has.1 other, fun _ => ⟨none, rfl⟩⟩

/-- What is in a directory is modeled when every feature file below is. -/
theorem exists_ofEntries_iff (modeler : Modeler) (directory : Path)
    (entries : List (Text × Entry)) :
    (∃ children, modeler.ofEntries directory entries = .ok children) ↔
      ∀ path text, Entry.HasFeature directory entries path text →
        ∃ branch, modeler.ofFile path text = .ok branch := by
  match entries with
  | [] => exact ⟨fun _ path text has => absurd has Entry.hasFeature_nil, fun _ => ⟨[], rfl⟩⟩
  | (name, entry) :: rest =>
    have first := exists_ofEntry_iff modeler directory name entry
    have others := exists_ofEntries_iff modeler directory rest
    rw [ofEntries]
    constructor
    · rintro ⟨_, read⟩ path text has
      obtain ⟨branch, here, read⟩ := Except.bind_eq_ok_iff.mp read
      obtain ⟨children, below, _⟩ := Except.bind_eq_ok_iff.mp read
      rcases Entry.hasFeature_cons_iff.1 has with has | has
      · exact first.mp ⟨branch, here⟩ path text has
      · exact others.mp ⟨children, below⟩ path text has
    · intro each
      obtain ⟨branch, here⟩ := first.mpr fun path text has =>
        each path text (Entry.hasFeature_cons_iff.2 (.inl has))
      obtain ⟨children, below⟩ := others.mpr fun path text has =>
        each path text (Entry.hasFeature_cons_iff.2 (.inr has))
      exact ⟨_, Except.bind_eq_ok_iff.mpr ⟨branch, here,
        Except.bind_eq_ok_iff.mpr ⟨children, below, rfl⟩⟩⟩

end

end Modeler

namespace Tree

variable {tree grown : Tree} {modeler : Modeler} {path : Path} {id : NodeId}

/-- A node is a feature file with all that the modeler makes of what is read at its path. -/
structure ShowsFile (grown : Tree) (modeler : Modeler) (path : Path) (text : Option Text)
    (parent id : NodeId) : Prop where
  element : grown.element? id = some (.featureFile path)
  above : grown.parent? id = some parent
  content : ∃ source branch, text = some source ∧ modeler.document source path = .ok branch ∧
    grown.HoldsFrom id (branch.nodes id (some parent))

/-- A node is a directory with the feature files and directories of a listing, in their order, and
each of these directories mirrors its own listing. -/
inductive Mirrors (grown : Tree) (modeler : Modeler) :
    Path → List (Text × Entry) → NodeId → Prop where
  | intro {path : Path} {entries : List (Text × Entry)} {id : NodeId}
      (element : grown.element? id = some (.directory path))
      (files : List.Forall₂ (fun file child =>
        grown.ShowsFile modeler (Path.join path file.1) file.2 id child)
          (Entry.featureFiles entries) (grown.slot id .featureFiles))
      (filesInOrder : (Entry.featureFiles entries).Pairwise fun a b => Text.before a.1 b.1 = true)
      (count : (Entry.directories entries).length = (grown.slot id .directories).length)
      (below : ∀ pair ∈ (Entry.directories entries).zip (grown.slot id .directories),
        Mirrors grown modeler (Path.join path pair.1.1) pair.1.2 pair.2)
      (parents : ∀ child ∈ grown.slot id .directories, grown.parent? child = some id)
      (directoriesInOrder : (Entry.directories entries).Pairwise fun a b =>
        Text.before a.1 b.1 = true) :
      Mirrors grown modeler path entries id

/-- What the children of a directory show, if they are those of a listing. -/
structure ShowsEntries (grown : Tree) (modeler : Modeler) (path : Path)
    (entries : List (Text × Entry)) (id : NodeId) (places : List (Kind × NodeId)) : Prop where
  files : List.Forall₂ (fun file child =>
    grown.ShowsFile modeler (Path.join path file.1) file.2 id child) (Entry.featureFiles entries)
      ((places.filter fun place => place.1.home == some .featureFiles).map Prod.snd)
  directories : List.Forall₂ (fun directory child =>
    grown.Mirrors modeler (Path.join path directory.1) directory.2 child ∧
      grown.parent? child = some id) (Entry.directories entries)
      ((places.filter fun place => place.1.home == some .directories).map Prod.snd)

theorem ShowsEntries.mirrors {entries : List (Text × Entry)} {children : List (Branch Origin)}
    {parent : Option NodeId}
    (shows : grown.ShowsEntries modeler path entries id (Branch.places (id + 1) children))
    (ordered : Entry.Ordered entries)
    (holds : grown.HoldsFrom id ((Modeler.directoryNode path children).nodes id parent)) :
    grown.Mirrors modeler path entries id := by
  have files := shows.files
  have directories := shows.directories
  have slots := holds.slot
  rw [Modeler.directoryNode, Branch.children] at slots
  rw [← slots] at files directories
  refine .intro (holds.element?) files ordered.pairwise_featureFiles
    directories.length_eq (fun pair member => ?_) (fun child member => ?_)
    ordered.pairwise_directories
  · exact ((List.forall₂_iff_zip.mp directories).2 member).1
  · obtain ⟨_, _, _, above⟩ := exists_of_forall₂ directories.flip child member
    exact above

theorem ShowsEntries.file {entries : List (Text × Entry)} {name : Text} {text : Option Text}
    {places : List (Kind × NodeId)} {child : NodeId} (feature : Modeler.isFeatureFile name = true)
    (file : grown.ShowsFile modeler (Path.join path name) text id child)
    (others : grown.ShowsEntries modeler path entries id places) :
    grown.ShowsEntries modeler path ((name, .file text) :: entries) id
      ((.featureFile, child) :: places) := by
  have listed : Entry.featureFiles ((name, .file text) :: entries) =
      (name, text) :: Entry.featureFiles entries := by
    simp [Entry.featureFiles, feature]
  refine ⟨?_, others.directories⟩
  rw [listed]
  exact .cons file others.files

theorem ShowsEntries.directory {entries inner : List (Text × Entry)} {name : Text}
    {places : List (Kind × NodeId)} {child : NodeId}
    (mirrors : grown.Mirrors modeler (Path.join path name) inner child)
    (above : grown.parent? child = some id)
    (others : grown.ShowsEntries modeler path entries id places) :
    grown.ShowsEntries modeler path ((name, .directory inner) :: entries) id
      ((.directory, child) :: places) :=
  ⟨others.files, .cons ⟨mirrors, above⟩ others.directories⟩

theorem ShowsEntries.skip {entries : List (Text × Entry)} {name : Text} {text : Option Text}
    {places : List (Kind × NodeId)} (other : ¬ Modeler.isFeatureFile name = true)
    (others : grown.ShowsEntries modeler path entries id places) :
    grown.ShowsEntries modeler path ((name, .file text) :: entries) id places := by
  have listed : Entry.featureFiles ((name, .file text) :: entries) =
      Entry.featureFiles entries := by
    simp [Entry.featureFiles, other]
  refine ⟨?_, others.directories⟩
  rw [listed]
  exact others.files

/-- Where the branches of a listing stand, they show its entries. -/
theorem showsEntries_of_holds (modeler : Modeler) (path : Path) (id : NodeId)
    (entries : List (Text × Entry)) {children : List (Branch Origin)} {next : NodeId}
    (ordered : Entry.Ordered entries) (read : modeler.ofEntries path entries = .ok children)
    (holds : grown.HoldsFrom next (Branch.childNodes id next children)) :
    grown.ShowsEntries modeler path entries id (Branch.places next children) := by
  match entries with
  | [] =>
    cases read
    exact ⟨.nil, .nil⟩
  | (name, .directory inner) :: rest =>
    obtain ⟨_, here, read⟩ := Except.bind_eq_ok_iff.mp read
    obtain ⟨inside, innerRead, same⟩ := Except.bind_eq_ok_iff.mp here
    cases same
    obtain ⟨others, below, same⟩ := Except.bind_eq_ok_iff.mp read
    cases same
    have first := holds.append_left
    have later := holds.append_right
    rw [Branch.length_nodes] at later
    have shows := showsEntries_of_holds modeler (Path.join path name) next inner ordered.inner
      innerRead first.children
    exact .directory (shows.mirrors ordered.inner first) (first.parent?)
      (showsEntries_of_holds modeler path id rest ordered.tail below later)
  | (name, .file text) :: rest =>
    obtain ⟨_, here, read⟩ := Except.bind_eq_ok_iff.mp read
    obtain ⟨others, below, same⟩ := Except.bind_eq_ok_iff.mp read
    cases same
    rw [Modeler.ofEntry] at here
    split at here
    · next feature =>
      obtain ⟨branch, modeled, same⟩ := Except.map_eq_ok_iff.mp here
      cases same
      have first := holds.append_left
      have later := holds.append_right
      rw [Branch.length_nodes] at later
      obtain ⟨source, rfl, modeled⟩ := Modeler.ofFile_eq_ok_iff.1 modeled
      have element := first.element?
      rw [Modeler.element_of_document modeled] at element
      have shows := ShowsEntries.file feature ⟨element, first.parent?,
        source, branch, rfl, modeled, first⟩
        (showsEntries_of_holds modeler path id rest ordered.tail below later)
      rwa [← Modeler.kind_of_document modeled] at shows
    · next other =>
      cases here
      exact .skip other (showsEntries_of_holds modeler path id rest ordered.tail below holds)
termination_by sizeOf entries

end Tree

namespace Modeler

/-- A directory that is loaded becomes a mirror of what is on disk, and it is loaded if and only if
every feature file below it can be read and modeled. -/
theorem addDirectory_mirrors (modeler : Modeler) {disk : Entry} {path : Path}
    {entries : List (Text × Entry)} (tree : Tree)
    (listed : disk.lookup? path = some (.directory entries)) (ordered : Entry.Ordered entries) :
    ((∃ root grown, modeler.addDirectory disk path tree = .ok root grown) ↔
      ∀ file text, Entry.HasFeature path entries file text →
        ∃ source branch, text = some source ∧ modeler.document source file = .ok branch) ∧
    ∀ root grown, modeler.addDirectory disk path tree = .ok root grown →
      root = tree.size ∧ grown.parent? root = none ∧ grown.Mirrors modeler path entries root ∧
        ∀ id < tree.size, grown.node? id = tree.node? id := by
  have ends := addDirectory_eq modeler disk path tree
  rw [loadDirectory, listed, Except.map_map] at ends
  have models := exists_ofEntries_iff modeler path entries
  simp only [exists_ofFile_iff] at models
  rw [← models]
  cases read : modeler.ofEntries path entries with
  | error error =>
    rw [read] at ends
    have refused (root : NodeId) (grown : Tree) :
        modeler.addDirectory disk path tree ≠ .ok root grown := by
      intro loaded
      cases loaded.symm.trans ends
    refine ⟨⟨?_, ?_⟩, fun root grown loaded => absurd loaded (refused root grown)⟩
    · rintro ⟨root, grown, loaded⟩
      exact absurd loaded (refused root grown)
    · rintro ⟨_, same⟩
      cases same
  | ok children =>
    rw [read] at ends
    constructor
    · exact ⟨fun _ => ⟨children, rfl⟩, fun _ => ⟨_, _, ends⟩⟩
    · intro root grown loaded
      cases loaded.symm.trans ends
      have holds := tree.holdsFrom_plant (directoryNode path children)
      exact ⟨rfl, holds.parent?, (Tree.showsEntries_of_holds modeler path tree.size
        entries ordered read holds.children).mirrors ordered holds,
        fun id old => Tree.node?_plant_of_lt _ old⟩

/-- A listing with a feature file, an empty directory, and a directory with a feature file that is
empty and with notes that cannot be read. -/
def sampleListing : List (Text × Entry) :=
  [(Text.word "a.feature", .file (some (Text.word "Feature: a"))),
    (Text.word "empty", .directory []),
    (Text.word "nested", .directory
      [(Text.word "b.feature", .file (some [])), (Text.word "notes.txt", .file none)])]

theorem ordered_sampleListing : Entry.Ordered sampleListing := by
  refine .intro (by decide) fun name inner member => ?_
  simp only [sampleListing, List.mem_cons, Prod.mk.injEq, Entry.directory.injEq, reduceCtorEq,
    and_false, List.not_mem_nil, or_false, false_or] at member
  rcases member with ⟨rfl, rfl⟩ | ⟨rfl, rfl⟩
  · exact .intro .nil fun _ _ member => absurd member List.not_mem_nil
  · refine .intro (by decide) fun name inner member => ?_
    simp at member

theorem mirrors_sampleListing :
    let disk : Entry := .directory [(Text.word "features", .directory sampleListing)]
    let modeler := ofRelease .english .newest none
    disk.lookup? (Text.word "features") = some (.directory sampleListing) ∧
      Entry.Ordered sampleListing ∧
      ∃ root grown, modeler.addDirectory disk (Text.word "features") .empty = .ok root grown ∧
        root = 0 ∧ grown.parent? root = none ∧
        grown.Mirrors modeler (Text.word "features") sampleListing root := by
  intro disk modeler
  have listed : disk.lookup? (Text.word "features") = some (.directory sampleListing) := rfl
  have models : (modeler.ofEntries (Text.word "features") sampleListing).isOk = true := by
    decide +kernel
  cases read : modeler.ofEntries (Text.word "features") sampleListing with
  | error error => simp [read, Except.isOk, Except.toBool] at models
  | ok children =>
    have loaded := addDirectory_eq modeler disk (Text.word "features") .empty
    rw [loadDirectory, listed, Except.map_map, read] at loaded
    obtain ⟨-, mirrors⟩ := addDirectory_mirrors modeler .empty listed ordered_sampleListing
    obtain ⟨here, alone, shown, -⟩ := mirrors _ _ loaded
    exact ⟨listed, ordered_sampleListing, _, _, loaded, here, alone, shown⟩

end Modeler

end Gherkin
