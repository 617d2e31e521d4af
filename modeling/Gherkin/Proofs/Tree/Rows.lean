import Gherkin.Proofs.Command
import Gherkin.Proofs.RowValues

/-!
# Rows that are added and removed

A row is added when its values suit the parameters, and removed when an argument row has the
values they come to. Values of another number than the parameters are not always refused: pairs
are not counted, and a block without argument rows has nothing removed from it whatever the
values are. The order of pairs counts only where several of them name one parameter.
-/

namespace Gherkin

open RowValues

namespace Tree

variable {tree : Tree} {id header row : NodeId} {values : RowValues}

/-- The values of the argument rows of an examples block. -/
def argumentValues (tree : Tree) (id : NodeId) : List (List Text) :=
  (tree.argumentRows id).map tree.rowValues

/-- The first argument row with some cells. -/
def rowWith? (tree : Tree) (id : NodeId) (cells : List Text) : Option NodeId :=
  (tree.argumentRows id).find? fun row => tree.rowValues row == cells

/-- A tree without the first argument row with some cells, and this row. -/
def withoutRow (tree : Tree) (id : NodeId) (cells : List Text) : Tree × Option NodeId :=
  match tree.rowWith? id cells with
  | some row => (tree.detach row, some row)
  | none => (tree, none)

theorem expectKind_of_kind? {kind : Kind} (found : tree.kind? id = some kind) :
    tree.expectKind kind id = .ok () := by
  rw [expectKind, found]
  exact if_pos rfl

theorem exists_expectKind_eq_error {kind : Kind} (other : tree.kind? id ≠ some kind) :
    ∃ error, tree.expectKind kind id = .error error := by
  cases refused : tree.expectKind kind id with
  | ok _ => exact absurd (expectKind_eq_ok refused) other
  | error error => exact ⟨error, rfl⟩

theorem kind?_of_parameterRow? (first : tree.parameterRow? id = some header) :
    tree.kind? id = some .example := by
  unfold parameterRow? exampleRows at first
  split at first
  · assumption
  · cases first

theorem parameters_of_parameterRow? (first : tree.parameterRow? id = some header) :
    tree.parameters id = tree.rowValues header := by
  rw [parameters, first]
  rfl

/-- The rows of an examples block are its parameter row and its argument rows. -/
theorem rows_of_parameterRow? (first : tree.parameterRow? id = some header) :
    tree.slot id .rows = header :: tree.argumentRows id := by
  have rows : tree.exampleRows id = tree.slot id .rows := if_pos (kind?_of_parameterRow? first)
  rw [← rows]
  exact (List.cons_head?_tail first).symm

theorem exists_parameterRow?_of_mem (member : row ∈ tree.argumentRows id) :
    ∃ header, tree.parameterRow? id = some header := by
  refine Option.ne_none_iff_exists'.mp fun none => ?_
  rw [argumentRows, List.head?_eq_none_iff.mp none] at member
  cases member

/-! ### What adding and removing come to -/

/-- A tree with another argument row, which is its last node. -/
def withRow (tree : Tree) (id : NodeId) (cells : List Text) : Tree :=
  (tree.add (.row cells)).attach id .rows tree.size

theorem addRow_eq (first : tree.parameterRow? id = some header) (values : RowValues) :
    tree.addRow id values = (values.resolve (tree.parameters id)).map fun cells =>
      (tree.withRow id cells, tree.size) := by
  rw [addRow, expectKind_of_kind? (kind?_of_parameterRow? first), first,
    parameters_of_parameterRow? first, Except.map_eq_bind]
  rfl

/-- Without a parameter row all values are refused alike. -/
theorem exists_addRow_eq_error (without : tree.parameterRow? id = none) :
    ∃ error, ∀ values, tree.addRow id values = .error error := by
  cases expected : tree.expectKind .example id with
  | error error =>
    refine ⟨error, fun values => ?_⟩
    rw [addRow, expected]
    rfl
  | ok _ =>
    refine ⟨.argument .withoutParameters, fun values => ?_⟩
    rw [addRow, expected, without]
    rfl

theorem removeRow_eq (kind : tree.kind? id = some .example) (values : RowValues) :
    tree.removeRow id values = if tree.argumentRows id = [] then .ok (tree, none)
      else (values.resolve (tree.parameters id)).map (tree.withoutRow id) := by
  rw [removeRow, expectKind_of_kind? kind, Except.map_eq_bind]
  simp only [List.isEmpty_iff]
  change (if _ then _ else _) = _
  split
  · rfl
  · refine congrArg _ (funext fun cells => ?_)
    unfold withoutRow rowWith?
    cases (tree.argumentRows id).find? fun row => tree.rowValues row == cells <;> rfl

/-- Nothing is removed from a node of another kind, whatever the values are. -/
theorem exists_removeRow_eq_error (other : tree.kind? id ≠ some .example) :
    ∃ error, ∀ values, tree.removeRow id values = .error error := by
  obtain ⟨error, refused⟩ := exists_expectKind_eq_error other
  refine ⟨error, fun values => ?_⟩
  rw [removeRow, refused]
  rfl

/-! ### Values that are refused -/

/-- A tree refuses a command because of its arguments, and stays as it is. -/
def Refuses (tree : Tree) (command : Command) : Prop :=
  ∃ misuse, command.perform tree = .error (.argument misuse) tree

theorem Linked.refuses_iff (linked : tree.Linked) (command : Command) :
    tree.Refuses command ↔ ∃ misuse, command.effect tree = .error (.argument misuse) := by
  rw [Refuses, Command.perform_eq linked]
  cases command.effect tree with
  | ok after => exact ⟨nofun, nofun⟩
  | error error => simp [Change.outcome, Except.map]

theorem exists_misuse_iff {parameters : List Text} :
    (∃ misuse, values.resolve parameters = .error (.argument misuse)) ↔
      ∃ error, values.resolve parameters = .error error := by
  constructor
  · rintro ⟨misuse, refused⟩
    exact ⟨_, refused⟩
  · rintro ⟨error, refused⟩
    obtain ⟨misuse, rfl⟩ := exists_misuse_of_resolve refused
    exact ⟨misuse, refused⟩

/-- Values of another number than the parameters are refused with two exceptions: pairs are added
and removed whenever they name each parameter, and from a block without argument rows nothing is
removed, whatever the values are. -/
theorem refuses_rows_iff (reachable : tree.Reachable)
    (first : tree.parameterRow? id = some header)
    (differs : values.count ≠ (tree.parameters id).length) :
    (tree.Refuses (.addRow id values) ↔
      ∀ pairs, values = .keyed pairs → Lacks pairs (tree.parameters id)) ∧
    (tree.Refuses (.removeRow id values) ↔ tree.argumentRows id ≠ [] ∧
      ∀ pairs, values = .keyed pairs → Lacks pairs (tree.parameters id)) := by
  have linked := reachable.linked
  have refused := exists_resolve_eq_error_iff differs
  rw [← exists_misuse_iff] at refused
  constructor
  · rw [linked.refuses_iff, Command.effect, addRow_eq first, ← refused]
    simp only [Except.map_eq_error_iff]
  · rw [linked.refuses_iff, Command.effect, removeRow_eq (kind?_of_parameterRow? first), ← refused]
    split
    · next empty => simp [empty, Except.map_eq_error_iff]
    · next some => simp only [Except.map_eq_error_iff, ne_eq, some, not_false_eq_true, true_and]

/-- An examples block with a parameter and, if some rows are given, argument rows. -/
def sampleBlock (arguments : List (List Text)) : List Command :=
  .add (.example ⟨Text.word "Examples", [], []⟩) :: .add (.row [Text.word "p"]) ::
    .assign 0 .rows [1] :: arguments.map fun cells => .addRow 0 (.positional cells)

theorem reachable_sampleBlock (arguments : List (List Text)) :
    (Command.run (sampleBlock arguments) .empty).Reachable := ⟨_, rfl⟩

/-- A list of two values is refused for one parameter. -/
theorem refuses_rows_sampleBlock :
    let tree := Command.run (sampleBlock [[Text.word "1"]]) .empty
    let values := .positional [Text.word "1", Text.word "2"]
    tree.parameterRow? 0 = some 1 ∧ values.count ≠ (tree.parameters 0).length ∧
      tree.Refuses (.addRow 0 values) ∧ tree.Refuses (.removeRow 0 values) := by
  intro tree values
  have first : tree.parameterRow? 0 = some 1 := rfl
  have differs : values.count ≠ (tree.parameters 0).length := by decide
  obtain ⟨add, remove⟩ := refuses_rows_iff (reachable_sampleBlock _) first differs
  exact ⟨first, differs, add.mpr nofun, remove.mpr ⟨by decide, nofun⟩⟩

/-- Two pairs are added for one parameter, and no values at all are accepted for a removal as long
as there is no argument row. -/
theorem accepts_rows_sampleBlock :
    let tree := Command.run (sampleBlock []) .empty
    let pairs := .keyed [(Text.word "p", Text.word "1"), (Text.word "q", Text.word "2")]
    tree.parameterRow? 0 = some 1 ∧
      pairs.count ≠ (tree.parameters 0).length ∧ ¬ tree.Refuses (.addRow 0 pairs) ∧
      (RowValues.positional []).count ≠ (tree.parameters 0).length ∧
      ¬ tree.Refuses (.removeRow 0 (.positional [])) := by
  intro tree pairs
  refine ⟨rfl, by decide, ?_, by decide, ?_⟩
  · rintro ⟨misuse, refused⟩
    have accepted : (Command.addRow 0 pairs).perform tree =
      .ok () ((Command.addRow 0 pairs).after tree) := rfl
    cases accepted.symm.trans refused
  · rintro ⟨misuse, refused⟩
    have accepted : (Command.removeRow 0 (.positional [])).perform tree = .ok () tree := rfl
    cases accepted.symm.trans refused

/-! ### Rows of changed trees -/

theorem rowValues_of_content? {a b : Tree} (same : a.content? row = b.content? row) :
    a.rowValues row = b.rowValues row := by
  have cells := congrArg (Option.map fun content => content.1.cells) same
  unfold content? at cells
  rw [Option.map_map, Option.map_map] at cells
  unfold rowValues element?
  rw [Option.map_map, Option.map_map]
  exact congrArg (Option.getD · []) cells

theorem views_of_slot_rows {rest : List NodeId} (kind : tree.kind? id = some .example)
    (rows : tree.slot id .rows = header :: rest) :
    tree.parameterRow? id = some header ∧ tree.argumentRows id = rest := by
  have whole : tree.exampleRows id = header :: rest := (if_pos kind).trans rows
  rw [parameterRow?, argumentRows, whole]
  exact ⟨rfl, rfl⟩

theorem content?_add (tree : Tree) (element : Element) (other : NodeId) :
    (tree.add element).content? other =
      if other = tree.size then some (element, none, none) else tree.content? other := by
  have pushed := node?_push tree (.ofElement element) other
  rw [content?, content?, show (tree.add element).node? other = _ from pushed]
  split <;> rfl

/-- A row that is added is a new child of the examples block. -/
theorem attached_withRow (here : id < tree.size) (cells : List Text) :
    Attached (tree.add (.row cells)) id .rows [tree.size] (tree.withRow id cells) := by
  refine attached_attach ?_ .rows ?_
  · exact size_add .. ▸ Nat.lt_succ_of_lt here
  · exact size_add .. ▸ Nat.lt_succ_self _

theorem content?_withRow (here : id < tree.size) (cells : List Text) (other : NodeId) :
    (tree.withRow id cells).content? other =
      if other = tree.size then some (.row cells, none, none) else tree.content? other :=
  ((attached_withRow here cells).contents other).trans (content?_add ..)

theorem parent?_withRow (here : id < tree.size) (cells : List Text) (other : NodeId) :
    (tree.withRow id cells).parent? other =
      if other = tree.size then some id else tree.parent? other := by
  have grown : (tree.add (.row cells)).parent? other = tree.parent? other :=
    parent?_push rfl tree other
  simp only [(attached_withRow here cells).parents, List.mem_singleton, grown]

theorem slot_withRow (here : id < tree.size) (cells : List Text) (other : NodeId) (slot : Slot) :
    (tree.withRow id cells).slot other slot =
      if other = id ∧ slot = .rows then tree.slot other slot ++ [tree.size]
      else tree.slot other slot := by
  have grown : (tree.add (.row cells)).slot other = tree.slot other :=
    @slot_push (.ofElement (.row cells)) rfl tree other
  rw [(attached_withRow here cells).slots, grown]

theorem node?_withRow_of_ne {other : NodeId} (differ : other ≠ id) (old : other ≠ tree.size)
    (cells : List Text) : (tree.withRow id cells).node? other = tree.node? other := by
  rw [withRow, attach_eq, setParent, node?_modify_of_ne _ _ old, relink,
    node?_modify_of_ne _ _ differ]
  exact (node?_push ..).trans (if_neg old)

theorem node?_detach_of_ne {parent other : NodeId} (found : tree.parent? row = some parent)
    (differ : other ≠ parent) (itself : other ≠ row) :
    (tree.detach row).node? other = tree.node? other := by
  rw [detach_eq found, setParent, node?_modify_of_ne _ _ itself, relink,
    node?_modify_of_ne _ _ differ]

/-- Taking out the first entry with a value takes out the first of the values. -/
theorem map_filter_eq_erase {α : Type} [BEq α] [LawfulBEq α] {ids : List NodeId}
    {value : NodeId → α} {a : α} {id : NodeId} (nodup : ids.Nodup)
    (found : ids.find? (fun other => value other == a) = some id) :
    (ids.filter fun other => other != id).map value = (ids.map value).erase a := by
  induction ids with
  | nil => cases found
  | cons first rest ih =>
    obtain ⟨fresh, nodup⟩ := List.nodup_cons.mp nodup
    rw [List.find?_cons] at found
    rw [List.map_cons, List.erase_cons]
    split at found
    · next here =>
      cases found
      rw [if_pos here, List.filter_cons_of_neg (by simp), filter_bne_of_not_mem fresh]
    · next other =>
      have differ : first ≠ id := by
        rintro rfl
        exact fresh (List.mem_of_find?_eq_some found)
      rw [other, List.filter_cons, if_pos (bne_iff_ne.mpr differ), List.map_cons, ih nodup found]
      rfl

theorem rowValues_withRow (here : id < tree.size) (cells : List Text) :
    (tree.withRow id cells).rowValues tree.size = cells := by
  have content := content?_withRow here cells tree.size
  rw [if_pos rfl] at content
  obtain ⟨node, found, same⟩ := Option.map_eq_some_iff.mp content
  rw [rowValues, element?, found]
  exact congrArg (fun content => content.1.cells) same

theorem rowValues_of_rowWith? {cells : List Text} (found : tree.rowWith? id cells = some row) :
    tree.rowValues row = cells := by
  simpa using List.find?_some found

theorem snd_withoutRow (tree : Tree) (id : NodeId) (cells : List Text) :
    (tree.withoutRow id cells).2 = tree.rowWith? id cells := by
  unfold withoutRow
  cases tree.rowWith? id cells <;> rfl

theorem rowWith?_eq_none_iff {cells : List Text} :
    tree.rowWith? id cells = none ↔ cells ∉ tree.argumentValues id := by
  simp [rowWith?, argumentValues]

theorem exists_rowWith? {cells : List Text} (present : cells ∈ tree.argumentValues id) :
    ∃ found, tree.rowWith? id cells = some found :=
  Option.ne_none_iff_exists'.mp fun none => rowWith?_eq_none_iff.1 none present

/-- Taking out two rows comes to the same only for equal cells, or where there is neither row. -/
theorem withoutRow_eq_iff {cells other : List Text} :
    tree.withoutRow id cells = tree.withoutRow id other ↔
      cells = other ∨ cells ∉ tree.argumentValues id ∧ other ∉ tree.argumentValues id := by
  constructor
  · intro same
    have rows : (tree.withoutRow id cells).2 = (tree.withoutRow id other).2 :=
      congrArg Prod.snd same
    rw [snd_withoutRow, snd_withoutRow] at rows
    cases found : tree.rowWith? id cells with
    | none =>
      rw [found] at rows
      exact .inr ⟨rowWith?_eq_none_iff.1 found, rowWith?_eq_none_iff.1 rows.symm⟩
    | some row =>
      rw [found] at rows
      exact .inl ((rowValues_of_rowWith? found).symm.trans (rowValues_of_rowWith? rows.symm))
  · rintro (rfl | ⟨absent, absent'⟩)
    · rfl
    · rw [withoutRow, withoutRow, rowWith?_eq_none_iff.2 absent, rowWith?_eq_none_iff.2 absent']

/-! ### Pairs in another order -/

variable {pairs : List (Text × Text)}

theorem not_isAmbiguous_nil : ¬ IsAmbiguous pairs [] := by
  rintro ⟨cells, other, ⟨_, rfl, _⟩, ⟨_, rfl, _⟩, differ⟩
  exact differ rfl

/-- An addition comes to the same for all orders of the pairs exactly if the pairs are clear. -/
theorem addRow_of_perm_iff (tree : Tree) (id : NodeId) (pairs : List (Text × Text)) :
    (∀ others, others.Perm pairs →
      tree.addRow id (.keyed others) = tree.addRow id (.keyed pairs)) ↔
    ¬ IsAmbiguous pairs (tree.parameters id) := by
  cases first : tree.parameterRow? id with
  | none =>
    obtain ⟨error, refused⟩ := exists_addRow_eq_error first
    have parameters : tree.parameters id = [] := by rw [Tree.parameters, first]; rfl
    simp [refused, parameters, not_isAmbiguous_nil]
  | some header =>
    have here : id < tree.size := lt_size_of_kind? (kind?_of_parameterRow? first)
    have injective (cells other : List Text) :
        (tree.withRow id cells, tree.size) = (tree.withRow id other, tree.size) ↔
          cells = other := by
      refine ⟨fun same => ?_, fun same => by rw [same]⟩
      rw [← rowValues_withRow here cells, (Prod.mk.inj same).1, rowValues_withRow here other]
    simp only [addRow_eq first, map_resolve_of_perm_iff, injective, not_isAmbiguous_iff]

/-- A removal comes to the same for all orders of the pairs exactly if the pairs are clear or no
argument row has what they can be read as. -/
theorem removeRow_of_perm_iff (tree : Tree) (id : NodeId) (pairs : List (Text × Text)) :
    (∀ others, others.Perm pairs →
      tree.removeRow id (.keyed others) = tree.removeRow id (.keyed pairs)) ↔
    (IsAmbiguous pairs (tree.parameters id) →
      ∀ cells, IsReading pairs (tree.parameters id) cells → cells ∉ tree.argumentValues id) := by
  by_cases kind : tree.kind? id = some .example
  case neg =>
    obtain ⟨error, refused⟩ := exists_removeRow_eq_error kind
    have none : tree.exampleRows id = [] := if_neg kind
    simp [refused, argumentValues, argumentRows, none]
  simp only [removeRow_eq kind]
  split
  · next empty => simp [argumentValues, empty]
  simp only [map_resolve_of_perm_iff, withoutRow_eq_iff]
  constructor
  · rintro same ⟨cells, other, reading, another, differ⟩ found isReading
    -- Of two readings one is not the one that is looked for.
    by_cases here : cells = found
    · have apart : found ≠ other := here ▸ differ
      exact ((same found other isReading another).resolve_left apart).1
    · exact ((same cells found reading isReading).resolve_left here).2
  · intro without cells other reading another
    by_cases differ : cells = other
    · exact .inl differ
    · have absent := without ⟨cells, other, reading, another, differ⟩
      exact .inr ⟨absent cells reading, absent other another⟩

/-- The order of pairs does not count where they can be read in one way only, as when their keys
differ in more than blanks. Otherwise it counts for every addition, and for a removal if one of
the argument rows has what the pairs can be read as. -/
theorem rows_of_perm_iff (tree : Tree) (id : NodeId) (pairs : List (Text × Text)) :
    ((∀ others, others.Perm pairs →
        tree.addRow id (.keyed others) = tree.addRow id (.keyed pairs)) ↔
      ¬ IsAmbiguous pairs (tree.parameters id)) ∧
    ((∀ others, others.Perm pairs →
        tree.removeRow id (.keyed others) = tree.removeRow id (.keyed pairs)) ↔
      (IsAmbiguous pairs (tree.parameters id) →
        ∀ cells, IsReading pairs (tree.parameters id) cells → cells ∉ tree.argumentValues id)) ∧
    ((pairs.map fun pair => Text.trim pair.1).Nodup →
      ¬ IsAmbiguous pairs (tree.parameters id)) :=
  ⟨addRow_of_perm_iff tree id pairs, removeRow_of_perm_iff tree id pairs,
    fun distinct => not_isAmbiguous_of_nodup distinct _⟩

/-- Two keys that differ in a blank name one parameter: the order of their pairs decides which
value is added and whether a row is removed. -/
theorem rows_of_swap_sampleBlock :
    let tree := Command.run (sampleBlock [[Text.word "1"]]) .empty
    let pairs := [(Text.word "p", Text.word "1"), (Text.word " p", Text.word "2")]
    let swapped := [(Text.word " p", Text.word "2"), (Text.word "p", Text.word "1")]
    tree.Reachable ∧ (pairs.map Prod.fst).Nodup ∧ swapped.Perm pairs ∧
      tree.addRow 0 (.keyed swapped) ≠ tree.addRow 0 (.keyed pairs) ∧
      tree.removeRow 0 (.keyed swapped) ≠ tree.removeRow 0 (.keyed pairs) := by
  intro tree pairs swapped
  refine ⟨reachable_sampleBlock _, by decide, .swap .., fun same => ?_, fun same => ?_⟩
  · have added := congrArg (fun outcome => outcome.toOption.map fun result =>
      result.1.rowValues result.2) same
    exact absurd added (by decide)
  · have removed := congrArg (fun outcome => outcome.toOption.map Prod.snd) same
    exact absurd removed (by decide)

end Tree

end Gherkin
