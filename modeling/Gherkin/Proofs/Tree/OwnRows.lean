import Gherkin.Proofs.Modeled
import Gherkin.Proofs.Tree.RowEdits

/-!
# Removing a row by its own values

Values are trimmed before a row is looked for, and so are cells when they are read, but for
newlines that are written with an escape. A modeled row is therefore found by its own values as
long as none of them begins or ends with a newline, and a parameter can be named as long as its
name does not.
-/

namespace Gherkin

/-- A text neither begins nor ends with a newline. -/
def Text.HasPlainEnds (t : Text) : Prop := t.head? ≠ some '\n' ∧ t.getLast? ≠ some '\n'

instance (t : Text) : Decidable t.HasPlainEnds :=
  inferInstanceAs (Decidable (_ ∧ _))

/-- What is left of blanks at the ends of a cell value are newlines. -/
theorem IsCellValue.trim_eq_self_iff {value : Text} (read : IsCellValue value) :
    Text.trim value = value ↔ value.HasPlainEnds := by
  have edge {end? : Option Char} (stays : ∀ c ∈ end?, (Text.isBlank c && c != '\n') = false) :
      (∀ c ∈ end?, Text.isBlank c = false) ↔ end? ≠ some '\n' := by
    constructor
    · rintro solid rfl
      exact absurd (solid '\n' rfl) (by decide)
    · rintro other c rfl
      have differ : c ≠ '\n' := fun same => other (congrArg some same)
      simpa [differ] using stays c rfl
  rw [Text.trim_eq_strip, strip_eq_self_iff]
  exact and_congr (edge read.1) (edge read.2)

namespace RowValues

variable {parameters cells : List Text} {pairs : List (Text × Text)} {parameter : Text}

theorem resolve_positional (even : cells.length = parameters.length) :
    resolve parameters (.positional cells) = .ok (cells.map Text.trim) := if_pos even

/-- Who names a parameter names it without blanks at its ends. -/
theorem trim_eq_self_of_named (named : isUnnamed pairs parameter = false) :
    Text.trim parameter = parameter := by
  rw [Bool.eq_false_iff, Ne, isUnnamed_iff] at named
  push Not at named
  obtain ⟨pair, _, rfl⟩ := named
  exact Text.trim_trim _

theorem isUnnamed_zip (even : cells.length = parameters.length) (member : parameter ∈ parameters)
    (trimmed : Text.trim parameter = parameter) :
    isUnnamed (parameters.zip cells) parameter = false := by
  rw [Bool.eq_false_iff, Ne, isUnnamed_iff]
  have keys : (parameters.zip cells).map Prod.fst = parameters :=
    List.map_fst_zip (Nat.le_of_eq even.symm)
  rw [← keys] at member
  obtain ⟨pair, inside, rfl⟩ := List.mem_map.mp member
  exact fun unnamed => unnamed pair inside trimmed

/-- Each parameter has the value beside it, if no other parameter has its name. -/
theorem map_firstValue_zip (distinct : parameters.Nodup)
    (trimmed : ∀ parameter ∈ parameters, Text.trim parameter = parameter)
    (even : cells.length = parameters.length) :
    parameters.map (firstValue (parameters.zip cells)) = cells.map Text.trim := by
  induction parameters generalizing cells with
  | nil => rw [List.length_eq_zero_iff.mp even]; rfl
  | cons parameter rest ih =>
    obtain ⟨cell, others, rfl⟩ := List.exists_cons_of_length_eq_add_one even
    obtain ⟨fresh, distinct⟩ := List.nodup_cons.mp distinct
    obtain ⟨here, trimmed⟩ := List.forall_mem_cons.mp trimmed
    rw [List.map_cons, List.map_cons, ← ih distinct trimmed (Nat.succ.inj even), List.zip_cons_cons]
    refine congrArg₂ List.cons ?_ (List.map_congr_left fun other member => ?_)
    · simp [firstValue, here]
    · have differ : parameter ≠ other := fun same => fresh (same ▸ member)
      simp [firstValue, here, differ]

end RowValues

namespace Tree

open RowValues

variable {tree : Tree} {id header row : NodeId} {values : RowValues} {dialect : Dialect}

/-! ### Rows of a block in normal form -/

theorem exists_row_of_mem_slot (linked : tree.Linked) (member : row ∈ tree.slot id .rows) :
    tree.element? row = some (.row (tree.rowValues row)) := by
  obtain ⟨kind, found, home⟩ := (linked.holds id .rows row member).home
  obtain ⟨node, here, rfl⟩ := Option.map_eq_some_iff.mp found
  rw [rowValues, element?, here]
  obtain ⟨element, _, _, _, _⟩ := node
  cases element <;> cases home
  rfl

theorem IsNormalAt.isCellValue (normal : tree.IsNormalAt dialect row) {cells : List Text}
    (element : tree.element? row = some (.row cells)) : ∀ cell ∈ cells, IsCellValue cell := by
  obtain ⟨found, here, normal⟩ := normal
  cases (Option.mem_def.mp here).symm.trans element
  exact normal

theorem IsNormalAt.length_rowValues (normal : tree.IsNormalAt dialect id) (linked : tree.Linked)
    (kind : tree.kind? id = some .example) {other : NodeId} (member : row ∈ tree.slot id .rows)
    (member' : other ∈ tree.slot id .rows) :
    (tree.rowValues row).length = (tree.rowValues other).length := by
  obtain ⟨node, here, kind⟩ := Option.map_eq_some_iff.mp kind
  obtain ⟨element, found, normal⟩ := normal
  rw [Option.mem_def, element?, here] at found
  cases found
  have even : Element.AreEven ((tree.children id).filterMap tree.element?) := by
    obtain ⟨element, _, _, _, _⟩ := node
    cases element <;> cases kind
    exact normal.2
  have child {row : NodeId} (member : row ∈ tree.slot id .rows) :
      .row (tree.rowValues row) ∈ (tree.children id).filterMap tree.element? := by
    refine List.mem_filterMap.mpr ⟨row, ?_, exists_row_of_mem_slot linked member⟩
    rw [Tree.slot, here] at member
    rw [Tree.children, here]
    exact List.mem_flatMap.mpr ⟨.rows, by rw [kind]; decide, member⟩
  exact even _ (child member) _ (child member') rfl rfl

/-! ### Finding a row by its values -/

/-- The first argument row with the cells of a row is removed: it has no parent then, and all
other argument rows stay. -/
def RemovesLike (tree : Tree) (id row : NodeId) (values : RowValues) : Prop :=
  ∃ front found rest, tree.argumentRows id = front ++ found :: rest ∧
    tree.rowValues found = tree.rowValues row ∧
    (∀ other ∈ front, tree.rowValues other ≠ tree.rowValues row) ∧
    tree.removeRow id values = .ok (tree.detach found, some found) ∧
    (tree.detach found).parent? found = none ∧
    (tree.detach found).argumentRows id = front ++ rest

section Own

variable (linked : tree.Linked) (first : tree.parameterRow? id = some header)
  (member : row ∈ tree.argumentRows id)

include first member

theorem removeRow_of_mem (values : RowValues) :
    tree.removeRow id values = (values.resolve (tree.parameters id)).map (tree.withoutRow id) := by
  rw [removeRow_eq (kind?_of_parameterRow? first), if_neg (List.ne_nil_of_mem member)]

include linked

/-- A row like another one is removed exactly if the values come to the cells of the latter. -/
theorem removesLike_iff : tree.RemovesLike id row values ↔
    values.resolve (tree.parameters id) = .ok (tree.rowValues row) := by
  constructor
  · rintro ⟨_, found, _, _, same, _, removed, _⟩
    rw [removeRow_of_mem first member] at removed
    obtain ⟨cells, resolved, taken⟩ := Except.map_eq_ok_iff.mp removed
    have here : tree.rowWith? id cells = some found :=
      (snd_withoutRow ..).symm.trans (congrArg Prod.snd taken)
    rw [resolved, ← same, rowValues_of_rowWith? here]
  · intro resolved
    obtain ⟨found, here⟩ := exists_rowWith? (List.mem_map_of_mem member)
    obtain ⟨_, front, rest, rows, before⟩ := List.find?_eq_some_iff_append.mp here
    have inside : found ∈ tree.argumentRows id := List.mem_of_find?_eq_some here
    have nodup := linked.nodup id .rows
    rw [rows_of_parameterRow? first] at nodup
    refine ⟨front, found, rest, rows, rowValues_of_rowWith? here, fun other earlier => ?_, ?_,
      (parent?_detach ..).trans (if_pos rfl), ?_⟩
    · simpa using before other earlier
    · rw [removeRow_of_mem first member, resolved, Except.map, withoutRow, here]
    · have once := (List.nodup_cons.mp nodup).2
      rw [(rows_detach linked first inside).2, ← once.erase_eq_filter, rows]
      rw [rows] at once
      have fresh : found ∉ front := fun earlier =>
        (List.nodup_append.mp once).2.2 found earlier found List.mem_cons_self rfl
      rw [List.erase_append_right _ fresh, List.erase_cons_head]

variable (read : ∀ cell ∈ tree.rowValues row, IsCellValue cell)
  (names : ∀ parameter ∈ tree.parameters id, IsCellValue parameter)
  (even : (tree.rowValues row).length = (tree.parameters id).length)

include even

include read in
theorem removesLike_positional_iff :
    tree.RemovesLike id row (.positional (tree.rowValues row)) ↔
      ∀ cell ∈ tree.rowValues row, cell.HasPlainEnds := by
  have unchanged : (tree.rowValues row).map Text.trim = tree.rowValues row ↔
      ∀ cell ∈ tree.rowValues row, Text.trim cell = cell := by
    conv_lhs => rhs; rw [← List.map_id (tree.rowValues row)]
    exact List.map_inj_left
  rw [removesLike_iff linked first member, resolve_positional even, Except.ok.injEq, unchanged]
  exact forall₂_congr fun cell inside => (read cell inside).trim_eq_self_iff

omit linked in
include names in
theorem removeRow_keyed_eq_iff (distinct : (tree.parameters id).Nodup) :
    tree.removeRow id (.keyed ((tree.parameters id).zip (tree.rowValues row))) =
        tree.removeRow id (.positional (tree.rowValues row)) ↔
      ∀ parameter ∈ tree.parameters id, parameter.HasPlainEnds := by
  have trims {parameter : Text} (inside : parameter ∈ tree.parameters id) :=
    (names parameter inside).trim_eq_self_iff
  rw [removeRow_of_mem first member, removeRow_of_mem first member, resolve_positional even]
  constructor
  · intro same parameter inside
    obtain ⟨cells, resolved, _⟩ := Except.map_eq_ok_iff.mp same
    have named := (resolve_keyed_eq_ok_iff.mp resolved).1 parameter inside
    exact (trims inside).mp (trim_eq_self_of_named named)
  · intro plain
    have trimmed (parameter : Text) (inside : parameter ∈ tree.parameters id) :=
      (trims inside).mpr (plain parameter inside)
    have resolved : resolve (tree.parameters id)
        (.keyed ((tree.parameters id).zip (tree.rowValues row))) =
          .ok ((tree.rowValues row).map Text.trim) := by
      refine resolve_keyed_eq_ok_iff.mpr ⟨fun parameter inside => ?_, ?_⟩
      · exact isUnnamed_zip even inside (trimmed parameter inside)
      · exact (map_firstValue_zip distinct trimmed even).symm
    rw [resolved]

end Own

/-! ### Rows that were modeled -/

/-- A row that was modeled from source text is removed by its own values exactly if none of them
begins or ends with a newline. By the pairs of parameters and values the same is removed exactly
if no name of a parameter begins or ends with a newline. -/
theorem removeRow_modeled_iff {release : Release} {active : Dialect} {pinned : Option Dialect}
    {command : Command} (reachable : tree.Reachable) (supported : release ∈ Release.all)
    (known : pinned.getD active ∈ Dialect.all)
    (models : command.modeler? = some (.ofRelease active release pinned))
    (new : tree.size ≤ id) (member : row ∈ (command.after tree).argumentRows id) :
    let grown := command.after tree
    let cells := grown.rowValues row
    let parameters := grown.parameters id
    (grown.RemovesLike id row (.positional cells) ↔ ∀ cell ∈ cells, cell.HasPlainEnds) ∧
    (parameters.Nodup →
      (grown.removeRow id (.keyed (parameters.zip cells)) =
          grown.removeRow id (.positional cells) ↔
        ∀ parameter ∈ parameters, parameter.HasPlainEnds)) := by
  intro grown cells parameters
  have linked : grown.Linked := reachable.linked.perform command
  obtain ⟨header, first⟩ := exists_parameterRow?_of_mem member
  have kind := kind?_of_parameterRow? first
  have top : header ∈ grown.slot id .rows := rows_of_parameterRow? first ▸ List.mem_cons_self
  have inside : row ∈ grown.slot id .rows := mem_rows_of_argumentRows first member
  obtain ⟨_, block⟩ := Command.exists_isNormalAt_of_modeler? reachable.linked supported known models
    new (lt_size_of_kind? kind) (by rw [kind]; exact ⟨nofun, nofun⟩)
  have read {row : NodeId} (member : row ∈ grown.slot id .rows) :
      ∀ cell ∈ grown.rowValues row, IsCellValue cell := by
    obtain ⟨kind, found, home⟩ := (linked.holds id .rows row member).home
    have later := Command.size_le_of_modeler? reachable.linked supported known models new
      (linked.hasParent member)
    obtain ⟨_, normal⟩ := Command.exists_isNormalAt_of_modeler? reachable.linked supported known
      models later (linked.lt_size member) (by
        change grown.kind? row ≠ _ ∧ grown.kind? row ≠ _
        rw [found]
        cases kind <;> cases home
        exact ⟨nofun, nofun⟩)
    exact normal.isCellValue (exists_row_of_mem_slot linked member)
  have names := read top
  have even := block.length_rowValues linked kind inside top
  rw [← parameters_of_parameterRow? first] at names even
  exact ⟨removesLike_positional_iff linked first member (read inside) even,
    removeRow_keyed_eq_iff first member names even⟩

/-- Examples with two equal rows. -/
def sampleRows : Text :=
  Text.unlines (["Feature: f", "  Scenario Outline: s", "    Examples:", "      | p |",
    "      | 1 |", "      | 1 |"].map Text.word)

/-- The second row is like the first one, which goes. -/
theorem removeRow_modeled_sampleRows :
    let command := .document (.ofRelease .english .newest none) sampleRows (Text.word "a.feature")
    let grown := Command.after command .empty
    6 ∈ grown.argumentRows 3 ∧ grown.RemovesLike 3 6 (.positional (grown.rowValues 6)) ∧
      grown.removeRow 3 (.keyed ((grown.parameters 3).zip (grown.rowValues 6))) =
        grown.removeRow 3 (.positional (grown.rowValues 6)) := by
  intro command grown
  obtain ⟨member, plain, distinct, names⟩ : 6 ∈ grown.argumentRows 3 ∧
      (∀ cell ∈ grown.rowValues 6, cell.HasPlainEnds) ∧ (grown.parameters 3).Nodup ∧
      ∀ parameter ∈ grown.parameters 3, parameter.HasPlainEnds := by
    decide +kernel
  have supported : Release.newest ∈ Release.all := by decide
  have known : (none : Option Dialect).getD .english ∈ Dialect.all := by decide
  obtain ⟨own, keyed⟩ :=
    removeRow_modeled_iff ⟨[], rfl⟩ supported known rfl (Nat.zero_le 3) member
  exact ⟨member, own.mpr plain, (keyed distinct).mpr names⟩

/-- Examples with a parameter and a value that are a newline each. -/
def sampleNewlines : Text :=
  Text.unlines (["Feature: f", "  Scenario Outline: s", "    Examples:", "      | p | \\n |",
    "      | \\n | 1 |"].map Text.word)

/-- The row is not found by its own values, and the second parameter has no value. -/
theorem not_removeRow_modeled_sampleNewlines :
    let command := .document (.ofRelease .english .newest none) sampleNewlines
      (Text.word "a.feature")
    let grown := Command.after command .empty
    5 ∈ grown.argumentRows 3 ∧ (grown.parameters 3).Nodup ∧
      ¬ grown.RemovesLike 3 5 (.positional (grown.rowValues 5)) ∧
      grown.removeRow 3 (.keyed ((grown.parameters 3).zip (grown.rowValues 5))) ≠
        grown.removeRow 3 (.positional (grown.rowValues 5)) := by
  intro command grown
  obtain ⟨member, distinct, nothing, refused⟩ : 5 ∈ grown.argumentRows 3 ∧
      (grown.parameters 3).Nodup ∧
      (grown.removeRow 3 (.positional (grown.rowValues 5))).toOption.map Prod.snd = some none ∧
      (grown.removeRow 3 (.keyed ((grown.parameters 3).zip (grown.rowValues 5)))).toOption.isNone :=
    by decide +kernel
  refine ⟨member, distinct, fun removes => ?_, fun same => ?_⟩
  · obtain ⟨_, found, _, _, _, _, removed, _⟩ := removes
    rw [removed] at nothing
    cases nothing
  · rw [same] at refused
    cases outcome : grown.removeRow 3 (.positional (grown.rowValues 5)) <;>
      simp [outcome, Except.toOption] at nothing refused

end Tree

end Gherkin
