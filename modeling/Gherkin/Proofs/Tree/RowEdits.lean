import Gherkin.Proofs.Tree.Rows

/-!
# Editing rows again and again

However often rows are added to an examples block and removed from it, the values of its argument
rows are what the same edits make of a plain list of values: an addition appends to the list, and
a removal erases the first entry that is equal. The parameter row is never touched, and neither is
any node that is not a row of these edits.
-/

namespace Gherkin

/-- The state after a list of computations is that of the rest after the first. -/
theorem run_mapM_cons {σ α β : Type} (f : α → StateM σ β) (a : α) (rest : List α) (s : σ) :
    ((a :: rest).mapM f).run s =
      (((f a).run s).1 :: ((rest.mapM f).run ((f a).run s).2).1,
        ((rest.mapM f).run ((f a).run s).2).2) := by
  rw [List.mapM_cons]
  rfl

/-- What a change has come to, and the tree there is then. -/
def settled {α : Type} : EStateM.Result Error Tree α → Except Error α × Tree
  | .ok value after => (.ok value, after)
  | .error error after => (.error error, after)

/-- An edit of the rows of an examples block. -/
inductive RowEdit where
  | add (values : RowValues)
  | remove (values : RowValues)

namespace RowEdit

/-- Makes an edit in place. The outcome is the row that was added or removed, if there is one. -/
def perform (id : NodeId) : RowEdit → Change (Option NodeId)
  | .add values => do
    let row ← Change.addRow id values
    pure (some row)
  | .remove values => do
    let tree ← get
    let (after, row) ← Change.ofExcept (tree.removeRow id values)
    set after
    pure row

/-- The command that makes an edit. -/
def command (id : NodeId) : RowEdit → Command
  | .add values => .addRow id values
  | .remove values => .removeRow id values

/-- Makes an edit whether it fails or not, and goes on with the tree there is then. -/
def attempt (id : NodeId) (edit : RowEdit) : StateM Tree (Except Error (Option NodeId)) :=
  fun tree => settled (edit.perform id tree)

/-- The same edit of a plain list of values. The outcome is whether an entry came or went. -/
def onValues (parameters : List Text) (edit : RowEdit) :
    StateM (List (List Text)) (Except Error Bool) := fun rows =>
  match edit with
  | .add values =>
    match values.resolve parameters with
    | .ok cells => (.ok true, rows ++ [cells])
    | .error error => (.error error, rows)
  | .remove values =>
    if rows = [] then (.ok false, rows)
    else match values.resolve parameters with
      | .ok cells => (.ok (decide (cells ∈ rows)), rows.erase cells)
      | .error error => (.error error, rows)

/-- The rows that were added or removed. -/
def involved (outcomes : List (Except Error (Option NodeId))) : List NodeId :=
  outcomes.flatMap fun outcome => outcome.toOption.join.toList

theorem involved_cons (outcome : Except Error (Option NodeId))
    (rest : List (Except Error (Option NodeId))) :
    involved (outcome :: rest) = involved [outcome] ++ involved rest := by
  simp [involved]

theorem perform_remove (id : NodeId) (values : RowValues) (tree : Tree) :
    (RowEdit.remove values).perform id tree =
      Change.outcome tree ((tree.removeRow id values).map Prod.swap) := by
  have looked : (RowEdit.remove values).perform id tree =
      EStateM.bind (Change.ofExcept (tree.removeRow id values)) (fun result => do
        set result.1
        pure result.2) tree := rfl
  rw [looked, EStateM.bind, Change.ofExcept_eq]
  cases tree.removeRow id values <;> rfl

theorem after_command (id : NodeId) (edit : RowEdit) (tree : Tree) :
    (edit.command id).after tree = ((edit.attempt id).run tree).2 := by
  cases edit with
  | add values =>
    have performed : ((RowEdit.add values).command id).perform tree =
      EStateM.map (fun _ => ()) (Change.addRow id values) tree := rfl
    change _ =
      (settled (EStateM.bind (Change.addRow id values) (fun row => pure (some row)) tree)).2
    rw [Command.after, performed, EStateM.map, EStateM.bind]
    cases Change.addRow id values tree <;> rfl
  | remove values =>
    have performed : ((RowEdit.remove values).command id).perform tree = _ :=
      Change.update_eq (fun tree => (tree.removeRow id values).map Prod.fst) tree
    change _ = (settled ((RowEdit.remove values).perform id tree)).2
    rw [Command.after, performed, perform_remove]
    cases tree.removeRow id values <;> rfl

/-- The commands that make edits one after the other lead to the same tree. -/
theorem run_commands (id : NodeId) (edits : List RowEdit) (tree : Tree) :
    Command.run (edits.map (command id)) tree = ((edits.mapM (attempt id)).run tree).2 := by
  induction edits generalizing tree with
  | nil => rfl
  | cons edit rest ih =>
    rw [run_mapM_cons, ← ih, ← after_command]
    rfl

end RowEdit

namespace Tree

variable {tree middle after : Tree} {id header row : NodeId} {values : RowValues}
  {cells : List Text}

/-- A tree in which nothing but some rows of an examples block has come or gone. -/
structure RowsEdited (id : NodeId) (rows : List NodeId) (tree after : Tree) : Prop where
  size : tree.size ≤ after.size
  /-- The parameter row stays the first of all rows and is not among those that come or go. -/
  parameterRow : ∀ header, tree.parameterRow? id = some header →
    after.parameterRow? id = some header ∧ header ≠ id ∧ header ∉ rows
  /-- No element is changed, not even that of a row that has gone. -/
  contents : ∀ other < tree.size, after.content? other = tree.content? other
  /-- The examples block stays where it is and keeps its tags. -/
  itself : after.parent? id = tree.parent? id ∧
    ∀ slot, slot ≠ .rows → after.slot id slot = tree.slot id slot
  others : ∀ other, other ≠ id → other ∉ rows → after.node? other = tree.node? other
  /-- What has no parent gets none. -/
  orphans : ∀ other < tree.size, tree.parent? other = none → after.parent? other = none

theorem RowsEdited.trans {rows rows' : List NodeId} (first : RowsEdited id rows tree middle)
    (second : RowsEdited id rows' middle after) : RowsEdited id (rows ++ rows') tree after where
  size := Nat.le_trans first.size second.size
  parameterRow header found := by
    obtain ⟨still, apart, kept⟩ := first.parameterRow header found
    obtain ⟨last, _, kept'⟩ := second.parameterRow header still
    refine ⟨last, apart, fun member => ?_⟩
    exact (List.mem_append.mp member).elim kept kept'
  contents other old :=
    (second.contents other (Nat.lt_of_lt_of_le old first.size)).trans (first.contents other old)
  itself := ⟨second.itself.1.trans first.itself.1, fun slot differ =>
    (second.itself.2 slot differ).trans (first.itself.2 slot differ)⟩
  others other differ apart := by
    rw [List.mem_append, not_or] at apart
    exact (second.others other differ apart.2).trans (first.others other differ apart.1)
  orphans other old alone :=
    second.orphans other (Nat.lt_of_lt_of_le old first.size) (first.orphans other old alone)

theorem mem_rows_of_argumentRows (first : tree.parameterRow? id = some header)
    (member : row ∈ tree.argumentRows id) : row ∈ tree.slot id .rows := by
  rw [rows_of_parameterRow? first]
  exact List.mem_cons_of_mem _ member

theorem header_ne (linked : tree.Linked) (first : tree.parameterRow? id = some header) :
    header ≠ id := by
  rintro rfl
  have member : header ∈ tree.slot header .rows := by
    rw [rows_of_parameterRow? first]
    exact List.mem_cons_self
  exact linked.acyclic header (.single (linked.hasParent member))

theorem rowsEdited_same (linked : tree.Linked) : RowsEdited id [] tree tree where
  size := Nat.le_refl _
  parameterRow _ found := ⟨found, header_ne linked found, List.not_mem_nil⟩
  contents _ _ := rfl
  itself := ⟨rfl, fun _ _ => rfl⟩
  others _ _ _ := rfl
  orphans _ _ alone := alone

/-! ### A row that is added -/

theorem size_withRow (tree : Tree) (id : NodeId) (cells : List Text) :
    (tree.withRow id cells).size = tree.size + 1 := by
  rw [withRow, attach_eq, size_setParent, size_relink, size_add]

theorem rows_withRow (first : tree.parameterRow? id = some header) (cells : List Text) :
    (tree.withRow id cells).parameterRow? id = some header ∧
      (tree.withRow id cells).argumentRows id = tree.argumentRows id ++ [tree.size] := by
  have kind := kind?_of_parameterRow? first
  have here := lt_size_of_kind? kind
  have still := content?_withRow here cells id
  rw [if_neg (Nat.ne_of_lt here)] at still
  refine views_of_slot_rows ((kind?_of_content? still).trans kind) ?_
  rw [slot_withRow here, if_pos ⟨rfl, rfl⟩, rows_of_parameterRow? first]
  rfl

section Rows

variable (linked : tree.Linked) (first : tree.parameterRow? id = some header)

include linked first

theorem header_lt_size : header < tree.size := by
  have member : header ∈ tree.slot id .rows := by
    rw [rows_of_parameterRow? first]
    exact List.mem_cons_self
  exact linked.lt_size member

theorem argumentValues_withRow (cells : List Text) :
    (tree.withRow id cells).argumentValues id = tree.argumentValues id ++ [cells] := by
  have here := lt_size_of_kind? (kind?_of_parameterRow? first)
  rw [argumentValues, (rows_withRow first cells).2, List.map_append, List.map_singleton,
    rowValues_withRow here]
  refine congrArg (· ++ [cells]) (List.map_congr_left fun row member => ?_)
  have old := linked.lt_size (mem_rows_of_argumentRows first member)
  exact rowValues_of_content? ((content?_withRow here cells row).trans (if_neg (Nat.ne_of_lt old)))

theorem rowsEdited_withRow (cells : List Text) :
    RowsEdited id [tree.size] tree (tree.withRow id cells) := by
  have here := lt_size_of_kind? (kind?_of_parameterRow? first)
  have old := header_lt_size linked first
  refine ⟨?_, fun header' found => ?_, fun other older => ?_, ⟨?_, fun slot differ => ?_⟩,
    fun other differ apart => ?_, fun other older alone => ?_⟩
  · exact size_withRow tree id cells ▸ Nat.le_succ _
  · cases first.symm.trans found
    refine ⟨(rows_withRow first cells).1, header_ne linked first, ?_⟩
    exact fun member => Nat.ne_of_lt old (List.mem_singleton.mp member)
  · exact (content?_withRow here cells other).trans (if_neg (Nat.ne_of_lt older))
  · exact (parent?_withRow here cells id).trans (if_neg (Nat.ne_of_lt here))
  · exact (slot_withRow here cells id slot).trans (if_neg fun both => differ both.2)
  · exact node?_withRow_of_ne differ (fun same => apart (List.mem_singleton.mpr same)) cells
  · exact ((parent?_withRow here cells other).trans (if_neg (Nat.ne_of_lt older))).trans alone

/-! ### A row that is removed -/

section Detached

variable (member : row ∈ tree.argumentRows id)

include member

theorem header_ne_argumentRow : header ≠ row := by
  have nodup := linked.nodup id .rows
  rw [rows_of_parameterRow? first] at nodup
  rintro rfl
  exact (List.nodup_cons.mp nodup).1 member

theorem rows_detach :
    (tree.detach row).parameterRow? id = some header ∧
      (tree.detach row).argumentRows id =
        (tree.argumentRows id).filter fun other => other != row := by
  have differ := header_ne_argumentRow linked first member
  refine views_of_slot_rows ((kind?_detach ..).trans (kind?_of_parameterRow? first)) ?_
  rw [linked.slot_detach, rows_of_parameterRow? first, List.filter_cons,
    if_pos (bne_iff_ne.mpr differ)]

theorem rowsEdited_detach : RowsEdited id [row] tree (tree.detach row) := by
  have found : tree.parent? row = some id :=
    linked.hasParent (mem_rows_of_argumentRows first member)
  have apart : id ≠ row := by
    rintro rfl
    exact linked.acyclic id (.single found)
  refine ⟨?_, fun header' found' => ?_, fun other _ => content?_detach ..,
    ⟨?_, fun slot differ => ?_⟩, fun other differ apart => ?_, fun other _ alone => ?_⟩
  · rw [detach_eq found, size_setParent, size_relink]
  · cases first.symm.trans found'
    refine ⟨(rows_detach linked first member).1, header_ne linked first, fun same => ?_⟩
    exact header_ne_argumentRow linked first member (List.mem_singleton.mp same)
  · exact (parent?_detach ..).trans (if_neg apart)
  · rw [linked.slot_detach]
    refine filter_bne_of_not_mem fun inside => differ ?_
    exact (linked.slot_unique inside (mem_rows_of_argumentRows first member)).2
  · exact node?_detach_of_ne found differ fun same => apart (List.mem_singleton.mpr same)
  · rw [parent?_detach, alone]
    exact ite_self _

end Detached

theorem argumentValues_detach (found : tree.rowWith? id cells = some row) :
    (tree.detach row).argumentValues id = (tree.argumentValues id).erase cells := by
  have member : row ∈ tree.argumentRows id := List.mem_of_find?_eq_some found
  have nodup := linked.nodup id .rows
  rw [rows_of_parameterRow? first] at nodup
  have erased :=
    @map_filter_eq_erase _ _ _ _ tree.rowValues cells row (List.nodup_cons.mp nodup).2 found
  rw [argumentValues, (rows_detach linked first member).2, argumentValues, ← erased]
  exact List.map_congr_left fun other _ => rowValues_of_content? (content?_detach ..)

/-! ### One edit -/

theorem run_attempt_add (values : RowValues) :
    ((RowEdit.add values).attempt id).run tree =
      match values.resolve (tree.rowValues header) with
      | .ok cells => (.ok (some tree.size), tree.withRow id cells)
      | .error error => (.error error, tree) := by
  have added := Change.addRow_eq linked.closed id values
  rw [addRow_eq first, parameters_of_parameterRow? first] at added
  change settled (EStateM.bind (Change.addRow id values) (fun row => pure (some row)) tree) = _
  rw [EStateM.bind, added]
  cases values.resolve (tree.rowValues header) <;> rfl

omit linked in
theorem run_attempt_remove (values : RowValues) :
    ((RowEdit.remove values).attempt id).run tree =
      if tree.argumentRows id = [] then (.ok none, tree)
      else match values.resolve (tree.rowValues header) with
      | .ok cells => (.ok (tree.withoutRow id cells).2, (tree.withoutRow id cells).1)
      | .error error => (.error error, tree) := by
  change settled ((RowEdit.remove values).perform id tree) = _
  rw [RowEdit.perform_remove, removeRow_eq (kind?_of_parameterRow? first) values,
    parameters_of_parameterRow? first]
  by_cases empty : tree.argumentRows id = []
  · rw [if_pos empty, if_pos empty]
    rfl
  · rw [if_neg empty, if_neg empty]
    cases values.resolve (tree.rowValues header) <;> rfl

/-- An edit has come to the same in a tree and in the list of the values of its argument rows, and
a row that was removed has no parent. -/
structure Agrees (id : NodeId) (tree : Tree) (edit : RowEdit)
    (made : Except Error (Option NodeId) × Tree) (plain : Except Error Bool × List (List Text)) :
    Prop where
  values : made.2.argumentValues id = plain.2
  outcome : made.1.map Option.isSome = plain.1
  edited : RowsEdited id (RowEdit.involved [made.1]) tree made.2
  removed : ∀ values row, edit = .remove values → made.1 = .ok (some row) →
    row < tree.size ∧ made.2.parent? row = none

theorem agrees_added (values : RowValues) (cells : List Text) :
    Agrees id tree (.add values) (.ok (some tree.size), tree.withRow id cells)
      (.ok true, tree.argumentValues id ++ [cells]) where
  values := argumentValues_withRow linked first cells
  outcome := rfl
  edited := rowsEdited_withRow linked first cells
  removed := nofun

theorem agrees_removed (values : RowValues) (cells : List Text) :
    Agrees id tree (.remove values) (.ok (tree.withoutRow id cells).2, (tree.withoutRow id cells).1)
      (.ok (decide (cells ∈ tree.argumentValues id)), (tree.argumentValues id).erase cells) := by
  unfold withoutRow
  cases found : tree.rowWith? id cells with
  | none =>
    have absent := rowWith?_eq_none_iff.1 found
    rw [decide_eq_false absent, List.erase_of_not_mem absent]
    exact ⟨rfl, rfl, rowsEdited_same linked, nofun⟩
  | some row =>
    have member : row ∈ tree.argumentRows id := List.mem_of_find?_eq_some found
    have present : cells ∈ tree.argumentValues id := by
      rw [← rowValues_of_rowWith? found]
      exact List.mem_map_of_mem member
    rw [decide_eq_true present]
    refine ⟨argumentValues_detach linked first found, rfl, rowsEdited_detach linked first member,
      fun _ _ _ taken => ?_⟩
    cases taken
    exact ⟨linked.lt_size (mem_rows_of_argumentRows first member),
      (parent?_detach ..).trans (if_pos rfl)⟩

theorem agrees_attempt (edit : RowEdit) :
    Agrees id tree edit ((edit.attempt id).run tree)
      ((edit.onValues (tree.rowValues header)).run (tree.argumentValues id)) := by
  have same : RowsEdited id [] tree tree := rowsEdited_same linked
  cases edit with
  | add values =>
    have listed : ((RowEdit.add values).onValues (tree.rowValues header)).run _ =
      match values.resolve (tree.rowValues header) with
      | .ok cells => (.ok true, tree.argumentValues id ++ [cells])
      | .error error => (.error error, tree.argumentValues id) := rfl
    rw [run_attempt_add linked first, listed]
    cases values.resolve (tree.rowValues header) with
    | ok cells => exact agrees_added linked first values cells
    | error error => exact ⟨rfl, rfl, same, nofun⟩
  | remove values =>
    have listed : ((RowEdit.remove values).onValues (tree.rowValues header)).run _ =
      if tree.argumentValues id = [] then (.ok false, tree.argumentValues id)
      else match values.resolve (tree.rowValues header) with
        | .ok cells => (.ok (decide (cells ∈ tree.argumentValues id)),
            (tree.argumentValues id).erase cells)
        | .error error => (.error error, tree.argumentValues id) := rfl
    have empty : tree.argumentValues id = [] ↔ tree.argumentRows id = [] := List.map_eq_nil_iff
    rw [run_attempt_remove first, listed]
    simp only [empty]
    split
    · exact ⟨rfl, rfl, same, nofun⟩
    · cases values.resolve (tree.rowValues header) with
      | ok cells => exact agrees_removed linked first values cells
      | error error => exact ⟨rfl, rfl, same, nofun⟩

end Rows

/-! ### Many edits -/

theorem refines_attempts (linked : tree.Linked) (first : tree.parameterRow? id = some header)
    (edits : List RowEdit) :
    let made := (edits.mapM (RowEdit.attempt id)).run tree
    let plain := (edits.mapM (RowEdit.onValues (tree.rowValues header))).run
      (tree.argumentValues id)
    made.2.argumentValues id = plain.2 ∧ made.1.map (Except.map Option.isSome) = plain.1 ∧
      RowsEdited id (RowEdit.involved made.1) tree made.2 ∧
      ∀ values row, (.remove values, .ok (some row)) ∈ edits.zip made.1 →
        made.2.parent? row = none := by
  induction edits generalizing tree with
  | nil => exact ⟨rfl, rfl, rowsEdited_same linked, nofun⟩
  | cons edit rest ih =>
    intro made plain
    obtain ⟨listed, outcome, edited, removed⟩ := agrees_attempt linked first edit
    have linked' := linked.perform (edit.command id)
    rw [RowEdit.after_command] at linked'
    have first' := (edited.parameterRow header first).1
    have same := rowValues_of_content? (edited.contents header (header_lt_size linked first))
    obtain ⟨listed', outcomes', edited', removed'⟩ := ih linked' first'
    rw [same, listed] at listed' outcomes'
    have ran : made = _ := run_mapM_cons ..
    have ranPlain : plain = _ := run_mapM_cons ..
    rw [ran, ranPlain]
    refine ⟨listed', ?_, ?_, fun values row member => ?_⟩
    · rw [List.map_cons, outcome, outcomes']
    · rw [RowEdit.involved_cons]
      exact edited.trans edited'
    · rcases List.mem_cons.mp member with here | later
      · obtain ⟨rfl, taken⟩ := Prod.mk.inj here
        obtain ⟨old, alone⟩ := removed values row rfl taken.symm
        exact edited'.orphans row (Nat.lt_of_lt_of_le old edited.size) alone
      · exact removed' values row later

/-- What is added can be removed again, and then there are as many rows of each value as before. -/
theorem remove_added (linked : tree.Linked) (first : tree.parameterRow? id = some header)
    (added : tree.addRow id values = .ok (after, row)) :
    ∃ last found, after.removeRow id values = .ok (last, some found) ∧
      (last.argumentValues id).Perm (tree.argumentValues id) := by
  have linked' := linked.addRow added
  rw [addRow_eq first, parameters_of_parameterRow? first] at added
  obtain ⟨cells, resolved, same⟩ := Except.map_eq_ok_iff.mp added
  obtain ⟨rfl, rfl⟩ := Prod.mk.inj same
  have grown := argumentValues_withRow linked first cells
  have first' := (rows_withRow first cells).1
  have header' := rowValues_of_content?
    ((rowsEdited_withRow linked first cells).contents header (header_lt_size linked first))
  have rows : (tree.withRow id cells).argumentRows id ≠ [] := by
    rw [(rows_withRow first cells).2]
    exact List.append_ne_nil_of_right_ne_nil _ (List.cons_ne_nil _ _)
  have present : cells ∈ (tree.withRow id cells).argumentValues id :=
    grown ▸ List.mem_append_right _ (List.mem_singleton_self cells)
  obtain ⟨found, here⟩ := exists_rowWith? present
  refine ⟨(tree.withRow id cells).detach found, found, ?_, ?_⟩
  · rw [removeRow_eq (kind?_of_parameterRow? first'), if_neg rows,
      parameters_of_parameterRow? first', header', resolved]
    simp only [Except.map, withoutRow, here]
  · rw [argumentValues_detach linked' first' here, grown]
    have erased := (List.perm_append_singleton cells (tree.argumentValues id)).erase cells
    rwa [List.erase_cons_head] at erased

/-- However rows are added to an examples block and removed from it, its argument rows have the
values that the same edits make of a plain list of values, with what each edit lays out for the
parameters. The parameter row stays as it is and where it is, a row that was removed has no
parent, and what is neither the block nor one of the rows is as before. In the end, as at any
time, values that are added can be removed again. -/
theorem rowEdits_refine (reachable : tree.Reachable) (first : tree.parameterRow? id = some header)
    (edits : List RowEdit) :
    let made := (edits.mapM (RowEdit.attempt id)).run tree
    let plain := (edits.mapM (RowEdit.onValues (tree.rowValues header))).run
      (tree.argumentValues id)
    Command.run (edits.map (RowEdit.command id)) tree = made.2 ∧
    made.2.argumentValues id = plain.2 ∧ made.1.map (Except.map Option.isSome) = plain.1 ∧
    (∀ values cells, RowValues.resolve (tree.rowValues header) values = .ok cells ↔
      values.LaysOut (tree.rowValues header) cells) ∧
    made.2.parameterRow? id = some header ∧ made.2.node? header = tree.node? header ∧
    (∀ values row, (.remove values, .ok (some row)) ∈ edits.zip made.1 →
      made.2.parent? row = none) ∧
    RowsEdited id (RowEdit.involved made.1) tree made.2 ∧
    ∀ values after row, made.2.addRow id values = .ok (after, row) →
      ∃ last found, after.removeRow id values = .ok (last, some found) ∧
        (last.argumentValues id).Perm (made.2.argumentValues id) := by
  intro made plain
  have linked := reachable.linked
  obtain ⟨values, outcomes, edited, removed⟩ := refines_attempts linked first edits
  obtain ⟨still, apart, kept⟩ := edited.parameterRow header first
  have commands := RowEdit.run_commands id edits tree
  have linked' := Command.linked_run linked (edits.map (RowEdit.command id))
  rw [commands] at linked'
  exact ⟨commands, values, outcomes, fun _ _ => RowValues.resolve_eq_ok_iff, still,
    edited.others header apart kept, removed, edited,
    fun _ _ _ added => remove_added linked' still added⟩

/-- The value of the parameter is added and removed, and so is a value that is there already, of
which the first row goes. -/
theorem rowEdits_sampleBlock :
    let tree := Command.run (sampleBlock [[Text.word "1"]]) .empty
    let edits := [.add (.positional [Text.word "p"]),
      .add (.keyed [(Text.word "p", Text.word "1")]), .remove (.positional [Text.word "1"]),
      .remove (.positional [Text.word "p"])]
    tree.parameterRow? 0 = some 1 ∧
      RowEdit.involved ((edits.mapM (RowEdit.attempt 0)).run tree).1 = [3, 4, 2, 3] ∧
      ((edits.mapM (RowEdit.attempt 0)).run tree).2.argumentValues 0 = [[Text.word "1"]] ∧
      ((edits.mapM (RowEdit.attempt 0)).run tree).2.node? 1 = tree.node? 1 := by
  intro tree edits
  have first : tree.parameterRow? 0 = some 1 := rfl
  obtain ⟨_, values, _, _, _, kept, _⟩ := rowEdits_refine (reachable_sampleBlock _) first edits
  refine ⟨first, by decide +kernel, values.trans ?_, kept⟩
  decide +kernel

end Tree

end Gherkin
