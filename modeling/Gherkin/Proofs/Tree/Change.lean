import Gherkin.Proofs.Outcome
import Gherkin.Proofs.Tree.Ancestry
import Gherkin.Proofs.Tree.Growth

/-!
# Changes in place and what they come to

A branch that is grown in place is planted in the end. While it grows, the tree that was
there before stays the beginning of what there is, so that a branch which cannot be grown to
its end is cut off without a trace.
-/

namespace Gherkin

namespace Tree

variable {tree : Tree}

/-- A tree is the beginning of another one. -/
def Within (tree grown : Tree) : Prop := ∃ nodes, grown.nodes = tree.nodes ++ nodes

theorem Within.refl (tree : Tree) : tree.Within tree := ⟨#[], (Array.append_empty).symm⟩

theorem within_plant (tree : Tree) (branch : Branch Origin) : tree.Within (tree.plant branch) :=
  ⟨_, rfl⟩

theorem Within.trans {grown later : Tree} (first : tree.Within grown)
    (second : grown.Within later) : tree.Within later := by
  obtain ⟨front, here⟩ := first
  obtain ⟨back, there⟩ := second
  exact ⟨front ++ back, by rw [there, here, Array.append_assoc]⟩

theorem Within.truncate {grown : Tree} (within : tree.Within grown) :
    grown.truncate tree.size = tree := by
  obtain ⟨nodes, grew⟩ := within
  rw [Tree.truncate, grew]
  simp [size]

theorem expectKind_eq_ok {kind : Kind} {id : NodeId} (expected : tree.expectKind kind id = .ok ()) :
    tree.kind? id = some kind := by
  rw [expectKind] at expected
  split at expected
  · cases expected
  · next found here =>
    split at expected
    · next same => rw [here, same]
    · cases expected

/-- A new row can always be pushed to the rows of an examples block. -/
theorem pushChild_row (closed : tree.Closed) {id : NodeId} (kind : tree.kind? id = some .example)
    (cells : List Text) :
    (tree.add (.row cells)).pushChild id .rows tree.size =
      .ok ((tree.add (.row cells)).attach id .rows tree.size) := by
  have here : id < tree.size := lt_size_of_kind? kind
  have fresh : (tree.add (.row cells)).isAncestor tree.size id = false := by
    refine Bool.eq_false_iff.mpr fun above => ?_
    have below := transGen_of_mem_ancestors (List.contains_iff_mem.mp above)
    rw [hasParent_add] at below
    exact closed.not_transGen_size below
  have parentKind : (tree.add (.row cells)).kind? id = some .example :=
    (kind?_push_of_lt here _).trans kind
  have rowKind : (tree.add (.row cells)).kind? tree.size = some .row := kind?_push_self tree _
  have checked : (tree.add (.row cells)).checkChild id .example .rows tree.size = .ok () := by
    rw [checkChild, rowKind]
    simp [Slot.accepts, Kind.home, fresh, Nat.ne_of_gt here]
  have alone : (tree.add (.row cells)).parent? tree.size = none := parent?_add_size ..
  rw [pushChild, parentKind]
  simp only [checked, leave, alone]
  rfl

end Tree

namespace Change

variable {α β σ : Type} {base tree : Tree}

/-- The end of a change that leaves the tree as it was when it fails. -/
def outcome (tree : Tree) : Except Error (α × Tree) → EStateM.Result Error Tree α
  | .ok (value, after) => .ok value after
  | .error error => .error error tree

/-- A change ends as expected; if it fails, a given tree is still the beginning of what there
is then. -/
inductive Yields (base : Tree) :
    EStateM.Result Error Tree α → Except Error (α × Tree) → Prop where
  | ok (value : α) (after : Tree) : Yields base (.ok value after) (.ok (value, after))
  | error {error : Error} {after : Tree} (within : base.Within after) :
    Yields base (.error error after) (.error error)

theorem yields_outcome (within : base.Within tree) (expected : Except Error (α × Tree)) :
    Yields base (outcome tree expected) expected := by
  cases expected with
  | ok result => exact .ok ..
  | error error => exact .error within

theorem Yields.weaken {earlier : Tree} {result : EStateM.Result Error Tree α}
    {expected : Except Error (α × Tree)} (yields : Yields base result expected)
    (within : earlier.Within base) : Yields earlier result expected := by
  cases yields with
  | ok value after => exact .ok value after
  | error inside => exact .error (within.trans inside)

theorem Yields.bind {change : Change α} {next : α → Change β} {expected : Except Error σ}
    {value : σ → α} {after : σ → Tree} {rest : σ → Except Error (β × Tree)}
    (first : Yields base (change tree) (expected.map fun found => (value found, after found)))
    (others : ∀ found, expected = .ok found →
      Yields base (next (value found) (after found)) (rest found)) :
    Yields base ((change >>= next) tree) (expected >>= rest) := by
  change Yields base (EStateM.bind change next tree) _
  rw [EStateM.bind]
  generalize change tree = result at first
  cases expected with
  | ok found =>
    cases first
    exact others found rfl
  | error error =>
    cases first with
    | error within => exact .error within

theorem ofExcept_eq (expected : Except Error α) (tree : Tree) :
    ofExcept expected tree = outcome tree (expected.map fun value => (value, tree)) := by
  cases expected <;> rfl

/-- Changes one after the other leave the tree as it was when one of them fails, if the first
one does and the second one never fails after the first one has changed something. -/
theorem bind_eq {change : Change α} {next : α → Change β} {expected : Except Error σ}
    {value : σ → α} {after : σ → Tree} {rest : σ → Except Error (β × Tree)}
    (first : change tree = outcome tree (expected.map fun found => (value found, after found)))
    (others : ∀ found, expected = .ok found →
      next (value found) (after found) = outcome tree (rest found)) :
    (change >>= next) tree = outcome tree (expected >>= rest) := by
  change EStateM.bind change next tree = _
  rw [EStateM.bind, first]
  cases expected with
  | ok found => exact others found rfl
  | error error => rfl

theorem yields_ofExcept (within : base.Within tree) (expected : Except Error α) :
    Yields base (ofExcept expected tree) (expected.map fun value => (value, tree)) := by
  rw [ofExcept_eq]
  exact yields_outcome within _

theorem update_eq (result : Tree → Except Error Tree) (tree : Tree) :
    update result tree = outcome tree ((result tree).map fun after => ((), after)) := by
  change (ofExcept (result tree) >>= set) tree = _
  cases result tree <;> rfl

theorem yields_pushChild {origin : Origin} {element : Element} {siblings : List (Branch Origin)}
    {child : Branch Origin} {slot : Slot} (home : child.kind.home = some slot) :
    Yields base
      (update (fun grown => grown.pushChild base.size slot
          (base.plant (.node origin element siblings)).size)
        ((base.plant (.node origin element siblings)).plant child))
      ((Record.place element.kind slot siblings child).map fun children =>
        ((), base.plant (.node origin element children))) := by
  have within : base.Within ((base.plant (.node origin element siblings)).plant child) :=
    (base.within_plant _).trans (Tree.within_plant _ child)
  rw [update_eq, Tree.pushChild_plant home]
  cases Record.place element.kind slot siblings child with
  | ok children => exact .ok ..
  | error error => exact .error within

theorem insert_bind (element : Element) (line : Option Nat) (next : NodeId → Change β) :
    (insert element line >>= next) tree =
      next tree.size (tree.plant (.node ⟨line, none⟩ element [])) := by
  rw [← Tree.push_eq_plant]
  rfl

/-- A change for each of some items ends as the fold that says what each of them adds. -/
theorem Yields.forM (state : σ → Tree) {step : β → Change Unit} {add : σ → β → Except Error σ}
    {items : List β}
    (each : ∀ item ∈ items, ∀ start, Yields base (step item (state start))
      ((add start item).map fun found => ((), state found)))
    (start : σ) :
    Yields base (items.forM step (state start))
      ((items.foldlM add start).map fun found => ((), state found)) := by
  induction items generalizing start with
  | nil => exact .ok ..
  | cons item rest ih =>
    rw [List.foldlM_cons, Except.map_bind]
    exact Yields.bind (each item List.mem_cons_self start) fun found _ =>
      ih (fun other member => each other (List.mem_cons_of_mem _ member)) found

/-- A change that is undone when it fails leaves the tree as it was then. -/
theorem undone_eq {change : Change α} {expected : Except Error (α × Tree)}
    (yields : Yields tree (change tree) expected) :
    undone change tree = outcome tree expected := by
  have caught : undone change tree = EStateM.tryCatch change (fun error => do
      modify fun grown => grown.truncate tree.size
      throw error) tree := rfl
  rw [caught, EStateM.tryCatch]
  generalize change tree = result at yields
  cases yields with
  | ok value after => rfl
  | @error error after within =>
    change EStateM.Result.error error (after.truncate tree.size) = _
    rw [within.truncate, outcome]

/-- A branch grows as its record describes it. -/
theorem yields_grow (record : Record) (tree : Tree) :
    Yields tree (grow record tree)
      (record.branch.map fun branch => (tree.size, tree.plant branch)) := by
  rw [grow, Record.branch, Except.map_bind]
  refine Yields.bind (yields_ofExcept (.refl tree) record.kind) fun kind named => ?_
  rw [Except.map_bind]
  refine Yields.bind (yields_ofExcept (.refl tree) (record.element kind)) fun element itself => ?_
  rw [Except.map_bind]
  let state (children : List (Branch Origin)) : Tree :=
    tree.plant (.node ⟨record.line?, none⟩ element children)
  rw [insert_bind]
  refine Yields.bind (Yields.forM state (fun field _ siblings => ?_) []) fun children _ => .ok ..
  rw [Except.map_bind]
  refine Yields.bind (yields_ofExcept (Tree.within_plant ..) (record.nested field))
    fun records _ => ?_
  refine Yields.forM state (fun inner _ siblings => ?_) siblings
  rw [Except.map_bind]
  refine Yields.bind (yields_ofExcept (Tree.within_plant ..) (Record.homeIn kind field inner.1))
    fun slot homed => ?_
  rw [Except.map_bind]
  refine Yields.bind ((yields_grow inner.1 (state siblings)).weaken (Tree.within_plant ..))
    fun child described => ?_
  rw [← Record.kind_of_element itself]
  exact yields_pushChild (Record.home_of_homeIn homed described)
termination_by sizeOf record
decreasing_by exact inner.2

/-- Building adds the branch that a record describes, or nothing. -/
theorem build_eq (record : Record) (tree : Tree) :
    build record tree =
      outcome tree (record.rooted.map fun branch => (tree.size, tree.plant branch)) := by
  refine undone_eq ?_
  rw [Record.rooted, Except.map_bind]
  refine Yields.bind (yields_grow record tree) fun branch _ => ?_
  obtain ⟨origin, element, children⟩ := branch
  change Yields tree (.ok tree.size ((tree.plant (.node origin element children)).setRecord
    tree.size record)) _
  rw [Tree.setRecord_plant]
  exact .ok ..

/-- Adding a row comes to what it comes to at once. -/
theorem addRow_eq (closed : tree.Closed) (id : NodeId) (values : RowValues) :
    addRow id values tree =
      outcome tree ((tree.addRow id values).map fun result => (result.2, result.1)) := by
  change (ofExcept (tree.expectKind .example id) >>= _) tree = _
  rw [Tree.addRow, Except.map_bind]
  refine bind_eq (ofExcept_eq ..) fun _ expected => ?_
  have kind := Tree.expectKind_eq_ok expected
  cases tree.parameterRow? id with
  | none => rfl
  | some row =>
    change _ = outcome tree ((values.resolve (tree.rowValues row) >>= _).map _)
    rw [Except.map_bind]
    refine bind_eq (ofExcept_eq ..) fun cells _ => ?_
    have pushed := update_eq (fun grown => grown.pushChild id .rows tree.size)
      (tree.add (.row cells))
    rw [Tree.pushChild_row closed kind] at pushed
    change EStateM.bind (update fun grown => grown.pushChild id .rows tree.size) _
      (tree.add (.row cells)) = _
    rw [EStateM.bind, pushed]
    rfl

end Change

end Gherkin
