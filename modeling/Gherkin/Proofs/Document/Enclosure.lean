import Gherkin.Proofs.Document.Layout
import Gherkin.Proofs.Document.Location
import Gherkin.Proofs.Layout.Nesting

/-!
# What fragments are enclosed in

A fragment is read as a part of a feature that has nothing else in it. Such a feature is
made of headers without names around the part; it is laid out as these headers above the
part, and the part is the only one of its kind.
-/

namespace Gherkin

open Layout

namespace Document

variable {dialect : Dialect} {kind : Kind} {width : Text → Nat} {depth : Nat}

/-! ## Bare headers -/

/-- A header with nothing but a word for its construct. -/
def Header.bare (dialect : Dialect) (construct : Construct) : Header :=
  ⟨⟨0, 0⟩, construct, dialect.primary construct, [], []⟩

theorem Header.spelled_bare (regular : dialect.Regular) (construct : Construct) :
    (Header.bare dialect construct).Spelled dialect where
  keyword := regular.primary construct (by cases construct <;> decide)
  name := Text.isLabel_nil
  description line member := .inr (by rw [List.mem_singleton.mp member]; rfl)

theorem headed_bare (construct : Construct) (names : List Text) :
    headed depth names (Header.bare dialect construct).heading =
      tagItems depth names ++ [.line depth (Fragment.headerLine dialect construct)] := rfl

/-- A feature with nothing but some parts. -/
def Feature.around (dialect : Dialect) (body : Body) (rules : List Rule) : Feature :=
  ⟨dialect.code, [], .bare dialect .feature, body, rules⟩

/-- A scenario with one step. -/
def Step.scenario (dialect : Dialect) (step : Step) : Scenario :=
  ⟨[], .bare dialect .scenario, [step], []⟩

/-- An outline with one examples block. -/
def Examples.outline (dialect : Dialect) (block : Examples) : Scenario :=
  ⟨[], .bare dialect .outline, [], [block]⟩

/-- A step with something below it. -/
def Argument.step (dialect : Dialect) (argument : Argument) : Step :=
  ⟨⟨0, 0⟩, dialect.primary .step, Text.word "step", some argument⟩

theorem Feature.spelled_around (regular : dialect.Regular) {body : Body} {rules : List Rule}
    (bodySpelled : body.Spelled dialect) (rulesSpelled : ∀ rule ∈ rules, rule.Spelled dialect) :
    (Feature.around dialect body rules).Spelled dialect :=
  ⟨rfl, by simp [around], rfl, Header.spelled_bare regular _, bodySpelled, rulesSpelled⟩

theorem Step.spelled_scenario (regular : dialect.Regular) {step : Step}
    (spelled : step.Spelled dialect) : (step.scenario dialect).Spelled dialect :=
  ⟨by simp [scenario], .inl rfl, Header.spelled_bare regular _,
    List.forall_mem_singleton.mpr spelled, by simp [scenario]⟩

theorem Examples.spelled_outline (regular : dialect.Regular) {block : Examples}
    (spelled : block.Spelled dialect) : (block.outline dialect).Spelled dialect :=
  ⟨by simp [outline], .inr rfl, Header.spelled_bare regular _, by simp [outline],
    List.forall_mem_singleton.mpr spelled⟩

theorem isLabel_step : Text.IsLabel (Text.word "step") := by decide

theorem Argument.spelled_step (regular : dialect.Regular) {argument : Argument}
    (spelled : argument.Spelled) : (argument.step dialect).Spelled dialect :=
  ⟨regular.given _ (regular.primary .step (by decide)), isLabel_step, by simpa [step] using spelled⟩

/-! ## Enclosing -/

/-- A branch stands below some lines inside another one, which has no more branches of a kind
than there are in the first one. -/
structure Encloses (kind : Kind) (front : List Item) (levels : Nat)
    (inner outer : Branch Origin) : Prop where
  alone : outer.outermost kind = inner.outermost kind
  laidOut : ∀ width depth, items width depth outer =
    front.map (Item.shift depth) ++ items width (depth + levels) inner
  written : ∀ text ∈ texts front, text ≠ []
  shallow : ∀ level text, Item.line level text ∈ front → level < levels

theorem Encloses.refl (branch : Branch Origin) : Encloses kind [] 0 branch branch :=
  ⟨rfl, fun _ _ => rfl, by simp [texts], by simp⟩

theorem Encloses.trans {front above : List Item} {levels more : Nat}
    {inner middle outer : Branch Origin} (inside : Encloses kind front levels inner middle)
    (outside : Encloses kind above more middle outer) :
    Encloses kind (above ++ front.map (Item.shift more)) (more + levels) inner outer := by
  refine ⟨outside.alone.trans inside.alone, fun width depth => ?_, ?_, fun level text member => ?_⟩
  · have deeper : (front.map (Item.shift more)).map (Item.shift depth) =
        front.map (Item.shift (depth + more)) := by
      rw [List.map_map]
      refine List.map_congr_left fun item _ => ?_
      cases item with
      | gap => rfl
      | line level text => exact congrArg (Item.line · text) (by omega)
    rw [outside.laidOut, inside.laidOut, List.map_append, deeper, List.append_assoc, Nat.add_assoc]
  · rw [texts_append, texts_map_shift, List.forall_mem_append]
    exact ⟨outside.written, inside.written⟩
  · rcases List.mem_append.mp member with member | member
    · exact Nat.lt_add_right _ (outside.shallow level text member)
    · obtain ⟨item, there, same⟩ := List.mem_map.mp member
      cases item with
      | gap => cases same
      | line inner text =>
          cases same
          have below := inside.shallow inner text there
          omega

theorem headerLine_ne_nil (construct : Construct) : Fragment.headerLine dialect construct ≠ [] := by
  simp [Fragment.headerLine]

/-- A part with a header is enclosed in a feature. -/
theorem encloses_around {body : Body} {rules : List Rule} {part : Branch Origin}
    (single : body.branches ++ rules.map Rule.branch = [part]) (setOff : isSetOff part.kind = true)
    (other : kind ≠ .feature) :
    Encloses kind [.line 0 (Fragment.headerLine dialect .feature), .gap] 1 part
      (Feature.around dialect body rules).branch := by
  constructor
  · exact Branch.outermost_of_children (Ne.symm other) single
  · intro width depth
    have inline : isInline part.kind = false := by
      cases kind : part.kind <;> rw [kind] at setOff <;> first | rfl | cases setOff
    have parts : below width (depth + 1) (Feature.around dialect body rules).body.branches ++
        below width (depth + 1) ((Feature.around dialect body rules).rules.map Rule.branch) =
        .gap :: items width (depth + 1) part := by
      rw [← below_append]
      change below width (depth + 1) (body.branches ++ rules.map Rule.branch) = _
      rw [single, below, inline, setOff]
      exact List.append_nil _
    rw [Feature.items_branch, parts]
    simp [Feature.around, headed_bare, tagItems, Item.shift]
  · simp [texts, Item.text?, headerLine_ne_nil]
  · simp

theorem encloses_scenario (step : Step) (other : kind ≠ .scenario) :
    Encloses kind [.line 0 (Fragment.headerLine dialect .scenario)] 1 step.branch
      (step.scenario dialect).branch := by
  have plain : (step.scenario dialect).isOutline ≠ true := Bool.false_ne_true
  constructor
  · rw [Scenario.branch, if_neg plain]
    exact Branch.outermost_of_children (Ne.symm other) rfl
  · intro width depth
    rw [Scenario.items_branch]
    have steps : below width (depth + 1) [step.branch] = items width (depth + 1) step.branch :=
      List.append_nil _
    simp [Step.scenario, headed_bare, tagItems, Item.shift, steps, below]
  · simp [texts, Item.text?, headerLine_ne_nil]
  · simp

theorem encloses_outline (block : Examples) (other : kind ≠ .outline) :
    Encloses kind [.line 0 (Fragment.headerLine dialect .outline), .gap] 1 block.branch
      (block.outline dialect).branch := by
  have outline : (block.outline dialect).isOutline = true := rfl
  constructor
  · rw [Scenario.branch, if_pos outline]
    exact Branch.outermost_of_children (Ne.symm other) rfl
  · intro width depth
    rw [Scenario.items_branch]
    have blocks : below width (depth + 1) [block.branch] =
        .gap :: items width (depth + 1) block.branch :=
      List.append_nil _
    simp [Examples.outline, headed_bare, tagItems, Item.shift, blocks, below]
  · simp [texts, Item.text?, headerLine_ne_nil]
  · simp

theorem encloses_step (regular : dialect.Regular) (argument : Argument) (other : kind ≠ .step) :
    Encloses kind [.line 0 (dialect.primary .step ++ Text.word "step")] 1 argument.branch
      (argument.step dialect).branch := by
  constructor
  · exact Branch.outermost_of_children (Ne.symm other) rfl
  · intro width depth
    have inside : below width (depth + 1) [argument.branch] =
        items width (depth + 1) argument.branch := by
      cases argument <;> exact List.append_nil _
    have listed := regular.given _ (regular.primary .step (by decide))
    have line : stepLine (Text.trimEnd (dialect.primary .step)) (Text.word "step") =
        dialect.primary .step ++ Text.word "step" := by
      conv_rhs => rw [← (regular.stepWord _ listed).2.1]
      rw [List.append_assoc]
      rfl
    rw [Step.items_branch]
    simp [Argument.step, Item.shift, inside, line]
  · simp [texts, Item.text?, Text.word]
  · simp

theorem encloses_table (row : Row) (other : kind ≠ .table) :
    Encloses kind [] 0 row.branch (Argument.table ⟨0, 0⟩ [row]).branch := by
  constructor
  · exact Branch.outermost_of_children (Ne.symm other) rfl
  · intro width depth
    rw [Argument.items_table]
    rfl
  · simp [texts]
  · simp

/-! ## Fragments -/

/-- A feature in which a fragment is read: the fragment as it is rendered at some depth, wrapped,
has the lines of the feature but for gaps and indentation, and there is no other branch of its
kind. -/
structure Holds (dialect : Dialect) (kind : Kind) (depth : Nat) (part : Branch Origin)
    (feature : Feature) : Prop where
  spelled : feature.Spelled dialect
  alone : feature.branch.outermost kind = [part]
  written : ∀ width indent, '\n' ∉ indent → ∃ (lines : List Item) (margin : Nat → Nat),
    Fragment.wrap dialect kind (renderAt width indent depth part) =
        .ok (Text.unlines (settled indent false lines)) ∧
      texts lines = texts (items width 0 feature.branch) ∧
      ∀ read, Written dialect (Text.repeated · indent) lines read →
        Written dialect (fun level => Text.repeated (margin level) indent)
          (items width 0 feature.branch) read

theorem Encloses.holds {front : List Item} {levels : Nat} {part : Branch Origin}
    {feature : Feature} (encloses : Encloses kind front levels part feature.branch)
    (regular : dialect.Regular) (spelled : feature.Spelled dialect) (itself : part.kind = kind)
    (surrounded : Fragment.surroundings dialect kind = .ok (texts front, []))
    (first : ∀ width, ∃ text rest, items width 0 part = .line 0 text :: rest) (depth : Nat) :
    Holds dialect kind depth part feature := by
  refine ⟨spelled, encloses.alone.trans (Branch.outermost_self itself), fun width indent free => ?_⟩
  have deeper (depth : Nat) :
      (items width 0 part).map (Item.shift depth) = items width depth part := by
    rw [map_shift_items, Nat.zero_add]
  have whole : items width 0 feature.branch =
      front ++ (items width 0 part).map (Item.shift levels) := by
    rw [encloses.laidOut, map_shift_zero, deeper, Nat.zero_add]
  have tidy : Tidy (items width depth part) := by
    have all : Tidy (items width 0 feature.branch) := spelled.tidy regular
    rw [whole] at all
    rw [← deeper]
    exact all.right.of_texts (by rw [texts_map_shift, texts_map_shift])
  obtain ⟨text, rest, head⟩ := first width
  have here : items width depth part = .line depth text :: rest.map (Item.shift depth) := by
    rw [← deeper, head, List.map_cons, Item.shift, Nat.zero_add]
  refine ⟨(texts front).map (Item.line 0) ++ items width depth part, nestedDepth levels depth,
    ?_, ?_,
    fun read lines => ?_⟩
  · have some : settled indent false (items width depth part) ≠ [] :=
      tidy.settled_ne_nil (by simp [texts, here, Item.text?])
    rw [Fragment.wrap, surrounded, renderAt_eq width free tidy,
      settled_lines encloses.written (by simp [here])]
    simp only [bind, Except.bind, pure, Except.pure]
    rw [Text.unlines_block _ _ some, List.append_nil]
  · rw [whole, texts_append, texts_append, texts_map_line, texts_map_shift, ← deeper,
      texts_map_shift]
  · rw [whole]
    exact Written.nest encloses.shallow (deeper depth ▸ lines)

end Document

end Gherkin
