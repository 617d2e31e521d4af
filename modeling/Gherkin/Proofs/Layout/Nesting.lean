import Gherkin.Proofs.Layout.Items
import Gherkin.Proofs.Layout.Written

/-!
# Lines at another depth

A branch is laid out the same at every depth, but for the depth of its lines. So the
text of a branch, put below some lines without any indentation, reads back the items of
what the branch would be nested in.
-/

namespace Gherkin

namespace Layout

open Description (indented_of_ne_nil)

variable {α : Type} {width : Text → Nat} {depth : Nat}

/-! ## Deeper lines -/

/-- An item some levels deeper. -/
def Item.shift (levels : Nat) : Item → Item
  | .line depth text => .line (depth + levels) text
  | .gap => .gap

theorem map_shift_line (levels : Nat) (texts : List Text) :
    (texts.map (Item.line depth)).map (Item.shift levels) =
      texts.map (Item.line (depth + levels)) := by
  rw [List.map_map]
  rfl

theorem map_shift_opening (levels : Nat) (heading : Heading) (children : List (Branch α)) :
    (opening depth heading children).map (Item.shift levels) =
      opening (depth + levels) heading children := by
  have tags : (tagLine depth children).map (Item.shift levels) =
      tagLine (depth + levels) children := by
    simp only [tagLine]
    split <;> rfl
  have described : (description depth heading.description).map (Item.shift levels) =
      description (depth + levels) heading.description := by
    simp only [description]
    split
    · rfl
    · rw [List.map_cons, List.map_append, map_shift_line]
      rfl
  rw [opening, List.map_append, List.map_cons, tags, described]
  rfl

theorem map_shift_languageLine (levels : Nat) (children : List (Branch α)) :
    (languageLine depth children).map (Item.shift levels) =
      languageLine (depth + levels) children := by
  unfold languageLine
  split
  · split <;> rfl
  · rfl

theorem map_shift_below {levels : Nat} {children : List (Branch α)}
    (each : ∀ child ∈ children,
      (items width depth child).map (Item.shift levels) = items width (depth + levels) child) :
    (below width depth children).map (Item.shift levels) =
      below width (depth + levels) children := by
  induction children with
  | nil => rfl
  | cons child rest ih =>
      obtain ⟨here, later⟩ := List.forall_mem_cons.mp each
      rw [below, below, List.map_append, ih later, ← here]
      by_cases inline : isInline child.kind = true
      · rw [if_pos inline, if_pos inline, List.map_nil]
      · rw [if_neg inline, if_neg inline, List.map_append]
        split <;> rfl

/-- Deeper inside, a branch is laid out as it is higher up, with all lines deeper. -/
theorem map_shift_items (levels : Nat) (branch : Branch α) :
    (items width depth branch).map (Item.shift levels) = items width (depth + levels) branch := by
  induction branch using Branch.induction generalizing depth with
  | node label element children ih =>
      have inside : (below width (depth + 1) children).map (Item.shift levels) =
          below width (depth + levels + 1) children := by
        rw [map_shift_below fun child member => ih child member, Nat.add_right_comm]
      cases element with
      | directory => rfl
      | featureFile =>
          rw [items, items, List.map_append, map_shift_languageLine,
            map_shift_below fun child member => ih child member]
      | «example» =>
          rw [items, items, List.map_append, map_shift_opening, table, table, map_shift_line,
            Nat.add_right_comm]
      | step =>
          rw [items, items, List.map_cons, inside]
          rfl
      | table | row | docString => exact map_shift_line levels _
      | tag => rfl
      | _ => rw [items, items, List.map_append, map_shift_opening, inside]

section Items

variable {dialect : Dialect} {indent : Text} {items : List Item} {lines : List Line}

@[simp]
theorem map_shift_zero (items : List Item) : items.map (Item.shift 0) = items := by
  have same : Item.shift 0 = id := by
    funext item
    cases item <;> rfl
  rw [same, List.map_id]

@[simp]
theorem texts_map_shift (levels : Nat) (items : List Item) :
    texts (items.map (Item.shift levels)) = texts items := by
  rw [texts, List.filterMap_map]
  refine List.filterMap_congr fun item _ => ?_
  cases item <;> rfl

theorem Tidy.of_texts {other : List Item} (tidy : Tidy items) (same : texts other = texts items) :
    Tidy other := ⟨same ▸ tidy.oneLine, same ▸ tidy.ends⟩

/-! ## Lines above -/

/-- Deeper items are written with the margins of their own depth. -/
theorem written_map_shift_iff {margin : Nat → Text} {levels : Nat} :
    Written dialect margin (items.map (Item.shift levels)) lines ↔
      Written dialect (fun depth => margin (depth + levels)) items lines := by
  induction items generalizing lines with
  | nil =>
      rw [List.map_nil]
      constructor
      · intro written
        cases written
        exact .nil
      · intro written
        cases written
        exact .nil
  | cons item items ih =>
      cases item with
      | gap =>
          constructor
          · intro written
            cases written with
            | gap rest => exact .gap (ih.mp rest)
            | blank kind raw rest => exact .blank kind raw (ih.mp rest)
          · intro written
            cases written with
            | gap rest => exact .gap (ih.mpr rest)
            | blank kind raw rest => exact .blank kind raw (ih.mpr rest)
      | line depth text =>
          constructor
          · intro written
            cases written with
            | line raw kind rest => exact .line raw kind (ih.mp rest)
          · intro written
            cases written with
            | line raw kind rest => exact .line raw kind (ih.mpr rest)

/-- How deep a line is written when the lines above some level are not indented, and those below
it are at a depth of their own. -/
def nestedDepth (levels depth level : Nat) : Nat :=
  if level < levels then 0 else level - levels + depth

/-- Below lines without indentation, items are written as they would be nested in what these
lines begin. The gaps between the lines are not written. -/
theorem Written.nest {front : List Item} {levels : Nat}
    (shallow : ∀ level text, Item.line level text ∈ front → level < levels)
    (written : Written dialect (Text.repeated · indent)
      ((texts front).map (Item.line 0) ++ items.map (Item.shift depth)) lines) :
    Written dialect (fun level => Text.repeated (nestedDepth levels depth level) indent)
      (front ++ items.map (Item.shift levels)) lines := by
  induction front generalizing lines with
  | nil =>
      have same (level : Nat) : nestedDepth levels depth (level + levels) = level + depth := by
        rw [nestedDepth, if_neg (by omega), Nat.add_sub_cancel]
      rw [List.nil_append, written_map_shift_iff]
      simp only [same]
      exact written_map_shift_iff.1 written
  | cons item front ih =>
      have later : ∀ level text, Item.line level text ∈ front → level < levels :=
        fun level text member => shallow level text (List.mem_cons_of_mem _ member)
      cases item with
      | gap => exact .gap (ih later written)
      | line level text =>
          have above : nestedDepth levels depth level = 0 :=
            if_pos (shallow level text List.mem_cons_self)
          cases written with
          | line raw kind written => exact .line (by rw [above, raw]) kind (ih later written)

/-- Items that begin with a line settle into the same lines below anything. -/
theorem settled_of_head (first : ∀ item ∈ items.head?, item ≠ .gap) (onText other : Bool) :
    settled indent onText items = settled indent other items := by
  cases items with
  | nil => rfl
  | cons item rest =>
      cases item with
      | gap => exact absurd rfl (first _ rfl)
      | line => rfl

theorem settled_lines {ls : List Text} (written : ∀ line ∈ ls, line ≠ [])
    (first : ∀ item ∈ items.head?, item ≠ .gap) (onText : Bool) :
    settled indent onText (ls.map (Item.line 0) ++ items) =
      ls ++ settled indent onText items := by
  induction ls generalizing onText with
  | nil => rfl
  | cons line ls ih =>
      obtain ⟨here, later⟩ := List.forall_mem_cons.mp written
      rw [List.map_cons, List.cons_append, settled_line _ _ _ here, ih later,
        settled_of_head first true onText, indented_of_ne_nil _ here]
      rfl

end Items

end Layout

end Gherkin
