import Gherkin.Proofs.Layout.Nesting

/-!
# Framed items

What items settle into depends on what is above them only so far as the line right above says
something. Items that begin and end with a line that says something therefore settle by
themselves, wherever they stand, and all they leave to what comes below is a gap they may end
with.
-/

namespace Gherkin

namespace Layout

open Description (indented indented_of_ne_nil)

variable {indent : Text} {items back : List Item} {trailing other : Bool} {depth : Nat}

/-- A gap, or nothing. -/
def gapIf (here : Bool) : List Item := if here then [.gap] else []

/-- Items end with a line with text, with a gap behind it or not. -/
def Ends (trailing : Bool) (items : List Item) : Prop :=
  ∃ front depth text, text ≠ [] ∧ items = front ++ .line depth text :: gapIf trailing

/-- Items begin with a line with text and end with one, with a gap behind it or not. -/
structure Framed (trailing : Bool) (items : List Item) : Prop where
  begins : ∃ depth text rest, text ≠ [] ∧ items = .line depth text :: rest
  ends : Ends trailing items

theorem Ends.append_left (ends : Ends trailing back) (items : List Item) :
    Ends trailing (items ++ back) := by
  obtain ⟨front, depth, text, written, rfl⟩ := ends
  exact ⟨items ++ front, depth, text, written, (List.append_assoc _ _ _).symm⟩

theorem Ends.append_gap (ends : Ends false items) : Ends true (items ++ [.gap]) := by
  obtain ⟨front, depth, text, written, rfl⟩ := ends
  exact ⟨front, depth, text, written, List.append_assoc _ _ _⟩

theorem Framed.append (framed : Framed trailing items) (ends : Ends other back) :
    Framed other (items ++ back) := by
  obtain ⟨depth, text, rest, written, rfl⟩ := framed.begins
  exact ⟨⟨depth, text, rest ++ back, written, rfl⟩, ends.append_left _⟩

theorem ends_lines {ls : List Text} (depth : Nat) (some : ls ≠ [])
    (stripped : IsStripped List.isEmpty ls) : Ends false (ls.map (Item.line depth)) := by
  obtain ⟨front, last, rfl⟩ := List.eq_nil_or_concat ls |>.resolve_left some
  have written : last ≠ [] := by
    have kept := stripped.2 last (by simp)
    simpa using kept
  exact ⟨front.map (Item.line depth), depth, last, written, by simp [gapIf]⟩

/-- Lines of which the first and the last say something. -/
theorem framed_lines {ls : List Text} (depth : Nat) (some : ls ≠ [])
    (stripped : IsStripped List.isEmpty ls) : Framed false (ls.map (Item.line depth)) := by
  refine ⟨?_, ends_lines depth some stripped⟩
  obtain ⟨first, rest, rfl⟩ := List.exists_cons_of_ne_nil some
  have written : first ≠ [] := by simpa using stripped.1 first rfl
  exact ⟨depth, first, rest.map (Item.line depth), written, rfl⟩

theorem Framed.exists_text (framed : Framed trailing items) : ∃ text ∈ texts items, text ≠ [] := by
  obtain ⟨depth, text, rest, written, rfl⟩ := framed.begins
  exact ⟨text, List.mem_cons_self, written⟩

/-! ## Settling by parts -/

theorem texts_gapIf (here : Bool) : texts (gapIf here) = [] := by
  cases here <;> rfl

/-- Below a line with text, items settle as if nothing else were above. -/
theorem settled_append_line {text : Text} (written : text ≠ []) (onText : Bool)
    (front back : List Item) :
    settled indent onText (front ++ .line depth text :: back) =
      settled indent onText (front ++ [.line depth text]) ++ settled indent true back := by
  have some (front back : List Item) (onText : Bool) :
      settled indent onText (front ++ .line depth text :: back) ≠ [] := by
    refine settled_ne_nil ⟨text, ?_, written⟩
    rw [texts_append]
    exact List.mem_append_right _ List.mem_cons_self
  induction front generalizing onText with
  | nil =>
    rw [List.nil_append, List.nil_append, settled_line _ _ _ written, settled_line _ _ _ written]
    rfl
  | cons item front ih =>
    cases item with
    | gap =>
      cases onText with
      | false => exact ih false
      | true =>
        rw [List.cons_append, List.cons_append, settled_gap_true, settled_gap_true,
          if_neg (some _ _ _), if_neg (some _ _ _), ih, List.cons_append]
    | line level here =>
      rw [List.cons_append, List.cons_append]
      by_cases empty : here = []
      · subst empty
        rw [settled_line_nil, settled_line_nil, if_neg (some _ _ _), if_neg (some _ _ _), ih,
          List.cons_append]
      · rw [settled_line _ _ _ empty, settled_line _ _ _ empty, ih, List.cons_append]

theorem Ends.settled_append (ends : Ends trailing items) (onText : Bool) (back : List Item) :
    settled indent onText (items ++ back) =
      settled indent onText items ++ settled indent true (gapIf trailing ++ back) := by
  obtain ⟨front, depth, text, written, rfl⟩ := ends
  have nothing : settled indent true (gapIf trailing) = [] := settled_eq_nil (texts_gapIf trailing)
  rw [List.append_assoc, List.cons_append, settled_append_line written,
    settled_append_line written _ _ (gapIf trailing), nothing, List.append_nil]

/-- However many gaps are asked for, there is one empty line. -/
theorem Framed.settled_gaps (framed : Framed trailing items) (above here : Bool) :
    settled indent true (gapIf above ++ (gapIf here ++ items)) =
      (if above || here then [[]] else []) ++ settled indent false items := by
  have some : settled indent false items ≠ [] := settled_ne_nil framed.exists_text
  have first : ∀ item ∈ items.head?, item ≠ .gap := by
    obtain ⟨depth, text, rest, _, rfl⟩ := framed.begins
    rintro _ ⟨⟩
    exact nofun
  have below : settled indent true (.gap :: items) = [] :: settled indent false items := by
    rw [settled_gap_true, if_neg some]
  cases above with
  | false =>
    cases here with
    | false => exact settled_of_head first true false
    | true => exact below
  | true =>
    cases here with
    | false => exact below
    | true => exact (settled_gap_true _).trans (if_neg some)

/-- Framed items settle into lines of which the first and the last say something. -/
theorem Framed.isStripped_settled (framed : Framed trailing items) (indent : Text)
    (onText : Bool) :
    IsStripped List.isEmpty (settled indent onText items) := by
  constructor
  · obtain ⟨depth, text, rest, written, rfl⟩ := framed.begins
    rw [settled_line _ _ _ written, indented_of_ne_nil _ written]
    rintro _ ⟨⟩
    simp [written]
  · intro line last
    have some : settled indent onText items ≠ [] := fun none => by simp [none] at last
    rw [List.getLast?_eq_some_getLast some] at last
    cases last
    exact Bool.eq_false_iff.mpr (List.rdropWhile_last_not List.isEmpty _ some)

/-! ## Settling deeper items -/

theorem Framed.map_shift (framed : Framed trailing items) (levels : Nat) :
    Framed trailing (items.map (Item.shift levels)) := by
  have gap : (gapIf trailing).map (Item.shift levels) = gapIf trailing := by
    cases trailing <;> rfl
  constructor
  · obtain ⟨depth, text, rest, written, rfl⟩ := framed.begins
    exact ⟨depth + levels, text, rest.map (Item.shift levels), written, rfl⟩
  · obtain ⟨front, depth, text, written, rfl⟩ := framed.ends
    refine ⟨front.map (Item.shift levels), depth + levels, text, written, ?_⟩
    rw [List.map_append, List.map_cons, gap]
    rfl

theorem settle_map_shift (onText : Bool) (items : List Item) :
    settle indent onText (items.map (Item.shift 1)) =
      (settle indent onText items).map (indented indent) := by
  induction items generalizing onText with
  | nil => rfl
  | cons item rest ih =>
    cases item with
    | gap =>
      cases onText with
      | false => exact ih false
      | true => exact congrArg ([] :: ·) (ih false)
    | line depth text =>
      by_cases empty : text = []
      · subst empty
        exact congrArg ([] :: ·) (ih false)
      · have some : text.isEmpty = false := by simp [empty]
        have deeper : Text.repeated (depth + 1) indent = indent ++ Text.repeated depth indent := by
          rw [Text.repeated, List.replicate_succ, List.flatten_cons, Text.repeated]
        have written : Text.repeated depth indent ++ text ≠ [] := by simp [empty]
        rw [List.map_cons, Item.shift, settle, settle, some, if_neg Bool.false_ne_true,
          if_neg Bool.false_ne_true, List.map_cons, ih, indented_of_ne_nil _ written, deeper,
          List.append_assoc]

theorem rdropWhile_map_indented (ls : List Text) :
    (ls.map (indented indent)).rdropWhile List.isEmpty =
      (ls.rdropWhile List.isEmpty).map (indented indent) := by
  have kept : List.isEmpty ∘ indented indent = List.isEmpty := by
    funext line
    cases line <;> simp [indented]
  rw [List.rdropWhile, List.rdropWhile, ← List.map_reverse, List.dropWhile_map, kept,
    List.map_reverse]

/-- One level deeper, items settle into the same lines behind one more indentation. -/
theorem settled_map_shift (onText : Bool) (items : List Item) :
    settled indent onText (items.map (Item.shift 1)) =
      (settled indent onText items).map (indented indent) := by
  rw [settled, settle_map_shift, rdropWhile_map_indented, settled]

/-- Lines without indentation settle into themselves. -/
theorem settle_lines (onText : Bool) (ls : List Text) :
    settle indent onText (ls.map (Item.line 0)) = ls := by
  induction ls generalizing onText with
  | nil => rfl
  | cons line rest ih =>
    rw [List.map_cons, settle, ih, ih]
    split
    · next empty => rw [List.isEmpty_iff.mp empty]
    · rfl

theorem settled_lines_of_stripped {ls : List Text} (onText : Bool)
    (stripped : IsStripped List.isEmpty ls) :
    settled indent onText (ls.map (Item.line 0)) = ls := by
  rw [settled, settle_lines]
  cases last : ls.getLast? with
  | none =>
    rw [List.getLast?_eq_none_iff.mp last]
    rfl
  | some line =>
    obtain ⟨front, rfl⟩ := List.getLast?_eq_some_iff.mp last
    exact List.rdropWhile_concat_neg _ _ _ (by simp [stripped.2 line last])

end Layout

end Gherkin
