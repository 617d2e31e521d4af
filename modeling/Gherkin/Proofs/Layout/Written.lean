import Gherkin.Layout.Render
import Gherkin.Proofs.Document.Spelling
import Gherkin.Proofs.Text.Description

/-!
# Reading rendered lines

Items settle into text, and the text is read line by line. Where the last line among
the items says something, the lines that are read are those of the items, each with its
meaning; below a gap there may be an empty line.
-/

namespace Gherkin

namespace Layout

open Description (indented indented_of_ne_nil)

variable {dialect : Dialect} {indent : Text} {width : Text → Nat}

/-- The text of an item that is a line. -/
def Item.text? : Item → Option Text
  | .line _ text => some text
  | .gap => none

/-- The texts of the lines among items. -/
def texts (items : List Item) : List Text := items.filterMap Item.text?

/-- Every line has its own place, and the last one ends with something to read. -/
structure Tidy (items : List Item) : Prop where
  oneLine : ∀ text ∈ texts items, '\n' ∉ text
  ends : ∀ text ∈ (texts items).getLast?, text ≠ [] ∧ Text.trimEnd text = text

theorem texts_append (front back : List Item) : texts (front ++ back) = texts front ++ texts back :=
  List.filterMap_append

@[simp]
theorem texts_map_line (depth : Nat) (ls : List Text) : texts (ls.map (Item.line depth)) = ls := by
  induction ls with
  | nil => rfl
  | cons line rest ih => simpa [texts, Item.text?] using ih

theorem Tidy.nil : Tidy [] := ⟨by simp [texts], by simp [texts]⟩

theorem Tidy.append {front back : List Item} (before : Tidy front) (behind : Tidy back) :
    Tidy (front ++ back) := by
  constructor
  · intro text member
    rw [texts_append] at member
    exact (List.mem_append.mp member).elim (before.oneLine text) (behind.oneLine text)
  · intro text last
    rw [texts_append, List.getLast?_append] at last
    rcases Option.or_eq_some_iff.mp last with last | ⟨_, last⟩
    · exact behind.ends text last
    · exact before.ends text last

theorem Tidy.gap {items : List Item} (tidy : Tidy items) : Tidy (.gap :: items) :=
  ⟨tidy.oneLine, tidy.ends⟩

/-- Lines of labels are tidy. -/
theorem Tidy.lines {ls : List Text} (depth : Nat)
    (labels : ∀ line ∈ ls, line ≠ [] ∧ Text.IsLabel line) : Tidy (ls.map (Item.line depth)) := by
  constructor
  · rw [texts_map_line]
    exact fun line member => (labels line member).2.oneLine
  · rw [texts_map_line]
    intro line last
    obtain ⟨written, label⟩ := labels line (List.mem_of_getLast? last)
    exact ⟨written, Text.trimEnd_of_isTrimmed label.trimmed⟩

theorem Tidy.line {text : Text} (depth : Nat) (written : text ≠ []) (label : Text.IsLabel text) :
    Tidy [.line depth text] :=
  @Tidy.lines [text] depth (by simpa using ⟨written, label⟩)

/-! ## Settled lines -/

/-- The lines that items settle into, but for empty ones at the end. -/
def settled (indent : Text) (onText : Bool) (items : List Item) : List Text :=
  (settle indent onText items).rdropWhile List.isEmpty

theorem rdropWhile_cons {α : Type} (p : α → Bool) (a : α) (l : List α) :
    (a :: l).rdropWhile p =
      if l.rdropWhile p = [] then (if p a then [] else [a]) else a :: l.rdropWhile p := by
  simp only [List.rdropWhile, List.reverse_cons, List.dropWhile_append, List.isEmpty_iff,
    List.reverse_eq_nil_iff]
  split
  · by_cases gone : p a = true <;> simp [gone]
  · simp

/-- An empty line stays only if there is something below it. -/
theorem rdropWhile_nil_cons (ls : List Text) :
    ([] :: ls).rdropWhile List.isEmpty =
      if ls.rdropWhile List.isEmpty = [] then [] else [] :: ls.rdropWhile List.isEmpty := by
  rw [rdropWhile_cons]
  rfl

theorem settled_gap_true (rest : List Item) :
    settled indent true (.gap :: rest) =
      if settled indent false rest = [] then [] else [] :: settled indent false rest :=
  rdropWhile_nil_cons _

theorem settled_line_nil (onText : Bool) (depth : Nat) (rest : List Item) :
    settled indent onText (.line depth [] :: rest) =
      if settled indent false rest = [] then [] else [] :: settled indent false rest :=
  rdropWhile_nil_cons _

theorem settled_line (onText : Bool) (depth : Nat) {text : Text} (rest : List Item)
    (written : text ≠ []) :
    settled indent onText (.line depth text :: rest) =
      indented (Text.repeated depth indent) text :: settled indent true rest := by
  have spelled : (Text.repeated depth indent ++ text).isEmpty = false := by simp [written]
  have here : text.isEmpty = false := by simp [written]
  rw [settled, settle, here, if_neg Bool.false_ne_true, rdropWhile_cons, spelled,
    indented_of_ne_nil _ written, settled]
  split
  · next gone => rw [gone, if_neg Bool.false_ne_true]
  · rfl

theorem settled_ne_nil {onText : Bool} {items : List Item}
    (written : ∃ text ∈ texts items, text ≠ []) : settled indent onText items ≠ [] := by
  induction items generalizing onText with
  | nil => simp [texts] at written
  | cons item rest ih =>
      cases item with
      | gap =>
          cases onText with
          | false => exact ih written
          | true =>
              rw [settled_gap_true, if_neg (ih written)]
              exact List.cons_ne_nil _ _
      | line depth text =>
          by_cases here : text = []
          · subst here
            have later : ∃ text ∈ texts rest, text ≠ [] := by
              simpa [texts, Item.text?] using written
            rw [settled_line_nil, if_neg (ih later)]
            exact List.cons_ne_nil _ _
          · rw [settled_line _ _ _ here]
            exact List.cons_ne_nil _ _

theorem Tidy.tail {item : Item} {items : List Item} (tidy : Tidy (item :: items)) :
    Tidy items := by
  cases item with
  | gap => exact ⟨tidy.oneLine, tidy.ends⟩
  | line depth first =>
      refine ⟨fun text member => tidy.oneLine text (List.mem_cons_of_mem _ member), ?_⟩
      intro text last
      refine tidy.ends text ?_
      have more : texts items ≠ [] := fun none => by simp [none] at last
      exact (List.getLast?_cons_of_ne_nil more).trans last

theorem Tidy.right {front back : List Item} (tidy : Tidy (front ++ back)) : Tidy back := by
  induction front with
  | nil => exact tidy
  | cons item front ih => exact ih tidy.tail

/-- An empty line has a line with text below it. -/
theorem Tidy.exists_below {depth : Nat} {items : List Item}
    (tidy : Tidy (.line depth [] :: items)) : ∃ text ∈ texts items, text ≠ [] := by
  by_cases none : texts items = []
  · have alone : texts (.line depth [] :: items) = [[]] := by
      rw [← List.singleton_append, texts_append, none]
      rfl
    exact absurd rfl (tidy.ends [] (by rw [alone]; rfl)).1
  · obtain ⟨written, _⟩ := tidy.tail.ends _ (List.getLast?_eq_some_getLast none)
    exact ⟨_, List.getLast_mem none, written⟩

theorem Tidy.settled_ne_nil {onText : Bool} {items : List Item} (tidy : Tidy items)
    (some : texts items ≠ []) : settled indent onText items ≠ [] := by
  obtain ⟨written, _⟩ := tidy.ends _ (List.getLast?_eq_some_getLast some)
  exact Layout.settled_ne_nil ⟨_, List.getLast_mem some, written⟩

theorem settled_eq_nil {onText : Bool} {items : List Item} (none : texts items = []) :
    settled indent onText items = [] := by
  induction items generalizing onText with
  | nil => rfl
  | cons item rest ih =>
      cases item with
      | gap =>
          cases onText with
          | false => exact ih none
          | true => rw [settled_gap_true, if_pos (ih none)]
      | line depth text => simp [texts, Item.text?] at none

/-- The last settled line ends with something to read. -/
theorem ends_settled {onText : Bool} {items : List Item} (tidy : Tidy items) :
    ∀ last ∈ (settled indent onText items).getLast?, last ≠ [] ∧ Text.trimEnd last = last := by
  induction items generalizing onText with
  | nil => simp [settled, settle]
  | cons item rest ih =>
      cases item with
      | gap =>
          cases onText with
          | false => exact ih tidy.tail
          | true =>
              rw [settled_gap_true]
              split
              · simp
              · next more =>
                rw [List.getLast?_cons_of_ne_nil more]
                exact ih tidy.tail
      | line depth text =>
          by_cases empty : text = []
          · subst empty
            have more : settled indent false rest ≠ [] := settled_ne_nil tidy.exists_below
            rw [settled_line_nil, if_neg more, List.getLast?_cons_of_ne_nil more]
            exact ih tidy.tail
          · rw [settled_line _ _ _ empty]
            by_cases more : settled indent true rest = []
            · rw [more, List.getLast?_singleton]
              rintro _ ⟨⟩
              have none : texts rest = [] := by
                by_contra some
                exact tidy.tail.settled_ne_nil some more
              have last : (texts (.line depth text :: rest)).getLast? = some text := by
                rw [← List.singleton_append, texts_append, none]
                rfl
              rw [indented_of_ne_nil _ empty]
              exact ⟨by simp [empty],
                Text.trimEnd_append_left _ (tidy.ends text last).2 empty⟩
            · rw [List.getLast?_cons_of_ne_nil more]
              exact ih tidy.tail

/-- The lines in which items are read back, in order, with some margin at each depth. -/
inductive Written (dialect : Dialect) (margin : Nat → Text) : List Item → List Line → Prop where
  | nil : Written dialect margin [] []
  | gap {items lines} : Written dialect margin items lines →
      Written dialect margin (.gap :: items) lines
  | blank {line items lines} : line.kind = .blank → line.raw = [] →
      Written dialect margin items lines → Written dialect margin (.gap :: items) (line :: lines)
  | line {depth text line items lines} :
      line.raw = Text.chopReturn (indented (margin depth) text) →
      line.kind = classify dialect line.trimmed → Written dialect margin items lines →
      Written dialect margin (.line depth text :: items) (line :: lines)

namespace Written

variable {margin : Nat → Text}

theorem append {front back : List Item} {above below : List Line}
    (before : Written dialect margin front above) (behind : Written dialect margin back below) :
    Written dialect margin (front ++ back) (above ++ below) := by
  induction before with
  | nil => exact behind
  | gap _ ih => exact .gap ih
  | blank kind raw _ ih => exact .blank kind raw ih
  | line raw kind _ ih => exact .line raw kind ih

theorem exists_append {front back : List Item} {lines : List Line}
    (written : Written dialect margin (front ++ back) lines) :
    ∃ above below, lines = above ++ below ∧ Written dialect margin front above ∧
      Written dialect margin back below := by
  induction front generalizing lines with
  | nil => exact ⟨[], lines, rfl, .nil, written⟩
  | cons item front ih =>
      cases written with
      | gap rest =>
          obtain ⟨above, below, rfl, before, behind⟩ := ih rest
          exact ⟨above, below, rfl, .gap before, behind⟩
      | blank kind raw rest =>
          obtain ⟨above, below, rfl, before, behind⟩ := ih rest
          exact ⟨_ :: above, below, rfl, .blank kind raw before, behind⟩
      | line raw kind rest =>
          obtain ⟨above, below, rfl, before, behind⟩ := ih rest
          exact ⟨_ :: above, below, rfl, .line raw kind before, behind⟩

end Written

/-- Lines with the texts that items settle into read the items back. -/
theorem written_of_settled {onText : Bool} {items : List Item} {lines : List Line}
    (tidy : Tidy items) (classified : ∀ line ∈ lines, line.kind = classify dialect line.trimmed)
    (raws : lines.map Line.raw = (settled indent onText items).map Text.chopReturn) :
    Written dialect (Text.repeated · indent) items lines := by
  induction items generalizing onText lines with
  | nil =>
      cases List.map_eq_nil_iff.mp raws
      exact .nil
  | cons item rest ih =>
      -- A settled empty line is read as a blank one.
      have empty (line : Line) (lines : List Line)
          (classified : ∀ other ∈ line :: lines, other.kind = classify dialect other.trimmed)
          (raw : line.raw = []) : line.kind = .blank := by
        rw [classified line List.mem_cons_self, Line.trimmed, raw]
        rfl
      cases item with
      | gap =>
          cases onText with
          | false => exact .gap (ih tidy.tail classified raws)
          | true =>
              rw [settled_gap_true] at raws
              split at raws
              · next gone => exact .gap (ih tidy.tail classified (raws.trans (by rw [gone])))
              · rw [List.map_cons, List.map_eq_cons_iff] at raws
                obtain ⟨line, later, rfl, raw, others⟩ := raws
                exact .blank (empty line later classified raw) raw
                  (ih tidy.tail (List.forall_mem_cons.mp classified).2 others)
      | line depth text =>
          have settledHere : settled indent onText (.line depth text :: rest) =
              indented (Text.repeated depth indent) text ::
                settled indent (!text.isEmpty) rest := by
            by_cases gone : text = []
            · subst gone
              exact (settled_line_nil _ _ _).trans (if_neg (settled_ne_nil tidy.exists_below))
            · have some : text.isEmpty = false := by simp [gone]
              rw [settled_line _ _ _ gone, some]
              rfl
          rw [settledHere, List.map_cons, List.map_eq_cons_iff] at raws
          obtain ⟨line, later, rfl, raw, others⟩ := raws
          exact .line raw (classified line List.mem_cons_self)
            (ih tidy.tail (List.forall_mem_cons.mp classified).2 others)

/-! ## Rendered text -/

/-- The newlines at the end of a text are those of the empty lines it ends with. -/
theorem dropFinalNewlines_unlines {ls : List Text} (oneLine : ∀ line ∈ ls, '\n' ∉ line) :
    dropFinalNewlines (Text.unlines ls) = Text.unlines (ls.rdropWhile List.isEmpty) := by
  induction ls using List.reverseRecOn with
  | nil => rfl
  | append_singleton front last ih =>
      have above : Text.unlines (front ++ [last]) =
          (if front = [] then [] else Text.unlines front ++ ['\n']) ++ last := by
        split
        · next none => simp [none]
        · next some =>
          rw [Text.unlines_append some (List.cons_ne_nil _ _)]
          simp
      by_cases empty : last = []
      · subst empty
        rw [List.rdropWhile_concat_pos _ _ _ rfl, ← ih fun line member =>
          oneLine line (List.mem_append_left _ member), above]
        split
        · next none => simp [none]
        · rw [List.append_nil]
          exact List.rdropWhile_concat_pos _ _ _ rfl
      · obtain ⟨start, c, rfl⟩ := List.eq_nil_or_concat last |>.resolve_left empty
        have kept : c ≠ '\n' := by
          rintro rfl
          exact oneLine _ (List.mem_append_right _ List.mem_cons_self) (by simp)
        rw [List.concat_eq_append] at above ⊢
        rw [List.rdropWhile_concat_neg _ _ _ (by simp), above, ← List.append_assoc]
        exact List.rdropWhile_concat_neg _ _ _ (by simpa using kept)

theorem not_newline_mem_settle {onText : Bool} {items : List Item} (newlineFree : '\n' ∉ indent)
    (oneLine : ∀ text ∈ texts items, '\n' ∉ text) :
    ∀ line ∈ settle indent onText items, '\n' ∉ line := by
  induction items generalizing onText with
  | nil => simp [settle]
  | cons item rest ih =>
      cases item with
      | gap =>
          have below := @ih false oneLine
          cases onText with
          | false => exact below
          | true => exact List.forall_mem_cons.mpr ⟨List.not_mem_nil, below⟩
      | line depth text =>
          obtain ⟨here, later⟩ := List.forall_mem_cons.mp oneLine
          unfold settle
          split
          · exact List.forall_mem_cons.mpr ⟨List.not_mem_nil, ih later⟩
          · refine List.forall_mem_cons.mpr ⟨fun newline => ?_, ih later⟩
            exact (List.mem_append.mp newline).elim
              (Text.not_mem_repeated newlineFree depth) here

theorem not_newline_mem_settled {onText : Bool} {items : List Item} (newlineFree : '\n' ∉ indent)
    (tidy : Tidy items) : ∀ line ∈ settled indent onText items, '\n' ∉ line := fun line member =>
  not_newline_mem_settle newlineFree tidy.oneLine line ((List.rdropWhile_prefix _ _).subset member)

/-- The text of a branch that stands at a depth. -/
def renderAt {α : Type} (width : Text → Nat) (indent : Text) (depth : Nat) (branch : Branch α) :
    Text :=
  dropFinalNewlines (Text.unlines (settle indent false (items width depth branch)))

theorem renderAt_zero {α : Type} (width : Text → Nat) (indent : Text) (branch : Branch α) :
    renderAt width indent 0 branch = render width indent branch := rfl

theorem renderAt_eq {α : Type} (width : Text → Nat) {branch : Branch α} {depth : Nat}
    (newlineFree : '\n' ∉ indent) (tidy : Tidy (items width depth branch)) :
    renderAt width indent depth branch =
      Text.unlines (settled indent false (items width depth branch)) :=
  dropFinalNewlines_unlines (not_newline_mem_settle newlineFree tidy.oneLine)

theorem render_eq {α : Type} (width : Text → Nat) {branch : Branch α} (newlineFree : '\n' ∉ indent)
    (tidy : Tidy (items width 0 branch)) :
    render width indent branch = Text.unlines (settled indent false (items width 0 branch)) :=
  renderAt_eq width newlineFree tidy

/-- The lines of rendered text. -/
theorem lines_render {α : Type} {branch : Branch α} (newlineFree : '\n' ∉ indent)
    (tidy : Tidy (items width 0 branch)) :
    Text.lines (render width indent branch) =
      (settled indent false (items width 0 branch)).map Text.chopReturn := by
  rw [render_eq width newlineFree tidy,
    Text.lines_unlines (not_newline_mem_settled newlineFree tidy) (ends_settled tidy)]

/-- Lines that items settled into read these items back. -/
theorem written_readAll {onText : Bool} {items : List Item} (tidy : Tidy items) (number : Nat) :
    Written dialect (Text.repeated · indent) items (Line.readAll dialect number
      ((settled indent onText items).map Text.chopReturn)) := by
  have spelled (number : Nat) (raws : List Text) :
      (Line.readAll dialect number raws).map Line.raw = raws ∧
        ∀ line ∈ Line.readAll dialect number raws, line.kind = classify dialect line.trimmed := by
    induction raws generalizing number with
    | nil => exact ⟨rfl, by simp [Line.readAll]⟩
    | cons raw rest ih =>
        obtain ⟨same, kinds⟩ := ih (number + 1)
        exact ⟨congrArg (raw :: ·) same, List.forall_mem_cons.mpr ⟨rfl, kinds⟩⟩
  exact written_of_settled tidy (spelled number _).2 (spelled number _).1

end Layout

end Gherkin
