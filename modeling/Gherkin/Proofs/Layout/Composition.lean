import Gherkin.Proofs.Layout.Standing

/-!
# The text of an element from the texts of its children

The children of an element are laid out in frames, one level deeper and with a gap above those
that are set off. So the lines of an element are its own, and below them the lines of the texts
of its children, each as if it were rendered by itself. Only the gap behind a description needs
care: the empty line it asks for is that of the next child.
-/

namespace Gherkin

/-- Whether elements of a kind have lines of their own and all their children but tags below. -/
def Kind.isComposed : Kind → Bool
  | .feature | .rule | .background | .scenario | .outline | .step => true
  | _ => false

theorem Kind.hasPath_of_isComposed {kind : Kind} (composed : kind.isComposed = true) :
    kind.hasPath = false := by
  cases kind <;> first | rfl | cases composed

theorem Kind.rows_not_mem_slots {kind : Kind} (composed : kind.isComposed = true) :
    Slot.rows ∉ kind.slots := by
  cases kind <;> first | decide | cases composed

/-- Whether the children in a slot are set off. -/
def Slot.isSetOff : Slot → Bool
  | .background | .tests | .rules | .examples => true
  | _ => false

theorem Layout.isSetOff_of_home {kind : Kind} {slot : Slot} (home : kind.home = some slot) :
    Layout.isSetOff kind = slot.isSetOff := by
  cases kind <;> cases home <;> rfl

theorem Slot.isSetOff_of_isHeaded {kind child : Kind} {slot : Slot}
    (composed : kind.isComposed = true) (owned : slot ∈ kind.slots)
    (home : child.home = some slot) (headed : child.isHeaded = true) : slot.isSetOff = true := by
  cases child with
  | feature =>
    cases home
    cases kind <;> first | exact absurd owned (by decide) | cases composed
  | rule | background | scenario | outline | «example» =>
    cases home
    rfl
  | _ => cases headed

/-- Whether an element has a description that says something. -/
def Element.isDescribed (element : Element) : Bool :=
  element.heading?.any fun heading => !heading.description.isEmpty

namespace Layout

open Description (indented)

variable {α : Type} {width : Text → Nat} {indent : Text} {depth : Nat}

/-! ## Parts below an element -/

/-- The text of a child, and whether it is set off. -/
structure Part where
  setOff : Bool
  text : Text

/-- The lines of parts below an element, one level deeper. There is an empty line above each part
that is set off, and above the first part below a description. Empty parts are left out. -/
def stacked (indent : Text) : (described : Bool) → List Part → List Text
  | _, [] => []
  | described, part :: rest =>
    if part.text.isEmpty then stacked indent described rest
    else
      (if described || part.setOff then [[]] else []) ++
        ((Text.pieces part.text).map (indented indent) ++ stacked indent false rest)

/-- The parts that the children of an element are rendered as. -/
def parts (width : Text → Nat) (indent : Text) (children : List (Branch α)) : List Part :=
  (children.filter fun child => !isInline child.kind).map fun child =>
    ⟨isSetOff child.kind, render width indent child⟩

theorem parts_cons (child : Branch α) (rest : List (Branch α)) :
    parts width indent (child :: rest) =
      (if isInline child.kind then [] else [⟨isSetOff child.kind, render width indent child⟩]) ++
        parts width indent rest := by
  by_cases inline : isInline child.kind = true <;> simp [parts, inline]

theorem stacked_of_setOff {parts : List Part} (setOff : ∀ part ∈ parts, part.setOff = true) :
    stacked indent true parts = stacked indent false parts := by
  induction parts with
  | nil => rfl
  | cons part rest ih =>
    obtain ⟨here, later⟩ := List.forall_mem_cons.mp setOff
    rw [stacked, stacked, ih later, here, Bool.or_true, Bool.or_true]

/-! ## Lines of an element itself -/

/-- The lines of an element with tags of some names, without its children. -/
def ownLines (names : List Text) : Element → List Text
  | .step keyword text => [stepLine keyword text]
  | element => (element.heading?.map (headedLines names)).getD []

/-- The items of an element with tags of some names, without its children. -/
def ownItems (depth : Nat) (names : List Text) : Element → List Item
  | .step keyword text => [.line depth (stepLine keyword text)]
  | element => (element.heading?.map (headed depth names)).getD []

theorem items_eq_ownItems (label : α) {element : Element} (children : List (Branch α))
    (composed : element.kind.isComposed = true) :
    items width depth (.node label element children) =
      ownItems depth (tagNames children) element ++ below width (depth + 1) children := by
  cases element <;> first | rfl | cases composed

/-- A composed element is a step or has a header. -/
theorem own_cases {element : Element} (composed : element.kind.isComposed = true) :
    (∃ keyword text, element = .step keyword text) ∨
      ∃ heading ∈ element.heading?,
        (∀ depth names, ownItems depth names element = headed depth names heading) ∧
        ∀ names, ownLines names element = headedLines names heading := by
  cases element with
  | step keyword text => exact .inl ⟨keyword, text, rfl⟩
  | feature heading | rule heading | background heading | scenario heading | outline heading =>
    exact .inr ⟨heading, rfl, fun _ _ => rfl, fun _ => rfl⟩
  | _ => cases composed

/-! ## Composition -/

/-- A text is made of the lines its items settle into. -/
theorem render_eq_unlines {branch : Branch α} (newlineFree : '\n' ∉ indent)
    (oneLine : ∀ text ∈ texts (items width 0 branch), '\n' ∉ text) :
    render width indent branch = Text.unlines (settled indent false (items width 0 branch)) :=
  dropFinalNewlines_unlines (not_newline_mem_settle newlineFree oneLine)

section Framed

variable {branch : Branch α} {trailing : Bool} (newlineFree : '\n' ∉ indent)
  (oneLine : ∀ text ∈ texts (items width 0 branch), '\n' ∉ text)
  (framed : Framed trailing (items width 0 branch))
include newlineFree oneLine framed

/-- The lines of a text are those its items settle into. -/
theorem pieces_render :
    Text.pieces (render width indent branch) = settled indent false (items width 0 branch) := by
  rw [render_eq_unlines newlineFree oneLine]
  refine Text.pieces_unlines (settled_ne_nil framed.exists_text) fun line member => ?_
  exact not_newline_mem_settle newlineFree oneLine line
    ((List.rdropWhile_prefix _ _).subset member)

theorem isStripped_pieces_render :
    IsStripped List.isEmpty (Text.pieces (render width indent branch)) := by
  rw [pieces_render newlineFree oneLine framed]
  exact framed.isStripped_settled indent false

theorem render_ne_nil : render width indent branch ≠ [] := by
  intro nothing
  have stripped := isStripped_pieces_render newlineFree oneLine framed
  rw [nothing] at stripped
  cases stripped.1 [] rfl

/-- A text of framed items neither begins nor ends with a newline. -/
theorem isStripped_render : IsStripped (· == '\n') (render width indent branch) := by
  constructor
  · intro c first
    have stripped := isStripped_pieces_render newlineFree oneLine framed
    obtain ⟨line, rest, whole⟩ := List.exists_cons_of_ne_nil
      (Text.pieces_ne_nil (render width indent branch))
    rw [whole] at stripped
    have written : line ≠ [] := by simpa using stripped.1 line rfl
    have here : c ∈ line.head? := by
      rw [← Text.unlines_pieces (render width indent branch), whole] at first
      by_cases more : rest = []
      · rwa [more, Text.unlines_singleton] at first
      · rwa [Text.unlines_cons _ more, List.head?_append_of_ne_nil _ written] at first
    refine beq_eq_false_iff_ne.mpr ?_
    rintro rfl
    exact Text.not_mem_of_mem_pieces (whole ▸ List.mem_cons_self) (List.mem_of_head? here)
  · intro c last
    have some := render_ne_nil newlineFree oneLine framed
    rw [List.getLast?_eq_some_getLast some] at last
    cases last
    exact Bool.eq_false_iff.mpr (List.rdropWhile_last_not (· == '\n') _ some)

/-- A framed child settles into the lines of its text, and leaves a gap it ends with to what
follows. -/
theorem settled_child (above setOff : Bool) (back : List Item) :
    settled indent true (gapIf above ++ (gapIf setOff ++ items width 1 branch ++ back)) =
      (if above || setOff then [[]] else []) ++
        ((Text.pieces (render width indent branch)).map (indented indent) ++
          settled indent true (gapIf trailing ++ back)) := by
  have deeper : items width 1 branch = (items width 0 branch).map (Item.shift 1) :=
    (map_shift_items 1 branch).symm
  have inside : Framed trailing (items width 1 branch) := deeper ▸ framed.map_shift 1
  rw [← List.append_assoc, ((inside.ends.append_left _).append_left _).settled_append,
    inside.settled_gaps, deeper, settled_map_shift, pieces_render newlineFree oneLine framed,
    List.append_assoc]

end Framed

namespace Standing

variable {branch : Branch α} (standing : Standing branch.kind (items width 0 branch))
include standing

theorem isStripped_render (newlineFree : '\n' ∉ indent) :
    IsStripped (· == '\n') (render width indent branch) := by
  rcases standing.framed with ⟨empty, _⟩ | ⟨_, framed, _⟩
  · rw [render, empty]
    exact isStripped_nil
  · exact Layout.isStripped_render newlineFree standing.oneLine framed

theorem render_ne_nil (newlineFree : '\n' ∉ indent) (setOff : isSetOff branch.kind = true) :
    render width indent branch ≠ [] := by
  rcases standing.framed with ⟨_, plain⟩ | ⟨_, framed, _⟩
  · cases setOff.symm.trans plain
  · exact Layout.render_ne_nil newlineFree standing.oneLine framed

end Standing

/-- Children in frames settle into the lines of their texts. -/
theorem settled_below {children : List (Branch α)} (newlineFree : '\n' ∉ indent)
    (each : ∀ child ∈ children, Standing child.kind (items width 0 child))
    (order : children.Pairwise fun a b => a.kind.isHeaded = true → isSetOff b.kind = true)
    (described : Bool) :
    settled indent true (gapIf described ++ below width 1 children) =
      stacked indent described (parts width indent children) := by
  induction children generalizing described with
  | nil => exact settled_eq_nil (by rw [below, List.append_nil, texts_gapIf])
  | cons child rest ih =>
    obtain ⟨here, each⟩ := List.forall_mem_cons.mp each
    obtain ⟨setOff, order⟩ := List.pairwise_cons.mp order
    have later := ih each order
    rw [below, parts_cons]
    by_cases inline : isInline child.kind = true
    · rw [if_pos inline, if_pos inline]
      exact later described
    · rw [if_neg inline, if_neg inline, List.singleton_append, stacked]
      rcases here.framed with ⟨empty, plain⟩ | ⟨trailing, framed, headed⟩
      · have nothing : render width indent child = [] := by
          rw [render, empty]
          rfl
        rw [← map_shift_items 1 child, empty, plain, nothing]
        exact later described
      · have some : (render width indent child).isEmpty = false := by
          simpa using render_ne_nil newlineFree here.oneLine framed
        -- What ends with a gap has a header, and then all that follows is set off anyway.
        have follows : stacked indent trailing (parts width indent rest) =
            stacked indent false (parts width indent rest) := by
          cases trailing with
          | false => rfl
          | true =>
            refine stacked_of_setOff fun part member => ?_
            obtain ⟨other, listed, rfl⟩ := List.mem_map.mp member
            exact setOff other (List.mem_filter.mp listed).1 (headed rfl)
        rw [some, if_neg Bool.false_ne_true, ← follows, ← later]
        exact settled_child newlineFree here.oneLine framed described _ _

/-- The children of a composed element come in the order of its slots: steps before what is set
off. -/
theorem pairwise_setOff {kind : Kind} {children : List (Branch α)}
    (composed : kind.isComposed = true) (grouped : Branch.Grouped kind children) :
    children.Pairwise fun a b => a.kind.isHeaded = true → isSetOff b.kind = true := by
  obtain ⟨group, rfl, homes⟩ := grouped
  have order : kind.slots.Pairwise fun a b => a.isSetOff = true → b.isSetOff = true := by
    cases kind <;> decide
  refine List.pairwise_flatMap.mpr ⟨fun slot owned => ?_, order.imp_of_mem ?_⟩
  · refine List.pairwise_of_forall_mem_list fun a first b second headed => ?_
    rw [isSetOff_of_home (homes slot b second)]
    exact Slot.isSetOff_of_isHeaded composed owned (homes slot a first) headed
  · intro slot other owned _ follows a first b second headed
    rw [isSetOff_of_home (homes other b second)]
    exact follows (Slot.isSetOff_of_isHeaded composed owned (homes slot a first) headed)

section Own

variable {element : Element} {names : List Text} (composed : element.kind.isComposed = true)
  (writable : element.IsWritable) (tags : ∀ name ∈ names, '\n' ∉ name ∧ name ≠ [])
include composed writable tags

theorem framed_ownItems : Framed element.isDescribed (ownItems depth names element) := by
  rcases own_cases composed with ⟨keyword, text, rfl⟩ | ⟨heading, found, whole, _⟩
  · exact framed_lines depth (List.cons_ne_nil _ _) (isStripped_singleton writable.2.2)
  · rw [whole, Element.isDescribed, Option.mem_def.mp found]
    exact framed_headed (writable.heading heading found) tags

theorem settled_ownItems (indent : Text) :
    settled indent false (ownItems 0 names element) = ownLines names element := by
  rcases own_cases composed with ⟨keyword, text, rfl⟩ | ⟨heading, found, whole, lines⟩
  · exact settled_lines_of_stripped false (isStripped_singleton writable.2.2)
  · rw [whole, lines]
    exact settled_headed (writable.heading heading found) tags

/-- The lines of a composed element itself begin and end with one that says something. -/
theorem isStripped_ownLines :
    ownLines names element ≠ [] ∧ IsStripped List.isEmpty (ownLines names element) := by
  have framed : Framed element.isDescribed (ownItems 0 names element) :=
    framed_ownItems composed writable tags
  rw [← settled_ownItems composed writable tags []]
  exact ⟨settled_ne_nil framed.exists_text, framed.isStripped_settled [] false⟩

end Own

/-- The text of a composed element consists of its own lines and the texts of its children. -/
theorem render_node {label : α} {element : Element} {children : List (Branch α)}
    (newlineFree : '\n' ∉ indent) (composed : element.kind.isComposed = true)
    (arranged : (Branch.node label element children).Arranged)
    (writable : (Branch.node label element children).Writable) :
    render width indent (.node label element children) =
      Text.unlines (ownLines (tagNames children) element ++
        stacked indent element.isDescribed (parts width indent children)) := by
  have file : element.kind.hasPath = false := Kind.hasPath_of_isComposed composed
  have whole := standing_items width arranged writable file 0
  have each := standing_children width arranged writable (Kind.ne_directory file) 0
  rw [render_eq_unlines newlineFree whole.oneLine, items_eq_ownItems label children composed]
  obtain ⟨grouped, _⟩ := arranged
  obtain ⟨here, writable⟩ := writable
  have tags := tagNames_writable writable
  have own : Framed element.isDescribed (ownItems 0 (tagNames children) element) :=
    framed_ownItems composed here tags
  rw [own.ends.settled_append, settled_ownItems composed here tags,
    settled_below newlineFree each (pairwise_setOff composed grouped)]

end Layout

end Gherkin
