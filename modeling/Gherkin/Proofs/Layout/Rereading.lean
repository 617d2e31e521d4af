import Gherkin.Proofs.Layout.Content
import Gherkin.Proofs.Layout.Items
import Gherkin.Proofs.Layout.Written

/-!
# Branches that are read again

The one thing that rendering and reading can change is a line of a doc string. A branch
is its own rereading when all lines of its doc strings stay as they are, and it is
rendered as its rereading is when these lines are rendered alike.
-/

namespace Gherkin

variable {α β : Type}

namespace Element

/-- The contents of a doc string. -/
def contents? : Element → Option Text
  | .docString _ contents => some contents
  | _ => none

/-- An element as it is read after it was rendered. -/
def reread : Element → Element
  | .docString contentType contents =>
    .docString contentType (Text.unlines ((Text.pieces contents).map Layout.reread))
  | element => element

theorem kind_reread (element : Element) : element.reread.kind = element.kind := by
  cases element <;> rfl

theorem reread_of_contents?_eq_none (element : Element) (none : element.contents? = none) :
    element.reread = element := by
  cases element with
  | docString => cases none
  | _ => rfl

theorem alike_reread (element : Element) : Layout.Alike element.reread element := by
  cases element with
  | docString => exact .inr ⟨rfl, rfl⟩
  | _ => exact .inl rfl

end Element

namespace Branch

mutual

/-- A branch as it is read after it was rendered. -/
def reread : Branch α → Branch α
  | .node label element children => .node label element.reread (rereadAll children)

/-- Branches as they are read after they were rendered. -/
def rereadAll : List (Branch α) → List (Branch α)
  | [] => []
  | branch :: rest => reread branch :: rereadAll rest

end

mutual

/-- The contents of all doc strings, in order. -/
def docStrings : Branch α → List Text
  | .node _ element children => element.contents?.toList ++ allDocStrings children

/-- The contents of the doc strings of several branches. -/
def allDocStrings : List (Branch α) → List Text
  | [] => []
  | branch :: rest => docStrings branch ++ allDocStrings rest

end

@[simp]
theorem reread_node (label : α) (element : Element) (children : List (Branch α)) :
    (node label element children).reread = .node label element.reread (children.map reread) := by
  have all (children : List (Branch α)) : rereadAll children = children.map reread := by
    induction children with
    | nil => rfl
    | cons child rest ih => rw [rereadAll, ih, List.map_cons]
  rw [reread, all]

@[simp]
theorem docStrings_node (label : α) (element : Element) (children : List (Branch α)) :
    (node label element children).docStrings =
      element.contents?.toList ++ children.flatMap docStrings := by
  have all (children : List (Branch α)) : allDocStrings children = children.flatMap docStrings := by
    induction children with
    | nil => rfl
    | cons child rest ih => rw [allDocStrings, ih, List.flatMap_cons]
  rw [docStrings, all]

theorem docStrings_map (f : α → β) (branch : Branch α) :
    (branch.map f).docStrings = branch.docStrings := by
  induction branch using induction with
  | node label element children ih =>
      rw [map_node, docStrings_node, docStrings_node, List.flatMap_map]
      exact congrArg _ (List.flatMap_congr ih)

theorem docStrings_eq_of_content_eq {a : Branch α} {b : Branch β} (same : a.content = b.content) :
    a.docStrings = b.docStrings := by
  rw [← docStrings_map (fun _ => ()) a, ← docStrings_map (fun _ => ()) b]
  exact congrArg docStrings same

theorem content_reread (branch : Branch α) : branch.reread.content = branch.content.reread := by
  induction branch using induction with
  | node label element children ih =>
      simp only [reread_node, content, map_node, List.map_map, node.injEq, true_and]
      exact List.map_congr_left ih

theorem element_reread (branch : Branch α) : branch.reread.element = branch.element.reread := by
  obtain ⟨label, element, children⟩ := branch
  rw [reread_node]
  rfl

theorem Arranged.reread {branch : Branch α} (arranged : branch.Arranged) :
    branch.reread.Arranged := by
  induction arranged with
  | @node label element children grouped _ ih =>
      have kinds : (children.map Branch.reread).map kind = children.map kind := by
        rw [List.map_map]
        refine List.map_congr_left fun child _ => ?_
        exact (congrArg Element.kind (element_reread child)).trans (Element.kind_reread _)
      rw [reread_node]
      refine .node ?_ (List.forall_mem_map.mpr ih)
      rw [Element.kind_reread]
      exact grouped.of_kinds kinds

/-- A branch stays as it is when all lines of its doc strings do. -/
theorem reread_eq_self_iff {branch : Branch α} :
    branch.reread = branch ↔ ∀ contents ∈ branch.docStrings, ∀ line ∈ Text.pieces contents,
      Layout.reread line = line := by
  induction branch using induction with
  | node label element children ih =>
      have itself : element.reread = element ↔ ∀ contents ∈ element.contents?,
          ∀ line ∈ Text.pieces contents, Layout.reread line = line := by
        cases element with
        | docString contentType contents =>
            simp only [Element.reread, Element.contents?, Element.docString.injEq, true_and,
              Option.mem_some_iff, forall_eq']
            exact Layout.unlines_reread_eq_iff
        | _ => simp [Element.reread, Element.contents?]
      have below : children.map reread = children ↔
          ∀ child ∈ children, child.reread = child := by
        conv_lhs => rhs; rw [← List.map_id children]
        exact List.map_inj_left
      rw [reread_node, docStrings_node, node.injEq, itself, below]
      simp only [true_and, List.mem_append, Option.mem_toList, List.mem_flatMap, or_imp,
        forall_and, forall_exists_index, and_imp]
      refine and_congr_right fun _ =>
        ⟨fun same contents child member => ?_, fun same child member => ?_⟩
      · exact (ih child member).mp (same child member) contents
      · exact (ih child member).mpr fun contents inside => same contents child member inside

end Branch

namespace Layout

variable {width : Text → Nat} {depth : Nat} {indent : Text}

/-- A line of a doc string is rendered as what it is read as is rendered. -/
def IsStable (line : Text) : Prop := contentLine (reread line) = contentLine line

/-- The line that opens a doc string. -/
def openingLine : Option Text → Text
  | some contentType => quotes ++ ' ' :: contentType
  | none => quotes

/-- The lines inside a doc string. -/
def contentLines (contents : Text) : List Text :=
  if contents.isEmpty then [] else (Text.pieces contents).map contentLine

theorem docString_eq (contentType : Option Text) (contents : Text) :
    docString depth contentType contents = .line depth (openingLine contentType) ::
      ((contentLines contents).map (Item.line depth) ++ [.line depth quotes]) := by
  cases contentType <;> simp [docString, openingLine, contentLines]

/-- The lines inside a doc string that stays stable are rendered alike. -/
theorem contentLines_reread {contents : Text}
    (stable : ∀ line ∈ Text.pieces contents, IsStable line) :
    contentLines (Text.unlines ((Text.pieces contents).map reread)) = contentLines contents := by
  have lines : ((Text.pieces contents).map reread).map contentLine =
      (Text.pieces contents).map contentLine := by
    rw [List.map_map]
    exact List.map_congr_left stable
  have empty : Text.unlines ((Text.pieces contents).map reread) = [] ↔ contents = [] := by
    constructor
    · intro none
      have nothing := pieces_reread contents
      rw [none] at nothing
      rw [← nothing] at lines
      obtain ⟨line, alone, empty⟩ := List.map_eq_singleton_iff.mp lines.symm
      rw [← Text.unlines_pieces contents, alone, contentLine_eq_nil_iff.1 empty]
      rfl
    · rintro rfl
      rfl
  unfold contentLines
  simp only [List.isEmpty_iff, empty, pieces_reread, lines]

/-- A branch with stable doc strings is laid out as its rereading is. -/
theorem items_reread {branch : Branch α} (stable : ∀ contents ∈ branch.docStrings,
      ∀ line ∈ Text.pieces contents, IsStable line) :
    items width depth branch.reread = items width depth branch := by
  induction branch using Branch.induction generalizing depth with
  | node label element children ih =>
      rw [Branch.docStrings_node] at stable
      have below : List.Forall₂ (fun a b => Alike a.element b.element ∧
          ∀ depth, items width depth a = items width depth b)
          (children.map Branch.reread) children := by
        rw [List.forall₂_map_left_iff, List.forall₂_same]
        refine fun child member => ⟨?_, fun depth => ih child member fun contents inside => ?_⟩
        · exact Branch.element_reread child ▸ Element.alike_reread child.element
        · exact stable contents
            (List.mem_append_right _ (List.mem_flatMap.mpr ⟨child, member, inside⟩))
      rw [Branch.reread_node]
      cases element with
      | docString contentType contents =>
          rw [Element.reread, items, items, docString_eq, docString_eq, contentLines_reread]
          exact stable contents (List.mem_append_left _ (by simp [Element.contents?]))
      | _ => exact items_node_congr _ below

/-! ## Lines with text -/

/-- What is left of an item that has text. -/
def kept (indent : Text) : Item → Option Text
  | .gap => none
  | .line depth text =>
    if text.isEmpty then none else some (Text.repeated depth indent ++ text)

theorem filter_settle (indent : Text) (onText : Bool) (items : List Item) :
    (settle indent onText items).filter (fun line => !line.isEmpty) =
      items.filterMap (kept indent) := by
  induction items generalizing onText with
  | nil => rfl
  | cons item rest ih =>
      cases item with
      | gap =>
          cases onText with
          | false => exact ih false
          | true => exact ih false
      | line depth text =>
          unfold settle
          split
          · next empty =>
            simp [ih, kept, empty]
          · next some =>
            have spelled : (Text.repeated depth indent ++ text).isEmpty = false := by
              simp_all
            simp [ih, kept, some, spelled]

/-- The lines with text of what is rendered are those of its items. -/
theorem filter_pieces_render {branch : Branch α} (newlineFree : '\n' ∉ indent)
    (tidy : Tidy (items width 0 branch)) :
    (Text.pieces (render width indent branch)).filter (fun line => !line.isEmpty) =
      (items width 0 branch).filterMap (kept indent) := by
  have ended (ls : List Text) : (ls.rdropWhile List.isEmpty).filter (fun line => !line.isEmpty) =
      ls.filter (fun line => !line.isEmpty) := by
    have dropped : (ls.rtakeWhile List.isEmpty).filter (fun line => !line.isEmpty) = [] :=
      List.filter_eq_nil_iff.mpr fun line member => by simpa using List.mem_rtakeWhile_imp member
    conv_rhs => rw [← @List.rdropWhile_append_rtakeWhile _ List.isEmpty ls, List.filter_append,
      dropped, List.append_nil]
  rw [render_eq width newlineFree tidy, ← filter_settle indent false, ← ended (settle _ _ _)]
  by_cases none : settled indent false (items width 0 branch) = []
  · rw [none, show (settle _ _ _).rdropWhile _ = [] from none]
    rfl
  · rw [Text.pieces_unlines none (not_newline_mem_settled newlineFree tidy)]
    rfl

/-! ## Rereadings that are rendered alike -/

theorem append_inj_of_length_le {front back front' back' : List α}
    (whole : front ++ back = front' ++ back') (before : front.length ≤ front'.length)
    (behind : back.length ≤ back'.length) : front = front' ∧ back = back' := by
  have lengths := congrArg List.length whole
  rw [List.length_append, List.length_append] at lengths
  exact List.append_inj whole (by omega)

/-- Items that were read keep no more lines with text than the original ones, and what keeps
all of them has a property. -/
structure Shrinks (indent : Text) (read original : List Item) (unchanged : Prop) : Prop where
  length_le : (read.filterMap (kept indent)).length ≤ (original.filterMap (kept indent)).length
  same : read.filterMap (kept indent) = original.filterMap (kept indent) → unchanged

namespace Shrinks

variable {read original : List Item} {unchanged : Prop}

theorem refl (items : List Item) (holds : unchanged) : Shrinks indent items items unchanged :=
  ⟨Nat.le_refl _, fun _ => holds⟩

theorem imp {other : Prop} (shrinks : Shrinks indent read original unchanged)
    (weaker : unchanged → other) : Shrinks indent read original other :=
  ⟨shrinks.length_le, fun same => weaker (shrinks.same same)⟩

theorem append {below originalBelow : List Item} {unchangedBelow : Prop}
    (front : Shrinks indent read original unchanged)
    (back : Shrinks indent below originalBelow unchangedBelow) :
    Shrinks indent (read ++ below) (original ++ originalBelow) (unchanged ∧ unchangedBelow) := by
  constructor
  · rw [List.filterMap_append, List.filterMap_append, List.length_append, List.length_append]
    exact Nat.add_le_add front.length_le back.length_le
  · intro same
    rw [List.filterMap_append, List.filterMap_append] at same
    exact (append_inj_of_length_le same front.length_le back.length_le).imp front.same back.same

end Shrinks

theorem shrinks_contentLine (line : Text) :
    Shrinks indent [.line depth (contentLine (reread line))] [.line depth (contentLine line)]
      (IsStable line) := by
  by_cases empty : line = []
  · subst empty
    exact Shrinks.refl _ rfl
  · have original : [Item.line depth (contentLine line)].filterMap (kept indent) =
        [Text.repeated depth indent ++ contentLine line] := by
      have some : contentLine line ≠ [] := fun none => empty (contentLine_eq_nil_iff.1 none)
      simp [kept, some]
    constructor
    · rw [original]
      exact List.length_filterMap_le _ _
    · intro same
      rw [original] at same
      by_cases gone : contentLine (reread line) = []
      · simp [kept, gone] at same
      · show contentLine (reread line) = contentLine line
        simpa [kept, gone] using same

theorem shrinks_docString (contentType : Option Text) (contents : Text) :
    Shrinks indent
      (docString depth contentType (Text.unlines ((Text.pieces contents).map reread)))
      (docString depth contentType contents) (∀ line ∈ Text.pieces contents, IsStable line) := by
  have inside (contents : Text) :
      ((contentLines contents).map (Item.line depth)).filterMap (kept indent) =
        ((Text.pieces contents).map fun line => Item.line depth (contentLine line)).filterMap
          (kept indent) := by
    unfold contentLines
    split
    · next empty =>
      rw [List.isEmpty_iff.mp empty]
      rfl
    · rw [List.map_map]
      rfl
  have lines (ls : List Text) :
      Shrinks indent (ls.map fun line => .line depth (contentLine (reread line)))
        (ls.map fun line => .line depth (contentLine line)) (∀ line ∈ ls, IsStable line) := by
    induction ls with
    | nil => exact Shrinks.refl _ (by simp)
    | cons line rest ih =>
        exact ((shrinks_contentLine line).append ih).imp List.forall_mem_cons.mpr
  have middle : Shrinks indent
      ((contentLines (Text.unlines ((Text.pieces contents).map reread))).map (Item.line depth))
      ((contentLines contents).map (Item.line depth))
      (∀ line ∈ Text.pieces contents, IsStable line) := by
    have pointwise := lines (Text.pieces contents)
    constructor
    · rw [inside, inside, pieces_reread, List.map_map]
      exact pointwise.length_le
    · rw [inside, inside, pieces_reread, List.map_map]
      exact pointwise.same
  rw [docString_eq, docString_eq]
  exact (((Shrinks.refl [_] trivial).append (middle.append (Shrinks.refl [_] trivial)))).imp
    fun both => both.2.1

end Layout

namespace Branch

open Layout

variable {width : Text → Nat} {indent : Text}

/-- The lines of all doc strings are rendered as what they are read as is rendered. -/
def IsStable (branch : Branch α) : Prop :=
  ∀ contents ∈ branch.docStrings, ∀ line ∈ Text.pieces contents, Layout.IsStable line

theorem isStable_node {label : α} {element : Element} {children : List (Branch α)}
    (plain : element.contents? = none) (below : ∀ child ∈ children, child.IsStable) :
    (node label element children).IsStable := by
  intro contents member
  rw [docStrings_node, plain] at member
  obtain ⟨child, inside, here⟩ := List.mem_flatMap.mp member
  exact below child inside contents here

theorem shrinks_below {depth : Nat} {children : List (Branch α)}
    (each : ∀ child ∈ children, isInline child.kind = false →
      Shrinks indent (items width depth child.reread) (items width depth child) child.IsStable)
    (inline : ∀ child ∈ children, isInline child.kind = true → child.docStrings = []) :
    Shrinks indent (below width depth (children.map reread)) (below width depth children)
      (∀ child ∈ children, child.IsStable) := by
  induction children with
  | nil => exact Shrinks.refl _ (by simp)
  | cons child rest ih =>
      obtain ⟨here, each⟩ := List.forall_mem_cons.mp each
      obtain ⟨plain, inline⟩ := List.forall_mem_cons.mp inline
      have kinds : child.reread.kind = child.kind := by
        rw [kind, element_reread, Element.kind_reread, kind]
      rw [List.map_cons, below, below, kinds]
      apply Shrinks.imp _ List.forall_mem_cons.mpr
      apply Shrinks.append _ (ih each inline)
      by_cases inside : isInline child.kind = true
      · rw [if_pos inside, if_pos inside]
        exact Shrinks.refl _ (by simp [IsStable, plain inside])
      · rw [if_neg inside, if_neg inside]
        exact ((Shrinks.refl _ trivial).append (here (by simpa using inside))).imp And.right

/-- A child of a branch whose children are grouped lives in one of the slots. -/
theorem Grouped.home {kind : Kind} {children : List (Branch α)} (grouped : Grouped kind children) :
    ∀ child ∈ children, ∃ slot ∈ kind.slots, child.kind.home = some slot := by
  obtain ⟨group, rfl, home⟩ := grouped
  intro child member
  obtain ⟨slot, inside, here⟩ := List.mem_flatMap.mp member
  exact ⟨slot, inside, home slot child here⟩

theorem Grouped.eq_nil {kind : Kind} {children : List (Branch α)} (grouped : Grouped kind children)
    (leaf : kind.slots = []) : children = [] := by
  obtain ⟨group, rfl, _⟩ := grouped
  rw [leaf, List.flatMap_nil]

/-- Only doc strings below a step have contents. -/
theorem docStrings_eq_nil {branch : Branch α} (arranged : branch.Arranged)
    (inline : isInline branch.kind = true) : branch.docStrings = [] := by
  cases arranged with
  | @node label element children grouped _ =>
      have leaf : element.kind.slots = [] ∧ element.contents? = none := by
        cases element with
        | tag | row => exact ⟨rfl, rfl⟩
        | _ => simp [kind, Branch.element, Element.kind, isInline] at inline
      rw [docStrings_node, grouped.eq_nil leaf.1, leaf.2]
      rfl

/-- Directories stand in directories only. -/
theorem Grouped.ne_directory {kind : Kind} {children : List (Branch α)}
    (grouped : Grouped kind children) (file : kind ≠ .directory) :
    ∀ child ∈ children, child.kind ≠ .directory := by
  intro child member
  obtain ⟨slot, inside, home⟩ := grouped.home child member
  exact Kind.ne_directory (Kind.hasPath_of_home file inside home)

/-- There are no doc strings among tags and rows. -/
theorem Grouped.isStable_of_inline {kind : Kind} {children : List (Branch α)}
    (grouped : Grouped kind children) (arranged : ∀ child ∈ children, child.Arranged)
    (leaf : ∀ slot ∈ kind.slots, slot = .tags ∨ slot = .rows) :
    ∀ child ∈ children, child.IsStable := by
  intro child member
  obtain ⟨slot, inside, home⟩ := grouped.home child member
  have inline : isInline child.kind = true := by
    rcases leaf slot inside with rfl | rfl
    · cases kind : child.kind <;> rw [kind] at home <;> first | rfl | cases home
    · cases kind : child.kind <;> rw [kind] at home <;> first | rfl | cases home
  simp [IsStable, docStrings_eq_nil (arranged child member) inline]

/-- A branch is rendered with no more lines with text when it is read again, and with the same
ones only if its doc strings are stable. -/
theorem shrinks_items {branch : Branch α} (arranged : branch.Arranged)
    (file : branch.kind ≠ .directory) (depth : Nat) :
    Shrinks indent (items width depth branch.reread) (items width depth branch)
      branch.IsStable := by
  induction arranged generalizing depth with
  | @node label element children grouped arranged ih =>
      have alike : List.Forall₂ (fun a b : Branch α => Alike a.element b.element)
          (children.map reread) children := by
        rw [List.forall₂_map_left_iff, List.forall₂_same]
        exact fun child _ => element_reread child ▸ Element.alike_reread child.element
      have below (depth : Nat) : Shrinks indent (below width depth (children.map reread))
          (below width depth children) (∀ child ∈ children, child.IsStable) :=
        shrinks_below
          (fun child member _ => ih child member (grouped.ne_directory file child member) depth)
          (fun child member => docStrings_eq_nil (arranged child member))
      have leaves := grouped.isStable_of_inline arranged
      have same := element.reread_of_contents?_eq_none
      rw [reread_node]
      cases element with
      | directory => exact absurd rfl file
      | featureFile path =>
          rw [same rfl, items, items, languageLine_congr alike]
          exact ((Shrinks.refl _ trivial).append (below _)).imp fun both => isStable_node rfl both.2
      | docString contentType contents =>
          refine (shrinks_docString contentType contents).imp fun stable other member => ?_
          rw [docStrings_node, grouped.eq_nil rfl, List.flatMap_nil, List.append_nil] at member
          cases List.mem_singleton.mp member
          exact stable
      | tag | row =>
          rw [same rfl, items, items]
          exact Shrinks.refl _ (isStable_node rfl (leaves (by simp [Element.kind, Kind.slots])))
      | table =>
          rw [same rfl, items, items, cellRows_congr alike]
          exact Shrinks.refl _ (isStable_node rfl (leaves (by simp [Element.kind, Kind.slots])))
      | «example» =>
          rw [same rfl, items, items, opening, opening, tagLine_congr alike, cellRows_congr alike]
          exact Shrinks.refl _ (isStable_node rfl (leaves (by simp [Element.kind, Kind.slots])))
      | step =>
          rw [same rfl, items, items, ← List.singleton_append, ← List.singleton_append]
          exact ((Shrinks.refl [_] trivial).append (below _)).imp fun both =>
            isStable_node rfl both.2
      | feature | rule | background | scenario | outline =>
          rw [same rfl, items, items, opening, opening, tagLine_congr alike]
          exact ((Shrinks.refl _ trivial).append (below _)).imp fun both => isStable_node rfl both.2

/-- A branch and its rereading are rendered alike exactly when the doc strings are stable. -/
theorem render_reread_iff {branch : Branch α} (arranged : branch.Arranged)
    (file : branch.kind ≠ .directory) (newlineFree : '\n' ∉ indent)
    (tidy : Tidy (items width 0 branch)) (tidyAgain : Tidy (items width 0 branch.reread)) :
    render width indent branch.reread = render width indent branch ↔ branch.IsStable := by
  constructor
  · intro same
    apply (shrinks_items arranged file 0).same
    rw [← filter_pieces_render newlineFree tidyAgain, same, filter_pieces_render newlineFree tidy]
  · intro stable
    rw [render, render, items_reread stable]

end Branch

end Gherkin
