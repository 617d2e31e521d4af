import Gherkin.Proofs.Text.Trim
import Gherkin.Layout.Table

/-!
# Cells

The cells of a row are its runs of signs without the blanks around them. So no value
has blanks at its ends but those that an escape stands for.
-/

namespace Gherkin

/-- A cell value neither begins nor ends with a blank, but for newlines, which are
written with an escape. -/
def IsCellValue (value : Text) : Prop := IsStripped (fun c => Text.isBlank c && c != '\n') value

instance (value : Text) : Decidable (IsCellValue value) :=
  decidable_of_iff (strip _ value = value) strip_eq_self_iff

theorem Cell.escape_cons (c : Char) (value : Text) :
    Cell.escape (c :: value) = Cell.escapeChar c ++ Cell.escape value := List.flatMap_cons ..

namespace Glyph

attribute [local simp] read

theorem read_pipe (column : Nat) (t : Text) :
    read column ('|' :: t) = (column, .pipe) :: read (column + 1) t := by simp

theorem read_plain {c : Char} (column : Nat) (t : Text) (slash : c ≠ '\\') (pipe : c ≠ '|') :
    read column (c :: t) = (column, .plain c) :: read (column + 1) t := by simp [slash]

theorem mem_of_mem_runs {run signs : List (Nat × Glyph)} (member : run ∈ runs signs) :
    ∀ sign ∈ run, sign ∈ signs := by
  induction signs generalizing run with
  | nil =>
      rw [List.mem_singleton.mp member]
      simp
  | cons first rest ih =>
      unfold runs at member
      split at member
      · rcases List.mem_cons.mp member with rfl | later
        · simp
        · exact fun sign inside => List.mem_cons_of_mem _ (ih later sign inside)
      · split at member
        · rw [List.mem_singleton.mp member]
          simp
        · next found =>
          rcases List.mem_cons.mp member with rfl | later
          · intro sign inside
            rcases List.mem_cons.mp inside with rfl | inside
            · exact List.mem_cons_self
            · exact List.mem_cons_of_mem _ (ih (found ▸ List.mem_cons_self) sign inside)
          · exact fun sign inside => List.mem_cons_of_mem _
              (ih (found ▸ List.mem_cons_of_mem _ later) sign inside)

/-- Only a newline is a blank that an escape stands for. -/
theorem blank_escape_of_mem_read {column place : Nat} {t : Text} {c : Char}
    (member : (place, .escaped c) ∈ read column t) : Text.isBlank c = true → c = '\n' := by
  fun_induction read column t with
  | case1 => exact absurd member List.not_mem_nil
  | case2 column t ih =>
      rcases List.mem_cons.mp member with same | later
      · cases same
        exact fun blank => absurd blank (by decide)
      · exact ih later
  | case3 column t ih =>
      rcases List.mem_cons.mp member with same | later
      · cases same
        exact fun blank => absurd blank (by decide)
      · exact ih later
  | case4 column t ih =>
      rcases List.mem_cons.mp member with same | later
      · cases same
        exact fun _ => rfl
      · exact ih later
  | case5 column t ih =>
      rcases List.mem_cons.mp member with same | later
      · cases same
      · exact ih later
  | case6 column c t _ _ _ _ ih =>
      rcases List.mem_cons.mp member with same | later
      · cases same
      · exact ih later

end Glyph

namespace Cell

/-- The value of a cell has no blanks around it but escaped newlines. -/
theorem isCellValue_of_mem_split {cell : Cell} {line : Text} (member : cell ∈ split line) :
    IsCellValue cell.value := by
  obtain ⟨run, inside, rfl⟩ := List.mem_map.mp member
  have whole := Glyph.mem_of_mem_runs (List.mem_of_mem_tail (List.dropLast_subset _ inside))
  refine (isStripped_strip (fun sign => sign.2.isBlank) run).map ?_
  rintro ⟨column, sign⟩ kept plain
  have read := whole _ (mem_of_mem_strip kept)
  cases sign with
  | pipe => rfl
  | plain c =>
      have solid : Text.isBlank c = false := plain
      simp [Glyph.value, solid]
  | escaped c =>
      have only := Glyph.blank_escape_of_mem_read read
      simpa [Glyph.value] using only

theorem not_newline_mem_escape (value : Text) : '\n' ∉ escape value := by
  intro member
  obtain ⟨c, _, here⟩ := List.mem_flatMap.mp member
  unfold escapeChar at here
  split at here
  · simp at here
  · split at here
    · simp at here
    · split at here
      · simp at here
      · next plain => exact plain (List.mem_singleton.mp here).symm

end Cell

end Gherkin
