import Gherkin.Proofs.Document.Readback
import Gherkin.Proofs.Line.Fields

/-!
# Columns of cells

The fields of a line follow each other with one pipe between them, so the columns of the pipes
tell where each field stands. A cell has the column of the first character of its field that is
not a blank, or of the field itself if this is blank.
-/

namespace Gherkin

namespace Glyph

theorem isBlank_of_mem_read {t : Text} (blank : Text.IsBlank t) (column : Nat) :
    ∀ sign ∈ read column t, sign.2.isBlank = true := by
  intro sign member
  refine isBlank_of_mem_signs blank sign.2 ?_
  rw [← map_snd_read column]
  exact List.mem_map_of_mem member

/-- The first sign of a text begins where the text does. -/
theorem exists_read_cons {c : Char} (solid : Text.isBlank c = false) (column : Nat) (t : Text) :
    ∃ sign rest, read column (c :: t) = (column, sign) :: rest ∧ sign.isBlank = false := by
  rw [read.eq_def]
  split
  case h_1 none => cases none
  case h_6 same =>
    cases same
    exact ⟨_, _, rfl, solid⟩
  all_goals exact ⟨_, _, rfl, rfl⟩

theorem runs_append {front rest : List (Nat × Glyph)} (inside : ∀ sign ∈ front, sign.2 ≠ .pipe) :
    runs (front ++ rest) = (runs rest).modifyHead (front ++ ·) := by
  induction front with
  | nil => exact (congrFun List.modifyHead_id _).symm
  | cons sign front ih =>
    obtain ⟨here, later⟩ := List.forall_mem_cons.mp inside
    obtain ⟨run, others, some⟩ := List.exists_cons_of_ne_nil (runs_ne_nil rest)
    rw [List.cons_append, runs, if_neg here, ih later, some]
    rfl

/-- A backslash and the character behind it are read by themselves, and none of them separates. -/
theorem exists_read_pair (c : Char) : ∃ signs : Nat → List (Nat × Glyph), ∀ column,
    (∀ sign ∈ signs column, sign.2 ≠ .pipe) ∧
      ∀ t, read column ('\\' :: c :: t) = signs column ++ read (column + 2) t := by
  by_cases escapable : IsEscapable c
  · obtain ⟨meant, same⟩ := exists_read_escape escapable
    exact ⟨fun column => [(column, .escaped meant)],
      fun column => ⟨by simp, fun t => (same column t).1⟩⟩
  · obtain ⟨pipe, slash, newline⟩ : c ≠ '|' ∧ c ≠ '\\' ∧ c ≠ 'n' := by
      simpa [IsEscapable] using escapable
    refine ⟨fun column => [(column, .plain '\\'), (column + 1, .plain c)],
      fun column => ⟨by simp, fun t => ?_⟩⟩
    rw [read, read_plain (column + 1) t slash pipe]
    · rfl
    all_goals simp [pipe, slash, newline]

end Glyph

namespace Cell

/-- Fields that follow each other from a given column on, with their columns. -/
def placed : (column : Nat) → List Text → List (Nat × Text)
  | _, [] => []
  | column, field :: rest => (column, field) :: placed (column + field.length + 1) rest

/-- The signs between pipes are those of the fields, each read from the column it is placed at. -/
theorem runs_read (column : Nat) (t : Text) :
    Glyph.runs (Glyph.read column t) =
      (placed column (fields t)).map fun field => Glyph.read field.1 field.2 := by
  fun_induction fields t generalizing column with
  | case1 => rfl
  | case2 c t ih =>
    obtain ⟨signs, same⟩ := Glyph.exists_read_pair c
    obtain ⟨field, rest, some⟩ := List.exists_cons_of_ne_nil (fields_ne_nil t)
    have next : column + 2 + field.length + 1 = column + (field.length + 1 + 1) + 1 := by omega
    rw [(same column).2, Glyph.runs_append (same column).1, ih, some]
    simp [placed, (same column).2, next]
  | case3 t ih =>
    rw [Glyph.read_pipe, Glyph.runs, if_pos rfl, ih]
    rfl
  | case4 c t notPair notPipe ih =>
    by_cases slash : c = '\\'
    · obtain rfl := eq_nil_of_loneBackslash slash notPair
      subst slash
      rfl
    · obtain ⟨field, rest, some⟩ := List.exists_cons_of_ne_nil (fields_ne_nil t)
      have next : column + 1 + field.length + 1 = column + (field.length + 1) + 1 := by omega
      have same (t : Text) := Glyph.read_plain column t slash notPipe
      rw [same, ← List.singleton_append, Glyph.runs_append (by simp), ih, some]
      simp [placed, same, next]

/-- The columns of the pipes of a line that are not escaped. -/
def pipes : (column : Nat) → Text → List Nat
  | _, [] => []
  | column, '\\' :: _ :: t => pipes (column + 2) t
  | column, '|' :: t => column :: pipes (column + 1) t
  | column, _ :: t => pipes (column + 1) t

/-- The pipes on either side of each cell of a row, by their columns. -/
def bounds (line : Text) : List (Nat × Nat) := (pipes 1 line).zip (pipes 1 line).tail

/-- The characters of a line from one column to the one before another column. -/
def slice (line : Text) (first last : Nat) : Text := (line.take (last - 1)).drop (first - 1)

/-- The columns behind all fields but the last one, which follow each other from a given column
on. -/
def closings (column : Nat) (fields : List Text) : List Nat :=
  (placed column fields).dropLast.map fun field => field.1 + field.2.length

theorem closings_modifyHead (column : Nat) (front : Text) (fields : List Text) :
    closings column (fields.modifyHead (front ++ ·)) = closings (column + front.length) fields := by
  match fields with
  | [] => rfl
  | [field] => rfl
  | field :: next :: rest =>
    simp [closings, placed, Nat.add_assoc]

/-- A pipe stands behind each field but the last one. -/
theorem pipes_eq (column : Nat) (t : Text) : pipes column t = closings column (fields t) := by
  fun_induction fields t generalizing column with
  | case1 => rfl
  | case2 c t ih =>
    rw [pipes, ih]
    exact (closings_modifyHead column ['\\', c] (fields t)).symm
  | case3 t ih =>
    obtain ⟨field, rest, some⟩ := List.exists_cons_of_ne_nil (fields_ne_nil t)
    rw [pipes, ih, some]
    rfl
  | case4 c t notPair notPipe ih =>
    rw [pipes, ih]
    · exact (closings_modifyHead column [c] (fields t)).symm
    all_goals assumption

theorem join_modifyHead (front : Text) {texts : List Text} (some : texts ≠ []) :
    Text.join ['|'] (texts.modifyHead (front ++ ·)) = front ++ Text.join ['|'] texts := by
  obtain ⟨first, rest, rfl⟩ := List.exists_cons_of_ne_nil some
  cases rest with
  | nil => rw [List.modifyHead_cons, Text.join_singleton, Text.join_singleton]
  | cons next rest =>
    rw [List.modifyHead_cons, Text.join_cons _ _ (List.cons_ne_nil _ _),
      Text.join_cons _ _ (List.cons_ne_nil _ _), List.append_assoc, List.append_assoc,
      List.append_assoc]

/-- A line is its fields with pipes between them. -/
theorem join_fields (t : Text) : Text.join ['|'] (fields t) = t := by
  fun_induction fields t with
  | case1 => rfl
  | case2 c t ih =>
    have whole := join_modifyHead ['\\', c] (fields_ne_nil t)
    rw [ih] at whole
    exact whole
  | case3 t ih =>
    rw [Text.join_cons _ _ (fields_ne_nil t), ih]
    rfl
  | case4 c t notPair notPipe ih =>
    have whole := join_modifyHead [c] (fields_ne_nil t)
    rw [ih] at whole
    exact whole

theorem slice_append (front t back : Text) :
    slice (front ++ t ++ back) (front.length + 1) (front.length + 1 + t.length) = t := by
  have stop : front.length + 1 + t.length - 1 = (front ++ t).length := by
    rw [List.length_append]
    omega
  rw [slice, stop, List.take_left, Nat.add_sub_cancel, List.drop_left]

/-- A field stands in the line where it is placed. -/
theorem exists_append_of_mem_placed {front : Text} {texts : List Text} {column : Nat} {t : Text}
    (member : (column, t) ∈ placed (front.length + 1) texts) :
    ∃ before back, front ++ Text.join ['|'] texts = before ++ t ++ back ∧
      column = before.length + 1 := by
  induction texts generalizing front with
  | nil => cases member
  | cons first rest ih =>
    rcases List.mem_cons.mp member with here | later
    · cases here
      cases rest with
      | nil => exact ⟨front, [], by rw [Text.join_singleton, List.append_nil], rfl⟩
      | cons next rest =>
        refine ⟨front, ['|'] ++ Text.join ['|'] (next :: rest), ?_, rfl⟩
        rw [Text.join_cons _ _ (List.cons_ne_nil _ _)]
        simp only [List.append_assoc]
    · have some : rest ≠ [] := by
        rintro rfl
        cases later
      have next : front.length + 1 + first.length + 1 = (front ++ (first ++ ['|'])).length + 1 := by
        simp only [List.length_append, List.length_singleton]
        omega
      rw [next] at later
      obtain ⟨before, back, whole, same⟩ := ih later
      refine ⟨before, back, ?_, same⟩
      rw [Text.join_cons _ _ some, ← whole]
      simp only [List.append_assoc]

theorem closings_cons (column : Nat) (first : Text) {rest : List Text} (some : rest ≠ []) :
    closings column (first :: rest) =
      (column + first.length) :: closings (column + first.length + 1) rest := by
  obtain ⟨next, rest, rfl⟩ := List.exists_cons_of_ne_nil some
  rfl

/-- Behind a pipe, each field but the last one is between the pipe in front of it and the one behind
it. -/
theorem zip_closings (pipe : Nat) (texts : List Text) :
    (pipe :: closings (pipe + 1) texts).zip (closings (pipe + 1) texts) =
      (placed (pipe + 1) texts).dropLast.map fun field =>
        (field.1 - 1, field.1 + field.2.length) := by
  induction texts generalizing pipe with
  | nil => rfl
  | cons first rest ih =>
    cases rest with
    | nil => rfl
    | cons next rest =>
      have later := ih (pipe + 1 + first.length)
      rw [closings_cons _ _ (List.cons_ne_nil _ _), List.zip_cons_cons, later]
      rfl

/-- The cells of a row are its fields between pipes. -/
theorem bounds_eq (line : Text) :
    bounds line = (placed 1 (fields line)).tail.dropLast.map fun field =>
      (field.1 - 1, field.1 + field.2.length) := by
  obtain ⟨first, rest, some⟩ := List.exists_cons_of_ne_nil (fields_ne_nil line)
  rw [bounds, pipes_eq, some]
  cases rest with
  | nil => rfl
  | cons next rest =>
    rw [closings_cons _ _ (List.cons_ne_nil _ _), List.tail_cons, zip_closings]
    rfl

theorem split_eq (line : Text) :
    split line = (placed 1 (fields line)).tail.dropLast.map fun field =>
      ofRun (Glyph.read field.1 field.2) := by
  rw [split, runs_read, ← List.map_tail, ← List.map_dropLast, List.map_map]
  rfl

/-! ### The cell of a field -/

theorem value_ofRun_read (column : Nat) (field : Text) :
    (ofRun (Glyph.read column field)).value = unescape (Text.trim field) := by
  rw [value_ofRun_eq, Glyph.map_snd_read, Glyph.strip_signs, Glyph.map_value_signs]

/-- A blank field has its cell where it begins. -/
theorem ofRun_read_blank {c : Char} {rest : Text} (blank : Text.IsBlank (c :: rest))
    (column : Nat) : ofRun (Glyph.read column (c :: rest)) = ⟨column, []⟩ := by
  have nothing : trimRun (Glyph.read column (c :: rest)) = [] :=
    strip_eq_nil_iff.mpr (Glyph.isBlank_of_mem_read blank column)
  have first := Glyph.read_blank (List.forall_mem_cons.mp blank).1 column rest
  rw [ofRun, nothing, first]
  rfl

/-- A cell has the column of the first character of its field that is no blank. -/
theorem column_ofRun_read {front rest : Text} {c : Char} (blank : Text.IsBlank front)
    (solid : Text.isBlank c = false) (column : Nat) :
    (ofRun (Glyph.read column (front ++ c :: rest))).column = column + front.length := by
  obtain ⟨sign, more, first, stays⟩ :=
    Glyph.exists_read_cons solid (column + front.length) rest
  have gone := Glyph.isBlank_of_mem_read blank column
  have kept : (trimRun (Glyph.read column (front ++ c :: rest))).head? =
      some (column + front.length, sign) := by
    rw [Glyph.read_append_left blank, first]
    have stripped := @strip_append_append _ _ _ [] ((column + front.length, sign) :: more) gone
      (by simp)
    rw [List.append_nil] at stripped
    refine (congrArg List.head? stripped).trans ?_
    exact @head?_strip_cons _ (fun sign => sign.2.isBlank) (column + front.length, sign) stays more
  rw [ofRun, kept]
  rfl

/-! ### The cells of a line -/

/-- A cell stands between the pipes of its row. Only blanks are in front of a value that is not
empty, and the first character at its column begins it. -/
structure IsPlaced (line : Text) (between : Nat × Nat) (cell : Cell) : Prop where
  behind : between.1 < cell.column
  within : cell.column ≤ between.2
  begins : cell.value ≠ [] → Text.IsBlank (slice line (between.1 + 1) cell.column) ∧
    ∃ c rest, slice line cell.column between.2 = c :: rest ∧ Text.isBlank c = false ∧
      cell.value = unescape (Text.trimEnd (c :: rest))

/-- The columns of the cells of a line increase, and all of them are places where the cells
stand. -/
structure IsMeasured (line : Text) : Prop where
  increasing : ((split line).map column).Pairwise (· < ·)
  placed : List.Forall₂ (IsPlaced line) (bounds line) (split line)

/-- A field that is not empty holds its cell. -/
theorem isPlaced_ofRun {line before field back : Text} (written : field ≠ [])
    (whole : line = before ++ field ++ back) :
    IsPlaced line (before.length, before.length + 1 + field.length)
      (ofRun (Glyph.read (before.length + 1) field)) := by
  -- A blank field has no character to begin with, so its cell stays where the field begins.
  by_cases blank : Text.IsBlank field
  · obtain ⟨c, rest, rfl⟩ := List.exists_cons_of_ne_nil written
    rw [ofRun_read_blank blank]
    exact ⟨Nat.lt_succ_self _, Nat.le_add_right .., fun some => absurd rfl some⟩
  · obtain ⟨front, c, rest, rfl, ahead, solid, -⟩ := Text.exists_indent_append blank
    have column : (ofRun (Glyph.read (before.length + 1) (front ++ c :: rest))).column =
        before.length + 1 + front.length := column_ofRun_read ahead solid _
    have value : Text.trim (front ++ c :: rest) = Text.trimEnd (c :: rest) := by
      rw [Text.trim_append_left _ ahead, Text.trim, Text.trimStart,
        List.dropWhile_cons_of_neg (by simp [solid])]
    refine ⟨?_, ?_, fun _ => ⟨?_, c, rest, ?_, solid, ?_⟩⟩
    · rw [column]
      omega
    · rw [column, List.length_append, List.length_cons]
      omega
    · have here := slice_append before front (c :: rest ++ back)
      rw [← List.append_assoc, List.append_assoc before, ← whole, ← column] at here
      rwa [here]
    · have here := slice_append (before ++ front) (c :: rest) back
      rw [List.append_assoc before, ← whole] at here
      have start : (before ++ front).length + 1 = before.length + 1 + front.length := by
        rw [List.length_append]
        omega
      rw [column, List.length_append, ← Nat.add_assoc]
      rwa [start] at here
    · rw [value_ofRun_read, value]

/-- The cells that the emitted object of a row reports, by their columns. -/
def reportedColumns (row : Json) : List (Option Nat) :=
  (row.itemsAt "cells").map fun cell =>
    ((cell.get? "location").bind (Json.get? "column")).bind Json.asNatural?

theorem reportedColumns_result (family : Family) (row : Document.Row) (number : Nat) :
    reportedColumns (row.result family number).1 = row.cells.map fun cell => some cell.column := by
  have yields : Document.Numbered.Yields (row.result family) fun node =>
      reportedColumns node = row.cells.map fun cell => some cell.column := by
    refine Document.Numbered.Yields.complete fun number => ?_
    simp [reportedColumns, Document.cellResult, Json.asNatural?, Json.natural]
  exact yields number

theorem le_of_mem_pipes {column pipe : Nat} {t : Text} (member : pipe ∈ pipes column t) :
    column ≤ pipe := by
  fun_induction pipes column t with
  | case1 => cases member
  | case2 column c t ih => exact (Nat.le_add_right ..).trans (ih member)
  | case3 column t ih =>
    rcases List.mem_cons.mp member with rfl | later
    · exact Nat.le_refl _
    · exact (Nat.le_succ _).trans (ih later)
  | case4 column c t _ _ ih => exact (Nat.le_succ _).trans (ih member)

/-- Columns between pipes that follow each other increase. -/
theorem increasing_of_between {pipes : List Nat} {cells : List Cell}
    (between : List.Forall₂ (fun (pair : Nat × Nat) cell =>
      pair.1 < cell.column ∧ cell.column ≤ pair.2) (pipes.zip pipes.tail) cells) :
    (∀ pipe ∈ pipes.head?, ∀ cell ∈ cells, pipe < cell.column) ∧
      (cells.map column).Pairwise (· < ·) := by
  induction pipes generalizing cells with
  | nil =>
    cases between
    exact ⟨nofun, .nil⟩
  | cons pipe rest ih =>
    cases rest with
    | nil =>
      cases between
      exact ⟨fun _ _ => nofun, .nil⟩
    | cons next rest =>
      cases between with
      | cons here later =>
        obtain ⟨behind, increasing⟩ := ih later
        have above := behind next rfl
        refine ⟨?_, List.pairwise_cons.mpr ⟨?_, increasing⟩⟩
        · rintro _ ⟨⟩ cell member
          rcases List.mem_cons.mp member with rfl | later
          · exact here.1
          · exact (here.1.trans_le here.2).trans (above cell later)
        · intro column member
          obtain ⟨cell, later, rfl⟩ := List.mem_map.mp member
          exact here.2.trans_lt (above cell later)

/-- The cells of a line with the pipes around them, from the fields they are read from. -/
theorem forall₂_bounds_split {line : Text} {related : Nat × Nat → Cell → Prop}
    (each : ∀ before field back, line = before ++ field ++ back →
      related (before.length, before.length + 1 + field.length)
        (ofRun (Glyph.read (before.length + 1) field))) :
    List.Forall₂ related (bounds line) (split line) := by
  rw [bounds_eq, split_eq, List.forall₂_map_left_iff, List.forall₂_map_right_iff,
    List.forall₂_same]
  rintro ⟨column, field⟩ member
  have inside := List.mem_of_mem_tail (List.dropLast_subset _ member)
  obtain ⟨before, back, whole, rfl⟩ := @exists_append_of_mem_placed [] _ _ _ inside
  rw [List.nil_append, join_fields] at whole
  exact each before field back whole

/-- Every cell is placed between its pipes, but for those that have no character between them. -/
theorem forall₂_isPlaced (line : Text) :
    List.Forall₂ (fun between cell =>
      if between.2 = between.1 + 1 then cell = ⟨1, []⟩ else IsPlaced line between cell)
      (bounds line) (split line) := by
  refine forall₂_bounds_split fun before field back whole => ?_
  split
  · next adjacent =>
    have empty : field = [] := List.length_eq_zero_iff.mp (by simpa using adjacent)
    rw [empty]
    rfl
  · next apart =>
    refine isPlaced_ofRun ?_ whole
    rintro rfl
    exact apart rfl

theorem isMeasured_iff (line : Text) :
    IsMeasured line ↔ ∀ between ∈ bounds line, between.2 ≠ between.1 + 1 := by
  have cells := forall₂_isPlaced line
  constructor
  · -- Between pipes that stand side by side no column is left, and none is in front of the line.
    intro measured between member adjacent
    rw [← List.map_fst_zip (Nat.le_of_eq cells.length_eq)] at member
    obtain ⟨⟨_, cell⟩, pair, rfl⟩ := List.mem_map.mp member
    have here := List.forall₂_zip cells pair
    rw [if_pos adjacent] at here
    have behind := (List.forall₂_zip measured.placed pair).behind
    rw [here] at behind
    have first := le_of_mem_pipes (List.of_mem_zip (List.of_mem_zip pair).1).1
    exact absurd behind (Nat.not_lt.mpr first)
  · intro apart
    have placed : List.Forall₂ (IsPlaced line) (bounds line) (split line) := by
      refine List.forall₂_iff_zip.mpr ⟨cells.length_eq, fun pair => ?_⟩
      have here := List.forall₂_zip cells pair
      rwa [if_neg (apart _ (List.of_mem_zip pair).1)] at here
    have between := placed.imp fun _ _ here => And.intro here.behind here.within
    exact ⟨(increasing_of_between between).2, placed⟩

/-- The columns that are reported for the cells of a row are those the row is read with. A cell
between two pipes with something between them has the column of the first character of its value, or
a column between the pipes if its value is empty. A cell between two pipes side by side has
column 1, wherever the pipes are. So all columns are places of the cells, and increase, if and only
if no two pipes stand side by side. -/
theorem columns_exact (line : Text) :
    (∀ family place number,
      reportedColumns (Document.Row.result family ⟨place, split line⟩ number).1 =
        (split line).map fun cell => some cell.column) ∧
    List.Forall₂ (fun between cell =>
      if between.2 = between.1 + 1 then cell = ⟨1, []⟩ else IsPlaced line between cell)
      (bounds line) (split line) ∧
    (IsMeasured line ↔ ∀ between ∈ bounds line, between.2 ≠ between.1 + 1) :=
  ⟨fun _ _ _ => reportedColumns_result .., forall₂_isPlaced line, isMeasured_iff line⟩

/-- A row that ends with two pipes side by side. -/
theorem not_isMeasured_sidePipes : ¬ IsMeasured (Text.word "| a ||") := by
  rintro ⟨increasing, -⟩
  exact absurd increasing (by decide)

end Cell

end Gherkin
