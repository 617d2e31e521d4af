import Gherkin.Proofs.Line.Cells

/-!
# Rows by their fields

The values of a row can be read in three steps that know nothing of each other: the line is
taken apart at the pipes that are not escaped, each field loses the blanks at its ends, and its
escapes give way to the characters they stand for. The signs of a line lead to the same values.
So escaping a value is undone whatever blanks are written around it.
-/

namespace Gherkin

namespace Cell

/-- The texts between the pipes of a line that are not escaped, one more than there are such
pipes. A backslash escapes the character behind it. -/
def fields : Text → List Text
  | [] => [[]]
  | '\\' :: c :: t => (fields t).modifyHead fun field => '\\' :: c :: field
  | '|' :: t => [] :: fields t
  | c :: t => (fields t).modifyHead fun field => c :: field

/-- A text with the characters that its escapes stand for; any other backslash stays. -/
def unescape : Text → Text
  | [] => []
  | '\\' :: '|' :: t => '|' :: unescape t
  | '\\' :: '\\' :: t => '\\' :: unescape t
  | '\\' :: 'n' :: t => '\n' :: unescape t
  | c :: t => c :: unescape t

/-- A backslash with no character behind it ends the line. -/
theorem eq_nil_of_loneBackslash {c : Char} {t : Text} (slash : c = '\\')
    (alone : ∀ d rest, c = '\\' → t = d :: rest → False) : t = [] := by
  cases t with
  | nil => rfl
  | cons d t => exact (alone d t slash rfl).elim

/-- The values of a row: its fields but for what stands before the first pipe and behind the
last one, without the blanks around them and with their escapes replaced. -/
def readFields (line : Text) : List Text :=
  (fields line).tail.dropLast.map fun field => unescape (Text.trim field)

end Cell

attribute [local simp] Cell.fields Cell.unescape

namespace Glyph

/-! ## Signs without their columns -/

/-- The signs of a text. -/
def signs (t : Text) : List Glyph := (read 1 t).map Prod.snd

/-- The signs of a text do not depend on the column it begins at. -/
theorem map_snd_read (column : Nat) (t : Text) : (read column t).map Prod.snd = signs t := by
  have same (other : Nat) : (read column t).map Prod.snd = (read other t).map Prod.snd := by
    fun_induction read column t generalizing other with
    | case1 => rfl
    | case2 column t ih | case3 column t ih | case4 column t ih | case5 column t ih =>
        simp only [read, List.map_cons]
        exact congrArg _ (ih _)
    | case6 column c t pipe slash newline separates ih =>
        rw [read, List.map_cons, List.map_cons, ih (other + 1)]
        all_goals assumption
  exact same 1

@[simp]
theorem signs_nil : signs [] = [] := rfl

@[simp]
theorem signs_pipe (t : Text) : signs ('|' :: t) = .pipe :: signs t := by
  rw [signs, read_pipe, List.map_cons, map_snd_read]

theorem signs_plain {c : Char} (t : Text) (slash : c ≠ '\\') (pipe : c ≠ '|') :
    signs (c :: t) = .plain c :: signs t := by
  rw [signs, read_plain 1 t slash pipe, List.map_cons, map_snd_read]

/-- A character has an escape of its own. -/
def IsEscapable (c : Char) : Prop := c = '|' ∨ c = '\\' ∨ c = 'n'

instance (c : Char) : Decidable (IsEscapable c) := inferInstanceAs (Decidable (_ ∨ _ ∨ _))

/-- An escape is read as one sign, and the character it stands for takes its place. -/
theorem exists_read_escape {c : Char} (escapable : IsEscapable c) :
    ∃ meant, ∀ column t,
      read column ('\\' :: c :: t) = (column, .escaped meant) :: read (column + 2) t ∧
        Cell.unescape ('\\' :: c :: t) = meant :: Cell.unescape t := by
  rcases escapable with rfl | rfl | rfl
  · exact ⟨'|', fun _ _ => ⟨rfl, rfl⟩⟩
  · exact ⟨'\\', fun _ _ => ⟨rfl, rfl⟩⟩
  · exact ⟨'\n', fun _ _ => ⟨rfl, rfl⟩⟩

theorem exists_signs_escape {c : Char} (escapable : IsEscapable c) :
    ∃ meant, ∀ t, signs ('\\' :: c :: t) = .escaped meant :: signs t ∧
      Cell.unescape ('\\' :: c :: t) = meant :: Cell.unescape t := by
  obtain ⟨meant, same⟩ := exists_read_escape escapable
  refine ⟨meant, fun t => ⟨?_, (same 1 t).2⟩⟩
  rw [signs, (same 1 t).1, List.map_cons, map_snd_read]

/-- A character does not begin an escape in front of a text. -/
def StandsAlone (c : Char) (t : Text) : Prop := c = '\\' → ∀ d ∈ t.head?, ¬ IsEscapable d

/-- The sign of a character that does not begin an escape. -/
def ofWritten (c : Char) : Glyph := if c = '|' then .pipe else .plain c

@[simp]
theorem value_ofWritten (c : Char) : (ofWritten c).value = c := by
  unfold ofWritten
  split
  · next pipe => exact pipe.symm
  · rfl

@[simp]
theorem isBlank_ofWritten (c : Char) : (ofWritten c).isBlank = Text.isBlank c := by
  unfold ofWritten
  split
  · next pipe => rw [pipe]; rfl
  · rfl

theorem signs_cons {c : Char} {t : Text} (alone : StandsAlone c t) :
    signs (c :: t) = ofWritten c :: signs t := by
  by_cases pipe : c = '|'
  · subst pipe
    rw [signs_pipe]
    rfl
  · rw [ofWritten, if_neg pipe]
    by_cases slash : c = '\\'
    · subst slash
      cases t with
      | nil => rfl
      | cons d t =>
          obtain ⟨pipe, slash, newline⟩ : d ≠ '|' ∧ d ≠ '\\' ∧ d ≠ 'n' := by
            simpa [IsEscapable] using alone rfl d rfl
          rw [signs, read, List.map_cons, map_snd_read]
          all_goals simp [pipe, slash, newline]
    · exact signs_plain t slash pipe

theorem unescape_cons {c : Char} {t : Text} (alone : StandsAlone c t) :
    Cell.unescape (c :: t) = c :: Cell.unescape t := by
  rw [Cell.unescape]
  all_goals
    rintro rest rfl rfl
    exact alone rfl _ rfl (by decide)

/-- Induction over a text by its signs: an escape, or a character that does not begin one. -/
theorem sign_induction {motive : Text → Prop} (nil : motive [])
    (escape : ∀ c t, IsEscapable c → motive t → motive ('\\' :: c :: t))
    (cons : ∀ c t, StandsAlone c t → motive t → motive (c :: t)) : (t : Text) → motive t
  | [] => nil
  | [c] => cons c [] (by simp [StandsAlone]) nil
  | c :: d :: t =>
    if begins : c = '\\' ∧ IsEscapable d then
      begins.1 ▸ escape d t begins.2 (sign_induction nil escape cons t)
    else
      cons c (d :: t) (by rintro rfl _ ⟨⟩; exact fun escapable => begins ⟨rfl, escapable⟩)
        (sign_induction nil escape cons (d :: t))

theorem map_value_signs (t : Text) : (signs t).map value = Cell.unescape t := by
  induction t using sign_induction with
  | nil => rfl
  | escape c t escapable ih =>
      obtain ⟨meant, same⟩ := exists_signs_escape escapable
      rw [(same t).1, (same t).2, List.map_cons, ih]
      rfl
  | cons c t alone ih =>
      rw [signs_cons alone, unescape_cons alone, List.map_cons, value_ofWritten, ih]

/-! ## Blanks around signs -/

theorem not_isEscapable_of_isBlank {c : Char} (blank : Text.isBlank c = true) :
    ¬ IsEscapable c := by
  rintro (rfl | rfl | rfl) <;> exact absurd blank (by decide)

theorem standsAlone_of_isBlank {c : Char} (blank : Text.isBlank c = true) (t : Text) :
    StandsAlone c t := by
  rintro rfl
  exact absurd (.inr (.inl rfl)) (not_isEscapable_of_isBlank blank)

theorem read_blank {c : Char} (blank : Text.isBlank c = true) (column : Nat) (t : Text) :
    read column (c :: t) = (column, .plain c) :: read (column + 1) t := by
  apply read_plain
  · rintro rfl
    exact absurd blank (by decide)
  · rintro rfl
    exact absurd blank (by decide)

theorem read_append_left {front : Text} (blank : Text.IsBlank front) (column : Nat) (t : Text) :
    read column (front ++ t) = read column front ++ read (column + front.length) t := by
  induction front generalizing column with
  | nil => rfl
  | cons c front ih =>
    obtain ⟨here, later⟩ := List.forall_mem_cons.mp blank
    rw [List.cons_append, read_blank here, read_blank here, ih later, List.length_cons,
      Nat.add_assoc, Nat.add_comm 1, List.cons_append]

theorem signs_append_left {front : Text} (blank : Text.IsBlank front) (t : Text) :
    signs (front ++ t) = signs front ++ signs t := by
  rw [signs, read_append_left blank, List.map_append, map_snd_read, map_snd_read]

/-- Blanks at the end of a text belong to no escape. -/
theorem signs_append_right {back : Text} (blank : Text.IsBlank back) (t : Text) :
    signs (t ++ back) = signs t ++ signs back := by
  induction t using sign_induction with
  | nil => rfl
  | escape c t escapable ih =>
      obtain ⟨meant, same⟩ := exists_signs_escape escapable
      rw [List.cons_append, List.cons_append, (same _).1, (same t).1, ih, List.cons_append]
  | cons c t alone ih =>
      have still : StandsAlone c (t ++ back) := by
        intro slash d first
        cases t with
        | nil => exact not_isEscapable_of_isBlank (blank d (List.mem_of_head? first))
        | cons e t => exact alone slash d first
      rw [List.cons_append, signs_cons still, signs_cons alone, ih, List.cons_append]

theorem isBlank_of_mem_signs {t : Text} (blank : Text.IsBlank t) :
    ∀ sign ∈ signs t, sign.isBlank = true := by
  induction t with
  | nil => simp
  | cons c t ih =>
      obtain ⟨here, later⟩ := List.forall_mem_cons.mp blank
      rw [signs_cons (standsAlone_of_isBlank here t)]
      exact List.forall_mem_cons.mpr ⟨(isBlank_ofWritten c).trans here, ih later⟩

/-- The last character of a text is part of a sign that is no blank unless the character is. -/
theorem exists_last_signs {t : Text} {c : Char} (last : t.getLast? = some c) :
    ∃ sign, (signs t).getLast? = some sign ∧ (sign.isBlank = true → Text.isBlank c = true) := by
  induction t using sign_induction with
  | nil => cases last
  | escape d t escapable ih =>
      obtain ⟨meant, same⟩ := exists_signs_escape escapable
      rw [(same t).1]
      by_cases ends : t = []
      · subst ends
        exact ⟨_, rfl, nofun⟩
      · rw [List.getLast?_cons_cons, List.getLast?_cons_of_ne_nil ends] at last
        obtain ⟨sign, found, blank⟩ := ih last
        exact ⟨sign, by rw [List.getLast?_cons, found, Option.getD_some], blank⟩
  | cons d t alone ih =>
      rw [signs_cons alone]
      by_cases ends : t = []
      · subst ends
        cases last
        exact ⟨_, rfl, by simp⟩
      · rw [List.getLast?_cons_of_ne_nil ends] at last
        obtain ⟨sign, found, blank⟩ := ih last
        exact ⟨sign, by rw [List.getLast?_cons, found, Option.getD_some], blank⟩

/-- The signs of a text without blanks at its ends have none there either. -/
theorem isStripped_signs {t : Text} (trimmed : Text.IsTrimmed t) :
    IsStripped isBlank (signs t) := by
  constructor
  · intro sign first
    cases t using sign_induction with
    | nil => cases first
    | escape c t escapable =>
        obtain ⟨meant, same⟩ := exists_signs_escape escapable
        rw [(same t).1] at first
        cases first
        rfl
    | cons c t alone =>
        rw [signs_cons alone] at first
        cases first
        rw [isBlank_ofWritten]
        exact trimmed.1 c rfl
  · intro sign last
    cases ends : t.getLast? with
    | none =>
        rw [List.getLast?_eq_none_iff.mp ends] at last
        cases last
    | some c =>
        obtain ⟨other, found, blank⟩ := exists_last_signs ends
        cases found.symm.trans last
        have solid := trimmed.2 c ends
        exact Bool.eq_false_iff.mpr fun isBlank => by rw [blank isBlank] at solid; cases solid

/-- Taking the blanks off a text takes them off its signs. -/
theorem strip_signs (t : Text) : strip isBlank (signs t) = signs (Text.trim t) := by
  obtain ⟨front, back, whole, before, behind, trimmed⟩ :=
    exists_append_strip_append Text.isBlank t
  conv_lhs => rw [whole, signs_append_right behind, signs_append_left before]
  exact strip_eq_of_append (isBlank_of_mem_signs before) (isBlank_of_mem_signs behind)
    (isStripped_signs trimmed)

/-! ## Signs by their fields -/

theorem map_modifyHead {α β : Type} {f : α → β} {g : α → α} {h : β → β} {l : List α}
    (commutes : ∀ a, f (g a) = h (f a)) : (l.modifyHead g).map f = (l.map f).modifyHead h := by
  cases l <;> simp [commutes]

theorem runs_ne_nil (glyphs : List (Nat × Glyph)) : runs glyphs ≠ [] := by
  cases glyphs with
  | nil => simp [runs]
  | cons glyph rest =>
      rw [runs]
      split
      · exact List.cons_ne_nil _ _
      · split <;> exact List.cons_ne_nil _ _

theorem map_snd_runs (glyphs : List (Nat × Glyph)) :
    (runs glyphs).map (List.map Prod.snd) = (glyphs.map Prod.snd).splitOnP (· == .pipe) := by
  induction glyphs with
  | nil => rfl
  | cons glyph rest ih =>
      rw [List.map_cons, List.splitOnP_cons_eq_if_modifyHead, ← ih]
      conv_lhs => rw [runs]
      by_cases pipe : glyph.2 = .pipe
      · simp [pipe]
      · rw [if_neg pipe, if_neg (by simpa using pipe)]
        obtain ⟨run, others, some⟩ := List.exists_cons_of_ne_nil (runs_ne_nil rest)
        rw [some]
        rfl

/-- The signs between pipes are those of the fields. -/
theorem splitOnP_signs (t : Text) :
    (signs t).splitOnP (· == .pipe) = (Cell.fields t).map signs := by
  fun_induction Cell.fields t with
  | case1 => rfl
  | case2 c t ih =>
      by_cases escapable : IsEscapable c
      · obtain ⟨meant, same⟩ := exists_signs_escape escapable
        rw [(same t).1, List.splitOnP_cons_eq_if_modifyHead, if_neg (by simp), ih]
        exact (map_modifyHead fun field => (same field).1).symm
      · have alone (t : Text) : StandsAlone '\\' (c :: t) := by
          rintro - d ⟨⟩
          exact escapable
        obtain ⟨pipe, slash, -⟩ : c ≠ '|' ∧ c ≠ '\\' ∧ c ≠ 'n' := by
          simpa [IsEscapable] using escapable
        have same (t : Text) : signs ('\\' :: c :: t) = .plain '\\' :: .plain c :: signs t := by
          rw [signs_cons (alone t), signs_plain t slash pipe]
          rfl
        rw [same t, List.splitOnP_cons_eq_if_modifyHead, List.splitOnP_cons_eq_if_modifyHead,
          if_neg (by simp), if_neg (by simp), ih, List.modifyHead_modifyHead]
        exact (map_modifyHead same).symm
  | case3 t ih =>
      rw [signs_pipe, List.splitOnP_cons_eq_if_modifyHead, if_pos (by simp), ih]
      rfl
  | case4 c t notPair notPipe ih =>
      by_cases slash : c = '\\'
      · obtain rfl := Cell.eq_nil_of_loneBackslash slash notPair
        subst slash
        rfl
      · have same (t : Text) : signs (c :: t) = .plain c :: signs t := signs_plain t slash notPipe
        rw [same t, List.splitOnP_cons_eq_if_modifyHead, if_neg (by simp), ih]
        exact (map_modifyHead same).symm

end Glyph

namespace Cell

/-! ## The values of a row -/

theorem value_ofRun_eq (run : List (Nat × Glyph)) :
    (ofRun run).value = (strip Glyph.isBlank (run.map Prod.snd)).map Glyph.value := by
  rw [strip_map, List.map_map]
  rfl

/-- The values of a row are those its fields hold. -/
theorem values_split (line : Text) : (split line).map value = readFields line := by
  have values (run : List (Nat × Glyph)) : (value ∘ ofRun) run =
      ((fun signs => (strip Glyph.isBlank signs).map Glyph.value) ∘ List.map Prod.snd) run :=
    value_ofRun_eq run
  have signs : (Glyph.runs (Glyph.read 1 line)).map (List.map Prod.snd) =
      (fields line).map Glyph.signs := by
    rw [Glyph.map_snd_runs]
    exact Glyph.splitOnP_signs line
  rw [split, readFields, List.map_map, List.map_congr_left fun run _ => values run, ← List.map_map,
    List.map_dropLast, List.map_tail, signs, ← List.map_tail, ← List.map_dropLast, List.map_map]
  refine List.map_congr_left fun field _ => ?_
  rw [← Glyph.map_value_signs, ← Glyph.strip_signs]
  rfl

theorem length_split (line : Text) :
    (split line).length = (fields line).tail.dropLast.length := by
  rw [← List.length_map value, values_split, readFields, List.length_map]

/-! ## Escaped values between blanks -/

theorem unescape_escape (value : Text) : unescape (escape value) = value := by
  induction value with
  | nil => rfl
  | cons c value ih =>
      have here (t : Text) : unescape (escapeChar c ++ t) = c :: unescape t := by
        unfold escapeChar
        by_cases slash : c = '\\'
        · rw [slash]
          simp
        by_cases pipe : c = '|'
        · rw [pipe]
          simp
        by_cases newline : c = '\n'
        · rw [newline]
          simp
        · rw [if_neg slash, if_neg pipe, if_neg newline, List.singleton_append]
          exact Glyph.unescape_cons fun begins => absurd begins slash
      rw [escape_cons, here, ih]

/-- A text stays in one piece where it begins a line: none of its pipes separates fields, and it
does not end within an escape. -/
def IsUnparted (front : Text) : Prop :=
  ∀ t, fields (front ++ t) = (fields t).modifyHead (front ++ ·)

theorem isUnparted_nil : IsUnparted [] := fun _ => (congrFun List.modifyHead_id _).symm

theorem IsUnparted.append {front back : Text} (before : IsUnparted front)
    (behind : IsUnparted back) : IsUnparted (front ++ back) := by
  intro t
  have whole : (front ++ ·) ∘ (back ++ ·) = (front ++ back ++ ·) :=
    funext fun field => (List.append_assoc front back field).symm
  rw [List.append_assoc, before, behind, List.modifyHead_modifyHead, whole]

theorem isUnparted_singleton {c : Char} (slash : c ≠ '\\') (pipe : c ≠ '|') : IsUnparted [c] := by
  intro t
  simp [slash]

theorem isUnparted_plain {t : Text} (slash : '\\' ∉ t) (pipe : '|' ∉ t) : IsUnparted t := by
  induction t with
  | nil => exact isUnparted_nil
  | cons c t ih =>
      rw [List.mem_cons, not_or] at slash pipe
      exact (isUnparted_singleton (Ne.symm slash.1) (Ne.symm pipe.1)).append (ih slash.2 pipe.2)

theorem isUnparted_blank {t : Text} (blank : Text.IsBlank t) : IsUnparted t :=
  isUnparted_plain (Text.not_mem_of_isBlank blank rfl) (Text.not_mem_of_isBlank blank rfl)

theorem isUnparted_escapeChar (c : Char) : IsUnparted (escapeChar c) := by
  unfold escapeChar
  by_cases slash : c = '\\'
  · rw [if_pos slash]
    exact fun _ => rfl
  by_cases pipe : c = '|'
  · rw [if_neg slash, if_pos pipe]
    exact fun _ => rfl
  by_cases newline : c = '\n'
  · rw [if_neg slash, if_neg pipe, if_pos newline]
    exact fun _ => rfl
  · rw [if_neg slash, if_neg pipe, if_neg newline]
    exact isUnparted_singleton slash pipe

theorem isUnparted_escape (value : Text) : IsUnparted (escape value) := by
  induction value with
  | nil => exact isUnparted_nil
  | cons c value ih =>
      rw [escape_cons]
      exact (isUnparted_escapeChar c).append ih

/-- Every line has a field. -/
theorem fields_ne_nil (t : Text) : fields t ≠ [] := by
  intro none
  have signs := Glyph.splitOnP_signs t
  rw [none, List.map_nil] at signs
  exact List.splitOnP_ne_nil _ _ signs

/-- Blanks at the end of a line change nothing but what stands behind its last pipe. -/
theorem exists_fields_append {back : Text} (blank : Text.IsBlank back) (t : Text) :
    ∃ last, fields (t ++ back) = (fields t).dropLast ++ [last] := by
  have head (f : Text → Text) {before : List Text} (filled : before ≠ []) (last : Text) :
      ∃ last', (before.dropLast ++ [last]).modifyHead f =
        (before.modifyHead f).dropLast ++ [last'] := by
    obtain ⟨first, rest, rfl⟩ := List.exists_cons_of_ne_nil filled
    cases rest with
    | nil => exact ⟨f last, rfl⟩
    | cons next rest => exact ⟨last, rfl⟩
  fun_induction fields t with
  | case1 => exact ⟨back, by simpa using isUnparted_blank blank []⟩
  | case2 c t ih =>
      obtain ⟨last, same⟩ := ih
      rw [List.cons_append, List.cons_append, fields, same]
      exact head _ (fields_ne_nil t) last
  | case3 t ih =>
      obtain ⟨last, same⟩ := ih
      refine ⟨last, ?_⟩
      rw [List.cons_append, fields, same, List.dropLast_cons_of_ne_nil (fields_ne_nil t),
        List.cons_append]
  | case4 c t notPair notPipe ih =>
      by_cases slash : c = '\\'
      · -- A backslash at the end of the line has blanks behind it now.
        obtain rfl := eq_nil_of_loneBackslash slash notPair
        subst slash
        cases back with
        | nil => exact ⟨['\\'], rfl⟩
        | cons b back =>
            have alone := isUnparted_blank (List.forall_mem_cons.mp blank).2 []
            rw [List.append_nil] at alone
            exact ⟨'\\' :: b :: back, by simp [alone]⟩
      · obtain ⟨last, same⟩ := ih
        have plain (t : Text) : fields (c :: t) = (fields t).modifyHead (c :: ·) :=
          isUnparted_singleton slash notPipe t
        rw [List.cons_append, plain, same]
        exact head _ (fields_ne_nil t) last

/-- Blanks at the end of a row are no part of its values. -/
theorem values_split_trimEnd (line : Text) :
    (split (Text.trimEnd line)).map value = (split line).map value := by
  obtain ⟨back, blank, whole, _⟩ := Text.exists_trimEnd_append line
  obtain ⟨last, same⟩ := exists_fields_append blank (Text.trimEnd line)
  have inner (fields : List Text) :
      (fields.dropLast ++ [last]).tail.dropLast = fields.tail.dropLast := by
    cases fields with
    | nil => rfl
    | cons first rest =>
        cases rest with
        | nil => rfl
        | cons next rest => simp
  conv_rhs => rw [whole, values_split, readFields, same, inner]
  rw [values_split, readFields]

/-- What is written for a character begins and ends with a blank only if the character is a
blank other than a newline. -/
theorem isTrimmed_escapeChar {c : Char} (solid : (Text.isBlank c && c != '\n') = false) :
    Text.IsTrimmed (escapeChar c) := by
  unfold escapeChar
  by_cases slash : c = '\\'
  · rw [if_pos slash]
    decide
  by_cases pipe : c = '|'
  · rw [if_neg slash, if_pos pipe]
    decide
  by_cases newline : c = '\n'
  · rw [if_neg slash, if_neg pipe, if_pos newline]
    decide
  · rw [if_neg slash, if_neg pipe, if_neg newline]
    have plain : Text.isBlank c = false := by simpa [newline] using solid
    exact ⟨by simpa using plain, by simpa using plain⟩

theorem escapeChar_ne_nil (c : Char) : escapeChar c ≠ [] := by
  unfold escapeChar
  split
  · exact List.cons_ne_nil _ _
  · split
    · exact List.cons_ne_nil _ _
    · split <;> exact List.cons_ne_nil _ _

/-- What is written for the value of a cell has no blanks at its ends. -/
theorem isTrimmed_escape {value : Text} (stripped : IsCellValue value) :
    Text.IsTrimmed (escape value) := by
  constructor
  · intro d first
    cases value with
    | nil => cases first
    | cons c value =>
        rw [escape_cons, List.head?_append_of_ne_nil _ (escapeChar_ne_nil c)] at first
        exact (isTrimmed_escapeChar (stripped.1 c rfl)).1 d first
  · intro d last
    rcases List.eq_nil_or_concat value with rfl | ⟨front, c, rfl⟩
    · cases last
    · have whole : escape (front.concat c) = escape front ++ escapeChar c := by
        simp [escape]
      rw [whole, List.getLast?_append_of_ne_nil _ (escapeChar_ne_nil c)] at last
      exact (isTrimmed_escapeChar (stripped.2 c (by simp))).2 d last

/-- A value of a row and the blanks written around it. -/
structure Padded where
  before : Text
  value : Text
  behind : Text

namespace Padded

/-- The field that a value is written in. -/
def text (cell : Padded) : Text := cell.before ++ escape cell.value ++ cell.behind

/-- Only blanks stand around a value, and these do not mix with blanks of its own. -/
structure IsLegal (cell : Padded) : Prop where
  before : Text.IsBlank cell.before
  behind : Text.IsBlank cell.behind
  value : IsCellValue cell.value

instance (cell : Padded) : Decidable cell.IsLegal :=
  decidable_of_iff (Text.IsBlank cell.before ∧ Text.IsBlank cell.behind ∧ IsCellValue cell.value)
    ⟨fun legal => ⟨legal.1, legal.2.1, legal.2.2⟩,
      fun legal => ⟨legal.before, legal.behind, legal.value⟩⟩

/-- The line with given fields between a front and a back. -/
def row (front : Text) (cells : List Padded) (back : Text) : Text :=
  front ++ '|' :: cells.flatMap (fun cell => cell.text ++ ['|']) ++ back

variable {cell : Padded} {front back : Text} {cells : List Padded}

theorem unescape_trim_text (legal : cell.IsLegal) :
    unescape (Text.trim cell.text) = cell.value := by
  have trimmed := isTrimmed_escape legal.value
  rw [text, Text.trim_append_append _ legal.before legal.behind, Text.trim_eq_self trimmed,
    unescape_escape]

theorem isUnparted_text (before : Text.IsBlank cell.before) (behind : Text.IsBlank cell.behind) :
    IsUnparted cell.text :=
  ((isUnparted_blank before).append (isUnparted_escape cell.value)).append
    (isUnparted_blank behind)

/-- A row has the fields it is written with. -/
theorem fields_row (unparted : ∀ cell ∈ cells, IsUnparted cell.text) (frontSlash : '\\' ∉ front)
    (frontPipe : '|' ∉ front) (backSlash : '\\' ∉ back) (backPipe : '|' ∉ back) :
    fields (row front cells back) = front :: (cells.map text ++ [back]) := by
  have later : fields (cells.flatMap (fun cell => cell.text ++ ['|']) ++ back) =
      cells.map text ++ [back] := by
    induction cells with
    | nil => simpa using isUnparted_plain backSlash backPipe []
    | cons cell cells ih =>
        obtain ⟨here, rest⟩ := List.forall_mem_cons.mp unparted
        rw [List.flatMap_cons, List.append_assoc, List.append_assoc, here,
          List.singleton_append, fields, ih rest]
        simp
  rw [row, List.append_assoc, isUnparted_plain frontSlash frontPipe, List.cons_append, fields,
    later]
  simp

theorem readFields_row (legal : ∀ cell ∈ cells, cell.IsLegal) (frontSlash : '\\' ∉ front)
    (frontPipe : '|' ∉ front) (backSlash : '\\' ∉ back) (backPipe : '|' ∉ back) :
    readFields (row front cells back) = cells.map Padded.value := by
  have unparted : ∀ cell ∈ cells, IsUnparted cell.text := fun cell member =>
    isUnparted_text (legal cell member).before (legal cell member).behind
  rw [readFields, fields_row unparted frontSlash frontPipe backSlash backPipe, List.tail_cons,
    List.dropLast_concat, List.map_map]
  exact List.map_congr_left fun cell member => unescape_trim_text (legal cell member)

end Padded

/-- Splitting a line is the reading by its fields, which undoes escaping: a row written with
escaped values gives these values back, whatever blanks stand around them and whatever text
without pipes and backslashes stands before the first pipe and behind the last one. -/
theorem split_inverts_escape :
    (∀ line, (split line).map value = readFields line) ∧
    ∀ (front : Text) (cells : List Padded) (back : Text), (∀ cell ∈ cells, cell.IsLegal) →
      '\\' ∉ front → '|' ∉ front → '\\' ∉ back → '|' ∉ back →
      (split (Padded.row front cells back)).map value = cells.map Padded.value := by
  refine ⟨values_split, ?_⟩
  intro front cells back legal frontSlash frontPipe backSlash backPipe
  rw [values_split]
  exact Padded.readFields_row legal frontSlash frontPipe backSlash backPipe

/-- A pipe, a backslash, an empty value and newlines at both ends survive. -/
def sampleRow : List Padded :=
  [⟨[' '], ['a', '|', '\\'], [' ', '\t']⟩, ⟨[], [], [' ']⟩, ⟨[], ['\n', ' ', '\n'], []⟩]

theorem split_sampleRow :
    (∀ cell ∈ sampleRow, cell.IsLegal) ∧
      (split (Padded.row ['>'] sampleRow [' ', '#'])).map value =
        [['a', '|', '\\'], [], ['\n', ' ', '\n']] := by
  have legal : ∀ cell ∈ sampleRow, cell.IsLegal := by decide
  exact ⟨legal, split_inverts_escape.2 ['>'] sampleRow [' ', '#'] legal (by decide) (by decide)
    (by decide) (by decide)⟩

end Cell

end Gherkin
