import Gherkin.Document.Walk
import Gherkin.Proofs.Document.Refusal
import Gherkin.Proofs.Document.Spelling
import Mathlib.Data.List.TakeWhile

/-!
# Where walks lead

What a walk comes to depends on the lines in front of the cursor only, so walks are described
like readers: by these lines, a value and the lines that are left. A loop needs one turn more
than there are lines in front of it, since each turn that goes on leaves fewer of them. All the
while the cursor stays among the lines, and all turns on record have moved it on.
-/

namespace Gherkin

namespace Document

/-- The cursor never was behind the last line, and every turn that went on moved it on. -/
structure Cursor.IsSound (size : Nat) (cursor : Cursor) : Prop where
  position : cursor.position ≤ size
  visited : ∀ position ∈ cursor.visited, position ≤ size
  turns : ∀ turn ∈ cursor.turns, turn.start < turn.stop ∧ turn.stop ≤ size

theorem Cursor.isSound_start (size : Nat) : Cursor.start.IsSound size :=
  ⟨Nat.zero_le size, List.forall_mem_nil _, List.forall_mem_nil _⟩

theorem Cursor.IsSound.moved {size position : Nat} {cursor : Cursor} (sound : cursor.IsSound size)
    (inside : position ≤ size) :
    IsSound size { cursor with position, visited := position :: cursor.visited } :=
  ⟨inside, List.forall_mem_cons.mpr ⟨inside, sound.visited⟩, sound.turns⟩

/-- A turn after which fewer lines are left has moved the cursor on. -/
theorem Cursor.IsSound.recorded {γ : Type} {all front next : List γ} {cursor : Cursor} {mark : Nat}
    (sound : cursor.IsSound all.length) (before : all.drop mark = front)
    (behind : all.drop cursor.position = next) (shorter : next.length < front.length)
    (name : Loop) :
    IsSound all.length
      { cursor with turns := ⟨name, mark, cursor.position⟩ :: cursor.turns } := by
  have above := congrArg List.length before
  have below := congrArg List.length behind
  rw [List.length_drop] at above below
  have inside := sound.position
  exact ⟨inside, sound.visited,
    List.forall_mem_cons.mpr ⟨⟨by dsimp only; omega, inside⟩, sound.turns⟩⟩

namespace Walk

variable {α β γ σ : Type} {all front next rest : List γ} {walk : Walk α} {others : α → Walk β}
  {value : α} {result : β} {fault : Fault}

theorem bind_apply (walk : Walk α) (others : α → Walk β) (cursor : Cursor) :
    (walk >>= others) cursor = match walk cursor with
      | .ok value after => others value after
      | .error halt after => .error halt after := by
  change EStateM.bind walk others cursor = _
  rw [EStateM.bind]
  cases walk cursor <;> rfl

/-- With some lines in front of the cursor, the walk gives a value and leaves the cursor in
front of the others. -/
def Ends (all : List γ) (walk : Walk α) (front : List γ) (value : α) (rest : List γ) : Prop :=
  ∀ cursor : Cursor, cursor.IsSound all.length → all.drop cursor.position = front →
    ∃ after, walk cursor = .ok value after ∧ after.IsSound all.length ∧
      all.drop after.position = rest

/-- With some lines in front of the cursor, the walk stops at a fault. -/
def Fails (all : List γ) (walk : Walk α) (front : List γ) (fault : Fault) : Prop :=
  ∀ cursor : Cursor, cursor.IsSound all.length → all.drop cursor.position = front →
    ∃ after, walk cursor = .error (.fault fault) after ∧ after.IsSound all.length

/-! ## Single moves -/

theorem Ends.pure (value : α) (front : List γ) : Ends all (pure value) front value front :=
  fun cursor sound here => ⟨cursor, rfl, sound, here⟩

theorem Ends.bind (first : Ends all walk front value next)
    (later : Ends all (others value) next result rest) :
    Ends all (walk >>= others) front result rest := by
  intro cursor sound here
  obtain ⟨middle, walked, still, there⟩ := first cursor sound here
  rw [bind_apply, walked]
  exact later middle still there

theorem Fails.bind (first : Fails all walk front fault) :
    Fails all (walk >>= others) front fault := by
  intro cursor sound here
  obtain ⟨after, walked, still⟩ := first cursor sound here
  rw [bind_apply, walked]
  exact ⟨after, rfl, still⟩

theorem Ends.bind_fails (first : Ends all walk front value next)
    (later : Fails all (others value) next fault) : Fails all (walk >>= others) front fault := by
  intro cursor sound here
  obtain ⟨middle, walked, still, there⟩ := first cursor sound here
  rw [bind_apply, walked]
  exact later middle still there

theorem Ends.discard (walked : Ends all walk front value rest) :
    Ends all (discard walk) front () rest := walked.bind (.pure () rest)

theorem fails_fail (fault : Fault) (front : List γ) :
    Fails all (fail fault : Walk α) front fault := fun cursor sound _ => ⟨cursor, rfl, sound⟩

theorem ends_check {reading : Except Fault α} (read : reading = .ok value) (front : List γ) :
    Ends all (check reading) front value front := read ▸ .pure value front

theorem fails_check {reading : Except Fault α} (failed : reading = .error fault)
    (front : List γ) : Fails all (check reading) front fault := failed ▸ fails_fail fault front

theorem ends_peek (all front : List γ) : Ends all (peek all) front front.head? front := by
  intro cursor sound here
  refine ⟨cursor, ?_, sound, here⟩
  rw [← here, List.head?_drop]
  rfl

theorem ends_moveTo {mark : Nat} (inside : mark ≤ all.length) (there : all.drop mark = rest) :
    Ends all (moveTo mark) front () rest := fun _ sound _ => ⟨_, rfl, sound.moved inside, there⟩

theorem ends_advance (line : γ) (rest : List γ) : Ends all advance (line :: rest) () rest := by
  intro cursor sound here
  have more : (all.drop cursor.position).length = rest.length + 1 := by rw [here]; rfl
  rw [List.length_drop] at more
  refine ⟨_, rfl, sound.moved (by omega), ?_⟩
  change all.drop (cursor.position + 1) = rest
  rw [← List.drop_drop, here]
  rfl

/-- A walk that keeps in mind where it begins. -/
theorem Ends.marked {others : Nat → Walk β}
    (later : ∀ mark ≤ all.length, all.drop mark = front →
      Ends all (others mark) front result rest) :
    Ends all (position >>= others) front result rest :=
  fun cursor sound here => later cursor.position sound.position here cursor sound here

theorem Fails.marked {others : Nat → Walk β}
    (later : ∀ mark ≤ all.length, all.drop mark = front → Fails all (others mark) front fault) :
    Fails all (position >>= others) front fault :=
  fun cursor sound here => later cursor.position sound.position here cursor sound here

/-! ## Loops -/

variable {name : Loop} {turn : σ → Walk (ForInStep σ)} {state after final : σ}

/-- A loop with turns enough for the lines in front of the cursor ends. -/
def LoopEnds (all : List γ) (name : Loop) (turn : σ → Walk (ForInStep σ)) (state : σ)
    (front : List γ) (final : σ) (rest : List γ) : Prop :=
  ∀ limit, front.length < limit → Ends all (loop name turn limit state) front final rest

/-- A loop with turns enough for the lines in front of the cursor stops at a fault. -/
def LoopFails (all : List γ) (name : Loop) (turn : σ → Walk (ForInStep σ)) (state : σ)
    (front : List γ) (fault : Fault) : Prop :=
  ∀ limit, front.length < limit → Fails all (loop name turn limit state) front fault

theorem LoopEnds.done (turned : Ends all (turn state) front (.done final) rest) :
    LoopEnds all name turn state front final rest := by
  intro limit enough
  obtain ⟨limit, rfl⟩ := Nat.exists_eq_succ_of_ne_zero (Nat.ne_zero_of_lt enough)
  exact .marked fun mark _ _ => turned.bind (.pure final rest)

theorem LoopEnds.yield (turned : Ends all (turn state) front (.yield after) next)
    (shorter : next.length < front.length)
    (later : LoopEnds all name turn after next final rest) :
    LoopEnds all name turn state front final rest := by
  intro limit enough
  obtain ⟨limit, rfl⟩ := Nat.exists_eq_succ_of_ne_zero (Nat.ne_zero_of_lt enough)
  have still := later limit (by omega)
  refine .marked fun mark _ before => turned.bind fun cursor sound behind => ?_
  exact still _ (sound.recorded before behind shorter name) behind

theorem LoopFails.here (turned : Fails all (turn state) front fault) :
    LoopFails all name turn state front fault := by
  intro limit enough
  obtain ⟨limit, rfl⟩ := Nat.exists_eq_succ_of_ne_zero (Nat.ne_zero_of_lt enough)
  exact .marked fun mark _ _ => turned.bind

theorem LoopFails.later (turned : Ends all (turn state) front (.yield after) next)
    (shorter : next.length < front.length)
    (later : LoopFails all name turn after next fault) :
    LoopFails all name turn state front fault := by
  intro limit enough
  obtain ⟨limit, rfl⟩ := Nat.exists_eq_succ_of_ne_zero (Nat.ne_zero_of_lt enough)
  have still := later limit (by omega)
  refine .marked fun mark _ before => turned.bind_fails fun cursor sound behind => ?_
  exact still _ (sound.recorded before behind shorter name) behind

/-- One turn more than there are lines is enough. -/
theorem LoopEnds.ends (loops : LoopEnds all name turn state front final rest) :
    Ends all (loop name turn (all.length + 1) state) front final rest := by
  intro cursor sound here
  have size := congrArg List.length here
  rw [List.length_drop] at size
  exact loops _ (by omega) cursor sound here

theorem LoopFails.fails (loops : LoopFails all name turn state front fault) :
    Fails all (loop name turn (all.length + 1) state) front fault := by
  intro cursor sound here
  have size := congrArg List.length here
  rw [List.length_drop] at size
  exact loops _ (by omega) cursor sound here

/-! ## Shared pieces -/

theorem loopEnds_pass {all : List Line} (name : Loop) (p : Line → Bool)
    (passed front : List Line) :
    LoopEnds all name (passTurn all p) passed front (passed ++ front.takeWhile p)
      (front.dropWhile p) := by
  induction front generalizing passed with
  | nil =>
      rw [List.takeWhile_nil, List.append_nil]
      exact .done ((ends_peek all []).bind (.pure _ []))
  | cons line rest ih =>
      by_cases passes : p line = true
      · rw [List.takeWhile_cons_of_pos passes, List.dropWhile_cons_of_pos passes,
          List.append_cons]
        refine .yield ((ends_peek all _).bind ?_) (Nat.lt_succ_self _) (ih (passed ++ [line]))
        simp only [List.head?_cons, passes, if_true]
        exact (ends_advance line rest).bind (.pure _ rest)
      · rw [List.takeWhile_cons_of_neg passes, List.dropWhile_cons_of_neg passes,
          List.append_nil]
        refine .done ((ends_peek all _).bind ?_)
        simp only [List.head?_cons, passes, Bool.false_eq_true, if_false]
        exact .pure _ _

theorem ends_pass (all : List Line) (name : Loop) (p : Line → Bool) (front : List Line) :
    Ends all (pass name all p) front (front.takeWhile p) (front.dropWhile p) :=
  (loopEnds_pass name p [] front).ends

theorem ends_skip (all front : List Line) :
    Ends all (skip all) front () (front.dropWhile Line.isIgnorable) :=
  (ends_pass all .gap Line.isIgnorable front).discard

/-- A walk that looks at what stands behind blank lines and comments. -/
theorem ends_gap {all front next rest : List Line} {others : Option Line → Walk β}
    (skipped : front.dropWhile Line.isIgnorable = next)
    (later : Ends all (others next.head?) next result rest) :
    Ends all (skip all >>= fun _ => peek all >>= others) front result rest := by
  have gap := ends_skip all front
  rw [skipped] at gap
  exact gap.bind ((ends_peek all next).bind later)

theorem fails_gap {all front next : List Line} {others : Option Line → Walk β}
    (skipped : front.dropWhile Line.isIgnorable = next)
    (later : Fails all (others next.head?) next fault) :
    Fails all (skip all >>= fun _ => peek all >>= others) front fault := by
  have gap := ends_skip all front
  rw [skipped] at gap
  exact gap.bind_fails ((ends_peek all next).bind_fails later)

/-- A header and its description are what they are in all the lines behind it. -/
theorem ends_header (all : List Line) (line : Line) (construct : Construct) (keyword name : Text)
    (below : List Line) :
    Ends all (header all line construct keyword name) (line :: below)
      (Document.header line construct keyword name below).value
      (below.dropWhile Line.continuesDescription) := by
  have same : descriptionLines (below.takeWhile Line.continuesDescription) =
      descriptionLines below := by
    rw [descriptionLines, List.takeWhile_idem, descriptionLines]
  have value : (Document.header line construct keyword name below).value =
      (Document.header line construct keyword name
        (below.takeWhile Line.continuesDescription)).value := by
    rw [Document.header, Document.header, same]
  rw [value]
  exact (ends_advance line below).bind ((ends_pass all .description _ below).bind (.pure _ _))

end Walk

end Document

namespace Grammar

open Document
open Document.Walk (Ends Fails LoopEnds LoopFails ends_peek ends_advance ends_check fails_check
  fails_fail ends_pass ends_skip ends_header)

variable {release : Release} {all lines rest : List Line} {fault : Fault}

/-! ## Tags -/

theorem ends_tagsTurn_skip {line : Line} (ignorable : line.isIgnorable = true)
    (before : List Tag) (lines : List Line) :
    Ends all (Walk.tagsTurn all before) (line :: lines) (.yield before) lines := by
  refine (ends_peek all _).bind ?_
  simp only [List.head?_cons, ignorable, if_true]
  exact (ends_advance line lines).bind (.pure _ lines)

theorem ends_tagsTurn_line {line : Line} {here : List Tag} (kind : line.kind = .tags)
    (spelled : lineTags line (Word.beforeComment (Word.split 1 line.raw)) = .ok here)
    (before : List Tag) (lines : List Line) :
    Ends all (Walk.tagsTurn all before) (line :: lines) (.yield (before ++ here)) lines := by
  refine (ends_peek all _).bind ?_
  simp only [List.head?_cons, Line.isIgnorable, kind, Bool.false_eq_true, if_false, if_true]
  exact (ends_check spelled _).bind ((ends_advance line lines).bind (.pure _ lines))

theorem Tags.loopEnds {found : List Tag} (read : Tags lines found rest) (before : List Tag) :
    LoopEnds all .tags (Walk.tagsTurn all) before lines (before ++ found) rest := by
  induction read generalizing before with
  | done =>
      rw [List.append_nil]
      exact .done ((ends_peek all []).bind (.pure _ []))
  | skip ignorable _ ih =>
      exact .yield (ends_tagsTurn_skip ignorable before _) (Nat.lt_succ_self _) (ih before)
  | line kind spelled _ ih =>
      rw [← List.append_assoc]
      exact .yield (ends_tagsTurn_line kind spelled before _) (Nat.lt_succ_self _) (ih _)
  | stop kept kind =>
      rw [List.append_nil]
      refine .done ((ends_peek all _).bind ?_)
      simp only [List.head?_cons, kept, kind, Bool.false_eq_true, if_false]
      exact .pure _ _

theorem Tags.ends {found : List Tag} (read : Tags lines found rest) :
    Ends all (Walk.tags all) lines found rest := (read.loopEnds []).ends

/-- A walk that looks at what stands behind tags. -/
theorem Tags.ends_behind {β : Type} {found : List Tag} {next : List Line} {result : β}
    {others : List Tag → Option Line → Walk β} (read : Tags lines found next)
    (later : Ends all (others found next.head?) next result rest) :
    Ends all (Walk.tags all >>= fun found => Walk.peek all >>= others found) lines result rest :=
  read.ends.bind ((ends_peek all next).bind later)

theorem Tags.fails_behind {β : Type} {found : List Tag} {next : List Line}
    {others : List Tag → Option Line → Walk β} (read : Tags lines found next)
    (later : Fails all (others found next.head?) next fault) :
    Fails all (Walk.tags all >>= fun found => Walk.peek all >>= others found) lines fault :=
  read.ends.bind_fails ((ends_peek all next).bind_fails later)

theorem TagsFail.loopFails (fails : TagsFail lines fault) (before : List Tag) :
    LoopFails all .tags (Walk.tagsTurn all) before lines fault := by
  induction fails generalizing before with
  | here kind broken =>
      refine .here ((ends_peek all _).bind_fails ?_)
      simp only [List.head?_cons, Line.isIgnorable, kind, Bool.false_eq_true, if_false, if_true]
      exact (fails_check broken _).bind
  | skip ignorable _ ih =>
      exact .later (ends_tagsTurn_skip ignorable before _) (Nat.lt_succ_self _) (ih before)
  | later kind spelled _ ih =>
      exact .later (ends_tagsTurn_line kind spelled before _) (Nat.lt_succ_self _) (ih _)

theorem TagsFail.fails (fails : TagsFail lines fault) : Fails all (Walk.tags all) lines fault :=
  (fails.loopFails []).fails

/-! ## Rows -/

/-- The width of a table is that of its first row. -/
def firstWidth (rows : List Row) : Option Nat := rows.head?.map fun first => first.cells.length

theorem any_head?_eq (before : List Row) (width : Nat) :
    (before.head?.any fun first => first.cells.length != width) =
      (firstWidth before).any (· != width) := by
  rw [firstWidth, Option.any_map]

theorem firstWidth_concat {before : List Row} {row : Row}
    (fits : ∀ known ∈ firstWidth before, known = row.cells.length) :
    firstWidth (before ++ [row]) = some row.cells.length := by
  cases before with
  | nil => rfl
  | cons first others => exact congrArg some (fits _ rfl)

theorem ends_rowsTurn_row {line : Line} {before : List Row} (kind : line.kind = .row)
    (fits : ∀ known ∈ firstWidth before, known = (Cell.split line.raw).length)
    (lines : List Line) :
    Ends all (Walk.rowsTurn all before) (line :: lines)
      (.yield (before ++ [⟨line.place, Cell.split line.raw⟩])) lines := by
  refine (ends_peek all _).bind ?_
  simp only [List.head?_cons, kind, any_head?_eq, any_ne_eq_false fits, Bool.false_eq_true,
    if_false]
  exact (ends_advance line lines).bind (.pure _ lines)

theorem ends_rowsTurn_comment {line : Line} (kind : line.kind = .comment) (before : List Row)
    (lines : List Line) :
    Ends all (Walk.rowsTurn all before) (line :: lines) (.yield before) lines := by
  refine (ends_peek all _).bind ?_
  simp only [List.head?_cons, kind]
  exact (ends_advance line lines).bind (.pure _ lines)

theorem Rows.loopEnds {width : Option Nat} {found : List Row} (read : Rows width lines found rest)
    {before : List Row} (wide : firstWidth before = width) :
    LoopEnds all .rows (Walk.rowsTurn all) before lines (before ++ found) rest := by
  induction read generalizing before with
  | done =>
      rw [List.append_nil]
      exact .done ((ends_peek all []).bind (.pure _ []))
  | row kind fits _ ih =>
      rw [← wide] at fits
      rw [List.append_cons]
      exact .yield (ends_rowsTurn_row kind fits _) (Nat.lt_succ_self _)
        (ih (firstWidth_concat fits))
  | comment kind _ ih =>
      exact .yield (ends_rowsTurn_comment kind before _) (Nat.lt_succ_self _) (ih wide)
  | stop notRow notComment =>
      rw [List.append_nil]
      refine .done ((ends_peek all _).bind ?_)
      dsimp only [List.head?_cons]
      split
      · contradiction
      · contradiction
      · exact .pure _ _

theorem Rows.ends {found : List Row} (read : Rows none lines found rest) :
    Ends all (Walk.rows all) lines found rest := (read.loopEnds rfl).ends

theorem RowsFail.loopFails {width : Option Nat} (fails : RowsFail width lines fault)
    {before : List Row} (wide : firstWidth before = width) :
    LoopFails all .rows (Walk.rowsTurn all) before lines fault := by
  induction fails generalizing before with
  | @uneven width line lines known kind given differs =>
      have uneven : (firstWidth before).any (· != (Cell.split line.raw).length) = true := by
        rw [wide, Option.mem_def.mp given]
        simpa using differs
      refine .here ((ends_peek all _).bind_fails ?_)
      simp only [List.head?_cons, kind, any_head?_eq, uneven, if_true]
      exact fails_fail _ _
  | row kind fits _ ih =>
      rw [← wide] at fits
      exact .later (ends_rowsTurn_row kind fits _) (Nat.lt_succ_self _)
        (ih (firstWidth_concat fits))
  | comment kind _ ih =>
      exact .later (ends_rowsTurn_comment kind before _) (Nat.lt_succ_self _) (ih wide)

theorem RowsFail.fails (fails : RowsFail none lines fault) :
    Fails all (Walk.rows all) lines fault := (fails.loopFails rfl).fails

end Grammar

end Gherkin
