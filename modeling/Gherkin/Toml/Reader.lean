import Gherkin.Toml.Scalar

/-!
# Reading TOML

A document is a table of values. While it is read, a table remembers how it came
about, since that decides whether it can be named again: by a header, on the way
to a header, by a dotted key, or as an inline value.
-/

namespace Gherkin

namespace Toml

/-- A value. -/
inductive Value where
  | scalar (value : Scalar)
  | list (items : List Value)
  | table (entries : List (Text × Value))

/-- How a table came about. -/
inductive Opening where
  | header
  | onTheWay
  | dotted
  | inline
deriving DecidableEq, Repr

/-- A value while its document is read. -/
inductive Draft where
  | scalar (value : Scalar)
  | list (items : List Draft)
  | table (opening : Opening) (entries : List (Text × Draft))
  | tables (items : List (List (Text × Draft)))

/-- The entries of a table while its document is read. -/
abbrev Drafts := List (Text × Draft)

/-- The entry of a key. -/
def find? (key : Text) : Drafts → Option Draft
  | [] => none
  | (other, draft) :: rest => if other = key then some draft else find? key rest

/-- Sets the entry of a key. -/
def put (key : Text) (draft : Draft) : Drafts → Drafts
  | [] => [(key, draft)]
  | (other, old) :: rest =>
    if other = key then (key, draft) :: rest else (other, old) :: put key draft rest

/-- Sets a value under a dotted key; no key can be set twice. A list of tables on the
way stands for its last table. -/
def define? (draft : Draft) : (path : List Text) → Drafts → Option Drafts
  | [], _ => none
  | [key], entries => if (find? key entries).isSome then none else some (put key draft entries)
  | key :: next :: rest, entries =>
    match find? key entries with
    | none => do
      let inner ← define? draft (next :: rest) []
      pure (put key (.table .dotted inner) entries)
    | some (.table opening inner) =>
      if opening = .dotted || (opening = .onTheWay && !rest.isEmpty) then do
        let inner ← define? draft (next :: rest) inner
        pure (put key (.table opening inner) entries)
      else none
    | some (.tables items) =>
      match items.getLast? with
      | none => none
      | some inner =>
        if rest.isEmpty then none
        else do
          let inner ← define? draft (next :: rest) inner
          pure (put key (.tables (items.dropLast ++ [inner])) entries)
    | some _ => none

/-- Changes the entries that a header leads to. `last` says what becomes of the
entry of the last key. -/
def descend? (last : Option Draft → Option Draft) :
    (path : List Text) → Drafts → Option Drafts
  | [], _ => none
  | [key], entries => (last (find? key entries)).map fun draft => put key draft entries
  | key :: next :: rest, entries =>
    match find? key entries with
    | none => do
      let inner ← descend? last (next :: rest) []
      pure (put key (.table .onTheWay inner) entries)
    | some (.table opening inner) =>
      if opening = .inline then none
      else do
        let inner ← descend? last (next :: rest) inner
        pure (put key (.table opening inner) entries)
    | some (.tables items) =>
      match items.getLast? with
      | none => none
      | some inner => do
        let inner ← descend? last (next :: rest) inner
        pure (put key (.tables (items.dropLast ++ [inner])) entries)
    | some _ => none

/-- A table that a header opens. -/
def openTable : Option Draft → Option Draft
  | none => some (.table .header [])
  | some (.table .onTheWay entries) => some (.table .header entries)
  | some _ => none

/-- A list of tables that a header adds a table to. -/
def addTable : Option Draft → Option Draft
  | none => some (.tables [[]])
  | some (.tables items) => some (.tables (items ++ [[]]))
  | some _ => none

/-- A table with a value set under a dotted key. -/
def defineIn (path : List Text) (draft : Draft) : Option Draft → Option Draft
  | some (.table opening entries) => (define? draft path entries).map (.table opening)
  | some (.tables items) =>
    match items.getLast? with
    | none => none
    | some entries => do
      let entries ← define? draft path entries
      pure (.tables (items.dropLast ++ [entries]))
  | _ => none

mutual

/-- A value below a number of brackets and braces. -/
def value? : (fuel depth : Nat) → Text → Option (Draft × Text)
  | 0, _, _ => none
  | fuel + 1, depth, t =>
    match t with
    | '[' :: rest =>
      if nestingLimit ≤ depth + 1 then none
      else do
        let (items, rest) ← items? fuel (depth + 1) rest
        pure (.list items, rest)
    | '\x7b' :: rest =>
      if nestingLimit ≤ depth + 1 then none
      else
        match skipSpace rest with
        | '\x7d' :: rest => some (.table .inline [], rest)
        | rest => do
          let (entries, rest) ← fields? fuel (depth + 1) [] rest
          pure (.table .inline entries, rest)
    | t => do
      let (scalar, rest) ← scalar? t
      pure (.scalar scalar, rest)

/-- The items of a list up to its closing bracket. -/
def items? : (fuel depth : Nat) → Text → Option (List Draft × Text)
  | 0, _, _ => none
  | fuel + 1, depth, t => do
    let t ← skipLines (t.length + 1) t
    match t with
    | ']' :: rest => pure ([], rest)
    | t => do
      let (item, rest) ← value? fuel depth t
      let rest ← skipLines (rest.length + 1) rest
      match rest with
      | ',' :: rest => do
        let (items, rest) ← items? fuel depth rest
        pure (item :: items, rest)
      | ']' :: rest => pure ([item], rest)
      | _ => none

/-- The fields of an inline table up to its closing brace. -/
def fields? : (fuel depth : Nat) → Drafts → Text → Option (Drafts × Text)
  | 0, _, _, _ => none
  | fuel + 1, depth, entries, t => do
    let (path, rest) ← key? t
    match skipSpace rest with
    | '=' :: rest => do
      let (draft, rest) ← value? fuel depth (skipSpace rest)
      let entries ← define? draft path entries
      match skipSpace rest with
      | ',' :: rest => fields? fuel depth entries rest
      | '\x7d' :: rest => pure (entries, rest)
      | _ => none
    | _ => none

end

/-- What follows the end of a line. -/
def endOfLine? (t : Text) : Option Text := do
  let rest ← comment? (skipSpace t)
  if rest.isEmpty then pure rest else newline? rest

/-- Reads the statements of a document; `header` leads to the table they are in. -/
def statements? : (fuel : Nat) → (header : List Text) → Drafts → Text → Option Drafts
  | 0, _, _, _ => none
  | fuel + 1, header, entries, t => do
    let t ← skipLines (t.length + 1) t
    match t with
    | [] => pure entries
    | '[' :: '[' :: rest => do
      let (path, rest) ← key? rest
      match skipSpace rest with
      | ']' :: ']' :: rest => do
        let rest ← endOfLine? rest
        let entries ← descend? addTable path entries
        statements? fuel path entries rest
      | _ => none
    | '[' :: rest => do
      let (path, rest) ← key? rest
      match skipSpace rest with
      | ']' :: rest => do
        let rest ← endOfLine? rest
        let entries ← descend? openTable path entries
        statements? fuel path entries rest
      | _ => none
    | t => do
      let (path, rest) ← key? t
      match skipSpace rest with
      | '=' :: rest => do
        let (draft, rest) ← value? (rest.length + 1) 0 (skipSpace rest)
        let rest ← endOfLine? rest
        let entries ←
          if header.isEmpty then define? draft path entries
          else descend? (defineIn path draft) header entries
        statements? fuel header entries rest
      | _ => none

mutual

/-- The value that a draft comes to. -/
def finish : Draft → Value
  | .scalar value => .scalar value
  | .list items => .list (finishAll items)
  | .table _ entries => .table (finishEntries entries)
  | .tables items => .list (finishTables items)

/-- The values that drafts come to. -/
def finishAll : List Draft → List Value
  | [] => []
  | draft :: rest => finish draft :: finishAll rest

/-- The entries of a finished table. -/
def finishEntries : List (Text × Draft) → List (Text × Value)
  | [] => []
  | (key, draft) :: rest => (key, finish draft) :: finishEntries rest

/-- The tables of a finished list of tables. -/
def finishTables : List (List (Text × Draft)) → List Value
  | [] => []
  | entries :: rest => .table (finishEntries entries) :: finishTables rest

end

/-- The entries of the document that a text spells. A byte order mark at its start
does not belong to it. -/
def parse? (t : Text) : Option (List (Text × Value)) := do
  let t := match t with
    | c :: rest => if c.toNat = 0xFEFF then rest else t
    | [] => t
  let entries ← statements? (t.length + 1) [] [] t
  pure (finishEntries entries)

end Toml

end Gherkin
