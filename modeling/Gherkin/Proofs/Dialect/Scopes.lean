import Gherkin.Dialect.Calls
import Mathlib.Data.List.Induction

/-!
# Scopes of the active dialect

Every open scope holds the dialect that was active when it was opened. Where each scope that is
closed is the one opened last, the open scopes are a stack, and closing a scope leads back to the
active dialect and to the open scopes of the time before it was opened, whatever was called in
between. A call that fails changes nothing.
-/

namespace Gherkin

namespace DialectChange

theorem get_bind {α : Type} (next : ActiveDialect → DialectChange α) (active : ActiveDialect) :
    (get >>= next) active = next active active := rfl

theorem lookup_eq (code : Text) (active : ActiveDialect) :
    lookup code active = match Dialect.lookup code with
      | .ok dialect => .ok dialect active
      | .error error => .error error active := by
  rw [lookup]
  cases Dialect.lookup code <;> rfl

theorem enter_eq (code : Text) (active : ActiveDialect) :
    enter code active = match active.openScope code with
      | .ok after => .ok active.scopes.length after
      | .error error => .error error active := by
  change EStateM.bind (lookup code) _ active = _
  rw [EStateM.bind, lookup_eq, ActiveDialect.openScope]
  cases Dialect.lookup code <;> rfl

theorem dropGuard_eq (scope : Nat) (active : ActiveDialect) :
    dropGuard scope active = .ok () (active.closeScope scope) := by
  unfold dropGuard ActiveDialect.closeScope
  rw [get_bind]
  rcases active.scopes[scope]? with _ | _ | previous <;> rfl

end DialectChange

namespace ActiveDialect

open DialectChange

variable {active start after : ActiveDialect} {code : Text} {scope : Nat} {previous : Dialect}
  {call : Call} {calls : List Call}

/-- The scopes of a list that are open, with the dialects they hold; the first one has a given
number. -/
def openedFrom (first : Nat) : List (Option Dialect) → List (Nat × Dialect)
  | [] => []
  | none :: rest => openedFrom (first + 1) rest
  | some previous :: rest => (first, previous) :: openedFrom (first + 1) rest

/-- The scopes that are open, from the first to the last, with the dialects they hold. -/
def opened (active : ActiveDialect) : List (Nat × Dialect) := openedFrom 0 active.scopes

/-- The scope that was opened last of those that are open. -/
def latest? (active : ActiveDialect) : Option Nat :=
  active.opened.getLast?.map Prod.fst

/-! ### The stack of open scopes -/

theorem openedFrom_append (scopes later : List (Option Dialect)) (first : Nat) :
    openedFrom first (scopes ++ later) =
      openedFrom first scopes ++ openedFrom (first + scopes.length) later := by
  induction scopes generalizing first with
  | nil => rfl
  | cons held rest ih =>
    have next : first + (held :: rest).length = first + 1 + rest.length := by
      rw [List.length_cons, Nat.add_assoc, Nat.add_comm 1]
    cases held with
    | none => rw [List.cons_append, openedFrom, openedFrom, ih, next]
    | some previous => rw [List.cons_append, openedFrom, openedFrom, ih, next, List.cons_append]

theorem mem_openedFrom {scopes : List (Option Dialect)} {first : Nat}
    (member : (scope, previous) ∈ openedFrom first scopes) :
    ∃ place, scope = first + place ∧ scopes[place]? = some (some previous) := by
  induction scopes generalizing first with
  | nil => cases member
  | cons held rest ih =>
    have later (inside : (scope, previous) ∈ openedFrom (first + 1) rest) :
        ∃ place, scope = first + place ∧ (held :: rest)[place]? = some (some previous) := by
      obtain ⟨place, rfl, found⟩ := ih inside
      exact ⟨place + 1, by rw [Nat.add_assoc, Nat.add_comm 1], found⟩
    cases held with
    | none => exact later member
    | some held =>
      rcases List.mem_cons.mp member with here | inside
      · cases here
        exact ⟨0, rfl, rfl⟩
      · exact later inside

theorem exists_of_openScope (opening : active.openScope code = .ok after) :
    ∃ dialect, after = ⟨dialect, active.scopes ++ [some active.current]⟩ := by
  rw [ActiveDialect.openScope] at opening
  cases found : Dialect.lookup code with
  | error error =>
    rw [found] at opening
    cases opening
  | ok dialect =>
    rw [found] at opening
    cases opening
    exact ⟨dialect, rfl⟩

theorem closeScope_eq (stored : active.scopes[scope]? = some (some previous)) :
    active.closeScope scope = ⟨previous, active.scopes.set scope none⟩ := by
  rw [closeScope, stored]

/-- Closing the scope that was opened last leads back to the dialect it holds and to the scopes
that were open before it. -/
theorem opened_eq_of_latest? (last : active.latest? = some scope) :
    active.opened = (active.closeScope scope).opened ++
      [(scope, (active.closeScope scope).current)] := by
  obtain ⟨⟨scope, previous⟩, final, rfl⟩ := Option.map_eq_some_iff.mp last
  obtain ⟨place, same, stored⟩ := mem_openedFrom (List.mem_of_getLast? final)
  obtain rfl := same.trans (Nat.zero_add place)
  obtain ⟨bound, here⟩ := List.getElem?_eq_some_iff.mp stored
  obtain ⟨before, later, split, length, emptied⟩ := List.exists_of_set bound
  rw [here] at split
  have whole : active.opened = openedFrom 0 before ++
      (scope, previous) :: openedFrom (scope + 1) later := by
    rw [opened, split, openedFrom_append, Nat.zero_add, length, openedFrom]
  have rest : (active.closeScope scope).opened =
      openedFrom 0 before ++ openedFrom (scope + 1) later := by
    rw [closeScope_eq stored, opened, emptied, openedFrom_append, Nat.zero_add, length, openedFrom]
  -- A scope above this one would be the latest.
  have top : openedFrom (scope + 1) later = [] := by
    rcases List.eq_nil_or_concat (openedFrom (scope + 1) later) with
      empty | ⟨front, other, snoc⟩
    · exact empty
    · rw [whole, snoc, List.concat_eq_append, ← List.cons_append, ← List.append_assoc,
        List.getLast?_concat] at final
      cases final
      have member : (scope, previous) ∈ openedFrom (scope + 1) later := by
        rw [snoc, List.concat_eq_append]
        exact List.mem_concat_self
      obtain ⟨_, above, -⟩ := mem_openedFrom member
      omega
  rw [rest, whole, top, List.append_nil, closeScope_eq stored]

/-! ### Calls -/

namespace Call

/-- What is done in place comes to what is done at once; a call that fails changes nothing. -/
theorem perform_eq (call : Call) (active : ActiveDialect) :
    call.perform active = match call.effect active with
      | .ok after => .ok () after
      | .error error => .error error active := by
  cases call with
  | activate code =>
    change EStateM.bind (lookup code) _ active = _
    rw [EStateM.bind, lookup_eq, effect, ActiveDialect.activate]
    cases Dialect.lookup code <;> rfl
  | openScope code =>
    change EStateM.map _ (enter code) active = _
    rw [EStateM.map, enter_eq, effect]
    cases active.openScope code <;> rfl
  | closeScope scope =>
    exact dropGuard_eq scope active

theorem after_eq (call : Call) (active : ActiveDialect) :
    call.after active = match call.effect active with
      | .ok after => after
      | .error _ => active := by
  rw [after, perform_eq]
  cases call.effect active <;> rfl

theorem run_append (calls more : List Call) (start : ActiveDialect) :
    run (calls ++ more) start = run more (run calls start) := by
  rw [run, List.foldl_append]
  rfl

theorem run_concat (calls : List Call) (call : Call) (start : ActiveDialect) :
    run (calls ++ [call]) start = call.after (run calls start) := run_append ..

/-- Whether a call closes no other scope than the one that was opened last. -/
def isOrderly (active : ActiveDialect) : Call → Bool
  | .closeScope scope => active.latest? == some scope
  | _ => true

/-- Whether scopes are closed in the reverse order of their opening. -/
def isNested (start : ActiveDialect) : List Call → Bool
  | [] => true
  | call :: rest => call.isOrderly start && isNested (call.after start) rest

theorem isNested_append (calls more : List Call) (start : ActiveDialect) :
    isNested start (calls ++ more) = (isNested start calls && isNested (run calls start) more) := by
  induction calls generalizing start with
  | nil => rfl
  | cons call rest ih =>
    rw [List.cons_append, isNested, isNested, ih, Bool.and_assoc]
    rfl

/-- What a call does to the open scopes, where scopes are closed in order. -/
theorem opened_after (orderly : call.isOrderly active = true) :
    (call.after active).opened = active.opened ∨
    (∃ code, call = .openScope code ∧
      enter code active = .ok active.scopes.length (call.after active) ∧
      (call.after active).opened = active.opened ++ [(active.scopes.length, active.current)]) ∨
    ∃ scope, call = .closeScope scope ∧
      active.opened = (call.after active).opened ++ [(scope, (call.after active).current)] := by
  rw [after_eq]
  cases call with
  | activate code =>
    left
    rw [effect, ActiveDialect.activate]
    cases Dialect.lookup code <;> rfl
  | openScope code =>
    rw [effect]
    cases opening : active.openScope code with
    | error error => exact .inl rfl
    | ok after =>
      refine .inr (.inl ⟨code, rfl, by rw [enter_eq, opening], ?_⟩)
      obtain ⟨dialect, rfl⟩ := exists_of_openScope opening
      change openedFrom 0 (_ ++ _) = _
      rw [openedFrom_append, Nat.zero_add]
      rfl
  | closeScope scope =>
    exact .inr (.inr ⟨scope, rfl, opened_eq_of_latest? (beq_iff_eq.mp orderly)⟩)

/-! ### Where open scopes come from -/

/-- The earlier ones of some calls, after which the scope with a given number is opened. -/
def Opens (start : ActiveDialect) (calls : List Call) (scope : Nat) (earlier : List Call) : Prop :=
  ∃ code between after, calls = earlier ++ .openScope code :: between ∧
    enter code (run earlier start) = .ok scope after

theorem Opens.append {earlier : List Call} (opens : Opens start calls scope earlier)
    (more : List Call) : Opens start (calls ++ more) scope earlier := by
  obtain ⟨code, between, after, rfl, entered⟩ := opens
  exact ⟨code, between ++ more, after, by rw [List.append_assoc, List.cons_append], entered⟩

/-- Each open scope was opened by one of the calls. It holds the dialect that was active before,
and the scopes below it are those that were open before. -/
theorem exists_opens (bare : start.opened = []) (nested : isNested start calls = true)
    {below above : List (Nat × Dialect)}
    (split : (run calls start).opened = below ++ (scope, previous) :: above) :
    ∃ earlier, Opens start calls scope earlier ∧ (run earlier start).current = previous ∧
      (run earlier start).opened = below := by
  -- What the last call leaves open was open before it, unless it is the scope this call opens.
  induction calls using List.reverseRecOn generalizing above with
  | nil =>
    rw [show run [] start = start from rfl, bare] at split
    cases below <;> cases split
  | append_singleton calls call ih =>
    rw [isNested_append, Bool.and_eq_true] at nested
    obtain ⟨nested, orderly⟩ := nested
    rw [isNested, Bool.and_eq_true] at orderly
    have before {above : List (Nat × Dialect)}
        (split : (run calls start).opened = below ++ (scope, previous) :: above) :
        ∃ earlier, Opens start (calls ++ [call]) scope earlier ∧
          (run earlier start).current = previous ∧ (run earlier start).opened = below := by
      obtain ⟨earlier, opens, rest⟩ := ih nested split
      exact ⟨earlier, opens.append [call], rest⟩
    rw [run_concat] at split
    obtain same | ⟨code, rfl, entered, more⟩ | ⟨closed, rfl, less⟩ := opened_after orderly.1
    · exact before (same.symm.trans split)
    · rw [more] at split
      rcases List.eq_nil_or_concat above with rfl | ⟨front, top, rfl⟩
      · obtain ⟨rfl, here⟩ := List.append_inj' split rfl
        cases here
        exact ⟨calls, ⟨code, [], _, rfl, entered⟩, rfl, rfl⟩
      · rw [List.concat_eq_append, ← List.cons_append, ← List.append_assoc] at split
        exact before (List.append_inj' split rfl).1
    · rw [split, List.append_assoc, List.cons_append] at less
      exact before less

/-! ### Numbers of scopes -/

theorem eq_of_enter (entered : enter code active = .ok scope after) :
    scope = active.scopes.length ∧ (Call.openScope code).after active = after ∧
      after.scopes.length = scope + 1 := by
  rw [after_eq, effect]
  rw [enter_eq] at entered
  cases opening : active.openScope code with
  | error error =>
    rw [opening] at entered
    cases entered
  | ok opened =>
    rw [opening] at entered
    cases entered
    obtain ⟨dialect, rfl⟩ := exists_of_openScope opening
    exact ⟨rfl, rfl, List.length_append⟩

theorem length_le_after (call : Call) (active : ActiveDialect) :
    active.scopes.length ≤ (call.after active).scopes.length := by
  rw [after_eq]
  cases call with
  | activate code =>
    rw [effect, ActiveDialect.activate]
    cases Dialect.lookup code <;> exact Nat.le_refl _
  | openScope code =>
    rw [effect]
    cases opening : active.openScope code with
    | error error => exact Nat.le_refl _
    | ok after =>
      obtain ⟨dialect, rfl⟩ := exists_of_openScope opening
      exact List.length_append ▸ Nat.le_add_right ..
  | closeScope scope =>
    change _ ≤ (active.closeScope scope).scopes.length
    rw [ActiveDialect.closeScope]
    split
    · exact Nat.le_of_eq (List.length_set ..).symm
    · exact Nat.le_refl _

theorem length_le_run (calls : List Call) (start : ActiveDialect) :
    start.scopes.length ≤ (run calls start).scopes.length := by
  induction calls generalizing start with
  | nil => exact Nat.le_refl _
  | cons call rest ih => exact Nat.le_trans (length_le_after call start) (ih _)

/-- Scopes that are opened later have other numbers. -/
theorem ne_of_enter {earlier between : List Call} {other : Nat} {code' : Text}
    {after' : ActiveDialect} (entered : enter code (run earlier start) = .ok scope after)
    (again : enter code' (run (earlier ++ .openScope code :: between) start) = .ok other after') :
    other ≠ scope := by
  obtain ⟨-, next, longer⟩ := eq_of_enter entered
  obtain ⟨number, -, -⟩ := eq_of_enter again
  have grown := length_le_run between after
  rw [run_append, run, List.foldl_cons, next] at number
  change other = (run between after).scopes.length at number
  omega

/-- A scope is opened only once. -/
theorem Opens.unique {one other : List Call} (opens : Opens start calls scope one)
    (again : Opens start calls scope other) : one = other := by
  obtain ⟨code, between, _, rfl, entered⟩ := opens
  obtain ⟨code', between', _, split, entered'⟩ := again
  rcases List.append_eq_append_iff.mp split with ⟨gap, rfl, rest⟩ | ⟨gap, rfl, rest⟩
  · cases gap with
    | nil => exact (List.append_nil one).symm
    | cons first gap =>
      cases rest
      exact absurd rfl (ne_of_enter entered entered')
  · cases gap with
    | nil => exact List.append_nil other
    | cons first gap =>
      cases rest
      exact absurd rfl (ne_of_enter entered' entered)

end Call

/-- Where scopes are closed in the reverse order of their opening, every scope that is closed was
opened by one of the calls before. Closing it makes the dialect active that was active before this
call, and the scopes that are open are those that were open before it. A call that fails changes
nothing, whatever was called before. -/
theorem scopes_nest (start : Dialect) (calls : List Call)
    (nested : Call.isNested ⟨start, []⟩ calls = true) :
    (∀ front scope back, calls = front ++ .closeScope scope :: back →
      (∃ earlier, Call.Opens ⟨start, []⟩ front scope earlier) ∧
      ∀ earlier, Call.Opens ⟨start, []⟩ front scope earlier →
        let before := Call.run earlier ⟨start, []⟩
        let closed := Call.run (front ++ [.closeScope scope]) ⟨start, []⟩
        closed.current = before.current ∧ closed.opened = before.opened) ∧
    ∀ front call back, calls = front ++ call :: back → ∀ error after,
      call.perform (Call.run front ⟨start, []⟩) = .error error after →
        after = Call.run front ⟨start, []⟩ := by
  refine ⟨fun front scope back split => ?_, fun front call back _ error after failed => ?_⟩
  · rw [split, Call.isNested_append, Bool.and_eq_true, Call.isNested, Bool.and_eq_true] at nested
    obtain ⟨nested, orderly, -⟩ := nested
    have stack := opened_eq_of_latest? (beq_iff_eq.mp orderly)
    have closed : Call.run (front ++ [.closeScope scope]) ⟨start, []⟩ =
        (Call.run front ⟨start, []⟩).closeScope scope := by
      rw [Call.run_concat, Call.after_eq, Call.effect]
    obtain ⟨earlier, opens, current, below⟩ := Call.exists_opens rfl nested stack
    refine ⟨⟨earlier, opens⟩, fun other opens' => ?_⟩
    rw [closed, opens'.unique opens]
    exact ⟨current.symm, below.symm⟩
  · rw [Call.perform_eq] at failed
    split at failed <;> cases failed
    rfl

/-- Two scopes, one in the other, with other changes inside them, of which two ask for dialects
that there are not. -/
def sampleCalls : List Call :=
  [.openScope (Text.word "en"), .activate (Text.word "xx"), .openScope (Text.word "de"),
    .openScope (Text.word "xx"), .activate (Text.word "en"), .activate (Text.word "de"),
    .closeScope 1, .closeScope 0]

theorem scopes_nest_sampleCalls :
    Call.isNested ⟨.german, []⟩ sampleCalls = true ∧
      (Call.run (sampleCalls.take 6) ⟨.german, []⟩).current = .german ∧
      (Call.run (sampleCalls.take 7) ⟨.german, []⟩).current = .english ∧
      (Call.run sampleCalls ⟨.german, []⟩).current = .german ∧
      (Call.openScope (Text.word "xx")).perform (Call.run (sampleCalls.take 3) ⟨.german, []⟩) =
        .error (.unknownDialect (Text.word "xx"))
          (Call.run (sampleCalls.take 3) ⟨.german, []⟩) := by
  have nested : Call.isNested ⟨.german, []⟩ sampleCalls = true := by decide
  obtain ⟨closes, fails⟩ := scopes_nest .german sampleCalls nested
  have inner := (closes (sampleCalls.take 6) 1 [.closeScope 0] rfl).2
    (sampleCalls.take 2) ⟨_, _, _, rfl, rfl⟩
  have outer := (closes (sampleCalls.take 7) 0 [] rfl).2 [] ⟨_, _, _, rfl, rfl⟩
  have failed := fails (sampleCalls.take 3) _ (sampleCalls.drop 4) rfl _ _ rfl
  exact ⟨nested, rfl, inner.1, outer.1, congrArg (EStateM.Result.error _) failed⟩

end ActiveDialect

end Gherkin
