/-!
# Outcomes

What a chain of operations that can fail comes to.
-/

namespace Gherkin

theorem Except.exists_of_isOk {ε α : Type} {x : Except ε α} (accepted : x.isOk = true) :
    ∃ a, x = .ok a := by
  cases x with
  | error defect => cases accepted
  | ok a => exact ⟨a, rfl⟩

/-- A chain succeeds when each of its operations does. -/
theorem Except.bind_eq_ok_iff {ε α β : Type} {x : Except ε α} {f : α → Except ε β} {b : β} :
    (x >>= f) = .ok b ↔ ∃ a, x = .ok a ∧ f a = .ok b := by
  cases x <;> simp [bind, Except.bind]

/-- A chain fails when one of its operations does. -/
theorem Except.bind_eq_error_iff {ε α β : Type} {x : Except ε α} {f : α → Except ε β} {e : ε} :
    (x >>= f) = .error e ↔ x = .error e ∨ ∃ a, x = .ok a ∧ f a = .error e := by
  cases x <;> simp [bind, Except.bind]

theorem Except.bind_eq_error_of_error {ε α β : Type} {x : Except ε α} {f : α → Except ε β} {e : ε}
    (failed : x = .error e) : (x >>= f) = .error e := bind_eq_error_iff.2 (.inl failed)

theorem Except.bind_eq_error_of_ok {ε α β : Type} {x : Except ε α} {f : α → Except ε β} {a : α}
    {e : ε} (done : x = .ok a) (failed : f a = .error e) : (x >>= f) = .error e :=
  bind_eq_error_iff.2 (.inr ⟨a, done, failed⟩)

/-- What is made of the outcome at the end does not fail. -/
theorem Except.eq_error_of_bind_pure {ε α β : Type} {x : Except ε α} {f : α → β} {e : ε}
    (failed : (x >>= fun a => pure (f a)) = .error e) : x = .error e := by
  rcases bind_eq_error_iff.1 failed with failed | ⟨_, _, done⟩
  · exact failed
  · cases done

theorem Except.map_eq_ok_iff {ε α β : Type} {x : Except ε α} {f : α → β} {b : β} :
    x.map f = .ok b ↔ ∃ a, x = .ok a ∧ f a = b := by
  cases x <;> simp [Except.map]

theorem Except.map_eq_error_iff {ε α β : Type} {x : Except ε α} {f : α → β} {e : ε} :
    x.map f = .error e ↔ x = .error e := by
  cases x <;> simp [Except.map]

theorem Except.map_map {ε α β γ : Type} (x : Except ε α) (f : α → β) (g : β → γ) :
    (x.map f).map g = x.map fun a => g (f a) := by
  cases x <;> rfl

theorem Except.map_eq_bind {ε α β : Type} (x : Except ε α) (f : α → β) :
    x.map f = x >>= fun a => .ok (f a) := by
  cases x <;> rfl

/-- What is made of the outcome of a chain is made of that of its last operation. -/
theorem Except.map_bind {ε α β γ : Type} (x : Except ε α) (f : α → Except ε β) (g : β → γ) :
    (x >>= f).map g = x >>= fun a => (f a).map g := by
  cases x <;> rfl

/-- What each step of a fold preserves, the fold preserves. -/
theorem Except.foldlM_invariant {ε α β : Type} {step : β → α → Except ε β} {items : List α}
    (Invariant : β → Prop)
    (preserved : ∀ item ∈ items, ∀ before after, Invariant before →
      step before item = .ok after → Invariant after)
    {start stop : β} (holds : Invariant start) (folded : items.foldlM step start = .ok stop) :
    Invariant stop := by
  induction items generalizing start with
  | nil =>
    cases folded
    exact holds
  | cons item rest ih =>
    rw [List.foldlM_cons] at folded
    obtain ⟨middle, stepped, folded⟩ := Except.bind_eq_ok_iff.1 folded
    exact ih (fun other member => preserved other (List.mem_cons_of_mem _ member))
      (preserved item List.mem_cons_self start middle holds stepped) folded

end Gherkin
