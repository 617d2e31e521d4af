import Gherkin.Document.Result

/-!
# Numbered results

Emission hands on the next free number, and nothing but the numbers depends on
it. `Numbered.Yields` says what holds of a result whatever number it starts from.
-/

namespace Gherkin

namespace Document

variable {α β γ : Type}

/-- The number of a node; the typed tree has none. -/
def numberEntry (family : Family) (number : Nat) : Entries :=
  if isTyped family then [] else [("id", Json.word (toString number))]

/-- A property of a numbered result, from whatever number it starts. -/
def Numbered.Yields (result : Numbered α) (property : α → Prop) : Prop :=
  ∀ start, property (result.run start).1

namespace Numbered.Yields

theorem pure {property : α → Prop} {value : α} (holds : property value) :
    Yields (Pure.pure value) property := fun _ => holds

theorem bind {first : Numbered α} {next : α → Numbered β} {middle : α → Prop} {property : β → Prop}
    (before : Yields first middle) (after : ∀ value, middle value → Yields (next value) property) :
    Yields (first >>= next) property := fun start =>
  after _ (before start) (first.run start).2

theorem weaken {result : Numbered α} {property weaker : α → Prop} (holds : Yields result property)
    (implies : ∀ value, property value → weaker value) : Yields result weaker := fun start =>
  implies _ (holds start)

theorem and {result : Numbered α} {property other : α → Prop} (holds : Yields result property)
    (also : Yields result other) : Yields result fun value => property value ∧ other value :=
  fun start => ⟨holds start, also start⟩

/-- Results of a list read back as the list, when each of them reads back. -/
theorem mapM {result : α → Numbered β} {read : β → γ} {value : α → γ} {items : List α}
    (each : ∀ item ∈ items, Yields (result item) fun node => read node = value item) :
    Yields (items.mapM result) fun nodes => nodes.map read = items.map value := by
  induction items with
  | nil => exact pure rfl
  | cons item rest ih =>
      rw [List.mapM_cons]
      refine bind (each item List.mem_cons_self) fun node here => ?_
      refine bind (ih fun other member => each other (List.mem_cons_of_mem _ member)) ?_
      intro nodes later
      exact pure (by rw [List.map_cons, List.map_cons, here, later])

/-- A property of each result of a list. -/
theorem mapM_all {result : α → Numbered β} {property : β → Prop} {items : List α}
    (each : ∀ item ∈ items, Yields (result item) property) :
    Yields (items.mapM result) fun nodes => ∀ node ∈ nodes, property node := by
  induction items with
  | nil => exact pure (by simp)
  | cons item rest ih =>
      rw [List.mapM_cons]
      refine bind (each item List.mem_cons_self) fun node here => ?_
      refine bind (ih fun other member => each other (List.mem_cons_of_mem _ member)) ?_
      intro nodes later
      refine pure ?_
      intro other member
      rcases List.mem_cons.mp member with same | member
      · exact same ▸ here
      · exact later other member

/-- A completed node has the entries it was given and its number. -/
theorem complete {family : Family} {entries : Entries} {property : Json → Prop}
    (holds : ∀ number, property (Json.object (entries ++ numberEntry family number))) :
    Yields (Document.complete family entries) property := by
  intro start
  have done := holds start
  unfold numberEntry at done
  unfold Document.complete
  split
  · next typed =>
    simp only [typed, if_true, List.append_nil] at done
    exact done
  · next message =>
    simp only [message] at done
    exact done

end Numbered.Yields

end Document

end Gherkin
