import Gherkin.Proofs.Tree.Views
import Mathlib.Data.Finset.Card
import Mathlib.Data.Finset.Range
import Mathlib.Logic.Relation

/-!
# Ancestors

The ancestors of a node are what following the parents leads to. Where all parents exist and
no node leads back to itself, the bound on their number is never reached, so that none is
missed. Nodes that get a parent which does not lie below them close no circle.
-/

namespace Gherkin

namespace Tree

open Relation

variable {tree : Tree} {id above : NodeId}

/-- A node is a child of another one. -/
def HasParent (tree : Tree) (child parent : NodeId) : Prop := tree.parent? child = some parent

/-- Every parent exists. -/
def Closed (tree : Tree) : Prop := ∀ child parent, tree.HasParent child parent → parent < tree.size

/-- No node leads back to itself. -/
def Acyclic (tree : Tree) : Prop := ∀ id, ¬ TransGen tree.HasParent id id

theorem Closed.lt_size (closed : tree.Closed) (below : TransGen tree.HasParent id above) :
    above < tree.size := by
  obtain ⟨child, _, last⟩ := TransGen.tail'_iff.mp below
  exact closed child above last

theorem Closed.not_transGen_size (closed : tree.Closed) :
    ¬ TransGen tree.HasParent id tree.size := fun below =>
  Nat.lt_irrefl _ (closed.lt_size below)

theorem hasParent_add (tree : Tree) (element : Element) :
    (tree.add element).HasParent = tree.HasParent := by
  funext child parent
  rw [HasParent, show (tree.add element).parent? child = tree.parent? child from
    parent?_push rfl tree child, HasParent]

/-! ### Climbing -/

@[simp]
theorem climb_none (tree : Tree) (fuel : Nat) : tree.climb fuel none = [] := by
  cases fuel <;> rfl

theorem reflTransGen_of_mem_climb {fuel : Nat} {start : NodeId}
    (member : above ∈ tree.climb fuel (some start)) : ReflTransGen tree.HasParent start above := by
  induction fuel generalizing start with
  | zero => cases member
  | succ fuel ih =>
    rw [climb] at member
    rcases List.mem_cons.mp member with rfl | higher
    · exact .refl
    · cases found : tree.parent? start with
      | none => simp [found] at higher
      | some parent =>
        rw [found] at higher
        exact .head found (ih higher)

theorem transGen_of_mem_ancestors (member : above ∈ tree.ancestors id) :
    TransGen tree.HasParent id above := by
  rw [ancestors] at member
  cases found : tree.parent? id with
  | none => simp [found] at member
  | some parent =>
    rw [found] at member
    exact .head' found (reflTransGen_of_mem_climb member)

/-- Each node climbed to lies below those climbed to after it. -/
theorem pairwise_climb (fuel : Nat) (start : Option NodeId) :
    (tree.climb fuel start).Pairwise (TransGen tree.HasParent) := by
  induction fuel generalizing start with
  | zero => exact .nil
  | succ fuel ih =>
    cases start with
    | none => exact .nil
    | some id =>
      rw [climb]
      refine .cons (fun above member => ?_) (ih _)
      cases found : tree.parent? id with
      | none => simp [found] at member
      | some parent =>
        rw [found] at member
        exact .head' found (reflTransGen_of_mem_climb member)

/-- A climb that ends before its bound misses no ancestor. -/
theorem mem_climb_of_reflTransGen {fuel : Nat} {start : NodeId}
    (short : (tree.climb fuel (some start)).length < fuel)
    (below : ReflTransGen tree.HasParent start above) : above ∈ tree.climb fuel (some start) := by
  induction fuel generalizing start with
  | zero => exact absurd short (Nat.not_lt_zero _)
  | succ fuel ih =>
    rw [climb] at short ⊢
    rcases below.cases_head with rfl | ⟨parent, found, rest⟩
    · exact List.mem_cons_self
    · have found : tree.parent? start = some parent := found
      rw [found] at short ⊢
      exact List.mem_cons_of_mem _ (ih (Nat.lt_of_succ_lt_succ short) rest)

/-- As many different positions as there are nodes are the positions of all nodes. -/
theorem mem_of_nodup {ids : List NodeId} {size : Nat} (distinct : ids.Nodup)
    (inside : ∀ id ∈ ids, id < size) (long : size ≤ ids.length) (here : id < size) : id ∈ ids := by
  have bounded : ids.toFinset ⊆ Finset.range size := fun id member =>
    Finset.mem_range.mpr (inside id (List.mem_toFinset.mp member))
  have all := Finset.eq_of_subset_of_card_le bounded
    (by rwa [Finset.card_range, List.toFinset_card_of_nodup distinct])
  rwa [← List.mem_toFinset, all, Finset.mem_range]

/-- The ancestors of a node are all nodes that following the parents leads to. -/
theorem mem_ancestors_iff (closed : tree.Closed) (acyclic : tree.Acyclic) :
    above ∈ tree.ancestors id ↔ TransGen tree.HasParent id above := by
  refine ⟨transGen_of_mem_ancestors, fun below => ?_⟩
  obtain ⟨parent, found, rest⟩ := TransGen.head'_iff.mp below
  rw [ancestors, show tree.parent? id = some parent from found]
  refine mem_climb_of_reflTransGen (lt_of_not_ge fun long => ?_) rest
  -- A climb to the bound comes past every node, and so past the one it started at.
  have distinct : (tree.climb tree.size (some parent)).Nodup := by
    refine (pairwise_climb tree.size (some parent)).imp fun between => ?_
    rintro rfl
    exact acyclic _ between
  have inside : ∀ node ∈ tree.climb tree.size (some parent), node < tree.size :=
    fun node member => closed.lt_size (.head' found (reflTransGen_of_mem_climb member))
  have itself := mem_of_nodup distinct inside long (lt_size_of_parent? found)
  exact acyclic id (.head' found (reflTransGen_of_mem_climb itself))

/-! ### Nodes with a new parent -/

/-- Behind the new parent nothing is new: from there on, what is reached afterwards was
reached before. -/
theorem transGen_of_adopted {after : Tree} {parent : NodeId} {ids : List NodeId}
    (adopted : ∀ child other, after.HasParent child other →
      tree.HasParent child other ∨ child ∈ ids ∧ other = parent)
    (apart : ∀ id ∈ ids, ¬ ReflTransGen tree.HasParent parent id)
    (reached : ReflTransGen tree.HasParent parent id)
    (further : TransGen after.HasParent id above) :
    TransGen tree.HasParent id above := by
  induction further with
  | single step =>
    rcases adopted _ _ step with old | ⟨member, -⟩
    · exact .single old
    · exact absurd reached (apart _ member)
  | tail _ step ih =>
    rcases adopted _ _ step with old | ⟨member, -⟩
    · exact ih.tail old
    · exact absurd (reached.trans ih.to_reflTransGen) (apart _ member)

/-- Nodes that get a parent which does not lie below them close no circle. -/
theorem Acyclic.of_adopted {after : Tree} (acyclic : tree.Acyclic) {parent : NodeId}
    {ids : List NodeId}
    (adopted : ∀ child other, after.HasParent child other →
      tree.HasParent child other ∨ child ∈ ids ∧ other = parent)
    (apart : ∀ id ∈ ids, ¬ ReflTransGen tree.HasParent parent id) : after.Acyclic := by
  have through {start stop : NodeId} (path : TransGen after.HasParent start stop) :
      TransGen tree.HasParent start stop ∨ ReflTransGen after.HasParent parent stop := by
    induction path with
    | single step =>
      rcases adopted _ _ step with old | ⟨-, rfl⟩
      · exact .inl (.single old)
      · exact .inr .refl
    | tail _ step ih =>
      rcases ih with before | past
      · rcases adopted _ _ step with old | ⟨-, rfl⟩
        · exact .inl (before.tail old)
        · exact .inr .refl
      · exact .inr (past.tail step)
  intro id circle
  rcases through circle with before | past
  · exact acyclic id before
  · have reached : ReflTransGen tree.HasParent parent id := by
      rcases reflTransGen_iff_eq_or_transGen.mp past with rfl | past
      · exact .refl
      · exact (transGen_of_adopted adopted apart .refl past).to_reflTransGen
    exact acyclic id (transGen_of_adopted adopted apart reached circle)

end Tree

end Gherkin
