import Mathlib.Algebra.BigOperators.Group.Finset.Piecewise

/-! How many of the components of a system are in a state of some kind, and what
becomes of that number when one of them moves. -/
namespace Counting
variable {ι S : Type}

/-- The number of components in `s` whose state satisfies `p`. -/
def tally (s : Finset ι) (p : S → Bool) (σ : ι → S) : Nat :=
  (s.filter fun i => p (σ i)).card

@[simp] theorem tally_empty (p : S → Bool) (σ : ι → S) : tally ∅ p σ = 0 := rfl

theorem tally_congr {s : Finset ι} {p q : S → Bool} {σ τ : ι → S}
    (same : ∀ i ∈ s, p (σ i) = q (τ i)) : tally s p σ = tally s q τ := by
  rw [tally, tally, Finset.filter_congr fun i member => by rw [same i member]]

theorem tally_pos {s : Finset ι} {p : S → Bool} {σ : ι → S} (member : i ∈ s)
    (here : p (σ i) = true) : 0 < tally s p σ :=
  Finset.card_pos.mpr ⟨i, Finset.mem_filter.mpr ⟨member, here⟩⟩

/-- Where at most one is counted, two are the same. -/
theorem eq_of_tally_le_one {s : Finset ι} {p : S → Bool} {σ : ι → S} (most : tally s p σ ≤ 1)
    (first : i ∈ s ∧ p (σ i) = true) (second : j ∈ s ∧ p (σ j) = true) : i = j :=
  Finset.card_le_one.mp most i (Finset.mem_filter.mpr first) j (Finset.mem_filter.mpr second)

theorem tally_eq_zero {s : Finset ι} {p : S → Bool} {σ : ι → S} (none : ∀ i ∈ s, p (σ i) = false) :
    tally s p σ = 0 := by
  rw [tally, Finset.card_eq_zero, Finset.filter_eq_empty_iff]
  exact fun i member => by rw [none i member]; decide

/-- What is counted lies within `t`. -/
theorem tally_le_card {s t : Finset ι} {p : S → Bool} {σ : ι → S}
    (within : ∀ i ∈ s, p (σ i) = true → i ∈ t) : tally s p σ ≤ t.card := by
  apply Finset.card_le_card
  intro i member
  obtain ⟨member, here⟩ := Finset.mem_filter.mp member
  exact within i member here

variable [DecidableEq ι]

/-- What holds of every component and of the new state of one. -/
theorem forall_update (P : S → Prop) {σ : ι → S} (all : ∀ j, P (σ j)) (here : P a) (i : ι) :
    ∀ j, P (Function.update σ i a j) := by
  intro j
  by_cases moved : j = i
  · rwa [moved, Function.update_self]
  · rw [Function.update_of_ne moved]
    exact all j

/-- A move to a state of the same kind. -/
theorem apply_update_same {T : Type} (f : S → T) {σ : ι → S} (same : f a = f (σ i)) (j : ι) :
    f (Function.update σ i a j) = f (σ j) := by
  by_cases moved : j = i
  · rw [moved, Function.update_self, same]
  · rw [Function.update_of_ne moved]

theorem tally_keeps (s : Finset ι) {p : S → Bool} {σ : ι → S} (same : p a = p (σ i)) :
    tally s p (Function.update σ i a) = tally s p σ :=
  tally_congr fun j _ => apply_update_same p same j

theorem tally_split {s : Finset ι} (p : S → Bool) (σ : ι → S) (member : i ∈ s) :
    tally s p σ = (if p (σ i) then 1 else 0) + tally (s.erase i) p σ := by
  simp only [tally, Finset.card_filter]
  exact (Finset.add_sum_erase s _ member).symm

theorem tally_erase_update (s : Finset ι) (p : S → Bool) (σ : ι → S) (i : ι) (a : S) :
    tally (s.erase i) p (Function.update σ i a) = tally (s.erase i) p σ :=
  tally_congr fun j member => by rw [Function.update_of_ne (Finset.ne_of_mem_erase member)]

/-- A move into the states that are counted. -/
theorem tally_gains {s : Finset ι} {p : S → Bool} {σ : ι → S} (member : i ∈ s)
    (before : p (σ i) = false) (after : p a = true) :
    tally s p (Function.update σ i a) = tally s p σ + 1 := by
  rw [tally_split p _ member, tally_split p σ member, tally_erase_update, Function.update_self,
    before, after]
  simp only [if_true, Bool.false_eq_true, if_false]
  omega

/-- A move out of them. -/
theorem tally_loses {s : Finset ι} {p : S → Bool} {σ : ι → S} (member : i ∈ s)
    (before : p (σ i) = true) (after : p a = false) :
    tally s p (Function.update σ i a) + 1 = tally s p σ := by
  rw [tally_split p _ member, tally_split p σ member, tally_erase_update, Function.update_self,
    before, after]
  simp only [if_true, Bool.false_eq_true, if_false]
  omega

theorem tally_insert {s : Finset ι} (p : S → Bool) (σ : ι → S) (new : i ∉ s) :
    tally (insert i s) p σ = (if p (σ i) then 1 else 0) + tally s p σ := by
  rw [tally_split p σ (Finset.mem_insert_self i s), Finset.erase_insert new]

/-- What a move does to a sum over the components. -/
theorem sum_update {s : Finset ι} (weight : S → Nat) (σ : ι → S) (member : i ∈ s) (a : S) :
    (∑ j ∈ s, weight (Function.update σ i a j)) + weight (σ i) =
      (∑ j ∈ s, weight (σ j)) + weight a := by
  have others : ∑ j ∈ s.erase i, weight (Function.update σ i a j) =
      ∑ j ∈ s.erase i, weight (σ j) := by
    apply Finset.sum_congr rfl
    intro j member
    rw [Function.update_of_ne (Finset.ne_of_mem_erase member)]
  rw [← Finset.add_sum_erase s _ member, ← Finset.add_sum_erase s (fun j => weight (σ j)) member,
    others, Function.update_self]
  omega

/-- A component that is added in the state `a`. -/
theorem tally_range_succ (p : S → Bool) (σ : Nat → S) (n : Nat) (a : S) :
    tally (.range (n + 1)) p (Function.update σ n a) =
      (if p a then 1 else 0) + tally (.range n) p σ := by
  rw [Finset.range_add_one, tally_insert _ _ Finset.notMem_range_self, Function.update_self]
  congr 1
  apply tally_congr
  intro j member
  rw [Function.update_of_ne (Nat.ne_of_lt (Finset.mem_range.mp member))]

end Counting
