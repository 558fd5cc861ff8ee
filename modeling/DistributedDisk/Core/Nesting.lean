import Mathlib.Algebra.GroupWithZero.Nat
import Mathlib.Algebra.BigOperators.Group.List.Basic
import Mathlib.Order.WellFounded

/-! Calls that nest along a well-founded relation: what a call costs with all that it
calls, and locks that are taken one below the other. -/
namespace Nesting

section
variable {α : Type} (calls : α → List α)

/-- `a` is called by `b`. -/
def Called (a b : α) : Prop := a ∈ calls b

/-- What a call costs with the calls it makes, `base` for each call by itself. -/
noncomputable def cost (order : WellFounded (Called calls)) (base : Nat) : α → Nat :=
  order.fix fun a rec => base + ((calls a).attach.map fun b => 1 + rec b.1 b.2).sum

/-- What a list of calls costs its caller. -/
def total (cost : α → Nat) (l : List α) : Nat := (l.map fun a => 1 + cost a).sum

@[simp] theorem total_nil (cost : α → Nat) : total cost [] = 0 := rfl

@[simp] theorem total_cons (cost : α → Nat) (a : α) (l : List α) :
    total cost (a :: l) = 1 + cost a + total cost l := by simp [total]

@[simp] theorem total_append (cost : α → Nat) (l l' : List α) :
    total cost (l ++ l') = total cost l + total cost l' := by simp [total]

/-- What nests along the relation never comes back to itself. -/
theorem acyclic {r : α → α → Prop} (acc : Acc r a) : ¬ Relation.TransGen r a a := by
  replace acc := acc.transGen
  induction acc with
  | intro a _ ih => exact fun back => ih a back back

end

section
variable {ι L : Type} {waits : ι → Option L} {holder : L → Option ι} {below : L → L → Prop}

end
end Nesting
