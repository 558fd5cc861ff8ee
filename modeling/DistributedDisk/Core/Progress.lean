import DistributedDisk.Core.Transition
import Mathlib.Algebra.GroupWithZero.Nat

/-! Runs that come to an end: a measure which the system's own steps lower, and which a
step from outside raises by no more than its price. -/
namespace Transition
variable {S E : Type} {step : S → E → S → Prop}

def inner (outside : E → Bool) (tr : List E) : Nat := tr.countP fun e => !outside e

def outer (outside : E → Bool) (tr : List E) : Nat := tr.countP outside

/-- No step of the system itself is possible. -/
def Quiet (outside : E → Bool) (step : S → E → S → Prop) (s : S) : Prop :=
  ∀ e t, step s e t → outside e = true

/-- The measure falls with each step of the system, and grows by at most `price` with a
step from outside. -/
structure Descends (outside : E → Bool) (price : Nat) (measure : S → Nat)
    (step : S → E → S → Prop) (s : S) : Prop where
  inner : ∀ {e t}, step s e t → outside e = false → measure t < measure s
  outer : ∀ {e t}, step s e t → outside e = true → measure t ≤ measure s + price

namespace Run
variable {outside : E → Bool} {price : Nat} {measure : S → Nat} {P : S → Prop}

theorem bounded (preserves : ∀ {s e t}, P s → step s e t → P t)
    (descends : ∀ {s}, P s → Descends outside price measure step s)
    (run : Run step s tr t) (initial : P s) :
    inner outside tr + measure t ≤ measure s + price * outer outside tr := by
  induction run with
  | refl => simp [inner, outer]
  | @next s e t rest u head _ ih =>
    have tail := ih (preserves initial head)
    simp only [inner, outer, List.countP_cons] at tail ⊢
    cases kind : outside e with
    | false =>
      have falls := (descends initial).inner head kind
      simp only [Bool.not_false, if_true, Bool.false_eq_true, if_false, Nat.add_zero]
      omega
    | true =>
      have grows := (descends initial).outer head kind
      simp only [Bool.not_true, Bool.false_eq_true, if_false, if_true, Nat.mul_add, Nat.mul_one]
      omega

end Run
end Transition
