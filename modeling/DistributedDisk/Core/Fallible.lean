import Mathlib.Data.List.Forall2

/-! Functions that may fail: what a success of the whole says about the parts. -/
namespace Fallible
variable {α β ε ε' : Type} {results : List β}

theorem bind_ok {x : Except ε α} {next : α → Except ε β} {b : β} :
    x >>= next = .ok b ↔ ∃ a, x = .ok a ∧ next a = .ok b := by
  cases x with
  | error failure => simp [bind, Except.bind]
  | ok a => simp [bind, Except.bind]

theorem mapError_ok {x : Except ε α} {f : ε → ε'} {a : α} :
    x.mapError f = .ok a ↔ x = .ok a := by
  cases x with
  | error failure => simp [Except.mapError]
  | ok a => simp [Except.mapError]

theorem mapM_cons_ok {f : α → Except ε β} {l : List α} :
    (a :: l).mapM f = .ok results ↔
      ∃ b, f a = .ok b ∧ ∃ rest, l.mapM f = .ok rest ∧ b :: rest = results := by
  simp only [List.mapM_cons, bind_ok, pure, Except.pure, Except.ok.injEq]

theorem forall₂_of_mapM {f : α → Except ε β} {l : List α} (mapped : l.mapM f = .ok results) :
    List.Forall₂ (fun a b => f a = .ok b) l results := by
  induction l generalizing results with
  | nil =>
    cases mapped
    exact .nil
  | cons a l ih =>
    obtain ⟨b, first, rest, others, rfl⟩ := mapM_cons_ok.mp mapped
    exact .cons first (ih others)

theorem exists_mapM {f : α → Except ε β} {l : List α} (each : ∀ a ∈ l, ∃ b, f a = .ok b) :
    ∃ results, l.mapM f = .ok results := by
  induction l with
  | nil => exact ⟨[], rfl⟩
  | cons a l ih =>
    obtain ⟨⟨b, first⟩, each⟩ := List.forall_mem_cons.mp each
    obtain ⟨rest, others⟩ := ih each
    exact ⟨b :: rest, mapM_cons_ok.mpr ⟨b, first, rest, others, rfl⟩⟩

end Fallible
