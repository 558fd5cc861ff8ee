import Mathlib.Data.List.Basic

/-! A sequence that arrives in pieces: the pieces that are left when its first
elements have been taken, and the positions at which a piece ends. -/
namespace Chunks
variable {α : Type}

/-- What is left of nonempty pieces behind the first `n` elements. -/
def advance : (n : Nat) → List (List α) → List (List α)
  | _, [] => []
  | n, piece :: pieces =>
    if piece.length ≤ n then advance (n - piece.length) pieces else piece.drop n :: pieces

/-- A piece ends behind the first `p` elements. -/
def EndsAt (pieces : List (List α)) (p : Nat) : Prop :=
  ∃ before after, pieces = before ++ after ∧ before.flatten.length = p

theorem advance_whole {n : Nat} (piece : List α) (pieces : List (List α))
    (whole : piece.length ≤ n) : advance n (piece :: pieces) = advance (n - piece.length) pieces :=
  if_pos whole

theorem advance_part {n : Nat} (piece : List α) (pieces : List (List α)) (part : n < piece.length) :
    advance n (piece :: pieces) = piece.drop n :: pieces :=
  if_neg (by omega)

theorem advance_zero (pieces : List (List α)) (nonempty : ∀ p ∈ pieces, p ≠ []) :
    advance 0 pieces = pieces := by
  cases pieces with
  | nil => rfl
  | cons piece pieces => exact advance_part _ _ (List.length_pos_iff.mpr (nonempty piece (by simp)))

theorem flatten_advance (n : Nat) (pieces : List (List α)) :
    (advance n pieces).flatten = pieces.flatten.drop n := by
  induction pieces generalizing n with
  | nil => simp [advance]
  | cons piece pieces ih =>
    by_cases whole : piece.length ≤ n
    · rw [advance_whole _ _ whole, ih, List.flatten_cons, List.drop_append,
        List.drop_of_length_le whole, List.nil_append]
    · rw [advance_part _ _ (by omega), List.flatten_cons, List.flatten_cons, List.drop_append,
        Nat.sub_eq_zero_of_le (by omega), List.drop_zero]

theorem nonempty_advance (n : Nat) (pieces : List (List α)) (nonempty : ∀ p ∈ pieces, p ≠ []) :
    ∀ p ∈ advance n pieces, p ≠ [] := by
  induction pieces generalizing n with
  | nil => simp [advance]
  | cons piece pieces ih =>
    have tail : ∀ p ∈ pieces, p ≠ [] := fun p member => nonempty p (by simp [member])
    by_cases whole : piece.length ≤ n
    · rw [advance_whole _ _ whole]
      exact ih _ tail
    · rw [advance_part _ _ (by omega)]
      intro p member
      rcases List.mem_cons.mp member with rfl | member
      · exact List.ne_nil_of_length_pos (by rw [List.length_drop]; omega)
      · exact tail p member

theorem advance_advance (m n : Nat) (pieces : List (List α)) :
    advance m (advance n pieces) = advance (n + m) pieces := by
  induction pieces generalizing n with
  | nil => rfl
  | cons piece pieces ih =>
    by_cases whole : piece.length ≤ n
    · rw [advance_whole _ _ whole, ih, advance_whole _ _ (by omega), Nat.sub_add_comm whole]
    · rw [advance_part _ _ (by omega)]
      by_cases more : piece.length ≤ n + m
      · rw [advance_whole _ _ (by rw [List.length_drop]; omega), advance_whole _ _ more,
          List.length_drop]
        congr 1
        omega
      · rw [advance_part _ _ (by rw [List.length_drop]; omega), advance_part _ _ (by omega),
          List.drop_drop]

theorem endsAt_cons {piece : List α} {pieces : List (List α)} {p : Nat} :
    EndsAt (piece :: pieces) p ↔ p = 0 ∨ ∃ q, EndsAt pieces q ∧ p = piece.length + q := by
  constructor
  · rintro ⟨before, after, same, rfl⟩
    cases before with
    | nil => exact .inl rfl
    | cons first before =>
      cases same
      exact .inr ⟨_, ⟨before, after, rfl, rfl⟩, by simp⟩
  · rintro (rfl | ⟨q, ⟨before, after, rfl, rfl⟩, rfl⟩)
    · exact ⟨[], _, rfl, rfl⟩
    · exact ⟨piece :: before, after, rfl, by simp⟩

/-- The ends behind the elements that were taken stay where they are. -/
theorem endsAt_advance (n : Nat) {pieces : List (List α)} {p : Nat} (positive : 0 < p) :
    EndsAt (advance n pieces) p ↔ EndsAt pieces (n + p) := by
  induction pieces generalizing n with
  | nil =>
    constructor <;>
    · rintro ⟨before, after, same, size⟩
      rw [(List.append_eq_nil_iff.mp same.symm).1] at size
      simp only [List.flatten_nil, List.length_nil] at size
      omega
  | cons piece pieces ih =>
    by_cases whole : piece.length ≤ n
    · rw [advance_whole _ _ whole, ih, endsAt_cons]
      constructor
      · exact fun ends => .inr ⟨_, ends, by omega⟩
      · rintro (zero | ⟨q, ends, same⟩)
        · omega
        · rwa [show n - piece.length + p = q by omega]
    · rw [advance_part _ _ (by omega), endsAt_cons, endsAt_cons, List.length_drop]
      constructor
      · rintro (zero | ⟨q, ends, same⟩)
        · omega
        · exact .inr ⟨q, ends, by omega⟩
      · rintro (zero | ⟨q, ends, same⟩)
        · omega
        · exact .inr ⟨q, ends, by omega⟩

end Chunks
