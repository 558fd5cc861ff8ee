import Mathlib.Algebra.Group.Nat.Defs
import Mathlib.Algebra.Group.Int.Defs
import Mathlib.Data.List.TakeWhile
import Mathlib.Tactic.Common

/-! Null-terminated strings, and what `strtok` and `atoi` make of them. -/
namespace Text

/-- The characters in front of the null. -/
structure CString where
  chars : List Char
  terminated : Char.ofNat 0 ∉ chars

/-- `c_str` as its readers see it, up to the first null. -/
def cStr (text : List Char) : CString where
  chars := text.takeWhile (· ≠ Char.ofNat 0)
  terminated member := by simpa using List.mem_takeWhile_imp member

/-- What `strtok` returns, with the rest that its next call goes on with: the delimiter
behind the token is overwritten. There is no token where only delimiters are left. -/
def strtok (delimiters : List Char) (text : List Char) : Option (List Char × List Char) :=
  match text.dropWhile (· ∈ delimiters) with
  | [] => none
  | start => some (start.takeWhile (· ∉ delimiters), (start.dropWhile (· ∉ delimiters)).tail)

def isspace (c : Char) : Bool := c = ' ' ∨ 9 ≤ c.toNat ∧ c.toNat ≤ 13

def sign : List Char → Int × List Char
  | '-' :: rest => (-1, rest)
  | '+' :: rest => (1, rest)
  | text => (1, text)

/-- The value of the digits that `strtol` finds, kept in the range of `long`. -/
def strtol (text : List Char) : Int :=
  let (sign, digits) := sign (text.dropWhile isspace)
  let value := sign * (Nat.ofDigitChars 10 (digits.takeWhile Char.isDigit) 0 : Int)
  max (-2 ^ 63) (min (2 ^ 63 - 1) value)

def atoi (text : List Char) : Int32 := .ofInt (strtol text)

section strtok
variable {delimiters token rest text : List Char} {delimiter : Char}

/-- A token is read that a delimiter ends. -/
theorem strtok_split (skipped : List Char) (skips : ∀ c ∈ skipped, c ∈ delimiters)
    (nonempty : token ≠ []) (inside : ∀ c ∈ token, c ∉ delimiters)
    (ends : delimiter ∈ delimiters) (rest : List Char) :
    strtok delimiters (skipped ++ (token ++ delimiter :: rest)) = some (token, rest) := by
  have passes : ∀ c ∈ token, decide (c ∉ delimiters) = true := by simpa using inside
  have start : (skipped ++ (token ++ delimiter :: rest)).dropWhile (· ∈ delimiters) =
      token ++ delimiter :: rest := by
    rw [List.dropWhile_append_of_pos (by simpa using skips)]
    cases token with
    | nil => exact absurd rfl nonempty
    | cons head tail => exact List.dropWhile_cons_of_neg (by simpa using inside head (.head _))
  rw [strtok, start]
  split
  case h_1 none => exact absurd none (List.append_ne_nil_of_left_ne_nil nonempty _)
  case h_2 =>
    rw [List.takeWhile_append_of_pos passes, List.dropWhile_append_of_pos passes,
      List.takeWhile_cons_of_neg (by simpa using ends),
      List.dropWhile_cons_of_neg (by simpa using ends), List.append_nil]
    rfl

theorem of_dropWhile_eq_cons {p : Char → Bool} (found : text.dropWhile p = c :: rest) :
    p c = false := by
  have head := List.head?_dropWhile_not p text
  rwa [found] at head

/-- A token that is read is in the text behind delimiters, and a delimiter ends it if there
is a rest. -/
theorem strtok_eq_some (read : strtok delimiters text = some (token, rest)) (more : rest ≠ []) :
    ∃ skipped delimiter, (∀ c ∈ skipped, c ∈ delimiters) ∧ token ≠ [] ∧
      (∀ c ∈ token, c ∉ delimiters) ∧ delimiter ∈ delimiters ∧
      text = skipped ++ (token ++ delimiter :: rest) := by
  have front : text.takeWhile (· ∈ delimiters) ++ text.dropWhile (· ∈ delimiters) = text :=
    List.takeWhile_append_dropWhile
  rw [strtok] at read
  cases start : text.dropWhile (· ∈ delimiters) with
  | nil =>
    rw [start] at read
    cases read
  | cons head tail =>
    rw [start] at read front
    obtain ⟨rfl, rfl⟩ := Prod.mk.inj (Option.some.inj read)
    have outside : head ∉ delimiters := by simpa using of_dropWhile_eq_cons start
    have back : (head :: tail).takeWhile (· ∉ delimiters) ++
        (head :: tail).dropWhile (· ∉ delimiters) = head :: tail := List.takeWhile_append_dropWhile
    cases behind : (head :: tail).dropWhile (· ∉ delimiters) with
    | nil =>
      rw [behind] at more
      exact absurd rfl more
    | cons delimiter rest =>
      rw [behind] at back
      refine ⟨text.takeWhile (· ∈ delimiters), delimiter, fun c member => ?_, ?_,
        fun c member => ?_, ?_, ?_⟩
      · simpa using List.mem_takeWhile_imp member
      · rw [List.takeWhile_cons_of_pos (by simpa using outside)]
        exact List.cons_ne_nil _ _
      · simpa using List.mem_takeWhile_imp member
      · simpa using of_dropWhile_eq_cons behind
      · rw [List.tail_cons, back, front]

theorem strtok_nil (text : List Char) :
    strtok [] text = if text = [] then none else some (text, []) := by
  cases text with
  | nil => rfl
  | cons head tail =>
    have none : tail.dropWhile (fun _ => true) = [] := List.dropWhile_eq_nil_iff.mpr (by simp)
    simp [strtok, none]

end strtok

theorem isDigit_toNat {c : Char} (digit : c.isDigit = true) : 48 ≤ c.toNat := by
  rw [Char.isDigit, Bool.and_eq_true, decide_eq_true_eq, ge_iff_le, UInt32.le_iff_toNat_le] at digit
  exact digit.1

theorem cStr_digits {text : List Char} (digits : ∀ c ∈ text, c.isDigit = true) :
    (cStr text).chars = text := by
  apply List.takeWhile_eq_self_iff.mpr
  intro c member
  have low := isDigit_toNat (digits c member)
  rw [decide_eq_true_eq]
  rintro rfl
  exact absurd low (by decide)

theorem strtol_digits {text : List Char} (nonempty : text ≠ [])
    (digits : ∀ c ∈ text, c.isDigit = true) (small : Nat.ofDigitChars 10 text 0 < 2 ^ 31) :
    strtol text = Nat.ofDigitChars 10 text 0 := by
  cases text with
  | nil => exact absurd rfl nonempty
  | cons head tail =>
    have digit := digits head (.head _)
    have start : (head :: tail).dropWhile isspace = head :: tail := by
      apply List.dropWhile_cons_of_neg
      have low := isDigit_toNat digit
      have space : head ≠ ' ' := by
        rintro rfl
        exact absurd low (by decide)
      simp only [isspace, space, false_or, decide_eq_true_eq]
      omega
    have unsigned : sign (head :: tail) = (1, head :: tail) := by
      rw [sign]
      · rintro rest ⟨⟩
        exact absurd digit (by decide)
      · rintro rest ⟨⟩
        exact absurd digit (by decide)
    have all : (head :: tail).takeWhile Char.isDigit = head :: tail :=
      List.takeWhile_eq_self_iff.mpr digits
    simp only [strtol, start, unsigned, all]
    omega

theorem toNat_ofInt {n : Nat} (small : n < 2 ^ 31) :
    (Int32.ofInt (n : Int)).toUInt32.toNat = n := by
  rw [← UInt32.toNat_toBitVec, Int32.toBitVec_toUInt32, Int32.toBitVec_ofInt, BitVec.toNat_ofInt]
  omega

theorem atoi_digits {text : List Char} (nonempty : text ≠ [])
    (digits : ∀ c ∈ text, c.isDigit = true) (small : Nat.ofDigitChars 10 text 0 < 2 ^ 31) :
    (atoi text).toUInt32.toNat = Nat.ofDigitChars 10 text 0 := by
  rw [atoi, strtol_digits nonempty digits small, toNat_ofInt small]

end Text
