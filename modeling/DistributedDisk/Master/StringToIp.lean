import DistributedDisk.Core.Fallible
import DistributedDisk.Core.Text

/-! `StringToIp`: the text of an address becomes a word, through a buffer of 20 bytes and
four tokens of `strtok`. -/
namespace DistributedDisk
open Text Fallible

namespace StringToIp

/-- `strcpy` past the end of the buffer, and `atoi` of a null pointer. -/
inductive Fault where
  | overrun
  | nullToken
  deriving DecidableEq

/-- `strcpy` writes the null, too. -/
def strcpy (size : Nat) (text : CString) : Except Fault (List Char) :=
  if text.chars.length + 1 ≤ size then .ok text.chars else .error .overrun

/-- `str_num = strtok(.., delimiters)`, for `atoi`. -/
def nextToken (delimiters text : List Char) : Except Fault (List Char × List Char) :=
  match strtok delimiters text with
  | none => .error .nullToken
  | some read => .ok read

end StringToIp

open StringToIp in
/-- The second shift is by 26; `"\0"` has no delimiters. -/
def stringToIp (ip : CString) : Except Fault UInt32 := do
  let buffer ← strcpy 20 ip
  let (strNum, rest) ← nextToken ['.'] buffer
  let intIp := (atoi strNum).toUInt32 <<< 24
  let (strNum, rest) ← nextToken ['.'] rest
  let intIp := intIp ||| (atoi strNum).toUInt32 <<< 26
  let (strNum, rest) ← nextToken ['.'] rest
  let intIp := intIp ||| (atoi strNum).toUInt32 <<< 8
  let (strNum, _) ← nextToken [] rest
  return intIp ||| (atoi strNum).toUInt32

namespace StringToIp

/-- A number from 0 to 255 in one to three decimal digits. -/
structure Octet (text : List Char) (n : Nat) : Prop where
  nonempty : text ≠ []
  length_le : text.length ≤ 3
  digits : ∀ c ∈ text, c.isDigit = true
  value : Nat.ofDigitChars 10 text 0 = n
  le : n ≤ 255

/-- The text "a.b.c.d". -/
def Quad (text : List Char) (a b c d : Nat) : Prop :=
  ∃ p q r s, Octet p a ∧ Octet q b ∧ Octet r c ∧ Octet s d ∧
    text = p ++ '.' :: (q ++ '.' :: (r ++ '.' :: s))

/-- The text has at least `n` tokens that a dot ends, and something behind the last of
these dots. -/
inductive Tokens : Nat → List Char → Prop where
  | rest : rest ≠ [] → Tokens 0 rest
  | next (dots token : List Char) : (∀ c ∈ dots, c = '.') → token ≠ [] → '.' ∉ token →
      Tokens n rest → Tokens (n + 1) (dots ++ (token ++ '.' :: rest))

/-- What is asked: the value of a dotted quad, and no fault on any other string. -/
structure Parses (ip : CString) : Prop where
  quad : ∀ a b c d, Quad ip.chars a b c d → ∃ word, stringToIp ip = .ok word ∧
    word.toNat = a * 2 ^ 24 + b * 2 ^ 16 + c * 2 ^ 8 + d
  other : (¬∃ a b c d, Quad ip.chars a b c d) → ∃ word, stringToIp ip = .ok word

/-- The string fits the buffer, has its four tokens, and no second octet but 0. -/
structure Fits (ip : CString) : Prop where
  length : ip.chars.length ≤ 19
  tokens : Tokens 3 ip.chars
  second : ∀ a b c d, Quad ip.chars a b c d → b = 0

theorem Tokens.ne_nil (tokens : Tokens n text) : text ≠ [] := by
  cases tokens with
  | rest some => exact some
  | next => simp

theorem tokens_zero : Tokens 0 text ↔ text ≠ [] := by
  constructor
  · exact Tokens.ne_nil
  · exact .rest

/-- The tokens of the text are those that `strtok` reads. -/
theorem tokens_succ {text : List Char} : Tokens (n + 1) text ↔
    ∃ token rest, strtok ['.'] text = some (token, rest) ∧ Tokens n rest := by
  constructor
  · rintro (_ | ⟨dots, token, skips, some, inside, tokens⟩)
    refine ⟨token, _, strtok_split dots (by simpa using skips) some ?_ (.head _) _, tokens⟩
    rintro c member listed
    exact inside (List.mem_singleton.mp listed ▸ member)
  · rintro ⟨token, rest, read, tokens⟩
    obtain ⟨dots, dot, skips, some, inside, ends, rfl⟩ := strtok_eq_some read tokens.ne_nil
    obtain rfl := List.mem_singleton.mp ends
    exact .next dots token (by simpa using skips) some (fun member => inside _ member ends) tokens

theorem nextToken_ok {delimiters text : List Char} {read : List Char × List Char} :
    nextToken delimiters text = .ok read ↔ strtok delimiters text = some read := by
  rw [nextToken]
  cases strtok delimiters text with
  | none => simp
  | some read => simp

theorem strcpy_ok {ip : CString} {buffer : List Char} :
    strcpy 20 ip = .ok buffer ↔ ip.chars.length ≤ 19 ∧ ip.chars = buffer := by
  rw [strcpy]
  split
  case isTrue fits => simp [show ip.chars.length ≤ 19 by omega]
  case isFalse long => simp [show ¬ip.chars.length ≤ 19 by omega]

/-- The function ends without a fault exactly on the strings with four tokens that fit. -/
theorem stringToIp_ok_iff (ip : CString) :
    (∃ word, stringToIp ip = .ok word) ↔ ip.chars.length ≤ 19 ∧ Tokens 3 ip.chars := by
  simp only [stringToIp, bind_ok, strcpy_ok, nextToken_ok, strtok_nil, tokens_succ, tokens_zero]
  constructor
  · rintro ⟨word, buffer, ⟨fits, rfl⟩, first, hasFirst, second, hasSecond, third, hasThird,
      fourth, hasFourth, -⟩
    refine ⟨fits, _, _, hasFirst, _, _, hasSecond, _, _, hasThird, ?_⟩
    intro nothing
    rw [if_pos nothing] at hasFourth
    cases hasFourth
  · rintro ⟨fits, _, _, hasFirst, _, _, hasSecond, _, _, hasThird, more⟩
    exact ⟨_, _, ⟨fits, rfl⟩, _, hasFirst, _, hasSecond, _, hasThird, _, if_neg more, rfl⟩

/-- The second octet lands on the first, two bits further up. -/
theorem packed {a b c d : UInt32} (first : a.toNat ≤ 255) (third : c.toNat ≤ 255)
    (fourth : d.toNat ≤ 255) : (a <<< 24 ||| b <<< 26 ||| c <<< 8 ||| d).toNat =
      (a.toNat ||| 4 * b.toNat % 256) * 2 ^ 24 + c.toNat * 2 ^ 8 + d.toNat := by
  have high : (a <<< 24).toNat = a.toNat <<< 24 := by
    change a.toNat <<< 24 % 2 ^ 32 = a.toNat <<< 24
    rw [Nat.shiftLeft_eq]
    omega
  have shifted : (b <<< 26).toNat = (4 * b.toNat % 256) <<< 24 := by
    change b.toNat <<< 26 % 2 ^ 32 = (4 * b.toNat % 256) <<< 24
    rw [Nat.shiftLeft_eq, Nat.shiftLeft_eq]
    omega
  have low : (c <<< 8).toNat = c.toNat <<< 8 := by
    change c.toNat <<< 8 % 2 ^ 32 = c.toNat <<< 8
    rw [Nat.shiftLeft_eq]
    omega
  simp only [UInt32.toNat_or, high, shifted, low, ← Nat.shiftLeft_or_distrib]
  generalize a.toNat ||| 4 * b.toNat % 256 = top
  have upper : top <<< 24 ||| c.toNat <<< 8 = (top * 2 ^ 16 + c.toNat) <<< 8 := by
    rw [← Nat.shiftLeft_add_eq_or_of_lt]
    · simp only [Nat.shiftLeft_eq]
      omega
    · rw [Nat.shiftLeft_eq]
      omega
  rw [upper, ← Nat.shiftLeft_add_eq_or_of_lt (by omega), Nat.shiftLeft_eq]
  omega

section quad
variable {ip : CString} {text : List Char} {a b c d n : Nat}

theorem Octet.atoi (octet : Octet text n) : (atoi text).toUInt32.toNat = n := by
  have le := octet.le
  have value := octet.value
  rw [atoi_digits octet.nonempty octet.digits (by omega), value]

theorem Octet.no_dot (octet : Octet text n) : ∀ c ∈ text, c ∉ ['.'] := by
  rintro c member dot
  obtain rfl := List.mem_singleton.mp dot
  exact absurd (octet.digits _ member) (by decide)

/-- What the function makes of a dotted quad. -/
theorem stringToIp_quad (quad : Quad ip.chars a b c d) : ∃ word, stringToIp ip = .ok word ∧
    word.toNat = (a ||| 4 * b % 256) * 2 ^ 24 + c * 2 ^ 8 + d := by
  obtain ⟨p, q, r, s, first, second, third, fourth, text⟩ := quad
  have length : ip.chars.length + 1 ≤ 20 := by
    have := first.length_le
    have := second.length_le
    have := third.length_le
    have := fourth.length_le
    simp only [text, List.length_append, List.length_cons]
    omega
  have read {token rest} {n : Nat} (octet : Octet token n) :
      nextToken ['.'] (token ++ '.' :: rest) = .ok (token, rest) :=
    nextToken_ok.mpr (strtok_split [] nofun octet.nonempty octet.no_dot (.head _) rest)
  have last : nextToken [] s = .ok (s, []) := by
    rw [nextToken_ok, strtok_nil, if_neg fourth.nonempty]
  refine ⟨(atoi p).toUInt32 <<< 24 ||| (atoi q).toUInt32 <<< 26 ||| (atoi r).toUInt32 <<< 8 |||
    (atoi s).toUInt32, ?_, ?_⟩
  · rw [stringToIp, strcpy, if_pos length, text]
    simp only [bind, Except.bind, read first, read second, read third, last]
    rfl
  · rw [packed, first.atoi, second.atoi, third.atoi, fourth.atoi]
    · exact first.atoi ▸ first.le
    · exact third.atoi ▸ third.le
    · exact fourth.atoi ▸ fourth.le

theorem Quad.le (quad : Quad text a b c d) : a ≤ 255 ∧ b ≤ 255 ∧ c ≤ 255 ∧ d ≤ 255 := by
  obtain ⟨_, _, _, _, first, second, third, fourth, _⟩ := quad
  exact ⟨first.le, second.le, third.le, fourth.le⟩

/-- The value is right exactly where the second octet is 0. -/
theorem packed_iff (second : b ≤ 255) :
    (a ||| 4 * b % 256) * 2 ^ 24 + c * 2 ^ 8 + d =
      a * 2 ^ 24 + b * 2 ^ 16 + c * 2 ^ 8 + d ↔ b = 0 := by
  constructor
  · intro equal
    generalize a ||| 4 * b % 256 = top at equal
    omega
  · rintro rfl
    simp

theorem Fits.parses (fits : Fits ip) : Parses ip := by
  constructor
  case quad =>
    intro a b c d quad
    obtain ⟨word, returned, value⟩ := stringToIp_quad quad
    exact ⟨word, returned, value.trans ((packed_iff quad.le.2.1).mpr (fits.second _ _ _ _ quad))⟩
  case other =>
    intro _
    exact (stringToIp_ok_iff ip).mpr ⟨fits.length, fits.tokens⟩

theorem Parses.fits (parses : Parses ip) : Fits ip := by
  have ended : ∃ word, stringToIp ip = .ok word := by
    by_cases quad : ∃ a b c d, Quad ip.chars a b c d
    · obtain ⟨a, b, c, d, quad⟩ := quad
      obtain ⟨word, returned, -⟩ := parses.quad a b c d quad
      exact ⟨word, returned⟩
    · exact parses.other quad
  obtain ⟨length, tokens⟩ := (stringToIp_ok_iff ip).mp ended
  refine ⟨length, tokens, fun a b c d quad => ?_⟩
  obtain ⟨word, returned, value⟩ := parses.quad a b c d quad
  obtain ⟨word', returned', value'⟩ := stringToIp_quad quad
  obtain rfl : word = word' := Except.ok.inj (returned.symm.trans returned')
  exact (packed_iff quad.le.2.1).mp (value'.symm.trans value)

end quad
end StringToIp

open StringToIp

/-- A string is read as it should be exactly where its four tokens fit the buffer and it has
no second octet but 0; such addresses keep their values apart. -/
theorem stringToIp_parses_iff (ip : CString) : (Parses ip ↔ Fits ip) ∧
    ∀ ip' a b c d a' b' c' d', Fits ip → Fits ip' → Quad ip.chars a b c d →
      Quad ip'.chars a' b' c' d' → stringToIp ip = stringToIp ip' →
      a = a' ∧ b = b' ∧ c = c' ∧ d = d' := by
  constructor
  · exact ⟨Parses.fits, Fits.parses⟩
  · intro ip' a b c d a' b' c' d' fits fits' quad quad' equal
    obtain ⟨word, returned, value⟩ := fits.parses.quad a b c d quad
    obtain ⟨word', returned', value'⟩ := fits'.parses.quad a' b' c' d' quad'
    obtain rfl : word = word' := Except.ok.inj (by rw [← returned, equal, returned'])
    obtain ⟨_, _, _, _⟩ := quad.le
    obtain ⟨_, _, _, _⟩ := quad'.le
    omega

/-- "0.1.0.0" is read as 4.0.0.0. -/
theorem stringToIp_misread : ¬((∀ ip, Parses ip) ∧
    ∀ ip ip' a b c d a' b' c' d', Quad ip.chars a b c d → Quad ip'.chars a' b' c' d' →
      stringToIp ip = stringToIp ip' → a = a' ∧ b = b' ∧ c = c' ∧ d = d') := by
  rintro ⟨parses, -⟩
  let ip : CString := ⟨['0', '.', '1', '.', '0', '.', '0'], by decide⟩
  have read : stringToIp ip = .ok 0x04000000 := by decide +kernel
  have zero : Octet ['0'] 0 := ⟨by decide, by decide, by simp, rfl, by decide⟩
  have one : Octet ['1'] 1 := ⟨by decide, by decide, by simp, rfl, by decide⟩
  have quad : Quad ip.chars 0 1 0 0 := ⟨['0'], ['1'], ['0'], ['0'], zero, one, zero, zero, rfl⟩
  obtain ⟨word, returned, value⟩ := (parses ip).quad 0 1 0 0 quad
  obtain rfl : 0x04000000 = word := Except.ok.inj (read.symm.trans returned)
  exact absurd value (by decide)

end DistributedDisk
