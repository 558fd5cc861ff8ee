import DistributedDisk.Master
import Mathlib.Data.Nat.ModEq
import Mathlib.Data.Fintype.EquivFin
import Mathlib.Data.Nat.Prime.Basic

/-! How the minions share the blocks of a run: the keys are byte offsets, 4096 apart. -/
namespace DistributedDisk

/-- Steps of a length prime to `n`, from anywhere, come to each residue once in `n`. -/
theorem residue_once (prime : Nat.Coprime stride n) (start shift : Nat) (small : m < n) :
    ∃! i, i < n ∧ (stride * (start + i) + shift) % n = m := by
  let visit (i : Fin n) : Fin n :=
    ⟨(stride * (start + i) + shift) % n, Nat.mod_lt _ (Nat.zero_lt_of_lt small)⟩
  have injective : Function.Injective visit := by
    intro i j same
    have steps : stride * (start + i) ≡ stride * (start + j) [MOD n] :=
      Nat.ModEq.add_right_cancel' shift (congrArg Fin.val same)
    have places := Nat.ModEq.add_left_cancel' start
      (Nat.ModEq.cancel_left_of_coprime prime.symm steps)
    exact Fin.ext (places.eq_of_lt_of_lt i.isLt j.isLt)
  have bijective : Function.Bijective visit := Finite.injective_iff_bijective.mp injective
  obtain ⟨i, here, alone⟩ := bijective.existsUnique ⟨m, small⟩
  refine ⟨i, ⟨i.isLt, congrArg Fin.val here⟩, ?_⟩
  rintro j ⟨inside, there⟩
  exact congrArg Fin.val (alone ⟨j, inside⟩ (Fin.ext there))

namespace Raid

/-- The key of a block: `be64toh(request.from)`, the offset in bytes. -/
def blockKey (block : Nat) : UInt64 := .ofNat (4096 * block)

/-- In the run of `n` blocks from `start` each minion is chosen once by `choice`. -/
def Balanced (r : Raid) (start : Nat) (choice : Int32 × Int32 → Int32) : Prop :=
  ∀ minion < r.numOfMinions.toNat, ∃! i, i < r.numOfMinions.toNat ∧
    index (choice (r.chooseMinions (blockKey (start + i)))) = minion

theorem index_cases (x : UInt32) : x.toNat < 2 ^ 31 ∧ index x.toInt32 = x.toNat ∨
    2 ^ 63 ≤ index x.toInt32 := by
  by_cases small : x.toNat < 2 ^ 31
  · exact .inl ⟨small, index_toInt32 x small⟩
  · have negative : x.toBitVec.msb = true := by
      rw [BitVec.msb_eq_true_iff_two_mul_ge]
      simp only [UInt32.toNat_toBitVec]
      omega
    rw [index, ← UInt64.toNat_toBitVec, Int64.toBitVec_toUInt64, Int32.toBitVec_toInt64,
      UInt32.toBitVec_toInt32, BitVec.toNat_signExtend, if_pos negative]
    exact .inr (Nat.le_add_left_of_le (by decide))

variable {r : Raid} {start : Nat}

theorem blockKey_toNat (fits : 4096 * block < 2 ^ 64) : (blockKey block).toNat = 4096 * block :=
  UInt64.toNat_ofNat_of_lt' fits

theorem first_of_index (positive : 0 < r.numOfMinions.toNat)
    (chosen : index (r.chooseMinions offset).1 = minion) (small : minion < 2 ^ 63) :
    minion < 2 ^ 31 ∧ offset.toNat % r.numOfMinions.toNat = minion := by
  obtain ⟨range, same⟩ | large := index_cases (offset % r.numOfMinions.toUInt64).toUInt32
  · rw [first_toNat positive] at range same
    obtain rfl : _ = minion := same.symm.trans chosen
    exact ⟨range, rfl⟩
  · exact absurd (large.trans_eq chosen) (Nat.not_le_of_lt small)

variable (two : 2 ≤ r.numOfMinions.toNat)
  (fits : 4096 * (start + r.numOfMinions.toNat) ≤ 2 ^ 64)
include two fits

theorem odd_of_balanced (balanced : r.Balanced start Prod.fst) : r.numOfMinions.toNat % 2 = 1 := by
  obtain ⟨i, ⟨inside, chosen⟩, _⟩ := balanced 1 two
  have residue := (first_of_index (Nat.zero_lt_of_lt two) chosen (by decide)).2
  rw [blockKey_toNat (by omega)] at residue
  by_contra even
  have parity := congrArg (· % 2) residue
  simp only [Nat.mod_mod_of_dvd _ (Nat.dvd_of_mod_eq_zero (Nat.mod_two_ne_one.mp even))] at parity
  omega

theorem lt_of_balanced (balanced : r.Balanced start Prod.fst) : r.numOfMinions.toNat < 2 ^ 31 := by
  have odd := odd_of_balanced two fits balanced
  by_contra many
  obtain ⟨i, ⟨_, chosen⟩, _⟩ := balanced (2 ^ 31) (by omega)
  have range := (first_of_index (Nat.zero_lt_of_lt two) chosen (by decide)).1
  omega

theorem balanced_of_odd (odd : r.numOfMinions.toNat % 2 = 1)
    (bound : r.numOfMinions.toNat < 2 ^ 31) :
    r.Balanced start Prod.fst ∧ r.Balanced start Prod.snd := by
  have prime : Nat.Coprime 4096 r.numOfMinions.toNat :=
    Nat.Coprime.pow_left 12 (Nat.coprime_two_left.mpr (Nat.odd_iff.mpr odd))
  have key {i : Nat} (inside : i < r.numOfMinions.toNat) :
      (blockKey (start + i)).toNat = 4096 * (start + i) := blockKey_toNat (by omega)
  constructor
  · intro minion small
    obtain ⟨i, ⟨inside, here⟩, alone⟩ := residue_once prime start 0 small
    refine ⟨i, ⟨inside, ?_⟩, ?_⟩
    · rwa [chooseMinions_first two bound, key inside]
    · rintro j ⟨inside', there⟩
      rw [chooseMinions_first two bound, key inside'] at there
      exact alone j ⟨inside', there⟩
  · intro minion small
    obtain ⟨i, ⟨inside, here⟩, alone⟩ := residue_once prime start 1 small
    refine ⟨i, ⟨inside, ?_⟩, ?_⟩
    · rwa [chooseMinions_second two bound, key inside, Nat.mod_add_mod]
    · rintro j ⟨inside', there⟩
      rw [chooseMinions_second two bound, key inside', Nat.mod_add_mod] at there
      exact alone j ⟨inside', there⟩

/-- Every run of `n` blocks is shared evenly exactly when `n` is odd, and an `int`. -/
theorem balanced_iff : r.Balanced start Prod.fst ∧ r.Balanced start Prod.snd ↔
    r.numOfMinions.toNat % 2 = 1 ∧ r.numOfMinions.toNat < 2 ^ 31 := by
  constructor
  · rintro ⟨first, _⟩
    exact ⟨odd_of_balanced two fits first, lt_of_balanced two fits first⟩
  · rintro ⟨odd, bound⟩
    exact balanced_of_odd two fits odd bound

omit two fits

theorem balanced_iff_three : Balanced ⟨3⟩ 5 Prod.fst ∧ Balanced ⟨3⟩ 5 Prod.snd :=
  (balanced_iff (r := ⟨3⟩) (by decide) (by decide)).mpr (by decide)

/-- The two minions that are configured: the second is the first replica of no block. -/
theorem balanced_fails : ¬(Balanced ⟨2⟩ 0 Prod.fst ∧ Balanced ⟨2⟩ 0 Prod.snd) := by
  intro balanced
  obtain ⟨i, ⟨inside, chosen⟩, _⟩ := balanced.1 1 (by decide)
  revert chosen
  have all : ∀ i < 2, index (chooseMinions ⟨2⟩ (blockKey (0 + i))).1 ≠ 1 := by decide
  exact all i inside

end Raid
end DistributedDisk
