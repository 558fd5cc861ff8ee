import DistributedDisk.Commands.Destinations

/-! The two replicas of a block are two different minions of the configuration,
whatever the offset. -/
namespace DistributedDisk

namespace Raid

/-- What each `int` of `ChooseMinions` is over the integers: no conversion of the
computation changes a value, and its one signed addition stays in range. -/
structure Exact (r : Raid) (offset : UInt64) : Prop where
  first : (r.chooseMinions offset).1.toInt = offset.toNat % r.numOfMinions.toNat
  sum : ((r.chooseMinions offset).1 + 1).toInt = (r.chooseMinions offset).1.toInt + 1
  second : (r.chooseMinions offset).2.toInt =
    (offset.toNat % r.numOfMinions.toNat + 1) % r.numOfMinions.toNat

variable {r : Raid} (two : 2 ≤ r.numOfMinions.toNat) (bound : r.numOfMinions.toNat < 2 ^ 31)
include two bound

theorem exact (offset : UInt64) : r.Exact offset := by
  have positive : 0 < r.numOfMinions.toNat := Nat.zero_lt_of_lt two
  have small := Nat.mod_lt offset.toNat positive
  have word := first_toNat positive offset
  have first : (r.chooseMinions offset).1.toInt = offset.toNat % r.numOfMinions.toNat := by
    rw [chooseMinions, toInt_toInt32 _ (by omega), word]
    rfl
  have sum : ((r.chooseMinions offset).1 + 1).toInt = (r.chooseMinions offset).1.toInt + 1 := by
    rw [Int32.toInt_add, first]
    apply Int.bmod_eq_of_le
    all_goals
      have one : (1 : Int32).toInt = 1 := rfl
      omega
  constructor
  · exact first
  · exact sum
  · have next : ((r.chooseMinions offset).1 + 1).toUInt32.toNat =
        offset.toNat % r.numOfMinions.toNat + 1 := by
      rw [chooseMinions, Int32.toUInt32_add, UInt32.toUInt32_toInt32, UInt32.toNat_add, word]
      have one : (1 : Int32).toUInt32.toNat = 1 := rfl
      omega
    have range := Nat.mod_lt (offset.toNat % r.numOfMinions.toNat + 1) positive
    have second : (((r.chooseMinions offset).1 + 1).toUInt32 % r.numOfMinions).toNat =
        (offset.toNat % r.numOfMinions.toNat + 1) % r.numOfMinions.toNat := by
      rw [UInt32.toNat_mod, next]
    have value := toInt_toInt32 _ (second.trans_lt (range.trans bound))
    rw [second] at value
    exact value

end Raid

/-- Both subscripts are inside the vector that the constructor built, they differ, and
without any one of its elements a replica of the block is left. -/
theorem chooseMinions_redundant (raid : Raid) (minions : List (UInt32 × UInt16))
    (count : raid.numOfMinions.toNat = minions.length)
    (two : 2 ≤ raid.numOfMinions.toNat) (bound : raid.numOfMinions.toNat ≤ 2 ^ 31 - 1)
    (offset : UInt64) :
    let chosen := raid.chooseMinions offset
    let minionsData := MinionManager.new minions
    raid.Exact offset ∧
      (0 ≤ chosen.1 ∧ index chosen.1 < minionsData.length) ∧
      (0 ≤ chosen.2 ∧ index chosen.2 < minionsData.length) ∧
      index chosen.1 ≠ index chosen.2 ∧
      ∀ lost, ∃ replica ∈ [chosen.1, chosen.2], index replica ≠ lost ∧
        ∃ minion, MinionManager.getMinionsData minionsData replica = some minion := by
  intro chosen minionsData
  have positive : 0 < raid.numOfMinions.toNat := Nat.zero_lt_of_lt two
  have range : raid.numOfMinions.toNat < 2 ^ 31 := by omega
  have exact := Raid.exact two range offset
  have size : minionsData.length = raid.numOfMinions.toNat := by
    rw [count]
    exact List.length_map ..
  have first : index chosen.1 = offset.toNat % raid.numOfMinions.toNat :=
    Raid.chooseMinions_first two range offset
  have second : index chosen.2 =
      (offset.toNat % raid.numOfMinions.toNat + 1) % raid.numOfMinions.toNat :=
    Raid.chooseMinions_second two range offset
  have firstInside : index chosen.1 < minionsData.length := by
    rw [first, size]
    exact Nat.mod_lt _ positive
  have secondInside : index chosen.2 < minionsData.length := by
    rw [second, size]
    exact Nat.mod_lt _ positive
  have differ : index chosen.1 ≠ index chosen.2 := by
    rw [first, second]
    exact successor_ne two _
  refine ⟨exact, ⟨?_, firstInside⟩, ⟨?_, secondInside⟩, differ, fun lost => ?_⟩
  · rw [Int32.le_iff_toInt_le]
    exact (Int.natCast_nonneg _).trans_eq exact.first.symm
  · rw [Int32.le_iff_toInt_le]
    exact (Int.natCast_nonneg _).trans_eq exact.second.symm
  · by_cases dead : index chosen.1 = lost
    · refine ⟨chosen.2, by simp, fun same => differ (dead.trans same.symm), ?_⟩
      exact ⟨_, List.getElem?_eq_getElem secondInside⟩
    · refine ⟨chosen.1, by simp, dead, ?_⟩
      exact ⟨_, List.getElem?_eq_getElem firstInside⟩

/-- The shipped configuration, and the last offset. -/
theorem chooseMinions_redundant_configured :
    let raid : Raid := ⟨2⟩
    let chosen := raid.chooseMinions 0xffffffffffffffff
    let minionsData := MinionManager.new [(inaddrLoopback, 5007), (inaddrLoopback, 5008)]
    raid.Exact 0xffffffffffffffff ∧
      (0 ≤ chosen.1 ∧ index chosen.1 < minionsData.length) ∧
      (0 ≤ chosen.2 ∧ index chosen.2 < minionsData.length) ∧
      index chosen.1 ≠ index chosen.2 ∧
      ∀ lost, ∃ replica ∈ [chosen.1, chosen.2], index replica ≠ lost ∧
        ∃ minion, MinionManager.getMinionsData minionsData replica = some minion :=
  chooseMinions_redundant ⟨2⟩ [(inaddrLoopback, 5007), (inaddrLoopback, 5008)] rfl
    (by decide) (by decide) 0xffffffffffffffff

end DistributedDisk
