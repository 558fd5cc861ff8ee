import DistributedDisk.AppProtocol

/-! The master's view of its minions: addresses, sockets and the choice of the two
replicas of an offset, in the mixed integer arithmetic of the source. -/
namespace DistributedDisk

structure MinionData where
  ip : UInt32
  port : UInt16
  deriving DecidableEq, Repr

/-- Host to network order on a little-endian host. -/
def htons (x : UInt16) : UInt16 := x <<< 8 ||| x >>> 8

def htonl (x : UInt32) : UInt32 :=
  x <<< 24 ||| (x <<< 8 &&& (0xff0000 : UInt32)) ||| (x >>> 8 &&& (0xff00 : UInt32)) ||| x >>> 24

/-- `sin_addr` and `sin_port` of a socket address, in network order. -/
structure SockAddr where
  addr : UInt32
  port : UInt16
  deriving DecidableEq, Repr

def Socket.sockaddr (ip : UInt32) (port : UInt16) : SockAddr := ⟨htonl ip, htons port⟩

/-- `INADDR_LOOPBACK` -/
def inaddrLoopback : UInt32 := 0x7f000001

/-- The constructor hands `INADDR_LOOPBACK` to `Socket`, not its `ip_` argument. -/
def ClientUDPSocket.sockaddr (_ip : UInt32) (port : UInt16) : SockAddr :=
  Socket.sockaddr inaddrLoopback port

structure Raid where
  numOfMinions : UInt32

/-- `int minion1 = offset % n; int minion2 = (minion1 + 1) % n;` The first
modulus is taken in 64 bits, the second in 32 unsigned bits. -/
def Raid.chooseMinions (r : Raid) (offset : UInt64) : Int32 × Int32 :=
  let minion1 := (offset % r.numOfMinions.toUInt64).toUInt32.toInt32
  let minion2 := ((minion1 + 1).toUInt32 % r.numOfMinions).toInt32
  (minion1, minion2)

/-- An `int` as the index of `operator[]`: sign-extended to `size_t`. -/
def index (i : Int32) : Nat := i.toInt64.toUInt64.toNat

/-- The sign bit of a word that fits an `int`. -/
theorem msb_of_lt (x : UInt32) (small : x.toNat < 2 ^ 31) : x.toBitVec.msb = false := by
  rw [BitVec.msb_eq_false_iff_two_mul_lt]
  simp only [UInt32.toNat_toBitVec]
  omega

theorem index_toInt32 (x : UInt32) (small : x.toNat < 2 ^ 31) : index x.toInt32 = x.toNat := by
  rw [index, ← UInt64.toNat_toBitVec, Int64.toBitVec_toUInt64, Int32.toBitVec_toInt64,
    UInt32.toBitVec_toInt32, BitVec.signExtend_eq_setWidth_of_msb_false (msb_of_lt x small),
    BitVec.toNat_setWidth_of_le (by decide), UInt32.toNat_toBitVec]

theorem toInt_toInt32 (x : UInt32) (small : x.toNat < 2 ^ 31) : x.toInt32.toInt = x.toNat := by
  rw [← Int32.toInt_toBitVec, UInt32.toBitVec_toInt32,
    BitVec.toInt_eq_toNat_of_msb (msb_of_lt x small), UInt32.toNat_toBitVec]

/-- A residue and its successor differ, modulo two or more. -/
theorem successor_ne (two : 2 ≤ n) (k : Nat) : k % n ≠ (k % n + 1) % n := by
  have small := Nat.mod_lt k (Nat.zero_lt_of_lt two)
  by_cases last : k % n + 1 = n
  · rw [last, Nat.mod_self]
    omega
  · rw [Nat.mod_eq_of_lt (show k % n + 1 < n by omega)]
    omega

namespace Raid
variable {r : Raid}

theorem first_toNat (positive : 0 < r.numOfMinions.toNat) (offset : UInt64) :
    (offset % r.numOfMinions.toUInt64).toUInt32.toNat = offset.toNat % r.numOfMinions.toNat := by
  have small := Nat.mod_lt offset.toNat positive
  have range := r.numOfMinions.toNat_lt
  rw [UInt64.toNat_toUInt32, UInt64.toNat_mod, UInt32.toNat_toUInt64]
  omega

variable (two : 2 ≤ r.numOfMinions.toNat) (bound : r.numOfMinions.toNat < 2 ^ 31)
include two bound

theorem chooseMinions_first (offset : UInt64) :
    index (r.chooseMinions offset).1 = offset.toNat % r.numOfMinions.toNat := by
  have small := Nat.mod_lt offset.toNat (show 0 < r.numOfMinions.toNat by omega)
  have first := first_toNat (Nat.zero_lt_of_lt two) offset
  rw [chooseMinions, index_toInt32 _ (by omega), first]

theorem chooseMinions_second (offset : UInt64) : index (r.chooseMinions offset).2 =
    (offset.toNat % r.numOfMinions.toNat + 1) % r.numOfMinions.toNat := by
  have small := Nat.mod_lt offset.toNat (show 0 < r.numOfMinions.toNat by omega)
  have first := first_toNat (Nat.zero_lt_of_lt two) offset
  have second : ((offset % r.numOfMinions.toUInt64).toUInt32.toInt32 + 1).toUInt32.toNat =
      offset.toNat % r.numOfMinions.toNat + 1 := by
    rw [Int32.toUInt32_add, UInt32.toUInt32_toInt32, UInt32.toNat_add, first]
    have one : (1 : Int32).toUInt32.toNat = 1 := rfl
    omega
  have range := Nat.mod_lt (offset.toNat % r.numOfMinions.toNat + 1)
    (show 0 < r.numOfMinions.toNat by omega)
  rw [chooseMinions, index_toInt32 _ (by rw [UInt32.toNat_mod, second]; omega),
    UInt32.toNat_mod, second]

end Raid

/-- The master of at least two minions; `m_raid` and `m_manager` are built from
the same configuration. -/
structure Master where
  raid : Raid
  minionsData : List MinionData
  count : raid.numOfMinions.toNat = minionsData.length
  two_le : 2 ≤ minionsData.length
  lt : minionsData.length < 2 ^ 31

namespace Master
variable (m : Master) (offset : UInt64)

def chooseMinions : Int32 × Int32 := m.raid.chooseMinions offset

/-- `m_minions_data[minion]`, an unchecked subscript. -/
def getMinionsData (minion : Int32) (valid : index minion < m.minionsData.length) : MinionData :=
  m.minionsData[index minion]

theorem first_eq : index (m.chooseMinions offset).1 = offset.toNat % m.minionsData.length := by
  rw [chooseMinions, Raid.chooseMinions_first (by rw [m.count]; exact m.two_le)
    (by rw [m.count]; exact m.lt), m.count]

theorem second_eq : index (m.chooseMinions offset).2 =
    (offset.toNat % m.minionsData.length + 1) % m.minionsData.length := by
  rw [chooseMinions, Raid.chooseMinions_second (by rw [m.count]; exact m.two_le)
    (by rw [m.count]; exact m.lt), m.count]

theorem first_valid : index (m.chooseMinions offset).1 < m.minionsData.length := by
  rw [first_eq]
  exact Nat.mod_lt _ (by have := m.two_le; omega)

theorem second_valid : index (m.chooseMinions offset).2 < m.minionsData.length := by
  rw [second_eq]
  exact Nat.mod_lt _ (by have := m.two_le; omega)

/-- The minions of `ChooseMinions(offset)`. -/
def first : MinionData := m.getMinionsData (m.chooseMinions offset).1 (m.first_valid offset)

def second : MinionData := m.getMinionsData (m.chooseMinions offset).2 (m.second_valid offset)

/-- The shipped configuration: two minions on the master's host. -/
def configured : Master where
  raid := ⟨2⟩
  minionsData := [⟨0x7f000001, 5007⟩, ⟨0x7f000001, 5008⟩]
  count := rfl
  two_le := Nat.le_refl 2
  lt := by decide

end Master
end DistributedDisk
