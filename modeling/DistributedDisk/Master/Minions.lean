import DistributedDisk.ConfigManager
import DistributedDisk.Master.StringToIp

/-! `ReadIpsAndPorts`: the minions of the configuration, by keys that are printed into a
buffer of three bytes. -/
namespace DistributedDisk
open Text Fallible ConfigManager

namespace Master

inductive Failure where
  | config (failure : ConfigManager.Failure)
  | ip (fault : StringToIp.Fault)
  | overrun
  deriving DecidableEq

/-- `sprintf` of "%d", which writes the null, too. -/
def sprintf (size i : Nat) : Except Failure (List Char) :=
  if (Nat.toDigits 10 i).length + 1 ≤ size then .ok (Nat.toDigits 10 i) else .error .overrun

def readNumOfMinions (configMap : ConfigMap) : Except Failure UInt32 := do
  let num ← (getConfig configMap "NUM_OF_MINIONS".toList).mapError .config
  return (atoi (cStr num).chars).toUInt32

/-- The loop's body. -/
def readMinion (configMap : ConfigMap) (i : Nat) : Except Failure (UInt32 × UInt16) := do
  let minionNum ← sprintf 3 i
  let ip ← (getConfig configMap ("MINION_IP_".toList ++ minionNum)).mapError .config
  let port ← (getConfig configMap ("MINION_PORT_".toList ++ minionNum)).mapError .config
  let address ← (stringToIp (cStr ip)).mapError .ip
  return (address, (atoi (cStr port).chars).toInt16.toUInt16)

/-- `num_of_minions` is an `int` here. -/
def readIpsAndPorts (configMap : ConfigMap) : Except Failure (List (UInt32 × UInt16)) := do
  let numOfMinions ← readNumOfMinions configMap
  (List.range' 1 numOfMinions.toInt32.toInt.toNat).mapM (readMinion configMap)

def ipKey (i : Nat) : List Char := "MINION_IP_".toList ++ Nat.toDigits 10 i

def portKey (i : Nat) : List Char := "MINION_PORT_".toList ++ Nat.toDigits 10 i

/-- The configuration has `n` minions. -/
structure Configures (configMap : ConfigMap) (n : Nat) : Prop where
  num : ∃ num, configMap "NUM_OF_MINIONS".toList = some num ∧ num ≠ [] ∧
    (∀ c ∈ num, c.isDigit = true) ∧ Nat.ofDigitChars 10 num 0 = n
  ip : ∀ i, 1 ≤ i → i ≤ n → ∃ ip, configMap (ipKey i) = some ip
  port : ∀ i, 1 ≤ i → i ≤ n → ∃ port, configMap (portKey i) = some port

/-- The entry comes from the configured address and port of the minion. -/
def Built (configMap : ConfigMap) (i : Nat) (entry : UInt32 × UInt16) : Prop :=
  ∃ ip port, configMap (ipKey i) = some ip ∧ configMap (portKey i) = some port ∧
    stringToIp (cStr ip) = .ok entry.1 ∧ entry.2 = (atoi (cStr port).chars).toInt16.toUInt16

/-- What is asked: an entry for each minion, and with it that no write leaves the buffer. -/
def Reads (configMap : ConfigMap) (n : Nat) : Prop :=
  ∃ entries, readIpsAndPorts configMap = .ok entries ∧ entries.length = n ∧
    ∀ i (h : i < entries.length), Built configMap (i + 1) entries[i]

/-- The addresses are strings that `StringToIp` reads without a fault. -/
def Readable (configMap : ConfigMap) (n : Nat) : Prop :=
  ∀ i, 1 ≤ i → i ≤ n → ∀ ip, configMap (ipKey i) = some ip →
    (cStr ip).chars.length ≤ 19 ∧ StringToIp.Tokens 3 (cStr ip).chars

section loop
variable {configMap : ConfigMap} {i n : Nat}

/-- The number fits the buffer exactly up to 99. -/
theorem sprintf_ok {text : List Char} :
    sprintf 3 i = .ok text ↔ i ≤ 99 ∧ Nat.toDigits 10 i = text := by
  have fits := Nat.length_toDigits_le_iff (b := 10) (n := i) (k := 2) (by decide) (by decide)
  rw [sprintf]
  split
  case isTrue short => simp [show i ≤ 99 by omega]
  case isFalse long => simp [show ¬i ≤ 99 by omega]

theorem readMinion_ok_iff {entry : UInt32 × UInt16} :
    readMinion configMap i = .ok entry ↔ i ≤ 99 ∧ Built configMap i entry := by
  simp only [readMinion, bind_ok, mapError_ok, sprintf_ok, getConfig_ok]
  constructor
  · rintro ⟨_, ⟨small, rfl⟩, ip, hasIp, port, hasPort, address, read, ⟨⟩⟩
    exact ⟨small, ip, port, hasIp, hasPort, read, rfl⟩
  · rintro ⟨small, ip, port, hasIp, hasPort, read, portEq⟩
    exact ⟨_, ⟨small, rfl⟩, ip, hasIp, port, hasPort, entry.1, read, by rw [← portEq]; rfl⟩

/-- The number of entries that a run of the loop makes, if no iteration fails. -/
theorem readIpsAndPorts_ok {entries : List (UInt32 × UInt16)}
    (returned : readIpsAndPorts configMap = .ok entries) :
    entries.length ≤ 99 ∧ ∀ i (h : i < entries.length), Built configMap (i + 1) entries[i] := by
  obtain ⟨num, -, mapped⟩ := bind_ok.mp returned
  obtain ⟨length, each⟩ := List.forall₂_iff_get.mp (forall₂_of_mapM mapped)
  have built i (h : i < entries.length) :
      i + 1 ≤ 99 ∧ Built configMap (i + 1) entries[i] := by
    have read := each i (length ▸ h) h
    rw [List.get_eq_getElem, List.getElem_range', readMinion_ok_iff] at read
    simpa [Nat.add_comm] using read
  refine ⟨?_, fun i h => (built i h).2⟩
  by_contra long
  have last := (built 99 (by omega)).1
  omega

theorem Reads.le (reads : Reads configMap n) : n ≤ 99 := by
  obtain ⟨entries, returned, rfl, -⟩ := reads
  exact (readIpsAndPorts_ok returned).1

theorem Reads.readable (reads : Reads configMap n) : Readable configMap n := by
  obtain ⟨entries, -, rfl, built⟩ := reads
  intro i from_one le ip configured
  obtain ⟨ip', port, hasIp, -, read, -⟩ := built (i - 1) (by omega)
  rw [Nat.sub_add_cancel from_one, configured] at hasIp
  obtain rfl := Option.some.inj hasIp
  exact (StringToIp.stringToIp_ok_iff _).mp ⟨_, read⟩

theorem Configures.reads (configures : Configures configMap n) (small : n ≤ 99)
    (readable : Readable configMap n) : Reads configMap n := by
  obtain ⟨num, hasNum, some, digits, value⟩ := configures.num
  have count : (atoi (cStr num).chars).toUInt32.toInt32.toInt.toNat = n := by
    rw [cStr_digits digits, Int32.toInt32_toUInt32, atoi,
      strtol_digits some digits (by omega), value, Int32.toInt_ofInt, Int.bmod_def]
    simp only [Int32.size]
    omega
  have each : ∀ i ∈ List.range' 1 n, ∃ entry, readMinion configMap i = .ok entry := by
    intro i member
    obtain ⟨from_one, below⟩ := List.mem_range'_1.mp member
    obtain ⟨ip, hasIp⟩ := configures.ip i from_one (by omega)
    obtain ⟨port, hasPort⟩ := configures.port i from_one (by omega)
    obtain ⟨address, read⟩ := (StringToIp.stringToIp_ok_iff _).mpr
      (readable i from_one (by omega) ip hasIp)
    exact ⟨(address, _), readMinion_ok_iff.mpr ⟨by omega, ip, port, hasIp, hasPort, read, rfl⟩⟩
  obtain ⟨entries, mapped⟩ := exists_mapM each
  have returned : readIpsAndPorts configMap = .ok entries := by
    simp only [readIpsAndPorts, readNumOfMinions, bind_ok, mapError_ok, getConfig_ok]
    refine ⟨_, ⟨num, hasNum, rfl⟩, ?_⟩
    rw [count]
    exact mapped
  have length := (forall₂_of_mapM mapped).length_eq
  rw [List.length_range'] at length
  exact ⟨entries, returned, length.symm, (readIpsAndPorts_ok returned).2⟩

end loop

/-- The configuration of `n` minions that all have one address and port. -/
def minions (n : Nat) : ConfigMap := fun key =>
  if key = "NUM_OF_MINIONS".toList then some (Nat.toDigits 10 n)
  else if ∃ i ∈ List.range' 1 n, key = ipKey i then some "10.0.0.1".toList
  else if ∃ i ∈ List.range' 1 n, key = portKey i then some "8000".toList
  else none

theorem minions_ip {i n : Nat} (from_one : 1 ≤ i) (le : i ≤ n) :
    minions n (ipKey i) = some "10.0.0.1".toList := by
  have other (digits : List Char) :
      "MINION_IP_".toList ++ digits ≠ "NUM_OF_MINIONS".toList := by simp
  have listed : ∃ j ∈ List.range' 1 n, ipKey i = ipKey j :=
    ⟨i, List.mem_range'_1.mpr (by omega), rfl⟩
  exact (if_neg (other _)).trans (if_pos listed)

theorem minions_port {i n : Nat} (from_one : 1 ≤ i) (le : i ≤ n) :
    minions n (portKey i) = some "8000".toList := by
  have other (digits : List Char) :
      "MINION_PORT_".toList ++ digits ≠ "NUM_OF_MINIONS".toList := by simp
  have no_ip (digits digits' : List Char) :
      "MINION_PORT_".toList ++ digits ≠ "MINION_IP_".toList ++ digits' := by simp
  have listed : ∃ j ∈ List.range' 1 n, portKey i = portKey j :=
    ⟨i, List.mem_range'_1.mpr (by omega), rfl⟩
  have unlisted : ¬∃ j ∈ List.range' 1 n, portKey i = ipKey j := by
    rintro ⟨j, -, same⟩
    exact no_ip _ _ same
  exact (if_neg (other _)).trans ((if_neg unlisted).trans (if_pos listed))

theorem configures_minions (n : Nat) : Configures (minions n) n where
  num := ⟨Nat.toDigits 10 n, if_pos rfl, Nat.toDigits_ne_nil,
    fun _ => Nat.isDigit_of_mem_toDigits (by decide) (by decide), Nat.ofDigitChars_ten_toDigits⟩
  ip _ from_one le := ⟨_, minions_ip from_one le⟩
  port _ from_one le := ⟨_, minions_port from_one le⟩

theorem readable_minions (n : Nat) : Readable (minions n) n := by
  intro i from_one le ip configured
  obtain rfl := Option.some.inj ((minions_ip from_one le).symm.trans configured)
  refine ⟨by decide, (StringToIp.stringToIp_ok_iff _).mp ⟨0x0a000001, ?_⟩ |>.2⟩
  decide +kernel

/-- The minions are read as configured exactly where there are at most 99 of them and all
the addresses can be read. -/
theorem readIpsAndPorts_reads_iff {configMap : ConfigMap} {n : Nat}
    (configures : Configures configMap n) : Reads configMap n ↔ n ≤ 99 ∧
      Readable configMap n := by
  constructor
  · exact fun reads => ⟨reads.le, reads.readable⟩
  · exact fun ⟨small, readable⟩ => configures.reads small readable

theorem readIpsAndPorts_reads_two : Reads (minions 2) 2 :=
  (readIpsAndPorts_reads_iff (configures_minions 2)).mpr
    ⟨by decide, readable_minions 2⟩

/-- The key of minion 100 is printed past the end of the buffer. -/
theorem readIpsAndPorts_overruns : readMinion (minions 100) 100 = .error .overrun ∧
    ¬∀ configMap n, 1 ≤ n → Configures configMap n → Reads configMap n := by
  constructor
  · rfl
  · intro reads
    exact absurd (reads _ 100 (by decide) (configures_minions 100)).le (by decide)

end Master
end DistributedDisk
