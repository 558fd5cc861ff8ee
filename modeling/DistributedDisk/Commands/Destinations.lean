import DistributedDisk.Commands.Communicate

/-! Where the requests go. The address of a minion passes from the configuration
through `MinionManager`, `MinionData` and `ClientUDPSocket` to `Socket`, which
puts it into network order. -/
namespace DistributedDisk
open Reactive Transition

theorem htons_getLsbD (port : UInt16) {i : Nat} (bound : i < 16) :
    (htons port).toBitVec.getLsbD i = port.toBitVec.getLsbD (8 - 8 * (i / 8) + i % 8) := by
  have image : (htons port).toBitVec = port.toBitVec <<< 8 ||| port.toBitVec >>> 8 := rfl
  have beyond (k : Nat) (large : 16 ≤ k) : port.toBitVec.getLsbD k = false :=
    BitVec.getLsbD_of_ge _ _ large
  rw [image]
  simp only [BitVec.getLsbD_or, BitVec.getLsbD_shiftLeft, BitVec.getLsbD_ushiftRight, bound]
  obtain low | high : i < 8 ∨ 8 ≤ i := by omega
  · simp [low, show 8 - 8 * (i / 8) + i % 8 = 8 + i by omega]
  · simp [show ¬i < 8 by omega, beyond (8 + i) (by omega),
      show 8 - 8 * (i / 8) + i % 8 = i - 8 by omega]

theorem htonl_getLsbD (ip : UInt32) {i : Nat} (bound : i < 32) :
    (htonl ip).toBitVec.getLsbD i = ip.toBitVec.getLsbD (24 - 8 * (i / 8) + i % 8) := by
  have second : ∀ i < 32, (0xff0000#32).getLsbD i = decide (16 ≤ i ∧ i < 24) := by decide
  have third : ∀ i < 32, (0xff00#32).getLsbD i = decide (8 ≤ i ∧ i < 16) := by decide
  have image : (htonl ip).toBitVec = ip.toBitVec <<< 24 ||| (ip.toBitVec <<< 8 &&& 0xff0000#32) |||
      (ip.toBitVec >>> 8 &&& 0xff00#32) ||| ip.toBitVec >>> 24 := rfl
  have beyond (k : Nat) (large : 32 ≤ k) : ip.toBitVec.getLsbD k = false :=
    BitVec.getLsbD_of_ge _ _ large
  rw [image]
  simp only [BitVec.getLsbD_or, BitVec.getLsbD_and, BitVec.getLsbD_shiftLeft,
    BitVec.getLsbD_ushiftRight, second i bound, third i bound, bound]
  -- the byte that bit `i` is in decides which of the four terms it comes from
  obtain byte | byte | byte | byte :
    i < 8 ∨ 8 ≤ i ∧ i < 16 ∨ 16 ≤ i ∧ i < 24 ∨ 24 ≤ i := by omega
  · simp [show i < 24 by omega, show ¬16 ≤ i by omega, show ¬8 ≤ i by omega,
      show 24 - 8 * (i / 8) + i % 8 = 24 + i by omega]
  · simp [show i < 24 by omega, show ¬16 ≤ i by omega, byte, beyond (24 + i) (by omega),
      show 24 - 8 * (i / 8) + i % 8 = 8 + i by omega]
  · simp [show ¬i < 16 by omega, show ¬i < 8 by omega, byte, beyond (24 + i) (by omega),
      show 24 - 8 * (i / 8) + i % 8 = i - 8 by omega]
  · simp [show ¬i < 24 by omega, show ¬i < 16 by omega, beyond (24 + i) (by omega),
      show 24 - 8 * (i / 8) + i % 8 = i - 24 by omega]

theorem htons_htons (port : UInt16) : htons (htons port) = port := by
  apply UInt16.toBitVec_inj.mp
  apply BitVec.eq_of_getLsbD_eq
  intro i bound
  rw [htons_getLsbD _ bound, htons_getLsbD _ (by omega)]
  congr 1
  omega

theorem htonl_htonl (ip : UInt32) : htonl (htonl ip) = ip := by
  apply UInt32.toBitVec_inj.mp
  apply BitVec.eq_of_getLsbD_eq
  intro i bound
  rw [htonl_getLsbD _ bound, htonl_getLsbD _ (by omega)]
  congr 1
  omega

theorem Socket.sockaddr_inj (same : Socket.sockaddr ip port = Socket.sockaddr ip' port') :
    ip = ip' ∧ port = port' := by
  obtain ⟨addr, network⟩ := SockAddr.mk.inj same
  constructor
  · rw [← htonl_htonl ip, addr, htonl_htonl]
  · rw [← htons_htons port, network, htons_htons]

namespace MinionManager

def new (minions : List (UInt32 × UInt16)) : List MinionData :=
  minions.map fun (ip, port) => ⟨ip, port⟩

/-- `m_minions_data[minion]`; there is no element beyond the end of the vector. -/
def getMinionsData (minionsData : List MinionData) (minion : Int32) : Option MinionData :=
  minionsData[index minion]?

theorem getMinionsData_new (given : minions[index i]? = some (ip, port)) :
    getMinionsData (new minions) i = some ⟨ip, port⟩ := by
  rw [getMinionsData, new, List.getElem?_map, given]
  rfl

end MinionManager

/-- The datagrams of a run go to one entry of the configuration, and to no entry
that differs from it. -/
structure Addressed (minions : List (UInt32 × UInt16)) (ip : UInt32) (port : UInt16)
    (tr : List CmdEvent) : Prop where
  own : ∀ socket dest bytes, .output (.sendto socket dest bytes) ∈ tr →
    dest.addr = htonl ip ∧ dest.port = htons port
  others : ∀ socket dest bytes, .output (.sendto socket dest bytes) ∈ tr →
    ∀ other ∈ minions, other ≠ (ip, port) → dest ≠ ⟨htonl other.1, htons other.2⟩

/-- `ClientUDPSocket` drops the ip: the requests for a chosen minion reach it exactly
when it runs on the master's host. -/
theorem addressed_iff (minions : List (UInt32 × UInt16)) (raid : Raid) (offset : UInt64)
    (socket : Exchange) (request : Request) (reply : Reply) :
    ∀ i ∈ [(raid.chooseMinions offset).1, (raid.chooseMinions offset).2],
      ∀ ip port, minions[index i]? = some (ip, port) →
        ((∀ minion, MinionManager.getMinionsData (MinionManager.new minions) i = some minion →
          ∀ tr t, Run (Step Call.State.next)
            (.running (communicateMinion socket minion request reply)) tr t →
          Addressed minions ip port tr) ↔ ip = inaddrLoopback) := by
  intro i _ ip port given
  have built := MinionManager.getMinionsData_new given
  constructor
  · intro addressed
    have own := (addressed _ built _ _ (.single (.output _ _))).own _ _ _
      (List.mem_singleton_self _)
    exact (Socket.sockaddr_inj (SockAddr.mk.injEq .. ▸ own)).1.symm
  · rintro rfl minion found tr t run
    obtain rfl := Option.some.inj (built.symm.trans found)
    constructor
    · intro socket dest bytes member
      cases Call.output_of_run run member
      exact ⟨rfl, rfl⟩
    · intro socket dest bytes member other _ differs same
      cases Call.output_of_run run member
      obtain ⟨ip, port⟩ := Socket.sockaddr_inj same
      exact differs (Prod.ext ip.symm port.symm)

theorem addressed_iff_configured :
    let minions : List (UInt32 × UInt16) := [(inaddrLoopback, 5007), (inaddrLoopback, 5008)]
    ∀ tr t, Run (Step Call.State.next) (.running (communicateMinion .second
      ⟨inaddrLoopback, 5008⟩ default default)) tr t → Addressed minions inaddrLoopback 5008 tr :=
  (addressed_iff [(inaddrLoopback, 5007), (inaddrLoopback, 5008)] ⟨2⟩ 0 .second default default
    1 (by decide) inaddrLoopback 5008 (by decide)).mpr rfl ⟨inaddrLoopback, 5008⟩ rfl

/-- Two minions with one port on hosts of their own. Both get the address of the
master's host, so a request for one of them reaches neither. -/
theorem addressed_fails :
    let minions : List (UInt32 × UInt16) := [(0x0a000001, 5007), (0x0a000002, 5007)]
    let first := communicateMinion .first ⟨0x0a000001, 5007⟩ default default
    let second := communicateMinion .second ⟨0x0a000002, 5007⟩ default default
    MinionManager.getMinionsData (MinionManager.new minions)
        (Raid.chooseMinions ⟨2⟩ 0).1 = some ⟨0x0a000001, 5007⟩ ∧
      MinionManager.getMinionsData (MinionManager.new minions)
        (Raid.chooseMinions ⟨2⟩ 0).2 = some ⟨0x0a000002, 5007⟩ ∧
      first.dest = second.dest ∧
      ∃ tr t, Run (Step Call.State.next) (.running first) tr t ∧
        ¬ Addressed minions 0x0a000001 5007 tr := by
  intro minions first second
  refine ⟨by decide, by decide, rfl, _, _, .single (.output _ _), fun addressed => ?_⟩
  have own := addressed.own _ _ _ (List.mem_singleton_self _)
  exact absurd own.1 (by decide)

end DistributedDisk
