import DistributedDisk.Minion.Server

/-! A minion and the traffic of its socket: a given sequence of datagrams, handed
over one by one while the minion works. The names of the datagrams are free; the
minion does not look at them. -/
namespace DistributedDisk
open Packed Transition

/-- `network` holds the datagrams that have not reached the socket yet. -/
structure Fed (A : Type) where
  network : List (A × List UInt8)
  minion : Minion A (List UInt8)

theorem drop_eq_cons {α : Type} {a : α} {l rest : List α} (left : l.drop n = a :: rest) :
    l[n]? = some a ∧ l.drop (n + 1) = rest := by
  constructor
  · rw [← List.head?_drop, left, List.head?_cons]
  · rw [← List.tail_drop, left, List.tail_cons]

namespace Fed
variable {A : Type}

inductive Step : Fed A → MinionEvent A → Fed A → Prop where
  | arrives (peer : A) (datagram : List UInt8) : s.network = (peer, datagram) :: rest →
      Step s (.arrive peer) ⟨rest, { s.minion with inbox := s.minion.inbox ++ [(peer, datagram)] }⟩
  | reads : Minion.ReadsDatagram s.minion e m → Step s e ⟨s.network, m⟩
  | works : Minion.Works s.minion e m → Step s e ⟨s.network, m⟩

/-- What the minion does is what it may do among any clients. -/
theorem Step.minion {s s' : Fed A} (step : Step s e s') : Minion.Step s.minion e s'.minion := by
  cases step with
  | arrives peer datagram _ => exact .arrives peer datagram
  | reads reads => exact .reads reads
  | works works => exact .works works

/-- The datagrams that the minion has not taken from its socket, in their order. -/
def unread (s : Fed A) : List (A × List UInt8) := s.minion.inbox ++ s.network

theorem unread_arrives {s : Fed A} (network : s.network = (peer, datagram) :: rest) :
    unread ⟨rest, { s.minion with inbox := s.minion.inbox ++ [(peer, datagram)] }⟩ = s.unread := by
  simp [unread, network]

theorem unread_reads {s : Fed A} (inbox : s.minion.inbox = first :: rest) :
    s.unread = first :: (rest ++ s.network) := by
  simp [unread, inbox]

/-- A minion that waits for its first datagram. -/
def start (network : List (A × List UInt8)) (addr : A) (storage : StorageManager) : Fed A :=
  ⟨network, .idle addr storage⟩

/-- The minion waits for a header and nothing has arrived. -/
structure Waits (s : Fed A) : Prop where
  alive : s.minion.running = true
  header : s.minion.reading = none
  empty : s.minion.inbox = []

theorem waits_start (network : List (A × List UInt8)) (addr : A) (storage : StorageManager) :
    Waits (start network addr storage) := ⟨rfl, rfl, rfl⟩

/-- A worker takes the task that was queued last. -/
theorem Waits.pops {s : Fed A} (waits : Waits s) (tasks : s.minion.tasks = before ++ [task]) :
    ∃ t, Step s (.pop task) t ∧ Waits t ∧ t.network = s.network ∧
      t.minion.storage = s.minion.storage ∧ t.minion.popped = s.minion.popped ++ [task] :=
  ⟨_, .works (.pop before [] task waits.alive tasks), ⟨waits.alive, waits.header, waits.empty⟩,
    rfl, rfl, rfl⟩

section
variable {s : Fed A} (waits : Waits s) (junk : Request)
include waits

/-- The next datagram arrives and is a whole request. -/
theorem Waits.takes (network : s.network = (peer, datagram) :: rest)
    (type : (MinionProxy.readHeader junk datagram).type ≠ Kind.write.code) :
    ∃ t, Run Step s [.arrive peer, .receive peer (MinionProxy.readHeader junk datagram)] t ∧
      Waits t ∧ t.network = rest ∧ t.minion.storage = s.minion.storage ∧
      t.minion.tasks = s.minion.tasks ++
        [⟨peer, MinionProxy.processRequest (MinionProxy.readHeader junk datagram)⟩] := by
  have inbox : s.minion.inbox ++ [(peer, datagram)] = [(peer, datagram)] := by
    rw [waits.empty, List.nil_append]
  refine ⟨_, .next (.arrives peer datagram network) (.single (.reads
    (.header peer _ junk waits.alive waits.header inbox rfl type))), ?_, rfl, rfl, rfl⟩
  exact ⟨waits.alive, waits.header, rfl⟩

/-- The next datagram is the header of a write, the one behind it arrives and is
taken for its block. -/
theorem Waits.takes_write (network : s.network = (peer, datagram) :: (peer', datagram') :: rest)
    (type : (MinionProxy.readHeader junk datagram).type = Kind.write.code) :
    ∃ t u, Run Step s [.arrive peer, .receive peer (MinionProxy.readHeader junk datagram),
        .arrive peer'] t ∧ Step t (.block peer') u ∧
      t.minion.reading = some (peer, MinionProxy.readHeader junk datagram) ∧
      t.minion.inbox = [(peer', datagram')] ∧
      Waits u ∧ u.network = rest ∧ u.minion.storage = s.minion.storage ∧
      u.minion.tasks = s.minion.tasks ++ [⟨peer, MinionProxy.processRequest
        (MinionProxy.readBlock (MinionProxy.readHeader junk datagram) datagram')⟩] := by
  have inbox : s.minion.inbox ++ [(peer, datagram)] = [(peer, datagram)] := by
    rw [waits.empty, List.nil_append]
  refine ⟨_, _, .next (.arrives peer datagram network) (.next (.reads
    (.headerOfWrite peer _ junk waits.alive waits.header inbox rfl type))
    (.single (.arrives peer' datagram' rfl))),
    .reads (.block peer' peer _ datagram' waits.alive rfl rfl), rfl, rfl, ?_, rfl, rfl, rfl⟩
  exact ⟨waits.alive, rfl, rfl⟩

end
end Fed
end DistributedDisk
