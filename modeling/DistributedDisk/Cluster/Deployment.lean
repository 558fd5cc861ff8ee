import DistributedDisk.Cluster.Writes
import DistributedDisk.Commands.Serving

/-! The whole disk: the master's pool, whose workers run the commands, on one network with the
minions. Whatever the pool does, its commands and the minions together make a run of the
cluster. -/
namespace DistributedDisk
open Packed Reactive Transition

/-- The cluster without its commands. -/
structure Network (ι M : Type) where
  arriving : Peer ι → List (Peer ι × List UInt8)
  minion : SockAddr → Minion (Peer ι) M

namespace Network
variable {ι S M : Type} [DecidableEq ι] {n m : Network ι M}
  {carries : Peer ι → List UInt8 → M}
  {reads : Minion (Peer ι) M → MinionEvent (Peer ι) → Minion (Peer ι) M → Prop}

abbrev cluster (n : Network ι M) (client : ι → S) : Cluster ι S M :=
  ⟨client, n.arriving, n.minion⟩

/-- A step that the cluster takes with some commands or other. -/
def Step (carries : Peer ι → List UInt8 → M)
    (reads : Minion (Peer ι) M → MinionEvent (Peer ι) → Minion (Peer ι) M → Prop)
    (n : Network ι M) (e : NetEvent ι) (m : Network ι M) : Prop :=
  ∃ (S : Type) (next : ι → S → CmdAction S) (client client' : ι → S),
    Cluster.Step ⟨next, carries, reads⟩ (n.cluster client) e (m.cluster client')

theorem Step.joins {next : ι → S → CmdAction S} {σ : ι → S}
    (step : Step carries reads n (.client i move) m) (fires : Fires (next i (σ i)) move s) :
    Cluster.Step ⟨next, carries, reads⟩ (n.cluster σ) (.client i move)
      (m.cluster (Function.update σ i s)) := by
  obtain ⟨_, _, client, client', step⟩ := step
  obtain ⟨arriving, minion⟩ := m
  cases step with
  | sends _ socket dest bytes => exact .sends i socket dest bytes fires
  | outputs _ o silent => exact .outputs i o silent fires
  | receives _ socket origin bytes rest _ waiting =>
    exact .receives i socket origin bytes rest fires waiting
  | fails _ socket errno _ empty => exact .fails i socket errno fires empty

theorem Step.passes {next : ι → S → CmdAction S} (σ : ι → S) (step : Step carries reads n e m)
    (other : ∀ i move, e ≠ .client i move) :
    Cluster.Step ⟨next, carries, reads⟩ (n.cluster σ) e (m.cluster σ) := by
  obtain ⟨_, _, client, client', step⟩ := step
  obtain ⟨arriving, minion⟩ := m
  cases step with
  | sends | outputs | receives | fails => exact absurd rfl (other _ _)
  | reads a reads => exact .reads a reads
  | @works e _ _ a works => cases e <;> exact .works a works
  | losesRequest a before after message inbox =>
    exact .losesRequest a before after message inbox
  | losesReply p before after reply arriving =>
    exact .losesReply p before after reply arriving

def moves (tr : List (NetEvent ι)) : List (ι × CmdEvent) :=
  tr.filterMap fun | .client i move => some (i, move) | _ => none

/-- Commands that move, and a network on which they do, make a run of the cluster. -/
theorem run_of_parts {next : S → CmdAction S} {σ τ : ι → S}
    (commands : Run (Interleave (Reactive.Step next)) σ (moves tr) τ)
    (network : Run (Step carries reads) n tr m) :
    Run (Cluster.Step ⟨fun _ => next, carries, reads⟩) (n.cluster σ) tr (m.cluster τ) := by
  induction network generalizing σ with
  | refl =>
    cases commands
    exact .refl _
  | @next n e n' rest m head _ ih =>
    by_cases client : ∃ i move, e = .client i move
    · obtain ⟨i, move, rfl⟩ := client
      cases commands with
      | @next _ _ σ' _ _ first others =>
        obtain ⟨fires, still⟩ := first
        have moved : σ' = Function.update σ i (σ' i) := by
          funext j
          by_cases same : j = i
          · rw [same, Function.update_self]
          · rw [Function.update_of_ne same, still j same]
        exact .next (moved ▸ head.joins fires) (ih others)
    · have none : moves (e :: rest) = moves rest := by
        cases e with
        | client i move => exact absurd ⟨i, move, rfl⟩ client
        | minion | lost => rfl
      exact .next (head.passes σ fun i move same => client ⟨i, move, same⟩) (ih (none ▸ commands))

end Network

/-- The socket of an exchange is named by the number of the task that the command is made
in. -/
structure Deployment where
  master : MasterPool
  network : Network Nat (List UInt8)

namespace Deployment

inductive Event where
  | master (e : MasterPool.Event)
  | minion (a : SockAddr) (e : MinionEvent (Peer Nat))
  | lost

/-- The steps of the link of the code. -/
abbrev Links : Network Nat (List UInt8) → NetEvent Nat → Network Nat (List UInt8) → Prop :=
  Network.Step (fun _ bytes => bytes) Minion.ReadsDatagram

/-- Minions that have stored nothing yet. -/
def start (threadCount : Nat) (addr : Peer Nat) : Deployment where
  master := .start threadCount
  network := ⟨fun _ => [], fun _ => .fresh addr⟩

/-- A worker that moves its command does so on the network. -/
inductive Step (master : Master) (s : Deployment) : Event → Deployment → Prop where
  | master : MasterPool.Step master s.master e m → (∀ serial move, e ≠ .command serial move) →
      Step master s (.master e) { s with master := m }
  | command : MasterPool.Step master s.master (.command serial move) m →
      Links s.network (.client serial move) n →
      Step master s (.master (.command serial move)) ⟨m, n⟩
  | minion : Links s.network (.minion a e) n → Step master s (.minion a e) { s with network := n }
  | lost : Links s.network .lost n → Step master s .lost { s with network := n }

def Event.ofMaster : Event → Option MasterPool.Event
  | .master e => some e
  | .minion .. | .lost => none

def Event.ofNetwork : Event → Option (NetEvent Nat)
  | .master (.command serial move) => some (.client serial move)
  | .master (.adds _) | .master (.pool _) | .master (.begins ..) | .master (.finishes ..) => none
  | .minion a e => some (.minion a e)
  | .lost => some .lost

/-- What the pool does in a run, and what the network does. -/
def mastered (tr : List Event) : List MasterPool.Event := tr.filterMap Event.ofMaster

def networked (tr : List Event) : List (NetEvent Nat) := tr.filterMap Event.ofNetwork

variable {master : Master} {s : Deployment} {tr : List Event}

theorem mastered_run (run : Run (Step master) (start threadCount addr) tr s) :
    Run (MasterPool.Step master) (.start threadCount) (mastered tr) s.master := by
  apply run.history (P := fun tr (s : Deployment) =>
    Run (MasterPool.Step master) (.start threadCount) (mastered tr) s.master) (.refl _)
  intro tr s e t before step
  have more : mastered (tr ++ [e]) = mastered tr ++ e.ofMaster.toList := filterMap_concat ..
  rw [more]
  cases step with
  | master step | command step => exact before.trans (.single step)
  | minion | lost =>
    rw [Event.ofMaster, Option.toList_none, List.append_nil]
    exact before

theorem networked_run (run : Run (Step master) (start threadCount addr) tr s) :
    Run Links (start threadCount addr).network (networked tr) s.network := by
  apply run.history (P := fun tr (s : Deployment) =>
    Run Links (start threadCount addr).network (networked tr) s.network) (.refl _)
  intro tr s e t before step
  have more : networked (tr ++ [e]) = networked tr ++ e.ofNetwork.toList := filterMap_concat ..
  rw [more]
  cases step with
  | @master e _ step other =>
    have none : (Event.master e).ofNetwork = none := by
      cases e with
      | command serial move => exact absurd rfl (other serial move)
      | adds | pool | begins | finishes => rfl
    rw [none, Option.toList_none, List.append_nil]
    exact before
  | command _ step | minion step | lost step => exact before.trans (.single step)

theorem performed_mastered (tr : List Event) :
    MasterPool.performed (mastered tr) = Network.moves (networked tr) := by
  rw [MasterPool.performed, mastered, Network.moves, networked, List.filterMap_filterMap,
    List.filterMap_filterMap]
  apply List.filterMap_congr
  intro e _
  cases e with
  | master e => cases e <;> rfl
  | minion | lost => rfl

/-- Whatever the pool is made to do, and whatever is lost on the network: what the commands
and the minions do is a run of the cluster, in which each task that was begun has a command
from its start, and the others have not moved. -/
theorem refines_cluster (run : Run (Step master) (start threadCount addr) tr s) :
    ∃ σ τ, MasterPool.Follows master (mastered tr) s.master σ τ ∧
      Run (Cluster.Step (Cluster.disk Nat)) (Cluster.initial σ addr) (networked tr)
        (s.network.cluster τ) := by
  obtain ⟨_, σ, τ, follows⟩ := MasterPool.commands_follow master threadCount (mastered_run run)
  have commands := follows.run
  rw [performed_mastered] at commands
  exact ⟨σ, τ, follows, Network.run_of_parts commands (networked_run run)⟩

/-- No minion stores a block for a READ of the kernel. -/
theorem reads_store_nothing (fd : Int32) (requests : List Incoming)
    (run : Run (Step master) (start threadCount addr) tr s)
    (parsed : NbdProxy.parseAll fd (requests.map fun r => (r.junk, r.junkArgs))
      (requests.flatMap Incoming.stream) = .ok s.master.cmds) (i : Fin requests.length)
    (isRead : (requests.get i).request.transfer.isRead = true) :
    ¬ Cluster.Stores (networked tr) i.val := by
  intro stores
  obtain ⟨_, σ, τ, follows⟩ := MasterPool.commands_follow master threadCount (mastered_run run)
  have other : Kind.read.code ≠ Kind.write.code := by decide
  have asks {σ τ : Nat → Running}
      (commands : Run (Interleave (Reactive.Step Running.next)) σ
        (MasterPool.performed (mastered tr)) τ) (asks : (σ i.val).Asks) :
      (σ i.val).request.type = Kind.write.code := by
    rw [performed_mastered] at commands
    have whole : Run (Cluster.Step (Cluster.disk Nat)) (Cluster.initial σ addr) (networked tr)
        (s.network.cluster τ) := Network.run_of_parts commands (networked_run run)
    exact Cluster.stores_write whole asks stores
  by_cases begun : s.master.Begun i
  · obtain ⟨locals, made⟩ := follows.spawned i begun
    have cmds : requests.map (Incoming.cmdData fd) = s.master.cmds := by
      rw [Incoming.parseAll_requests] at parsed
      exact Except.ok.inj parsed
    rw [← cmds, List.getElem?_map, List.getElem?_eq_getElem i.isLt] at made
    have started : (requests.get i).Started master fd (σ i) :=
      Incoming.started_of_spawn (Option.some.inj made)
    have writes := asks follows.run
    generalize σ i.val = first at started writes
    cases started with
    | read _ _ _ _ _ type => exact other (type.symm.trans (writes rfl))
    | write _ isWrite =>
      rw [isRead] at isWrite
      cases isWrite
  · -- a command that has not moved could have been any
    have idle := follows.waiting i begun
    have writes := asks (follows.run.replace i.val idle (.read (ReadCmd.run master 0 []) .returned))
    rw [Function.update_self] at writes
    exact other (writes trivial)

theorem idle_run {m m' : MasterPool} {past : List MasterPool.Event} {n : Network Nat (List UInt8)}
    (run : Run (MasterPool.Step master) m past m')
    (idle : ∀ e ∈ past, ∀ serial move, e ≠ .command serial move) :
    Run (Step master) ⟨m, n⟩ (past.map .master) ⟨m', n⟩ := by
  induction run with
  | refl => exact .refl _
  | next head _ ih =>
    exact .next (.master head (idle _ List.mem_cons_self))
      (ih fun e member => idle e (List.mem_cons_of_mem _ member))

theorem alone_run {σ τ : Cluster Nat Running (List UInt8)} {m : MasterPool}
    (run : Run (Cluster.Step (Cluster.disk Nat)) σ events τ) (alone : Cluster.Alone serial events)
    (running : m.pool.workers i = .running serial) (here : m.commands i = some (σ.client serial)) :
    ∃ tr, Run (Step master) ⟨m, σ.arriving, σ.minion⟩ tr
      ⟨{ m with commands := Function.update m.commands i (some (τ.client serial)) },
        τ.arriving, τ.minion⟩ := by
  induction run generalizing m with
  | refl =>
    rw [← here, Function.update_eq_self]
    exact ⟨_, .refl _⟩
  | @next σ e σ' rest τ head _ ih =>
    have link : Links ⟨σ.arriving, σ.minion⟩ e ⟨σ'.arriving, σ'.minion⟩ :=
      ⟨_, _, σ.client, σ'.client, head⟩
    have alone_rest : Cluster.Alone serial rest := fun e member =>
      alone e (List.mem_cons_of_mem _ member)
    obtain ⟨j, move, rfl, fires, _⟩ | ⟨none, same⟩ := Cluster.client_cases head
    · obtain rfl := alone _ List.mem_cons_self j move rfl
      obtain ⟨tr, tail⟩ := @ih
        { m with commands := Function.update m.commands i (some (σ'.client j)) }
        alone_rest running (Function.update_self ..)
      simp only [Function.update_idem] at tail
      exact ⟨_, .next (.command (.command i running here fires) link) tail⟩
    · obtain ⟨tr, tail⟩ := ih alone_rest running (same ▸ here)
      cases e with
      | client j move => exact absurd rfl (none j move)
      | minion a e => exact ⟨_, .next (.minion link) tail⟩
      | lost => exact ⟨_, .next (.lost link) tail⟩

/-- A task is added, and a worker runs its command while the network carries it. -/
theorem serves {σ τ : Cluster Nat Running (List UInt8)} {m : MasterPool}
    (ready : m.Ready i .popping) (count : m.cmds.length = serial)
    (made : spawn master locals data = .ok (σ.client serial))
    (advances : Cluster.Advances serial σ events τ r) (returned : r.Returned) :
    ∃ tr m', Run (Step master) ⟨m, σ.arriving, σ.minion⟩ tr ⟨m', τ.arriving, τ.minion⟩ ∧
      m'.Ready i .popping ∧ m'.cmds = m.cmds ++ [data] ∧ m'.pool.done = m.pool.done ++ [serial] := by
  subst count
  obtain ⟨past, m₁, begun, idle, busy, here, cmds, done⟩ := ready.begins made
  obtain ⟨tr, served⟩ :=
    @alone_run master _ _ _ _ _ _ advances.run.guarded advances.alone busy.here here
  rw [advances.client] at served
  obtain ⟨m₂, finishes, free, same, finished⟩ := (busy.command (Function.update m₁.commands i
    (some r))).finishes master (Function.update_self ..) returned
  exact ⟨_, m₂, (idle_run begun idle).trans (served.trans (.single (.master finishes nofun))),
    free, same.trans cmds, finished.trans (by rw [done])⟩

theorem both_run : ∃ tr s, Run (Step .configured) (start 0 (0, .first)) tr s ∧
    s.master.cmds = [Incoming.readZero, .writeZero].map (Incoming.cmdData 3) ∧
      s.master.pool.done = [0, 1] := by
  obtain ⟨past, m, grown, idle, ready, none, fresh⟩ := MasterPool.ready_grown .configured
  let σ : Cluster Nat Running (List UInt8) := Cluster.initial
    (fun i => if i = 0 then .read .readZero (ReadCmd.readZero.start default)
      else .write .writeZero (WriteCmd.writeZero.start default)) (0, .first)
  have quiet : Cluster.Quiet σ :=
    ⟨fun _ => ⟨_, .empty, rfl, fun _ => .inl ⟨rfl, rfl⟩⟩, fun _ => rfl⟩
  obtain ⟨_, τ, _, _, reads, _⟩ := Cluster.executes_read 0 ReadCmd.readZero rfl rfl quiet default
  have client : τ.client 1 = .write .writeZero (WriteCmd.writeZero.start default) :=
    reads.others 1 (by decide)
  obtain ⟨_, υ, writes, _⟩ := Cluster.executes_write 1 WriteCmd.writeZero rfl client reads.quiet
  have made₀ : spawn .configured default (Incoming.readZero.cmdData 3) = .ok (σ.client 0) := rfl
  have made₁ : spawn .configured default (Incoming.writeZero.cmdData 3) = .ok (τ.client 1) := by
    rw [reads.others 1 (by decide)]
    rfl
  obtain ⟨tr, m₁, first, ready₁, cmds₁, done₁⟩ :=
    serves ready (congrArg List.length none) made₀ reads rfl
  rw [none, List.nil_append] at cmds₁
  obtain ⟨tr₂, m₂, second, _, cmds₂, done₂⟩ :=
    serves ready₁ (congrArg List.length cmds₁) made₁ writes rfl
  refine ⟨_, _, (idle_run grown idle).trans (first.trans second), ?_, ?_⟩
  · rw [cmds₂, cmds₁]
    rfl
  · rw [done₂, done₁, fresh]
    rfl

theorem refines_cluster_both : ∃ tr s, Run (Step .configured) (start 0 (0, .first)) tr s ∧
    s.master.pool.done = [0, 1] ∧ ∃ σ τ, MasterPool.Follows .configured (mastered tr) s.master σ τ ∧
      Run (Cluster.Step (Cluster.disk Nat)) (Cluster.initial σ (0, .first)) (networked tr)
        (s.network.cluster τ) := by
  obtain ⟨tr, s, run, _, done⟩ := both_run
  exact ⟨tr, s, run, done, refines_cluster run⟩

theorem reads_store_nothing_both :
    ∃ tr s, Run (Step .configured) (start 0 (0, .first)) tr s ∧ s.master.pool.done = [0, 1] ∧
      ¬ Cluster.Stores (networked tr) 0 := by
  obtain ⟨tr, s, run, cmds, done⟩ := both_run
  have parsed := Incoming.parseAll_requests 3 [Incoming.readZero, .writeZero]
  exact ⟨tr, s, run, done,
    reads_store_nothing 3 [Incoming.readZero, .writeZero] run (cmds ▸ parsed) 0 rfl⟩

end Deployment
end DistributedDisk
