import DistributedDisk.Cluster.Execution
import DistributedDisk.Commands.Transfer

/-! Who may write. A block is stored only for a command that sends write requests,
and `ParseData` makes such a command of every request that is no plain READ. -/
namespace DistributedDisk
open Packed Reactive Transition

section
variable {S : Type} {c : Call} {running : Call → S} {returned : Bool → Reply → S} {t : S}

/-- What holds of every state of a call and behind it is kept by its steps. -/
theorem Call.Moves.keeps (moves : c.Moves running returned e t) (P : S → Prop)
    (inside : ∀ c', c'.request = c.request → P (running c'))
    (behind : ∀ status rep, P (returned status rep)) : P t := by
  cases moves with
  | sends => exact inside _ rfl
  | retries => exact inside _ rfl
  | returns => exact behind _ _

theorem Call.Moves.sendto (moves : c.Moves running returned e t) (request : c.request = req)
    (socket : Exchange) (dest : SockAddr) (bytes : List UInt8)
    (same : e = .output (.sendto socket dest bytes)) : bytes = req.header := by
  cases moves with
  | sends =>
    cases same
    rw [request]
  | retries | returns => cases same

end

namespace Running

def request : Running → Request
  | .read cmd _ => cmd.req
  | .write cmd _ => cmd.req

/-- An exchange that is under way is about the request of the command. -/
def Asks : Running → Prop
  | .read cmd (.first call) | .read cmd (.second call) => call.request = cmd.req
  | .write cmd (.first call) | .write cmd (.second _ call) => call.request = cmd.req
  | _ => True

/-- What a step of a command sends is the header of its request. -/
theorem asks_step (step : Step next r e r') (asks : r.Asks) :
    r'.Asks ∧ r'.request = r.request ∧
      ∀ socket dest bytes, e = .output (.sendto socket dest bytes) → bytes = r.request.header := by
  cases r with
  | read cmd point =>
    obtain ⟨point', fires, rfl⟩ := Fires.of_map step
    cases point with
    | first call =>
      have moves := Call.moves_of_fires fires
      refine ⟨moves.keeps (fun point => Asks (.read cmd point)) (fun _ same => same.trans asks) ?_,
        rfl, moves.sendto asks⟩
      intro status rep
      unfold ReadCmd.afterFirst
      split
      · rfl
      · trivial
    | second call =>
      have moves := Call.moves_of_fires fires
      refine ⟨moves.keeps (fun point => Asks (.read cmd point)) (fun _ same => same.trans asks) ?_,
        rfl, moves.sendto asks⟩
      intro status rep
      unfold ReadCmd.afterSecond
      split <;> trivial
    | replyHeader rep | replyBlock rep => cases fires; exact ⟨trivial, rfl, by simp⟩
    | returned => cases fires
  | write cmd point =>
    obtain ⟨point', fires, rfl⟩ := Fires.of_map step
    cases point with
    | first call =>
      have moves := Call.moves_of_fires fires
      exact ⟨moves.keeps (fun point => Asks (.write cmd point)) (fun _ same => same.trans asks)
        (fun _ _ => rfl), rfl, moves.sendto asks⟩
    | second rep1 call =>
      have moves := Call.moves_of_fires fires
      refine ⟨moves.keeps (fun point => Asks (.write cmd point)) (fun _ same => same.trans asks) ?_,
        rfl, moves.sendto asks⟩
      intro status rep
      unfold WriteCmd.afterSecond
      split <;> trivial
    | logError | reply => cases fires; exact ⟨trivial, rfl, by simp⟩
    | returned => cases fires

end Running

theorem MinionProxy.key_processRequest (req : Request) :
    (processRequest req).key = "MinWriteCmd" ↔ req.type = Kind.write.code := by
  unfold processRequest
  have other : Kind.read.code ≠ Kind.write.code := by decide
  split
  · next read => simp [read, other]
  · split
    · next write => simp [write]
    · next write => simp [write]

namespace Cluster
variable {ι : Type}

/-- What a minion holds of a command comes from the headers of its request. -/
structure Sourced (i : ι) (req : Request) (m : Minion (Peer ι) (List UInt8)) : Prop where
  inbox : ∀ s bytes, ((i, s), bytes) ∈ m.inbox → bytes = req.header
  reading : ∀ s r, m.reading = some ((i, s), r) → r.type = req.type
  tasks : ∀ task ∈ m.held, task.origin.1 = i → task.data.key = "MinWriteCmd" →
    req.type = Kind.write.code

theorem Sourced.reads {m m' : Minion (Peer ι) (List UInt8)} (sourced : Sourced i req m)
    (reads : Minion.ReadsDatagram m e m') : Sourced i req m' := by
  cases reads with
  | header peer r junk _ _ inbox header other =>
    refine ⟨fun s bytes member => sourced.inbox s bytes (by simp [inbox, member]),
      sourced.reading, fun task member mine write => ?_⟩
    obtain held | rfl := Minion.held_queue (m := m) member rfl rfl
    · exact sourced.tasks task held mine write
    · exact absurd ((MinionProxy.key_processRequest r).mp write) other
  | headerOfWrite peer r junk _ _ inbox header _ =>
    refine ⟨fun s bytes member => sourced.inbox s bytes (by simp [inbox, member]),
      fun s r' reading => ?_, sourced.tasks⟩
    cases reading
    have bytes := sourced.inbox s _ (inbox ▸ List.mem_cons_self)
    rw [← header, bytes, MinionProxy.readHeader_header]
  | block peer origin r datagram _ reading inbox =>
    refine ⟨fun s bytes member => sourced.inbox s bytes (by simp [inbox, member]), by simp,
      fun task member mine write => ?_⟩
    obtain held | rfl := Minion.held_queue (m := m) member rfl rfl
    · exact sourced.tasks task held mine write
    · obtain ⟨j, s⟩ := origin
      obtain rfl : j = i := mine
      rw [← sourced.reading s r reading]
      exact (MinionProxy.key_processRequest (MinionProxy.readBlock r datagram)).mp write

theorem Sourced.works {m m' : Minion (Peer ι) (List UInt8)} (sourced : Sourced i req m)
    (works : Minion.Works m e m') : Sourced i req m' := by
  have tasks : ∀ task ∈ m'.held, task.origin.1 = i → task.data.key = "MinWriteCmd" →
      req.type = Kind.write.code :=
    fun task held => sourced.tasks task (Minion.held_of_works works held)
  cases works <;> exact ⟨sourced.inbox, sourced.reading, tasks⟩

/-- A minion executed a `MinWriteCmd` for a request of this command. -/
def Stores (tr : List (NetEvent ι)) (i : ι) : Prop :=
  ∃ a task, .minion a (.execute task) ∈ tr ∧ task.origin.1 = i ∧ task.data.key = "MinWriteCmd"

variable [DecidableEq ι]

/-- The command keeps to its request, and so does everything that came of it. -/
structure Issued (i : ι) (req : Request) (tr : List (NetEvent ι))
    (σ : Cluster ι Running (List UInt8)) : Prop where
  asks : (σ.client i).Asks
  request : (σ.client i).request = req
  sourced : ∀ a, Sourced i req (σ.minion a)
  stores : Stores tr i → req.type = Kind.write.code

theorem Issued.client {σ σ' : Cluster ι Running (List UInt8)} (issued : Issued i req tr σ)
    (step : Step (disk ι) σ e σ') : (σ'.client i).Asks ∧ (σ'.client i).request = req := by
  obtain ⟨j, move, _, fires, others, _⟩ | ⟨_, same⟩ := client_cases step
  · by_cases here : i = j
    · subst here
      obtain ⟨asks, request, _⟩ := Running.asks_step fires issued.asks
      exact ⟨asks, request.trans issued.request⟩
    · rw [others i here]
      exact ⟨issued.asks, issued.request⟩
  · rw [same]
    exact ⟨issued.asks, issued.request⟩

theorem Issued.minion {σ σ' : Cluster ι Running (List UInt8)} (issued : Issued i req tr σ)
    (step : Step (disk ι) σ e σ') : ∀ a, Sourced i req (σ'.minion a) := by
  have update (a : SockAddr) (m : Minion (Peer ι) (List UInt8)) (sourced : Sourced i req m) :
      ∀ b, Sourced i req (Function.update σ.minion a m b) :=
    (Function.forall_update_iff _ fun _ m => Sourced i req m).mpr
      ⟨sourced, fun b _ => issued.sourced b⟩
  cases step with
  | sends j socket dest bytes fires =>
    have before := issued.sourced dest
    refine update dest _ ⟨fun s bytes' member => ?_, before.reading, before.tasks⟩
    rcases List.mem_append.mp member with member | member
    · exact before.inbox s bytes' member
    · cases List.mem_singleton.mp member
      have header := (Running.asks_step fires issued.asks).2.2 _ _ _ rfl
      rw [issued.request] at header
      exact header
  | outputs | receives | fails | losesReply => exact issued.sourced
  | reads a reads => exact update a _ ((issued.sourced a).reads reads)
  | works a works =>
    rw [minion_setMinion, minion_deliver]
    exact update a _ ((issued.sourced a).works works)
  | losesRequest a before after message inbox =>
    have sourced := issued.sourced a
    refine update a _ ⟨fun s bytes member => sourced.inbox s bytes ?_, sourced.reading,
      sourced.tasks⟩
    rw [inbox]
    exact ((List.sublist_cons_self message _).append_left _).subset member

theorem Issued.step {σ σ' : Cluster ι Running (List UInt8)} (issued : Issued i req tr σ)
    (step : Step (disk ι) σ e σ') : Issued i req (tr ++ [e]) σ' := by
  refine ⟨(issued.client step).1, (issued.client step).2, issued.minion step, ?_⟩
  rintro ⟨a, task, member, mine, write⟩
  rcases List.mem_append.mp member with member | member
  · exact issued.stores ⟨a, task, member, mine, write⟩
  · obtain rfl := List.mem_singleton.mp member
    cases step with
    | reads a reads => cases reads
    | works a works =>
      cases works with
      | execute before after task rep env _ popped =>
        exact (issued.sourced a).tasks task (by simp [Minion.mem_held, popped]) mine write

/-- No block is stored for a command whose request is not a write, whatever the
other commands do. -/
theorem stores_write {start : ι → Running} {σ : Cluster ι Running (List UInt8)}
    (run : Run (Step (disk ι)) (initial start addr) tr σ) (asks : (start i).Asks)
    (stores : Stores tr i) : (start i).request.type = Kind.write.code := by
  have none : Sourced i (start i).request (.fresh addr) := by
    constructor <;> simp [Minion.fresh, Minion.idle, Minion.held]
  have issued : Issued i (start i).request tr σ :=
    run.history ⟨asks, rfl, fun _ => none, by simp [Stores]⟩ Issued.step
  exact issued.stores stores

/-- `NBD_CMD_MASK_COMMAND`: the flags of a request are the upper half of its type. -/
def nbdCommand (type : UInt32) : UInt32 := type &&& 0xffff

/-- A request that is no WRITE makes no `WriteCmd`, has no block stored on any
minion and takes nothing from the stream behind its header; a READ is a READ
whatever its flags. -/
structure OnlyWriteWrites (request : NbdRequest) : Prop where
  created : ∀ junk junkArgs fd stream behind data rest, NbdProxy.Arrives request stream behind →
    NbdProxy.parseData junk junkArgs fd stream = .ok (data, rest) → data.key = "WriteCmd" →
    nbdCommand request.type = nbdCmdWrite
  stored : ∀ junk junkArgs fd stream behind data rest master locals s,
    NbdProxy.Arrives request stream behind →
    NbdProxy.parseData junk junkArgs fd stream = .ok (data, rest) →
    spawn master locals data = .ok s →
    ∀ (ι : Type) [DecidableEq ι] (start : ι → Running) (i : ι) (addr : Peer ι) tr σ, start i = s →
      Run (Step (disk ι)) (initial start addr) tr σ → Stores tr i →
      nbdCommand request.type = nbdCmdWrite
  consumed : nbdCommand request.type ≠ nbdCmdWrite → ∀ junk junkArgs fd stream behind,
    NbdProxy.Arrives request stream behind →
    ∃ data, NbdProxy.parseData junk junkArgs fd stream = .ok (data, behind)
  handled : nbdCommand request.type = nbdCmdRead → ∀ junk junkArgs fd stream behind,
    NbdProxy.Arrives request stream behind →
    ∃ args, NbdProxy.parseData junk junkArgs fd stream = .ok (⟨"ReadCmd", args⟩, behind)

theorem OnlyWriteWrites.type {request : NbdRequest} (only : OnlyWriteWrites request) :
    request.type = nbdCmdRead ∨ nbdCommand request.type = nbdCmdWrite := by
  by_contra! other
  let behind : Stream := [.data (List.replicate request.len.toNat 0)]
  have arrives := NbdProxy.arrives_data request behind
  cases payload : NbdProxy.readAll behind 4096 request.len.toNat with
  | error failure =>
    obtain ⟨data, parsed⟩ := only.consumed other.2 default default 3 _ behind arrives
    rw [NbdProxy.parseData_other arrives other.1, payload] at parsed
    cases parsed
  | ok result =>
    have parsed : NbdProxy.parseData default default 3 _ = _ :=
      NbdProxy.parseData_other arrives other.1
    rw [payload] at parsed
    exact other.2 (only.created _ _ _ _ _ _ _ arrives parsed rfl)

/-- The code tells the two apart for a READ without flags and for any WRITE. -/
theorem onlyWriteWrites_iff (request : NbdRequest) : OnlyWriteWrites request ↔
    request.type = nbdCmdRead ∨ nbdCommand request.type = nbdCmdWrite := by
  have different : nbdCmdRead ≠ nbdCmdWrite := by decide
  refine ⟨OnlyWriteWrites.type, fun known => ?_⟩
  rcases known with read | write
  · constructor
    · intro junk junkArgs fd stream behind data rest arrives parsed key
      rw [NbdProxy.parseData_read arrives read] at parsed
      cases parsed
      exact absurd (show "ReadCmd" = "WriteCmd" from key) (by decide)
    · intro junk junkArgs fd stream behind data rest master locals s arrives parsed created
        ι _ start i addr tr σ here run stores
      rw [NbdProxy.parseData_read arrives read] at parsed
      cases parsed
      rw [spawn_read] at created
      cases created
      have write := stores_write run (by rw [here]; rfl) stores
      rw [here] at write
      exact absurd (show Kind.read.code = Kind.write.code from write) (by decide)
    · exact fun _ _ _ _ _ _ arrives => ⟨_, NbdProxy.parseData_read arrives read⟩
    · exact fun _ _ _ _ _ _ arrives => ⟨_, NbdProxy.parseData_read arrives read⟩
  · constructor
    · exact fun _ _ _ _ _ _ _ _ _ _ => write
    · exact fun _ _ _ _ _ _ _ _ _ _ _ _ _ _ _ _ _ _ _ _ _ _ _ => write
    · exact fun other => absurd write other
    · intro read
      rw [write] at read
      exact absurd read.symm different

/-- The DISC request of `NBD_DISCONNECT`, and a READ with the flag
`NBD_CMD_FLAG_FUA`: both are taken for writes. -/
theorem onlyWriteWrites_fails :
    ¬ OnlyWriteWrites ⟨nbdRequestMagic, 2, List.Vector.replicate 8 0, 0, 0⟩ ∧
      ¬ OnlyWriteWrites ⟨nbdRequestMagic, 0x10000, List.Vector.replicate 8 0, 0, 4096⟩ := by
  constructor
  · intro only
    exact absurd only.type (by decide)
  · intro only
    exact absurd only.type (by decide)

end Cluster
end DistributedDisk
