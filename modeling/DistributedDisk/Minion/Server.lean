import DistributedDisk.Core.Transition
import DistributedDisk.Minion.Proxy

/-! A running minion. The reactor thread parses what the socket holds, workers
pop tasks in any order and run them later, and replies leave for the one address
that the last `Receive` left in `m_client_sockaddr`. -/
namespace DistributedDisk
open Packed Transition

/-- A task of the pool. The address its request came from is not kept by the
minion; it is recorded here to speak about it. -/
structure Task (A : Type) where
  origin : A
  data : CmdData

/-- `reading` is a request whose block is awaited, `popped` the tasks that workers have
taken and not run yet, `pending` the replies that they are about to send. -/
structure Minion (A M : Type) where
  inbox : List (A × M)
  clientSockaddr : A
  reading : Option (A × Request)
  tasks : List (Task A)
  popped : List (Task A)
  pending : List (A × Reply)
  storage : StorageManager
  running : Bool

inductive MinionEvent (A : Type) where
  | arrive (peer : A)
  | receive (peer : A) (req : Request)
  | block (peer : A)
  | pop (task : Task A)
  | execute (task : Task A)
  | crash
  | send (dest : A) (rep : Reply) (origin : A)

/-- The `offset` that both commands take out of their arguments. -/
def CmdData.offset (data : CmdData) : UInt64 := (MinReadCmd.args.decode data.args).2

namespace Minion
variable {A M : Type}

/-- The reactor thread on single datagrams, as `MinionProxy::Read` takes them. -/
inductive ReadsDatagram :
    Minion A (List UInt8) → MinionEvent A → Minion A (List UInt8) → Prop where
  | header (peer : A) (req junk : Request) : m.running = true → m.reading = none →
      m.inbox = (peer, datagram) :: rest →
      MinionProxy.readHeader junk datagram = req → req.type ≠ Kind.write.code →
      ReadsDatagram m (.receive peer req) { m with
        inbox := rest, clientSockaddr := peer
        tasks := m.tasks ++ [⟨peer, MinionProxy.processRequest req⟩] }
  | headerOfWrite (peer : A) (req junk : Request) : m.running = true → m.reading = none →
      m.inbox = (peer, datagram) :: rest →
      MinionProxy.readHeader junk datagram = req → req.type = Kind.write.code →
      ReadsDatagram m (.receive peer req) { m with
        inbox := rest, clientSockaddr := peer, reading := some (peer, req) }
  | block (peer origin : A) (req : Request) (datagram : List UInt8) : m.running = true →
      m.reading = some (origin, req) →
      m.inbox = (peer, datagram) :: rest →
      ReadsDatagram m (.block peer) { m with
        inbox := rest, clientSockaddr := peer, reading := none
        tasks := m.tasks ++ [⟨origin, MinionProxy.processRequest
          (MinionProxy.readBlock req datagram)⟩] }

/-- The reactor thread on messages that carry the whole request. -/
inductive ReadsMessage : Minion A Request → MinionEvent A → Minion A Request → Prop where
  | message (peer : A) (req : Request) : m.running = true → m.inbox = (peer, req) :: rest →
      ReadsMessage m (.receive peer req) { m with
        inbox := rest, clientSockaddr := peer
        tasks := m.tasks ++ [⟨peer, MinionProxy.processRequest req⟩] }

/-- The tasks that no worker has run yet. -/
def held (m : Minion A M) : List (Task A) := m.popped ++ m.tasks

/-- The workers. An exception that leaves a task ends the process. -/
inductive Works : Minion A M → MinionEvent A → Minion A M → Prop where
  | pop (before after : List (Task A)) (task : Task A) : m.running = true →
      m.tasks = before ++ task :: after →
      Works m (.pop task) { m with tasks := before ++ after, popped := m.popped ++ [task] }
  | execute (before after : List (Task A)) (task : Task A) (rep : Reply) (env : Environment) :
      m.running = true → m.popped = before ++ task :: after →
      m.storage.Allocates task.data.offset env.allocated →
      performTask task.data env m.storage = (stored, .ok rep) →
      Works m (.execute task) { m with
        popped := before ++ after, storage := stored, pending := m.pending ++ [(task.origin, rep)] }
  | crash (before after : List (Task A)) (task : Task A) (env : Environment) :
      m.running = true → m.popped = before ++ task :: after →
      m.storage.Allocates task.data.offset env.allocated →
      performTask task.data env m.storage = (stored, .error exception) →
      Works m .crash { m with popped := before ++ after, storage := stored, running := false }
  | send (before after : List (A × Reply)) (origin : A) (rep : Reply) : m.running = true →
      m.pending = before ++ (origin, rep) :: after →
      Works m (.send m.clientSockaddr rep origin) { m with pending := before ++ after }

theorem mem_held {m : Minion A M} : task ∈ m.held ↔ task ∈ m.popped ∨ task ∈ m.tasks :=
  List.mem_append

/-- A worker brings no task. -/
theorem held_of_works {m m' : Minion A M} (works : Works m e m') : m'.held ⊆ m.held := by
  intro other held
  rw [mem_held] at held ⊢
  cases works with
  | pop before after task _ tasks =>
    rw [tasks]
    simp only [List.mem_append, List.mem_cons] at held ⊢
    tauto
  | execute before after task _ _ _ popped | crash before after task _ _ popped =>
    rw [popped]
    exact held.imp_left fun member => ((List.sublist_cons_self task _).append_left _).subset member
  | send => exact held

theorem held_queue {m m' : Minion A M} (member : other ∈ m'.held)
    (tasks : m'.tasks = m.tasks ++ [task]) (popped : m'.popped = m.popped) :
    other ∈ m.held ∨ other = task := by
  rw [mem_held, tasks, popped, List.mem_append, List.mem_singleton] at member
  rw [mem_held]
  tauto

/-- What a task does that ends normally: a read leaves the store alone, a write
stores the block in memory it got. -/
theorem performed_cases {req : Request} {env : Environment} {storage : StorageManager}
    (performed : performTask (MinionProxy.processRequest req) env storage = (stored, .ok rep)) :
    rep.id = req.id ∧ rep.type = req.type ∧
      ((req.type = Kind.read.code ∧ stored = storage) ∨
        req.type = Kind.write.code ∧ ∃ pointer, env.allocated = some pointer ∧
          stored = (storage.store (some pointer) req.block req.offset).1) := by
  by_cases read : req.type = Kind.read.code
  · rw [MinionProxy.processRequest_read read, performTask_load] at performed
    cases performed
    exact ⟨rfl, read.symm, .inl ⟨read, rfl⟩⟩
  · by_cases write : req.type = Kind.write.code
    · rw [MinionProxy.processRequest_write write] at performed
      cases memory : env.allocated with
      | none =>
        rw [performTask_write, MinWriteCmd.run, Codec.decode_encode, memory] at performed
        cases performed
      | some pointer =>
        rw [performTask_store _ _ _ _ _ memory] at performed
        cases performed
        exact ⟨rfl, write.symm, .inr ⟨write, pointer, rfl, rfl⟩⟩
    · rw [MinionProxy.processRequest, if_neg read, if_neg write] at performed
      cases performed

theorem offset_processRequest {req : Request}
    (known : req.type = Kind.read.code ∨ req.type = Kind.write.code) :
    (MinionProxy.processRequest req).offset = req.offset := by
  rcases known with read | write
  · rw [MinionProxy.processRequest_read read, CmdData.offset, Codec.decode_encode]
  · -- a write starts with the arguments of a read
    have front : MinWriteCmd.args.encode (req.id, req.offset, req.block) =
        MinReadCmd.args.encode (req.id, req.offset) ++ req.block.toList := by
      simp only [MinWriteCmd.args, MinReadCmd.args, Codec.seq, Codec.chars, List.append_assoc]
    rw [MinionProxy.processRequest_write write, CmdData.offset, front, Codec.decode_append]

theorem works_read {m : Minion A M} {req : Request} (before after : List (Task A))
    (env : Environment) (alive : m.running = true)
    (type : req.type = Kind.read.code)
    (popped : m.popped = before ++ ⟨origin, MinionProxy.processRequest req⟩ :: after)
    (unused : env.allocated = none) :
    Works m (.execute ⟨origin, MinionProxy.processRequest req⟩) { m with
      popped := before ++ after
      pending := m.pending ++ [(origin, ProtocolTranslator.translateReply req.id Kind.read.code
        (some (m.storage.load env.beyond env.block req.offset).1)
        (m.storage.load env.beyond env.block req.offset).2)] } := by
  apply Works.execute before after _ _ env alive popped (by simp [StorageManager.Allocates, unused])
  rw [MinionProxy.processRequest_read type, performTask_load]

theorem works_write {m : Minion A M} {req : Request} (before after : List (Task A))
    (env : Environment) (alive : m.running = true) (type : req.type = Kind.write.code)
    (popped : m.popped = before ++ ⟨origin, MinionProxy.processRequest req⟩ :: after)
    (memory : env.allocated = some pointer)
    (fresh : m.storage.Allocates req.offset (some pointer)) :
    Works m (.execute ⟨origin, MinionProxy.processRequest req⟩) { m with
      popped := before ++ after
      storage := (m.storage.store (some pointer) req.block req.offset).1
      pending := m.pending ++ [(origin, ProtocolTranslator.translateReply req.id Kind.write.code
        (some env.block) .none)] } := by
  refine .execute before after _ _ env alive popped ?_ ?_
  · rwa [offset_processRequest (.inr type), memory]
  · rw [MinionProxy.processRequest_write type, performTask_store _ _ _ _ _ memory]

/-- A minion among any clients. -/
inductive Step : Minion A (List UInt8) → MinionEvent A → Minion A (List UInt8) → Prop where
  | arrives (peer : A) (datagram : List UInt8) :
      Step m (.arrive peer) { m with inbox := m.inbox ++ [(peer, datagram)] }
  | reads : ReadsDatagram m e m' → Step m e m'
  | works : Works m e m' → Step m e m'

/-- A request of this address is not answered yet. -/
def Outstanding (m : Minion A M) (origin : A) : Prop :=
  (∃ req, m.reading = some (origin, req)) ∨ (∃ task ∈ m.held, task.origin = origin) ∨
    ∃ rep, (origin, rep) ∈ m.pending

theorem outstanding_of_works {m m' : Minion A M} (works : Works m e m')
    (outstanding : m'.Outstanding origin) : m.Outstanding origin := by
  rcases outstanding with reading | ⟨task, held, rfl⟩ | ⟨rep, waits⟩
  · cases works <;> exact .inl reading
  · exact .inr (.inl ⟨task, held_of_works works held, rfl⟩)
  · cases works with
    | execute _ _ other rep' _ _ popped =>
      rcases List.mem_append.mp waits with waits | waits
      · exact .inr (.inr ⟨rep, waits⟩)
      · cases List.mem_singleton.mp waits
        exact .inr (.inl ⟨other, by simp [mem_held, popped], rfl⟩)
    | pop | crash => exact .inr (.inr ⟨rep, waits⟩)
    | send _ _ _ _ _ pending =>
      refine .inr (.inr ⟨rep, ?_⟩)
      rw [pending]
      exact ((List.sublist_cons_self _ _).append_left _).subset waits

theorem outstanding_of_reads {m m' : Minion A (List UInt8)} (reads : ReadsDatagram m e m')
    (outstanding : m'.Outstanding origin) : m.Outstanding origin ∨ origin = m'.clientSockaddr := by
  rcases outstanding with ⟨req, reading⟩ | ⟨task, held, rfl⟩ | waits
  · cases reads with
    | header => exact .inl (.inl ⟨req, reading⟩)
    | headerOfWrite => cases reading; exact .inr rfl
    | block => cases reading
  · cases reads with
    | header peer req =>
      obtain held | rfl := held_queue (m := m) held rfl rfl
      · exact .inl (.inr (.inl ⟨task, held, rfl⟩))
      · exact .inr rfl
    | headerOfWrite => exact .inl (.inr (.inl ⟨task, held, rfl⟩))
    | block peer origin req datagram _ reading =>
      obtain held | rfl := held_queue (m := m) held rfl rfl
      · exact .inl (.inr (.inl ⟨task, held, rfl⟩))
      · exact .inl (.inl ⟨req, reading⟩)
  · cases reads <;> exact .inl (.inr (.inr waits))

/-- A request with this id was received from this address. -/
def Heard (tr : List (MinionEvent A)) (origin : A) (id : UInt64) : Prop :=
  ∃ req, .receive origin req ∈ tr ∧ req.id = id

theorem Heard.append {tr : List (MinionEvent A)} {id : UInt64} (heard : Heard tr origin id) (tr') :
    Heard (tr ++ tr') origin id := by
  obtain ⟨req, member, same⟩ := heard
  exact ⟨req, List.mem_append_left _ member, same⟩

theorem Heard.received (tr : List (MinionEvent A)) (peer : A) (req : Request) :
    Heard (tr ++ [.receive peer req]) peer req.id := ⟨req, by simp, rfl⟩

/-- Every request in the minion, and every reply it sent, goes back to a
received request of that address and id. -/
structure Provenance (tr : List (MinionEvent A)) (m : Minion A M) : Prop where
  reading : ∀ origin req, m.reading = some (origin, req) → Heard tr origin req.id
  tasks : ∀ task ∈ m.held, ∃ req, task.data = MinionProxy.processRequest req ∧
    Heard tr task.origin req.id
  pending : ∀ origin rep, (origin, rep) ∈ m.pending → Heard tr origin rep.id
  sent : ∀ dest rep origin, .send dest rep origin ∈ tr → Heard tr origin rep.id

/-- Whatever is outstanding came from the address that replies go to, and so
did whatever was answered. -/
structure Addressed (tr : List (MinionEvent A)) (m : Minion A M) : Prop where
  outstanding : ∀ origin, m.Outstanding origin → origin = m.clientSockaddr
  sent : ∀ dest rep origin, .send dest rep origin ∈ tr → dest = origin

/-- A datagram is taken from the socket only while no request of another
address is outstanding. -/
def OneClient (m : Minion A (List UInt8)) : MinionEvent A → Prop
  | .receive peer _ | .block peer => ∀ origin, m.Outstanding origin → origin = peer
  | _ => True

theorem Provenance.append {m : Minion A M} (known : Provenance tr m)
    (quiet : ∀ dest rep origin, e ≠ .send dest rep origin) : Provenance (tr ++ [e]) m := by
  refine ⟨fun origin req reading => (known.reading origin req reading).append _, ?_,
    fun origin rep member => (known.pending origin rep member).append _, ?_⟩
  · intro task member
    obtain ⟨req, data, heard⟩ := known.tasks task member
    exact ⟨req, data, heard.append _⟩
  · intro dest rep origin member
    rcases List.mem_append.mp member with member | member
    · exact (known.sent dest rep origin member).append _
    · exact absurd (List.mem_singleton.mp member).symm (quiet dest rep origin)

theorem Provenance.works {m m' : Minion A M} (known : Provenance tr m) (works : Works m e m') :
    Provenance (tr ++ [e]) m' := by
  have fewer := held_of_works works
  cases works with
  | pop before after task =>
    have known : Provenance (tr ++ [.pop task]) m := known.append (by simp)
    exact ⟨known.reading, fun other member => known.tasks other (fewer member), known.pending,
      known.sent⟩
  | execute before after task rep env alive popped _ performed =>
    have held : task ∈ m.held := by simp [mem_held, popped]
    obtain ⟨req, data, heard⟩ := known.tasks task held
    rw [data] at performed
    have known : Provenance (tr ++ [.execute task]) m := known.append (by simp)
    refine ⟨known.reading, fun other member => known.tasks other (fewer member),
      fun origin rep' member => ?_, known.sent⟩
    rcases List.mem_append.mp member with member | member
    · exact known.pending origin rep' member
    · cases List.mem_singleton.mp member
      rw [(performed_cases performed).1]
      exact heard.append _
  | crash before after task env =>
    have known : Provenance (tr ++ [.crash]) m := known.append (by simp)
    exact ⟨known.reading, fun other member => known.tasks other (fewer member), known.pending,
      known.sent⟩
  | send before after origin rep alive pending =>
    have heard := known.pending origin rep (by simp [pending])
    refine ⟨fun origin req reading => (known.reading origin req reading).append _,
      fun task member => ?_, fun origin' rep' member => ?_, fun dest rep' origin' member => ?_⟩
    · obtain ⟨req, data, heard⟩ := known.tasks task member
      exact ⟨req, data, heard.append _⟩
    · refine (known.pending origin' rep' ?_).append _
      rw [pending]
      exact ((List.sublist_cons_self _ _).append_left _).subset member
    · rcases List.mem_append.mp member with member | member
      · exact (known.sent dest rep' origin' member).append _
      · cases List.mem_singleton.mp member
        exact heard.append _

theorem Provenance.step {m : Minion A (List UInt8)} (known : Provenance tr m) (step : Step m e m') :
    Provenance (tr ++ [e]) m' := by
  cases step with
  | arrives peer datagram =>
    have known : Provenance (tr ++ [.arrive peer]) m := known.append (by simp)
    exact ⟨known.reading, known.tasks, known.pending, known.sent⟩
  | works works => exact known.works works
  | reads reads =>
    cases reads with
    | header peer req junk =>
      have known : Provenance (tr ++ [.receive peer req]) m := known.append (by simp)
      refine ⟨known.reading, fun task member => ?_, known.pending, known.sent⟩
      obtain held | rfl := held_queue (m := m) member rfl rfl
      · exact known.tasks task held
      · exact ⟨req, rfl, .received tr peer req⟩
    | headerOfWrite peer req junk =>
      have known : Provenance (tr ++ [.receive peer req]) m := known.append (by simp)
      refine ⟨fun origin req' reading => ?_, known.tasks, known.pending, known.sent⟩
      cases reading
      exact .received tr peer req
    | block peer origin req datagram alive reading =>
      have known : Provenance (tr ++ [.block peer]) m := known.append (by simp)
      refine ⟨by simp, fun task member => ?_, known.pending, known.sent⟩
      obtain held | rfl := held_queue (m := m) member rfl rfl
      · exact known.tasks task held
      · exact ⟨MinionProxy.readBlock req datagram, rfl, known.reading origin req reading⟩

theorem Addressed.step {m : Minion A (List UInt8)} (addressed : Addressed tr m) (step : Step m e m')
    (one : m.OneClient e) : Addressed (tr ++ [e]) m' := by
  have sent (quiet : ∀ dest rep origin, e ≠ .send dest rep origin) :
      ∀ dest rep origin, .send dest rep origin ∈ tr ++ [e] → dest = origin := by
    intro dest rep origin member
    rcases List.mem_append.mp member with member | member
    · exact addressed.sent dest rep origin member
    · exact absurd (List.mem_singleton.mp member).symm (quiet dest rep origin)
  cases step with
  | arrives peer datagram => exact ⟨addressed.outstanding, sent (by simp)⟩
  | reads reads =>
    have peer : ∀ origin, m.Outstanding origin → origin = m'.clientSockaddr := by
      cases reads <;> exact one
    refine ⟨fun origin outstanding => ?_, sent ?_⟩
    · exact (outstanding_of_reads reads outstanding).elim (peer origin) id
    · cases reads <;> simp
  | works works =>
    have same : m'.clientSockaddr = m.clientSockaddr := by cases works <;> rfl
    refine ⟨fun origin outstanding => ?_, ?_⟩
    · rw [same]
      exact addressed.outstanding origin (outstanding_of_works works outstanding)
    · cases works with
      | pop | execute | crash => exact sent (by simp)
      | send before after origin rep alive pending =>
        intro dest rep' origin' member
        rcases List.mem_append.mp member with member | member
        · exact addressed.sent dest rep' origin' member
        · cases List.mem_singleton.mp member
          exact (addressed.outstanding origin (.inr (.inr ⟨rep, by simp [pending]⟩))).symm

/-- Requests of one client at a time are answered to that client. -/
theorem replies_to_origin {m : Minion A (List UInt8)} (idle : ∀ origin, ¬ m.Outstanding origin)
    (run : Run (Under OneClient Step) m tr m') :
    ∀ dest rep origin, .send dest rep origin ∈ tr → dest = origin ∧ Heard tr dest rep.id := by
  have known : Provenance tr m' := by
    refine run.guarded.history ⟨?_, ?_, ?_, by simp⟩ Provenance.step
    · intro origin req reading
      exact absurd (.inl ⟨req, reading⟩) (idle origin)
    · intro task member
      exact absurd (.inr (.inl ⟨task, member, rfl⟩)) (idle task.origin)
    · intro origin rep member
      exact absurd (.inr (.inr ⟨rep, member⟩)) (idle origin)
  have addressed : Addressed tr m' := by
    refine run.history ⟨fun origin outstanding => absurd outstanding (idle origin), by simp⟩ ?_
    intro tr t e u before step
    exact before.step step.1 step.2
  intro dest rep origin member
  obtain rfl := addressed.sent dest rep origin member
  exact ⟨rfl, known.sent dest rep dest member⟩

/-- A minion that waits for a request. -/
def idle (clientSockaddr : A) (storage : StorageManager) : Minion A M :=
  ⟨[], clientSockaddr, none, [], [], [], storage, true⟩

def fresh (clientSockaddr : A) : Minion A M := idle clientSockaddr .empty

theorem fresh_idle (addr origin : A) : ¬ (fresh addr : Minion A M).Outstanding origin := by
  simp [fresh, idle, Outstanding, held]

/-- A read of block 0 and what an empty store answers. -/
def readZero : Request := .new 1 Kind.read.code 0 none

def notFouned (env : Environment) : Reply :=
  ProtocolTranslator.translateReply 1 Kind.read.code
    (some (StorageManager.empty.load env.beyond env.block 0).1) .blockNotFouned

theorem readHeader_readZero : MinionProxy.readHeader readZero readZero.header = readZero :=
  MinionProxy.readHeader_header readZero readZero

/-- Two requests of one client wait together and are executed in the other order; when both
are answered, a second client asks. -/
theorem replies_to_origin_turns :
    let a : SockAddr := Socket.sockaddr inaddrLoopback 40000
    let b : SockAddr := Socket.sockaddr inaddrLoopback 40001
    a ≠ b ∧ ∃ tr m' rep₁ rep₂ rep₃, Run Step (fresh a) tr m' ∧
      (.send a rep₁ a ∈ tr ∧ .send a rep₂ a ∈ tr ∧ .send b rep₃ b ∈ tr) ∧
      (rep₁.id = 1 ∧ rep₂.id = 2 ∧ rep₃.id = 3) ∧
      Heard tr a rep₁.id ∧ Heard tr a rep₂.id ∧ Heard tr b rep₃.id := by
  intro a b
  let read (id : UInt64) : Request := .new id Kind.read.code 0 none
  let task (origin : SockAddr) (id : UInt64) : Task SockAddr :=
    ⟨origin, MinionProxy.processRequest (read id)⟩
  let env : Environment := ⟨none, default, Block.zero⟩
  have header (id : UInt64) : MinionProxy.readHeader (read id) (read id).header = read id :=
    MinionProxy.readHeader_header _ _
  have other : Kind.read.code ≠ Kind.write.code := by decide
  let answer (id : UInt64) : Reply := ProtocolTranslator.translateReply id Kind.read.code
    (some (StorageManager.empty.load env.beyond env.block 0).1) .blockNotFouned
  have run : Run (Under OneClient Step) (fresh a) [.arrive a, .arrive a, .receive a (read 1),
      .receive a (read 2), .pop (task a 1), .pop (task a 2), .execute (task a 2),
      .execute (task a 1), .send a (answer 2) a, .send a (answer 1) a, .arrive b,
      .receive b (read 3), .pop (task b 3), .execute (task b 3), .send b (answer 3) b] (fresh b) :=
    .next ⟨.arrives a (read 1).header, trivial⟩ <|
    .next ⟨.arrives a (read 2).header, trivial⟩ <|
    .next ⟨.reads (.header a (read 1) (read 1) rfl rfl rfl (header 1) other), by
      simp [OneClient, fresh, idle, Outstanding, held]⟩ <|
    .next ⟨.reads (.header a (read 2) (read 2) rfl rfl rfl (header 2) other), by
      simp [OneClient, fresh, idle, Outstanding, held]⟩ <|
    .next ⟨.works (.pop [] _ (task a 1) rfl rfl), trivial⟩ <|
    .next ⟨.works (.pop [] _ (task a 2) rfl rfl), trivial⟩ <|
    .next ⟨.works (works_read [task a 1] [] env rfl rfl rfl rfl), trivial⟩ <|
    .next ⟨.works (works_read [] [] env rfl rfl rfl rfl), trivial⟩ <|
    .next ⟨.works (.send [] _ a _ rfl rfl), trivial⟩ <|
    .next ⟨.works (.send [] _ a _ rfl rfl), trivial⟩ <|
    .next ⟨.arrives b (read 3).header, trivial⟩ <|
    .next ⟨.reads (.header b (read 3) (read 3) rfl rfl rfl (header 3) other), by
      simp [OneClient, fresh, idle, Outstanding, held]⟩ <|
    .next ⟨.works (.pop [] _ (task b 3) rfl rfl), trivial⟩ <|
    .next ⟨.works (works_read [] [] env rfl rfl rfl rfl), trivial⟩ <|
    .single ⟨.works (.send [] [] b _ rfl rfl), trivial⟩
  have origin := replies_to_origin (fresh_idle a) run
  exact ⟨by decide, _, _, answer 1, answer 2, answer 3, run.guarded, by simp, ⟨rfl, rfl, rfl⟩,
    (origin a _ a (by simp)).2, (origin a _ a (by simp)).2, (origin b _ b (by simp)).2⟩

/-- Two clients read. The second request arrives before the first is answered,
and its sender gets the reply to the first. -/
theorem replies_to_other_client :
    let a : SockAddr := Socket.sockaddr inaddrLoopback 40000
    let b : SockAddr := Socket.sockaddr inaddrLoopback 40001
    a ≠ b ∧ ∃ tr m' rep, Run Step (fresh a) tr m' ∧ .send b rep a ∈ tr := by
  intro a b
  let env : Environment := ⟨none, default, Block.zero⟩
  have run : Run Step (fresh a) [.arrive a, .arrive b, .receive a readZero, .receive b readZero,
      .pop ⟨a, MinionProxy.processRequest readZero⟩,
      .execute ⟨a, MinionProxy.processRequest readZero⟩, .send b (notFouned env) a]
      { fresh b with tasks := [⟨b, MinionProxy.processRequest readZero⟩] } :=
    .next (.arrives a readZero.header) <| .next (.arrives b readZero.header) <|
    .next (.reads (.header a readZero readZero rfl rfl rfl readHeader_readZero (by decide))) <|
    .next (.reads (.header b readZero readZero rfl rfl rfl readHeader_readZero (by decide))) <|
    .next (.works (.pop [] _ ⟨a, MinionProxy.processRequest readZero⟩ rfl rfl)) <|
    .next (.works (works_read [] [] env rfl rfl rfl rfl)) <|
    .single (.works (.send [] [] a _ rfl rfl))
  exact ⟨by decide, _, _, notFouned env, run, by simp⟩

end Minion
end DistributedDisk
