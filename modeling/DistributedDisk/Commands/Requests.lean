import DistributedDisk.Commands.Pool

/-! From the requests of the kernel to the replies: `ParseData` reads them one by
one, the factory makes a command of each, and the pool runs the commands. -/
namespace DistributedDisk
open Packed Reactive Transition

/-- What `Run` finds when a worker starts it: the counter of the translator and
the uninitialized reply structs. -/
structure Locals where
  idConter : UInt64
  rep1 : Reply
  rep2 : Reply
  deriving Inhabited

def masterFactory (master : Master) : Factory (Locals → Running) (List UInt8) String :=
  (Factory.empty.add "ReadCmd" fun data locals =>
    let cmd := ReadCmd.run master locals.idConter data
    .read cmd (cmd.start locals.rep1)).add "WriteCmd" fun data locals =>
    let cmd := WriteCmd.run master locals.idConter locals.rep2 data
    .write cmd (cmd.start locals.rep1)

/-- `CmdFactoryTask::Do`, up to the first step of `Run`. -/
def spawn (master : Master) (locals : Locals) (data : CmdData) : Except Exception Running :=
  ((masterFactory master).create data.key data.args).map (· locals)

/-- The command of a request, with the reply that `ParseData` prepared. -/
inductive Incoming.Started (master : Master) (fd : Int32) (r : Incoming) : Running → Prop where
  | read (rep : Reply) : r.request.transfer.isRead = true → cmd.args.fd = fd →
      cmd.args.reply = ⟨nbdReplyMagic, 0, r.request.handle⟩ →
      cmd.min1 = master.first r.request.offset → cmd.req.type = Kind.read.code →
      cmd.req.offset = r.request.offset → Started master fd r (.read cmd (cmd.start rep))
  | write (rep : Reply) : r.request.transfer.isRead = false → cmd.args.fd = fd →
      cmd.args.reply = ⟨nbdReplyMagic, 0, r.request.handle⟩ →
      cmd.min1 = master.first r.request.offset → cmd.req.type = Kind.write.code →
      cmd.req.offset = r.request.offset → Started master fd r (.write cmd (cmd.start rep))

theorem spawn_read (master : Master) (locals : Locals) (args : List UInt8) :
    spawn master locals ⟨"ReadCmd", args⟩ =
      .ok (.read (ReadCmd.run master locals.idConter args)
        ((ReadCmd.run master locals.idConter args).start locals.rep1)) := by
  have other : "ReadCmd" ≠ "WriteCmd" := by decide
  rw [spawn, masterFactory, Factory.create_add_ne other, Factory.create_add_self]
  rfl

theorem spawn_write (master : Master) (locals : Locals) (args : List UInt8) :
    spawn master locals ⟨"WriteCmd", args⟩ =
      .ok (.write (WriteCmd.run master locals.idConter locals.rep2 args)
        ((WriteCmd.run master locals.idConter locals.rep2 args).start locals.rep1)) := by
  rw [spawn, masterFactory, Factory.create_add_self]
  rfl

theorem Incoming.started_of_spawn {master : Master} {locals : Locals} {r : Incoming}
    (created : spawn master locals (r.cmdData fd) = .ok s) : r.Started master fd s := by
  cases kind : r.request.transfer with
  | read len =>
    rw [cmdData, ClientRequest.cmdData, kind, spawn_read] at created
    cases created
    refine .read _ (by rw [kind]; rfl) ?_ ?_ ?_ ?_ ?_ <;>
      rw [ReadCmd.run, Codec.decode_encode] <;> rfl
  | write payload fits =>
    rw [cmdData, ClientRequest.cmdData, kind, spawn_write] at created
    cases created
    refine .write _ (by rw [kind]; rfl) ?_ ?_ ?_ ?_ ?_ <;>
      rw [WriteCmd.run, Codec.decode_encode] <;> rfl

theorem Incoming.exists_start (master : Master) (fd : Int32) (requests : List Incoming)
    (locals : Fin requests.length → Locals) : ∃ start : Fin requests.length → Running,
      ∀ i : Fin requests.length, (requests.map (cmdData fd))[i.val]?.map (spawn master (locals i)) =
        some (.ok (start i)) := by
  have one (locals : Locals) (r : Incoming) : ∃ s, spawn master locals (r.cmdData fd) = .ok s := by
    cases kind : r.request.transfer with
    | read len =>
      rw [cmdData, ClientRequest.cmdData, kind]
      exact ⟨_, spawn_read ..⟩
    | write payload fits =>
      rw [cmdData, ClientRequest.cmdData, kind]
      exact ⟨_, spawn_write ..⟩
  choose start created using fun i => one (locals i) (requests.get i)
  refine ⟨start, fun i => ?_⟩
  rw [List.getElem?_map, List.getElem?_eq_getElem i.isLt]
  exact congrArg some (created i)

theorem Incoming.started_of_parsed {master : Master} {requests : List Incoming}
    (locals : Fin requests.length → Locals)
    (parsed : NbdProxy.parseAll fd (requests.map fun r => (r.junk, r.junkArgs))
      (requests.flatMap stream) = .ok cmds) (i : Fin requests.length)
    (created : cmds[i.val]?.map (spawn master (locals i)) = some (.ok s)) :
    (requests.get i).Started master fd s := by
  rw [parseAll_requests] at parsed
  cases parsed
  rw [List.getElem?_map, List.getElem?_eq_getElem i.isLt] at created
  exact started_of_spawn (Option.some.inj created)

/-- The calls that write an `nbd_reply`. -/
def nbdReplies (tr : List CmdEvent) : List (Int32 × List UInt8) :=
  (replies tr).filter fun call => call.2.length = NbdReply.codec.size

/-- One `nbd_reply` with the handle of the request, whatever its error. -/
def OneReply (fd : Int32) (r : Incoming) (tr : List CmdEvent) : Prop :=
  ∃ error, nbdReplies tr = [(fd, NbdReply.codec.encode ⟨nbdReplyMagic, error, r.request.handle⟩)]

theorem nbdReplies_read {cmd : ReadCmd} (complete : cmd.Completes rep tr) :
    (nbdReplies tr = [] ∧ ∀ bytes, .datagram bytes ∉ inputs tr) ∨
      nbdReplies tr = [(cmd.args.fd, NbdReply.codec.encode cmd.args.reply)] ∧
        ∃ bytes, .datagram bytes ∈ inputs tr := by
  obtain ⟨nothing, silent⟩ | ⟨bytes, taken, written⟩ := complete.answered
  · exact .inl ⟨by rw [nbdReplies, nothing]; rfl, silent⟩
  · refine .inr ⟨?_, bytes, (taken bytes).mpr rfl⟩
    have block : 4096 ≠ NbdReply.codec.size := by decide
    simp only [nbdReplies, written, ReadCmd.replies_replies, List.filter_cons, Codec.encode_length,
      decide_true, if_true, List.Vector.toList_length, block, decide_false, Bool.false_eq_true,
      if_false, List.filter_nil]

/-- A WRITE always replies; a READ unless both of its exchanges fail. -/
theorem Incoming.Started.oneReply_iff {r : Incoming} (started : r.Started master fd s)
    (run : Run (Step Running.next) s tr t) (returned : t.Returned) :
    OneReply fd r tr ↔
      (r.request.transfer.isRead = true → ∃ bytes, .datagram bytes ∈ inputs tr) := by
  cases started with
  | @read cmd rep isRead socket reply =>
    obtain ⟨nothing, silent⟩ | ⟨one, some⟩ := nbdReplies_read (Running.read_completes run returned)
    · refine iff_of_false ?_ fun answered => ?_
      · rintro ⟨error, one⟩
        rw [nothing] at one
        cases one
      · obtain ⟨bytes, member⟩ := answered isRead
        exact silent bytes member
    · exact iff_of_true ⟨0, by rw [one, socket, reply]⟩ fun _ => some
  | @write cmd rep isWrite socket reply =>
    obtain ⟨r₁, r₂, complete⟩ := Running.write_completes run returned
    refine iff_of_true ⟨0, ?_⟩ fun isRead => by rw [isWrite] at isRead; cases isRead
    rw [nbdReplies, complete.replies, List.filter_cons, if_pos (by simp), List.filter_nil, socket,
      reply]

/-- Every request is answered once, with its handle, exactly when every READ got
a datagram from one of its minions. -/
theorem one_reply_iff (master : Master) (fd : Int32) (requests : List Incoming)
    (locals : Fin requests.length → Locals) (cmds : List CmdData)
    (parsed : NbdProxy.parseAll fd (requests.map fun r => (r.junk, r.junkArgs))
      (requests.flatMap Incoming.stream) = .ok cmds)
    (σ τ : Fin requests.length → Running)
    (created : ∀ i : Fin requests.length,
      cmds[i.val]?.map (spawn master (locals i)) = some (.ok (σ i)))
    (tr : List (Fin requests.length × CmdEvent)) (run : Run (Interleave (Step Running.next)) σ tr τ)
    (returned : ∀ i, (τ i).Returned) :
    (∀ i, OneReply fd (requests.get i) (own i tr)) ↔
      ∀ i, (requests.get i).request.transfer.isRead = true →
        ∃ bytes, .datagram bytes ∈ inputs (own i tr) := by
  apply forall_congr'
  intro i
  have started := Incoming.started_of_parsed locals parsed i (created i)
  exact started.oneReply_iff (run.project i) (returned i)

def Incoming.readZero : Incoming where
  request := ⟨List.Vector.replicate 8 7, 0, .read 4096⟩
  pieces := []
  arrives := ⟨by simp, rfl⟩
  junk := default
  junkArgs := default

def Incoming.writeZero : Incoming where
  request := ⟨List.Vector.replicate 8 7, 0, .write (List.replicate 4096 1)
    (Nat.le_of_eq List.length_replicate)⟩
  pieces := [List.replicate 4096 1]
  arrives := ⟨List.forall_mem_singleton.mpr (List.cons_ne_nil _ _), List.append_nil _⟩
  junk := default
  junkArgs := default

def ReadCmd.readZero : ReadCmd := run .configured 0 (Incoming.readZero.cmdData 3).args

def WriteCmd.writeZero : WriteCmd := run .configured 0 default (Incoming.writeZero.cmdData 3).args

def bothZero (i : Fin 2) : Running :=
  if i.val = 0 then .read .readZero (ReadCmd.readZero.start default)
  else .write .writeZero (WriteCmd.writeZero.start default)

theorem bothZero_created (i : Fin 2) :
    ([Incoming.readZero, .writeZero].map (Incoming.cmdData 3))[i.val]?.map
      (spawn .configured default) = some (.ok (bothZero i)) := by
  match i with
  | 0 | 1 => rfl

/-- The WRITE is served while the READ has its answer and has not replied yet. -/
theorem bothZero_run : ∃ tr τ, Run (Interleave (Step Running.next)) bothZero tr τ ∧
    (∀ i, (τ i).Returned) ∧ ∃ bytes, .datagram bytes ∈ inputs (own 0 tr) := by
  have answer : (ReadCmd.readZero.firstCall default).Completes _
      (.datagram (Reply.codec.encode ⟨1, 1, Error.none.code, Block.zero⟩)) := .last rfl
  have stored : WriteCmd.writeZero.Completes default _ (.datagram (Reply.header default))
      (.datagram (Reply.header default)) := .both (.last rfl) (.last rfl)
  have run := (((Run.refl bothZero).move 0 rfl (Running.run_read (ReadCmd.run_of_first answer))).move
    1 rfl (Running.run_write (WriteCmd.run_of_completes stored))).move 0 rfl
    (Running.run_read (ReadCmd.run_of_replies _))
  refine ⟨_, _, run, fun i => ?_, Reply.codec.encode ⟨1, 1, Error.none.code, Block.zero⟩, ?_⟩
  · match i with
    | 0 | 1 => rfl
  · simp only [List.nil_append, own_append, own_map, inputs_append]
    exact List.mem_append_left _ (List.mem_append_left _ (mem_inputs.mpr ⟨_, answer.received.1⟩))

theorem one_reply_iff_answered : ∃ tr : List (Fin 2 × CmdEvent),
    OneReply 3 .readZero (own 0 tr) ∧ OneReply 3 .writeZero (own 1 tr) := by
  obtain ⟨tr, τ, run, returned, answered⟩ := bothZero_run
  have served := (one_reply_iff .configured 3 [.readZero, .writeZero] (fun _ => default) _
    (Incoming.parseAll_requests 3 _) bothZero τ bothZero_created tr run returned).mpr <| by
      intro i isRead
      match i with
      | 0 => exact answered
      | 1 => cases isRead
  exact ⟨tr, served 0, served 1⟩

/-- The master has no sockets to its minions: both exchanges fail with EBADF, and the READ
is not answered. -/
theorem no_reply_refused :
    ∃ (σ τ : Fin 1 → Running) (tr : List (Fin 1 × CmdEvent)),
      NbdProxy.parseAll 3 [(default, default)] (Incoming.readZero.stream ++ []) =
        .ok [Incoming.readZero.cmdData 3] ∧
      (∀ i : Fin 1, [Incoming.readZero.cmdData 3][i.val]?.map (spawn .configured default) =
        some (.ok (σ i))) ∧
      Run (Interleave (Step Running.next)) σ tr τ ∧ (∀ i, (τ i).Returned) ∧
      ¬ OneReply 3 Incoming.readZero (own 0 tr) := by
  have first : (ReadCmd.readZero.firstCall default).Completes _ (.failed 9) := .last rfl
  have second : (ReadCmd.readZero.secondCall default).Completes _ (.failed 9) := .last rfl
  have run := Running.run_read (ReadCmd.run_of_completes (.neither first second))
  refine ⟨fun _ => _, _, _, Incoming.parseAll_requests 3 [Incoming.readZero], fun i => ?_,
    run.embed 0 _ rfl, fun i => ?_, ?_⟩
  · obtain rfl : i = 0 := Subsingleton.elim i 0
    rfl
  · obtain rfl : i = 0 := Subsingleton.elim i 0
    rw [Function.update_self]
    rfl
  · rintro ⟨error, one⟩
    rw [own_map, nbdReplies, replies_append, first.replies, second.replies] at one
    cases one

end DistributedDisk
