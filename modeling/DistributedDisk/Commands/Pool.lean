import DistributedDisk.Commands.ReadCmd
import DistributedDisk.Commands.WriteCmd

/-! The commands of the master's pool, moving in any order on one NBD socket. A
`Master::Reply` call is atomic; a reply to a READ takes two of them. -/
namespace DistributedDisk
open Packed Reactive Transition

/-- A command in its `Run`, and the point it has reached. -/
inductive Running where
  | read (cmd : ReadCmd) (point : ReadCmd.Point)
  | write (cmd : WriteCmd) (point : WriteCmd.Point)

namespace Running

def next : Running → CmdAction Running
  | .read cmd point => (cmd.next point).map (.read cmd)
  | .write cmd point => (cmd.next point).map (.write cmd)

def command : Running → ReadCmd ⊕ WriteCmd
  | .read cmd _ => .inl cmd
  | .write cmd _ => .inr cmd

def args (r : Running) : CmdArgs := r.command.elim ReadCmd.args WriteCmd.args

def Returned : Running → Prop
  | .read _ point => point = .returned
  | .write _ point => point = .returned

/-- A READ whose header is written and whose data are not. -/
def Between : Running → Prop
  | .read _ (.replyBlock _) => True
  | _ => False

/-- What a step of a command can be, as far as the socket is concerned. -/
inductive Moves : Running → CmdEvent → Running → Prop where
  | header : Moves (.read cmd (.replyHeader rep))
      (.output (.reply cmd.args.fd (NbdReply.codec.encode cmd.args.reply)))
      (.read cmd (.replyBlock rep))
  | block : Moves (.read cmd (.replyBlock rep)) (.output (.reply cmd.args.fd rep.block.toList))
      (.read cmd .returned)
  | write : Moves (.write cmd .reply)
      (.output (.reply cmd.args.fd (NbdReply.codec.encode cmd.args.reply))) (.write cmd .returned)
  | silent : replies [e] = [] → r'.command = r.command → ¬ r.Between → ¬ r'.Between →
      Moves r e r'

theorem moves_of_step (step : Step next r e r') : Moves r e r' := by
  cases r with
  | read cmd point =>
    obtain ⟨point', fires, rfl⟩ := Fires.of_map step
    cases point with
    | first call =>
      have moves := Call.moves_of_fires fires
      refine .silent moves.replies rfl id ?_
      cases moves with
      | sends | retries => exact id
      | returns =>
        unfold ReadCmd.afterFirst
        split <;> exact id
    | second call =>
      have moves := Call.moves_of_fires fires
      refine .silent moves.replies rfl id ?_
      cases moves with
      | sends | retries => exact id
      | returns =>
        unfold ReadCmd.afterSecond
        split <;> exact id
    | replyHeader rep => cases fires; exact .header
    | replyBlock rep => cases fires; exact .block
    | returned => cases fires
  | write cmd point =>
    obtain ⟨point', fires, rfl⟩ := Fires.of_map step
    cases point with
    | first call => exact .silent (Call.moves_of_fires fires).replies rfl id id
    | second rep1 call => exact .silent (Call.moves_of_fires fires).replies rfl id id
    | logError => cases fires; exact .silent rfl rfl id id
    | reply => cases fires; exact .write
    | returned => cases fires

theorem Moves.command (moves : Moves r e r') : r'.command = r.command := by
  cases moves with
  | header | block | write => rfl
  | silent _ same _ _ => exact same

end Running

/-! ### The reply stream -/

section
variable {ι : Type}

/-- The `Master::Reply` calls on a socket with the commands that make them, in
the order in which their bytes enter the stream. -/
def written (fd : Int32) (tr : List (ι × CmdEvent)) : List (ι × List UInt8) :=
  tr.flatMap fun label => ((replies [label.2]).filter (·.1 = fd)).map fun call => (label.1, call.2)

@[simp] theorem written_append (fd : Int32) (tr tr' : List (ι × CmdEvent)) :
    written fd (tr ++ tr') = written fd tr ++ written fd tr' := List.flatMap_append

theorem written_silent (quiet : replies [e] = []) (fd : Int32) (i : ι) :
    written fd [(i, e)] = [] := by
  simp [written, quiet]

theorem written_reply (fd : Int32) (i : ι) (bytes : List UInt8) :
    written fd [(i, .output (.reply fd bytes))] = [(i, bytes)] := by
  simp [written, replies]

/-- A command calls `Reply` only while no READ is between its own two calls,
itself excepted. -/
def Undivided (σ : ι → Running) (label : ι × CmdEvent) : Prop :=
  replies [label.2] ≠ [] → ∀ j, j ≠ label.1 → ¬ (σ j).Between

/-- A complete reply: a READ's header and its block, or a WRITE's header. -/
inductive Frame (σ : ι → Running) : List (ι × List UInt8) → Prop where
  | read (i) (block : Block) : (σ i).command = .inl cmd →
      Frame σ [(i, NbdReply.codec.encode cmd.args.reply), (i, block.toList)]
  | write (i) : (σ i).command = .inr cmd → Frame σ [(i, NbdReply.codec.encode cmd.args.reply)]

/-- What follows the complete replies: at most the header of a READ that is
about to write its block. -/
inductive Rest (σ τ : ι → Running) : List (ι × List UInt8) → Prop where
  | nothing : (∀ i, ¬ (τ i).Between) → Rest σ τ []
  | header : (τ i).Between → (∀ j, j ≠ i → ¬ (τ j).Between) → (σ i).command = .inl cmd →
      Rest σ τ [(i, NbdReply.codec.encode cmd.args.reply)]

/-- A stream of complete replies. -/
def Framed (σ τ : ι → Running) (calls : List (ι × List UInt8)) : Prop :=
  ∃ (frames : List (List (ι × List UInt8))) (rest : List (ι × List UInt8)),
    calls = frames.flatten ++ rest ∧ (∀ frame ∈ frames, Frame σ frame) ∧ Rest σ τ rest

section
variable {σ τ υ : ι → Running}

theorem Rest.eq_nil (rest : Rest σ τ calls) (none : ∀ i, ¬ (τ i).Between) : calls = [] := by
  cases rest with
  | nothing _ => rfl
  | header between _ _ => exact absurd between (none _)

/-- The READ that is between its calls is not the command that moved. -/
theorem Rest.of_silent (rest : Rest σ τ calls) (before : ¬ (τ i).Between) (after : ¬ (υ i).Between)
    (others : ∀ j, j ≠ i → υ j = τ j) : Rest σ υ calls := by
  have kept : ∀ j, (υ j).Between ↔ (τ j).Between := by
    intro j
    by_cases same : j = i
    · subst same
      exact iff_of_false after before
    · rw [others j same]
  cases rest with
  | nothing none => exact .nothing fun j => mt (kept j).mp (none j)
  | header between alone command =>
    exact .header ((kept _).mpr between) (fun j other => mt (kept j).mp (alone j other)) command

theorem Framed.of_frames {frames : List (List (ι × List UInt8))}
    (wholes : ∀ frame ∈ frames, Frame σ frame) (whole : Frame σ frame)
    (after : ∀ i, ¬ (υ i).Between) : Framed σ υ (frames.flatten ++ frame) := by
  refine ⟨frames ++ [frame], [], by simp, ?_, .nothing after⟩
  simpa [or_imp, forall_and] using ⟨wholes, whole⟩

theorem Framed.step {fd : Int32} (framed : Framed σ τ calls)
    (same : ∀ i, (τ i).command = (σ i).command) (socket : ∀ i, (σ i).args.fd = fd)
    (step : Interleave (Step Running.next) τ (i, e) υ) (undivided : Undivided τ (i, e)) :
    Framed σ υ (calls ++ written fd [(i, e)]) := by
  have others : ∀ j, j ≠ i → υ j = τ j := step.2
  have command := same i
  have fd_eq := socket i
  rw [Running.args, ← command] at fd_eq
  -- a call of a command that is not between its own two is made while none is
  have none (reply : replies [e] ≠ []) (before : ¬ (τ i).Between) : ∀ j, ¬ (τ j).Between := by
    intro j
    by_cases here : j = i
    · exact here ▸ before
    · exact undivided reply j here
  have still (none : ∀ j, j ≠ i → ¬ (τ j).Between) (after : ¬ (υ i).Between) :
      ∀ j, ¬ (υ j).Between := step.forall_of_step (P := fun _ r => ¬ r.Between) after none
  have moves := Running.moves_of_step step.1
  generalize before : τ i = r at moves command fd_eq
  generalize after : υ i = r' at moves
  cases moves with
  | @header cmd rep =>
    have fd_eq : cmd.args.fd = fd := fd_eq
    subst fd_eq
    have quiet := none (List.cons_ne_nil _ _) (by rw [before]; exact id)
    obtain ⟨frames, rest, rfl, wholes, pending⟩ := framed
    rw [pending.eq_nil quiet, written_reply, List.append_nil]
    refine ⟨frames, _, rfl, wholes, .header (by rw [after]; trivial) ?_ command.symm⟩
    intro j other
    rw [others j other]
    exact quiet j
  | @block cmd rep =>
    have fd_eq : cmd.args.fd = fd := fd_eq
    subst fd_eq
    obtain ⟨frames, rest, rfl, wholes, pending⟩ := framed
    have between : (τ i).Between := by rw [before]; trivial
    cases pending with
    | nothing none => exact absurd between (none i)
    | @header k cmd' _ alone own =>
      obtain rfl : i = k := by
        by_contra other
        exact alone i other between
      obtain rfl : cmd = cmd' := Sum.inl.inj (command.trans own)
      rw [written_reply, List.append_assoc]
      exact .of_frames wholes (.read i rep.block own) (still alone (by rw [after]; exact id))
  | @write cmd =>
    have fd_eq : cmd.args.fd = fd := fd_eq
    subst fd_eq
    have quiet := none (List.cons_ne_nil _ _) (by rw [before]; exact id)
    obtain ⟨frames, rest, rfl, wholes, pending⟩ := framed
    rw [pending.eq_nil quiet, written_reply, List.append_nil]
    exact .of_frames wholes (.write i command.symm)
      (still (fun j _ => quiet j) (by rw [after]; exact id))
  | silent quiet _ here there =>
    obtain ⟨frames, rest, rfl, wholes, pending⟩ := framed
    rw [written_silent quiet, List.append_nil]
    exact ⟨frames, rest, rfl, wholes,
      pending.of_silent (by rw [before]; exact here) (by rw [after]; exact there) others⟩

theorem command_of_step (step : Interleave (Step Running.next) τ label υ) (i : ι) :
    (υ i).command = (τ i).command :=
  step.forall_of_step (P := fun j r => r.command = (τ j).command)
    (Running.moves_of_step step.1).command (fun _ _ => rfl) i

/-- While nobody calls `Reply` between the two calls of a READ, the stream is
made of complete replies and at most one header that waits for its block. -/
theorem stream_framed (fd : Int32) (idle : ∀ i, ¬ (σ i).Between) (socket : ∀ i, (σ i).args.fd = fd)
    (run : Run (Under Undivided (Interleave (Step Running.next))) σ tr τ) :
    Framed σ τ (written fd tr) := by
  let invariant (tr : List (ι × CmdEvent)) (τ : ι → Running) : Prop :=
    (∀ i, (τ i).command = (σ i).command) ∧ Framed σ τ (written fd tr)
  suffices kept : invariant tr τ from kept.2
  refine run.history ⟨fun _ => rfl, [], [], rfl, by simp, .nothing idle⟩ ?_
  intro tr τ label υ ⟨same, framed⟩ ⟨step, undivided⟩
  refine ⟨fun i => (command_of_step step i).trans (same i), ?_⟩
  rw [written_append]
  exact framed.step same socket step undivided

theorem written_map (fd : Int32) (i : ι) (tr : List CmdEvent) :
    written fd (tr.map (Prod.mk i)) =
      ((replies tr).filter (·.1 = fd)).map fun call => (i, call.2) := by
  induction tr with
  | nil => rfl
  | cons e tr ih =>
    have split : replies (e :: tr) = replies [e] ++ replies tr := replies_append [e] tr
    rw [split, List.filter_append, List.map_append, ← ih]
    rfl

end

theorem Running.run_read {cmd : ReadCmd} (run : Run (Step cmd.next) point tr point') :
    Run (Step Running.next) (.read cmd point) tr (.read cmd point') :=
  run.map (Running.read cmd) (by intro _; rfl)

theorem Running.run_write {cmd : WriteCmd} (run : Run (Step cmd.next) point tr point') :
    Run (Step Running.next) (.write cmd point) tr (.write cmd point') :=
  run.map (Running.write cmd) (by intro _; rfl)

/-- What a command of the pool does till it returns is a complete run of it. -/
theorem Running.read_completes {cmd : ReadCmd}
    (run : Run (Step Running.next) (.read cmd (cmd.start rep)) tr t) (returned : t.Returned) :
    cmd.Completes rep tr := by
  obtain ⟨point, rfl, inner⟩ := run.of_map (Running.read cmd) (by intro _; rfl)
  obtain rfl : point = .returned := returned
  exact ReadCmd.completes_of_run inner

theorem Running.write_completes {cmd : WriteCmd}
    (run : Run (Step Running.next) (.write cmd (cmd.start rep)) tr t) (returned : t.Returned) :
    ∃ r₁ r₂, cmd.Completes rep tr r₁ r₂ := by
  obtain ⟨point, rfl, inner⟩ := run.of_map (Running.write cmd) (by intro _; rfl)
  obtain rfl : point = .returned := returned
  exact WriteCmd.completes_of_run inner

/-- A command may go on while the others are where they are, as long as it is silent or no
READ among them is between its calls. -/
theorem run_undivided [DecidableEq ι] {σ τ : ι → Running}
    (before : Run (Under Undivided (Interleave (Step Running.next))) σ tr τ) (i : ι)
    (here : τ i = r) (run : Run (Step Running.next) r tr' r')
    (allowed : replies tr' = [] ∨ ∀ j, j ≠ i → ¬ (τ j).Between) :
    Run (Under Undivided (Interleave (Step Running.next))) σ (tr ++ tr'.map (Prod.mk i))
      (Function.update τ i r') := by
  induction run generalizing tr τ with
  | refl =>
    subst here
    rw [Function.update_eq_self, List.map_nil, List.append_nil]
    exact before
  | @next r e r₁ rest r' head _ ih =>
    have split : replies (e :: rest) = replies [e] ++ replies rest := replies_append [e] rest
    have apart (j : ι) (other : j ≠ i) : Function.update τ i r₁ j = τ j :=
      Function.update_of_ne other ..
    have step : Under Undivided (Interleave (Step Running.next)) τ (i, e)
        (Function.update τ i r₁) := by
      refine ⟨⟨?_, apart⟩, fun loud j other => ?_⟩
      · rwa [here, Function.update_self]
      · refine allowed.elim (fun quiet => absurd ?_ loud) (· j other)
        exact (List.append_eq_nil_iff.mp (split.symm.trans quiet)).1
    have later : replies rest = [] ∨ ∀ j, j ≠ i → ¬ (Function.update τ i r₁ j).Between := by
      refine allowed.imp (fun quiet => ?_) fun idle j other => ?_
      · exact (List.append_eq_nil_iff.mp (split.symm.trans quiet)).2
      · rw [apart j other]
        exact idle j other
    have run := ih (before.trans (.single step)) (Function.update_self ..) later
    rwa [Function.update_idem, List.append_assoc] at run

/-! ### A READ and the WRITE of another block -/

def oneRead : ReadCmd := ReadCmd.run .configured 0 (CmdArgs.codec.encode default)

def oneWrite : WriteCmd := WriteCmd.run .configured 1 default
  (CmdArgs.codec.encode { (default : CmdArgs) with key := 4096 })

def readAndWrite (i : Bool) : Running :=
  cond i (.read oneRead (oneRead.start default)) (.write oneWrite (oneWrite.start default))

theorem readAndWrite_idle : ∀ i, ¬ (readAndWrite i).Between := by
  rintro (_ | _) <;> exact id

theorem readAndWrite_socket : ∀ i, (readAndWrite i).args.fd = oneRead.args.fd := by
  rintro (_ | _)
  · simp only [readAndWrite, Running.args, Running.command, cond, Sum.elim_inr, oneWrite, oneRead,
      WriteCmd.run, ReadCmd.run, Codec.decode_encode]
  · rfl

theorem oneRead_asks : ∃ tr rep, replies tr = [] ∧
    Run (Step oneRead.next) (oneRead.start default) tr (.replyHeader rep) := by
  have answer : (oneRead.firstCall default).Completes _
      (.datagram (Reply.codec.encode default)) := .last rfl
  exact ⟨_, _, answer.replies, ReadCmd.run_of_first answer⟩

theorem oneWrite_first : ∃ tr rep1, replies tr = [] ∧
    Run (Step oneWrite.next) (oneWrite.start default) tr (.second rep1 oneWrite.secondCall) := by
  have stored : (oneWrite.firstCall default).Completes _
      (.datagram (Reply.header default)) := .last rfl
  exact ⟨_, _, stored.replies,
    stored.run WriteCmd.Point.first oneWrite.afterFirst (fun _ => rfl) rfl⟩

theorem oneWrite_second (rep1 : Reply) : ∃ tr, replies tr = [] ∧
    Run (Step oneWrite.next) (.second rep1 oneWrite.secondCall) tr .reply := by
  have stored : oneWrite.secondCall.Completes _ (.datagram (Reply.header default)) := .last rfl
  obtain ⟨tr, quiet, run⟩ := @WriteCmd.run_to_reply oneWrite
    (oneWrite.secondCall.outcome (.datagram (Reply.header default))).1 rep1
    (oneWrite.secondCall.outcome (.datagram (Reply.header default))).2
  have exchange : Run (Step oneWrite.next) _ _ _ :=
    stored.run (WriteCmd.Point.second rep1) (WriteCmd.afterSecond rep1) (fun _ => rfl) rfl
  refine ⟨_, ?_, exchange.trans run⟩
  rw [replies_append, stored.replies, quiet, List.nil_append]

/-- The WRITE is ready to reply while the READ is between its calls, and waits till it returns. -/
theorem stream_framed_waits : ∃ tr τ, (∀ i, (τ i).Returned) ∧
    (written oneRead.args.fd tr).map Prod.fst = [true, true, false] ∧
    Framed readAndWrite τ (written oneRead.args.fd tr) := by
  obtain ⟨asks, rep, asksQuiet, asked⟩ := oneRead_asks
  obtain ⟨first, rep1, firstQuiet, stored⟩ := oneWrite_first
  obtain ⟨second, secondQuiet, mirrored⟩ := oneWrite_second rep1
  have header : Run (Step oneRead.next) (.replyHeader rep) _ (.replyBlock rep) :=
    .single (.output _ _)
  have block : Run (Step oneRead.next) (.replyBlock rep) _ .returned := .single (.output _ _)
  have reply : Run (Step oneWrite.next) .reply _ .returned := .single (.output _ _)
  have quiet (τ : Bool → Running) (p) (here : τ false = .write oneWrite p) :
      ∀ j, j ≠ true → ¬ (τ j).Between := by
    rintro (_ | _) other
    · rw [here]
      exact id
    · exact absurd rfl other
  -- the exchanges are silent; each call is made while the other command is not between two
  have run := run_undivided (.refl readAndWrite) true rfl (Running.run_read asked) (.inl asksQuiet)
  have run := run_undivided run false rfl (Running.run_write stored) (.inl firstQuiet)
  have run := run_undivided run true rfl (Running.run_read header) (.inr (quiet _ _ rfl))
  have run := run_undivided run false rfl (Running.run_write mirrored) (.inl secondQuiet)
  have run := run_undivided run true rfl (Running.run_read block) (.inr (quiet _ _ rfl))
  have run := run_undivided run false rfl (Running.run_write reply) <| .inr <| by
    rintro (_ | _) other
    · exact absurd rfl other
    · exact id
  refine ⟨_, _, ?_, ?_, stream_framed oneRead.args.fd readAndWrite_idle readAndWrite_socket run⟩
  · rintro (_ | _)
    · rw [Function.update_self]
      rfl
    · rw [Function.update_of_ne (by decide), Function.update_self]
      rfl
  · have socket : oneWrite.args.fd = oneRead.args.fd := readAndWrite_socket false
    simp only [List.nil_append, written_append, written_map, asksQuiet, firstQuiet, secondQuiet]
    simp [replies, socket]

/-- The WRITE of another block replies while the READ is between its calls. -/
theorem stream_divided :
    let read := ReadCmd.run .configured 0 (CmdArgs.codec.encode default)
    let write := WriteCmd.run .configured 1 default (CmdArgs.codec.encode default)
    let σ := fun i : Bool => cond i (Running.read read (read.start default))
      (.write write (write.start default))
    ∃ tr τ, Run (Interleave (Step Running.next)) σ tr τ ∧ (∀ i, (τ i).Returned) ∧
      ¬ Framed σ τ (written read.args.fd tr) := by
  intro read write σ
  have answer : (read.firstCall default).Completes _ (.datagram (Reply.codec.encode default)) :=
    .last rfl
  have stored : write.Completes default _ (.datagram (Reply.header default))
      (.datagram (Reply.header default)) := .both (.last rfl) (.last rfl)
  -- up to the header, the whole WRITE, then the block
  have header : Run (Step read.next) (read.start default) _ (.replyBlock _) :=
    (ReadCmd.run_of_first answer).trans (.single (.output _ _))
  have block (rep) : Run (Step read.next) (.replyBlock rep) _ .returned := .single (.output _ _)
  have run := (((Run.refl σ).move true rfl (Running.run_read header)).move false rfl
    (Running.run_write (WriteCmd.run_of_completes stored))).move true rfl
    (Running.run_read (block _))
  refine ⟨_, _, run, ?_, ?_⟩
  · rintro (_ | _)
    · rw [Function.update_of_ne (by decide), Function.update_self]
      rfl
    · rw [Function.update_self]
      rfl
  · have socket : write.args.fd = read.args.fd := rfl
    simp only [List.nil_append, written_append, written_map, replies_append, answer.replies,
      stored.replies]
    rintro ⟨frames, rest, stream, wholes, pending⟩
    simp only [replies, outputs_output, outputs_nil, List.filterMap_cons, List.filterMap_nil,
      List.filter_cons, List.filter_nil, socket, decide_true, if_true, List.map_cons,
      List.map_nil, List.cons_append, List.nil_append] at stream
    cases frames with
    | nil =>
      have size := congrArg List.length stream
      cases pending <;> simp at size
    | cons frame frames =>
      cases wholes frame List.mem_cons_self with
      | read i block command =>
        simp only [List.flatten_cons, List.cons_append, List.cons.injEq, Prod.mk.injEq] at stream
        obtain ⟨⟨rfl, _⟩, ⟨other, _⟩, _⟩ := stream
        cases other
      | write i command =>
        simp only [List.flatten_cons, List.cons_append, List.cons.injEq, Prod.mk.injEq] at stream
        obtain ⟨⟨rfl, _⟩, _⟩ := stream
        cases command

end
end DistributedDisk
