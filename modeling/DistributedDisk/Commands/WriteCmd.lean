import DistributedDisk.Commands.Communicate

/-! `WriteCmd`: one exchange with each replica, a log entry if a reply struct holds
an error, and the reply that `ParseData` prepared. -/
namespace DistributedDisk
open Packed Reactive Transition

/-- The locals of `WriteCmd::Run` that do not change once they are set; `rep2`
is what the second reply struct holds before its exchange. -/
structure WriteCmd where
  args : CmdArgs
  min1 : MinionData
  min2 : MinionData
  req : Request
  rep2 : Reply

namespace WriteCmd

inductive Point where
  | first (call : Call)
  | second (rep1 : Reply) (call : Call)
  | logError
  | reply
  | returned

def run (master : Master) (idConter : UInt64) (rep2 : Reply) (data : List UInt8) : WriteCmd :=
  let args := CmdArgs.codec.decode data
  { args
    min1 := master.first args.key
    min2 := master.second args.key
    req := (ProtocolTranslator.translateRequest idConter args.key Kind.write.code
      (some args.block)).2
    rep2 }

def firstCall (cmd : WriteCmd) (rep1 : Reply) : Call :=
  communicateMinion .first cmd.min1 cmd.req rep1

def secondCall (cmd : WriteCmd) : Call := communicateMinion .second cmd.min2 cmd.req cmd.rep2

def start (cmd : WriteCmd) (rep1 : Reply) : Point := .first (cmd.firstCall rep1)

def afterFirst (cmd : WriteCmd) (_status : Bool) (rep1 : Reply) : Point :=
  .second rep1 cmd.secondCall

def afterSecond (rep1 : Reply) (_status : Bool) (rep2 : Reply) : Point :=
  if rep1.error ≠ Error.none.code ∨ rep2.error ≠ Error.none.code then .logError else .reply

def next (cmd : WriteCmd) : Point → CmdAction Point
  | .first call => call.next .first cmd.afterFirst
  | .second rep1 call => call.next (.second rep1) (afterSecond rep1)
  | .logError => .output (.logError "error in writing block") .reply
  | .reply => .output (.reply cmd.args.fd (NbdReply.codec.encode cmd.args.reply)) .returned
  | .returned => .halt

/-- The events behind the two exchanges. -/
def tail (cmd : WriteCmd) (rep1 rep2 : Reply) : List CmdEvent :=
  (if rep1.error ≠ Error.none.code ∨ rep2.error ≠ Error.none.code then
    [.output (.logError "error in writing block")] else []) ++
  [.output (.reply cmd.args.fd (NbdReply.codec.encode cmd.args.reply))]

/-- The events of a whole run, for any outcome of the two exchanges. -/
inductive Completes (cmd : WriteCmd) (rep1 : Reply) :
    List CmdEvent → Received → Received → Prop where
  | both : (cmd.firstCall rep1).Completes tr₁ r₁ → cmd.secondCall.Completes tr₂ r₂ →
      Completes cmd rep1 (tr₁ ++ (tr₂ ++ cmd.tail ((cmd.firstCall rep1).outcome r₁).2
        (cmd.secondCall.outcome r₂).2)) r₁ r₂

variable {cmd : WriteCmd} {rep1 : Reply}

theorem run_encode (master : Master) (idConter : UInt64) (rep2 : Reply) (args : CmdArgs) :
    run master idConter rep2 (CmdArgs.codec.encode args) =
      ⟨args, master.first args.key, master.second args.key,
        (ProtocolTranslator.translateRequest idConter args.key Kind.write.code
          (some args.block)).2, rep2⟩ := by
  rw [run, Codec.decode_encode]

theorem reply_of_run (run : Run (Step cmd.next) .reply tr .returned) :
    tr = [.output (.reply cmd.args.fd (NbdReply.codec.encode cmd.args.reply))] := by
  obtain ⟨_, ended⟩ | ⟨tr, rfl, done⟩ := run.of_output rfl
  · contradiction
  · rw [(done.of_halt rfl).1]

theorem tail_of_run (run : Run (Step cmd.next) (afterSecond rep status rep') tr .returned) :
    tr = cmd.tail rep rep' := by
  unfold afterSecond at run
  unfold tail
  split at run
  · obtain ⟨_, ended⟩ | ⟨tr, rfl, done⟩ := run.of_output rfl
    · contradiction
    · rw [if_pos ‹_›, reply_of_run done]
      rfl
  · rw [if_neg ‹_›, reply_of_run run]
    rfl

theorem completes_of_run (run : Run (Step cmd.next) (cmd.start rep1) tr .returned) :
    ∃ r₁ r₂, cmd.Completes rep1 tr r₁ r₂ := by
  obtain ⟨_, ended, _⟩ | ⟨r₁, tr₁, tail, rfl, first, rest⟩ :=
    Call.run_cases Point.first cmd.afterFirst run (fun _ => rfl) rfl
  · contradiction
  · obtain ⟨_, ended, _⟩ | ⟨r₂, tr₂, tail, rfl, second, rest⟩ :=
      Call.run_cases (Point.second _) (afterSecond _) rest (fun _ => rfl) rfl
    · contradiction
    · rw [tail_of_run rest]
      exact ⟨r₁, r₂, .both first second⟩

theorem run_of_tail (status : Bool) (rep rep' : Reply) :
    Run (Step cmd.next) (afterSecond rep status rep') (cmd.tail rep rep') .returned := by
  unfold afterSecond tail
  split
  · exact .next (.output _ _) (.single (.output _ _))
  · exact .single (.output _ _)

/-- An error is logged on the way to the reply. -/
theorem run_to_reply (status : Bool) (rep rep' : Reply) : ∃ tr,
    DistributedDisk.replies tr = [] ∧ Run (Step cmd.next) (afterSecond rep status rep') tr .reply := by
  unfold afterSecond
  split
  · exact ⟨_, rfl, .single (.output _ _)⟩
  · exact ⟨[], rfl, .refl _⟩

theorem run_of_completes (complete : cmd.Completes rep1 tr r₁ r₂) :
    Run (Step cmd.next) (cmd.start rep1) tr .returned := by
  cases complete with
  | both first second =>
    exact (first.run Point.first cmd.afterFirst (fun _ => rfl) rfl).trans
      ((second.run (Point.second _) (afterSecond _) (fun _ => rfl) rfl).trans (run_of_tail ..))

theorem tail_outputs (cmd : WriteCmd) (rep rep' : Reply) : ∀ e ∈ cmd.tail rep rep',
    ∃ o, e = .output o ∧ ∀ socket dest bytes, o ≠ .sendto socket dest bytes := by
  intro e member
  unfold tail at member
  rcases List.mem_append.mp member with member | member
  · split at member
    · exact ⟨_, List.mem_singleton.mp member, by simp⟩
    · cases member
  · exact ⟨_, List.mem_singleton.mp member, by simp⟩

theorem Completes.conclusive (complete : cmd.Completes rep1 tr r₁ r₂) :
    conclusive tr = [r₁, r₂] := by
  cases complete with
  | both first second =>
    simp only [conclusive_append, first.conclusive, second.conclusive, tail]
    split <;> rfl

theorem replies_tail (cmd : WriteCmd) (rep rep' : Reply) : DistributedDisk.replies
    (cmd.tail rep rep') = [(cmd.args.fd, NbdReply.codec.encode cmd.args.reply)] := by
  unfold tail
  split <;> rfl

theorem Completes.replies (complete : cmd.Completes rep1 tr r₁ r₂) :
    replies tr = [(cmd.args.fd, NbdReply.codec.encode cmd.args.reply)] := by
  cases complete with
  | both first second =>
    simp only [replies_append, first.replies, second.replies, replies_tail, List.nil_append]

/-- Both chosen minions answered the request with `m_error == NONE`. -/
def Mirrored (cmd : WriteCmd) (tr : List CmdEvent) : Prop :=
  ∃ bytes₁ bytes₂, DistributedDisk.conclusive tr = [.datagram bytes₁, .datagram bytes₂] ∧
    Confirms cmd.req bytes₁ ∧ Confirms cmd.req bytes₂

/-- An nbd_reply with error 0 is written only for a mirrored write. -/
def AcknowledgesMirrored (cmd : WriteCmd) (tr : List CmdEvent) : Prop :=
  ∀ fd bytes, (fd, bytes) ∈ DistributedDisk.replies tr →
    (NbdReply.codec.decode bytes).error = 0 → cmd.Mirrored tr

/-- The write that `ParseData` made of a request, in the master's pool. -/
def ofRequest (master : Master) (idConter : UInt64) (rep2 : Reply) (junk : CmdArgs) (fd : Int32)
    (request : NbdRequest) (block : Block) : WriteCmd :=
  run master idConter rep2
    (CmdArgs.codec.encode { NbdProxy.cmdArgs junk fd request with block := block })

theorem ofRequest_args (master : Master) (idConter : UInt64) (rep2 : Reply) (junk : CmdArgs)
    (fd : Int32) (request : NbdRequest) (block : Block) :
    (ofRequest master idConter rep2 junk fd request block).args =
      { NbdProxy.cmdArgs junk fd request with block := block } :=
  CmdArgs.codec.decode_encode _

/-- The reply carries error 0 whatever the exchanges brought, so the write is
acknowledged rightly exactly when it was mirrored. -/
theorem acknowledges_iff_mirrored (master : Master) (idConter : UInt64) (rep1 rep2 : Reply)
    (junk : CmdArgs) (fd : Int32) (request : NbdRequest) (block : Block) (tr : List CmdEvent)
    (run : Run (Step (ofRequest master idConter rep2 junk fd request block).next)
      ((ofRequest master idConter rep2 junk fd request block).start rep1) tr .returned) :
    (ofRequest master idConter rep2 junk fd request block).AcknowledgesMirrored tr ↔
      (ofRequest master idConter rep2 junk fd request block).Mirrored tr := by
  obtain ⟨r₁, r₂, complete⟩ := completes_of_run run
  have args := ofRequest_args master idConter rep2 junk fd request block
  constructor
  · intro acknowledges
    apply acknowledges _ _ (by rw [complete.replies]; exact List.mem_singleton_self _)
    rw [NbdReply.codec.decode_encode, args]
    rfl
  · intro mirrored _ _ _ _
    exact mirrored

/-- Both minions store the block. -/
theorem acknowledges_iff_mirrored_stored :
    let cmd := ofRequest .configured 0 default default 3 default Block.zero
    let stored := Received.datagram (Reply.header ⟨1, 2, Error.none.code, Block.zero⟩)
    ∃ tr, conclusive tr = [stored, stored] ∧ (cmd.AcknowledgesMirrored tr ↔ cmd.Mirrored tr) := by
  intro cmd stored
  have complete : cmd.Completes default _ stored stored := .both (.last rfl) (.last rfl)
  exact ⟨_, complete.conclusive, acknowledges_iff_mirrored .configured 0 default default default 3
    default Block.zero _ (run_of_completes complete)⟩

/-- The first minion answers NOT_ENOUGH_SPACE. The error is logged, and the
kernel is told that the write succeeded. -/
theorem acknowledges_not_enough_space :
    let cmd := ofRequest .configured 0 default default 3 default Block.zero
    ∃ tr, Run (Step cmd.next) (cmd.start default) tr .returned ∧ ¬ cmd.AcknowledgesMirrored tr := by
  intro cmd
  have complete : cmd.Completes default _
      (.datagram (Reply.header ⟨1, 2, Error.notEnoughSpace.code, Block.zero⟩))
      (.datagram (Reply.header ⟨1, 2, Error.none.code, Block.zero⟩)) :=
    .both (.last rfl) (.last rfl)
  refine ⟨_, run_of_completes complete, ?_⟩
  intro acknowledges
  have args : cmd.args = _ := ofRequest_args .configured 0 default default 3 default Block.zero
  obtain ⟨bytes₁, bytes₂, outcomes, confirmed, _⟩ := acknowledges _ _
    (by rw [complete.replies]; exact List.mem_singleton_self _)
    (by rw [NbdReply.codec.decode_encode, args]; rfl)
  rw [complete.conclusive] at outcomes
  cases outcomes
  have error := confirmed.2
  rw [errorOf, Reply.header_fields, Codec.decode_encode] at error
  contradiction

end WriteCmd
end DistributedDisk
