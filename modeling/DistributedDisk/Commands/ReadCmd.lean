import DistributedDisk.Commands.Communicate

/-! `ReadCmd`: ask the first minion of an offset, fail over to the second, hand
the block of the reply struct to the kernel in two `Master::Reply` calls. -/
namespace DistributedDisk
open Packed Reactive Transition

/-- The locals of `ReadCmd::Run` that do not change once they are set. -/
structure ReadCmd where
  args : CmdArgs
  min1 : MinionData
  min2 : MinionData
  req : Request

namespace ReadCmd

inductive Point where
  | first (call : Call)
  | second (call : Call)
  | replyHeader (rep : Reply)
  | replyBlock (rep : Reply)
  | returned

def run (master : Master) (idConter : UInt64) (data : List UInt8) : ReadCmd :=
  let args := CmdArgs.codec.decode data
  { args
    min1 := master.first args.key
    min2 := master.second args.key
    req := (ProtocolTranslator.translateRequest idConter args.key Kind.read.code none).2 }

/-- `rep` is an uninitialized local; both calls write into it. -/
def start (cmd : ReadCmd) (rep : Reply) : Point :=
  .first (communicateMinion .first cmd.min1 cmd.req rep)

def afterFirst (cmd : ReadCmd) (status : Bool) (rep : Reply) : Point :=
  if true ≠ status then .second (communicateMinion .second cmd.min2 cmd.req rep)
  else .replyHeader rep

/-- A failure of both calls returns without a reply. -/
def afterSecond (status : Bool) (rep : Reply) : Point :=
  if false = status then .returned else .replyHeader rep

def next (cmd : ReadCmd) : Point → CmdAction Point
  | .first call => call.next .first cmd.afterFirst
  | .second call => call.next .second afterSecond
  | .replyHeader rep =>
    .output (.reply cmd.args.fd (NbdReply.codec.encode cmd.args.reply)) (.replyBlock rep)
  | .replyBlock rep => .output (.reply cmd.args.fd rep.block.toList) .returned
  | .returned => .halt

/-- The two `Master::Reply` calls that end an answered run. -/
def replies (cmd : ReadCmd) (rep : Reply) : List CmdEvent :=
  [.output (.reply cmd.args.fd (NbdReply.codec.encode cmd.args.reply)),
    .output (.reply cmd.args.fd rep.block.toList)]

variable {cmd : ReadCmd} {rep : Reply}

def firstCall (cmd : ReadCmd) (rep : Reply) : Call :=
  communicateMinion .first cmd.min1 cmd.req rep

def secondCall (cmd : ReadCmd) (rep : Reply) : Call :=
  communicateMinion .second cmd.min2 cmd.req rep

/-- The events of a whole run: the first minion answers, or the socket fails and
the second answers, or both sockets fail and nothing is replied. -/
inductive Completes (cmd : ReadCmd) (rep : Reply) : List CmdEvent → Prop where
  | first : (cmd.firstCall rep).Completes tr (.datagram bytes) →
      Completes cmd rep (tr ++ cmd.replies (Reply.codec.patch rep bytes))
  | second : (cmd.firstCall rep).Completes tr₁ (.failed e) →
      (cmd.secondCall rep).Completes tr₂ (.datagram bytes) →
      Completes cmd rep (tr₁ ++ (tr₂ ++ cmd.replies (Reply.codec.patch rep bytes)))
  | neither : (cmd.firstCall rep).Completes tr₁ (.failed e₁) →
      (cmd.secondCall rep).Completes tr₂ (.failed e₂) → Completes cmd rep (tr₁ ++ tr₂)

theorem replies_of_run (run : Run (Step cmd.next) (.replyHeader rep) tr .returned) :
    tr = cmd.replies rep := by
  obtain ⟨_, ended⟩ | ⟨tr, rfl, block⟩ := run.of_output rfl
  · contradiction
  · obtain ⟨_, ended⟩ | ⟨tr, rfl, done⟩ := block.of_output rfl
    · contradiction
    · rw [(done.of_halt rfl).1]
      rfl

theorem completes_of_run (run : Run (Step cmd.next) (cmd.start rep) tr .returned) :
    cmd.Completes rep tr := by
  obtain ⟨_, ended, _⟩ | ⟨r₁, tr₁, tail, rfl, first, rest⟩ :=
    Call.run_cases Point.first cmd.afterFirst run (fun _ => rfl) rfl
  · contradiction
  · cases r₁ with
    | datagram bytes =>
      rw [replies_of_run rest]
      exact .first first
    | failed e₁ =>
      obtain ⟨_, ended, _⟩ | ⟨r₂, tr₂, tail, rfl, second, rest⟩ :=
        Call.run_cases Point.second afterSecond rest (fun _ => rfl) rfl
      · contradiction
      · cases r₂ with
        | datagram bytes =>
          rw [replies_of_run rest]
          exact .second first second
        | failed e₂ =>
          rw [(rest.of_halt rfl).1, List.append_nil]
          exact .neither first second

theorem run_of_replies (rep : Reply) :
    Run (Step cmd.next) (.replyHeader rep) (cmd.replies rep) .returned :=
  .next (.output _ _) (.single (.output _ _))

theorem run_of_first (call : (cmd.firstCall rep).Completes tr r) :
    Run (Step cmd.next) (cmd.start rep) tr
      (cmd.afterFirst ((cmd.firstCall rep).outcome r).1 ((cmd.firstCall rep).outcome r).2) :=
  call.run Point.first cmd.afterFirst (fun _ => rfl) rfl

theorem run_of_second (call : (cmd.secondCall rep).Completes tr r) :
    Run (Step cmd.next) (.second (cmd.secondCall rep)) tr
      (afterSecond ((cmd.secondCall rep).outcome r).1 ((cmd.secondCall rep).outcome r).2) :=
  call.run Point.second afterSecond (fun _ => rfl) rfl

theorem run_of_completes (complete : cmd.Completes rep tr) :
    Run (Step cmd.next) (cmd.start rep) tr .returned := by
  cases complete with
  | first call => exact (run_of_first call).trans (run_of_replies _)
  | second call₁ call₂ =>
    exact (run_of_first call₁).trans ((run_of_second call₂).trans (run_of_replies _))
  | neither call₁ call₂ => exact (run_of_first call₁).trans (run_of_second call₂)

/-! ### Fail-over -/

/-- The first minion never answers: every `Receive` times out. The second does. -/
structure OnlySecondAnswers (tr : List CmdEvent) : Prop where
  first : ∀ r, .input .first r ∈ tr → r = .failed eagain
  second : ∀ r, .input .second r ∈ tr → ∃ bytes, r = .datagram bytes

/-- After finitely many steps the block of the second minion has been written. -/
def FailsOver (cmd : ReadCmd) (rep : Reply) : Prop :=
  ∃ tr bytes, Run (Step cmd.next) (cmd.start rep) tr .returned ∧ OnlySecondAnswers tr ∧
    .input .second (.datagram bytes) ∈ tr ∧
    (cmd.args.fd, (Reply.codec.patch rep bytes).block.toList) ∈ DistributedDisk.replies tr

/-- Any number of retransmissions leads back to the point before the first. -/
theorem retries (cmd : ReadCmd) (rep : Reply) (k : Nat) :
    ∃ tr, Run (Step cmd.next) (cmd.start rep) tr (cmd.start rep) ∧ OnlySecondAnswers tr ∧
      inputs tr = List.replicate k (.failed eagain) := by
  induction k with
  | zero => exact ⟨[], .refl _, ⟨by simp, by simp⟩, rfl⟩
  | succ k ih =>
    obtain ⟨tr, run, only, count⟩ := ih
    refine ⟨(cmd.firstCall rep).sends :: .input .first (.failed eagain) :: tr,
      .next (.output _ _) (.next (.input _ _ _) run), ⟨?_, ?_⟩, ?_⟩
    · intro r member
      simp only [Call.sends, List.mem_cons, reduceCtorEq, Event.input.injEq, true_and,
        false_or] at member
      exact member.elim id (only.first r)
    · intro r member
      simp only [Call.sends, List.mem_cons, reduceCtorEq, Event.input.injEq, false_and,
        false_or] at member
      exact only.second r member
    · simp only [Call.sends, inputs_output, inputs_input, count, List.replicate_succ]

/-- Without an answer the run stays in the retry loop of the first exchange. -/
theorem stays_in_first (run : Run (Step cmd.next) (cmd.start rep) tr t)
    (only : OnlySecondAnswers tr) : ∃ call, t = .first call := by
  obtain ⟨point, rfl, _⟩ | ⟨r, tr₁, tr₂, rfl, call, _⟩ :=
    Call.run_cases Point.first cmd.afterFirst run (fun _ => rfl) rfl
  · exact ⟨_, rfl⟩
  · obtain ⟨member, conclusive⟩ := call.received
    rw [only.first r (List.mem_append_left _ member)] at conclusive
    contradiction

/-- For every offset the loop goes on for as long as the first minion keeps
silent, and the second minion is never asked. -/
theorem fails_over_never (master : Master) (idConter : UInt64) (data : List UInt8) (rep : Reply) :
    (∀ k, ∃ tr call, Run (Step (run master idConter data).next)
      ((run master idConter data).start rep) tr (.first call) ∧ OnlySecondAnswers tr ∧
      inputs tr = List.replicate k (.failed eagain)) ∧
    ¬ (run master idConter data).FailsOver rep := by
  constructor
  · intro k
    obtain ⟨tr, run, only, count⟩ := retries (run master idConter data) rep k
    exact ⟨tr, _, run, only, count⟩
  · rintro ⟨tr, bytes, run, only, _⟩
    obtain ⟨call, same⟩ := stays_in_first run only
    cases same

/-- Offset 0 of the shipped configuration. -/
theorem fails_over_not_configured : ¬ (run .configured 0 (CmdArgs.codec.encode default)).FailsOver
    default := by
  rintro ⟨tr, bytes, run, only, _⟩
  obtain ⟨call, same⟩ := stays_in_first run only
  cases same

/-! ### Which answers are used -/

/-- The reply struct that a complete datagram holds. -/
def replyOf (bytes : List UInt8) : Reply := Reply.codec.decode (bytes.take Reply.codec.size)

/-- A success reply carries the block of a confirming reply, and another error of
the first minion makes the command ask the second. -/
structure UsesConfirmed (cmd : ReadCmd) (tr : List CmdEvent) : Prop where
  block : ∀ fd header block, DistributedDisk.replies tr = [(fd, header), (fd, block)] →
    ∃ bytes, .datagram bytes ∈ inputs tr ∧ Confirms cmd.req bytes ∧
      block = (replyOf bytes).block.toList
  asks : ∀ bytes, .input .first (.datagram bytes) ∈ tr → errorOf bytes ≠ Error.none.code →
    ∃ dest request, .output (.sendto .second dest request) ∈ tr

theorem replies_replies (cmd : ReadCmd) (rep : Reply) : DistributedDisk.replies (cmd.replies rep) =
    [(cmd.args.fd, NbdReply.codec.encode cmd.args.reply), (cmd.args.fd, rep.block.toList)] := rfl

theorem inputs_replies (cmd : ReadCmd) (rep : Reply) : inputs (cmd.replies rep) = [] := rfl

/-- A complete run takes no datagram and replies nothing, or it takes one and
replies the block that the reply struct holds then. -/
theorem Completes.answered (complete : cmd.Completes rep tr) :
    (DistributedDisk.replies tr = [] ∧ ∀ bytes, .datagram bytes ∉ inputs tr) ∨
      ∃ bytes, (∀ other, .datagram other ∈ inputs tr ↔ bytes = other) ∧
        DistributedDisk.replies tr = DistributedDisk.replies
          (cmd.replies (Reply.codec.patch rep bytes)) := by
  cases complete with
  | first call =>
    refine .inr ⟨_, fun other => ?_, by rw [replies_append, call.replies, List.nil_append]⟩
    rw [inputs_append, inputs_replies, List.append_nil, call.datagram_iff, Received.datagram.injEq]
  | second call₁ call₂ =>
    refine .inr ⟨_, fun other => ?_, by
      rw [replies_append, replies_append, call₁.replies, call₂.replies]; rfl⟩
    simp only [inputs_append, inputs_replies, List.append_nil, List.mem_append, call₁.datagram_iff,
      call₂.datagram_iff, reduceCtorEq, false_or, Received.datagram.injEq]
  | neither call₁ call₂ =>
    refine .inl ⟨by rw [replies_append, call₁.replies, call₂.replies]; rfl, fun other => ?_⟩
    simp only [inputs_append, List.mem_append, call₁.datagram_iff, call₂.datagram_iff,
      reduceCtorEq, or_self, not_false_eq_true]

/-- No datagram is checked: the calls and the command use what they should
exactly when nothing else arrives. -/
theorem uses_confirmed_iff (master : Master) (idConter : UInt64) (data : List UInt8) (rep : Reply)
    (c : Call) (fresh : c.point = .send)
    (returned : Run (Step Call.State.next) (.running c) tr (.returned status rep'))
    (completed : Run (Step (run master idConter data).next)
      ((run master idConter data).start rep) tr' .returned) :
    ((status = true → ∃ bytes, .datagram bytes ∈ inputs tr ∧ Answers c.request bytes) ↔
      ∀ bytes, .datagram bytes ∈ inputs tr → Answers c.request bytes) ∧
    ((run master idConter data).UsesConfirmed tr' ↔
      ∀ bytes, .datagram bytes ∈ inputs tr' → Confirms (run master idConter data).req bytes) := by
  constructor
  · obtain ⟨r, call, outcome⟩ := Call.completes_of_run returned fresh
    simp only [call.datagram_iff]
    cases r with
    | datagram bytes =>
      obtain ⟨rfl, _⟩ := Prod.mk.inj outcome
      simp only [Received.datagram.injEq, true_implies, exists_eq_left', forall_eq']
    | failed errno =>
      obtain ⟨rfl, _⟩ := Prod.mk.inj outcome
      simp only [Bool.false_eq_true, false_implies, reduceCtorEq, implies_true]
  · obtain ⟨nothing, silent⟩ | ⟨bytes, taken, written⟩ := (completes_of_run completed).answered
    · refine iff_of_true ⟨?_, ?_⟩ fun bytes member => absurd member (silent bytes)
      · intro fd header block same
        rw [nothing] at same
        contradiction
      · intro bytes member
        exact absurd (mem_inputs.mpr ⟨_, member⟩) (silent bytes)
    · rw [replies_replies] at written
      constructor
      · intro uses other member
        obtain ⟨used, arrived, confirms, _⟩ := uses.block _ _ _ written
        rw [← (taken other).mp member, (taken used).mp arrived]
        exact confirms
      · intro confirm
        have confirmed := confirm bytes ((taken bytes).mpr rfl)
        constructor
        · intro fd header block same
          refine ⟨bytes, (taken bytes).mpr rfl, confirmed, ?_⟩
          rw [written] at same
          simp only [List.cons.injEq, Prod.mk.injEq] at same
          rw [← same.2.1.2, Codec.patch_complete _ _ confirmed.1.complete]
          rfl
        · intro other member error
          exact absurd (confirm other (mem_inputs.mpr ⟨_, member⟩)).2 error

/-- The first minion answers offset 0 of the shipped configuration. -/
theorem uses_confirmed_iff_configured :
    let cmd := run .configured 0 (CmdArgs.codec.encode default)
    let answer := Received.datagram (Reply.codec.encode ⟨1, 1, Error.none.code, Block.zero⟩)
    ∃ tr, answer ∈ inputs tr ∧ (cmd.UsesConfirmed tr ↔
      ∀ bytes, .datagram bytes ∈ inputs tr → Confirms cmd.req bytes) := by
  intro cmd answer
  have call : (cmd.firstCall default).Completes _ answer := .last rfl
  have alone : Run (Step Call.State.next) (.running (cmd.firstCall default)) _ (.returned _ _) :=
    call.run Call.State.running Call.State.returned (fun _ => rfl) rfl
  refine ⟨_, ?_, (uses_confirmed_iff .configured 0 _ default _ rfl alone
    (run_of_completes (.first call))).2⟩
  rw [inputs_append]
  exact List.mem_append_left _ (mem_inputs.mpr ⟨_, call.received.1⟩)

/-- The first minion has no block at offset 0 and says so. What its reply holds
in place of one is written to the kernel, and the second minion is not asked. -/
theorem uses_block_not_founed :
    let cmd := run .configured 0 (CmdArgs.codec.encode default)
    ∃ tr, Run (Step cmd.next) (cmd.start default) tr .returned ∧ ¬ cmd.UsesConfirmed tr := by
  intro cmd
  have call : (cmd.firstCall default).Completes _ (.datagram
      (Reply.codec.encode ⟨1, 1, Error.blockNotFouned.code, Block.zero⟩)) := .last rfl
  refine ⟨_, run_of_completes (.first call), fun uses => ?_⟩
  obtain ⟨dest, request, asked⟩ := uses.asks _ (List.mem_append_left _ call.received.1)
    (by rw [errorOf_encode]; decide)
  rcases List.mem_append.mp asked with asked | asked
  · rcases List.mem_pair.mp asked with same | same <;> cases same
  · rcases List.mem_pair.mp asked with same | same <;> cases same

end ReadCmd
end DistributedDisk
