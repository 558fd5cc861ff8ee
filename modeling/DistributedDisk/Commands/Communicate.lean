import DistributedDisk.Core.Reactive
import DistributedDisk.Master
import DistributedDisk.NbdProxy

/-! `CommunicateMinion`, the exchange of a command with one minion. The text of
the function is the same in both commands; its runs are either still in the
retry loop or a number of timed-out rounds followed by one conclusive outcome. -/
namespace DistributedDisk
open Packed Reactive Transition

/-- What `ClientUDPSocket::Receive` reports: a datagram, or -1 and `errno`. -/
inductive Received where
  | datagram (bytes : List UInt8)
  | failed (errno : Int32)
  deriving DecidableEq, Repr

def eagain : Int32 := 11
def ewouldblock : Int32 := 11

def Received.timesOut : Received → Bool
  | .datagram _ => false
  | .failed errno => errno = eagain || errno = ewouldblock

/-- The socket of the first or of the second exchange of a command. -/
inductive Exchange where
  | first
  | second
  deriving DecidableEq, Repr

/-- What a command does to the world. A `Master::Reply` call holds its mutex
until all its bytes are written. -/
inductive Output where
  | sendto (socket : Exchange) (dest : SockAddr) (bytes : List UInt8)
  | logError (message : String)
  | reply (fd : Int32) (bytes : List UInt8)

abbrev CmdAction := Action Output Exchange Received
abbrev CmdEvent := Event Output Exchange Received

/-- In `CommunicateMinion`: about to send, or in `Receive`. -/
inductive Call.Point where
  | send
  | receive

structure Call where
  socket : Exchange
  dest : SockAddr
  request : Request
  reply : Reply
  point : Call.Point

def communicateMinion (socket : Exchange) (minion : MinionData) (request : Request)
    (reply : Reply) : Call :=
  ⟨socket, ClientUDPSocket.sockaddr minion.ip minion.port, request, reply, .send⟩

namespace Call
variable {S : Type}

/-- The loop of `CommunicateMinion`. The first send and the one after a timeout
are the same point; every other failure leaves the loop. -/
def next (c : Call) (running : Call → S) (returned : Bool → Reply → S) : CmdAction S :=
  match c.point with
  | .send => .output (.sendto c.socket c.dest c.request.header)
      (running { c with point := .receive })
  | .receive => .input c.socket fun
    | .datagram bytes => returned true (Reply.codec.patch c.reply bytes)
    | .failed errno =>
      if errno = eagain ∨ errno = ewouldblock then running { c with point := .send }
      else returned false c.reply

def sends (c : Call) : CmdEvent := .output (.sendto c.socket c.dest c.request.header)

/-- Status and reply that a conclusive outcome returns. -/
def outcome (c : Call) : Received → Bool × Reply
  | .datagram bytes => (true, Reply.codec.patch c.reply bytes)
  | .failed _ => (false, c.reply)

/-- The events of a whole call, with the outcome that ends it. -/
inductive Completes (c : Call) : List CmdEvent → Received → Prop where
  | last : r.timesOut = false → Completes c [c.sends, .input c.socket r] r
  | retry : r.timesOut = true → Completes c tr last →
      Completes c (c.sends :: .input c.socket r :: tr) last

/-- The events of a call that is still in its retry loop. -/
def Retrying (c : Call) (tr : List CmdEvent) : Prop :=
  ∀ e ∈ tr, e = c.sends ∨ ∃ r : Received, r.timesOut = true ∧ e = .input c.socket r

theorem next_received (c : Call) (running : Call → S) (returned : Bool → Reply → S)
    (waits : c.point = .receive) : c.next running returned = .input c.socket fun r =>
      if r.timesOut = true then running { c with point := .send }
      else returned (c.outcome r).1 (c.outcome r).2 := by
  simp only [next, waits]
  congr 1
  funext r
  cases r with
  | datagram bytes => rfl
  | failed errno => simp [Received.timesOut, outcome]

/-- The loop inside a larger program. -/
theorem next_map {T : Type} (c : Call) (running : Call → S) (returned : Bool → Reply → S)
    (f : S → T) : (c.next running returned).map f =
      c.next (fun c => f (running c)) fun status rep => f (returned status rep) := by
  unfold next
  cases c.point with
  | send => rfl
  | receive =>
    simp only [Action.map]
    congr 1
    funext r
    cases r with
    | datagram bytes => rfl
    | failed errno => exact apply_ite f _ _ _

/-- Every run of a program that is in a call is still in the call, or it is the
whole call followed by a run of what comes after it. -/
theorem run_cases {next : S → CmdAction S} (running : Call → S) (returned : Bool → Reply → S)
    {c : Call} (run : Run (Step next) (running c) tr t)
    (calls : ∀ c, next (running c) = c.next running returned) (fresh : c.point = .send) :
    (∃ point, t = running { c with point } ∧ c.Retrying tr) ∨
      ∃ r tr₁ tr₂, tr = tr₁ ++ tr₂ ∧ c.Completes tr₁ r ∧
        Run (Step next) (returned (c.outcome r).1 (c.outcome r).2) tr₂ t := by
  induction size : tr.length using Nat.strong_induction_on generalizing tr with
  | _ n ih =>
    have sending : next (running c) = .output (.sendto c.socket c.dest c.request.header)
        (running { c with point := .receive }) := by
      rw [calls, Call.next, fresh]
    obtain ⟨rfl, rfl⟩ | ⟨tr, rfl, sent⟩ := run.of_output sending
    · exact .inl ⟨c.point, rfl, by simp [Retrying]⟩
    · have waiting := (calls { c with point := .receive }).trans
        (next_received { c with point := .receive } running returned rfl)
      obtain ⟨rfl, rfl⟩ | ⟨r, tr, rfl, received⟩ := sent.of_input waiting
      · exact .inl ⟨.receive, rfl, by simp [Retrying, sends]⟩
      · by_cases timeout : r.timesOut = true
        · -- another round: the state is the one before the send
          have again : ({ c with point := .send } : Call) = c := by rw [← fresh]
          simp only [timeout, if_true, again] at received
          obtain ⟨point, rfl, retrying⟩ | ⟨last, tr₁, tr₂, rfl, complete, rest⟩ :=
            ih tr.length (by simp only [← size, List.length_cons]; omega) received rfl
          · refine .inl ⟨point, rfl, ?_⟩
            intro e member
            rcases List.mem_cons.mp member with rfl | member
            · exact .inl rfl
            · rcases List.mem_cons.mp member with rfl | member
              · exact .inr ⟨r, timeout, rfl⟩
              · exact retrying e member
          · exact .inr ⟨last, _, tr₂, rfl, .retry timeout complete, rest⟩
        · rw [if_neg timeout] at received
          exact .inr ⟨r, [c.sends, .input c.socket r], tr, rfl, .last (by simpa using timeout),
            received⟩

section
variable {next : S → CmdAction S} {running : Call → S} {returned : Bool → Reply → S}
  (calls : ∀ c, next (running c) = c.next running returned) (c : Call)
include calls

theorem fires_send (fresh : c.point = .send) :
    Fires (next (running c)) c.sends (running { c with point := .receive }) := by
  rw [calls, Call.next, fresh]
  exact .output _ _

theorem fires_received (r : Received) :
    Fires (next (running { c with point := .receive })) (.input c.socket r)
      (if r.timesOut = true then running { c with point := .send }
        else returned (c.outcome r).1 (c.outcome r).2) := by
  rw [calls, next_received _ _ _ rfl]
  exact .input c.socket r _

theorem fires_timeout (fresh : c.point = .send) {r : Received} (timeout : r.timesOut = true) :
    Fires (next (running { c with point := .receive })) (.input c.socket r) (running c) := by
  have fires := fires_received calls c r
  rwa [if_pos timeout, ← fresh] at fires

theorem fires_return {r : Received} (conclusive : r.timesOut = false) :
    Fires (next (running { c with point := .receive })) (.input c.socket r)
      (returned (c.outcome r).1 (c.outcome r).2) := by
  have fires := fires_received calls c r
  rwa [if_neg (by simp [conclusive])] at fires

end

/-- The events of a whole call can be taken by any program that makes it. -/
theorem Completes.run {next : S → CmdAction S} (running : Call → S) (returned : Bool → Reply → S)
    {c : Call} (complete : c.Completes tr r)
    (calls : ∀ c, next (running c) = c.next running returned) (fresh : c.point = .send) :
    Run (Step next) (running c) tr (returned (c.outcome r).1 (c.outcome r).2) := by
  induction complete with
  | last conclusive =>
    exact .next (fires_send calls c fresh) (.single (fires_return calls c conclusive))
  | retry timeout _ ih =>
    exact .next (fires_send calls c fresh) (.next (fires_timeout calls c fresh timeout) ih)

/-- `CommunicateMinion` by itself: in the call, or returned. -/
inductive State where
  | running (c : Call)
  | returned (status : Bool) (reply : Reply)

def State.next : State → CmdAction State
  | .running c => c.next .running .returned
  | .returned _ _ => .halt

theorem completes_of_run {c : Call} (run : Run (Step State.next) (.running c) tr
    (.returned status rep)) (fresh : c.point = .send) :
    ∃ r, c.Completes tr r ∧ c.outcome r = (status, rep) := by
  obtain ⟨_, ended, _⟩ | ⟨r, tr, tail, rfl, complete, rest⟩ :=
    run_cases State.running State.returned run (fun _ => rfl) fresh
  · contradiction
  · obtain ⟨rfl, same⟩ := rest.of_halt rfl
    injection same with status rep
    exact ⟨r, by rwa [List.append_nil], by rw [status, rep]⟩

end Call

/-- The outcomes that end a call: everything but a timeout. -/
def conclusive (tr : List CmdEvent) : List Received := (inputs tr).filter (!·.timesOut)

/-- The `Master::Reply` calls of a run. -/
def replies (tr : List CmdEvent) : List (Int32 × List UInt8) :=
  (outputs tr).filterMap fun | .reply fd bytes => some (fd, bytes) | _ => none

@[simp] theorem conclusive_append (tr tr' : List CmdEvent) :
    conclusive (tr ++ tr') = conclusive tr ++ conclusive tr' := by simp [conclusive]

@[simp] theorem replies_append (tr tr' : List CmdEvent) :
    replies (tr ++ tr') = replies tr ++ replies tr' := by simp [replies]

/-- The steps of a call: it sends, goes round again, or returns the outcome. -/
inductive Call.Moves {S : Type} (c : Call) (running : Call → S) (returned : Bool → Reply → S) :
    CmdEvent → S → Prop where
  | sends : c.point = .send →
      Moves c running returned c.sends (running { c with point := .receive })
  | retries (r : Received) : c.point = .receive → r.timesOut = true →
      Moves c running returned (.input c.socket r) (running { c with point := .send })
  | returns (r : Received) : c.point = .receive → r.timesOut = false →
      Moves c running returned (.input c.socket r) (returned (c.outcome r).1 (c.outcome r).2)

theorem Call.moves_of_fires {S : Type} {c : Call} {running : Call → S}
    {returned : Bool → Reply → S} {t : S} (fires : Fires (c.next running returned) e t) :
    c.Moves running returned e t := by
  cases point : c.point with
  | send =>
    rw [Call.next, point] at fires
    cases fires
    exact .sends point
  | receive =>
    rw [Call.next_received _ _ _ point] at fires
    cases fires with
    | input _ r _ =>
      dsimp only
      split
      · exact .retries r point ‹_›
      · exact .returns r point (Bool.eq_false_iff.mpr ‹_›)

/-- Whatever happens in a call, it emits the datagram of its request and nothing else. -/
theorem Call.output_of_run {c : Call} (run : Run (Step State.next) (.running c) tr t)
    (member : .output o ∈ tr) : Event.output o = c.sends := by
  let kept (tr : List CmdEvent) (t : State) : Prop :=
    (∀ o, .output o ∈ tr → Event.output o = c.sends) ∧
      ∀ c', t = .running c' → ∃ point, c' = { c with point }
  suffices sent : kept tr t from sent.1 o member
  clear member o
  refine run.history ⟨by simp, fun c' same => ⟨c.point, by cases same; rfl⟩⟩ ?_
  intro tr t e u ⟨sent, inside⟩ step
  cases t with
  | returned status rep => cases step
  | running c' =>
    obtain ⟨point, rfl⟩ := inside c' rfl
    cases moves_of_fires step with
    | sends =>
      refine ⟨fun o member => ?_, fun c'' same => ⟨.receive, by cases same; rfl⟩⟩
      rcases List.mem_append.mp member with member | member
      · exact sent o member
      · exact List.mem_singleton.mp member
    | retries =>
      exact ⟨fun o member => sent o (by simpa using member),
        fun c'' same => ⟨.send, by cases same; rfl⟩⟩
    | returns => exact ⟨fun o member => sent o (by simpa using member), by simp⟩

theorem Call.Moves.replies {S : Type} {c : Call} {running : Call → S} {returned : Bool → Reply → S}
    {t : S} (moves : c.Moves running returned e t) : replies [e] = [] := by
  cases moves <;> rfl

namespace Call.Completes
variable {c : Call}

theorem received (complete : c.Completes tr r) :
    .input c.socket r ∈ tr ∧ r.timesOut = false := by
  induction complete with
  | last conclusive => exact ⟨by simp, conclusive⟩
  | retry _ _ ih => exact ⟨by simp [ih.1], ih.2⟩

/-- Every input of a call arrives on its own socket, and only the last is no timeout. -/
theorem of_input (complete : c.Completes tr r) (member : .input q i ∈ tr) :
    q = c.socket ∧ (i = r ∨ i.timesOut = true) := by
  induction complete with
  | last _ =>
    rcases List.mem_pair.mp member with same | same
    · cases same
    · cases same
      exact ⟨rfl, .inl rfl⟩
  | retry timeout _ ih =>
    rcases List.mem_cons.mp member with same | member
    · cases same
    · rcases List.mem_cons.mp member with same | member
      · cases same
        exact ⟨rfl, .inr timeout⟩
      · exact ih member

theorem conclusive (complete : c.Completes tr r) : conclusive tr = [r] := by
  induction complete with
  | last conclusive => simp [DistributedDisk.conclusive, sends, conclusive]
  | retry timeout _ ih =>
    simp only [DistributedDisk.conclusive, sends, inputs_output, inputs_input] at ih ⊢
    simp [timeout, ih]

theorem replies (complete : c.Completes tr r) : replies tr = [] := by
  induction complete with
  | last _ => rfl
  | retry _ _ ih => simpa [DistributedDisk.replies, sends] using ih

/-- A datagram that a call receives is the outcome that ends it. -/
theorem datagram_iff (complete : c.Completes tr r) :
    .datagram bytes ∈ inputs tr ↔ r = .datagram bytes := by
  rw [mem_inputs]
  constructor
  · rintro ⟨q, member⟩
    rcases (complete.of_input member).2 with same | timeout
    · exact same.symm
    · cases timeout
  · rintro rfl
    exact ⟨_, complete.received.1⟩

end Call.Completes

/-- What a minion sends back for a request: the whole struct for a read, the
fields in front of the block for a write. -/
def replySize (type : UInt8) : Nat :=
  if type = Kind.write.code then Reply.offsetofBlock else Reply.codec.size

/-- A complete reply to the request, whatever its error. -/
structure Answers (req : Request) (bytes : List UInt8) : Prop where
  complete : replySize req.type ≤ bytes.length
  id : (Reply.fields.decode bytes).1 = req.id
  type : (Reply.fields.decode bytes).2.1 = req.type

def errorOf (bytes : List UInt8) : UInt32 := (Reply.fields.decode bytes).2.2

/-- A complete reply to the request with `m_error == NONE`. -/
def Confirms (req : Request) (bytes : List UInt8) : Prop :=
  Answers req bytes ∧ errorOf bytes = Error.none.code

theorem errorOf_encode (rep : Reply) : errorOf (Reply.codec.encode rep) = rep.error := by
  rw [errorOf, Reply.encode_header, Reply.header_fields, Reply.fields.decode_append]

end DistributedDisk
