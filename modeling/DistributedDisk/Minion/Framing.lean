import DistributedDisk.Minion.Traffic

/-! Requests of several clients on the one socket of a minion. Each client sends
its own datagrams in order and the network merges them; the minion joins the
header of a write and the next datagram, whoever sent it. -/
namespace DistributedDisk
open Packed Transition

inductive Part where
  | header
  | block
  deriving DecidableEq

/-- A datagram by its client, the number of its request there, and its part. -/
structure Sent (C : Type) where
  client : C
  number : Nat
  part : Part

section
variable {C : Type}

/-- The datagram behind a header: a write sends its block. -/
def Request.body (req : Request) (client : C) (n : Nat) : List (Sent C × List UInt8) :=
  if req.type = Kind.write.code then [(⟨client, n, .block⟩, req.block.toList)] else []

/-- The datagrams of a client whose next request has this number. -/
def sends (client : C) : Nat → List Request → List (Sent C × List UInt8)
  | _, [] => []
  | n, req :: rest => (⟨client, n, .header⟩, req.header) ::
      (req.body client n ++ sends client (n + 1) rest)

/-- Each write command has the fields of one request of its client. -/
def Pairs (requests : C → List Request) (m : Minion (Sent C) (List UInt8)) : Prop :=
  ∀ task ∈ m.held, task.data.key = "MinWriteCmd" → ∃ req,
    (requests task.origin.client)[task.origin.number]? = some req ∧
      task.data = MinionProxy.processRequest req

/-- A block is awaited only while the next datagram of the socket is the block of
the same request. -/
structure WellFramed (requests : C → List Request) (m : Minion (Sent C) (List UInt8)) : Prop where
  awaited : ∀ origin req sent datagram rest, m.reading = some (origin, req) →
    m.inbox = (sent, datagram) :: rest → sent = { origin with part := .block }
  paired : Pairs requests m

/-- Nothing lies between the header of a write and its block. -/
inductive Unmixed (requests : C → List Request) : List (Sent C × List UInt8) → Prop where
  | nil : Unmixed requests []
  | read : (requests client)[n]? = some req → req.type ≠ Kind.write.code →
      Unmixed requests rest →
      Unmixed requests ((⟨client, n, .header⟩, req.header) :: rest)
  | write : (requests client)[n]? = some req → req.type = Kind.write.code →
      Unmixed requests rest →
      Unmixed requests ((⟨client, n, .header⟩, req.header) ::
        (⟨client, n, .block⟩, req.block.toList) :: rest)

/-- Unmixed traffic starts with a header, and goes on with its block if it is a write. -/
theorem Unmixed.header {requests : C → List Request}
    (unmixed : Unmixed requests ((sent, datagram) :: rest)) :
    ∃ client n req, sent = ⟨client, n, .header⟩ ∧ datagram = req.header ∧
      (requests client)[n]? = some req ∧ (req.type ≠ Kind.write.code ∧ Unmixed requests rest ∨
        req.type = Kind.write.code ∧ ∃ tail, Unmixed requests tail ∧
          rest = (⟨client, n, .block⟩, req.block.toList) :: tail) := by
  cases unmixed with
  | read known type unmixed => exact ⟨_, _, _, rfl, rfl, known, .inl ⟨type, unmixed⟩⟩
  | write known type unmixed => exact ⟨_, _, _, rfl, rfl, known, .inr ⟨type, _, unmixed, rfl⟩⟩

theorem Request.body_write {req : Request} (type : req.type = Kind.write.code) (client : C)
    (n : Nat) : req.body client n = [(⟨client, n, .block⟩, req.block.toList)] :=
  if_pos type

theorem Request.body_other {req : Request} (type : req.type ≠ Kind.write.code) (client : C)
    (n : Nat) : req.body client n = [] := if_neg type

/-- The next datagram of a client that has sent the requests before `n`. -/
theorem sends_eq_cons {client : C} {reqs : List Request}
    (sent : sends client n (reqs.drop n) = first :: rest) :
    ∃ req, reqs[n]? = some req ∧ first = (⟨client, n, .header⟩, req.header) ∧
      rest = req.body client n ++ sends client (n + 1) (reqs.drop (n + 1)) := by
  cases left : reqs.drop n with
  | nil =>
    rw [left] at sent
    cases sent
  | cons req tail =>
    rw [left] at sent
    obtain ⟨here, behind⟩ := drop_eq_cons left
    cases sent
    exact ⟨req, here, rfl, by rw [behind]⟩

end

namespace MinionProxy

theorem type_readHeader_header (junk req : Request) :
    (readHeader junk req.header).type = req.type := by
  rw [readHeader_header]

theorem readBlock_block (req : Request) (junk : Block) :
    readBlock { req with block := junk } req.block.toList = req := by
  have whole : (Codec.chars 4096).patch junk req.block.toList = req.block :=
    (Codec.chars 4096).patch_encode junk req.block
  rw [readBlock, whole]

theorem key_eq_write {req : Request} (key : (processRequest req).key = "MinWriteCmd") :
    req.type = Kind.write.code := by
  by_contra other
  have other' : "MinReadCmd" ≠ "MinWriteCmd" := by decide
  unfold processRequest at key
  split at key
  · exact other' key
  · simp at key

end MinionProxy

namespace Fed
variable {C : Type} {requests : C → List Request}

/-- Where the minion stands in traffic that is not mixed: between two requests
or within a write, with its block next. -/
inductive Follows (requests : C → List Request) (s : Fed (Sent C)) : Prop where
  | between : s.minion.reading = none → Unmixed requests s.unread → Follows requests s
  | within (req : Request) (junk : Block) : (requests client)[n]? = some req →
      req.type = Kind.write.code →
      s.minion.reading = some (⟨client, n, .header⟩, { req with block := junk }) →
      s.unread = (⟨client, n, .block⟩, req.block.toList) :: rest →
      Unmixed requests rest → Follows requests s

theorem Follows.same {s s' : Fed (Sent C)} (follows : Follows requests s)
    (unread : s'.unread = s.unread) (reading : s'.minion.reading = s.minion.reading) :
    Follows requests s' := by
  cases follows with
  | between header unmixed => exact .between (by rw [reading, header]) (by rwa [unread])
  | within req junk known type awaits next unmixed =>
    exact .within req junk known type (by rw [reading, awaits]) (by rw [unread, next]) unmixed

theorem Follows.step {s s' : Fed (Sent C)} (follows : Follows requests s) (step : Step s e s') :
    Follows requests s' := by
  cases step with
  | arrives peer datagram network => exact follows.same (unread_arrives network) rfl
  | works works => cases works <;> exact follows.same rfl rfl
  | reads reads =>
    cases reads with
    | header peer req junk _ header inbox received type =>
      cases follows with
      | within _ _ _ _ reading => rw [header] at reading; cases reading
      | between _ unmixed =>
        rw [unread_reads inbox] at unmixed
        obtain ⟨client, n, req', rfl, rfl, _, ⟨_, unmixed⟩ | ⟨write, _⟩⟩ := unmixed.header
        · exact .between header unmixed
        · rw [← received, MinionProxy.type_readHeader_header] at type
          exact absurd write type
    | headerOfWrite peer req junk _ header inbox received type =>
      cases follows with
      | within _ _ _ _ reading => rw [header] at reading; cases reading
      | between _ unmixed =>
        rw [unread_reads inbox] at unmixed
        obtain ⟨client, n, req', rfl, rfl, known, ⟨other, _⟩ | ⟨write, tail, unmixed, next⟩⟩ :=
          unmixed.header
        · rw [← received, MinionProxy.type_readHeader_header] at type
          exact absurd type other
        · rw [MinionProxy.readHeader_header] at received
          exact .within req' junk.block known write (by rw [← received]) next unmixed
    | block peer origin req datagram _ reading inbox =>
      cases follows with
      | between header _ => rw [header] at reading; cases reading
      | within _ _ _ _ _ next unmixed =>
        rw [unread_reads inbox] at next
        cases next
        exact .between rfl unmixed

theorem Follows.pairs {s s' : Fed (Sent C)} (follows : Follows requests s) (step : Step s e s')
    (pairs : Pairs requests s.minion) : Pairs requests s'.minion := by
  cases step with
  | arrives => exact pairs
  | works works => exact fun task held => pairs task (Minion.held_of_works works held)
  | reads reads =>
    cases reads with
    | header peer req junk _ _ _ _ type =>
      intro task held key
      obtain held | rfl := Minion.held_queue (m := s.minion) held rfl rfl
      · exact pairs task held key
      · exact absurd (MinionProxy.key_eq_write key) type
    | headerOfWrite => exact pairs
    | block peer origin req datagram _ reading inbox =>
      intro task held key
      obtain held | rfl := Minion.held_queue (m := s.minion) held rfl rfl
      · exact pairs task held key
      · cases follows with
        | between header _ => rw [header] at reading; cases reading
        | within req' junk known _ awaits next =>
          rw [unread_reads inbox] at next
          rw [awaits] at reading
          cases next
          cases reading
          exact ⟨req', known, by rw [MinionProxy.readBlock_block]⟩

theorem Follows.framed {s : Fed (Sent C)} (follows : Follows requests s)
    (pairs : Pairs requests s.minion) : WellFramed requests s.minion := by
  refine ⟨fun origin req sent datagram rest reading inbox => ?_, pairs⟩
  cases follows with
  | between header _ => rw [header] at reading; cases reading
  | within _ _ _ _ awaits next =>
    rw [unread_reads inbox] at next
    rw [awaits] at reading
    cases next
    cases reading
    rfl

/-- The datagrams that are left when each client has sent the requests before `next`. -/
def Remains [DecidableEq C] (requests : C → List Request) (next : C → Nat)
    (network : List (Sent C × List UInt8)) : Prop :=
  ∀ c, network.filter (·.1.client = c) = sends c (next c) ((requests c).drop (next c))

section
variable [DecidableEq C] {next : C → Nat}

/-- The first datagram that is left is a header. -/
theorem Remains.header (remains : Remains requests next ((sent, datagram) :: rest)) :
    ∃ client req, (requests client)[next client]? = some req ∧
      sent = ⟨client, next client, .header⟩ ∧ datagram = req.header ∧
      rest.filter (·.1.client = client) = req.body client (next client) ++
        sends client (next client + 1) ((requests client).drop (next client + 1)) := by
  have own := remains sent.client
  rw [List.filter_cons_of_pos (by simp)] at own
  obtain ⟨req, known, first, behind⟩ := sends_eq_cons own.symm
  obtain ⟨same, rfl⟩ := Prod.ext_iff.mp first
  exact ⟨sent.client, req, known, same, rfl, behind⟩

/-- Behind a whole request the client goes on with its next one. -/
theorem Remains.advance {network : List (Sent C × List UInt8)}
    (dropped : List (Sent C × List UInt8)) (remains : Remains requests next (dropped ++ network))
    (own : ∀ first ∈ dropped, first.1.client = client)
    (behind : network.filter (·.1.client = client) =
      sends client (next client + 1) ((requests client).drop (next client + 1))) :
    Remains requests (Function.update next client (next client + 1)) network := by
  intro c
  by_cases same : c = client
  · subst same
    rw [Function.update_self, behind]
  · have none : dropped.filter (·.1.client = c) = [] := by
      rw [List.filter_eq_nil_iff]
      intro first member other
      exact same ((of_decide_eq_true other).symm.trans (own first member))
    rw [Function.update_of_ne same, ← remains c, List.filter_append, none, List.nil_append]

/-- A minion that reads the traffic as it comes shows any mixed request. -/
theorem unmixed_of_framed (left : Nat) {s : Fed (Sent C)} (waits : s.Waits)
    (size : s.network.length ≤ left) (remains : Remains requests next s.network)
    (framed : ∀ tr t, Run Step s tr t → WellFramed requests t.minion) :
    Unmixed requests s.network := by
  induction left generalizing s next with
  | zero =>
    rw [List.length_eq_zero_iff.mp (Nat.le_zero.mp size)]
    exact .nil
  | succ left ih =>
    match arrived : s.network with
    | [] => exact .nil
    | (sent, datagram) :: rest =>
      rw [arrived] at size remains
      obtain ⟨client, req, known, rfl, rfl, behind⟩ := remains.header
      by_cases type : req.type = Kind.write.code
      · rw [req.body_write type] at behind
        match rest with
        | [] => cases behind
        | (sent', datagram') :: rest =>
          obtain ⟨t, u, run, step, reading, inbox, waits, network, _⟩ :=
            waits.takes_write req arrived (by rwa [MinionProxy.type_readHeader_header])
          -- the minion takes whatever is next for the block
          obtain rfl := (framed _ _ run).awaited _ _ _ _ _ reading inbox
          rw [List.filter_cons_of_pos (by simp)] at behind
          obtain ⟨block, tail⟩ := List.cons.inj behind
          obtain rfl : datagram' = req.block.toList := congrArg Prod.snd block
          apply Unmixed.write known type
          rw [← network]
          have rest := remains.advance [_, _] (by simp) tail
          refine ih waits ?_ (by rwa [network]) fun tr v later =>
            framed _ _ (run.trans (.next step later))
          simp only [network, List.length_cons] at size ⊢
          omega
      · rw [req.body_other type] at behind
        obtain ⟨t, run, waits, network, _⟩ :=
          waits.takes req arrived (by rwa [MinionProxy.type_readHeader_header])
        apply Unmixed.read known type
        rw [← network]
        have rest := remains.advance [_] (by simp) behind
        refine ih waits ?_ (by rwa [network]) fun tr v later => framed _ _ (run.trans later)
        simp only [network, List.length_cons] at size ⊢
        omega

end

end Fed

open Fed in
/-- Requests of several clients are told apart exactly when no datagram comes
between the header of a write and its block. -/
theorem framed_iff [DecidableEq C] (requests : C → List Request)
    (arrivals : List (Sent C × List UInt8)) (addr : Sent C) (storage : StorageManager)
    (order : ∀ c, arrivals.filter (·.1.client = c) = sends c 0 (requests c)) :
    (∀ tr s, Run Fed.Step (start arrivals addr storage) tr s → WellFramed requests s.minion) ↔
      Unmixed requests arrivals := by
  constructor
  · intro framed
    exact unmixed_of_framed arrivals.length (waits_start arrivals addr storage) le_rfl
      order framed
  · intro unmixed tr s run
    have kept : Follows requests s ∧ Pairs requests s.minion := by
      apply run.invariant
      · intro s e t kept step
        exact ⟨kept.1.step step, kept.1.pairs step kept.2⟩
      · exact ⟨.between rfl unmixed, by simp [Pairs, start, Minion.idle, Minion.held]⟩
    exact kept.1.framed kept.2

/-- A write of zeros to block 0. -/
def writeZero (id : UInt64) : Request := .new id Kind.write.code 0 none

/-- Two clients take turns: a write, a read of the other client, a write of each. -/
def turnRequests : Bool → List Request
  | false => [writeZero 1, writeZero 2]
  | true => [Minion.readZero, writeZero 3]

def turns : List (Sent Bool × List UInt8) :=
  sends false 0 [writeZero 1] ++ sends true 0 [Minion.readZero] ++ sends false 1 [writeZero 2] ++
    sends true 1 [writeZero 3]

theorem framed_iff_turns : (∀ c, turns.filter (·.1.client = c) = sends c 0 (turnRequests c)) ∧
    Unmixed turnRequests turns ∧
    ∀ tr s, Run Fed.Step (Fed.start turns ⟨false, 0, .header⟩ .empty) tr s →
      WellFramed turnRequests s.minion := by
  have order : ∀ c, turns.filter (·.1.client = c) = sends c 0 (turnRequests c) := by
    intro c
    cases c <;> rfl
  have unmixed : Unmixed turnRequests turns :=
    .write rfl rfl <| .read rfl (by decide) <| .write rfl rfl <| .write rfl rfl .nil
  exact ⟨order, unmixed, (framed_iff turnRequests turns ⟨false, 0, .header⟩ .empty order).mpr unmixed⟩

/-- The headers of two clients arrive before the two blocks. -/
def mixed : List (Sent Bool × List UInt8) :=
  [(⟨false, 0, .header⟩, (writeZero 1).header), (⟨true, 0, .header⟩, (writeZero 1).header),
    (⟨false, 0, .block⟩, (writeZero 1).block.toList),
    (⟨true, 0, .block⟩, (writeZero 1).block.toList)]

/-- The second header is about to be taken for the block of the first write. -/
theorem framed_fails : (∀ c, mixed.filter (·.1.client = c) = sends c 0 [writeZero 1]) ∧
    ∃ tr s, Run Fed.Step (Fed.start mixed ⟨false, 0, .header⟩ .empty) tr s ∧
      ¬ WellFramed (fun _ => [writeZero 1]) s.minion := by
  refine ⟨fun c => by cases c <;> rfl, ?_⟩
  obtain ⟨t, _, run, _, reading, inbox, _⟩ :=
    (Fed.waits_start mixed ⟨false, 0, .header⟩ .empty).takes_write (writeZero 1) rfl
      (by rw [MinionProxy.type_readHeader_header]; rfl)
  refine ⟨_, t, run, fun framed => ?_⟩
  have same := framed.awaited _ _ _ _ _ reading inbox
  cases same

end DistributedDisk
