import DistributedDisk.Cluster.Order

/-! Retransmission. A call sends its request again after each timeout, and the
copies stay at the minion when the call has returned. Whether a late copy
replaces a newer block is up to the order in which the queue yields the tasks and
the workers run them. -/
namespace DistributedDisk
open Packed Reactive Transition

namespace Cluster
variable {ι : Type}

/-- `CommunicateMinion` calls on a link whose messages carry their blocks. -/
def callers (call : ι → Call) : System ι Call.State Request :=
  wholeMessages (fun _ => Call.State.next) fun p => (call p.1).request

/-- A later write of the key has been acknowledged. -/
def Superseded (call : ι → Call) (tr : List (NetEvent ι)) (a : SockAddr) (key : UInt64) (i : ι) :
    Prop :=
  ∃ j, Writes call a key j ∧ Precedes tr i j ∧ Acked tr j

/-- A write is executed only when no write that precedes it is queued or popped and
not yet stored, and a call takes the reply to its own request. -/
def InOrder (call : ι → Call) (s : List (NetEvent ι) × Cluster ι Call.State Request) :
    NetEvent ι → Prop
  | .minion a (.execute task) => ∀ other ∈ (s.2.minion a).held, ∀ key,
      Writes call a key other.origin.1 → Writes call a key task.origin.1 →
        ¬ Precedes s.1 other.origin.1 task.origin.1
  | .client i (.input socket (.datagram _)) => ∀ origin bytes rest,
      s.2.arriving (i, socket) = (origin, bytes) :: rest → origin = (i, socket)
  | _ => True

variable {call : ι → Call}

/-- What the calls have done: a call sends from its socket to its minion until it
returns, and what was acknowledged has been executed. -/
structure Called (call : ι → Call) (tr : List (NetEvent ι)) (σ : Cluster ι Call.State Request) :
    Prop where
  client : ∀ i, ((∃ point, σ.client i = .running { call i with point }) ∧ ¬ Acked tr i) ∨
    ∃ status rep, σ.client i = .returned status rep
  sent : ∀ p a, SentTo tr p a → p.2 = (call p.1).socket ∧ (call p.1).dest = a
  acked : ∀ i, Acked tr i → Sent tr i ∧ Executed tr (call i).dest (i, (call i).socket)
  irrefl : ∀ i, ¬ Precedes tr i i

theorem Called.still {σ σ' : Cluster ι Call.State Request} (called : Called call tr σ)
    (none : ∀ i move, e ≠ .client i move) (same : σ'.client = σ.client) :
    Called call (tr ++ [e]) σ' := by
  have unacked {i} (acked : Acked (tr ++ [e]) i) : Acked tr i :=
    acked.cases.resolve_right fun ⟨_, _, last⟩ => none _ _ last
  refine ⟨fun i => ?_, fun p a sent => ?_, fun i acked => ?_, ?_⟩
  · rw [same]
    exact (called.client i).imp_left (.imp_right (· ∘ unacked))
  · exact called.sent p a (sent.cases.resolve_right fun ⟨_, last⟩ => none _ _ last)
  · exact (called.acked i (unacked acked)).imp (Sent.append · _) (Executed.append · _)
  · exact Precedes.irrefl_append called.irrefl fun i acked =>
      (called.acked i (unacked acked)).1.append _

variable [DecidableEq ι]

/-- One call moves: it sends, goes round again or returns; a datagram that it
takes answers its own request. -/
theorem Called.moves {σ σ' : Cluster ι Call.State Request} (called : Called call tr σ)
    (fires : Fires (Call.State.next (σ.client i)) move (σ'.client i))
    (others : ∀ j, j ≠ i → σ'.client j = σ.client j)
    (answered : ∀ socket bytes, move = .input socket (.datagram bytes) →
      ∃ a, SentTo tr (i, socket) a ∧ Executed tr a (i, socket)) :
    Called call (tr ++ [.client i move]) σ' ∧
      ((∃ socket a bytes, move = .output (.sendto socket a bytes)) →
        ¬ Acked (tr ++ [.client i move]) i) := by
  obtain ⟨⟨point, running⟩, unacked⟩ | ⟨status, rep, returned⟩ := called.client i
  swap
  · rw [returned] at fires
    cases fires
  rw [running] at fires
  have moves : ({ call i with point } : Call).Moves Call.State.running .returned move
    (σ'.client i) := Call.moves_of_fires fires
  -- the new label acknowledges at most this call, and only by a datagram
  have acked_cases {j} (acked : Acked (tr ++ [.client i move]) j) :
      Acked tr j ∨ j = i ∧ ∃ socket bytes, move = .input socket (.datagram bytes) := by
    obtain acked | ⟨socket, bytes, last⟩ := acked.cases
    · exact .inl acked
    · cases last
      exact .inr ⟨rfl, socket, bytes, rfl⟩
  have still (silent : ∀ socket bytes, move ≠ .input socket (.datagram bytes)) :
      ¬ Acked (tr ++ [.client i move]) i := by
    intro acked
    obtain acked | ⟨_, socket, bytes, input⟩ := acked_cases acked
    · exact unacked acked
    · exact silent socket bytes input
  have acked : ∀ j, Acked (tr ++ [.client i move]) j → Sent (tr ++ [.client i move]) j ∧
      Executed (tr ++ [.client i move]) (call j).dest (j, (call j).socket) := by
    intro j acked
    obtain acked | ⟨rfl, socket, bytes, input⟩ := acked_cases acked
    · exact (called.acked j acked).imp (Sent.append · _) (Executed.append · _)
    · obtain ⟨a, sent, executed⟩ := answered socket bytes input
      obtain ⟨own, dest⟩ := called.sent _ _ sent
      have own : socket = (call j).socket := own
      have dest : (call j).dest = a := dest
      exact ⟨⟨socket, a, sent.append _⟩, own ▸ dest ▸ executed.append _⟩
  have client (here : (∃ point, σ'.client i = .running { call i with point }) ∧
        ¬ Acked (tr ++ [.client i move]) i ∨ ∃ status rep, σ'.client i = .returned status rep) :
      ∀ j, ((∃ point, σ'.client j = .running { call j with point }) ∧
        ¬ Acked (tr ++ [.client i move]) j) ∨ ∃ status rep, σ'.client j = .returned status rep := by
    intro j
    by_cases same : j = i
    · exact same ▸ here
    · rw [others j same]
      exact (called.client j).imp_left <| .imp_right fun unacked acked =>
        (acked_cases acked).elim unacked fun here => same here.1
  have irrefl := Precedes.irrefl_append called.irrefl fun j known => (acked j known).1
  have sent (own : ∀ socket a bytes, move = .output (.sendto socket a bytes) →
        socket = (call i).socket ∧ (call i).dest = a) :
      ∀ p a, SentTo (tr ++ [.client i move]) p a →
        p.2 = (call p.1).socket ∧ (call p.1).dest = a := by
    rintro p a sent
    obtain sent | ⟨bytes, last⟩ := sent.cases
    · exact called.sent p a sent
    · cases last
      exact own _ a bytes rfl
  generalize σ'.client i = s at moves client
  cases moves with
  | sends =>
    have unacked := still fun _ _ same => by cases same
    refine ⟨⟨client (.inl ⟨⟨_, rfl⟩, unacked⟩), sent ?_, acked, irrefl⟩, fun _ => unacked⟩
    rintro _ _ _ ⟨⟩
    exact ⟨rfl, rfl⟩
  | retries r _ timeout =>
    have unacked := still fun _ _ same => by
      cases same
      cases timeout
    exact ⟨⟨client (.inl ⟨⟨_, rfl⟩, unacked⟩), sent (by simp), acked, irrefl⟩, by simp⟩
  | returns => exact ⟨⟨client (.inr ⟨_, _, rfl⟩), sent (by simp), acked, irrefl⟩, by simp⟩

structure Resending (call : ι → Call) (tr : List (NetEvent ι)) (σ : Cluster ι Call.State Request) :
    Prop where
  known : Known (fun p => (call p.1).request) tr σ
  stored : ∀ a, Stored (fun p => (call p.1).request) tr a (σ.minion a)
  called : Called call tr σ
  orderly : ∀ a, Orderly call tr a (σ.minion a)

theorem Resending.called_step {σ σ' : Cluster ι Call.State Request}
    (resending : Resending call tr σ) (step : Step (callers call) σ e σ')
    (inOrder : InOrder call (tr, σ) e) :
    Called call (tr ++ [e]) σ' ∧ ∀ i, (∃ socket a bytes,
      e = .client i (.output (.sendto socket a bytes))) → ¬ Acked (tr ++ [e]) i := by
  obtain ⟨i, move, rfl, fires, others, taken⟩ | ⟨none, same⟩ := client_cases step
  · have answered : ∀ socket bytes, move = .input socket (.datagram bytes) →
        ∃ a, SentTo tr (i, socket) a ∧ Executed tr a (i, socket) := by
      rintro socket bytes rfl
      obtain ⟨origin, rest, waiting⟩ := taken socket bytes rfl
      obtain ⟨a, sent, _, executed⟩ := resending.known.arriving (i, socket) origin bytes
        (by simp [waiting])
      obtain rfl := inOrder origin bytes rest waiting
      exact ⟨a, sent, executed⟩
    obtain ⟨called, unacked⟩ := resending.called.moves fires others answered
    refine ⟨called, fun j => ?_⟩
    rintro ⟨socket, a, bytes, same⟩
    cases same
    exact unacked ⟨socket, a, bytes, rfl⟩
  · exact ⟨resending.called.still none same, fun i ⟨_, _, _, here⟩ => absurd here (none _ _)⟩

theorem Resending.step {σ σ' : Cluster ι Call.State Request} (resending : Resending call tr σ)
    (step : Step (callers call) σ e σ') (inOrder : InOrder call (tr, σ) e) :
    Resending call (tr ++ [e]) σ' := by
  have known := resending.known.step step
  have stored := Stored.step resending.known resending.stored step
  obtain ⟨called, unacked⟩ := resending.called_step step inOrder
  refine ⟨known, stored, called, ?_⟩
  have carried := resending.known.minion
  have still {a} (silent : ∀ task, e ≠ .minion a (.execute task)) :
      Orderly call (tr ++ [e]) a (σ.minion a) :=
    (resending.orderly a).keeps (carried a) silent (List.Subset.refl _) (.refl _)
  have minions {a m} (one : Orderly call (tr ++ [e]) a m)
      (others : ∀ b, b ≠ a → ∀ task, e ≠ .minion b (.execute task)) :
      ∀ b, Orderly call (tr ++ [e]) b (Function.update σ.minion a m b) :=
    (Function.forall_update_iff _ fun b m => Orderly call (tr ++ [e]) b m).mpr
      ⟨one, fun b other => still (others b other)⟩
  cases step with
  | sends i socket dest bytes =>
    have more : waiting { σ.minion dest with inbox := (σ.minion dest).inbox ++
        [((i, socket), (call i).request)] } = waiting (σ.minion dest) ++ [i] := by
      simp [waiting]
    exact minions ((resending.orderly dest).sends (carried dest) (by simp)
      (unacked i ⟨socket, dest, bytes, rfl⟩) rfl more) (by simp)
  | outputs | fails | receives | losesReply => exact fun a => still (by simp)
  | reads a reads =>
    cases reads with
    | message p req _ inbox =>
      exact minions ((resending.orderly a).reads (carried a) (by simp) inbox rfl rfl) (by simp)
  | works a works =>
    rw [minion_setMinion, minion_deliver]
    have dest (p : Peer ι) (sent : SentTo tr p a) := (resending.called.sent p a sent).2
    have fewer := Minion.held_of_works works
    cases works with
    | execute before after task rep env _ popped =>
      have held : task ∈ (σ.minion a).held := by simp [Minion.mem_held, popped]
      refine minions ((resending.orderly a).executes (carried a) dest resending.called.irrefl held
        rfl fewer inOrder) fun b other task' same => ?_
      injection same with here
      exact other here.symm
    | pop | crash | send =>
      exact minions ((resending.orderly a).keeps (carried a) (by simp) fewer (.refl _)) (by simp)
  | losesRequest a before after message inbox =>
    refine minions ((resending.orderly a).keeps (carried a) (by simp) (List.Subset.refl _) ?_)
      (by simp)
    rw [inbox]
    exact (List.sublist_cons_self message _).append_left _

/-- Under the condition the block of the key is never that of a write which a
later one has superseded. -/
theorem superseded_not_restored (call : ι → Call) (fresh : ∀ i, (call i).point = .send)
    (σ₀ : Cluster ι Call.State Request) (idle : σ₀.Idle)
    (sound : ∀ a, (σ₀.minion a).storage.Sound) (start : ∀ i, σ₀.client i = .running (call i))
    (run : Run (Under (InOrder call) (Recorded (Step (callers call)))) ([], σ₀) tr (tr, σ))
    (a : SockAddr) (key : UInt64) (up : (σ.minion a).running = true) (w₁ : ι)
    (superseded : Superseded call tr a key w₁) :
    ∃ w, Writes call a key w ∧ ¬ Superseded call tr a key w ∧
      (σ.minion a).storage.lookup key = some (call w).request.block := by
  have initial : Resending call [] σ₀ := by
    refine ⟨.of_idle idle, fun a => ⟨fun _ => sound a, by simp [stores]⟩, ?_, fun a => ?_⟩
    · refine ⟨fun i => .inl ⟨⟨.send, ?_⟩, by simp [Acked]⟩, by simp [SentTo], by simp [Acked], ?_⟩
      · rw [start i, ← fresh i]
      · rintro i ⟨before, after, split, ⟨_, _, member⟩, _⟩
        rw [(List.append_eq_nil_iff.mp split.symm).1] at member
        cases member
    · obtain ⟨addr, storage, here⟩ := idle.minion a
      constructor <;> simp [here, Minion.idle, Minion.held, pipeline, waiting, stores]
  let invariant (s : List (NetEvent ι) × Cluster ι Call.State Request) := Resending call s.1 s.2
  have resending : invariant (tr, σ) := by
    refine run.invariant (fun {s e t} before step => ?_) initial
    obtain ⟨⟨step, grown⟩, inOrder⟩ := step
    rw [show t = (s.1 ++ [e], t.2) by rw [← grown]]
    exact Resending.step before step inOrder
  have called (p : Peer ι) (sent : SentTo tr p a) := (resending.called.sent p a sent).2
  have orderly := resending.orderly a
  -- an acknowledged write of the key is among the stored ones
  have stored_of_acked {w} (writes : Writes call a key w) (acked : Acked tr w) :
      (w, (call w).socket) ∈ stores (fun p => (call p.1).request) tr a key :=
    (mem_stores _).mpr ⟨writes.1 ▸ (resending.called.acked w acked).2, writes.2⟩
  obtain ⟨w₂, writes₂, _, acked₂⟩ := superseded
  have last := List.getLast?_eq_some_getLast (List.ne_nil_of_mem (stored_of_acked writes₂ acked₂))
  refine ⟨_, writes_of_stores called orderly (List.mem_of_getLast? last), ?_,
    (resending.stored a).latest up key _ last⟩
  rintro ⟨w, writes, precedes, acked⟩
  exact orderly.latest key _ last _ (stored_of_acked writes acked) precedes

/-! ### Two writes of one key, one after the other -/

/-- An exchange meets the condition at a minion that has nothing else queued. -/
theorem exchange_inOrder {call : ι → Call} {σ : Cluster ι Call.State Request} (i : ι)
    (client : σ.client i = .running (call i)) (fresh : (call i).point = .send)
    (arriving : σ.arriving (i, (call i).socket) = [])
    (minion : σ.minion (call i).dest = .idle addr storage)
    (write : (call i).request.type = Kind.write.code)
    (memory : storage.Allocates (call i).request.offset (some pointer)) (past : List (NetEvent ι))
    (unacked : ¬ Acked past i) :
    ∃ rep, Run (Under (InOrder call) (Recorded (Step (callers call)))) (past, σ)
      (exchanged (fun p => (call p.1).request) (i, (call i).socket) (call i))
      (past ++ exchanged (fun p => (call p.1).request) (i, (call i).socket) (call i),
        σ.focus (i, (call i).socket) (call i).dest (.returned true rep) []
          (.idle (i, (call i).socket)
            (storage.store (some pointer) (call i).request.block (call i).request.offset).1)) := by
  obtain ⟨rep, σ₁, σ₂, σ₃, σ₄, σ₅, ⟨sends, reads, pops, executes, answers, receives⟩, held,
    waiting⟩ :=
    exchange_steps (fun p => (call p.1).request) (callers call).next (i, (call i).socket)
      Call.State.running Call.State.returned (fun _ => rfl) client fresh rfl arriving minion write
      memory
  have executing (past) (unacked : ¬ Acked past i) : InOrder call (past, σ₃)
      (.minion (call i).dest (.execute
        ⟨(i, (call i).socket), MinionProxy.processRequest (call i).request⟩)) := by
    intro other member key _ _ precedes
    rw [held] at member
    obtain rfl := List.mem_singleton.mp member
    exact unacked precedes.acked
  have taking (past bytes) : InOrder call (past, σ₅)
      (.client i (.input (call i).socket (.datagram bytes))) := by
    intro origin bytes rest arrived
    rw [waiting] at arrived
    cases arrived
    rfl
  have run : Run (Under (InOrder call) (Recorded (Step (callers call)))) (past, σ) _ _ :=
    .next ⟨.of_step past sends, trivial⟩ <| .next ⟨.of_step _ reads, trivial⟩ <|
    .next ⟨.of_step _ pops, trivial⟩ <| .next ⟨.of_step _ executes, executing _ (by simpa [Acked] using unacked)⟩ <|
    .next ⟨.of_step _ answers, trivial⟩ <| .single ⟨.of_step _ receives, taking _ _⟩
  simp only [List.append_assoc, List.cons_append, List.nil_append] at run
  exact ⟨rep, run⟩

def twoCalls (i : Bool) : Call :=
  communicateMinion .first (Master.configured.first 0) (.new (cond i 2 1) Kind.write.code 0
    (some (cond i Block.zero (List.Vector.replicate 4096 1)))) default

theorem twoCalls_writes (i : Bool) : Writes twoCalls (twoCalls false).dest 0 i := by
  cases i <;> exact ⟨rfl, rfl, rfl⟩

def twoCallsExchanged (i : Bool) : List (NetEvent Bool) :=
  exchanged (fun p => (twoCalls p.1).request) (i, .first) (twoCalls i)

theorem twoCalls_superseded (acked : Acked before false) (unsent : ¬ Sent before true) :
    Superseded twoCalls (before ++ twoCallsExchanged true) (twoCalls false).dest 0 false := by
  refine ⟨true, twoCalls_writes true, ⟨before, _, rfl, acked, unsent⟩, ?_⟩
  exact ⟨.first, (writeReply (twoCalls true).request).header,
    by simp [twoCallsExchanged, exchanged]⟩

theorem twoCallsExchanged_acked (before : List (NetEvent Bool)) :
    Acked (before ++ twoCallsExchanged false) false :=
  ⟨.first, (writeReply (twoCalls false).request).header, by simp [twoCallsExchanged, exchanged]⟩

/-- The reply to the first transmission of the first write is lost. -/
def replyLost : List (NetEvent Bool) :=
  (twoCallsExchanged false).take 5 ++ [.lost, .client false (.input .first (.failed eagain))]

theorem replyLost_run :
    let σ₀ : Cluster Bool Call.State Request :=
      initial (fun i => .running (twoCalls i)) (false, .first)
    Run (Under (InOrder twoCalls) (Recorded (Step (callers twoCalls)))) ([], σ₀) replyLost
      (replyLost, σ₀.focus (false, .first) (twoCalls false).dest (.running (twoCalls false)) []
        (.idle (false, .first) (StorageManager.empty.store (some 1)
          (twoCalls false).request.block (twoCalls false).request.offset).1)) := by
  intro σ₀
  let p : Peer Bool := (false, .first)
  let a : SockAddr := (twoCalls false).dest
  let task : Task (Peer Bool) := ⟨p, MinionProxy.processRequest (twoCalls false).request⟩
  let rep := writeReply (twoCalls false).request
  let storage := (StorageManager.empty.store (some 1) (twoCalls false).request.block
    (twoCalls false).request.offset).1
  let waiting : Call.State := .running { twoCalls false with point := .receive }
  let asked : Minion (Peer Bool) Request :=
    ⟨[(p, (twoCalls false).request)], p, none, [], [], [], .empty, true⟩
  let queued : Minion (Peer Bool) Request := ⟨[], p, none, [task], [], [], .empty, true⟩
  let popped : Minion (Peer Bool) Request := ⟨[], p, none, [], [task], [], .empty, true⟩
  let stored : Minion (Peer Bool) Request := ⟨[], p, none, [], [], [(p, rep)], storage, true⟩
  have memory : StorageManager.empty.Allocates (twoCalls false).request.offset (some 1) := by
    rintro _ ⟨⟩
    rfl
  have sends : Step (callers twoCalls) (σ₀.focus p a (.running (twoCalls false)) [] (.fresh p)) _
      (σ₀.focus p a waiting [] asked) := focus_sends (.output _ _)
  have start : σ₀ = σ₀.focus p a (.running (twoCalls false)) [] (.fresh p) := eq_focus rfl rfl rfl
  rw [← start] at sends
  have reads : Step (callers twoCalls) (σ₀.focus p a waiting [] asked) _
      (σ₀.focus p a waiting [] queued) := focus_reads (.message p _ rfl rfl)
  have pops : Step (callers twoCalls) (σ₀.focus p a waiting [] queued) (.minion a (.pop task))
      (σ₀.focus p a waiting [] popped) := focus_works (.pop [] [] task rfl rfl) fun _ => rfl
  have executes : Step (callers twoCalls) (σ₀.focus p a waiting [] popped)
      (.minion a (.execute task)) (σ₀.focus p a waiting [] stored) :=
    focus_works (Minion.works_write [] [] ⟨some 1, default, Block.zero⟩ rfl rfl rfl rfl memory)
      fun _ => rfl
  have answers : Step (callers twoCalls) (σ₀.focus p a waiting [] stored)
      (.minion a (.send p rep p)) (σ₀.focus p a waiting [(p, rep.header)] (.idle p storage)) :=
    focus_answers (.send [] [] p rep rfl rfl) (MinionProxy.reply_write rfl)
  have times : Step (callers twoCalls) (σ₀.focus p a waiting [] (.idle p storage))
      (.client false (.input .first (.failed eagain)))
      (σ₀.focus p a (.running (twoCalls false)) [] (.idle p storage)) :=
    focus_timeout (.input Exchange.first (Received.failed eagain) _)
  have ordered (past) (unacked : ∀ i, ¬ Acked past i) :
      InOrder twoCalls (past, σ₀.focus p a waiting [] popped) (.minion a (.execute task)) :=
    fun other _ _ _ _ precedes => unacked _ precedes.acked
  exact .next ⟨.of_step _ sends, trivial⟩ <| .next ⟨.of_step _ reads, trivial⟩ <|
    .next ⟨.of_step _ pops, trivial⟩ <|
    .next ⟨.of_step _ executes, ordered _ fun i => by simp [Acked]⟩ <|
    .next ⟨.of_step _ answers, trivial⟩ <| .next ⟨.of_step _ focus_losesReply, trivial⟩ <|
    .single ⟨.of_step _ times, trivial⟩

/-- The first write is sent twice, and both copies are executed before the second write is
sent. -/
theorem superseded_not_restored_twoCalls :
    ∃ tr σ, Run (Under (InOrder twoCalls) (Recorded (Step (callers twoCalls))))
        ([], initial (fun i => .running (twoCalls i)) (false, .first)) (replyLost ++ tr)
        (replyLost ++ tr, σ) ∧
      ∃ w, ¬ Superseded twoCalls (replyLost ++ tr) (twoCalls false).dest 0 w ∧
        (σ.minion (twoCalls false).dest).storage.lookup 0 = some (twoCalls w).request.block := by
  let σ₀ : Cluster Bool Call.State Request :=
    initial (fun i => .running (twoCalls i)) (false, .first)
  let p : Peer Bool := (false, .first)
  let a : SockAddr := (twoCalls false).dest
  let storage₁ : StorageManager := (StorageManager.empty.store (some 1)
    (twoCalls false).request.block (twoCalls false).request.offset).1
  let storage₂ : StorageManager := (storage₁.store (some 1)
    (twoCalls false).request.block (twoCalls false).request.offset).1
  let σ₁ := σ₀.focus p a (.running (twoCalls false)) [] (.idle p storage₁)
  have minion₁ : σ₁.minion a = .idle p storage₁ := minion_focus
  obtain ⟨rep₁, run₁⟩ := exchange_inOrder false (rfl : σ₁.client false = _) rfl rfl minion₁ rfl
    (StorageManager.empty.allocates_again 1 _ 0) replyLost
    (by simp [Acked, replyLost, twoCallsExchanged, exchanged])
  let σ₂ := σ₁.focus p a (.returned true rep₁) [] (.idle p storage₂)
  have minion₂ : σ₂.minion a = .idle p storage₂ := minion_focus
  have unacked : ¬ Acked (replyLost ++ twoCallsExchanged false) true := by
    simp [Acked, replyLost, twoCallsExchanged, exchanged]
  have unsent : ¬ Sent (replyLost ++ twoCallsExchanged false) true := by
    simp [Sent, SentTo, replyLost, twoCallsExchanged, exchanged]
  obtain ⟨rep₂, run₂⟩ := exchange_inOrder true (rfl : σ₂.client true = _) rfl rfl minion₂ rfl
    (storage₁.allocates_again 1 _ 0) _ unacked
  have run := replyLost_run.trans (run₁.trans run₂)
  rw [List.append_assoc] at run
  obtain ⟨w, _, current, holds⟩ := superseded_not_restored twoCalls (fun _ => rfl) σ₀
    (initial_idle _ _) (fun _ => .empty) (fun _ => rfl) run (twoCalls false).dest 0
    rfl false (twoCalls_superseded (twoCallsExchanged_acked replyLost) unsent)
  exact ⟨_, _, run, w, current, holds⟩

theorem exchange_twoCalls {σ : Cluster Bool Call.State Request} (i : Bool)
    (client : σ.client i = .running (twoCalls i)) (arriving : σ.arriving (i, .first) = [])
    (minion : σ.minion (twoCalls i).dest = ⟨[], addr, none, tasks, [], [], storage, true⟩)
    (memory : storage.Allocates 0 (some 1)) :
    ∃ rep, Run (Step (callers twoCalls)) σ (twoCallsExchanged i)
      (σ.focus (i, .first) (twoCalls i).dest (.returned true rep) []
        ⟨[], (i, .first), none, tasks, [], [],
          (storage.store (some 1) (twoCalls i).request.block 0).1, true⟩) := by
  obtain ⟨rep, run⟩ := exchange_write (fun p => (twoCalls p.1).request) (callers twoCalls).next
    (i, .first) Call.State.running Call.State.returned (fun _ => rfl) client rfl rfl arriving minion
    rfl memory
  exact ⟨rep, run.guarded⟩

/-- The first write is sent again before its reply arrives. The reply to the
second copy ends the call; the first copy is executed after the second write has
been acknowledged. -/
theorem superseded_restored :
    ∃ tr₁ σ₁ tr₂ σ₂, Run (Step (callers twoCalls))
        (initial (fun i => .running (twoCalls i)) (false, .first)) tr₁ σ₁ ∧
      Superseded twoCalls tr₁ (twoCalls false).dest 0 false ∧
      (σ₁.minion (twoCalls false).dest).storage.lookup 0 = some (twoCalls true).request.block ∧
      Run (Step (callers twoCalls)) σ₁ tr₂ σ₂ ∧
      (σ₂.minion (twoCalls false).dest).storage.lookup 0 = some (twoCalls false).request.block ∧
      (twoCalls false).request.block ≠ (twoCalls true).request.block := by
  let σ₀ : Cluster Bool Call.State Request :=
    initial (fun i => .running (twoCalls i)) (false, .first)
  let p : Peer Bool := (false, .first)
  let a : SockAddr := (twoCalls false).dest
  let task : Task (Peer Bool) := ⟨p, MinionProxy.processRequest (twoCalls false).request⟩
  let asked : Minion (Peer Bool) Request :=
    ⟨[(p, (twoCalls false).request)], p, none, [], [], [], .empty, true⟩
  let queued : Minion (Peer Bool) Request := ⟨[], p, none, [task], [], [], .empty, true⟩
  let waiting : Call.State := .running { twoCalls false with point := .receive }
  let σ₁ := σ₀.focus p a (.running (twoCalls false)) [] queued
  have sends : Step (callers twoCalls) (σ₀.focus p a (.running (twoCalls false)) [] (.fresh p)) _
      (σ₀.focus p a waiting [] asked) := focus_sends (.output _ _)
  have reads : Step (callers twoCalls) (σ₀.focus p a waiting [] asked) _
      (σ₀.focus p a waiting [] queued) := focus_reads (.message p _ rfl rfl)
  have retries : Step (callers twoCalls) (σ₀.focus p a waiting [] queued) _ σ₁ :=
    focus_timeout (.input Exchange.first (Received.failed eagain) _)
  have start : σ₀ = σ₀.focus p a (.running (twoCalls false)) [] (.fresh p) := eq_focus rfl rfl rfl
  rw [← start] at sends
  -- the copy that was sent again is executed and answered first
  have minion₁ : σ₁.minion a = queued := minion_focus
  obtain ⟨rep₁, run₁⟩ := exchange_twoCalls false (rfl : σ₁.client false = _) rfl minion₁
    (by rintro _ ⟨⟩; rfl)
  let storage₁ := (StorageManager.empty.store (some 1) (twoCalls false).request.block 0).1
  let copy : Minion (Peer Bool) Request := ⟨[], p, none, [task], [], [], storage₁, true⟩
  let σ₂ := σ₁.focus p a (.returned true rep₁) [] copy
  have minion₂ : σ₂.minion a = copy := minion_focus
  obtain ⟨rep₂, run₂⟩ := exchange_twoCalls true (rfl : σ₂.client true = _) rfl minion₂
    (StorageManager.empty.allocates_again 1 _ 0)
  let storage₂ := (storage₁.store (some 1) (twoCalls true).request.block 0).1
  let late : Minion (Peer Bool) Request := ⟨[], (true, .first), none, [task], [], [], storage₂, true⟩
  let popped : Minion (Peer Bool) Request :=
    ⟨[], (true, .first), none, [], [task], [], storage₂, true⟩
  let σ₃ := σ₂.focus (true, .first) a (.returned true rep₂) [] late
  have minion₃ : σ₃.minion a = late := minion_focus
  let storage₃ := (storage₂.store (some 1) (twoCalls false).request.block 0).1
  let restored : Minion (Peer Bool) Request :=
    ⟨[], (true, .first), none, [], [], [(p, writeReply (twoCalls false).request)], storage₃, true⟩
  let σ₄ := σ₂.focus (true, .first) a (.returned true rep₂) [] restored
  have pops : Step (callers twoCalls) σ₃ (.minion a (.pop task))
      (σ₂.focus (true, .first) a (.returned true rep₂) [] popped) :=
    focus_works (.pop [] [] task rfl rfl) fun _ => rfl
  have executes : Step (callers twoCalls) (σ₂.focus (true, .first) a (.returned true rep₂) []
      popped) (.minion a (.execute task)) σ₄ := focus_works
    (Minion.works_write [] [] ⟨some 1, default, Block.zero⟩ rfl rfl rfl rfl
      (storage₁.allocates_again 1 _ 0)) fun _ => rfl
  have minion₄ : σ₄.minion a = restored := minion_focus
  let resent : List (NetEvent Bool) := [.client false (.output (.sendto .first a
    (twoCalls false).request.header)), .minion a (.receive p (twoCalls false).request),
    .client false (.input .first (.failed eagain))]
  have first : Run (Step (callers twoCalls)) σ₀ (resent ++ twoCallsExchanged false) σ₂ :=
    .next sends <| .next reads <| .next retries run₁
  have unsent : ¬ Sent (resent ++ twoCallsExchanged false) true := by
    simp [Sent, SentTo, resent, twoCallsExchanged, exchanged]
  refine ⟨_, σ₃, _, σ₄, first.trans run₂,
    twoCalls_superseded (twoCallsExchanged_acked resent) unsent, ?_, .next pops (.single executes), ?_, ?_⟩
  · rw [minion₃]
    exact StorageManager.lookup_store_self ..
  · rw [minion₄]
    exact StorageManager.lookup_store_self ..
  · intro same
    have heads : (1 : UInt8) = 0 := congrArg (fun b : Block => b.head) same
    exact absurd heads (by decide)

end Cluster
end DistributedDisk
