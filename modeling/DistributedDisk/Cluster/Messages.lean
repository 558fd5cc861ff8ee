import DistributedDisk.Cluster.Network

/-! Runs on a link whose messages carry the whole request, block included. What
is in a minion or on its way back is known from the sends before it, and a key
holds the block of the write that was stored last. -/
namespace DistributedDisk
open Packed Reactive Transition

/-- `request p` is the request that the exchange of the socket `p` sends. -/
def wholeMessages {ι S : Type} (next : ι → S → CmdAction S) (request : Peer ι → Request) :
    System ι S Request :=
  ⟨next, fun p _ => request p, Minion.ReadsMessage⟩

namespace Cluster
variable {ι S : Type}

def SentTo (tr : List (NetEvent ι)) (p : Peer ι) (a : SockAddr) : Prop :=
  ∃ bytes, .client p.1 (.output (.sendto p.2 a bytes)) ∈ tr

def Executed (tr : List (NetEvent ι)) (a : SockAddr) (p : Peer ι) : Prop :=
  ∃ task, .minion a (.execute task) ∈ tr ∧ task.origin = p

theorem SentTo.append {tr : List (NetEvent ι)} (sent : SentTo tr p a) (tr') :
    SentTo (tr ++ tr') p a := by
  obtain ⟨bytes, member⟩ := sent
  exact ⟨bytes, List.mem_append_left _ member⟩

/-- Sent before the last label, or by it. -/
theorem SentTo.cases {tr : List (NetEvent ι)} (sent : SentTo (tr ++ [e]) p a) :
    SentTo tr p a ∨ ∃ bytes, e = .client p.1 (.output (.sendto p.2 a bytes)) := by
  obtain ⟨bytes, member⟩ := sent
  rcases List.mem_append.mp member with member | member
  · exact .inl ⟨bytes, member⟩
  · exact .inr ⟨bytes, (List.mem_singleton.mp member).symm⟩

theorem Executed.append {tr : List (NetEvent ι)} (executed : Executed tr a p) (tr') :
    Executed (tr ++ tr') a p := by
  obtain ⟨task, member, origin⟩ := executed
  exact ⟨task, List.mem_append_left _ member, origin⟩

/-- The sockets whose writes to the key the minion has stored, oldest first. -/
def stores (request : Peer ι → Request) (tr : List (NetEvent ι)) (a : SockAddr) (key : UInt64) :
    List (Peer ι) :=
  tr.filterMap fun
    | .minion b (.execute task) =>
      if b = a ∧ (request task.origin).type = Kind.write.code ∧
        (request task.origin).offset = key then some task.origin else none
    | _ => none

/-- Where the contents of a minion come from. -/
structure Carried (request : Peer ι → Request) (tr : List (NetEvent ι)) (a : SockAddr)
    (m : Minion (Peer ι) Request) : Prop where
  inbox : ∀ p req, (p, req) ∈ m.inbox → req = request p ∧ SentTo tr p a
  tasks : ∀ task ∈ m.held, task.data = MinionProxy.processRequest (request task.origin) ∧
    SentTo tr task.origin a
  addressed : m.held ≠ [] ∨ m.pending ≠ [] → SentTo tr m.clientSockaddr a
  pending : ∀ origin rep, (origin, rep) ∈ m.pending → SentTo tr origin a ∧ Executed tr a origin

variable {request : Peer ι → Request}

theorem Carried.append (carried : Carried request tr a m) (tr') :
    Carried request (tr ++ tr') a m where
  inbox p req member := (carried.inbox p req member).imp_right (SentTo.append · _)
  tasks task member := (carried.tasks task member).imp_right (SentTo.append · _)
  addressed busy := (carried.addressed busy).append _
  pending origin rep member :=
    (carried.pending origin rep member).imp (SentTo.append · _) (Executed.append · _)

theorem Carried.reads (carried : Carried request tr a m) (reads : Minion.ReadsMessage m e m') :
    Carried request tr a m' := by
  cases reads with
  | message peer req _ inbox =>
    obtain ⟨same, sent⟩ := carried.inbox peer req (by simp [inbox])
    refine ⟨fun p req' member => carried.inbox p req' (by simp [inbox, member]),
      fun task member => ?_,
      fun _ => sent, carried.pending⟩
    obtain held | rfl := Minion.held_queue (m := m) member rfl rfl
    · exact carried.tasks task held
    · exact ⟨by rw [same], sent⟩

theorem Carried.works {m m' : Minion (Peer ι) Request} (carried : Carried request tr a m)
    (works : Minion.Works m e m') : Carried request (tr ++ [.minion a e]) a m' := by
  have fewer := Minion.held_of_works works
  cases works with
  | pop before after task _ tasks =>
    have held : task ∈ m.held := by simp [Minion.mem_held, tasks]
    have carried := carried.append [.minion a (.pop task)]
    exact ⟨carried.inbox, fun other member => carried.tasks other (fewer member),
      fun _ => carried.addressed (.inl (List.ne_nil_of_mem held)), carried.pending⟩
  | execute before after task rep env _ popped =>
    have held : task ∈ m.held := by simp [Minion.mem_held, popped]
    have sent := (carried.tasks task held).2
    have carried := carried.append [.minion a (.execute task)]
    refine ⟨carried.inbox, fun other member => carried.tasks other (fewer member),
      fun _ => carried.addressed (.inl (List.ne_nil_of_mem held)), fun origin rep' member => ?_⟩
    rcases List.mem_append.mp member with member | member
    · exact carried.pending origin rep' member
    · cases List.mem_singleton.mp member
      exact ⟨sent.append _, task, by simp, rfl⟩
  | crash before after task _ _ popped =>
    have held : task ∈ m.held := by simp [Minion.mem_held, popped]
    have carried := carried.append [.minion a .crash]
    exact ⟨carried.inbox, fun other member => carried.tasks other (fewer member),
      fun _ => carried.addressed (.inl (List.ne_nil_of_mem held)), carried.pending⟩
  | send before after origin rep _ pending =>
    have busy : m.held ≠ [] ∨ m.pending ≠ [] := .inr (by simp [pending])
    have carried := carried.append [.minion a (.send m.clientSockaddr rep origin)]
    refine ⟨carried.inbox, carried.tasks, fun _ => carried.addressed busy,
      fun origin' rep' member => carried.pending origin' rep' ?_⟩
    rw [pending]
    exact ((List.sublist_cons_self _ _).append_left _).subset member

/-- A datagram on its way to a socket comes from a minion that the socket sent
to, and answers a request that this minion has executed. -/
def Answering (tr : List (NetEvent ι)) (p origin : Peer ι) : Prop :=
  ∃ a, SentTo tr p a ∧ SentTo tr origin a ∧ Executed tr a origin

theorem Answering.append {tr : List (NetEvent ι)} (answering : Answering tr p origin) (tr') :
    Answering (tr ++ tr') p origin := by
  obtain ⟨a, sent, asked, executed⟩ := answering
  exact ⟨a, sent.append _, asked.append _, executed.append _⟩

structure Known (request : Peer ι → Request) (tr : List (NetEvent ι)) (σ : Cluster ι S Request) :
    Prop where
  minion : ∀ a, Carried request tr a (σ.minion a)
  arriving : ∀ p origin bytes, (origin, bytes) ∈ σ.arriving p → Answering tr p origin

theorem Known.append {σ : Cluster ι S Request} (known : Known request tr σ) (tr') :
    Known request (tr ++ tr') σ :=
  ⟨fun a => (known.minion a).append _, fun p origin bytes member =>
    (known.arriving p origin bytes member).append _⟩

variable [DecidableEq ι] {next : ι → S → CmdAction S}

theorem Known.step {σ : Cluster ι S Request} (known : Known request tr σ)
    (step : Step (wholeMessages next request) σ e σ') : Known request (tr ++ [e]) σ' := by
  have after := known.append [e]
  -- only one minion changes, and only one queue of replies
  have minions {a m} (one : Carried request (tr ++ [e]) a m) :
      ∀ b, Carried request (tr ++ [e]) b (Function.update σ.minion a m b) :=
    (Function.forall_update_iff _ fun b m => Carried request (tr ++ [e]) b m).mpr
      ⟨one, fun b _ => after.minion b⟩
  have replies {p l} (fewer : ∀ reply ∈ l, reply ∈ σ.arriving p) :
      ∀ q origin bytes, (origin, bytes) ∈ Function.update σ.arriving p l q →
        Answering (tr ++ [e]) q origin := by
    intro q origin bytes member
    by_cases here : q = p
    · subst here
      rw [Function.update_self] at member
      exact after.arriving q origin bytes (fewer _ member)
    · rw [Function.update_of_ne here] at member
      exact after.arriving q origin bytes member
  cases step with
  | sends i socket dest bytes =>
    have sent : SentTo (tr ++ [.client i (.output (.sendto socket dest bytes))]) (i, socket) dest :=
      ⟨bytes, by simp⟩
    have carried := after.minion dest
    refine ⟨minions ⟨fun p req member => ?_, carried.tasks, carried.addressed, carried.pending⟩,
      after.arriving⟩
    rcases List.mem_append.mp member with member | member
    · exact carried.inbox p req member
    · cases List.mem_singleton.mp member
      exact ⟨rfl, sent⟩
  | outputs => exact ⟨after.minion, after.arriving⟩
  | fails => exact ⟨after.minion, after.arriving⟩
  | receives i socket origin bytes rest _ waiting =>
    exact ⟨after.minion, replies fun reply member => by simp [waiting, member]⟩
  | reads a reads => exact ⟨minions ((after.minion a).reads reads), after.arriving⟩
  | works a works =>
    refine ⟨?_, fun p origin bytes member => ?_⟩
    · rw [minion_setMinion, minion_deliver]
      exact minions ((known.minion a).works works)
    · rcases mem_deliver member with member | ⟨rep, rfl⟩
      · exact after.arriving p origin bytes member
      · cases works with
        | send before later _ _ _ pending =>
          have answered := (after.minion a).pending origin rep (by simp [pending])
          exact ⟨a, (after.minion a).addressed (.inr (by simp [pending])), answered⟩
  | losesRequest a before later message inbox =>
    have carried := after.minion a
    refine ⟨minions ⟨fun p req member => carried.inbox p req ?_, carried.tasks, carried.addressed,
      carried.pending⟩, after.arriving⟩
    rw [inbox]
    exact ((List.sublist_cons_self _ _).append_left _).subset member
  | losesReply p before later reply waiting =>
    refine ⟨after.minion, replies fun reply member => ?_⟩
    rw [waiting]
    exact ((List.sublist_cons_self _ _).append_left _).subset member

omit [DecidableEq ι] in
theorem Known.of_idle {σ : Cluster ι S Request} (idle : σ.Idle) : Known request [] σ := by
  refine ⟨fun a => ?_, by simp [idle.arriving]⟩
  obtain ⟨addr, storage, same⟩ := idle.minion a
  constructor <;> simp [same, Minion.idle, Minion.held]

/-! ### The last store wins -/

section
omit [DecidableEq ι]
variable (request)

theorem stores_append (tr tr' : List (NetEvent ι)) (a : SockAddr) (key : UInt64) :
    stores request (tr ++ tr') a key = stores request tr a key ++ stores request tr' a key :=
  List.filterMap_append

theorem stores_silent (silent : ∀ task, e ≠ .minion a (.execute task)) (key : UInt64) :
    stores request [e] a key = [] := by
  rw [stores, List.filterMap_cons_none, List.filterMap_nil]
  split
  · exact if_neg fun here => silent _ (by rw [here.1])
  · rfl

theorem mem_stores {tr : List (NetEvent ι)} : p ∈ stores request tr a key ↔
    Executed tr a p ∧ (request p).type = Kind.write.code ∧ (request p).offset = key := by
  constructor
  · intro member
    obtain ⟨e, label, found⟩ := List.mem_filterMap.mp member
    split at found
    · split at found
      · obtain ⟨rfl, type, offset⟩ := ‹_ ∧ _ ∧ _›
        cases found
        exact ⟨⟨_, label, rfl⟩, type, offset⟩
      · cases found
    · cases found
  · rintro ⟨⟨task, label, rfl⟩, type, offset⟩
    exact List.mem_filterMap.mpr ⟨_, label, if_pos ⟨rfl, type, offset⟩⟩

end

/-- While the minion is up, a key holds the block of the write stored last. -/
structure Stored (request : Peer ι → Request) (tr : List (NetEvent ι)) (a : SockAddr)
    (m : Minion (Peer ι) Request) : Prop where
  sound : m.running = true → m.storage.Sound
  latest : m.running = true → ∀ key p, (stores request tr a key).getLast? = some p →
    m.storage.lookup key = some (request p).block

omit [DecidableEq ι] in
theorem Stored.works {m m' : Minion (Peer ι) Request} (stored : Stored request tr a m)
    (carried : Carried request tr a m) (works : Minion.Works m e m') :
    Stored request (tr ++ [.minion a e]) a m' := by
  cases works with
  | pop | send =>
    refine ⟨stored.sound, fun up key p last => stored.latest up key p ?_⟩
    simpa [stores_append, stores] using last
  | crash => exact ⟨by simp, by simp⟩
  | execute before after task rep env up popped fresh performed =>
    have data := (carried.tasks task (by simp [Minion.mem_held, popped])).1
    rw [data] at performed fresh
    have sound := stored.sound up
    obtain ⟨_, _, ⟨read, rfl⟩ | ⟨write, pointer, memory, rfl⟩⟩ := Minion.performed_cases performed
    · have other : Kind.read.code ≠ Kind.write.code := by decide
      refine ⟨fun _ => sound, fun _ key p last => stored.latest up key p ?_⟩
      simpa [stores_append, stores, read, other] using last
    · rw [Minion.offset_processRequest (.inr write), memory] at fresh
      refine ⟨fun _ => sound.store fresh _, fun _ key p last => ?_⟩
      by_cases here : (request task.origin).offset = key
      · subst here
        obtain rfl : task.origin = p := by simpa [stores_append, stores, write] using last
        exact StorageManager.lookup_store_self ..
      · rw [sound.lookup_store_ne fresh _ (Ne.symm here)]
        exact stored.latest up key p (by simpa [stores_append, stores, here] using last)

omit [DecidableEq ι] in
theorem Stored.silent {m m' : Minion (Peer ι) Request} (stored : Stored request tr a m)
    (silent : ∀ task, e ≠ .minion a (.execute task)) (storage : m'.storage = m.storage)
    (running : m'.running = m.running) : Stored request (tr ++ [e]) a m' := by
  refine ⟨?_, fun up key p last => ?_⟩
  · rw [running, storage]
    exact stored.sound
  · rw [storage]
    rw [stores_append, stores_silent request silent, List.append_nil] at last
    exact stored.latest (running ▸ up) key p last

theorem Stored.step {σ : Cluster ι S Request} (known : Known request tr σ)
    (stored : ∀ a, Stored request tr a (σ.minion a))
    (step : Step (wholeMessages next request) σ e σ') :
    ∀ a, Stored request (tr ++ [e]) a (σ'.minion a) := by
  have still {a} (silent : ∀ task, e ≠ .minion a (.execute task)) :
      Stored request (tr ++ [e]) a (σ.minion a) := (stored a).silent silent rfl rfl
  have minions {a m} (one : Stored request (tr ++ [e]) a m)
      (others : ∀ b, b ≠ a → ∀ task, e ≠ .minion b (.execute task)) :
      ∀ b, Stored request (tr ++ [e]) b (Function.update σ.minion a m b) :=
    (Function.forall_update_iff _ fun b m => Stored request (tr ++ [e]) b m).mpr
      ⟨one, fun b other => still (others b other)⟩
  cases step with
  | sends i socket dest bytes =>
    exact minions ((stored dest).silent (by simp) rfl rfl) (by simp)
  | outputs | fails | receives => exact fun a => still (by simp)
  | reads a reads =>
    refine minions ((stored a).silent ?_ ?_ ?_) ?_ <;> cases reads <;> simp
  | works a works =>
    rw [minion_setMinion, minion_deliver]
    refine minions ((stored a).works (known.minion a) works) fun b other task same => ?_
    injection same with here
    exact other here.symm
  | losesRequest a => exact minions ((stored a).silent (by simp) rfl rfl) (by simp)
  | losesReply => exact fun a => still (by simp)

/-- Without a crash the minions stay up. -/
theorem up_of_step {σ : Cluster ι S Request} (step : Step (wholeMessages next request) σ e σ')
    (reliable : Reliable σ e) (up : ∀ a, (σ.minion a).running = true) :
    ∀ a, (σ'.minion a).running = true := by
  have minions {a m} (one : m.running = true) :
      ∀ b, (Function.update σ.minion a m b).running = true :=
    (Function.forall_update_iff _ fun _ (m : Minion (Peer ι) Request) => m.running = true).mpr
      ⟨one, fun b _ => up b⟩
  cases step with
  | sends i socket dest => exact minions (up dest)
  | outputs | fails | receives | losesReply => exact up
  | reads a reads => cases reads; exact minions (up a)
  | works a works =>
    rw [minion_setMinion, minion_deliver]
    cases works with
    | pop | execute | send => exact minions (up a)
    | crash => exact reliable.elim
  | losesRequest a => exact minions (up a)

/-! ### An exchange that nothing disturbs -/

/-- The answer to a write. -/
def writeReply (req : Request) : Reply :=
  ProtocolTranslator.translateReply req.id Kind.write.code (some Block.zero) .none

section
variable (request)

/-- The events of a write that is sent once, and answered. -/
def exchanged (p : Peer ι) (c : Call) : List (NetEvent ι) :=
  [.client p.1 (.output (.sendto p.2 c.dest c.request.header)),
    .minion c.dest (.receive p (request p)),
    .minion c.dest (.pop ⟨p, MinionProxy.processRequest (request p)⟩),
    .minion c.dest (.execute ⟨p, MinionProxy.processRequest (request p)⟩),
    .minion c.dest (.send p (writeReply (request p)) p),
    .client p.1 (.input p.2 (.datagram (writeReply (request p)).header))]

variable (next)

/-- A write goes to a minion that has other tasks waiting, is stored, and its
reply ends the call. -/
theorem exchange_steps {σ : Cluster ι S Request} {c : Call} (p : Peer ι) (running : Call → S)
    (returned : Bool → Reply → S) (calls : ∀ c, next p.1 (running c) = c.next running returned)
    (client : σ.client p.1 = running c) (fresh : c.point = .send) (socket : c.socket = p.2)
    (arriving : σ.arriving p = [])
    (minion : σ.minion c.dest = ⟨[], addr, none, tasks, [], [], storage, true⟩)
    (write : (request p).type = Kind.write.code)
    (memory : storage.Allocates (request p).offset (some pointer)) :
    ∃ rep σ₁ σ₂ σ₃ σ₄ σ₅,
      (Step (wholeMessages next request) σ
        (.client p.1 (.output (.sendto p.2 c.dest c.request.header))) σ₁ ∧
      Step (wholeMessages next request) σ₁ (.minion c.dest (.receive p (request p))) σ₂ ∧
      Step (wholeMessages next request) σ₂
        (.minion c.dest (.pop ⟨p, MinionProxy.processRequest (request p)⟩)) σ₃ ∧
      Step (wholeMessages next request) σ₃
        (.minion c.dest (.execute ⟨p, MinionProxy.processRequest (request p)⟩)) σ₄ ∧
      Step (wholeMessages next request) σ₄
        (.minion c.dest (.send p (writeReply (request p)) p)) σ₅ ∧
      Step (wholeMessages next request) σ₅
        (.client p.1 (.input p.2 (.datagram (writeReply (request p)).header)))
        (σ.focus p c.dest (returned true rep) [] ⟨[], p, none, tasks, [], [],
          (storage.store (some pointer) (request p).block (request p).offset).1, true⟩)) ∧
      (σ₃.minion c.dest).held = ⟨p, MinionProxy.processRequest (request p)⟩ :: tasks ∧
      σ₅.arriving p = [(p, (writeReply (request p)).header)] := by
  obtain ⟨i, s⟩ := p
  obtain rfl : c.socket = s := socket
  let p : Peer ι := (i, c.socket)
  let stored := (storage.store (some pointer) (request p).block (request p).offset).1
  let task : Task (Peer ι) := ⟨p, MinionProxy.processRequest (request p)⟩
  let rep := Reply.codec.patch c.reply (writeReply (request p)).header
  let waiting := running { c with point := .receive }
  let asked : Minion (Peer ι) Request := ⟨[(p, request p)], addr, none, tasks, [], [], storage, true⟩
  let queued : Minion (Peer ι) Request := ⟨[], p, none, tasks ++ [task], [], [], storage, true⟩
  let popped : Minion (Peer ι) Request := ⟨[], p, none, tasks ++ [], [task], [], storage, true⟩
  let answering : Minion (Peer ι) Request :=
    ⟨[], p, none, tasks ++ [], [], [(p, writeReply (request p))], stored, true⟩
  let answered : Minion (Peer ι) Request := ⟨[], p, none, tasks ++ [], [], [], stored, true⟩
  have sends : Step (wholeMessages next request) (σ.focus p c.dest (running c) []
      ⟨[], addr, none, tasks, [], [], storage, true⟩) _ (σ.focus p c.dest waiting [] asked) :=
    focus_sends (Call.fires_send calls c fresh)
  have reads : Step (wholeMessages next request) (σ.focus p c.dest waiting [] asked) _
      (σ.focus p c.dest waiting [] queued) := focus_reads (.message p (request p) rfl rfl)
  have pops : Step (wholeMessages next request) (σ.focus p c.dest waiting [] queued) _
      (σ.focus p c.dest waiting [] popped) := focus_works (.pop tasks [] task rfl rfl) fun _ => rfl
  have executes : Step (wholeMessages next request) (σ.focus p c.dest waiting [] popped) _
      (σ.focus p c.dest waiting [] answering) := focus_works
    (Minion.works_write [] [] ⟨some pointer, default, Block.zero⟩ rfl write rfl rfl memory)
    fun _ => rfl
  have answers : Step (wholeMessages next request) (σ.focus p c.dest waiting [] answering) _
      (σ.focus p c.dest waiting [(p, (writeReply (request p)).header)] answered) :=
    focus_answers (.send [] [] p (writeReply (request p)) rfl rfl) rfl
  have receives : Step (wholeMessages next request)
      (σ.focus p c.dest waiting [(p, (writeReply (request p)).header)] answered) _
      (σ.focus p c.dest (returned true rep) [] answered) :=
    focus_receives (Call.fires_return calls c rfl)
  rw [← eq_focus client arriving minion] at sends
  refine ⟨rep, _, _, _, _, _, ⟨sends, reads, pops, executes, answers, ?_⟩, ?_, ?_⟩
  · simpa only [answered, List.append_nil] using receives
  · rw [minion_focus]
    simp [popped, Minion.held, task, p]
  · exact arriving_focus

theorem exchange_write {σ : Cluster ι S Request} {c : Call} (p : Peer ι) (running : Call → S)
    (returned : Bool → Reply → S) (calls : ∀ c, next p.1 (running c) = c.next running returned)
    (client : σ.client p.1 = running c) (fresh : c.point = .send) (socket : c.socket = p.2)
    (arriving : σ.arriving p = [])
    (minion : σ.minion c.dest = ⟨[], addr, none, tasks, [], [], storage, true⟩)
    (write : (request p).type = Kind.write.code)
    (memory : storage.Allocates (request p).offset (some pointer)) :
    ∃ rep, Run (Under Reliable (Step (wholeMessages next request))) σ (exchanged request p c)
      (σ.focus p c.dest (returned true rep) [] ⟨[], p, none, tasks, [], [],
        (storage.store (some pointer) (request p).block (request p).offset).1, true⟩) := by
  obtain ⟨rep, _, _, _, _, _, ⟨sends, reads, pops, executes, answers, receives⟩, _⟩ :=
    exchange_steps request next p running returned calls client fresh socket arriving minion write
      memory
  exact ⟨rep, .next ⟨sends, trivial⟩ <| .next ⟨reads, trivial⟩ <| .next ⟨pops, trivial⟩ <|
    .next ⟨executes, trivial⟩ <| .next ⟨answers, trivial⟩ <| .single ⟨receives, trivial⟩⟩

end

end Cluster
end DistributedDisk
