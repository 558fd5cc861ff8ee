import DistributedDisk.Cluster.Messages

/-! The order of writes at a minion. Copies of a request wait in its socket, in
its queue and with its workers; as long as no write is executed before one that
precedes it, the last stored write precedes no other. -/
namespace DistributedDisk
open Packed Reactive Transition

namespace Cluster
variable {ι : Type}

def Sent (tr : List (NetEvent ι)) (i : ι) : Prop := ∃ socket a, SentTo tr (i, socket) a

def Acked (tr : List (NetEvent ι)) (i : ι) : Prop :=
  ∃ socket bytes, .client i (.input socket (.datagram bytes)) ∈ tr

/-- Call `j` was issued after call `i` had been acknowledged. -/
def Precedes (tr : List (NetEvent ι)) (i j : ι) : Prop :=
  ∃ before after, tr = before ++ after ∧ Acked before i ∧ ¬ Sent before j

def Writes (call : ι → Call) (a : SockAddr) (key : UInt64) (i : ι) : Prop :=
  (call i).dest = a ∧ (call i).request.type = Kind.write.code ∧ (call i).request.offset = key

theorem Sent.append {tr : List (NetEvent ι)} (sent : Sent tr i) (tr') : Sent (tr ++ tr') i := by
  obtain ⟨socket, a, sent⟩ := sent
  exact ⟨socket, a, sent.append _⟩

theorem Acked.append {tr : List (NetEvent ι)} (acked : Acked tr i) (tr') : Acked (tr ++ tr') i := by
  obtain ⟨socket, bytes, member⟩ := acked
  exact ⟨socket, bytes, List.mem_append_left _ member⟩

theorem Acked.cases {tr : List (NetEvent ι)} (acked : Acked (tr ++ [e]) i) :
    Acked tr i ∨ ∃ socket bytes, e = .client i (.input socket (.datagram bytes)) := by
  obtain ⟨socket, bytes, member⟩ := acked
  rcases List.mem_append.mp member with member | member
  · exact .inl ⟨socket, bytes, member⟩
  · exact .inr ⟨socket, bytes, (List.mem_singleton.mp member).symm⟩

theorem Precedes.acked {tr : List (NetEvent ι)} (precedes : Precedes tr i j) : Acked tr i := by
  obtain ⟨before, after, rfl, acked, _⟩ := precedes
  exact acked.append after

theorem Precedes.cases {tr : List (NetEvent ι)} (precedes : Precedes (tr ++ [e]) i j) :
    Precedes tr i j ∨ Acked (tr ++ [e]) i ∧ ¬ Sent (tr ++ [e]) j := by
  obtain ⟨before, after, split, acked, unsent⟩ := precedes
  rcases List.eq_nil_or_concat after with rfl | ⟨after, last, rfl⟩
  · rw [List.append_nil] at split
    exact .inr (split ▸ ⟨acked, unsent⟩)
  · rw [List.concat_eq_append, ← List.append_assoc] at split
    exact .inl ⟨before, after, (List.append_inj' split rfl).1, acked, unsent⟩

/-- A call is acknowledged after it is sent, and so does not precede itself. -/
theorem Precedes.irrefl_append {tr : List (NetEvent ι)} (irrefl : ∀ i, ¬ Precedes tr i i)
    (sent : ∀ i, Acked (tr ++ [e]) i → Sent (tr ++ [e]) i) (i : ι) :
    ¬ Precedes (tr ++ [e]) i i := by
  intro precedes
  rcases precedes.cases with precedes | ⟨acked, unsent⟩
  · exact irrefl i precedes
  · exact unsent (sent i acked)

/-- What precedes a call that has been issued is settled. -/
theorem Precedes.old {tr : List (NetEvent ι)} (sent : Sent tr j)
    (precedes : Precedes (tr ++ [e]) i j) : Precedes tr i j :=
  precedes.cases.resolve_right fun fresh => fresh.2 (sent.append _)

/-- The calls whose copies are in the socket, in the order of arrival. -/
def waiting (m : Minion (Peer ι) Request) : List ι := m.inbox.map (·.1.1)

/-- The calls whose copies are popped, queued or in the socket. -/
def pipeline (m : Minion (Peer ι) Request) : List ι := m.held.map (·.origin.1) ++ waiting m

theorem sent_of_pipeline {m : Minion (Peer ι) Request} (carried : Carried request tr a m)
    (member : i ∈ pipeline m) : Sent tr i := by
  rcases List.mem_append.mp member with member | member
  · obtain ⟨task, held, rfl⟩ := List.mem_map.mp member
    exact ⟨_, a, (carried.tasks task held).2⟩
  · obtain ⟨⟨p, req⟩, waits, rfl⟩ := List.mem_map.mp member
    exact ⟨_, a, (carried.inbox p req waits).2⟩

/-- No copy in the socket precedes one that arrived before it, no copy in the minion precedes
a stored write, and the last stored write precedes no stored write. -/
structure Orderly (call : ι → Call) (tr : List (NetEvent ι)) (a : SockAddr)
    (m : Minion (Peer ι) Request) : Prop where
  order : (waiting m).Pairwise fun i j => ¬ Precedes tr j i
  behind : ∀ task ∈ m.held, ∀ i ∈ waiting m, ¬ Precedes tr i task.origin.1
  stored : ∀ key, ∀ p ∈ stores (fun p => (call p.1).request) tr a key, SentTo tr p a
  overtaken : ∀ key, ∀ i ∈ pipeline m, Writes call a key i →
    ∀ p ∈ stores (fun p => (call p.1).request) tr a key, ¬ Precedes tr i p.1
  latest : ∀ key p, (stores (fun p => (call p.1).request) tr a key).getLast? = some p →
    ∀ q ∈ stores (fun p => (call p.1).request) tr a key, ¬ Precedes tr p.1 q.1

variable {call : ι → Call} {m m' : Minion (Peer ι) Request}

theorem mem_pipeline_of_held (held : task ∈ m.held) : task.origin.1 ∈ pipeline m :=
  List.mem_append_left _ (List.mem_map.mpr ⟨task, held, rfl⟩)

theorem mem_pipeline_of_waiting (waits : i ∈ waiting m) : i ∈ pipeline m :=
  List.mem_append_right _ waits

/-- A step that stores nothing and brings no new copy. -/
theorem Orderly.silent (orderly : Orderly call tr a m)
    (carried : Carried (fun p => (call p.1).request) tr a m)
    (silent : ∀ task, e ≠ .minion a (.execute task)) (fewer : pipeline m' ⊆ pipeline m)
    (order : (waiting m').Pairwise fun i j => ¬ Precedes tr j i)
    (behind : ∀ task ∈ m'.held, ∀ i ∈ waiting m', ¬ Precedes tr i task.origin.1) :
    Orderly call (tr ++ [e]) a m' := by
  have same (key : UInt64) : stores (fun p => (call p.1).request) (tr ++ [e]) a key =
      stores (fun p => (call p.1).request) tr a key := by
    rw [stores_append, stores_silent _ silent, List.append_nil]
  have sent {key p} (member : p ∈ stores (fun p => (call p.1).request) tr a key) : Sent tr p.1 :=
    ⟨_, _, orderly.stored key p member⟩
  refine ⟨order.imp_of_mem ?_, fun task held i waits precedes => ?_, fun key => ?_, fun key => ?_,
    fun key => ?_⟩
  · intro i j front _ order precedes
    exact order (precedes.old (sent_of_pipeline carried (fewer (mem_pipeline_of_waiting front))))
  · exact behind task held i waits
      (precedes.old (sent_of_pipeline carried (fewer (mem_pipeline_of_held held))))
  all_goals rw [same]
  · exact fun p member => (orderly.stored key p member).append _
  · intro i queued writes p member precedes
    exact orderly.overtaken key i (fewer queued) writes p member (precedes.old (sent member))
  · intro p last q member precedes
    exact orderly.latest key p last q member (precedes.old (sent member))

theorem pipeline_subset (held : m'.held ⊆ m.held) (inbox : m'.inbox.Sublist m.inbox) :
    pipeline m' ⊆ pipeline m := by
  intro i member
  rcases List.mem_append.mp member with member | member
  · exact List.mem_append_left _ (List.map_subset _ held member)
  · exact List.mem_append_right _ ((inbox.map _).subset member)

/-- Copies are popped, or go. -/
theorem Orderly.keeps (orderly : Orderly call tr a m)
    (carried : Carried (fun p => (call p.1).request) tr a m)
    (silent : ∀ task, e ≠ .minion a (.execute task)) (held : m'.held ⊆ m.held)
    (inbox : m'.inbox.Sublist m.inbox) : Orderly call (tr ++ [e]) a m' :=
  orderly.silent carried silent (pipeline_subset held inbox) (orderly.order.sublist (inbox.map _))
    fun task member i waits => orderly.behind task (held member) i ((inbox.map _).subset waits)

/-- The copy that arrived first is queued. -/
theorem Orderly.reads {task : Task (Peer ι)} (orderly : Orderly call tr a m)
    (carried : Carried (fun p => (call p.1).request) tr a m)
    (silent : ∀ task, e ≠ .minion a (.execute task))
    (inbox : m.inbox = (task.origin, req) :: m'.inbox) (tasks : m'.tasks = m.tasks ++ [task])
    (popped : m'.popped = m.popped) : Orderly call (tr ++ [e]) a m' := by
  have first : waiting m = task.origin.1 :: waiting m' := by
    simp only [waiting, inbox, List.map_cons]
  have order := orderly.order
  rw [first, List.pairwise_cons] at order
  refine orderly.silent carried silent (fun i member => ?_) order.2 fun other held i waits => ?_
  · rcases List.mem_append.mp member with member | waits
    · obtain ⟨other, held, rfl⟩ := List.mem_map.mp member
      obtain held | rfl := Minion.held_queue held tasks popped
      · exact mem_pipeline_of_held held
      · exact mem_pipeline_of_waiting (first ▸ List.mem_cons_self)
    · exact mem_pipeline_of_waiting (first ▸ List.mem_cons_of_mem _ waits)
  · obtain held | rfl := Minion.held_queue held tasks popped
    · exact orderly.behind other held i (first ▸ List.mem_cons_of_mem _ waits)
    · exact order.1 i waits

/-- A call that has not returned sends another copy. -/
theorem Orderly.sends (orderly : Orderly call tr a m)
    (carried : Carried (fun p => (call p.1).request) tr a m)
    (silent : ∀ task, e ≠ .minion a (.execute task)) (unacked : ¬ Acked (tr ++ [e]) i)
    (held : m'.held = m.held) (more : waiting m' = waiting m ++ [i]) :
    Orderly call (tr ++ [e]) a m' := by
  have before : Orderly call (tr ++ [e]) a m :=
    orderly.keeps carried silent (List.Subset.refl _) (.refl _)
  refine ⟨?_, fun task member j waits => ?_, before.stored,
    fun key j queued writes p member precedes => ?_, before.latest⟩
  · rw [more, List.pairwise_append]
    refine ⟨before.order, List.pairwise_singleton _ _, fun j _ k last precedes => ?_⟩
    obtain rfl := List.mem_singleton.mp last
    exact unacked precedes.acked
  · rw [held] at member
    rw [more] at waits
    rcases List.mem_append.mp waits with waits | last
    · exact before.behind task member j waits
    · obtain rfl := List.mem_singleton.mp last
      exact fun precedes => unacked precedes.acked
  · rw [pipeline, held, more, ← List.append_assoc] at queued
    rcases List.mem_append.mp queued with queued | last
    · exact before.overtaken key j queued writes p member precedes
    · obtain rfl := List.mem_singleton.mp last
      exact unacked precedes.acked

theorem writes_of_stores (called : ∀ p, SentTo tr p a → (call p.1).dest = a)
    (orderly : Orderly call tr a m)
    (member : p ∈ stores (fun p => (call p.1).request) tr a key) : Writes call a key p.1 :=
  ⟨called p (orderly.stored key p member), ((mem_stores _).mp member).2⟩

/-- An executed task is the last store of its key, and of no other. -/
theorem stores_execute {task : Task (Peer ι)} (dest : (call task.origin.1).dest = a)
    (key : UInt64) :
    stores (fun p => (call p.1).request) (tr ++ [.minion a (.execute task)]) a key =
        stores (fun p => (call p.1).request) tr a key ∨
      Writes call a key task.origin.1 ∧
        stores (fun p => (call p.1).request) (tr ++ [.minion a (.execute task)]) a key =
          stores (fun p => (call p.1).request) tr a key ++ [task.origin] := by
  by_cases write : (call task.origin.1).request.type = Kind.write.code ∧
      (call task.origin.1).request.offset = key
  · exact .inr ⟨⟨dest, write⟩, by simp [stores, write]⟩
  · exact .inl (by simp [stores, write])

/-- Nothing in the minion precedes a task that no held write precedes. -/
theorem Orderly.first {task : Task (Peer ι)} (orderly : Orderly call tr a m)
    (held : task ∈ m.held)
    (inOrder : ∀ other ∈ m.held, ∀ key, Writes call a key other.origin.1 →
      Writes call a key task.origin.1 → ¬ Precedes tr other.origin.1 task.origin.1)
    (member : i ∈ pipeline m) (writes : Writes call a key i)
    (writesTask : Writes call a key task.origin.1) : ¬ Precedes tr i task.origin.1 := by
  rcases List.mem_append.mp member with member | member
  · obtain ⟨other, waits, rfl⟩ := List.mem_map.mp member
    exact inOrder other waits key writes writesTask
  · exact orderly.behind task held i member

/-- A task is executed that no held write precedes. -/
theorem Orderly.executes {task : Task (Peer ι)} (orderly : Orderly call tr a m)
    (carried : Carried (fun p => (call p.1).request) tr a m)
    (called : ∀ p, SentTo tr p a → (call p.1).dest = a) (irrefl : ∀ i, ¬ Precedes tr i i)
    (held : task ∈ m.held) (inbox : m'.inbox = m.inbox) (fewer : m'.held ⊆ m.held)
    (inOrder : ∀ other ∈ m.held, ∀ key, Writes call a key other.origin.1 →
      Writes call a key task.origin.1 → ¬ Precedes tr other.origin.1 task.origin.1) :
    Orderly call (tr ++ [.minion a (.execute task)]) a m' := by
  have asked : SentTo tr task.origin a := (carried.tasks task held).2
  have issued : Sent tr task.origin.1 := ⟨_, a, asked⟩
  have same : waiting m' = waiting m := congrArg (List.map _) inbox
  have subset := pipeline_subset fewer (inbox ▸ .refl _)
  have sent {key p} (member : p ∈ stores (fun p => (call p.1).request) tr a key) : Sent tr p.1 :=
    ⟨_, _, orderly.stored key p member⟩
  refine ⟨same ▸ orderly.order.imp_of_mem ?_, fun other member i waits precedes => ?_,
    fun key => ?_, fun key => ?_, fun key => ?_⟩
  · intro i j front _ order precedes
    exact order (precedes.old (sent_of_pipeline carried (mem_pipeline_of_waiting front)))
  · exact orderly.behind other (fewer member) i (same ▸ waits)
      (precedes.old (sent_of_pipeline carried (mem_pipeline_of_held (fewer member))))
  all_goals obtain same | ⟨writes, same⟩ := stores_execute (called _ asked) key <;> rw [same]
  · exact fun p member => (orderly.stored key p member).append _
  · intro p member
    rcases List.mem_append.mp member with member | member
    · exact (orderly.stored key p member).append _
    · obtain rfl := List.mem_singleton.mp member
      exact asked.append _
  · intro i waits writes p member precedes
    exact orderly.overtaken key i (subset waits) writes p member (precedes.old (sent member))
  · intro i waits writes' p member precedes
    rcases List.mem_append.mp member with member | member
    · exact orderly.overtaken key i (subset waits) writes' p member (precedes.old (sent member))
    · obtain rfl := List.mem_singleton.mp member
      exact orderly.first held inOrder (subset waits) writes' writes (precedes.old issued)
  · intro p last q member precedes
    exact orderly.latest key p last q member (precedes.old (sent member))
  · intro p last q member precedes
    obtain rfl : task.origin = p := by simpa using last
    rcases List.mem_append.mp member with member | member
    · exact orderly.overtaken key _ (mem_pipeline_of_held held) writes q member
        (precedes.old (sent member))
    · obtain rfl := List.mem_singleton.mp member
      exact irrefl _ (precedes.old issued)

end Cluster
end DistributedDisk
