import DistributedDisk.Cluster.Execution

/-! The disk: requests of the kernel are executed one after the other, and a READ
should return what the latest WRITE of its offset brought. -/
namespace DistributedDisk
open Packed Reactive Transition

namespace Cluster
variable {ι : Type}

/-- A command moves only when the commands before it have returned. -/
def Sequential {n : Nat} (σ : Cluster (Fin n) Running (List UInt8)) (e : NetEvent (Fin n)) : Prop :=
  Reliable σ e ∧ ∀ i move, e = .client i move → ∀ j < i, (σ.client j).Returned

theorem sequential_of_alone {n : Nat} {i : Fin n} {σ σ' : Cluster (Fin n) Running (List UInt8)}
    {tr : List (NetEvent (Fin n))}
    (run : Run (Under Reliable (Step (disk (Fin n)))) σ tr σ') (alone : Alone i tr)
    (before : ∀ j < i, (σ.client j).Returned) :
    Run (Under Sequential (Step (disk (Fin n)))) σ tr σ' := by
  induction run with
  | refl => exact .refl _
  | @next σ e σ₁ _ _ head _ ih =>
    have first := alone e (by simp)
    have others : ∀ j < i, σ₁.client j = σ.client j := by
      intro j earlier
      obtain ⟨k, move, here, _, others, _⟩ | ⟨_, same⟩ := client_cases head.1
      · exact others j (first k move here ▸ Fin.ne_of_lt earlier)
      · rw [same]
    refine .next ⟨head.1, head.2, fun k move here => first k move here ▸ before⟩ (ih ?_ ?_)
    · exact fun e member => alone e (List.mem_cons_of_mem _ member)
    · exact fun j earlier => others j earlier ▸ before j earlier

/-- The disk: the payload of the last WRITE of the offset among the first `i` requests. -/
def latestWrite (requests : List Incoming) (i : Nat) (offset : UInt64) : Option (List UInt8) :=
  ((requests.take i).filterMap fun r => if r.request.transfer.isRead = false ∧
    r.request.offset = offset then some r.request.payload else none).getLast?

/-- What a command wrote to the NBD socket behind its `nbd_reply`. -/
def dataWritten [DecidableEq ι] (tr : List (NetEvent ι)) (i : ι) : List UInt8 :=
  ((replies (commands tr i)).drop 1).flatMap Prod.snd

/-- Every READ that has returned wrote the payload of the latest earlier WRITE. -/
def ReadsYourWrites (requests : List Incoming) (tr : List (NetEvent (Fin requests.length)))
    (σ : Cluster (Fin requests.length) Running (List UInt8)) : Prop :=
  ∀ i, (requests.get i).request.transfer.isRead = true → (σ.client i).Returned →
    ∀ payload, latestWrite requests i (requests.get i).request.offset = some payload →
      dataWritten tr i = payload

def firstMinion (master : Master) (offset : UInt64) : SockAddr :=
  ClientUDPSocket.sockaddr (master.first offset).ip (master.first offset).port

/-- The first `k` requests have been executed, and every written offset is
present at its first minion. -/
structure Ready (master : Master) (requests : List Incoming) (start : Fin requests.length → Running)
    (k : Nat) (tr : List (NetEvent (Fin requests.length)))
    (σ : Cluster (Fin requests.length) Running (List UInt8)) : Prop where
  returned : ∀ i, i.val < k → (σ.client i).Returned
  waits : ∀ i, k ≤ i.val → σ.client i = start i ∧ commands tr i = []
  quiet : Quiet σ
  stored : ∀ i, i.val < k → (requests.get i).request.transfer.isRead = false →
    (σ.minion (firstMinion master (requests.get i).request.offset)).storage.map
      (requests.get i).request.offset ≠ none

section
variable {master : Master} {requests : List Incoming} {start : Fin requests.length → Running}
  {σ : Cluster (Fin requests.length) Running (List UInt8)}

theorem Ready.advance (ready : Ready master requests start k tr σ) (i : Fin requests.length)
    (here : i.val = k) (advances : Advances i σ tr' σ' s) (returned : s.Returned)
    (stored : (requests.get i).request.transfer.isRead = false →
      (σ'.minion (firstMinion master (requests.get i).request.offset)).storage.map
        (requests.get i).request.offset ≠ none) :
    Ready master requests start (k + 1) (tr ++ tr') σ' := by
  subst here
  refine ⟨fun j done => ?_, fun j later => ?_, advances.quiet, fun j done write => ?_⟩
  · by_cases same : j = i
    · rw [same, advances.client]
      exact returned
    · rw [advances.others j same]
      exact ready.returned j (by have := Fin.val_ne_of_ne same; omega)
  · have other : j ≠ i := by
      rintro rfl
      omega
    have waits := ready.waits j (by omega)
    rw [advances.others j other, commands_append, waits.2, commands_alone advances.alone other]
    exact ⟨waits.1, rfl⟩
  · by_cases same : j = i
    · subst same
      exact stored write
    · exact advances.kept _ _ (ready.stored j (by have := Fin.val_ne_of_ne same; omega) write)

theorem Ready.step (ready : Ready master requests start k tr σ) (i : Fin requests.length)
    (here : i.val = k) (started : (requests.get i).Started master fd (start i)) :
    ∃ tr' σ', Run (Under Sequential (Step (disk _))) σ tr' σ' ∧
      Ready master requests start (k + 1) (tr ++ tr') σ' := by
  have client := (ready.waits i (by omega)).1
  have before : ∀ j < i, (σ.client j).Returned := fun j earlier => ready.returned j (here ▸ earlier)
  generalize start i = s at started client
  cases started with
  | read rep isRead _ _ _ type offset =>
    obtain ⟨tr', σ', _, _, advances, _⟩ := executes_read i _ type client ready.quiet default
    refine ⟨tr', σ', sequential_of_alone advances.run advances.alone before,
      ready.advance i here advances rfl fun isWrite => ?_⟩
    rw [isRead] at isWrite
    cases isWrite
  | write rep isWrite _ _ min1 type offset =>
    obtain ⟨tr', σ', advances, present⟩ := executes_write i _ type client ready.quiet
    refine ⟨tr', σ', sequential_of_alone advances.run advances.alone before,
      ready.advance i here advances rfl fun _ => ?_⟩
    rw [firstMinion, ← min1, ← offset]
    exact present

theorem Ready.initial (addr : Peer (Fin requests.length)) :
    Ready master requests start 0 [] (initial start addr) where
  returned _ done := absurd done (Nat.not_lt_zero _)
  waits _ _ := ⟨rfl, rfl⟩
  quiet := ⟨fun _ => ⟨addr, .empty, rfl, fun _ => .inl ⟨rfl, rfl⟩⟩, fun _ => rfl⟩
  stored _ done := absurd done (Nat.not_lt_zero _)

theorem exists_ready (started : ∀ i, (requests.get i).Started master fd (start i))
    (addr : Peer (Fin requests.length)) (k : Nat) (bound : k ≤ requests.length) :
    ∃ tr σ, Run (Under Sequential (Step (disk _))) (Cluster.initial start addr) tr σ ∧
      Ready master requests start k tr σ := by
  induction k with
  | zero => exact ⟨[], _, .refl _, .initial addr⟩
  | succ k ih =>
    obtain ⟨tr, σ, run, ready⟩ := ih (Nat.le_of_succ_le bound)
    obtain ⟨tr', σ', next, ready'⟩ := ready.step ⟨k, bound⟩ rfl (started _)
    exact ⟨_, σ', run.trans next, ready'⟩

/-- A READ that comes after a WRITE of its offset can return anything that lies
behind a pointer in memory. -/
theorem stale_read (started : ∀ i, (requests.get i).Started master fd (start i))
    (addr : Peer (Fin requests.length)) (i j : Fin requests.length) (earlier : j < i)
    (isRead : (requests.get i).request.transfer.isRead = true)
    (isWrite : (requests.get j).request.transfer.isRead = false)
    (same : (requests.get j).request.offset = (requests.get i).request.offset)
    (payload : List UInt8) :
    ∃ tr σ, Run (Under Sequential (Step (disk _))) (Cluster.initial start addr) tr σ ∧
      (σ.client i).Returned ∧ dataWritten tr i ≠ payload := by
  obtain ⟨tr, σ, run, ready⟩ := exists_ready started addr i i.isLt.le
  have client := (ready.waits i (Nat.le_refl _)).1
  have silent := (ready.waits i (Nat.le_refl _)).2
  have stored := ready.stored j earlier isWrite
  have before : ∀ j < i, (σ.client j).Returned := fun j => ready.returned j
  have asked := started i
  generalize start i = s at asked client
  cases asked with
  | write _ isWrite => rw [isRead] at isWrite; cases isWrite
  | @read cmd rep _ _ _ min1 type offset =>
    rw [same] at stored
    obtain ⟨pointer, entry⟩ := Option.ne_none_iff_exists'.mp stored
    obtain ⟨beyond, differs⟩ := StorageManager.node_ne pointer payload
    obtain ⟨tr', σ', data, block, advances, written, copied⟩ :=
      executes_read i cmd type client ready.quiet beyond
    refine ⟨_, σ', run.trans (sequential_of_alone advances.run advances.alone before), ?_, ?_⟩
    · rw [advances.client]
      rfl
    · have asks : (cmd.firstCall rep).dest =
          firstMinion master (requests.get i).request.offset := by
        rw [firstMinion, ← min1]
        rfl
      rw [asks, offset, StorageManager.load, entry] at copied
      rw [dataWritten, commands_append, silent, List.nil_append, written, copied]
      simpa using differs

end

theorem latestWrite_ne_none {requests : List Incoming} {i j : Fin requests.length} (earlier : j < i)
    (isWrite : (requests.get j).request.transfer.isRead = false)
    (same : (requests.get j).request.offset = offset) : latestWrite requests i offset ≠ none := by
  intro none
  have member : requests.get j ∈ requests.take i := List.mem_take_iff_getElem.mpr
    ⟨j, lt_min earlier j.isLt, rfl⟩
  have empty := List.filterMap_eq_nil_iff.mp (List.getLast?_eq_none_iff.mp none) _ member
  rw [if_pos ⟨isWrite, same⟩] at empty
  cases empty

theorem latestWrite_eq_some {requests : List Incoming} {i : Fin requests.length}
    (latest : latestWrite requests i offset = some payload) : ∃ j : Fin requests.length, j < i ∧
      (requests.get j).request.transfer.isRead = false ∧
      (requests.get j).request.offset = offset := by
  obtain ⟨r, member, found⟩ := List.mem_filterMap.mp (List.mem_of_getLast? latest)
  obtain ⟨j, bound, rfl⟩ := List.mem_take_iff_getElem.mp member
  split at found
  · exact ⟨⟨j, (Nat.lt_min.mp bound).2⟩, (Nat.lt_min.mp bound).1, ‹_ ∧ _›⟩
  · cases found

/-- The code returns what was written exactly where nothing has been written. -/
theorem reads_your_writes_iff (master : Master) (fd : Int32) (requests : List Incoming)
    (locals : Fin requests.length → Locals) (cmds : List CmdData)
    (parsed : NbdProxy.parseAll fd (requests.map fun r => (r.junk, r.junkArgs))
      (requests.flatMap Incoming.stream) = .ok cmds)
    (start : Fin requests.length → Running)
    (created : ∀ i : Fin requests.length,
      cmds[i.val]?.map (spawn master (locals i)) = some (.ok (start i)))
    (addr : Peer (Fin requests.length)) :
    (∀ tr σ, Run (Under Sequential (Step (disk _))) (initial start addr) tr σ →
        ReadsYourWrites requests tr σ) ↔
      ∀ i j, j < i → (requests.get i).request.transfer.isRead = true →
        (requests.get j).request.transfer.isRead = false →
          (requests.get j).request.offset ≠ (requests.get i).request.offset := by
  have started i := Incoming.started_of_parsed locals parsed i (created i)
  constructor
  · intro holds i j earlier isRead isWrite same
    obtain ⟨payload, latest⟩ :=
      Option.ne_none_iff_exists'.mp (latestWrite_ne_none earlier isWrite same)
    obtain ⟨tr, σ, run, returned, differs⟩ :=
      stale_read started addr i j earlier isRead isWrite same payload
    exact differs (holds tr σ run i isRead returned payload latest)
  · intro apart tr σ run i isRead _ payload latest
    obtain ⟨j, earlier, isWrite, same⟩ := latestWrite_eq_some latest
    exact absurd same (apart i j earlier isRead isWrite)

theorem reads_your_writes_unwritten :
    ∃ start : Fin 2 → Running, ∀ tr σ,
      Run (Under Sequential (Step (disk (Fin 2)))) (initial start (0, .first)) tr σ →
        ReadsYourWrites [.readZero, .writeZero] tr σ := by
  let requests : List Incoming := [.readZero, .writeZero]
  obtain ⟨start, created⟩ := Incoming.exists_start .configured 3 requests fun _ => default
  refine ⟨start, (reads_your_writes_iff .configured 3 requests (fun _ => default) _
    (Incoming.parseAll_requests 3 requests) start created (⟨0, by decide⟩, .first)).mpr ?_⟩
  intro i j earlier _ isWrite
  have bound : i.val < 2 := i.isLt
  obtain rfl : j = ⟨0, by decide⟩ := Fin.ext (show j.val = 0 by omega)
  cases isWrite

/-- A WRITE and then a READ of offset 0: the READ returns the pointer of the map
entry and what lies behind it. -/
theorem reads_your_writes_fails :
    ∃ start : Fin 2 → Running,
      (∀ i : Fin 2, ([Incoming.writeZero, .readZero].map (Incoming.cmdData 3))[i.val]?.map
        (spawn .configured default) = some (.ok (start i))) ∧
      ∃ tr σ, Run (Under Sequential (Step (disk (Fin 2)))) (initial start (0, .first)) tr σ ∧
        ¬ ReadsYourWrites [.writeZero, .readZero] tr σ := by
  let requests : List Incoming := [.writeZero, .readZero]
  obtain ⟨start, created⟩ := Incoming.exists_start .configured 3 requests fun _ => default
  have started i := Incoming.started_of_parsed (fun _ => default)
    (Incoming.parseAll_requests 3 requests) i (created i)
  obtain ⟨tr, σ, run, returned, differs⟩ := stale_read started (⟨0, by decide⟩, .first)
    ⟨1, by decide⟩ ⟨0, by decide⟩ (by decide) rfl rfl rfl Incoming.writeZero.request.payload
  exact ⟨start, created, tr, σ, run, fun reads => differs (reads ⟨1, by decide⟩ rfl returned _ rfl)⟩

end Cluster
end DistributedDisk
