import DistributedDisk.Minion.Traffic

/-! A minion and arbitrary datagrams. The type byte chooses the command, a type
without a command throws out of the worker, and what a short datagram does not
set is whatever was in the local `req`. -/
namespace DistributedDisk
open Packed Transition

/-- The datagrams with their places in the sequence, from `first` on. -/
def numbered : (first : Nat) → List (List UInt8) → List (Nat × List UInt8)
  | _, [] => []
  | first, datagram :: rest => (first, datagram) :: numbered (first + 1) rest

/-- A header that has all its bytes and says write, and a block with all of its bytes. -/
structure IsWrite (header block : List UInt8) : Prop where
  type : header[8]? = some Kind.write.code
  header : Request.offsetofBlock ≤ header.length
  block : 4096 ≤ block.length

/-- A complete write starts at this place. -/
def CompleteWrite (datagrams : List (List UInt8)) (place : Nat) : Prop :=
  ∃ header block, datagrams[place]? = some header ∧ datagrams[place + 1]? = some block ∧
    IsWrite header block

/-- Each datagram reaches the type byte and says read, or is a complete write with the
next one, or is the last one and the header of a write. -/
inductive Clean : List (List UInt8) → Prop where
  | nil : Clean []
  | read : header[8]? = some Kind.read.code → Clean rest → Clean (header :: rest)
  | header : header[8]? = some Kind.write.code → Clean [header]
  | write : IsWrite header block → Clean rest → Clean (header :: block :: rest)

/-- The process ends only if some task throws although there is memory. -/
def Supplied (s : Fed Nat) : MinionEvent Nat → Prop
  | .crash => ∃ task ∈ s.minion.popped, ∃ env stored exception, env.allocated ≠ none ∧
      performTask task.data env s.minion.storage = (stored, .error exception)
  | _ => True

/-- While `operator new` does not fail, the minion goes on, and only complete
writes change its map. -/
structure Survives (datagrams : List (List UInt8)) : Prop where
  alive : ∀ addr tr s, Run (Under Supplied Fed.Step)
    (Fed.start (numbered 0 datagrams) addr .empty) tr s → s.minion.running = true
  unchanged : ∀ addr tr s e s', Run (Under Supplied Fed.Step)
    (Fed.start (numbered 0 datagrams) addr .empty) tr s → Fed.Step s e s' →
    s'.minion.storage.map ≠ s.minion.storage.map →
    ∃ task, e = .execute task ∧ CompleteWrite datagrams task.origin

theorem numbered_eq_cons {datagrams : List (List UInt8)}
    (left : numbered place (datagrams.drop place) = first :: rest) :
    ∃ datagram, datagrams[place]? = some datagram ∧ first = (place, datagram) ∧
      rest = numbered (place + 1) (datagrams.drop (place + 1)) ∧
      datagrams.drop place = datagram :: datagrams.drop (place + 1) := by
  cases tail : datagrams.drop place with
  | nil =>
    rw [tail] at left
    cases left
  | cons datagram behind =>
    rw [tail] at left
    obtain ⟨here, next⟩ := drop_eq_cons tail
    cases left
    exact ⟨datagram, here, rfl, by rw [next], by rw [next]⟩

/-! ### What a task may do -/

theorem performTask_known {req : Request}
    (known : req.type = Kind.read.code ∨ req.type = Kind.write.code) (env : Environment)
    (memory : env.allocated ≠ none) (storage : StorageManager) :
    ∃ stored rep, performTask (MinionProxy.processRequest req) env storage = (stored, .ok rep) := by
  rcases known with read | write
  · rw [MinionProxy.processRequest_read read, performTask_load]
    exact ⟨_, _, rfl⟩
  · obtain ⟨pointer, allocated⟩ := Option.ne_none_iff_exists'.mp memory
    rw [MinionProxy.processRequest_write write, performTask_store _ _ _ _ _ allocated]
    exact ⟨_, _, rfl⟩

theorem performTask_error {req : Request}
    (performed : performTask (MinionProxy.processRequest req) env storage =
      (stored, .error exception)) : stored.map = storage.map := by
  by_cases read : req.type = Kind.read.code
  · rw [MinionProxy.processRequest_read read, performTask_load] at performed
    cases performed
  · by_cases write : req.type = Kind.write.code
    · rw [MinionProxy.processRequest_write write] at performed
      cases memory : env.allocated with
      | none =>
        rw [performTask_write, MinWriteCmd.run, Codec.decode_encode, memory] at performed
        cases performed
        exact StorageManager.delete_map _ _
      | some pointer =>
        rw [performTask_store _ _ _ _ _ memory] at performed
        cases performed
    · rw [MinionProxy.processRequest, if_neg read, if_neg write] at performed
      cases performed
      rfl

theorem performTask_unknown {req : Request} (read : req.type ≠ Kind.read.code)
    (write : req.type ≠ Kind.write.code) (env : Environment) (storage : StorageManager) :
    performTask (MinionProxy.processRequest req) env storage = (storage, .error .wrongKey) := by
  rw [MinionProxy.processRequest, if_neg read, if_neg write]
  rfl

def Environment.zeroed (allocated : Option Pointer) : Environment :=
  ⟨allocated, .replicate 4088 0, Block.zero⟩

def Task.Known (datagrams : List (List UInt8)) (task : Task Nat) : Prop :=
  ∃ req, task.data = MinionProxy.processRequest req ∧ (req.type = Kind.read.code ∨
    req.type = Kind.write.code ∧ CompleteWrite datagrams task.origin)

theorem Clean.first (clean : Clean (datagram :: rest)) :
    datagram[8]? = some Kind.read.code ∧ Clean rest ∨ datagram[8]? = some Kind.write.code ∧
      (rest = [] ∨ ∃ block tail, rest = block :: tail ∧ IsWrite datagram block ∧ Clean tail) := by
  cases clean with
  | read type clean => exact .inl ⟨type, clean⟩
  | header type => exact .inr ⟨type, .inl rfl⟩
  | write whole clean => exact .inr ⟨whole.type, .inr ⟨_, _, rfl, whole, clean⟩⟩

namespace Fed
variable {datagrams : List (List UInt8)}

/-- Where the minion stands in clean traffic. Behind the header of a write that
nothing follows it waits for good. -/
inductive Stands (datagrams : List (List UInt8)) (s : Fed Nat) : Prop where
  | between : s.minion.reading = none → s.unread = numbered place (datagrams.drop place) →
      Clean (datagrams.drop place) → Stands datagrams s
  | within (req : Request) : s.minion.reading = some (place, req) → req.type = Kind.write.code →
      CompleteWrite datagrams place →
      s.unread = numbered (place + 1) (datagrams.drop (place + 1)) →
      Clean (datagrams.drop (place + 2)) → Stands datagrams s
  | last : s.minion.reading ≠ none → s.unread = [] → Stands datagrams s

theorem Stands.same {s s' : Fed Nat} (stands : Stands datagrams s)
    (unread : s'.unread = s.unread) (reading : s'.minion.reading = s.minion.reading) :
    Stands datagrams s' := by
  cases stands with
  | between header left clean =>
    exact .between (by rw [reading, header]) (by rw [unread, left]) clean
  | within req awaits type whole left clean =>
    exact .within req (by rw [reading, awaits]) type whole (by rw [unread, left]) clean
  | last awaits left => exact .last (by rwa [reading]) (by rw [unread, left])

theorem Stands.first {s : Fed Nat} (stands : Stands datagrams s) (header : s.minion.reading = none)
    (inbox : s.minion.inbox = (peer, datagram) :: rest) (junk : Request) :
    (MinionProxy.readHeader junk datagram).type = Kind.read.code ∧
        Clean (datagrams.drop (peer + 1)) ∧
        rest ++ s.network = numbered (peer + 1) (datagrams.drop (peer + 1)) ∨
      (MinionProxy.readHeader junk datagram).type = Kind.write.code ∧
        (rest ++ s.network = [] ∨ CompleteWrite datagrams peer ∧
          rest ++ s.network = numbered (peer + 1) (datagrams.drop (peer + 1)) ∧
          Clean (datagrams.drop (peer + 2))) := by
  cases stands with
  | within _ awaits => rw [header] at awaits; cases awaits
  | last awaits => exact absurd header awaits
  | between _ left clean =>
    rw [unread_reads inbox] at left
    obtain ⟨_, here, same, behind, drop⟩ := numbered_eq_cons left.symm
    cases same
    rw [drop] at clean
    rw [MinionProxy.type_readHeader]
    obtain ⟨type, clean⟩ | ⟨type, last | ⟨block, tail, next, whole, clean⟩⟩ := clean.first
    · exact .inl ⟨by rw [type]; rfl, clean, behind⟩
    · rw [last] at behind
      exact .inr ⟨by rw [type]; rfl, .inl behind⟩
    · obtain ⟨after, tail⟩ := drop_eq_cons next
      refine .inr ⟨by rw [type]; rfl, .inr ⟨⟨_, block, here, after, whole⟩, behind, ?_⟩⟩
      rwa [tail]

theorem Stands.step {s s' : Fed Nat} (stands : Stands datagrams s) (step : Step s e s') :
    Stands datagrams s' := by
  cases step with
  | arrives peer datagram network => exact stands.same (unread_arrives network) rfl
  | works works => cases works <;> exact stands.same rfl rfl
  | reads reads =>
    cases reads with
    | header peer req junk _ header inbox received type =>
      subst received
      obtain ⟨_, clean, left⟩ | ⟨write, _⟩ := stands.first header inbox junk
      · exact .between header left clean
      · exact absurd write type
    | headerOfWrite peer req junk _ header inbox received type =>
      subst received
      obtain ⟨read, _⟩ | ⟨_, last | ⟨whole, left, clean⟩⟩ := stands.first header inbox junk
      · rw [read] at type
        exact absurd type (by decide)
      · exact .last (by simp) last
      · exact .within _ rfl type whole left clean
    | block peer origin req datagram _ reading inbox =>
      have unread := unread_reads inbox
      cases stands with
      | between header _ => rw [header] at reading; cases reading
      | last _ left => rw [left] at unread; cases unread
      | within _ _ _ _ left clean =>
        rw [unread] at left
        obtain ⟨_, _, _, behind, _⟩ := numbered_eq_cons left.symm
        exact .between rfl behind clean

theorem Stands.known {s s' : Fed Nat} (stands : Stands datagrams s) (step : Step s e s')
    (known : ∀ task ∈ s.minion.held, task.Known datagrams) :
    ∀ task ∈ s'.minion.held, task.Known datagrams := by
  intro task held
  cases step with
  | arrives => exact known task held
  | works works => exact known task (Minion.held_of_works works held)
  | reads reads =>
    cases reads with
    | header peer req junk _ header inbox received type =>
      obtain held | rfl := Minion.held_queue (m := s.minion) held rfl rfl
      · exact known task held
      · subst received
        obtain ⟨read, _⟩ | ⟨write, _⟩ := stands.first header inbox junk
        · exact ⟨_, rfl, .inl read⟩
        · exact absurd write type
    | headerOfWrite => exact known task held
    | block peer origin req datagram _ reading inbox =>
      obtain held | rfl := Minion.held_queue (m := s.minion) held rfl rfl
      · exact known task held
      · have unread := unread_reads inbox
        cases stands with
        | between header _ => rw [header] at reading; cases reading
        | last _ left => rw [left] at unread; cases unread
        | within _ awaits write whole =>
          rw [awaits] at reading
          cases reading
          exact ⟨_, rfl, .inr ⟨write, whole⟩⟩

theorem running_of_step {s s' : Fed Nat} (alive : s.minion.running = true)
    (known : ∀ task ∈ s.minion.held, task.Known datagrams) (step : Under Supplied Step s e s') :
    s'.minion.running = true := by
  obtain ⟨step, supplied⟩ := step
  cases step with
  | arrives => exact alive
  | reads reads => cases reads <;> exact alive
  | works works =>
    cases works with
    | pop | execute | send => exact alive
    | crash =>
      obtain ⟨task, popped, env, stored, exception, memory, thrown⟩ := supplied
      obtain ⟨req, data, kind⟩ := known task (Minion.mem_held.mpr (.inl popped))
      obtain ⟨_, _, performed⟩ :=
        performTask_known (kind.imp id And.left) env memory s.minion.storage
      rw [data, performed] at thrown
      cases thrown

theorem execute_of_map_ne {s s' : Fed Nat}
    (known : ∀ task ∈ s.minion.held, task.Known datagrams) (step : Step s e s')
    (changed : s'.minion.storage.map ≠ s.minion.storage.map) :
    ∃ task, e = .execute task ∧ CompleteWrite datagrams task.origin := by
  cases step with
  | arrives => exact absurd rfl changed
  | reads reads => cases reads <;> exact absurd rfl changed
  | works works =>
    cases works with
    | pop | send => exact absurd rfl changed
    | execute before after task rep env _ popped _ performed =>
      obtain ⟨req, data, read | ⟨_, whole⟩⟩ := known task (by simp [Minion.mem_held, popped])
      · rw [data, MinionProxy.processRequest_read read, performTask_load] at performed
        cases performed
        exact absurd rfl changed
      · exact ⟨task, rfl, whole⟩
    | crash before after task env _ popped _ performed =>
      obtain ⟨req, data, _⟩ := known task (by simp [Minion.mem_held, popped])
      rw [data] at performed
      exact absurd (performTask_error performed) changed

/-! ### Traffic that is not clean -/

theorem Waits.crashes {s : Fed Nat} (waits : s.Waits)
    (network : s.network = (peer, datagram) :: rest) (junk : Request)
    (read : (MinionProxy.readHeader junk datagram).type ≠ Kind.read.code)
    (write : (MinionProxy.readHeader junk datagram).type ≠ Kind.write.code) :
    ∃ tr t, Run (Under Supplied Step) s tr t ∧ t.minion.running = false := by
  obtain ⟨t, run, ready, _, _, tasks⟩ := waits.takes junk network write
  obtain ⟨u, step, ready, _, _, popped⟩ := ready.pops tasks
  have thrown := performTask_unknown read write
  have taken : ⟨peer, MinionProxy.processRequest (MinionProxy.readHeader junk datagram)⟩ ∈
      u.minion.popped := by
    rw [popped]
    exact List.mem_concat_self
  have supplied : Supplied u .crash :=
    ⟨_, taken, .zeroed (some 0), _, _, Option.some_ne_none 0, thrown _ u.minion.storage⟩
  have crash : Minion.Works u.minion .crash _ :=
    .crash t.minion.popped [] _ (.zeroed none) ready.alive popped
      (StorageManager.allocates_none _ _) (thrown _ _)
  have run : Run (Under Supplied Step) s _ u :=
    (run.trans (.single step)).under (by simp [Supplied])
  exact ⟨_, _, run.trans (.single ⟨.works crash, supplied⟩), rfl⟩

theorem Waits.changes {s : Fed Nat} (waits : s.Waits)
    (network : s.network = (peer, datagram) :: (peer', datagram') :: rest) (junk : Request)
    (write : (MinionProxy.readHeader junk datagram).type = Kind.write.code)
    (storage : s.minion.storage = .empty) :
    ∃ tr u data v, Run (Under Supplied Step) s tr u ∧ u.Waits ∧ u.network = rest ∧
      u.minion.storage = .empty ∧ Step u (.execute ⟨peer, data⟩) v ∧
      v.minion.storage.map ≠ u.minion.storage.map := by
  obtain ⟨t, w, run, block, _, _, ready, network, same, tasks⟩ :=
    waits.takes_write junk network write
  obtain ⟨u, pop, ready, network', same', popped⟩ := ready.pops tasks
  rw [network] at network'
  rw [same, storage] at same'
  let env : Environment := .zeroed (some 0)
  have fresh (key : UInt64) : u.minion.storage.Allocates key env.allocated := by
    rw [same']
    exact fun _ _ => rfl
  let req := MinionProxy.readBlock (MinionProxy.readHeader junk datagram) datagram'
  have type : req.type = Kind.write.code := write
  have executed : Step u (.execute ⟨peer, MinionProxy.processRequest req⟩) _ :=
    .works (Minion.works_write w.minion.popped [] env ready.alive type popped rfl (fresh _))
  refine ⟨_, u, _, _, (run.trans (.next block (.single pop))).under (by simp [Supplied]), ready,
    network', same', executed, ?_⟩
  rw [same', StorageManager.store_map]
  intro unchanged
  have entry := congrFun unchanged req.offset
  rw [Function.update_self] at entry
  cases entry

/-- An unset type is whatever was in the local, and that is no command here. -/
theorem type_readHeader_ne (kind : Kind) (unlike : header[8]? ≠ some kind.code) :
    (MinionProxy.readHeader (.new 0 0 0 none) header).type ≠ kind.code := by
  rw [MinionProxy.type_readHeader]
  cases byte : header[8]? with
  | none =>
    cases kind with
    | read | write => decide
  | some value =>
    intro same
    apply unlike
    rw [byte, ← same]
    rfl

/-- Until a worker is done with anything, each datagram has to be clean. -/
theorem clean_of_survives (left : Nat) {s : Fed Nat} (waits : s.Waits)
    (size : (datagrams.drop place).length ≤ left)
    (network : s.network = numbered place (datagrams.drop place))
    (storage : s.minion.storage = .empty)
    (alive : ∀ tr t, Run (Under Supplied Step) s tr t → t.minion.running = true)
    (unchanged : ∀ tr t e u, Run (Under Supplied Step) s tr t → Step t e u →
      u.minion.storage.map ≠ t.minion.storage.map →
      ∃ task, e = .execute task ∧ CompleteWrite datagrams task.origin) :
    Clean (datagrams.drop place) := by
  induction left generalizing s place with
  | zero =>
    rw [List.length_eq_zero_iff.mp (Nat.le_zero.mp size)]
    exact .nil
  | succ left ih =>
    -- what is asked of every run holds of those that go on from a later state
    have next {place : Nat} {u : Fed Nat} (tr : List (MinionEvent Nat))
        (run : Run (Under Supplied Step) s tr u) (waits : u.Waits)
        (size : (datagrams.drop place).length ≤ left)
        (network : u.network = numbered place (datagrams.drop place))
        (storage : u.minion.storage = .empty) : Clean (datagrams.drop place) := by
      apply ih waits size network storage
      · exact fun tr u later => alive _ _ (run.trans later)
      · exact fun tr u e v later => unchanged _ _ _ _ (run.trans later)
    match remains : datagrams.drop place with
    | [] => exact .nil
    | header :: rest =>
      obtain ⟨here, behind⟩ := drop_eq_cons remains
      rw [remains] at size network
      rw [numbered] at network
      have type (junk : Request) := MinionProxy.type_readHeader junk header
      by_cases write : header[8]? = some Kind.write.code
      · match rest with
        | [] => exact .header write
        | block :: rest =>
          obtain ⟨after, tail⟩ := drop_eq_cons behind
          have write' : (MinionProxy.readHeader default header).type = Kind.write.code := by
            rw [type, write, Option.getD_some]
          rw [numbered] at network
          obtain ⟨tr, u, data, v, run, waits, network, storage, executed, changed⟩ :=
            waits.changes network default write' storage
          obtain ⟨task, same, _, _, header', block', whole⟩ :=
            unchanged _ _ _ _ run executed changed
          cases same
          rw [here] at header'
          rw [after] at block'
          cases header'
          cases block'
          apply Clean.write whole
          rw [← tail] at network size ⊢
          refine next _ run waits ?_ network storage
          simp only [List.length_cons] at size
          omega
      · by_cases read : header[8]? = some Kind.read.code
        · obtain ⟨t, run, waits, network, same, _⟩ := waits.takes default network
            (by rw [type, read]; decide)
          have run : Run (Under Supplied Step) s _ t := run.under (by simp [Supplied])
          apply Clean.read read
          rw [← behind] at network size ⊢
          refine next _ run waits ?_ network (by rw [same, storage])
          simp only [List.length_cons] at size
          omega
        · obtain ⟨tr, t, run, dead⟩ := waits.crashes network (.new 0 0 0 none)
            (type_readHeader_ne .read read) (type_readHeader_ne .write write)
          rw [alive tr t run] at dead
          cases dead

end Fed

open Fed in
/-- Given memory, the minion survives a sequence of datagrams, and keeps its map
from what is no complete write, exactly when the sequence is clean. -/
theorem survives_iff (datagrams : List (List UInt8)) : Survives datagrams ↔ Clean datagrams := by
  constructor
  · intro survives
    have whole : Clean (datagrams.drop 0) := clean_of_survives datagrams.length
      (waits_start (numbered 0 datagrams) 0 .empty) le_rfl rfl rfl (survives.alive 0)
      (survives.unchanged 0)
    rwa [List.drop_zero] at whole
  · intro clean
    have kept {addr tr s} (run : Run (Under Supplied Fed.Step)
        (start (numbered 0 datagrams) addr .empty) tr s) : s.minion.running = true ∧
        Stands datagrams s ∧ ∀ task ∈ s.minion.held, task.Known datagrams := by
      apply run.invariant
      · intro s e t ⟨alive, stands, known⟩ step
        exact ⟨running_of_step alive known step, stands.step step.1, stands.known step.1 known⟩
      · exact ⟨rfl, .between rfl rfl clean, by simp [start, Minion.idle, Minion.held]⟩
    exact ⟨fun addr tr s run => (kept run).1,
      fun addr tr s e s' run step changed => execute_of_map_ne (kept run).2.2 step changed⟩

/-- Seventeen zeros are a whole header, of a type without a command. -/
theorem survives_fails : ¬ Survives [List.replicate 17 0] := by
  intro survives
  have type : (MinionProxy.readHeader default (List.replicate 17 0)).type = 0 := by
    rw [MinionProxy.type_readHeader]
    rfl
  obtain ⟨tr, s, run, dead⟩ :=
    (Fed.waits_start (numbered 0 [List.replicate 17 0]) 0 .empty).crashes rfl default
      (by rw [type]; decide) (by rw [type]; decide)
  rw [survives.alive 0 tr s run] at dead
  cases dead

end DistributedDisk
