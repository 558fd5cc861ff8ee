import DistributedDisk.Commands.Requests
import DistributedDisk.ThreadPool.Reaping

/-! The master at work: the thread pool with the commands that its workers run. Each
command of the pool is run by one worker, once. -/
namespace DistributedDisk
open Packed Reactive Transition Counting

/-- The task with the number `serial` is the `CmdFactoryTask` of `cmds[serial]`; `commands`
has what a worker is running. -/
structure MasterPool where
  pool : ThreadPool
  cmds : List CmdData
  commands : Nat → Option Running

namespace MasterPool

inductive Event where
  | adds (data : CmdData)
  | pool (e : ThreadPool.Event)
  | begins (id serial : Nat)
  | command (serial : Nat) (e : CmdEvent)
  | finishes (id serial : Nat)

/-- The steps of the pool that neither add, begin nor finish a task of the user. -/
def Silent : ThreadPool.Event → Prop
  | .acts (.addUser _) | .worker _ (.begins (.user _)) | .worker _ (.finishes _) => False
  | _ => True

def start (threadCount : Nat) : MasterPool where
  pool := .start threadCount
  cmds := []
  commands := fun _ => none

/-- `adds` is the `Add` of `ReactorHandler`, `begins` the start of `CmdFactoryTask::Do`,
whose locals have any content; `finishes` is its return. -/
inductive Step (master : Master) (s : MasterPool) : Event → MasterPool → Prop where
  | adds (data : CmdData) : ThreadPool.Owns s.pool (.acts (.addUser .normal)) after →
      Step master s (.adds data) { s with pool := after, cmds := s.cmds ++ [data] }
  | pool : ThreadPool.Step s.pool e after → Silent e →
      Step master s (.pool e) { s with pool := after }
  | begins (i serial : Nat) (locals : Locals) :
      ThreadPool.Works s.pool i (.begins (.user serial)) after →
      s.cmds[serial]?.map (spawn master locals) = some (.ok r) →
      Step master s (.begins i serial)
        { s with pool := after, commands := Function.update s.commands i (some r) }
  | command (i : Nat) : s.pool.workers i = .running serial → s.commands i = some r →
      Reactive.Step Running.next r e r' →
      Step master s (.command serial e)
        { s with commands := Function.update s.commands i (some r') }
  | finishes (i serial : Nat) : ThreadPool.Works s.pool i (.finishes serial) after →
      s.commands i = some r → r.Returned →
      Step master s (.finishes i serial)
        { s with pool := after, commands := Function.update s.commands i none }

def Event.performs : Event → Option (Nat × CmdEvent)
  | .command serial e => some (serial, e)
  | _ => none

/-- What the commands do, each with the number of its task. -/
def performed (tr : List Event) : List (Nat × CmdEvent) := tr.filterMap Event.performs

@[simp] theorem performed_append (tr : List Event) (e : Event) :
    performed (tr ++ [e]) = performed tr ++ e.performs.toList := filterMap_concat ..

end MasterPool

/-! ### The places of a task -/

namespace ThreadPool
variable {s s' : ThreadPool}

/-- A task that a worker holds is nowhere else. -/
theorem Placed.alone (placed : Placed s) (tracked : Tracked s)
    (here : (s.workers i).holds serial = true) :
    serial < s.added ∧ serial ∉ s.done ∧ ∀ j, (s.workers j).holds serial = true → j = i := by
  have within {j : Nat} (held : (s.workers j).holds serial = true) :
      j ∈ Finset.range s.created := by
    apply tracked.within
    intro unborn
    rw [unborn] at held
    cases held
  have counted : 0 < tally (.range s.created) (Worker.holds serial) s.workers :=
    tally_pos (within here) here
  have one := placed serial
  rw [places] at one
  have added : serial < s.added := by
    by_contra late
    rw [if_neg late] at one
    omega
  rw [if_pos added] at one
  refine ⟨added, fun done => ?_, fun j held => ?_⟩
  · have pos := List.count_pos_iff.mpr done
    omega
  · exact eq_of_tally_le_one (by omega) ⟨within held, held⟩ ⟨within here, here⟩

/-- No busy worker is interrupted, so a silent step leaves the running tasks as they are. -/
theorem Sound.silent (sound : Sound s) (step : Step s e s') (silent : MasterPool.Silent e) :
    s'.done = s.done ∧ ∀ i serial, s'.workers i = .running serial ↔ s.workers i = .running serial := by
  have moves (i : Nat) (worker : Worker) (before : ∀ serial, s.workers i ≠ .running serial)
      (after : ∀ serial, worker ≠ .running serial) (j serial : Nat) :
      Function.update s.workers i worker j = .running serial ↔ s.workers j = .running serial := by
    by_cases same : j = i
    · subst same
      rw [Function.update_self]
      exact iff_of_false (after serial) (before serial)
    · rw [Function.update_of_ne same]
  cases step with
  | owner owns =>
    cases owns with
    | addUser => exact silent.elim
    | calls | returns | addCritical | setFlag | size | insert => exact ⟨rfl, fun _ _ => Iff.rfl⟩
    | notifyAll => exact ⟨rfl, fun _ serial => notified_eq_iff (.running serial) nofun nofun⟩
    | create =>
      have unborn := (sound.tracked.born s.created).mpr le_rfl
      exact ⟨rfl, moves _ _ (fun _ => by rw [unborn]; nofun) nofun⟩
  | worker i works =>
    cases works with
    | pops _ _ _ here | peels _ here | leaves here | pushes here =>
      exact ⟨rfl, moves i _ (fun _ => by rw [here]; nofun) nofun⟩
    | @begins task here =>
      cases task with
      | user => exact silent.elim
      | sleepingPeel | poisonApple =>
        exact ⟨rfl, moves i _ (fun _ => by rw [here]; nofun) nofun⟩
    | finishes => exact silent.elim
    | dies interrupted here =>
      refine ⟨rfl, moves i _ (fun serial running => ?_) nofun⟩
      have alive : s.workers i ≠ .ended := by rw [running]; nofun
      cases running.symm.trans (sound.doomed.dying interrupted alive).1
  | reaper reaps => cases reaps <;> exact ⟨rfl, fun _ _ => Iff.rfl⟩

theorem Owns.addUser_keeps (owns : Owns s (.acts (.addUser priority)) s') :
    s'.workers = s.workers ∧ s'.done = s.done ∧ s'.added = s.added + 1 := by
  cases owns with
  | addUser => exact ⟨rfl, rfl, rfl⟩

theorem Works.of_begins (works : Works s i (.begins task) s') : s.workers i = .popped task ∧
    s'.workers = Function.update s.workers i task.entry ∧ s'.done = s.done := by
  cases works with
  | begins here => exact ⟨here, rfl, rfl⟩

theorem Works.of_finishes (works : Works s i (.finishes serial) s') :
    s.workers i = .running serial ∧ s'.workers = Function.update s.workers i .popping ∧
      s'.done = s.done ++ [serial] := by
  cases works with
  | finishes here => exact ⟨here, rfl, rfl⟩

end ThreadPool

namespace MasterPool
variable {master : Master} {s t : MasterPool} {tr : List Event} {σ τ : Nat → Running}

/-- A worker is in the task, or has done it. -/
def Begun (s : MasterPool) (serial : Nat) : Prop :=
  serial ∈ s.pool.done ∨ ∃ i, s.pool.workers i = .running serial

/-- The commands of the pool are a run of commands that are each started once: from what
their task made of the data, and as far as their worker has come. -/
structure Follows (master : Master) (tr : List Event) (s : MasterPool) (σ τ : Nat → Running) :
    Prop where
  run : Run (Interleave (Reactive.Step Running.next)) σ (performed tr) τ
  current : ∀ i serial, s.pool.workers i = .running serial → s.commands i = some (τ serial)
  spawned : ∀ serial, s.Begun serial →
    ∃ locals, s.cmds[serial]?.map (spawn master locals) = some (.ok (σ serial))
  waiting : ∀ serial, ¬ s.Begun serial → own serial (performed tr) = []
  returned : ∀ serial ∈ s.pool.done, (τ serial).Returned

/-- A step that performs nothing, and leaves the tasks as they are. -/
theorem Follows.keep (follows : Follows master tr s σ τ) (quiet : e.performs = none)
    (done : t.pool.done = s.pool.done)
    (running : ∀ i serial,
      t.pool.workers i = .running serial ↔ s.pool.workers i = .running serial)
    (commands : t.commands = s.commands) (cmds : s.cmds <+: t.cmds) :
    Follows master (tr ++ [e]) t σ τ := by
  have same : performed (tr ++ [e]) = performed tr := by
    rw [performed_append, quiet]
    exact List.append_nil _
  have begun (serial : Nat) : t.Begun serial ↔ s.Begun serial := by
    simp only [Begun, done, running]
  refine ⟨same ▸ follows.run, fun i serial here => ?_, fun serial here => ?_,
    fun serial here => ?_, done ▸ follows.returned⟩
  · rw [commands]
    exact follows.current i serial ((running i serial).mp here)
  · obtain ⟨locals, made⟩ := follows.spawned serial ((begun serial).mp here)
    refine ⟨locals, ?_⟩
    obtain ⟨data, found, created⟩ := Option.map_eq_some_iff.mp made
    obtain ⟨more, whole⟩ := cmds
    rw [← whole, List.getElem?_append_left (List.getElem?_eq_some_iff.mp found).1, found]
    exact congrArg some created
  · rw [same]
    exact follows.waiting serial (mt (begun serial).mpr here)

/-- A worker begins a task that nobody has begun before. -/
theorem Follows.begins (follows : Follows master tr s σ τ) (fresh : ¬ s.Begun serial)
    (popped : s.pool.workers i = .popped (.user serial))
    (workers : after.workers = Function.update s.pool.workers i (.running serial))
    (done : after.done = s.pool.done)
    (made : s.cmds[serial]?.map (spawn master locals) = some (.ok r)) :
    Follows master (tr ++ [.begins i serial])
      { s with pool := after, commands := Function.update s.commands i (some r) }
      (Function.update σ serial r) (Function.update τ serial r) := by
  have same : performed (tr ++ [.begins i serial]) = performed tr := by
    rw [performed_append]
    exact List.append_nil _
  have begun {other : Nat}
      (here : Begun { s with pool := after, commands := Function.update s.commands i (some r) }
        other) : other = serial ∨ s.Begun other := by
    obtain old | ⟨j, running⟩ := here
    · exact .inr (.inl (done ▸ old))
    · simp only [workers] at running
      by_cases moved : j = i
      · subst moved
        rw [Function.update_self] at running
        exact .inl (ThreadPool.Worker.running.inj running).symm
      · rw [Function.update_of_ne moved] at running
        exact .inr (.inr ⟨j, running⟩)
  refine ⟨?_, fun j other here => ?_, fun other here => ?_, fun other here => ?_,
    fun other finished => ?_⟩
  · rw [same]
    exact follows.run.replace serial (follows.waiting serial fresh) r
  · simp only [workers] at here
    by_cases moved : j = i
    · subst moved
      rw [Function.update_self] at here
      cases here
      simp only [Function.update_self]
    · rw [Function.update_of_ne moved] at here
      have apart : other ≠ serial := by
        rintro rfl
        exact fresh (.inr ⟨j, here⟩)
      simp only [Function.update_of_ne moved, Function.update_of_ne apart]
      exact follows.current j other here
  · by_cases apart : other = serial
    · subst apart
      rw [Function.update_self]
      exact ⟨_, made⟩
    · rw [Function.update_of_ne apart]
      exact follows.spawned other ((begun here).resolve_left apart)
  · rw [same]
    refine follows.waiting other fun old => here ?_
    obtain finished | ⟨j, running⟩ := old
    · exact .inl (done.symm ▸ finished)
    · by_cases moved : j = i
      · rw [moved, popped] at running
        cases running
      · exact .inr ⟨j, by simp only [workers, Function.update_of_ne moved, running]⟩
  · have apart : other ≠ serial := by
      rintro rfl
      exact fresh (.inl (done ▸ finished))
    rw [Function.update_of_ne apart]
    exact follows.returned other (done ▸ finished)

/-- A command moves, which is run by one worker only. -/
theorem Follows.command (follows : Follows master tr s σ τ)
    (running : s.pool.workers i = .running serial)
    (alone : ∀ j, s.pool.workers j = .running serial → j = i) (fresh : serial ∉ s.pool.done)
    (here : s.commands i = some r) (step : Reactive.Step Running.next r e r') :
    Follows master (tr ++ [.command serial e])
      { s with commands := Function.update s.commands i (some r') } σ
      (Function.update τ serial r') := by
  have more : performed (tr ++ [.command serial e]) = performed tr ++ [(serial, e)] := by
    rw [performed_append]
    rfl
  have at_point : τ serial = r := by
    have both := (follows.current i serial running).symm.trans here
    exact Option.some.inj both
  refine ⟨?_, fun j other there => ?_, follows.spawned, fun other waits => ?_,
    fun other finished => ?_⟩
  · rw [more]
    exact follows.run.trans (.single ⟨by simpa only [Function.update_self, at_point] using step,
      fun j apart => Function.update_of_ne apart ..⟩)
  · by_cases moved : j = i
    · subst moved
      cases running.symm.trans there
      simp only [Function.update_self]
    · have apart : other ≠ serial := by
        rintro rfl
        exact moved (alone j there)
      simp only [Function.update_of_ne moved, Function.update_of_ne apart]
      exact follows.current j other there
  · have apart : serial ≠ other := by
      rintro rfl
      exact waits (.inr ⟨i, running⟩)
    rw [more, own_append, own_cons_ne apart]
    exact (List.append_nil _).trans (follows.waiting other waits)
  · have apart : other ≠ serial := by
      rintro rfl
      exact fresh finished
    rw [Function.update_of_ne apart]
    exact follows.returned other finished

theorem Follows.finishes (follows : Follows master tr s σ τ)
    (running : s.pool.workers i = .running serial) (here : s.commands i = some r)
    (returned : r.Returned) (workers : after.workers = Function.update s.pool.workers i .popping)
    (done : after.done = s.pool.done ++ [serial]) :
    Follows master (tr ++ [.finishes i serial])
      { s with pool := after, commands := Function.update s.commands i none } σ τ := by
  have same : performed (tr ++ [.finishes i serial]) = performed tr := by
    rw [performed_append]
    exact List.append_nil _
  have still {j other : Nat} (there : after.workers j = .running other) :
      j ≠ i ∧ s.pool.workers j = .running other := by
    rw [workers] at there
    by_cases moved : j = i
    · subst moved
      rw [Function.update_self] at there
      cases there
    · rw [Function.update_of_ne moved] at there
      exact ⟨moved, there⟩
  refine ⟨same ▸ follows.run, fun j other there => ?_, fun other begun => ?_,
    fun other waits => ?_, fun other finished => ?_⟩
  · obtain ⟨moved, before⟩ := still there
    simp only [Function.update_of_ne moved]
    exact follows.current j other before
  · apply follows.spawned
    obtain finished | ⟨j, there⟩ := begun
    · rw [done] at finished
      obtain old | new := List.mem_append.mp finished
      · exact .inl old
      · exact .inr ⟨i, List.mem_singleton.mp new ▸ running⟩
    · exact .inr ⟨j, (still there).2⟩
  · rw [same]
    refine follows.waiting other fun old => waits ?_
    obtain finished | ⟨j, there⟩ := old
    · exact .inl (by rw [done]; exact List.mem_append_left _ finished)
    · by_cases moved : j = i
      · subst moved
        cases running.symm.trans there
        exact .inl (by rw [done]; exact List.mem_append_right _ List.mem_cons_self)
      · exact .inr ⟨j, by rw [workers, Function.update_of_ne moved, there]⟩
  · rw [done] at finished
    obtain old | new := List.mem_append.mp finished
    · exact follows.returned other old
    · cases List.mem_singleton.mp new
      have point := Option.some.inj ((follows.current i serial running).symm.trans here)
      rwa [point]

/-- The invariants of the pool, and that each of its tasks has data. -/
structure Proper (s : MasterPool) : Prop where
  sound : s.pool.Sound
  placed : s.pool.Placed
  data : s.cmds.length = s.pool.added

theorem silent_added {p p' : ThreadPool} (step : ThreadPool.Step p e p') (silent : Silent e) :
    p'.added = p.added := by
  cases step with
  | owner owns =>
    cases owns with
    | addUser => exact silent.elim
    | calls | returns | addCritical | setFlag | notifyAll | size | create | insert => rfl
  | worker _ works => exact works.frame.added
  | reaper reaps => cases reaps <;> rfl

theorem Proper.step (proper : Proper s) (step : Step master s e t) : Proper t := by
  obtain ⟨sound, placed, data⟩ := proper
  have moves {e : ThreadPool.Event} {after : ThreadPool} (step : ThreadPool.Step s.pool e after)
      (cmds : List CmdData) (commands : Nat → Option Running) (same : cmds.length = after.added) :
      Proper ⟨after, cmds, commands⟩ := ⟨sound.step step, placed.step sound step, same⟩
  cases step with
  | adds cmd owns =>
    refine moves (.owner owns) _ _ ?_
    rw [owns.addUser_keeps.2.2, List.length_append, data]
    rfl
  | pool step silent => exact moves step _ _ (data.trans (silent_added step silent).symm)
  | begins i _ _ works => exact moves (.worker i works) _ _ (data.trans works.frame.added.symm)
  | command => exact ⟨sound, placed, data⟩
  | finishes i _ works => exact moves (.worker i works) _ _ (data.trans works.frame.added.symm)

theorem Follows.step (follows : Follows master tr s σ τ) (proper : Proper s)
    (step : Step master s e t) : ∃ σ' τ', Follows master (tr ++ [e]) t σ' τ' := by
  have alone (i serial : Nat) (here : (s.pool.workers i).holds serial = true) :=
    proper.placed.alone proper.sound.tracked here
  cases step with
  | adds cmd owns =>
    obtain ⟨workers, done, _⟩ := owns.addUser_keeps
    exact ⟨σ, τ, follows.keep rfl done (fun i serial => by simp only [workers]) rfl
      (List.prefix_append ..)⟩
  | pool step silent =>
    obtain ⟨done, running⟩ := proper.sound.silent step silent
    exact ⟨σ, τ, follows.keep rfl done running rfl List.prefix_rfl⟩
  | begins i serial locals works made =>
    obtain ⟨popped, workers, done⟩ := works.of_begins
    obtain ⟨_, unfinished, only⟩ := alone i serial (by simp [popped, ThreadPool.Worker.holds])
    have fresh : ¬ s.Begun serial := by
      rintro (finished | ⟨j, running⟩)
      · exact unfinished finished
      · obtain rfl := only j (by simp [running, ThreadPool.Worker.holds])
        cases popped.symm.trans running
    exact ⟨_, _, follows.begins fresh popped workers done made⟩
  | @command serial _ _ _ i running here step =>
    obtain ⟨_, unfinished, only⟩ := alone i serial (by simp [running, ThreadPool.Worker.holds])
    refine ⟨_, _, follows.command running (fun j there => only j ?_) unfinished here step⟩
    simp [there, ThreadPool.Worker.holds]
  | finishes i serial works here returned =>
    obtain ⟨running, workers, done⟩ := works.of_finishes
    exact ⟨_, _, follows.finishes running here returned workers done⟩

/-- However the pool is resized, paused and run, its workers together run each command once,
from its start. -/
theorem commands_follow (master : Master) (threadCount : Nat)
    (run : Run (Step master) (start threadCount) tr s) :
    Proper s ∧ ∃ σ τ, Follows master tr s σ τ := by
  apply run.history (P := fun tr s => Proper s ∧ ∃ σ τ, Follows master tr s σ τ)
  · refine ⟨⟨ThreadPool.sound_start threadCount, ThreadPool.placed_start threadCount, rfl⟩,
      fun _ => .read (ReadCmd.run master 0 []) .returned, _, .refl _, nofun, ?_, fun _ _ => rfl,
      nofun⟩
    rintro serial (finished | ⟨i, running⟩)
    · cases finished
    · cases running
  · intro tr s e t ⟨proper, σ, τ, follows⟩ step
    exact ⟨proper.step step, follows.step proper step⟩

/-- A worker that is left alone with its command. -/
theorem command_run (inner : Run (Reactive.Step Running.next) r events r')
    (running : s.pool.workers i = .running serial) (here : s.commands i = some r) :
    Run (Step master) s (events.map (.command serial))
      { s with commands := Function.update s.commands i (some r') } := by
  induction inner generalizing s with
  | refl r =>
    rw [← here, Function.update_eq_self]
    exact .refl s
  | @next r e r₁ rest r' head _ ih =>
    have tail := ih (s := { s with commands := Function.update s.commands i (some r₁) }) running
      (Function.update_self ..)
    rw [Function.update_idem] at tail
    exact .next (.command i running here head) tail

/-- The owner is in no call, no task waits, and the worker `i` is where it is. -/
structure Ready (i : Nat) (worker : ThreadPool.Worker) (s : MasterPool) : Prop where
  free : s.pool.call = none
  empty : s.pool.tasks = []
  here : s.pool.workers i = worker
  kept : i ∉ s.pool.interrupted
  known : s.cmds.length = s.pool.added

/-- No command moves. -/
def Idle (tr : List Event) : Prop := ∀ e ∈ tr, ∀ serial move, e ≠ .command serial move

/-- A pool that grows to one thread. -/
theorem ready_grown (master : Master) : ∃ tr s, Run (Step master) (start 0) tr s ∧ Idle tr ∧
    Ready 0 .popping s ∧ s.cmds = [] ∧ s.pool.done = [] := by
  refine ⟨_, _, .next (.pool (.owner (.returns _ rfl rfl)) trivial) <|
    .next (.pool (.owner (.calls (.resize 1) rfl trivial)) trivial) <|
    .next (.pool (.owner (.size _ rfl rfl)) trivial) <|
    .next (.pool (.owner (.create rfl rfl)) trivial) <|
    .next (.pool (.owner (.insert 0 rfl)) trivial) <|
    .single (.pool (.owner (.returns _ rfl rfl)) trivial), ?_,
    ⟨rfl, rfl, rfl, Finset.notMem_empty 0, rfl⟩, rfl, rfl⟩
  simp [Idle]

/-- A task is added, and the worker begins it. -/
theorem Ready.begins (ready : Ready i .popping s) (made : spawn master locals data = .ok r) :
    ∃ tr t, Run (Step master) s tr t ∧ Idle tr ∧ Ready i (.running s.cmds.length) t ∧
      t.commands i = some r ∧ t.cmds = s.cmds ++ [data] ∧ t.pool.done = s.pool.done := by
  have found : (s.cmds ++ [data])[s.pool.added]?.map (spawn master locals) = some (.ok r) := by
    rw [← ready.known, List.getElem?_concat_length]
    exact congrArg some made
  have alone : s.pool.tasks ++ [⟨.normal, 7, .user s.pool.added⟩] =
      [] ++ ⟨.normal, 7, .user s.pool.added⟩ :: [] := by rw [ready.empty]
  have greatest : ∀ other ∈ s.pool.tasks ++ [⟨.normal, 7, .user s.pool.added⟩],
      ¬ ThreadPool.Pair.Less ⟨.normal, 7, .user s.pool.added⟩ other := by
    simp [ready.empty, ThreadPool.Pair.Less]
  have allowed : ThreadPool.Call.Allowed (.add .normal) := by simp [ThreadPool.Call.Allowed]
  refine ⟨_, _, .next (.pool (.owner (.calls (.add .normal) ready.free allowed)) trivial) <|
    .next (.adds data (.addUser 7 rfl)) <|
    .next (.pool (.owner (.returns _ rfl rfl)) trivial) <|
    .next (.pool (.worker i (.pops [] [] _ ready.here alone greatest)) trivial) <|
    .single (.begins i s.pool.added locals (.begins (Function.update_self ..) ready.kept) found),
    by simp [Idle], ⟨rfl, rfl, ?_, ready.kept, ?_⟩, Function.update_self .., rfl, rfl⟩
  · rw [ready.known]
    exact Function.update_self ..
  · simp [ready.known]

theorem Ready.finishes (ready : Ready i (.running serial) s) (master : Master)
    (here : s.commands i = some r) (returned : r.Returned) : ∃ t, Step master s (.finishes i serial) t ∧ Ready i .popping t ∧
      t.cmds = s.cmds ∧ t.pool.done = s.pool.done ++ [serial] :=
  ⟨_, .finishes i serial (.finishes ready.here) here returned,
    ⟨ready.free, ready.empty, Function.update_self .., ready.kept, ready.known⟩, rfl, rfl⟩

theorem Ready.command (ready : Ready i worker s) (commands : Nat → Option Running) :
    Ready i worker { s with commands := commands } :=
  ⟨ready.free, ready.empty, ready.here, ready.kept, ready.known⟩

theorem Ready.serves (ready : Ready i .popping s) (made : spawn master locals data = .ok r)
    (inner : Run (Reactive.Step Running.next) r events r') (returned : r'.Returned) :
    ∃ tr t, Run (Step master) s tr t ∧ Ready i .popping t ∧ t.cmds = s.cmds ++ [data] ∧
      t.pool.done = s.pool.done ++ [s.cmds.length] := by
  obtain ⟨tr, t, begins, _, busy, here, cmds, done⟩ := ready.begins made
  have moves : Run (Step master) _ _ _ := command_run inner busy.here here
  obtain ⟨u, finishes, free, same, finished⟩ := (busy.command (Function.update
    t.commands i (some r'))).finishes master (Function.update_self ..) returned
  exact ⟨_, u, begins.trans (moves.trans (.single finishes)), free, same.trans cmds,
    finished.trans (by rw [done])⟩

/-- A READ that its first minion answers, and then a WRITE that both do. -/
theorem both_served : ∃ tr s, Run (Step .configured) (start 0) tr s ∧
    s.cmds = [Incoming.readZero, .writeZero].map (Incoming.cmdData 3) ∧
      s.pool.done = [0, 1] := by
  have answer : (ReadCmd.readZero.firstCall default).Completes _
      (.datagram (Reply.codec.encode ⟨1, 1, Error.none.code, Block.zero⟩)) := .last rfl
  have stored : WriteCmd.writeZero.Completes default _ (.datagram (Reply.header default))
      (.datagram (Reply.header default)) := .both (.last rfl) (.last rfl)
  obtain ⟨tr, s, grown, _, ready, none, fresh⟩ := ready_grown .configured
  have asks : spawn .configured default (Incoming.readZero.cmdData 3) =
      .ok (.read .readZero (ReadCmd.readZero.start default)) := rfl
  have stores : spawn .configured default (Incoming.writeZero.cmdData 3) =
      .ok (.write .writeZero (WriteCmd.writeZero.start default)) := rfl
  obtain ⟨tr₁, t, read, ready, cmds, done⟩ := ready.serves asks
    (Running.run_read (ReadCmd.run_of_completes (.first answer))) rfl
  obtain ⟨tr₂, u, write, _, cmds₂, done₂⟩ := ready.serves stores
    (Running.run_write (WriteCmd.run_of_completes stored)) rfl
  refine ⟨_, u, grown.trans (read.trans write), ?_, ?_⟩
  · rw [cmds₂, cmds, none]
    rfl
  · rw [done₂, done, cmds, none, fresh]
    rfl

end MasterPool

/-! ### The replies -/

/-- What a command has written, by the point it has reached. -/
def Running.Wrote : Running → List (Int32 × List UInt8) → Prop
  | .read cmd (.replyBlock _), calls =>
    calls = [(cmd.args.fd, NbdReply.codec.encode cmd.args.reply)]
  | .read cmd .returned, calls => calls = [] ∨ ∃ block : Block,
    calls = [(cmd.args.fd, NbdReply.codec.encode cmd.args.reply), (cmd.args.fd, block.toList)]
  | .write cmd .returned, calls => calls = [(cmd.args.fd, NbdReply.codec.encode cmd.args.reply)]
  | _, calls => calls = []

theorem Running.Wrote.step (wrote : Wrote r calls) (step : Step next r e r') :
    Wrote r' (calls ++ replies [e]) := by
  cases r with
  | read cmd point =>
    obtain ⟨point', fires, rfl⟩ := Fires.of_map step
    cases point with
    | first call =>
      have moves := Call.moves_of_fires fires
      obtain rfl : calls = [] := wrote
      rw [moves.replies]
      cases moves with
      | sends | retries => rfl
      | returns =>
        unfold ReadCmd.afterFirst
        split <;> rfl
    | second call =>
      have moves := Call.moves_of_fires fires
      obtain rfl : calls = [] := wrote
      rw [moves.replies]
      cases moves with
      | sends | retries => rfl
      | returns =>
        unfold ReadCmd.afterSecond
        split
        · exact .inl rfl
        · rfl
    | replyHeader rep =>
      obtain rfl : calls = [] := wrote
      cases fires
      rfl
    | replyBlock rep =>
      obtain rfl : calls = _ := wrote
      cases fires
      exact .inr ⟨rep.block, rfl⟩
    | returned => cases fires
  | write cmd point =>
    obtain ⟨point', fires, rfl⟩ := Fires.of_map step
    cases point with
    | first call =>
      have moves := Call.moves_of_fires fires
      obtain rfl : calls = [] := wrote
      rw [moves.replies]
      cases moves with
      | sends | retries | returns => rfl
    | second rep1 call =>
      have moves := Call.moves_of_fires fires
      obtain rfl : calls = [] := wrote
      rw [moves.replies]
      cases moves with
      | sends | retries => rfl
      | returns =>
        unfold WriteCmd.afterSecond
        split <;> rfl
    | logError =>
      obtain rfl : calls = [] := wrote
      cases fires
      rfl
    | reply =>
      obtain rfl : calls = [] := wrote
      cases fires
      rfl
    | returned => cases fires

/-- The `Reply` calls of a complete answer: an `nbd_reply` with the handle of the request, and
behind it the block for a READ. -/
def CompleteReply (fd : Int32) (r : Incoming) (calls : List (Int32 × List UInt8)) : Prop :=
  ∃ block : Block, calls = (fd, NbdReply.codec.encode ⟨nbdReplyMagic, 0, r.request.handle⟩) ::
    if r.request.transfer.isRead = true then [(fd, block.toList)] else []

/-- What a request gets: never more than one complete reply; one when its command has
returned, or nothing at all if it is a READ that got no datagram. -/
structure Incoming.Served (fd : Int32) (r : Incoming) (done : Prop) (tr : List CmdEvent) :
    Prop where
  most : ∃ whole, CompleteReply fd r whole ∧ replies tr <+: whole
  done : done → (CompleteReply fd r (replies tr) ∨ replies tr = []) ∧
    (CompleteReply fd r (replies tr) ↔
      (r.request.transfer.isRead = true → ∃ bytes, .datagram bytes ∈ inputs tr))

/-- The command of a request, as far as it has come. -/
theorem Incoming.Started.wrote {r : Incoming} (started : r.Started master fd s)
    (run : Run (Step Running.next) s tr t) : t.command = s.command ∧ t.Wrote (replies tr) := by
  apply run.history (P := fun tr t => t.command = s.command ∧ t.Wrote (replies tr))
  · refine ⟨rfl, ?_⟩
    cases started with
    | read | write => rfl
  · intro tr t e u ⟨same, wrote⟩ step
    rw [replies_append]
    exact ⟨(Running.moves_of_step step).command.trans same, wrote.step step⟩

theorem Incoming.completeReply_read {r : Incoming} (isRead : r.request.transfer.isRead = true) :
    CompleteReply fd r calls ↔ ∃ block : Block, calls =
      [(fd, NbdReply.codec.encode ⟨nbdReplyMagic, 0, r.request.handle⟩), (fd, block.toList)] := by
  simp [CompleteReply, isRead]

theorem Incoming.completeReply_write {r : Incoming} (isWrite : r.request.transfer.isRead = false) :
    CompleteReply fd r calls ↔
      calls = [(fd, NbdReply.codec.encode ⟨nbdReplyMagic, 0, r.request.handle⟩)] := by
  simp [CompleteReply, isWrite, exists_const]

theorem Incoming.Started.served {r : Incoming} (started : r.Started master fd s)
    (run : Run (Step Running.next) s tr t) (returned : done → t.Returned) : r.Served fd done tr := by
  obtain ⟨same, wrote⟩ := started.wrote run
  cases started with
  | @read cmd rep isRead socket reply =>
    constructor
    · simp only [completeReply_read isRead]
      cases t with
      | write => cases same
      | read cmd' point =>
        cases same
        rw [← socket, ← reply]
        cases point with
        | first | second | replyHeader =>
          have nothing : replies tr = [] := wrote
          exact ⟨_, ⟨Block.zero, rfl⟩, nothing ▸ List.nil_prefix⟩
        | replyBlock rep =>
          have one : replies tr = _ := wrote
          exact ⟨_, ⟨Block.zero, rfl⟩, by rw [one]; exact ⟨[_], rfl⟩⟩
        | returned =>
          obtain nothing | ⟨block, both⟩ := wrote
          · exact ⟨_, ⟨Block.zero, rfl⟩, nothing ▸ List.nil_prefix⟩
          · exact ⟨_, ⟨block, rfl⟩, both ▸ List.prefix_rfl⟩
    · intro done
      rw [completeReply_read isRead]
      obtain ⟨nothing, silent⟩ | ⟨bytes, taken, written⟩ :=
        (Running.read_completes run (returned done)).answered
      · refine ⟨.inr nothing, iff_of_false ?_ fun answered => ?_⟩
        · simp [nothing]
        · obtain ⟨bytes, member⟩ := answered isRead
          exact silent bytes member
      · rw [ReadCmd.replies_replies, socket, reply] at written
        exact ⟨.inl ⟨_, written⟩, iff_of_true ⟨_, written⟩ fun _ => ⟨bytes, (taken bytes).mpr rfl⟩⟩
  | @write cmd rep isWrite socket reply =>
    constructor
    · simp only [completeReply_write isWrite, exists_eq_left]
      cases t with
      | read => cases same
      | write cmd' point =>
        cases same
        rw [← socket, ← reply]
        cases point with
        | first | second | logError | reply =>
          have nothing : replies tr = [] := wrote
          exact nothing ▸ List.nil_prefix
        | returned =>
          have one : replies tr = _ := wrote
          exact one ▸ List.prefix_rfl
    · intro done
      obtain ⟨r₁, r₂, complete⟩ := Running.write_completes run (returned done)
      have written := complete.replies
      rw [socket, reply] at written
      rw [completeReply_write isWrite]
      refine ⟨.inl written, iff_of_true written fun isRead => ?_⟩
      rw [isWrite] at isRead
      cases isRead

open MasterPool in
/-- From the stream of the kernel to the replies, whatever the pool is made to do: each
request is in one place, and is served once. -/
theorem requests_served (master : Master) (threadCount : Nat) (fd : Int32)
    (requests : List Incoming) (run : Run (MasterPool.Step master) (start threadCount) tr s)
    (parsed : NbdProxy.parseAll fd (requests.map fun r => (r.junk, r.junkArgs))
      (requests.flatMap Incoming.stream) = .ok s.cmds) (i : Fin requests.length) :
    s.pool.places i = 1 ∧
      (requests.get i).Served fd (i.val ∈ s.pool.done) (own i.val (performed tr)) := by
  obtain ⟨proper, σ, τ, follows⟩ := commands_follow master threadCount run
  have cmds : requests.map (Incoming.cmdData fd) = s.cmds := by
    rw [Incoming.parseAll_requests] at parsed
    exact Except.ok.inj parsed
  have added : i.val < s.pool.added := by
    rw [← proper.data, ← cmds, List.length_map]
    exact i.isLt
  refine ⟨by rw [proper.placed, if_pos added], ?_⟩
  by_cases begun : s.Begun i
  · obtain ⟨locals, made⟩ := follows.spawned i begun
    rw [← cmds, List.getElem?_map, List.getElem?_eq_getElem i.isLt] at made
    have started : (requests.get i).Started master fd (σ i) :=
      Incoming.started_of_spawn (Option.some.inj made)
    exact started.served (follows.run.project i.val) (follows.returned i)
  · have nothing := follows.waiting i begun
    rw [nothing]
    exact ⟨⟨_, ⟨Block.zero, rfl⟩, List.nil_prefix⟩, fun done => absurd (.inl done) begun⟩

open MasterPool in
theorem requests_served_both : ∃ tr s, Run (MasterPool.Step .configured) (start 0) tr s ∧
    s.pool.done = [0, 1] ∧ Incoming.readZero.Served 3 (0 ∈ s.pool.done) (own 0 (performed tr)) ∧
      Incoming.writeZero.Served 3 (1 ∈ s.pool.done) (own 1 (performed tr)) := by
  obtain ⟨tr, s, run, cmds, done⟩ := both_served
  have parsed := Incoming.parseAll_requests 3 [Incoming.readZero, .writeZero]
  have served := requests_served .configured 0 3 [Incoming.readZero, .writeZero] run
    (cmds ▸ parsed)
  exact ⟨tr, s, run, done, (served 0).2, (served 1).2⟩

end DistributedDisk
