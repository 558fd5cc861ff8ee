import DistributedDisk.ThreadPool.Reaping

/-! `ThreadPool::Stop`: the thread that calls it against the workers and the reaper, while
other threads go on to add tasks. -/
namespace DistributedDisk
open Transition Counting

namespace ThreadPool

/-- What `Stop` does next when it has stored `STOP`, with what is left of its loops. -/
inductive StopPoint where
  | interruptReaper
  | joinReaper
  | interrupt (left : List Nat)
  | join (left : List Nat)
  | returned
  deriving DecidableEq

/-- How the `Do` of a task of the user may end: it returns, or it comes to an interruption
point and throws. -/
structure Conduct where
  returns : Nat → Prop
  interruptible : Nat → Prop

/-- Tasks that return, and have no interruption point. -/
def Conduct.plain : Conduct := ⟨fun _ => True, fun _ => False⟩

namespace Stopping

inductive Event where
  | adds (priority : Priority)
  | stop
  | worker (id : Nat) (move : Move)
  | reaper
  | reaperEnds

end Stopping

/-- `interruptRequested` and `reaperEnded` are about the reaper. `dropped` lists the tasks
that an interrupted worker had popped and not begun, `cut` those it was in. -/
structure Stopping where
  pool : ThreadPool
  point : StopPoint
  interruptRequested : Bool
  reaperEnded : Bool
  dropped : List Nat
  cut : List Nat

/-- The task that is lost when a worker ends between `Pop` and `Do`. -/
def Worker.drops : Worker → List Nat
  | .popped (.user serial) => [serial]
  | _ => []

/-- The task that is lost when a worker ends inside `Do`. -/
def Worker.cuts : Worker → List Nat
  | .running serial => [serial]
  | _ => []

namespace Stopping

/-- `Stop` has stored `STOP`. `SleepingPeel::Do` asks only whether `m_flag` is `PAUSE`, so
`run` stands for any other value. -/
def enter (s : ThreadPool) : Stopping where
  pool := { s with flag := .run }
  point := .interruptReaper
  interruptRequested := false
  reaperEnded := false
  dropped := []
  cut := []

/-- The calling thread. The iterators of the two loops pass over `m_threads` in any order. -/
inductive Stops (s : Stopping) : Stopping → Prop where
  | interruptsReaper : s.point = .interruptReaper →
      Stops s { s with interruptRequested := true, point := .joinReaper }
  | joinsReaper (ids : List Nat) : s.point = .joinReaper → s.reaperEnded = true →
      (ids : Multiset Nat) = s.pool.threads.val → Stops s { s with point := .interrupt ids }
  | interrupts (id : Nat) : s.point = .interrupt (id :: left) →
      Stops s { s with
        pool := { s.pool with interrupted := Insert.insert id s.pool.interrupted }
        point := .interrupt left }
  | passes (ids : List Nat) : s.point = .interrupt [] →
      (ids : Multiset Nat) = s.pool.threads.val → Stops s { s with point := .join ids }
  | joins (id : Nat) : s.point = .join (id :: left) → s.pool.workers id = .ended →
      Stops s { s with point := .join left }
  | returns : s.point = .join [] → Stops s { s with point := .returned }

/-- The points at which the reaper is interrupted: the top of its loop, `Pop` and `join`. -/
def Reaper.interruptible : Reaper → Bool
  | .popping | .joining _ => true
  | _ => false

inductive Step (s : Stopping) : Event → Stopping → Prop where
  | adds (priority : Priority) (controlBlock : Nat) :
      Step s (.adds priority) { s with pool := { s.pool with
        tasks := s.pool.tasks ++ [⟨priority, controlBlock, .user s.pool.added⟩]
        added := s.pool.added + 1 } }
  | stop : Stops s s' → Step s .stop s'
  | works (i : Nat) : Works s.pool i move after → move ≠ .dies →
      Step s (.worker i move) { s with pool := after }
  | dies (i : Nat) : Works s.pool i .dies after →
      Step s (.worker i .dies) { s with
        pool := after
        dropped := s.dropped ++ (s.pool.workers i).drops
        cut := s.cut ++ (s.pool.workers i).cuts }
  | reaper : s.reaperEnded = false → Reaps s.pool after → Step s .reaper { s with pool := after }
  | reaperEnds : s.reaperEnded = false → s.interruptRequested = true →
      Reaper.interruptible s.pool.reaper = true →
      Step s .reaperEnds { s with reaperEnded := true }

/-- The tasks keep to their conduct. -/
def Admits (conduct : Conduct) (s : Stopping) : Event → Prop
  | .worker _ (.finishes serial) => conduct.returns serial
  | .worker i .dies => ∀ serial, s.pool.workers i = .running serial → conduct.interruptible serial
  | _ => True

/-- A `Pop` that finds a task does not wait, and is not interrupted. -/
def Waits (s : Stopping) : Event → Prop
  | .worker i .dies => s.pool.workers i = .popping → s.pool.tasks = []
  | _ => True

def Event.outside : Event → Bool
  | .adds _ => true
  | _ => false

end Stopping

/-! ### The mutexes when `Stop` is called -/

/-- The points at which a worker has `m_mutex`. -/
def Worker.locks : Worker → Bool
  | .peel .wait | .peel .unlock => true
  | _ => false

/-- Both mutexes are with whom the threads say. -/
structure Locked (s : ThreadPool) : Prop where
  map : s.mapLock = true → ∃ id, s.Inserting id
  mutex : ∀ i, s.mutex = some i ↔ (s.workers i).locks = true

variable {s s' : ThreadPool}

theorem Locked.keeps (locked : Locked s) (worker : Worker)
    (same : worker.locks = (s.workers i).locks) (j : Nat) :
    s.mutex = some j ↔ (Function.update s.workers i worker j).locks = true := by
  rw [apply_update_same Worker.locks same]
  exact locked.mutex j

theorem Locked.acquires (locked : Locked s) (free : s.mutex = none) {worker : Worker}
    (inside : worker.locks = true) (j : Nat) :
    some i = some j ↔ (Function.update s.workers i worker j).locks = true := by
  by_cases same : j = i
  · subst same
    simp [inside]
  · have outside : ¬ (s.workers j).locks = true := by
      rw [← locked.mutex j, free]
      nofun
    rw [Function.update_of_ne same]
    exact iff_of_false (fun both => same (Option.some.inj both).symm) outside

theorem Locked.releases (locked : Locked s) (held : s.mutex = some i) {worker : Worker}
    (outside : worker.locks = false) (j : Nat) :
    none = some j ↔ (Function.update s.workers i worker j).locks = true := by
  refine iff_of_false nofun ?_
  by_cases same : j = i
  · subst same
    simp [outside]
  · rw [Function.update_of_ne same, ← locked.mutex j, held]
    exact fun both => same (Option.some.inj both).symm

theorem Locked.peels (locked : Locked s) (here : s.workers i = .peel point)
    (peels : Peels s.flag i s.mutex point m point') (j : Nat) :
    m = some j ↔ (Function.update s.workers i (.peel point') j).locks = true := by
  generalize before : s.mutex = held at peels
  cases peels with
  | test | wake =>
    rw [← before]
    exact locked.keeps _ (by rw [here]; rfl) j
  | lock | relock => exact locked.acquires before rfl j
  | wait | unlock => exact locked.releases before rfl j

theorem interruptible_unlocked {worker : Worker} (here : worker.interruptible = true) :
    worker.locks = false := by
  unfold Worker.interruptible at here
  split at here
  all_goals first | rfl | cases here

theorem Locked.works (locked : Locked s) (works : Works s i move s') : Locked s' := by
  constructor
  · rw [works.frame.mapLock]
    intro held
    obtain ⟨id, inserting⟩ := locked.map held
    refine ⟨id, ?_⟩
    rwa [Inserting, works.frame.todo]
  · cases works with
    | peels _ here peels => exact locked.peels here peels
    | @begins task here => exact locked.keeps _ (by rw [here]; cases task <;> rfl)
    | pops _ _ _ here | finishes here | leaves here | pushes here =>
      exact locked.keeps _ (by rw [here]; rfl)
    | dies _ here => exact locked.keeps _ (interruptible_unlocked here).symm

theorem locks_notified (worker : Worker) : worker.notified.locks = worker.locks := by
  unfold Worker.notified
  split <;> rfl

theorem Locked.owns (locked : Locked s) (sound : Sound s) (owns : Owns s e s') : Locked s' := by
  -- only the owner's `insert` leaves a state in which `m_map_lock` is taken
  have free {action : Action} {rest : List Action} (todo : s.todo = action :: rest)
      (other : ∀ id, action ≠ .insert id) : s.mapLock ≠ true := by
    intro held
    obtain ⟨id, inserting⟩ := locked.map held
    rw [Inserting, todo] at inserting
    exact other id (Option.some.inj inserting)
  have done (todo : s.todo = []) : s.mapLock ≠ true := by
    intro held
    obtain ⟨id, inserting⟩ := locked.map held
    rw [Inserting, todo] at inserting
    cases inserting
  cases owns with
  | calls call idle =>
    have doing := sound.doing
    rw [idle] at doing
    exact ⟨fun held => absurd held (done doing.of_idle), locked.mutex⟩
  | returns call _ todo => exact ⟨fun held => absurd held (done todo), locked.mutex⟩
  | addUser _ todo | addCritical _ todo | setFlag _ todo | size _ _ todo =>
    exact ⟨fun held => absurd held (free todo (by simp)), locked.mutex⟩
  | insert => exact ⟨fun held => absurd held Bool.false_ne_true, locked.mutex⟩
  | notifyAll todo =>
    refine ⟨fun held => absurd held (free todo (by simp)), fun i => ?_⟩
    rw [locks_notified]
    exact locked.mutex i
  | create =>
    refine ⟨fun _ => ⟨s.created, rfl⟩, locked.keeps _ ?_⟩
    rw [(sound.tracked.born s.created).mpr le_rfl]
    rfl

theorem Locked.step (locked : Locked s) (sound : Sound s) (step : Step s e s') : Locked s' := by
  cases step with
  | owner owns => exact locked.owns sound owns
  | worker _ works => exact locked.works works
  | reaper reaps => cases reaps <;> exact ⟨locked.map, locked.mutex⟩

theorem locked_of_run (threadCount : Nat) (run : Run Step (start threadCount) tr s) :
    Locked s := by
  have kept : Sound s ∧ Locked s := by
    apply run.invariant
    · intro s e t ⟨sound, locked⟩ step
      exact ⟨sound.step step, locked.step sound step⟩
    · exact ⟨sound_start threadCount, nofun, fun i => iff_of_false nofun nofun⟩
  exact kept.2

/-! ### The threads while `Stop` goes on -/

/-- How far `Stop` has come. -/
def Passed (s : Stopping) : StopPoint → Prop
  | .interruptReaper => True
  | .joinReaper => s.interruptRequested = true
  | .interrupt left => s.reaperEnded = true ∧
      ∀ id ∈ s.pool.threads, id ∈ left ∨ id ∈ s.pool.interrupted
  | .join left => s.reaperEnded = true ∧
      (∀ id ∈ left, id ∈ s.pool.threads ∧ id ∈ s.pool.interrupted) ∧
      ∀ id ∈ s.pool.threads, id ∈ left ∨ s.pool.workers id = .ended
  | .returned => s.reaperEnded = true ∧ ∀ id ∈ s.pool.threads, s.pool.workers id = .ended

/-- Every thread that has not ended is in the map, and the reaper goes on as it did as long
as it is there. -/
structure Winding (s : Stopping) : Prop where
  tracked : Tracked s.pool
  doomed : s.reaperEnded = false → Doomed s.pool
  locked : Locked s.pool
  todo : s.pool.todo = []
  flag : s.pool.flag ≠ .pause
  passed : Passed s s.point

theorem Works.ended (works : Works s i move s') (ended : s.workers j = .ended) :
    s'.workers j = .ended := by
  obtain ⟨worker, workers, moves⟩ := works.moves
  have other : j ≠ i := by
    rintro rfl
    exact moves.alive.2 ended
  rw [workers, Function.update_of_ne other, ended]

section
variable {t u : Stopping}

/-- A worker that moves does not take `Stop` back. -/
theorem Passed.works (passed : Passed t t.point) (works : Works t.pool i move after)
    (pool : u.pool = after) (point : u.point = t.point)
    (requested : u.interruptRequested = t.interruptRequested)
    (reaper : u.reaperEnded = t.reaperEnded) : Passed u u.point := by
  have threads : u.pool.threads = t.pool.threads := by rw [pool, works.frame.threads]
  have interrupted : u.pool.interrupted = t.pool.interrupted := by
    rw [pool, works.frame.interrupted]
  have ended (id : Nat) (old : t.pool.workers id = .ended) : u.pool.workers id = .ended := by
    rw [pool]
    exact works.ended old
  rw [point]
  cases here : t.point with
  | interruptReaper => trivial
  | joinReaper =>
    rw [here] at passed
    exact requested.trans passed
  | interrupt left =>
    rw [here] at passed
    refine ⟨reaper.trans passed.1, ?_⟩
    rw [threads, interrupted]
    exact passed.2
  | join left =>
    rw [here] at passed
    obtain ⟨gone, waiting, joined⟩ := passed
    refine ⟨reaper.trans gone, ?_, ?_⟩
    · rw [threads, interrupted]
      exact waiting
    · rw [threads]
      exact fun id member => (joined id member).imp_right (ended id)
  | returned =>
    rw [here] at passed
    refine ⟨reaper.trans passed.1, ?_⟩
    rw [threads]
    exact fun id member => ended id (passed.2 id member)

theorem Winding.works (winding : Winding t) (works : Works t.pool i move after)
    (pool : u.pool = after) (point : u.point = t.point)
    (requested : u.interruptRequested = t.interruptRequested)
    (reaper : u.reaperEnded = t.reaperEnded) : Winding u := by
  have passed := winding.passed.works works pool point requested reaper
  constructor
  · exact pool ▸ winding.tracked.works works
  · intro there
    exact pool ▸ (winding.doomed (reaper ▸ there)).works works
  · exact pool ▸ winding.locked.works works
  · rw [pool, works.frame.todo]
    exact winding.todo
  · rw [pool, works.frame.flag]
    exact winding.flag
  · exact passed

/-- The reaper is there only before it is joined. -/
theorem Winding.reaps (winding : Winding t) (there : t.reaperEnded = false)
    (reaps : Reaps t.pool after) : Winding { t with pool := after } := by
  have doomed := winding.doomed there
  have same : after.todo = t.pool.todo ∧ after.flag = t.pool.flag := by
    cases reaps <;> exact ⟨rfl, rfl⟩
  constructor
  · exact winding.tracked.reaps doomed reaps
  · exact fun _ => doomed.reaps winding.tracked reaps
  · cases reaps <;> exact ⟨winding.locked.map, winding.locked.mutex⟩
  · exact same.1.trans winding.todo
  · exact same.2 ▸ winding.flag
  · have passed := winding.passed
    cases here : t.point with
    | interruptReaper => trivial
    | joinReaper =>
      rw [here] at passed
      exact passed
    | interrupt | join | returned =>
      rw [here] at passed
      cases there.symm.trans passed.1

theorem Winding.stops (winding : Winding t) (stops : Stopping.Stops t u) : Winding u := by
  obtain ⟨tracked, doomed, locked, todo, flag, passed⟩ := winding
  cases stops with
  | interruptsReaper => exact ⟨tracked, doomed, locked, todo, flag, rfl⟩
  | joinsReaper ids here ended all =>
    refine ⟨tracked, doomed, locked, todo, flag, ended, fun id member => .inl ?_⟩
    rwa [← Multiset.mem_coe, all]
  | interrupts id here =>
    rw [here] at passed
    refine ⟨⟨tracked.born, tracked.known, tracked.inserting, tracked.present⟩, ?_,
      ⟨locked.map, locked.mutex⟩, todo, flag, passed.1, fun other member => ?_⟩
    · intro there
      cases there.symm.trans passed.1
    · obtain here | done := passed.2 other member
      · obtain rfl | later := List.mem_cons.mp here
        · exact .inr (Finset.mem_insert_self ..)
        · exact .inl later
      · exact .inr (Finset.mem_insert_of_mem done)
  | passes ids here all =>
    rw [here] at passed
    have interrupted (id : Nat) (member : id ∈ t.pool.threads) : id ∈ t.pool.interrupted :=
      (passed.2 id member).resolve_left List.not_mem_nil
    have listed (id : Nat) : id ∈ ids ↔ id ∈ t.pool.threads := by
      rw [← Multiset.mem_coe, all]
      rfl
    refine ⟨tracked, doomed, locked, todo, flag, passed.1, fun id member => ?_, ?_⟩
    · exact ⟨(listed id).mp member, interrupted id ((listed id).mp member)⟩
    · exact fun id member => .inl ((listed id).mpr member)
  | joins id here ended =>
    rw [here] at passed
    obtain ⟨gone, waiting, joined⟩ := passed
    refine ⟨tracked, doomed, locked, todo, flag, gone, ?_, fun other member => ?_⟩
    · exact fun other later => waiting other (List.mem_cons_of_mem id later)
    · obtain here | done := joined other member
      · obtain rfl | later := List.mem_cons.mp here
        · exact .inr ended
        · exact .inl later
      · exact .inr done
  | returns here =>
    rw [here] at passed
    obtain ⟨gone, _, joined⟩ := passed
    refine ⟨tracked, doomed, locked, todo, flag, gone, fun id member => ?_⟩
    exact (joined id member).resolve_left List.not_mem_nil

theorem Winding.step (winding : Winding t) (step : Stopping.Step t e u) : Winding u := by
  cases step with
  | adds =>
    obtain ⟨tracked, doomed, locked, todo, flag, passed⟩ := winding
    refine ⟨⟨tracked.born, tracked.known, tracked.inserting, tracked.present⟩, fun there => ?_,
      ⟨locked.map, locked.mutex⟩, todo, flag, ?_⟩
    · have doomed := doomed there
      exact ⟨doomed.nodup, doomed.waiting, doomed.interrupted, doomed.holds⟩
    · exact passed
  | stop stops => exact winding.stops stops
  | works _ works => exact winding.works works rfl rfl rfl rfl
  | dies _ works => exact winding.works works rfl rfl rfl rfl
  | reaper there reaps => exact winding.reaps there reaps
  | reaperEnds there =>
    obtain ⟨tracked, _, locked, todo, flag, passed⟩ := winding
    refine ⟨tracked, nofun, locked, todo, flag, ?_⟩
    cases here : t.point with
    | interruptReaper => trivial
    | joinReaper =>
      rw [here] at passed
      exact passed
    | interrupt | join | returned =>
      rw [here] at passed
      cases there.symm.trans passed.1

end

theorem winding_enter (sound : Sound s) (locked : Locked s) (idle : s.call = none) :
    Winding (.enter s) := by
  have doing := sound.doing
  rw [idle] at doing
  obtain ⟨_, ⟨born, known, inserting, present⟩, doomed, _⟩ := sound
  exact ⟨⟨born, known, inserting, present⟩,
    fun _ => ⟨doomed.nodup, doomed.waiting, doomed.interrupted, doomed.holds⟩,
    ⟨locked.map, locked.mutex⟩, doing.of_idle, nofun, trivial⟩

section
variable {t u : Stopping}

/-- Once `Stop` has returned, no thread of the pool is left. -/
theorem Winding.none_left (winding : Winding t) (returned : t.point = .returned) (i : Nat) :
    t.pool.workers i = .unborn ∨ t.pool.workers i = .ended := by
  by_cases born : t.pool.workers i = .unborn
  · exact .inl born
  · have passed := winding.passed
    rw [returned] at passed
    by_contra alive
    have present := winding.tracked.present i (winding.tracked.created born) (mt .inr alive)
    obtain member | inserting := present
    · exact alive (.inr (passed.2 i member))
    · rw [Inserting, winding.todo] at inserting
      cases inserting

/-- After that there is nothing but additions. -/
theorem Winding.idles (winding : Winding t) (returned : t.point = .returned)
    (step : Stopping.Step t e u) : ∃ priority, e = .adds priority := by
  have still {i : Nat} {move : Move} {after : ThreadPool} (works : Works t.pool i move after) :
      False := by
    obtain ⟨_, _, moves⟩ := works.moves
    exact (winding.none_left returned i).elim moves.alive.1 moves.alive.2
  cases step with
  | adds priority => exact ⟨priority, rfl⟩
  | works _ works | dies _ works => exact (still works).elim
  | stop stops =>
    cases stops with
    | interruptsReaper here | joinsReaper _ here | interrupts _ here | passes _ here
    | joins _ here | returns here => cases returned.symm.trans here
  | reaper there | reaperEnds there =>
    have passed := winding.passed
    rw [returned] at passed
    cases there.symm.trans passed.1

end

/-- A pool of one worker, which is interrupted between its `Pop` and the `Do` of the task. -/
theorem single_dropped : ∃ past s, Run Step (start 1) past s ∧ s.call = none ∧
    ∃ tr t, Run (Under (Stopping.Admits .plain) Stopping.Step) (.enter s) tr t ∧
      t.point = .returned ∧ t.pool.added = 1 ∧ t.dropped = [0] := by
  refine ⟨_, _, .next (.owner (.addCritical 0 rfl)) <| .next (.owner (.create rfl rfl)) <|
    .next (.owner (.insert 0 rfl)) <| .next (.owner (.returns _ rfl rfl)) <|
    .next (.worker 0 (.pops [] [] ⟨.critical, 0, .sleepingPeel⟩ rfl rfl ?_)) <|
    .next (.worker 0 (.begins rfl (Finset.notMem_empty 0))) <|
    .next (.owner (.calls (.add .normal) rfl nofun)) <| .next (.owner (.addUser 7 rfl)) <|
    .single (.owner (.returns _ rfl rfl)), rfl, _, _,
    .next ⟨.stop (.interruptsReaper rfl), trivial⟩ <|
    .next ⟨.reaperEnds rfl rfl rfl, trivial⟩ <|
    .next ⟨.stop (.joinsReaper [0] rfl rfl rfl), trivial⟩ <|
    .next ⟨.works 0 (.leaves rfl nofun) nofun, trivial⟩ <|
    .next ⟨.works 0 (.pops [] [] ⟨.normal, 7, .user 0⟩ rfl rfl ?_) nofun, trivial⟩ <|
    .next ⟨.stop (.interrupts 0 rfl), trivial⟩ <| .next ⟨.stop (.passes [0] rfl rfl), trivial⟩ <|
    .next ⟨.dies 0 (.dies (Finset.mem_insert_self 0 ∅) rfl), nofun⟩ <|
    .next ⟨.stop (.joins 0 rfl rfl), trivial⟩ <| .single ⟨.stop (.returns rfl), trivial⟩,
    rfl, rfl, rfl⟩
  · simp [Pair.Less, start]
  · simp [Pair.Less, start, Stopping.enter]

end ThreadPool
end DistributedDisk
