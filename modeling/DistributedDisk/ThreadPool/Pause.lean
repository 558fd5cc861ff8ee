import DistributedDisk.ThreadPool.Reaping

/-! Pausing by counting. A `CRITICAL` task puts the worker that pops it to sleep or
to death, so a pause holds as long as the queue has one for every worker that is
awake. -/
namespace DistributedDisk
open Transition Counting

namespace ThreadPool

/-- The worker will come to `Pop` again, or has a task of the user. -/
def Worker.awake : Worker → Bool
  | .popping | .popped (.user _) | .running _ => true
  | _ => false

def awake (s : ThreadPool) : Nat := tally (.range s.created) Worker.awake s.workers

def criticals (s : ThreadPool) : Nat := s.tasks.countP (·.priority = .critical)

/-- The constructor or a `Pause` has returned and no `Run` has begun since. -/
def Paused (tr : List Event) : Prop :=
  ∃ before call after, tr = before ++ .returns call :: after ∧
    (call = .pause ∨ ∃ count, call = .construct count) ∧ .calls .run ∉ after

/-- A `Pause` returns only when no worker has a task of the user between `Pop` and
`Do`, and in a paused pool a thread is started only when more `CRITICAL` tasks are
queued than workers are awake. -/
def Timely (s : ThreadPool) : Event → Prop
  | .returns .pause => ∀ i serial, s.workers i ≠ .popped (.user serial)
  | .acts .create => s.flag = .pause → (∃ count, s.call = some (.resize count)) →
      s.awake < s.criticals
  | _ => True

/-- Exactly the tasks of the pool itself are `CRITICAL`. -/
def Ranked (s : ThreadPool) : Prop :=
  (∀ priority, s.call = some (.add priority) → priority ≠ .critical) ∧
    ∀ pair ∈ s.tasks, pair.priority = .critical ↔ ∀ serial, pair.task ≠ .user serial

theorem Doing.of_addUser (doing : Doing current (.addUser priority :: rest)) :
    current = some (.add priority) := by
  cases doing
  rfl

theorem Doing.of_create (doing : Doing current (.create :: rest)) :
    ∃ call : Call, current = some call ∧ call.Grows := by
  cases doing with
  | create call _ grows => exact ⟨call, rfl, grows⟩

/-- The constructor and `Pause` add no poison apple. -/
theorem Doing.of_addCritical {current : Call}
    (doing : Doing (some current) (.addCritical task :: rest)) (other : ∀ n, current ≠ .resize n) :
    task = .sleepingPeel := by
  cases doing with
  | peel | firstPeel => rfl
  | apple count => exact absurd rfl (other count)

theorem Doing.not_setFlag (doing : Doing (some .pause) left) (size : .size ∉ left) :
    .setFlag .pause ∉ left := by
  cases doing with
  | done => exact List.not_mem_nil
  | setPause => exact absurd (List.mem_cons_of_mem _ List.mem_cons_self) size
  | sizePause => exact absurd List.mem_cons_self size
  | peel peels => simp [insertSleepingPeels]
  | create _ _ grows | insert _ _ _ grows => exact grows.elim

theorem Ranked.step {s s' : ThreadPool} (ranked : Ranked s) (doing : Doing s.call s.todo)
    (step : Step s e s') : Ranked s' := by
  obtain ⟨adds, ranks⟩ := ranked
  cases step with
  | reaper reaps => cases reaps <;> exact ⟨adds, ranks⟩
  | worker _ works =>
    cases works with
    | pops before after pair _ tasks =>
      refine ⟨adds, fun other queued => ranks other ?_⟩
      rw [tasks]
      exact ((List.sublist_cons_self pair _).append_left _).subset queued
    | begins | finishes | peels | leaves | pushes | dies => exact ⟨adds, ranks⟩
  | owner owns =>
    cases owns with
    | calls call _ allowed =>
      refine ⟨?_, ranks⟩
      rintro priority ⟨⟩
      exact allowed
    | returns => exact ⟨nofun, ranks⟩
    | setFlag | notifyAll | size | create | insert => exact ⟨adds, ranks⟩
    | addUser _ todo =>
      rw [todo] at doing
      refine ⟨adds, fun pair queued => ?_⟩
      rcases List.mem_append.mp queued with queued | queued
      · exact ranks pair queued
      · obtain rfl := List.mem_singleton.mp queued
        exact iff_of_false (adds _ doing.of_addUser) fun none => none _ rfl
    | addCritical _ todo =>
      rw [todo] at doing
      refine ⟨adds, fun pair queued => ?_⟩
      rcases List.mem_append.mp queued with queued | queued
      · exact ranks pair queued
      · obtain rfl := List.mem_singleton.mp queued
        exact iff_of_true rfl doing.not_user

/-! ### The workers of a paused pool -/

theorem Priority.value_lt_critical {priority : Priority} (other : priority ≠ .critical) :
    priority.value < Priority.critical.value := by
  cases priority with
  | low | normal | high => decide
  | critical => exact absurd rfl other

/-- A worker that leaves `Pop` with a task of the pool itself is not awake any more,
and no worker wakes up. -/
theorem slack_works {s s' : ThreadPool} (sound : Sound s) (ranked : Ranked s)
    (works : Works s i move s') (pause : s.flag = .pause) :
    s'.awake + s.criticals ≤ s.awake + s'.criticals := by
  obtain ⟨_, _, moves⟩ := works.moves
  have within := sound.tracked.within moves.alive.1
  have keep (worker : Worker) (same : worker.awake = (s.workers i).awake) :
      tally (.range s.created) Worker.awake (Function.update s.workers i worker) =
        tally (.range s.created) Worker.awake s.workers := tally_keeps _ same
  simp only [ThreadPool.awake, criticals]
  cases works with
  | pops before after pair here tasks =>
    have rank := ranked.2 pair (by simp [tasks])
    simp only [tasks, List.countP_append, List.countP_cons]
    by_cases critical : pair.priority = .critical
    · have own := rank.mp critical
      have loses : tally (.range s.created) Worker.awake
          (Function.update s.workers i (.popped pair.task)) + 1 =
          tally (.range s.created) Worker.awake s.workers := by
        apply tally_loses within (by rw [here]; rfl)
        cases task : pair.task with
        | user serial => exact absurd task (own serial)
        | sleepingPeel | poisonApple => rfl
      simp only [critical, decide_true, if_true]
      omega
    · rw [keep]
      · simp [critical]
      · rw [here]
        cases task : pair.task with
        | user => rfl
        | sleepingPeel | poisonApple => exact absurd (rank.mpr (by simp [task])) critical
  | @begins task here =>
    rw [keep]
    rw [here]
    cases task <;> rfl
  | finishes here | peels _ here | pushes here =>
    rw [keep]
    rw [here]
    rfl
  | leaves _ run => exact absurd pause run
  | dies interrupted =>
    rw [keep]
    rw [(sound.doomed.dying interrupted moves.alive.2).1]
    rfl

/-- While there is a `CRITICAL` task for each worker that is awake, no worker gets
a task of the user. -/
theorem unstarted_works {s s' : ThreadPool} (sound : Sound s) (ranked : Ranked s)
    (works : Works s i move s') (enough : s.awake ≤ s.criticals)
    (unstarted : ∀ j serial, s.workers j ≠ .popped (.user serial)) :
    ∀ j serial, s'.workers j ≠ .popped (.user serial) := by
  let P (worker : Worker) : Prop := ∀ serial, worker ≠ .popped (.user serial)
  cases works with
  | @begins task => exact forall_update P unstarted (by cases task <;> nofun) i
  | finishes | peels | leaves | pushes | dies =>
    refine forall_update P unstarted ?_ i
    nofun
  | pops before after pair here tasks greatest =>
    refine forall_update P unstarted (fun serial same => ?_) i
    have own : pair.task = .user serial := Worker.popped.inj same
    have some : 0 < s.awake :=
      tally_pos (sound.tracked.within (by rw [here]; nofun)) (by rw [here]; rfl)
    obtain ⟨other, queued, critical⟩ := List.countP_pos_iff.mp (some.trans_le enough)
    refine greatest other queued (.inl ?_)
    rw [of_decide_eq_true critical]
    exact Priority.value_lt_critical fun rank =>
      (ranked.2 pair (by simp [tasks])).mp rank serial own

/-- The threads that a step of the owner starts. -/
def Event.starts : Event → Nat
  | .acts .create => 1
  | _ => 0

/-- The `CRITICAL` tasks that it adds. -/
def Event.adds : Event → Nat
  | .acts (.addCritical _) => 1
  | _ => 0

theorem awake_owns {s s' : ThreadPool} (owns : Owns s e s') : s'.awake = s.awake + e.starts := by
  simp only [ThreadPool.awake]
  cases owns with
  | calls | returns | addUser | addCritical | setFlag | size | insert => rfl
  | notifyAll => exact tally_notified _ s.workers rfl
  | create =>
    rw [tally_range_succ, Nat.add_comm]
    rfl

theorem criticals_owns {s s' : ThreadPool} (ranked : Ranked s) (doing : Doing s.call s.todo)
    (owns : Owns s e s') : s'.criticals = s.criticals + e.adds := by
  simp only [criticals]
  cases owns with
  | calls | returns | setFlag | notifyAll | size | create | insert => rfl
  | addUser _ todo =>
    rw [todo] at doing
    simp [ranked.1 _ doing.of_addUser, Event.adds]
  | addCritical => simp [Event.adds]

/-! ### The owner of a paused pool -/

theorem Paused.of_append (paused : Paused (past ++ [e])) :
    (∃ current, e = .returns current ∧ (current = .pause ∨ ∃ count, current = .construct count)) ∨
      Paused past ∧ e ≠ .calls .run := by
  obtain ⟨before, current, after, same, pauses, quiet⟩ := paused
  rcases List.eq_nil_or_concat after with rfl | ⟨after, last, rfl⟩
  · exact .inl ⟨current, List.singleton_inj.mp (List.append_inj' same rfl).2, pauses⟩
  · rw [List.concat_eq_append, ← List.cons_append, ← List.append_assoc] at same
    obtain ⟨rfl, ends⟩ := List.append_inj' same rfl
    obtain rfl := List.singleton_inj.mp ends
    rw [List.concat_eq_append] at quiet
    refine .inr ⟨⟨before, current, after, rfl, pauses, fun member => quiet (by simp [member])⟩, ?_⟩
    rintro rfl
    exact quiet (by simp)

theorem Paused.of_quiet (paused : Paused (past ++ [e])) (quiet : ∀ current, e ≠ .returns current) :
    Paused past := by
  rcases paused.of_append with ⟨current, same, _⟩ | ⟨paused, _⟩
  · exact absurd same (quiet current)
  · exact paused

/-- A task that was not added is not with a worker. -/
theorem Placed.unstarted {s : ThreadPool} (placed : Placed s) (tracked : Tracked s)
    (added : s.added = 0) (i serial : Nat) : s.workers i ≠ .popped (.user serial) := by
  intro here
  have none := placed serial
  have within := tracked.within (i := i) (by rw [here]; nofun)
  have some : 0 < tally (.range s.created) (Worker.holds serial) s.workers :=
    tally_pos within (by rw [here]; exact decide_eq_true rfl)
  rw [added, if_neg (Nat.not_lt_zero serial), places] at none
  omega

/-- The workers that are awake have to be in `m_threads` when no thread is being
inserted. -/
theorem Tracked.awake_le {s : ThreadPool} (tracked : Tracked s) (idle : ∀ id, ¬ s.Inserting id) :
    s.awake ≤ s.threads.card := by
  apply tally_le_card
  intro i member here
  refine (tracked.present i (Finset.mem_range.mp member) fun ended => ?_).resolve_right (idle i)
  rw [ended] at here
  cases here

/-- Nothing lets a worker begin a task of the user. -/
structure Resting (s : ThreadPool) : Prop where
  pause : s.flag = .pause
  enough : s.awake ≤ s.criticals
  unstarted : ∀ i serial, s.workers i ≠ .popped (.user serial)

/-- How far the constructor and `Pause` have come, and what holds once they have
returned. -/
structure Pausing (past : List Event) (s : ThreadPool) : Prop where
  sound : Sound s
  ranked : Ranked s
  placed : Placed s
  constructs : ∀ count, s.call = some (.construct count) → s.flag = .pause ∧ s.added = 0 ∧
    s.awake + s.todo.count .create ≤ s.criticals + s.todo.count (.addCritical .sleepingPeel)
  flagged : s.call = some .pause → .setFlag .pause ∉ s.todo → s.flag = .pause
  sized : s.call = some .pause → .size ∉ s.todo →
    s.awake ≤ s.criticals + s.todo.count (.addCritical .sleepingPeel)
  resting : Paused past → Resting s ∧ s.call ≠ some .run ∧ ∀ count, s.call ≠ some (.construct count)

theorem Resting.works {s s' : ThreadPool} (resting : Resting s) (sound : Sound s)
    (ranked : Ranked s) (works : Works s i move s') : Resting s' := by
  have slack := slack_works sound ranked works resting.pause
  refine ⟨works.frame.flag.trans resting.pause, ?_,
    unstarted_works sound ranked works resting.enough resting.unstarted⟩
  have enough := resting.enough
  omega

/-- The owner starts no thread in a `Run`, and in a `Resize` only with the slack that
is asked for. -/
theorem Resting.owns {s s' : ThreadPool} (resting : Resting s) (ranked : Ranked s)
    (doing : Doing s.call s.todo) (owns : Owns s e s') (timely : s.Timely e)
    (run : s.call ≠ some .run) (construct : ∀ count, s.call ≠ some (.construct count)) :
    Resting s' := by
  have awake := awake_owns owns
  have criticals := criticals_owns ranked doing owns
  obtain ⟨pause, enough, unstarted⟩ := resting
  cases owns with
  | calls | returns | addUser | addCritical | size | insert =>
    simp only [Event.starts] at awake
    exact ⟨pause, by omega, unstarted⟩
  | setFlag flag todo =>
    rw [todo] at doing
    obtain ⟨here, _⟩ | ⟨_, rfl, _⟩ := doing.of_setFlag
    · exact absurd here run
    · exact ⟨rfl, enough, unstarted⟩
  | notifyAll todo =>
    have kept (i serial : Nat) : (s.workers i).notified ≠ .popped (.user serial) := by
      rw [Ne, notified_eq_iff (.popped _) nofun nofun]
      exact unstarted i serial
    simp only [Event.starts] at awake
    exact ⟨pause, by omega, kept⟩
  | create todo =>
    rw [todo] at doing
    obtain ⟨current, here, grows⟩ := doing.of_create
    have resize : ∃ count, s.call = some (.resize count) := by
      cases current with
      | construct count => exact absurd here (construct count)
      | resize count => exact ⟨count, here⟩
      | add | run | pause => exact grows.elim
    have slack := timely pause resize
    simp only [Event.starts, Event.adds] at awake criticals
    refine ⟨pause, by omega, ?_⟩
    let P (worker : Worker) : Prop := ∀ serial, worker ≠ .popped (.user serial)
    exact forall_update P unstarted (by nofun) s.created

theorem Pausing.returns {s s' : ThreadPool} (pausing : Pausing past s)
    (owns : Owns s (.returns current) s') (timely : s.Timely (.returns current))
    (pauses : current = .pause ∨ ∃ count, current = .construct count) : Resting s' := by
  obtain ⟨sound, ranked, placed, constructs, flagged, sized, _⟩ := pausing
  cases owns with
  | returns _ here todo =>
    rw [todo] at constructs flagged sized
    rcases pauses with rfl | ⟨count, rfl⟩
    · exact ⟨flagged here nofun, sized here nofun, timely⟩
    · obtain ⟨pause, added, enough⟩ := constructs count here
      exact ⟨pause, enough, placed.unstarted sound.tracked added⟩

/-- Within the constructor, a peel is added before each thread is started. -/
theorem Pausing.constructs_owns {s s' : ThreadPool} (pausing : Pausing past s)
    (owns : Owns s e s') (here : s'.call = some (.construct count)) :
    s'.flag = .pause ∧ s'.added = 0 ∧ s'.awake + s'.todo.count .create ≤
      s'.criticals + s'.todo.count (.addCritical .sleepingPeel) := by
  have awake := awake_owns owns
  have doing := pausing.sound.doing
  have criticals := criticals_owns pausing.ranked doing owns
  have constructs := pausing.constructs count
  cases owns with
  | calls _ _ allowed =>
    cases here
    exact allowed.elim
  | returns => cases here
  | addUser _ todo | setFlag _ todo | notifyAll todo | size _ _ todo =>
    rw [here, todo] at doing
    cases doing
  | addCritical _ todo =>
    obtain ⟨pause, added, enough⟩ := constructs here
    rw [here, todo] at doing
    obtain rfl := doing.of_addCritical (by nofun)
    simp only [todo, List.count_cons, beq_iff_eq, reduceCtorEq, if_true, if_false] at enough ⊢
    simp only [Event.starts, Event.adds] at awake criticals
    exact ⟨pause, added, by omega⟩
  | create todo =>
    obtain ⟨pause, added, enough⟩ := constructs here
    simp only [todo, List.count_cons, beq_iff_eq, reduceCtorEq, if_true, if_false] at enough ⊢
    simp only [Event.starts, Event.adds] at awake criticals
    exact ⟨pause, added, by omega⟩
  | insert _ todo =>
    obtain ⟨pause, added, enough⟩ := constructs here
    simp only [todo, List.count_cons, beq_iff_eq, reduceCtorEq, if_false] at enough
    exact ⟨pause, added, enough⟩

theorem Pausing.flagged_owns {s s' : ThreadPool} (pausing : Pausing past s) (owns : Owns s e s')
    (here : s'.call = some .pause) (set : .setFlag .pause ∉ s'.todo) : s'.flag = .pause := by
  have doing := pausing.sound.doing
  have flagged := pausing.flagged
  cases owns with
  | calls =>
    cases here
    exact absurd List.mem_cons_self set
  | returns => cases here
  | addCritical _ todo =>
    exact flagged here (by simpa [todo] using set)
  | setFlag _ todo =>
    rw [here, todo] at doing
    cases doing
    rfl
  | size _ _ todo =>
    rw [here, todo] at doing
    exact flagged here (by rw [todo, doing.of_size]; decide)
  | addUser _ todo | notifyAll todo =>
    rw [here, todo] at doing
    cases doing
  | create todo | insert _ todo =>
    rw [here, todo] at doing
    cases doing
    contradiction

/-- `Pause` adds a peel for each thread that it finds in `m_threads`. -/
theorem Pausing.sized_owns {s s' : ThreadPool} (pausing : Pausing past s) (owns : Owns s e s')
    (here : s'.call = some .pause) (size : .size ∉ s'.todo) :
    s'.awake ≤ s'.criticals + s'.todo.count (.addCritical .sleepingPeel) := by
  have awake := awake_owns owns
  have doing := pausing.sound.doing
  have criticals := criticals_owns pausing.ranked doing owns
  have sized := pausing.sized
  cases owns with
  | calls =>
    cases here
    exact absurd (List.mem_cons_of_mem _ List.mem_cons_self) size
  | returns => cases here
  | addCritical _ todo =>
    have enough := sized here (by simpa [todo] using size)
    rw [here, todo] at doing
    obtain rfl := doing.of_addCritical (by nofun)
    rw [todo, List.count_cons_self] at enough
    simp only [Event.starts, Event.adds] at awake criticals ⊢
    omega
  | setFlag _ todo =>
    rw [here, todo] at doing
    cases doing
    exact absurd List.mem_cons_self size
  | size current same todo =>
    cases same.symm.trans here
    have idle (id : Nat) : ¬ s.Inserting id := by
      intro inserting
      rw [Inserting, todo] at inserting
      cases inserting
    have known := pausing.sound.tracked.awake_le idle
    rw [todo] at doing
    simp only [doing.of_size, List.append_nil, Call.sized, insertSleepingPeels,
      List.count_replicate_self, Event.starts, Event.adds] at awake criticals ⊢
    omega
  | addUser _ todo | notifyAll todo =>
    rw [here, todo] at doing
    cases doing
  | create todo | insert _ todo =>
    rw [here, todo] at doing
    cases doing
    contradiction

theorem Pausing.owns {s s' : ThreadPool} (pausing : Pausing past s) (owns : Owns s e s')
    (timely : s.Timely e) : Pausing (past ++ [e]) s' := by
  have doing := pausing.sound.doing
  have step : Step s e s' := .owner owns
  refine ⟨pausing.sound.step step, pausing.ranked.step doing step, pausing.placed.owns doing owns,
    fun _ => pausing.constructs_owns owns, pausing.flagged_owns owns, pausing.sized_owns owns,
    fun paused => ?_⟩
  rcases paused.of_append with ⟨current, rfl, pauses⟩ | ⟨paused, run⟩
  · refine ⟨pausing.returns owns timely pauses, ?_⟩
    cases owns
    exact ⟨nofun, nofun⟩
  · obtain ⟨resting, notRun, notConstruct⟩ := pausing.resting paused
    refine ⟨resting.owns pausing.ranked doing owns timely notRun notConstruct, ?_⟩
    cases owns with
    | calls _ _ allowed =>
      constructor
      · rintro ⟨⟩
        exact run rfl
      · rintro count ⟨⟩
        exact allowed
    | returns => exact ⟨nofun, nofun⟩
    | addUser | addCritical | setFlag | notifyAll | size | create | insert =>
      exact ⟨notRun, notConstruct⟩

theorem Pausing.works {s s' : ThreadPool} (pausing : Pausing past s) (works : Works s i move s') :
    Pausing (past ++ [.worker i move]) s' := by
  obtain ⟨sound, ranked, placed, constructs, flagged, sized, resting⟩ := pausing
  have frame := works.frame
  have step : Step s (.worker i move) s' := .worker i works
  refine ⟨sound.step step, ranked.step sound.doing step, placed.step sound step,
    fun count here => ?_, fun here set => ?_, fun here size => ?_, fun paused => ?_⟩
  · rw [frame.call] at here
    obtain ⟨pause, added, enough⟩ := constructs count here
    have slack := slack_works sound ranked works pause
    rw [frame.todo]
    exact ⟨frame.flag.trans pause, frame.added.trans added, by omega⟩
  · rw [frame.call] at here
    rw [frame.todo] at set
    exact frame.flag.trans (flagged here set)
  · rw [frame.call] at here
    rw [frame.todo] at size ⊢
    have enough := sized here size
    have doing := sound.doing
    rw [here] at doing
    have slack := slack_works sound ranked works (flagged here (doing.not_setFlag size))
    omega
  · obtain ⟨rests, quiet⟩ := resting (paused.of_quiet nofun)
    rw [frame.call]
    exact ⟨rests.works sound ranked works, quiet⟩

theorem Pausing.step {s s' : ThreadPool} (pausing : Pausing past s)
    (step : Under Timely Step s e s') : Pausing (past ++ [e]) s' := by
  obtain ⟨step, timely⟩ := step
  cases step with
  | owner owns => exact pausing.owns owns timely
  | worker _ works => exact pausing.works works
  | reaper reaps =>
    obtain ⟨sound, ranked, placed, constructs, flagged, sized, resting⟩ := pausing
    have step : Step s .reaper s' := .reaper reaps
    refine ⟨sound.step step, ranked.step sound.doing step, placed.step sound step, ?_, ?_, ?_,
      fun paused => ?_⟩
    · cases reaps <;> exact constructs
    · cases reaps <;> exact flagged
    · cases reaps <;> exact sized
    · obtain ⟨⟨pause, enough, unstarted⟩, quiet⟩ := resting (paused.of_quiet nofun)
      cases reaps <;> exact ⟨⟨pause, enough, unstarted⟩, quiet⟩

theorem criticals_start (threadCount : Nat) :
    (start threadCount).todo.count .create = threadCount ∧
      (start threadCount).todo.count (.addCritical .sleepingPeel) = threadCount := by
  simp [start, Call.body, insertSleepingPeels, addThreads, List.count_replicate]

theorem pausing_start (threadCount : Nat) : Pausing [] (start threadCount) := by
  refine ⟨sound_start threadCount, ⟨nofun, nofun⟩, placed_start threadCount, fun count _ => ?_,
    nofun, nofun, ?_⟩
  · obtain ⟨threads, peels⟩ := criticals_start threadCount
    rw [threads, peels]
    exact ⟨rfl, rfl, le_rfl⟩
  · rintro ⟨before, current, after, empty, _⟩
    cases before <;> cases empty

/-- In a run whose pauses return in time and whose paused pool grows only behind its
peels, nothing of the user's begins while the pool is paused. -/
theorem pause_effective (threadCount : Nat) (run : Run (Under Timely Step) (start threadCount) tr s)
    (paused : Paused tr) (begins : Step s (.worker i (.begins task)) t) (serial : Nat) :
    task ≠ .user serial := by
  have kept : Pausing tr s := run.history (pausing_start threadCount) Pausing.step
  rintro rfl
  cases begins with
  | owner owns => cases owns
  | worker _ works =>
    cases works with
    | begins here => exact (kept.resting paused).1.unstarted i serial here

/-- The one thread of a pool has run, a `Pause` puts it to sleep, and a second one leaves its
peel in the queue. A task is added, and the pool grows to two threads; the new one takes the
peel. -/
def grownPaused : List Event :=
  [.acts (.addCritical .sleepingPeel), .acts .create, .acts (.insert 0), .returns (.construct 1),
    .calls .run, .acts (.setFlag .run), .acts .notifyAll, .returns .run,
    .worker 0 (.pops .sleepingPeel), .worker 0 (.begins .sleepingPeel), .worker 0 .leaves,
    .calls .pause, .acts (.setFlag .pause), .acts .size, .acts (.addCritical .sleepingPeel),
    .returns .pause, .worker 0 (.pops .sleepingPeel), .worker 0 (.begins .sleepingPeel),
    .calls .pause, .acts (.setFlag .pause), .acts .size, .acts (.addCritical .sleepingPeel),
    .returns .pause, .calls (.add .normal), .acts (.addUser .normal), .returns (.add .normal),
    .calls (.resize 2), .acts .size, .acts .create, .acts (.insert 1), .returns (.resize 2),
    .worker 1 (.pops .sleepingPeel)]

theorem pause_effective_grown : ∃ s t, Run (Under Timely Step) (start 1) grownPaused s ∧
    s.added = 1 ∧ Step s (.worker 1 (.begins .sleepingPeel)) t ∧ Task.sleepingPeel ≠ .user 0 := by
  let peel : Pair := ⟨.critical, 0, .sleepingPeel⟩
  have run : ∃ s t, Run (Under Timely Step) (start 1) grownPaused s ∧ s.added = 1 ∧
      Step s (.worker 1 (.begins .sleepingPeel)) t := by
    refine ⟨_, _, .next ⟨.owner (.addCritical 0 rfl), trivial⟩ <|
      .next ⟨.owner (.create rfl rfl), nofun⟩ <| .next ⟨.owner (.insert 0 rfl), trivial⟩ <|
      .next ⟨.owner (.returns _ rfl rfl), trivial⟩ <|
      .next ⟨.owner (.calls .run rfl trivial), trivial⟩ <|
      .next ⟨.owner (.setFlag _ rfl), trivial⟩ <| .next ⟨.owner (.notifyAll rfl), trivial⟩ <|
      .next ⟨.owner (.returns _ rfl rfl), trivial⟩ <|
      .next ⟨.worker 0 (.pops [] [] peel rfl rfl (by simp [peel, Pair.Less, start])), trivial⟩ <|
      .next ⟨.worker 0 (.begins rfl (Finset.notMem_empty 0)), trivial⟩ <|
      .next ⟨.worker 0 (.leaves rfl (by simp)), trivial⟩ <|
      .next ⟨.owner (.calls .pause rfl trivial), trivial⟩ <|
      .next ⟨.owner (.setFlag _ rfl), trivial⟩ <| .next ⟨.owner (.size _ rfl rfl), trivial⟩ <|
      .next ⟨.owner (.addCritical 0 rfl), trivial⟩ <|
      .next ⟨.owner (.returns _ rfl rfl), fun i serial => ?_⟩ <|
      .next ⟨.worker 0 (.pops [] [] peel rfl rfl (by simp [peel, Pair.Less])), trivial⟩ <|
      .next ⟨.worker 0 (.begins rfl (Finset.notMem_empty 0)), trivial⟩ <|
      .next ⟨.owner (.calls .pause rfl trivial), trivial⟩ <|
      .next ⟨.owner (.setFlag _ rfl), trivial⟩ <| .next ⟨.owner (.size _ rfl rfl), trivial⟩ <|
      .next ⟨.owner (.addCritical 0 rfl), trivial⟩ <|
      .next ⟨.owner (.returns _ rfl rfl), fun i serial => ?_⟩ <|
      .next ⟨.owner (.calls (.add .normal) rfl nofun), trivial⟩ <|
      .next ⟨.owner (.addUser 7 rfl), trivial⟩ <| .next ⟨.owner (.returns _ rfl rfl), trivial⟩ <|
      .next ⟨.owner (.calls (.resize 2) rfl trivial), trivial⟩ <|
      .next ⟨.owner (.size _ rfl rfl), trivial⟩ <|
      .next ⟨.owner (.create rfl rfl), fun _ _ => by decide⟩ <|
      .next ⟨.owner (.insert 1 rfl), trivial⟩ <| .next ⟨.owner (.returns _ rfl rfl), trivial⟩ <|
      .single ⟨.worker 1 (.pops [] [⟨.normal, 7, .user 0⟩] peel rfl rfl ?_), trivial⟩, rfl,
      .worker 1 (.begins rfl (Finset.notMem_empty 1))⟩
    · by_cases first : i = 0 <;> simp [start, first, Worker.notified]
    · by_cases first : i = 0 <;> simp [start, first, Worker.notified, Task.entry]
    · simp [peel, Pair.Less, Priority.value]
  obtain ⟨s, t, run, added, begins⟩ := run
  have paused : Paused grownPaused :=
    ⟨grownPaused.take 22, .pause, grownPaused.drop 23, rfl, .inl rfl, by decide⟩
  exact ⟨s, t, run, added, begins, pause_effective 1 run paused begins 0⟩

/-- The owner resizes the paused pool, and the new thread begins a task. -/
theorem pause_fails : ∃ tr s t, Run Step (start 0) tr s ∧ Paused tr ∧
    Step s (.worker 0 (.begins (.user 0))) t := by
  refine ⟨[.returns (.construct 0), .calls (.add .normal), .acts (.addUser .normal),
    .returns (.add .normal), .calls (.resize 1), .acts .size, .acts .create, .acts (.insert 0),
    .returns (.resize 1), .worker 0 (.pops (.user 0))], _, _,
    .next (.owner (.returns _ rfl rfl)) <| .next (.owner (.calls (.add .normal) rfl nofun)) <|
    .next (.owner (.addUser 7 rfl)) <| .next (.owner (.returns _ rfl rfl)) <|
    .next (.owner (.calls (.resize 1) rfl trivial)) <| .next (.owner (.size _ rfl rfl)) <|
    .next (.owner (.create rfl rfl)) <| .next (.owner (.insert 0 rfl)) <|
    .next (.owner (.returns _ rfl rfl)) <|
    .single (.worker 0 (.pops [] [] ⟨.normal, 7, .user 0⟩ rfl rfl ?_)),
    ⟨[], .construct 0, _, rfl, .inr ⟨0, rfl⟩, by decide⟩,
    .worker 0 (.begins rfl (Finset.notMem_empty 0))⟩
  simp [Pair.Less, start]

end ThreadPool
end DistributedDisk
