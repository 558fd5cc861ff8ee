import DistributedDisk.ThreadPool.Stop

/-! What becomes of the tasks when the pool is stopped: done, left in the queue, or lost by
a worker that was interrupted with a task in its hand. -/
namespace DistributedDisk
open Transition Counting

namespace ThreadPool
variable {s s' : ThreadPool}

/-- The task of the user that a worker loses when it ends. -/
def Worker.loses (worker : Worker) : List Nat := worker.drops ++ worker.cuts

theorem count_loses (worker : Worker) (serial : Nat) :
    worker.loses.count serial = if worker.holds serial then 1 else 0 := by
  cases worker with
  | popped task =>
    cases task with
    | user other =>
      simp [Worker.loses, Worker.drops, Worker.cuts, Worker.holds, List.count_singleton]
    | sleepingPeel | poisonApple => rfl
  | running other =>
    simp [Worker.loses, Worker.drops, Worker.cuts, Worker.holds, List.count_singleton]
  | unborn | popping | peel | apple | ended => rfl

theorem loses_length (worker : Worker) : worker.drops.length + worker.cuts.length ≤ 1 := by
  cases worker with
  | popped task => cases task <;> simp [Worker.drops, Worker.cuts]
  | unborn | popping | running | peel | apple | ended => simp [Worker.drops, Worker.cuts]

/-- A worker that ends takes along the task that it holds; another move changes nothing in
how many places a task is. -/
theorem places_works (tracked : Tracked s) (works : Works s i move s') (serial : Nat) :
    s'.places serial + (if move = .dies then (s.workers i).loses.count serial else 0) =
      s.places serial := by
  obtain ⟨_, _, moves⟩ := works.moves
  have within := tracked.within moves.alive.1
  have keep (worker : Worker) (same : worker.holds serial = (s.workers i).holds serial) :
      tally (.range s.created) (Worker.holds serial) (Function.update s.workers i worker) =
        tally (.range s.created) (Worker.holds serial) s.workers := tally_keeps _ same
  have gains (worker : Worker) (before : (s.workers i).holds serial = false)
      (after : worker.holds serial = true) :
      tally (.range s.created) (Worker.holds serial) (Function.update s.workers i worker) =
        tally (.range s.created) (Worker.holds serial) s.workers + 1 :=
    tally_gains within before after
  have loses (worker : Worker) (before : (s.workers i).holds serial = true)
      (after : worker.holds serial = false) :
      tally (.range s.created) (Worker.holds serial) (Function.update s.workers i worker) + 1 =
        tally (.range s.created) (Worker.holds serial) s.workers :=
    tally_loses within before after
  cases works with
  | pops before after pair here tasks =>
    have empty : (s.workers i).holds serial = false := by rw [here]; rfl
    simp only [places, tasks, List.countP_append, List.countP_cons, reduceCtorEq, if_false]
    by_cases taken : pair.task = .user serial
    · have change := gains (.popped pair.task) empty (by simp [taken, Worker.holds])
      simp only [taken, decide_true, if_true] at change ⊢
      omega
    · have other : (Worker.popped pair.task).holds serial = false := by
        cases task : pair.task with
        | user other => simpa [Worker.holds, task] using taken
        | sleepingPeel | poisonApple => rfl
      have change := keep (.popped pair.task) (other.trans empty.symm)
      simp only [taken, decide_false, Bool.false_eq_true, if_false]
      omega
  | @begins task here =>
    have change := keep task.entry (by rw [here]; cases task <;> rfl)
    simp only [places, change, reduceCtorEq, if_false, Nat.add_zero]
  | @finishes other here =>
    simp only [places, List.count_append, List.count_singleton, reduceCtorEq, if_false]
    by_cases mine : other = serial
    · have change := loses .popping (by simp [here, mine, Worker.holds]) rfl
      simp only [mine, beq_self_eq_true, if_true]
      omega
    · have change := keep .popping (by simp [here, mine, Worker.holds])
      simp only [beq_iff_eq, mine, if_false]
      omega
  | peels _ here | leaves here | pushes here =>
    simp only [places, reduceCtorEq, if_false, Nat.add_zero]
    rw [keep]
    rw [here]
    rfl
  | dies =>
    simp only [places, if_true, count_loses]
    cases held : (s.workers i).holds serial with
    | true =>
      have change := loses .ended held rfl
      simp only [if_true]
      omega
    | false =>
      have change := keep .ended held.symm
      simp only [Bool.false_eq_true, if_false]
      omega

/-- The threads that have not ended. -/
def Worker.alive (worker : Worker) : Bool := worker ≠ .unborn ∧ worker ≠ .ended

def alive (s : ThreadPool) : Nat := tally (.range s.created) Worker.alive s.workers

theorem alive_works (tracked : Tracked s) (works : Works s i move s') :
    s'.alive + (if move = .dies then 1 else 0) = s.alive := by
  obtain ⟨_, _, moves⟩ := works.moves
  have within := tracked.within moves.alive.1
  have before : (s.workers i).alive = true := by simp [Worker.alive, moves.alive]
  have keeps (worker : Worker) (after : worker.alive = true) :
      tally (.range s.created) Worker.alive (Function.update s.workers i worker) = s.alive :=
    tally_keeps _ (after.trans before.symm)
  cases works with
  | @begins task => exact keeps _ (by cases task <;> rfl)
  | pops | finishes | peels | leaves | pushes => exact keeps _ rfl
  | dies => exact tally_loses within before rfl

/-- The threads of the pool are those of the map while the owner is in none of its calls. -/
theorem alive_le (tracked : Tracked s) (todo : s.todo = []) : s.alive ≤ s.threads.card := by
  apply tally_le_card
  intro i member alive
  have alive : s.workers i ≠ .unborn ∧ s.workers i ≠ .ended := by simpa [Worker.alive] using alive
  refine (tracked.present i (Finset.mem_range.mp member) alive.2).resolve_right ?_
  rw [Inserting, todo]
  simp

/-! ### What is lost -/

/-- A task of the user is in one place or lost, by a worker that ended with it. -/
structure Accounted (conduct : Conduct) (threads : Nat) (t : Stopping) : Prop where
  once : ∀ serial, t.pool.places serial + t.dropped.count serial + t.cut.count serial =
    if serial < t.pool.added then 1 else 0
  few : t.dropped.length + t.cut.length + t.pool.alive ≤ threads
  cut : ∀ serial ∈ t.cut, conduct.interruptible serial

section
variable {conduct : Conduct} {threads : Nat} {t u : Stopping}

theorem Accounted.adds (accounted : Accounted conduct threads t) (priority : Priority)
    (controlBlock : Nat) : Accounted conduct threads { t with pool := { t.pool with
      tasks := t.pool.tasks ++ [⟨priority, controlBlock, .user t.pool.added⟩]
      added := t.pool.added + 1 } } := by
  refine ⟨fun serial => ?_, accounted.few, accounted.cut⟩
  have old := accounted.once serial
  simp only [places, List.countP_append, List.countP_singleton, Pair.task_mk, Task.user.injEq,
    decide_eq_true_eq] at old ⊢
  split <;> split at old <;> split <;> omega

theorem Accounted.works (accounted : Accounted conduct threads t) (tracked : Tracked t.pool)
    (works : Works t.pool i move after) (stays : move ≠ .dies) :
    Accounted conduct threads { t with pool := after } := by
  refine ⟨fun serial => ?_, ?_, accounted.cut⟩
  · have same := places_works tracked works serial
    rw [if_neg stays] at same
    have old := accounted.once serial
    rw [works.frame.added]
    simp only at old ⊢
    omega
  · have same := alive_works tracked works
    rw [if_neg stays] at same
    have old := accounted.few
    simp only
    omega

theorem Accounted.dies (accounted : Accounted conduct threads t) (tracked : Tracked t.pool)
    (works : Works t.pool i .dies after)
    (admits : ∀ serial, t.pool.workers i = .running serial → conduct.interruptible serial) :
    Accounted conduct threads { t with
      pool := after
      dropped := t.dropped ++ (t.pool.workers i).drops
      cut := t.cut ++ (t.pool.workers i).cuts } := by
  refine ⟨fun serial => ?_, ?_, fun serial member => ?_⟩
  · have lost := places_works tracked works serial
    rw [if_pos rfl, Worker.loses, List.count_append] at lost
    have old := accounted.once serial
    rw [works.frame.added]
    simp only [List.count_append] at old ⊢
    omega
  · have lost := alive_works tracked works
    rw [if_pos rfl] at lost
    have old := accounted.few
    have most := loses_length (t.pool.workers i)
    simp only [List.length_append]
    omega
  · obtain old | new := List.mem_append.mp member
    · exact accounted.cut serial old
    · cases here : t.pool.workers i with
      | running other =>
        rw [here] at new
        cases List.mem_singleton.mp new
        exact admits serial here
      | unborn | popping | popped | peel | apple | ended =>
        rw [here] at new
        cases new

theorem Accounted.step (accounted : Accounted conduct threads t) (winding : Winding t)
    (step : Under (Stopping.Admits conduct) Stopping.Step t e u) :
    Accounted conduct threads u := by
  obtain ⟨once, few, cut⟩ := accounted
  obtain ⟨step, admits⟩ := step
  cases step with
  | adds priority controlBlock => exact .adds ⟨once, few, cut⟩ priority controlBlock
  | works _ works stays => exact .works ⟨once, few, cut⟩ winding.tracked works stays
  | dies _ works => exact .dies ⟨once, few, cut⟩ winding.tracked works admits
  | stop stops =>
    cases stops with
    | interruptsReaper | joinsReaper | interrupts | passes | joins | returns =>
      exact ⟨once, few, cut⟩
  | reaper _ reaps => cases reaps <;> exact ⟨once, few, cut⟩
  | reaperEnds => exact ⟨once, few, cut⟩

/-- After the return tasks are only added, so the queue keeps what it has. -/
theorem idles_run (winding : Winding t) (returned : t.point = .returned)
    (run : Run Stopping.Step t tr u) : (∀ e ∈ tr, ∃ priority, e = .adds priority) ∧
      u.pool.done = t.pool.done ∧ t.pool.tasks <+: u.pool.tasks := by
  have kept : (Winding u ∧ u.point = .returned) ∧ (∀ e ∈ tr, ∃ priority, e = .adds priority) ∧
      u.pool.done = t.pool.done ∧ t.pool.tasks <+: u.pool.tasks := by
    apply run.history (P := fun tr u => (Winding u ∧ u.point = .returned) ∧
      (∀ e ∈ tr, ∃ priority, e = .adds priority) ∧ u.pool.done = t.pool.done ∧
      t.pool.tasks <+: u.pool.tasks)
    · exact ⟨⟨winding, returned⟩, by simp, rfl, List.prefix_rfl⟩
    intro tr v e w ⟨⟨winding, returned⟩, adds, done, queued⟩ step
    obtain ⟨priority, rfl⟩ := winding.idles returned step
    have next := winding.step step
    cases step with
    | adds _ controlBlock =>
      refine ⟨⟨next, returned⟩, ?_, done, queued.trans (List.prefix_append ..)⟩
      intro e member
      obtain old | new := List.mem_append.mp member
      · exact adds e old
      · exact ⟨priority, List.mem_singleton.mp new⟩
  exact kept.2

/-- What `Stop` makes of the tasks: one that was added is queued, with a worker, done, or
lost by a worker that was interrupted, and each thread loses at most one. After the return
no task is begun any more. -/
structure Abandoned (conduct : Conduct) (s : ThreadPool) (t : Stopping) : Prop where
  once : ∀ serial < t.pool.added,
    t.pool.places serial + t.dropped.count serial + t.cut.count serial = 1
  few : t.dropped.length + t.cut.length ≤ s.threads.card
  cut : ∀ serial ∈ t.cut, conduct.interruptible serial
  returned : t.point = .returned → (∀ serial, t.pool.places serial =
      t.pool.tasks.countP (·.task = .user serial) + t.pool.done.count serial) ∧
    ∀ tr u, Run (Under (Stopping.Admits conduct) Stopping.Step) t tr u →
      (∀ e ∈ tr, ∃ priority, e = .adds priority) ∧ u.pool.done = t.pool.done ∧
        t.pool.tasks <+: u.pool.tasks

theorem stop_abandons (threadCount : Nat) (before : Run Step (start threadCount) past s)
    (idle : s.call = none)
    (run : Run (Under (Stopping.Admits conduct) Stopping.Step) (.enter s) tr t) :
    Abandoned conduct s t := by
  have sound := sound_of_run threadCount before
  have placed : Placed s := by
    have kept : Sound s ∧ Placed s := by
      apply before.invariant
      · intro s e t ⟨sound, placed⟩ step
        exact ⟨sound.step step, placed.step sound step⟩
      · exact ⟨sound_start threadCount, placed_start threadCount⟩
    exact kept.2
  have initial := winding_enter sound (locked_of_run threadCount before) idle
  have invariant : Winding t ∧ Accounted conduct s.threads.card t := by
    apply run.invariant
    · intro s e t ⟨winding, accounted⟩ step
      exact ⟨winding.step step.1, accounted.step winding step⟩
    · refine ⟨initial, placed, ?_, nofun⟩
      have none : (Stopping.enter s).dropped.length + (Stopping.enter s).cut.length = 0 := rfl
      rw [none, Nat.zero_add]
      exact alive_le initial.tracked initial.todo
  obtain ⟨winding, accounted⟩ := invariant
  refine ⟨fun serial early => ?_, ?_, accounted.cut, fun returned => ⟨fun serial => ?_, ?_⟩⟩
  · rw [accounted.once serial, if_pos early]
  · have few := accounted.few
    omega
  · have none : tally (.range t.pool.created) (Worker.holds serial) t.pool.workers = 0 := by
      apply tally_eq_zero
      intro i _
      obtain here | here := winding.none_left returned i
      · rw [here]
        rfl
      · rw [here]
        rfl
    rw [places, none, Nat.add_zero]
  · exact fun tr u run => idles_run winding returned run.guarded

end

/-- The one task of the pool is neither queued nor done. -/
theorem stop_abandons_single : ∃ (past : List Event) (s : ThreadPool) (t : Stopping),
    Run Step (start 1) past s ∧ t.point = .returned ∧ t.pool.added = 1 ∧ t.pool.places 0 = 0 ∧
      Abandoned .plain s t := by
  obtain ⟨past, s, before, idle, tr, t, run, returned, added, dropped⟩ := single_dropped
  have abandoned := stop_abandons 1 before idle run
  refine ⟨past, s, t, before, returned, added, ?_, abandoned⟩
  have once := abandoned.once 0 (by rw [added]; decide)
  rw [dropped, List.count_singleton_self] at once
  omega

end ThreadPool
end DistributedDisk
