import DistributedDisk.ThreadPool

/-! `Run` against `SleepingPeel::Do`. The flag is tested outside `m_mutex`, so the
notification can fall between the test of a worker and its wait. -/
namespace DistributedDisk
open Transition Counting

namespace ThreadPool

/-- A worker that saw the flag at `PAUSE` and has not been woken since. -/
def Worker.drowsy : Worker → Bool
  | .peel .lock | .peel .wait | .peel .blocked => true
  | _ => false

/-- `notify_all` is called only while no worker is between its test of the flag
and its wait. -/
def Heard (s : ThreadPool) : Event → Prop
  | .acts .notifyAll => ∀ i, s.workers i ≠ .peel .lock ∧ s.workers i ≠ .peel .wait
  | _ => True

def Resumed (s : ThreadPool) : Prop :=
  s.flag = .run → .notifyAll ∉ s.todo → ∀ i, (s.workers i).drowsy = false

theorem notified_drowsy {worker : Worker} (lock : worker ≠ .peel .lock)
    (wait : worker ≠ .peel .wait) : worker.notified.drowsy = false := by
  unfold Worker.notified
  split
  · rfl
  · rename_i unblocked
    unfold Worker.drowsy
    split <;> simp_all

theorem Peels.drowsy (peels : Peels .run i m point m' point')
    (awake : (Worker.peel point).drowsy = false) : (Worker.peel point').drowsy = false := by
  cases peels with
  | test _ paused => cases paused
  | lock | wait => cases awake
  | wake | relock | unlock => rfl

theorem Works.drowsy {s s' : ThreadPool} (works : Works s i move s') (run : s.flag = .run)
    (awake : ∀ i, (s.workers i).drowsy = false) : ∀ i, (s'.workers i).drowsy = false := by
  have keep (worker : Worker) (here : worker.drowsy = false) :
      ∀ j, (Function.update s.workers i worker j).drowsy = false :=
    forall_update (Worker.drowsy · = false) awake here i
  cases works with
  | @begins task => exact keep _ (by cases task <;> rfl)
  | @peels point point' _ here peels =>
    rw [run] at peels
    exact keep _ (peels.drowsy (here ▸ awake i))
  | pops | finishes | leaves | pushes | dies => exact keep _ rfl

theorem Resumed.step {s s' : ThreadPool} (resumed : Resumed s) (doing : Doing s.call s.todo)
    (step : Under Heard Step s e s') : Resumed s' := by
  obtain ⟨step, heard⟩ := step
  intro run notified
  cases step with
  | worker _ works =>
    have same : s'.flag = s.flag ∧ s'.todo = s.todo := by cases works <;> exact ⟨rfl, rfl⟩
    rw [same.1] at run
    rw [same.2] at notified
    exact works.drowsy run (resumed run notified)
  | reaper reaps => cases reaps <;> exact resumed run notified
  | owner owns =>
    cases owns with
    | calls call idle =>
      rw [idle] at doing
      exact resumed run (by rw [doing.of_idle]; exact List.not_mem_nil)
    | returns => exact resumed run notified
    | addUser _ todo | addCritical _ todo | insert _ todo =>
      exact resumed run (by rw [todo]; simp [notified])
    | size call _ todo =>
      rw [todo] at doing
      exact resumed run (by rw [todo, doing.of_size]; decide)
    | create todo =>
      have awake := resumed run (by rw [todo]; simpa using notified)
      exact forall_update (Worker.drowsy · = false) awake rfl s.created
    | setFlag flag todo =>
      rw [todo] at doing
      obtain ⟨_, _, rest⟩ | ⟨_, pause, _⟩ := doing.of_setFlag
      · exact absurd (by simp [rest]) notified
      · rw [pause] at run
        cases run
    | notifyAll => exact fun i => notified_drowsy (heard i).1 (heard i).2

/-- No `Run` is lost on a worker, as long as none is caught between its test and its
wait. -/
theorem no_lost_resume (threadCount : Nat)
    (run : Run (Under Heard Step) (start threadCount) tr s) (running : s.flag = .run)
    (notified : .notifyAll ∉ s.todo) : ∀ i, s.workers i ≠ .peel .blocked := by
  have kept : Doing s.call s.todo ∧ Resumed s := by
    apply run.invariant
    · intro s e t ⟨doing, resumed⟩ step
      exact ⟨doing.step step.1, resumed.step doing step⟩
    · exact ⟨doing_start threadCount, nofun⟩
  intro i blocked
  have awake := kept.2 running notified i
  rw [blocked] at awake
  cases awake

def single (workers : Nat → Worker) : ThreadPool := { start 1 with
  threads := Insert.insert 0 ∅, workers := workers, created := 1, call := none, todo := [] }

theorem single_tested : ∃ tr workers, Run (Under Heard Step) (start 1) tr (single workers) ∧
    workers 0 = .peel .lock ∧ ∀ i ≠ 0, workers i = .unborn := by
  refine ⟨_, _, .next ⟨.owner (.addCritical 0 rfl), trivial⟩ <|
    .next ⟨.owner (.create rfl rfl), trivial⟩ <|
    .next ⟨.owner (.insert 0 rfl), trivial⟩ <|
    .next ⟨.owner (.returns _ rfl rfl), trivial⟩ <|
    .next ⟨.worker 0 (.pops [] [] ⟨.critical, 0, .sleepingPeel⟩ rfl rfl ?_), trivial⟩ <|
    .next ⟨.worker 0 (.begins rfl (Finset.notMem_empty 0)), trivial⟩ <|
    .single ⟨.worker 0 (.peels none rfl (.test _ rfl)), trivial⟩, rfl, fun i other => ?_⟩
  · simp [Pair.Less, start]
  · have new : (start 1).created = 0 := rfl
    simp only [new, Function.update_of_ne other]
    rfl

/-- The worker goes to sleep before the owner calls `Run`. -/
theorem no_lost_resume_single : ∃ tr s, Run (Under Heard Step) (start 1) tr s ∧
    s.flag = .run ∧ .notifyAll ∉ s.todo ∧ ∀ i, s.workers i ≠ .peel .blocked := by
  obtain ⟨_, workers, run, tested, unborn⟩ := single_tested
  have quiet (i : Nat) :
      Function.update (Function.update workers 0 (.peel .wait)) 0 (.peel .blocked) i ≠ .peel .lock ∧
      Function.update (Function.update workers 0 (.peel .wait)) 0 (.peel .blocked) i ≠
        .peel .wait := by
    by_cases same : i = 0
    · subst same
      exact ⟨nofun, nofun⟩
    · rw [Function.update_of_ne same, Function.update_of_ne same, unborn i same]
      exact ⟨nofun, nofun⟩
  have called := run.trans <| .next ⟨.worker 0 (.peels (some 0) tested .lock), trivial⟩ <|
    .next ⟨.worker 0 (.peels none rfl .wait), trivial⟩ <|
    .next ⟨.owner (.calls .run rfl trivial), trivial⟩ <|
    .next ⟨.owner (.setFlag .run rfl), trivial⟩ <| .single ⟨.owner (.notifyAll rfl), quiet⟩
  exact ⟨_, _, called, rfl, nofun, no_lost_resume 1 called rfl nofun⟩

/-- The owner calls `Run` before the worker goes to sleep. -/
theorem no_lost_resume_fails : ∃ tr s, Run Step (start 1) tr s ∧ s.flag = .run ∧
    s.todo = [] ∧ s.workers 0 = .peel .blocked := by
  obtain ⟨_, workers, run, tested, _⟩ := single_tested
  have notified : (workers 0).notified = .peel .lock := by
    rw [tested]
    rfl
  exact ⟨_, _, run.guarded.trans <| .next (.owner (.calls .run rfl trivial)) <|
    .next (.owner (.setFlag .run rfl)) <| .next (.owner (.notifyAll rfl)) <|
    .next (.worker 0 (.peels (some 0) notified .lock)) <|
    .single (.worker 0 (.peels none rfl .wait)), rfl, rfl, rfl⟩

end ThreadPool
end DistributedDisk
