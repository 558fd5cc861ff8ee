import DistributedDisk.ThreadPool.Reaping
import Mathlib.Algebra.Ring.Int.Defs

/-! What `Resize` aims at. A poison apple counts from its `Push` until the thread
that took it is erased; while one is outstanding, `m_threads.size()` is too large. -/
namespace DistributedDisk
open Transition Counting

namespace ThreadPool

/-- The worker has taken a poison apple. -/
def Worker.poisoned : Worker → Bool
  | .popped .poisonApple | .apple _ => true
  | _ => false

def Worker.gone (worker : Worker) : Bool := worker = .ended

/-- The poison apples that are queued, that a worker has taken, and those whose
thread has ended and is still in `m_threads`. -/
def outstanding (s : ThreadPool) : Nat :=
  s.tasks.countP (·.task = .poisonApple) + tally (.range s.created) Worker.poisoned s.workers +
    tally s.threads Worker.gone s.workers

/-- What an action of the owner adds to the size of the pool in the end. -/
def Action.growth : Action → Int
  | .create | .insert _ => 1
  | .addCritical .poisonApple => -1
  | _ => 0

/-- The size that the pool will have when the owner is through with its call and
all apples are eaten. -/
def goal (s : ThreadPool) : Int :=
  s.threads.card - s.outstanding + (s.todo.map Action.growth).sum

/-- What most moves leave alone: they neither take an apple nor end the thread. -/
theorem Works.unpoisoned (works : Works s i move s') (pops : ∀ task, move ≠ .pops task)
    (dies : move ≠ .dies) : s'.tasks = s.tasks ∧
      (∀ j, (s'.workers j).poisoned = (s.workers j).poisoned) ∧
      ∀ j, (s'.workers j).gone = (s.workers j).gone := by
  cases works with
  | pops => exact absurd rfl (pops _)
  | dies => exact absurd rfl dies
  | @begins task here =>
    refine ⟨rfl, apply_update_same _ ?_, apply_update_same _ ?_⟩ <;>
    · rw [here]
      cases task <;> rfl
  | finishes here | peels _ here | leaves here | pushes here =>
    refine ⟨rfl, apply_update_same _ ?_, apply_update_same _ ?_⟩ <;>
    · rw [here]
      rfl

theorem outstanding_works {s s' : ThreadPool} (sound : Sound s) (works : Works s i move s') :
    s'.outstanding = s.outstanding := by
  have frame := works.frame
  obtain ⟨_, _, moves⟩ := works.moves
  have within := sound.tracked.within moves.alive.1
  by_cases pops : ∃ task, move = .pops task
  · obtain ⟨task, rfl⟩ := pops
    cases works with
    | pops before after pair here tasks =>
      have gone : tally s.threads Worker.gone (Function.update s.workers i (.popped pair.task)) =
          tally s.threads Worker.gone s.workers := tally_keeps _ (by rw [here]; rfl)
      simp only [outstanding, gone, tasks, List.countP_append, List.countP_cons]
      by_cases apple : pair.task = .poisonApple
      · have gains : tally (.range s.created) Worker.poisoned
            (Function.update s.workers i (.popped pair.task)) =
            tally (.range s.created) Worker.poisoned s.workers + 1 :=
          tally_gains within (by rw [here]; rfl) (by rw [apple]; rfl)
        rw [gains]
        simp only [apple, decide_true, if_true]
        omega
      · have same : tally (.range s.created) Worker.poisoned
            (Function.update s.workers i (.popped pair.task)) =
            tally (.range s.created) Worker.poisoned s.workers := by
          apply tally_keeps
          rw [here]
          cases task : pair.task <;> first | rfl | exact absurd task apple
        simp [same, apple]
  by_cases dies : move = .dies
  · subst dies
    cases works with
    | dies interrupted =>
      obtain ⟨asleep, member⟩ := sound.doomed.dying interrupted moves.alive.2
      have loses : tally (.range s.created) Worker.poisoned
          (Function.update s.workers i .ended) + 1 =
          tally (.range s.created) Worker.poisoned s.workers :=
        tally_loses within (by rw [asleep]; rfl) rfl
      have gains : tally s.threads Worker.gone (Function.update s.workers i .ended) =
          tally s.threads Worker.gone s.workers + 1 :=
        tally_gains member (by rw [asleep]; rfl) rfl
      simp only [outstanding]
      omega
  obtain ⟨tasks, poisoned, gone⟩ := works.unpoisoned (fun task same => pops ⟨task, same⟩) dies
  rw [outstanding, outstanding, tasks, frame.created, frame.threads,
    tally_congr fun j _ => poisoned j, tally_congr fun j _ => gone j]

theorem goal_reaps {s s' : ThreadPool} (sound : Sound s) (reaps : Reaps s s') :
    s'.goal = s.goal := by
  cases reaps with
  | pops | finds | interrupts | joins => rfl
  | erases id here =>
    have held := sound.doomed.holds
    rw [here] at held
    have split := tally_split Worker.gone s.workers held.1
    have size := Finset.card_erase_add_one held.1
    rw [held.2] at split
    simp only [goal, outstanding, Worker.gone, decide_true, if_true] at split ⊢
    omega

theorem growth_replicate (count : Nat) (action : Action) :
    ((List.replicate count action).map Action.growth).sum = count * action.growth := by
  rw [List.map_replicate, List.sum_replicate]
  exact Int.nsmul_eq_mul count action.growth

/-- What the owner does, but for reading the size for a `Resize`, was to come. -/
theorem goal_owns {s s' : ThreadPool} (sound : Sound s) (owns : Owns s e s')
    (other : e = .acts .size → ∀ n, s.call ≠ some (.resize n)) : s'.goal = s.goal := by
  obtain ⟨doing, tracked, _, alive⟩ := sound
  cases owns with
  | calls call idle allowed =>
    rw [idle] at doing
    have none : (call.body.map Action.growth).sum = 0 := by
      cases call <;> first | exact allowed.elim | rfl
    simp only [goal, outstanding, none, doing.of_idle]
    rfl
  | returns => rfl
  | addUser _ todo =>
    simp [goal, outstanding, todo, Action.growth]
  | @addCritical _ task _ todo =>
    cases task with
    | user serial =>
      rw [todo] at doing
      exact absurd rfl (doing.not_user serial)
    | sleepingPeel => simp [goal, outstanding, todo, Action.growth]
    | poisonApple =>
      simp only [goal, outstanding, todo, Action.growth, List.countP_append, List.countP_singleton,
        Pair.task_mk, List.map_cons, List.sum_cons, decide_true, if_true]
      omega
  | setFlag _ todo =>
    simp [goal, outstanding, todo, Action.growth]
  | notifyAll todo =>
    have poisoned : tally (.range s.created) Worker.poisoned (fun i => (s.workers i).notified) =
        tally (.range s.created) Worker.poisoned s.workers :=
      tally_notified _ s.workers rfl
    have gone : tally s.threads Worker.gone (fun i => (s.workers i).notified) =
        tally s.threads Worker.gone s.workers := tally_notified _ s.workers rfl
    simp [goal, outstanding, todo, Action.growth, poisoned, gone]
  | size call same todo =>
    rw [todo, same] at doing
    have none : ((call.sized s.threads.card).map Action.growth).sum = 0 := by
      cases call with
      | resize n => exact absurd same (other rfl n)
      | pause => exact growth_replicate _ _
      | construct | add | run => rfl
    simp only [goal, outstanding, todo, doing.of_size, List.append_nil, none]
    rfl
  | create todo =>
    have unborn : s.workers s.created = .unborn := (tracked.born _).mpr le_rfl
    have gone : tally s.threads Worker.gone (Function.update s.workers s.created .popping) =
        tally s.threads Worker.gone s.workers := tally_keeps _ (by rw [unborn]; rfl)
    simp [goal, outstanding, todo, Action.growth, tally_range_succ, Worker.poisoned, gone]
  | insert id todo =>
    have inserting : s.Inserting id := by rw [Inserting, todo]; rfl
    have new := (tracked.inserting id inserting).2.1
    have gone : tally (Insert.insert id s.threads) Worker.gone s.workers =
        tally s.threads Worker.gone s.workers := by
      simp [tally_insert _ _ new, Worker.gone, alive id inserting]
    simp only [goal, outstanding, todo, Action.growth, gone, Finset.card_insert_of_notMem new,
      List.map_cons, List.sum_cons]
    omega

/-- A `Resize` takes the threads that are to die for threads that stay. -/
theorem goal_resize {s s' : ThreadPool} (sound : Sound s) (owns : Owns s (.acts .size) s')
    (here : s.call = some (.resize n)) : s'.goal = n - s.outstanding := by
  have doing := sound.doing
  cases owns with
  | size call same todo =>
    rw [todo] at doing
    rw [here] at same
    cases same
    simp only [goal, outstanding, doing.of_size, List.append_nil, Call.sized]
    split
    · simp only [insertPoisonApples, growth_replicate, Action.growth]
      omega
    · simp only [addThreads, growth_replicate, Action.growth]
      omega

theorem Doing.growth (doing : Doing current left)
    (small : ∀ call, current = some call → ¬ call.Grows) : (left.map Action.growth).sum = 0 := by
  cases doing with
  | idle | done | addUser | setRun | notifyAll | setPause | sizePause | sizeResize => rfl
  | peel peels =>
    rw [List.map_cons, List.sum_cons, insertSleepingPeels, growth_replicate]
    rfl
  | firstPeel | apple => exact absurd trivial (small _ rfl)
  | create call _ grows | insert call _ _ grows => exact absurd grows (small call rfl)

/-- The pool while no other `Resize` follows the one that read the size. -/
structure Settling (n : Nat) (goal : Int) (past : List Event) (s : ThreadPool) : Prop where
  sound : Sound s
  goal : s.goal = goal
  sized : ∀ m, s.call = some (.resize m) → .size ∉ s.todo
  returned : .returns (.resize n) ∈ past → ∀ call, s.call = some call → ¬ call.Grows

theorem Settling.step {s s' : ThreadPool} (settling : Settling n aim past s) (step : Step s e s')
    (other : ∀ m, e ≠ .calls (.resize m)) : Settling n aim (past ++ [e]) s' := by
  obtain ⟨sound, same, sized, returned⟩ := settling
  have quiet (silent : e ≠ .returns (.resize n)) (back : .returns (.resize n) ∈ past ++ [e]) :
      .returns (.resize n) ∈ past := by
    rcases List.mem_append.mp back with back | back
    · exact back
    · exact absurd (List.mem_singleton.mp back).symm silent
  cases step with
  | worker i works =>
    have frame := works.frame
    have goal : s'.goal = s.goal := by
      rw [ThreadPool.goal, ThreadPool.goal, frame.threads, frame.todo,
        outstanding_works sound works]
    refine ⟨sound.step (.worker i works), goal.trans same, ?_, fun back => ?_⟩
    · rw [frame.call, frame.todo]
      exact sized
    · rw [frame.call]
      exact returned (quiet nofun back)
  | reaper reaps =>
    refine ⟨sound.step (.reaper reaps), (goal_reaps sound reaps).trans same, ?_, fun back => ?_⟩
    · cases reaps <;> exact sized
    · have old := returned (quiet nofun back)
      cases reaps <;> exact old
  | owner owns =>
    have goal : s'.goal = s.goal := by
      apply goal_owns sound owns
      rintro rfl m here
      cases owns with
      | size _ _ todo => exact sized m here (by simp [todo])
    refine ⟨sound.step (.owner owns), goal.trans same, ?_, fun back => ?_⟩
    · intro m here member
      cases owns with
      | calls call => exact other m (by rw [Option.some.inj here])
      | returns => cases here
      | addUser _ todo | addCritical _ todo | setFlag _ todo | notifyAll todo | insert _ todo =>
        exact sized m here (by rw [todo]; exact List.mem_cons_of_mem _ member)
      | size _ _ todo => exact sized m here (by simp [todo])
      | create todo =>
        apply sized m here
        rw [todo]
        simpa using member
    · cases owns with
      | calls call _ allowed =>
        rintro _ ⟨⟩ grows
        cases call with
        | construct => exact allowed
        | resize m => exact other m rfl
        | add | run | pause => exact grows
      | returns => nofun
      | addUser | addCritical | setFlag | notifyAll | insert | size | create =>
        exact returned (quiet nofun back)

theorem Call.size_not_mem_sized (call : Call) (len : Nat) : .size ∉ call.sized len := by
  cases call with
  | construct | add | run => exact List.not_mem_nil
  | pause =>
    intro member
    cases (List.mem_replicate.mp member).2
  | resize count =>
    intro member
    simp only [Call.sized] at member
    split at member <;> cases (List.mem_replicate.mp member).2

theorem Settling.start {s s' : ThreadPool} (sound : Sound s) (owns : Owns s (.acts .size) s')
    (here : s.call = some (.resize n)) : Settling n (n - s.outstanding) [] s' := by
  refine ⟨sound.step (.owner owns), goal_resize sound owns here, fun m _ member => ?_, nofun⟩
  have doing := sound.doing
  cases owns with
  | size call _ todo =>
    rw [todo] at doing
    rw [doing.of_size, List.append_nil] at member
    exact call.size_not_mem_sized _ member

/-- The owner is idle and every poison apple in the queue is in front. -/
structure Calm (s : ThreadPool) (apples : List Pair) : Prop where
  tasks : s.tasks = apples
  ready : s.readyToDie = []
  idle : s.reaper = .popping
  free : s.mapLock = false
  call : s.call = none

/-- A worker that pops a poison apple is joined and erased. -/
theorem Calm.reaped {s : ThreadPool} (calm : Calm s (apple :: rest)) (i : Nat)
    (poison : apple.task = .poisonApple) (greatest : ∀ other ∈ apple :: rest, ¬ apple.Less other)
    (here : s.workers i = .popping) (undisturbed : i ∉ s.interrupted) (member : i ∈ s.threads) :
    ∃ tr t, Run Step s tr t ∧ (∀ call, .calls call ∉ tr) ∧ Calm t rest ∧
      t.threads = s.threads.erase i ∧ t.workers = Function.update s.workers i .ended ∧
      t.interrupted = Insert.insert i s.interrupted := by
  obtain ⟨tasks, ready, idle, free, call⟩ := calm
  obtain ⟨priority, controlBlock, task⟩ := apple
  obtain rfl : task = .poisonApple := poison
  have popped : (s.readyToDie ++ [i]) = i :: [] := by rw [ready, List.nil_append]
  refine ⟨_, _, .next (.worker i (.pops [] rest _ here tasks (tasks ▸ greatest))) <|
    .next (.worker i (.begins (Function.update_self ..) undisturbed)) <|
    .next (.worker i (.pushes (Function.update_self ..))) <|
    .next (.reaper (.pops i idle popped)) <| .next (.reaper (.finds i rfl free)) <|
    .next (.reaper (.interrupts i (by rw [if_pos member]))) <|
    .next (.worker i (.dies (Finset.mem_insert_self i _) ?_)) <|
    .next (.reaper (.joins i rfl (Function.update_self ..))) <|
    .single (.reaper (.erases i rfl free)), by simp, ⟨rfl, rfl, rfl, free, call⟩, rfl, ?_, rfl⟩
  · simp [Worker.interruptible]
  · simp [Function.update_idem]

/-- Whatever happens before and afterwards, a `Resize` reaches its target exactly
when no poison apple is outstanding at the moment that it reads the size. -/
theorem resize_reaches_iff (threadCount n : Nat) (before : Run Step (start threadCount) past s)
    (here : s.call = some (.resize n)) (reads : Step s (.acts .size) t) (after : Run Step t tr u)
    (last : ∀ m, .calls (.resize m) ∉ tr) (returned : .returns (.resize n) ∈ tr) :
    u.threads.card = n + u.outstanding ↔ s.outstanding = 0 := by
  have sound := sound_of_run threadCount before
  cases reads with
  | owner owns =>
    have alone : Run (Under (fun _ e => ∀ m, e ≠ .calls (.resize m)) Step) t tr u :=
      after.under fun _ e member m same => last m (same ▸ member)
    have settled : Settling n (n - s.outstanding) tr u := by
      apply alone.history (Settling.start sound owns here)
      intro past v e w settling step
      exact settling.step step.1 step.2
    have doing := settled.sound.doing.growth (settled.returned returned)
    have goal := settled.goal
    rw [ThreadPool.goal, doing] at goal
    omega

/-- An empty pool that has grown to two threads. -/
def twoThreads : ThreadPool :=
  { start 0 with
    threads := Insert.insert 1 (Insert.insert 0 ∅)
    workers := Function.update (Function.update (fun _ => .unborn) 0 .popping) 1 .popping
    created := 2
    call := none
    todo := [] }

theorem twoThreads_run : Run Step (start 0) [.returns (.construct 0), .calls (.resize 2),
    .acts .size, .acts .create, .acts (.insert 0), .acts .create, .acts (.insert 1),
    .returns (.resize 2)] twoThreads :=
  .next (.owner (.returns _ rfl rfl)) <| .next (.owner (.calls (.resize 2) rfl trivial)) <|
    .next (.owner (.size _ rfl rfl)) <| .next (.owner (.create rfl rfl)) <|
    .next (.owner (.insert 0 rfl)) <| .next (.owner (.create rfl rfl)) <|
    .next (.owner (.insert 1 rfl)) <| .single (.owner (.returns _ rfl rfl))

/-- A pool of two threads shrinks to one; when the apple is eaten, the owner asks for one thread
again. -/
theorem resize_reaches_iff_eaten : ∃ past s t u, Run Step (start 0) past s ∧
    .returns (.resize 2) ∈ past ∧ .acts (.addCritical .poisonApple) ∈ past ∧
    Step s (.acts .size) t ∧ Run Step t [.returns (.resize 1)] u ∧ u.threads.card = 1 + u.outstanding := by
  let apple : Pair := ⟨.critical, 0, .poisonApple⟩
  have shrunk : ∃ s, Run Step twoThreads [.calls (.resize 1), .acts .size,
      .acts (.addCritical .poisonApple), .returns (.resize 1)] s ∧ Calm s [apple] ∧
      s.threads = twoThreads.threads ∧ s.interrupted = ∅ ∧ s.workers = twoThreads.workers := by
    refine ⟨_, .next (.owner (.calls (.resize 1) rfl trivial)) <|
      .next (.owner (.size _ rfl rfl)) <| .next (.owner (.addCritical 0 rfl)) <|
      .single (.owner (.returns _ rfl rfl)), ⟨rfl, rfl, rfl, rfl, rfl⟩, rfl, rfl, rfl⟩
  obtain ⟨s, run, calm, threads, interrupted, workers⟩ := shrunk
  obtain ⟨tr, t, eaten, _, calm, threads', workers', _⟩ :=
    calm.reaped 0 rfl (by simp [Pair.Less, apple]) (by rw [workers]; rfl)
      (by simp [interrupted]) (by simp [threads, twoThreads])
  have one : t.threads = {1} := by
    rw [threads', threads]
    rfl
  have healthy : ∀ i, (t.workers i).poisoned = false := by
    let P (worker : Worker) : Prop := worker.poisoned = false
    rw [workers', workers]
    exact forall_update P (forall_update P (forall_update P (fun _ => rfl) rfl 0) rfl 1) rfl 0
  have alive : ∀ i ∈ t.threads, (t.workers i).gone = false := by
    rw [one, workers', workers]
    intro i member
    rw [Finset.mem_singleton.mp member]
    rfl
  have before := ((twoThreads_run.trans run).trans eaten).trans
    (.single (.owner (.calls (.resize 1) calm.call trivial)))
  have none : outstanding { t with call := some (.resize 1), todo := [.size] } = 0 := by
    simp only [outstanding, calm.tasks]
    rw [tally_eq_zero fun i _ => healthy i, tally_eq_zero alive]
    rfl
  have sized : (Call.resize 1).sized t.threads.card ++ [] = [] := by
    rw [one]
    rfl
  have owns : Owns { t with call := some (.resize 1), todo := [.size] } (.acts .size)
      { t with
        call := some (.resize 1)
        todo := (Call.resize 1).sized t.threads.card ++ [] } :=
    .size _ rfl rfl
  rw [sized] at owns
  have after : Run Step { t with call := some (.resize 1), todo := [] } [.returns (.resize 1)] _ :=
    .single (.owner (.returns _ rfl rfl))
  exact ⟨_, _, _, _, before, by simp, by simp, .owner owns, after,
    (resize_reaches_iff 0 1 before rfl (.owner owns) after (by simp) (by simp)).mpr none⟩

/-- `Resize(2)`, `Resize(1)`, and `Resize(1)` again before the first apple is eaten. -/
def shrunkTwice : List Event :=
  [.returns (.construct 0), .calls (.resize 2), .acts .size, .acts .create, .acts (.insert 0),
    .acts .create, .acts (.insert 1), .returns (.resize 2), .calls (.resize 1), .acts .size,
    .acts (.addCritical .poisonApple), .returns (.resize 1), .calls (.resize 1), .acts .size,
    .acts (.addCritical .poisonApple), .returns (.resize 1)]

/-- No apple is left and no thread either. -/
theorem resize_fails : ∃ s tr t, Run Step (start 0) shrunkTwice s ∧ Run Step s tr t ∧
    (∀ call, .calls call ∉ tr) ∧ t.call = none ∧ t.outstanding = 0 ∧ t.threads.card = 0 := by
  let first : Pair := ⟨.critical, 1, .poisonApple⟩
  let second : Pair := ⟨.critical, 0, .poisonApple⟩
  have shrunk : ∃ s, Run Step (start 0) shrunkTwice s ∧ Calm s [first, second] ∧
      s.threads = twoThreads.threads ∧ s.interrupted = ∅ ∧ s.workers = twoThreads.workers := by
    refine ⟨_, twoThreads_run.trans <| .next (.owner (.calls (.resize 1) rfl trivial)) <|
      .next (.owner (.size _ rfl rfl)) <| .next (.owner (.addCritical 1 rfl)) <|
      .next (.owner (.returns _ rfl rfl)) <| .next (.owner (.calls (.resize 1) rfl trivial)) <|
      .next (.owner (.size _ rfl rfl)) <| .next (.owner (.addCritical 0 rfl)) <|
      .single (.owner (.returns _ rfl rfl)), ⟨rfl, rfl, rfl, rfl, rfl⟩, rfl, rfl, rfl⟩
  obtain ⟨s, run, calm, threads, interrupted, workers⟩ := shrunk
  obtain ⟨tr, t, eaten, quiet, calm, threads', workers', interrupted'⟩ :=
    calm.reaped 0 rfl (by simp [Pair.Less, first, second]) (by rw [workers]; rfl)
      (by simp [interrupted]) (by simp [threads, twoThreads])
  obtain ⟨tr', u, eaten', quiet', calm, threads'', workers'', _⟩ :=
    calm.reaped 1 rfl (by simp [Pair.Less, second]) (by rw [workers', workers]; rfl)
      (by simp [interrupted', interrupted]) (by simp [threads', threads, twoThreads])
  have empty : u.threads = ∅ := by
    rw [threads'', threads', threads]
    rfl
  have healthy : ∀ i, (u.workers i).poisoned = false := by
    let P (worker : Worker) : Prop := worker.poisoned = false
    rw [workers'', workers', workers]
    exact forall_update P (forall_update P (forall_update P (forall_update P (fun _ => rfl)
      rfl 0) rfl 1) rfl 0) rfl 1
  refine ⟨s, tr ++ tr', u, run, eaten.trans eaten', fun call member => ?_, calm.call, ?_,
    by rw [empty]; rfl⟩
  · exact (List.mem_append.mp member).elim (quiet call) (quiet' call)
  · rw [outstanding, calm.tasks, empty, tally_eq_zero fun i _ => healthy i]
    rfl

end ThreadPool
end DistributedDisk
