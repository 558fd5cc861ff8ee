import DistributedDisk.ThreadPool.Resume
import DistributedDisk.ThreadPool.Resize
import DistributedDisk.ThreadPool.Termination
import Mathlib.Algebra.Order.BigOperators.Group.Finset

/-! A pool that runs and is not paused again: a bound on the steps of its threads, and what
they have done when none of them can go on. -/
namespace DistributedDisk
open Transition Counting

namespace ThreadPool
variable {s s' : ThreadPool}

/-- What the owner does. The other events are those of the pool's own threads. -/
def Event.ofOwner : Event → Bool
  | .worker _ _ | .reaper => false
  | _ => true

/-- Nobody calls `Pause`. -/
def Unpaused (_ : ThreadPool) (e : Event) : Prop := e ≠ .acts (.setFlag .pause)

/-- The pool runs, and no worker is on its way to sleep. -/
structure Awake (s : ThreadPool) : Prop where
  flag : s.flag = .run
  workers : ∀ i, (s.workers i).drowsy = false

/-- Nobody who waits for the reaper is forgotten, and the reaper waits for nobody that it
has not interrupted. -/
structure Claimed (s : ThreadPool) : Prop where
  asleep : ∀ i, s.workers i = .apple true →
    i ∈ s.reaper.doomed ++ s.readyToDie ∨ s.reaper = .joining i
  ended : ∀ i ∈ s.threads, s.workers i = .ended → s.reaper = .joining i ∨ s.reaper = .erasing i
  joining : ∀ id, s.reaper = .joining id → id ∈ s.interrupted

/-! ### The pool stays awake -/

theorem drowsy_notified {worker : Worker} (awake : worker.drowsy = false) :
    worker.notified.drowsy = false := by
  apply notified_drowsy <;>
  · rintro rfl
    cases awake

theorem Awake.step (awake : Awake s) (step : Under Unpaused Step s e s') : Awake s' := by
  obtain ⟨flag, workers⟩ := awake
  obtain ⟨step, unpaused⟩ := step
  cases step with
  | worker _ works => exact ⟨works.frame.flag.trans flag, works.drowsy flag workers⟩
  | reaper reaps => cases reaps <;> exact ⟨flag, workers⟩
  | owner owns =>
    cases owns with
    | calls | returns | addUser | addCritical | size | insert => exact ⟨flag, workers⟩
    | setFlag flag =>
      cases flag with
      | pause => exact absurd rfl unpaused
      | run => exact ⟨rfl, workers⟩
    | notifyAll => exact ⟨flag, fun i => drowsy_notified (workers i)⟩
    | create => exact ⟨flag, forall_update (Worker.drowsy · = false) workers rfl s.created⟩

/-! ### Who waits for the reaper -/

/-- A worker comes to wait for the reaper only by telling it. -/
theorem Works.tells (works : Works s i move s') (asleep : s'.workers i = .apple true) :
    s'.readyToDie = s.readyToDie ++ [i] := by
  cases works with
  | pushes => rfl
  | @begins task =>
    simp only [Function.update_self] at asleep
    cases task <;> cases asleep
  | pops | finishes | peels | leaves | dies =>
    simp only [Function.update_self] at asleep
    cases asleep

theorem Claimed.works (claimed : Claimed s) (doomed : Doomed s) (works : Works s i move s') :
    Claimed s' := by
  obtain ⟨asleep, ended, joining⟩ := claimed
  have frame := works.frame
  obtain ⟨worker, workers, moves⟩ := works.moves
  have kept : s.readyToDie ⊆ s'.readyToDie := by
    obtain same | ⟨_, _, grown⟩ := works.readyToDie
    · exact same ▸ List.Subset.refl _
    · exact grown ▸ List.subset_append_left ..
  refine ⟨fun j here => ?_, fun j member here => ?_, ?_⟩
  · rw [frame.reaper]
    by_cases same : j = i
    · subst same
      refine .inl (List.mem_append_right _ ?_)
      rw [works.tells here]
      exact List.mem_append_right _ (List.mem_singleton_self j)
    · rw [workers, Function.update_of_ne same] at here
      exact (asleep j here).imp_left fun waits =>
        List.mem_append.mpr ((List.mem_append.mp waits).imp_right (kept ·))
  · rw [frame.threads] at member
    rw [frame.reaper]
    by_cases same : j = i
    · subst same
      rw [workers, Function.update_self] at here
      obtain gone | ⟨_, waits⟩ := doomed.interrupted j (moves.ends here)
      · exact absurd gone moves.alive.2
      · exact .inl waits
    · rw [workers, Function.update_of_ne same] at here
      exact ended j member here
  · rw [frame.reaper, frame.interrupted]
    exact joining

theorem Claimed.reaps (claimed : Claimed s) (tracked : Tracked s) (doomed : Doomed s)
    (reaps : Reaps s s') : Claimed s' := by
  obtain ⟨asleep, ended, joining⟩ := claimed
  cases reaps with
  | pops id here ready =>
    rw [here] at asleep ended
    rw [ready] at asleep
    exact ⟨fun i waits => .inl ((asleep i waits).resolve_right nofun),
      fun i member gone => by cases ended i member gone <;> contradiction, nofun⟩
  | finds id here free =>
    have member := doomed.found tracked here free
    rw [here] at asleep ended
    rw [if_pos member]
    exact ⟨fun i waits => .inl ((asleep i waits).resolve_right nofun),
      fun i member gone => by cases ended i member gone <;> contradiction, nofun⟩
  | interrupts id here =>
    rw [here] at asleep ended
    refine ⟨fun i waits => ?_, fun i member gone => ?_, fun other here => ?_⟩
    · obtain rfl | later := List.mem_cons.mp ((asleep i waits).resolve_right nofun)
      · exact .inr rfl
      · exact .inl later
    · cases ended i member gone <;> contradiction
    · cases here
      exact Finset.mem_insert_self ..
  | joins id here gone =>
    rw [here] at asleep ended
    refine ⟨fun i waits => ?_, fun i member gone => ?_, nofun⟩
    · refine .inl ((asleep i waits).resolve_right fun same => ?_)
      cases same
      cases waits.symm.trans gone
    · refine .inr ?_
      cases (ended i member gone).resolve_right nofun
      rfl
  | erases id here =>
    rw [here] at asleep ended
    refine ⟨fun i waits => .inl ((asleep i waits).resolve_right nofun),
      fun i member gone => ?_, nofun⟩
    obtain ⟨other, member⟩ := Finset.mem_erase.mp member
    cases (ended i member gone).resolve_left nofun
    exact absurd rfl other

theorem Claimed.owns (claimed : Claimed s) (sound : Sound s) (owns : Owns s e s') :
    Claimed s' := by
  obtain ⟨ready, interrupted, reaper, _⟩ := owns.frame
  -- the owner leads no worker to one of these points
  have old (i : Nat) (point : Worker) (awake : point ≠ .peel .blocked ∧ point ≠ .peel .notified ∧
      point ≠ .popping) (here : s'.workers i = point) : s.workers i = point := by
    obtain ⟨blocked, notified, popping⟩ := awake
    cases owns with
    | calls | returns | addUser | addCritical | setFlag | size | insert => exact here
    | notifyAll => exact (notified_eq_iff point blocked notified).mp here
    | create =>
      by_cases same : i = s.created
      · subst same
        simp only [Function.update_self] at here
        exact absurd here.symm popping
      · simpa only [Function.update_of_ne same] using here
  constructor
  · intro i here
    rw [ready, reaper]
    exact claimed.asleep i (old i _ ⟨nofun, nofun, nofun⟩ here)
  · intro i member here
    rw [reaper]
    have gone := old i .ended ⟨nofun, nofun, nofun⟩ here
    refine claimed.ended i ?_ gone
    cases owns with
    | insert id todo =>
      refine (Finset.mem_insert.mp member).resolve_left ?_
      rintro rfl
      exact sound.alive i (by rw [Inserting, todo]; rfl) gone
    | calls | returns | addUser | addCritical | setFlag | size | notifyAll | create =>
      exact member
  · rw [reaper, interrupted]
    exact claimed.joining

theorem Claimed.step (claimed : Claimed s) (sound : Sound s) (step : Step s e s') :
    Claimed s' := by
  cases step with
  | owner owns => exact claimed.owns sound owns
  | worker _ works => exact claimed.works sound.doomed works
  | reaper reaps => exact claimed.reaps sound.tracked sound.doomed reaps

/-! ### The pool at rest -/

/-- What a pool that runs keeps. -/
structure Running (s : ThreadPool) : Prop where
  sound : Sound s
  locked : Locked s
  placed : Placed s
  claimed : Claimed s
  awake : Awake s

theorem Running.step (running : Running s) (step : Under Unpaused Step s e s') : Running s' where
  sound := running.sound.step step.1
  locked := running.locked.step running.sound step.1
  placed := running.placed.step running.sound step.1
  claimed := running.claimed.step running.sound step.1
  awake := running.awake.step step

theorem effort_notified (worker : Worker) : worker.notified.effort ≤ worker.effort := by
  unfold Worker.notified
  split
  · decide
  · exact Nat.le_refl _

/-- A call gives the threads of the pool one more task to do, or one more thread. -/
theorem effort_owns (owns : Owns s e s') : s'.effort ≤ s.effort + 8 := by
  cases owns with
  | calls | returns | setFlag | size | insert => exact Nat.le_add_right ..
  | addUser | addCritical =>
    simp only [effort, List.length_append, List.length_singleton]
    omega
  | notifyAll =>
    have less : ∑ i ∈ .range s.created, (s.workers i).notified.effort ≤
        ∑ i ∈ .range s.created, (s.workers i).effort :=
      Finset.sum_le_sum fun i _ => effort_notified (s.workers i)
    simp only [effort]
    omega
  | create =>
    have old : ∑ i ∈ .range s.created,
        (Function.update s.workers s.created .popping i).effort =
          ∑ i ∈ .range s.created, (s.workers i).effort := by
      apply Finset.sum_congr rfl
      intro i member
      rw [Function.update_of_ne (Nat.ne_of_lt (Finset.mem_range.mp member))]
    have new : Worker.popping.effort = 1 := rfl
    simp only [effort, Finset.sum_range_succ, old, Function.update_self, new]
    omega

theorem Running.descends (running : Running s) :
    Descends Event.ofOwner 8 effort (Under Unpaused Step) s := by
  constructor
  · intro e t ⟨step, _⟩ inner
    cases step with
    | owner owns => cases owns <;> cases inner
    | worker _ works =>
      apply effort_works running.sound.tracked _ works
      rw [running.awake.flag]
      nofun
    | reaper reaps => exact (effort_reaps reaps).1
  · intro e t ⟨step, _⟩ outer
    cases step with
    | owner owns => exact effort_owns owns
    | worker | reaper => cases outer

/-- None of the pool's own threads can go on. -/
def Still (s : ThreadPool) : Prop :=
  (∀ i move t, ¬ Works s i move t) ∧ ∀ t, ¬ Reaps s t

theorem Still.of_quiet (quiet : Quiet Event.ofOwner (Under Unpaused Step) s) : Still s := by
  constructor
  · intro i move t works
    cases quiet (.worker i move) t ⟨.worker i works, nofun⟩
  · intro t reaps
    cases quiet .reaper t ⟨.reaper reaps, nofun⟩

theorem Running.mapLock (running : Running s) (done : s.todo = []) : s.mapLock = false := by
  by_contra held
  obtain ⟨id, inserting⟩ := running.locked.map (Bool.eq_true_of_not_eq_false held)
  rw [Inserting, done] at inserting
  cases inserting

/-- The reaper rests only when nobody waits for it. -/
theorem Running.reaper_rests (running : Running s) (still : Still s) (done : s.todo = []) :
    s.reaper = .popping ∧ s.readyToDie = [] := by
  have free := running.mapLock done
  have doomed := running.sound.doomed
  have holds := doomed.holds
  cases here : s.reaper with
  | popping =>
    refine ⟨rfl, ?_⟩
    cases ready : s.readyToDie with
    | nil => rfl
    | cons id rest => exact absurd (.pops id here ready) (still.2 _)
  | popped id => exact absurd (.finds id here free) (still.2 _)
  | found it =>
    rw [here] at holds
    obtain ⟨id, rfl, _⟩ := holds
    exact absurd (.interrupts id here) (still.2 _)
  | joining id =>
    have interrupted := running.claimed.joining id here
    obtain ended | ⟨asleep, _⟩ := doomed.interrupted id interrupted
    · exact absurd (.joins id here ended) (still.2 _)
    · exact absurd (.dies interrupted (by rw [asleep]; rfl)) (still.1 id _ _)
  | erasing id => exact absurd (.erases id here free) (still.2 _)

/-- A worker rests only in a `Pop` that finds no task, or when it has ended. -/
theorem Running.worker_rests (running : Running s) (still : Still s) (done : s.todo = [])
    (i : Nat) : s.workers i = .unborn ∨ s.workers i = .ended ∨
      s.workers i = .popping ∧ s.tasks = [] := by
  have moves {move : Move} {t : ThreadPool} : ¬ Works s i move t := still.1 i move t
  have alert := running.awake.workers i
  cases here : s.workers i with
  | unborn => exact .inl rfl
  | ended => exact .inr (.inl rfl)
  | popping =>
    refine .inr (.inr ⟨rfl, ?_⟩)
    by_contra some
    obtain ⟨pair, listed, greatest⟩ := exists_greatest s.tasks some
    obtain ⟨before, after, tasks⟩ := List.append_of_mem listed
    exact moves (.pops before after pair here tasks greatest)
  | popped task =>
    refine absurd (.begins here fun interrupted => ?_) moves
    obtain other | ⟨other, _⟩ := running.sound.doomed.interrupted i interrupted <;>
    cases here.symm.trans other
  | running serial => exact absurd (.finishes here) moves
  | apple pushed =>
    cases pushed with
    | false => exact absurd (.pushes here) moves
    | true =>
      obtain ⟨idle, empty⟩ := running.reaper_rests still done
      have waits := running.claimed.asleep i here
      rw [idle, empty] at waits
      cases waits <;> contradiction
  | peel point =>
    rw [here] at alert
    cases point with
    | lock | wait | blocked => cases alert
    | test =>
      refine absurd (.leaves here ?_) moves
      rw [running.awake.flag]
      nofun
    | notified =>
      cases held : s.mutex with
      | none => exact absurd (.peels (some i) here (by rw [held]; exact .relock)) moves
      | some j =>
        -- the one that has the mutex can go on
        obtain ⟨point, point', after, there, peels⟩ := running.locked.moves held
        exact absurd (.peels after there peels) (still.1 j _ _)
    | unlock =>
      have held : s.mutex = some i := (running.locked.mutex i).mpr (by rw [here]; rfl)
      exact absurd (.peels none here (by rw [held]; exact .unlock)) moves

/-- When the threads of the pool can do nothing more, there is none left, or nothing is left
to do. -/
theorem Running.rests (running : Running s) (still : Still s) (done : s.todo = []) :
    s.threads = ∅ ∨ s.tasks = [] ∧ s.outstanding = 0 ∧
      ∀ serial < s.added, s.done.count serial = 1 := by
  refine s.threads.eq_empty_or_nonempty.imp_right fun ⟨i, member⟩ => ?_
  obtain ⟨idle, _⟩ := running.reaper_rests still done
  have gone (j : Nat) (member : j ∈ s.threads) : s.workers j ≠ .ended := by
    intro ended
    have waits := running.claimed.ended j member ended
    rw [idle] at waits
    cases waits <;> contradiction
  have rests := running.worker_rests still done
  have empty : s.tasks = [] := by
    obtain unborn | ended | ⟨_, empty⟩ := rests i
    · have late := (running.sound.tracked.born i).mp unborn
      exact absurd (running.sound.tracked.known i member) (Nat.not_lt.mpr late)
    · exact absurd ended (gone i member)
    · exact empty
  refine ⟨empty, ?_, fun serial added => ?_⟩
  · have healthy : tally (.range s.created) Worker.poisoned s.workers = 0 := by
      apply tally_eq_zero
      intro j _
      obtain here | here | ⟨here, _⟩ := rests j <;>
      · rw [here]
        rfl
    have none : tally s.threads Worker.gone s.workers = 0 := by
      apply tally_eq_zero
      intro j member
      exact decide_eq_false (gone j member)
    rw [outstanding, empty, healthy, none]
    rfl
  · have place := running.placed serial
    have nobody : tally (.range s.created) (Worker.holds serial) s.workers = 0 := by
      apply tally_eq_zero
      intro j _
      obtain here | here | ⟨here, _⟩ := rests j <;>
      · rw [here]
        rfl
    rwa [places, empty, nobody, List.countP_nil, Nat.zero_add, if_pos added] at place

end ThreadPool
end DistributedDisk
